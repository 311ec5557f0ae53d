import Mathlib.Data.List.Nodup
import Variance.Sanity.IdealGroup
import Variance.Sanity.InviteSteps
import Variance.Sanity.Listed
import Variance.Proofs.RemoteAuthority
import Variance.Spec.Groups

/-! A group that is not frozen keeps an admin. Every operation that takes a member or a role away makes sure of
it, except the delete; an abandon relies on its notice. -/

namespace Variance

/-- A member is listed once, and somebody leads the group, unless it is frozen or has nobody left. -/
structure Group.Led (group : Group) : Prop where
  nodup : (group.members.map (·.did)).Nodup
  admin : group.members = [] ∨ group.frozen = true ∨ ∃ m ∈ group.members, m.role = GroupRole.admin

namespace Group
variable {group : Group} {d : Did} {m m' : GroupMember}

theorem eq_of_did (h : (group.members.map (·.did)).Nodup) (hm : m ∈ group.members) (hm' : m' ∈ group.members)
    (hd : m.did = m'.did) : m = m' :=
  List.inj_on_of_nodup_map h hm hm' hd

theorem find_did (h : (group.members.map (·.did)).Nodup) (hm : m ∈ group.members) :
    group.members.find? (fun x => x.did = m.did) = some m := by
  have hsome : (group.members.find? fun x => x.did = m.did).isSome := by
    rw [List.find?_isSome]
    exact ⟨m, hm, by simp⟩
  obtain ⟨x, hx⟩ := Option.isSome_iff_exists.1 hsome
  have hxd : x.did = m.did := by simpa using List.find?_some hx
  rw [hx, eq_of_did h (List.mem_of_find?_eq_some hx) hm hxd]

theorem memberRole_admin (h : (group.members.map (·.did)).Nodup) (hm : m ∈ group.members)
    (hr : m.role = GroupRole.admin) : memberRoleFromMetadata (some group) m.did = "admin" := by
  have hfind := find_did h hm
  unfold memberRoleFromMetadata
  simp only [Option.bind_some]
  rw [hfind]
  dsimp only
  rw [hr]
  rfl

theorem Led.add (h : group.Led) (hne : group.members ≠ []) (hd : ¬ group.members.any fun m => m.did = d)
    (m : GroupMember) (hm : m.did = d) : Led { group with members := group.members ++ [m] } := by
  refine ⟨?_, Or.inr ?_⟩
  · dsimp only
    rw [List.map_append, List.nodup_append]
    refine ⟨h.nodup, by simp, ?_⟩
    intro a ha b hb hab
    obtain ⟨x, hx, rfl⟩ := List.mem_map.1 ha
    obtain rfl : b = d := by simpa [hm] using hb
    exact hd (List.any_eq_true.2 ⟨x, hx, by simpa using hab⟩)
  · rcases h.admin with hnil | hf | ⟨a, ha, hr⟩
    · exact (hne hnil).elim
    · exact Or.inl hf
    · exact Or.inr ⟨a, List.mem_append_left _ ha, hr⟩

/-- Whoever goes, somebody leads what is left. -/
def Survives (group : Group) (d : Did) : Prop :=
  group.frozen = true ∨ (∃ m ∈ group.members, m.role = GroupRole.admin ∧ m.did ≠ d) ∨
    ∀ m ∈ group.members, m.did = d

theorem Led.without (h : group.Led) (hd : group.Survives d) : (group.without d).Led := by
  refine ⟨h.nodup.sublist (List.filter_sublist.map _), ?_⟩
  rcases hd with hf | ⟨m, hm, hr, hne⟩ | hall
  · exact Or.inr (Or.inl hf)
  · exact Or.inr (Or.inr ⟨m, List.mem_filter.2 ⟨hm, by simpa using hne⟩, hr⟩)
  · refine Or.inl (List.filter_eq_nil_iff.2 fun m hm => ?_)
    simpa using hall m hm

theorem Led.freeze (h : group.Led) : Led { group.without d with frozen := true } :=
  ⟨h.nodup.sublist (List.filter_sublist.map _), Or.inr (Or.inl rfl)⟩

/-- Who is not an admin can go. -/
theorem Led.survives (h : group.Led) (hd : memberRoleFromMetadata (some group) d ≠ "admin") :
    group.Survives d := by
  rcases h.admin with hnil | hf | ⟨m, hm, hr⟩
  · exact Or.inr (Or.inr (by simp [hnil]))
  · exact Or.inl hf
  · refine Or.inr (Or.inl ⟨m, hm, hr, ?_⟩)
    rintro rfl
    exact hd (memberRole_admin h.nodup hm hr)

theorem mem_setRole {r : GroupRole} {ms : List GroupMember} (hm : m ∈ ms) :
    m ∈ LocalMessageStorage.setRole d r ms ∨
      m.did = d ∧ { m with role := r } ∈ LocalMessageStorage.setRole d r ms := by
  induction ms with
  | nil => simp at hm
  | cons a ms ih =>
    unfold LocalMessageStorage.setRole
    split_ifs with ha
    · rcases List.mem_cons.1 hm with rfl | hm
      · exact Or.inr ⟨ha, by simp⟩
      · exact Or.inl (by simp [hm])
    · rcases List.mem_cons.1 hm with rfl | hm
      · exact Or.inl (by simp)
      · rcases ih hm with h | ⟨hd, h⟩
        · exact Or.inl (by simp [h])
        · exact Or.inr ⟨hd, by simp [h]⟩

/-- An admin is demoted by nobody; anybody may be promoted. -/
theorem Led.setRole (h : group.Led) {r : GroupRole}
    (hr : memberRoleFromMetadata (some group) d ≠ "admin" ∨ r = GroupRole.admin) :
    Led { group with members := LocalMessageStorage.setRole d r group.members } := by
  refine ⟨by rw [map_did_setRole]; exact h.nodup, ?_⟩
  rcases h.admin with hnil | hf | ⟨m, hm, hadmin⟩
  · exact Or.inl (by rw [hnil]; rfl)
  · exact Or.inr (Or.inl hf)
  · refine Or.inr (Or.inr ?_)
    rcases mem_setRole (d := d) (r := r) hm with hm' | ⟨hd, hm'⟩
    · exact ⟨m, hm', hadmin⟩
    · rcases hr with hr | hr
      · exact (hr (hd ▸ memberRole_admin h.nodup hm hadmin)).elim
      · exact ⟨_, hm', hr⟩

end Group

namespace Node
variable {M : OpenMls} {W : Wire} {n : Node M} {env : Env} {g : String} {group : Group} {d : Did}

/-- The check of a leave: an admin who is not alone leaves another behind. -/
theorem survives_of_not_sole (hg : n.storage.fetchGroupMetadata g = some group) (h : group.Led)
    (hs : ¬ (n.isSoleAdmin g = true ∧ n.hasOtherMembers g = true)) : group.Survives n.localDid := by
  by_cases hme : memberRoleFromMetadata (some group) n.localDid = "admin"
  swap
  · exact h.survives hme
  rcases h.admin with hnil | hf | ⟨a, ha, hr⟩
  · exact Or.inr (Or.inr (by simp [hnil]))
  · exact Or.inl hf
  by_cases hother : n.hasOtherMembers g = true
  swap
  · refine Or.inr (Or.inr fun m hm => ?_)
    by_contra hne
    refine hother ?_
    simp only [hasOtherMembers, hg]
    exact List.any_eq_true.2 ⟨m, hm, by simpa using hne⟩
  refine Or.inr (Or.inl ?_)
  have hlen : (group.members.filter fun m => m.role = GroupRole.admin).length ≠ 1 := by
    intro hlen
    exact hs ⟨by simp [isSoleAdmin, hg, hme, hlen], hother⟩
  have hdids : ((group.members.filter fun m => m.role = GroupRole.admin).map (·.did)).Nodup :=
    h.nodup.sublist (List.filter_sublist.map _)
  have hmem : a ∈ group.members.filter fun m => m.role = GroupRole.admin :=
    List.mem_filter.2 ⟨ha, by simpa using hr⟩
  have hadmins : ∀ m ∈ group.members.filter (fun m => m.role = GroupRole.admin),
      m ∈ group.members ∧ m.role = GroupRole.admin := fun m hm => by simpa using hm
  -- two admins of different dids, one of whom is not the one who goes
  rcases hl : group.members.filter (fun m => m.role = GroupRole.admin) with _ | ⟨x, _ | ⟨y, rest⟩⟩
  · simp [hl] at hmem
  · simp [hl] at hlen
  · rw [hl] at hdids hadmins
    obtain ⟨hx, hxr⟩ := hadmins x (by simp)
    obtain ⟨hy, hyr⟩ := hadmins y (by simp)
    by_cases hxd : x.did = n.localDid
    · refine ⟨y, hy, hyr, fun hyd => ?_⟩
      simp [hxd, hyd] at hdids
    · exact ⟨x, hx, hxr, hxd⟩

theorem roleRank_le (role : String) : roleRank role ≤ 3 := by
  unfold roleRank
  split_ifs <;> omega

/-- Nobody outranks an admin. -/
theorem not_outranks_admin (role : String) : outranks role "admin" = false := by
  have := roleRank_le role
  simp only [outranks, show roleRank "admin" = 3 from rfl, decide_eq_false_iff_not]
  omega

theorem not_admin_of_removalIndex {i : ℕ} (hg : n.storage.fetchGroupMetadata g = some group)
    (h : n.removalIndex g d = .ok i) : memberRoleFromMetadata (some group) d ≠ "admin" := by
  intro hd
  unfold removalIndex at h
  cases hf : n.requireNotFrozen g with
  | error e => simp [hf, bind, Except.bind] at h
  | ok =>
    cases hr : n.requireRole g "moderator" with
    | error e => simp [hf, hr, bind, Except.bind] at h
    | ok => simp [hf, hr, hg, hd, not_outranks_admin, bind, Except.bind] at h

theorem not_admin_of_checkRoleChange {role : String} (hg : n.storage.fetchGroupMetadata g = some group)
    (h : n.checkRoleChange g d role = .ok ()) :
    memberRoleFromMetadata (some group) d ≠ "admin" ∨ role = "admin" := by
  by_contra hd
  rw [not_or, not_not] at hd
  unfold checkRoleChange at h
  cases hf : n.requireNotFrozen g with
  | error e => simp [hf, bind, Except.bind] at h
  | ok =>
    cases hr : n.requireRole g "admin" with
    | error e => simp [hf, hr, bind, Except.bind] at h
    | ok =>
      by_cases hz : roleRank role = 0
      · simp [hf, hr, hz, bind, Except.bind] at h
      · simp [hf, hr, hz, hg, hd.1, hd.2, not_outranks_admin, bind, Except.bind] at h

/-- The metadata kept for `g` is led. -/
def LedAt (n : Node M) (g : String) : Prop := ∃ group, n.storage.fetchGroupMetadata g = some group ∧ group.Led

theorem LedAt.congr {n' : Node M} (h : n.LedAt g)
    (hs : n'.storage.groupMetadata[g]? = n.storage.groupMetadata[g]?) : n'.LedAt g := by
  obtain ⟨group, hg, hl⟩ := h
  exact ⟨group, hs.trans hg, hl⟩

/-- A led group in the place of a led group. -/
theorem LedAt.insert {n' : Node M} {k : String} (env : Env) (group : Group) (h : n.LedAt g) (hg : k = g → group.Led)
    (hs : n'.storage.groupMetadata = (treeInsert env.faults "group_metadata" k group n.storage.groupMetadata).2) :
    n'.LedAt g := by
  by_cases hk : k = g ∧ env.faults "group_metadata" k = false
  · refine ⟨group, ?_, hg hk.1⟩
    unfold LocalMessageStorage.fetchGroupMetadata
    rw [hs, get_treeInsert, if_pos hk]
  · exact h.congr (by rw [hs, get_treeInsert, if_neg hk])

/-- The stored group of a name that is its own. -/
theorem LedAt.stored {k : String} (h : n.LedAt g) (hk : n.storage.Keyed)
    (hs : n.storage.fetchGroupMetadata k = some group) (hid : group.id = g) :
    n.storage.fetchGroupMetadata g = some group ∧ group.Led := by
  have hkg : k = g := (hk.metadata k group hs).symm.trans hid
  obtain ⟨group', hg, hl⟩ := h
  rw [hkg] at hs
  obtain rfl := Option.some.inj (hs.symm.trans hg)
  exact ⟨hs, hl⟩

theorem LedAt.addToMetadata {k : String} (h : n.LedAt g) (hk : n.storage.Keyed)
    (hne : ∀ group, n.storage.fetchGroupMetadata g = some group → group.members ≠ []) :
    (n.addToMetadata env k d).LedAt g := by
  unfold Node.addToMetadata
  split
  · exact h
  · rename_i group hs
    split_ifs with hd
    · exact h
    · refine h.insert env _ (fun hid => ?_) rfl
      obtain ⟨hg, hl⟩ := h.stored hk hs hid
      exact hl.add (hne group hg) hd _ rfl

theorem LedAt.removeFromMetadata {k : String} (h : n.LedAt g) (hk : n.storage.Keyed)
    (hs : ∀ group, n.storage.fetchGroupMetadata g = some group → group.Led → k = g → group.Survives d) :
    (n.removeFromMetadata env k d).LedAt g := by
  unfold Node.removeFromMetadata
  split
  · exact h
  · rename_i group hg
    refine h.insert env _ (fun hid => ?_) rfl
    obtain ⟨hg', hl⟩ := h.stored hk hg hid
    exact hl.without (hs group hg' hl ((hk.metadata k group hg).symm.trans hid))

theorem LedAt.removeMember {k : String} (h : n.LedAt g) (hk : n.storage.Keyed) :
    (n.mlsRemoveMember env k d).2.LedAt g := by
  unfold mlsRemoveMember
  split
  · exact h
  rename_i i hi
  split
  · exact h
  rename_i mls _
  have hgone : ((emit { n with mls } .schedulePersist).removeFromMetadata env k d).LedAt g :=
    LedAt.removeFromMetadata h hk fun group hg hl hkg =>
      hl.survives (not_admin_of_removalIndex (hkg ▸ hg) hi)
  dsimp only
  split
  · exact hgone
  · exact hgone

theorem LedAt.changeRole {k role : String} (h : n.LedAt g) : (n.mlsChangeMemberRole W env k d role).2.LedAt g := by
  have hset (hc : n.checkRoleChange k d role = .ok ()) :
      LedAt { n with storage := (n.storage.updateMemberRole env.faults k d (roleOfLabel role)).2 } g := by
    have hupd := updateMemberRole_metadata n.storage env.faults k d (roleOfLabel role)
    cases hk : n.storage.groupMetadata[k]? with
    | none => exact h.congr (by rw [hupd, hk])
    | some group =>
      rw [hk] at hupd
      refine h.insert (k := k) env
        { group with members := LocalMessageStorage.setRole d (roleOfLabel role) group.members } (fun hkg => ?_) ?_
      · obtain ⟨group', hg, hl⟩ := h
        rw [← hkg] at hg
        obtain rfl := Option.some.inj (hk.symm.trans hg)
        refine hl.setRole ((not_admin_of_checkRoleChange hk hc).imp_right ?_)
        rintro rfl
        rfl
      · rw [hupd]
        unfold treeInsert
        dsimp only
        split_ifs <;> rfl
  unfold mlsChangeMemberRole
  split
  · exact h
  rename_i hc
  split
  · rename_i heq
    rw [heq] at hset
    exact hset hc
  · rename_i heq
    rw [heq] at hset
    exact hset hc
  · rename_i heq
    rw [heq] at hset
    exact (hset hc).congr (by rw [sendGroupContent_storage])

theorem LedAt.direct (h : n.LedAt g) (hk : n.storage.Keyed)
    (hne : ∀ group, n.storage.fetchGroupMetadata g = some group → group.members ≠ []) {mid : String} {ts : ℤ}
    {content : MessageContent} : (n.handleDirectContent W env d mid ts content).LedAt g := by
  have hforget (n' : Node M) (h' : n'.LedAt g) :
      (n'.store fun s => s.deleteDirectById env.faults d n'.localDid ts mid).LedAt g :=
    h'.congr (by rw [store_storage, LocalMessageStorage.deleteDirectById_metadata])
  unfold handleDirectContent
  dsimp only
  split
  · refine hforget _ ?_
    split
    · exact h.congr (by rw [handleGroupInvitationDm_storage.2])
    · exact h
  · refine hforget _ ?_
    split
    · rename_i g' _
      unfold handleInviteAcceptedDm
      split
      · exact h
      rename_i mls _
      refine LedAt.congr (LedAt.addToMetadata (LedAt.congr h ?_) (k := g') ?_ ?_) rfl
      · rw [publishInviteCommit_storage]
        rfl
      · rw [publishInviteCommit_storage]
        exact hk
      · rw [publishInviteCommit_storage]
        exact hne
    · exact h
  · refine hforget _ ?_
    split
    · exact h.congr (by rw [handleInviteDeclinedDm_metadata])
    · exact h
  · exact h

end Node

variable {M : OpenMls} {W : Wire} {group : Group}

/-- The actor is a member, and the metadata it keeps are the group's. Every reachable node keeps its stores
keyed (`keyed_reachable`). -/
structure MemberOp.Consistent (x : MemberOp M) (group : Group) : Prop where
  member : ∃ m ∈ group.members, m.did = x.node.localDid
  metadata : x.node.storage.fetchGroupMetadata group.id = some group
  keyed : x.node.storage.Keyed

/-- The notice can be encrypted and serialized. -/
def Node.CanTell (n : Node M) (W : Wire) (env : Env) (g : String) : Prop :=
  ∃ msg bytes, (n.mls.encryptMessage g (W.encodeGroupPayload (.message n.abandonNotice)) env.rng).1 = .ok msg ∧
    M.serializeMessage msg = .ok bytes

/-- The condition. A sole admin with others in the group deletes nothing, and abandons it only when it can
tell them. -/
def MemberOp.Orderly (W : Wire) (x : MemberOp M) (group : Group) : Prop :=
  match x.op with
  | .delete _ id => id = group.id → ¬ (x.node.isSoleAdmin id = true ∧ x.node.hasOtherMembers id = true)
  | .abandon env id => id = group.id → x.node.isSoleAdmin id = true ∧ x.node.hasOtherMembers id = true →
      x.node.CanTell W env id
  | _ => True

namespace Group

theorem Created.led (h : group.Created M) : group.Led := by
  obtain ⟨n, env, name, hid, hf, hok, hg⟩ := h
  unfold Node.mlsCreateGroup at hok hg
  dsimp only at hok hg
  split_ifs at hok hg
  split at hg
  · rename_i heq
    rw [heq] at hok
    cases hok
  · simp only [Node.emit_storage, Node.store_storage, LocalMessageStorage.fetchGroupMetadata,
      LocalMessageStorage.storeGroupMetadata, get_treeInsert, hid, hf] at hg
    simp only [and_self, if_true, Option.some.injEq] at hg
    rw [← hg]
    exact ⟨by simp, Or.inr (Or.inr ⟨⟨n.localDid, GroupRole.admin, env.now, none⟩, by simp, rfl⟩)⟩

theorem Led.depart {n : Node M} {r : Except AppError Unit} (h : group.Led)
    (hs : r = .ok () → group.Survives n.localDid) : (group.depart n r).Led := by
  cases r with
  | error e => exact h
  | ok u => exact h.without (hs rfl)

theorem sent_of_canTell {n : Node M} {env : Env} {g : String} (h : n.CanTell W env g) :
    (n.sendGroupContent W env g n.abandonNotice false).1 = .ok () := by
  obtain ⟨msg, bytes, he, hb⟩ := h
  rcases hm : n.mls.encryptMessage g (W.encodeGroupPayload (.message n.abandonNotice)) env.rng with ⟨r, mls⟩
  rw [hm] at he
  dsimp only at he
  subst he
  simp [Node.sendGroupContent, hm, hb]

theorem Led.abandon {n : Node M} {env : Env} (h : group.Led) (hg : n.storage.fetchGroupMetadata group.id = some group)
    (ho : n.isSoleAdmin group.id = true ∧ n.hasOtherMembers group.id = true → n.CanTell W env group.id) :
    (group.abandon W n env).Led := by
  unfold Group.abandon
  split
  · exact h
  split
  · exact h.freeze
  · rename_i e hsend
    refine h.depart fun _ => Node.survives_of_not_sole hg h fun hs => ?_
    rw [sent_of_canTell (ho hs)] at hsend
    cases hsend

/-- A step of a member keeps the group led. -/
theorem Led.after {x : MemberOp M} (h : group.Led) (hc : x.Consistent group) (ho : x.Orderly W group) :
    (group.after W x).Led := by
  obtain ⟨n, op⟩ := x
  have hled : n.LedAt group.id := ⟨group, hc.metadata, h⟩
  have hne : ∀ group', n.storage.fetchGroupMetadata group.id = some group' → group'.members ≠ [] := by
    intro group' hg
    obtain ⟨m, hm, -⟩ := hc.member
    obtain rfl := Option.some.inj (hc.metadata.symm.trans hg)
    exact List.ne_nil_of_mem hm
  have hget {n' : Node M} (h' : n'.LedAt group.id) : ((n'.storage.fetchGroupMetadata group.id).getD group).Led := by
    obtain ⟨group', hg, hl⟩ := h'
    rw [hg]
    exact hl
  cases op with
  | leave env id =>
    unfold Group.after
    dsimp only
    split_ifs with hid
    · subst hid
      refine h.depart fun hok => Node.survives_of_not_sole hc.metadata h fun hs => ?_
      simp [Node.mlsLeaveGroup, hs.1, hs.2] at hok
    · exact h
  | delete env id =>
    unfold Group.after
    dsimp only
    split_ifs with hid
    · exact h.depart fun _ => Node.survives_of_not_sole hc.metadata h (hid ▸ ho hid)
    · exact h
  | abandon env id =>
    unfold Group.after
    dsimp only
    split_ifs with hid
    · exact h.abandon hc.metadata (hid ▸ ho hid)
    · exact h
  | direct env d mid ts content => exact hget (hled.direct hc.keyed hne)
  | removeMember env id d => exact hget (hled.removeMember hc.keyed)
  | changeRole env id d role => exact hget hled.changeRole
  | _ => exact h

end Group

/-! An admin who leaves the group of two -/

namespace AdminSuccession
open IdealGroup

def runOps (ops : List Op) : Node idealMls := ops.foldl (fun n op => n.exec idealWire op) alice

def opened : List Op := [.create (env 0) "G", .invite (env 1) net "g" "did:b"]

def joins : Op := .direct (env 2) "did:b" "m" 0 (Node.acceptedContent "g")

def promotes : Op := .changeRole (env 3) "g" "did:b" "admin"

theorem keyed_runOps (ops : List Op) : (runOps ops).storage.Keyed :=
  keyed_reachable (M := idealMls) (W := idealWire) (StepSystem.reachable_foldl (M := nodeSys idealMls idealWire)
    (.init ⟨rfl, rfl⟩) ops)

/-- The group as the admin's node has it after some operations. -/
def held (ops : List Op) : Option Group := (runOps ops).storage.fetchGroupMetadata "g"

theorem created (group : Group) (h : held [.create (env 0) "G"] = some group) : group.Created idealMls := by
  have hid : group.id = "g" := (keyed_runOps _).metadata _ _ h
  refine ⟨alice, env 0, "G", hid.symm, rfl, rfl, ?_⟩
  rw [hid]
  exact h

def founded : Group :=
  { id := "g", name := "G", adminDid := "did:a", members := [⟨"did:a", GroupRole.admin, 0, none⟩], createdAt := 0
    avatarCid := none, description := none, frozen := false }

def paired (role : GroupRole) : Group := { founded with members := founded.members ++ [⟨"did:b", role, 0, none⟩] }

def deserted : Group := { founded with members := [⟨"did:b", GroupRole.member, 0, none⟩] }

def succeeded : Group := { founded with members := [⟨"did:b", GroupRole.admin, 0, none⟩] }

theorem consistent {group : Group} {ops : List Op} (op : Op) (hid : group.id = "g")
    (ha : "did:a" ∈ group.members.map (·.did)) (hl : (runOps ops).localDid = "did:a")
    (hg : held ops = some group) : MemberOp.Consistent ⟨runOps ops, op⟩ group :=
  ⟨List.mem_map.1 (hl ▸ ha), hid ▸ hg, keyed_runOps ops⟩

theorem goes {G : Group → MemberOp idealMls → Prop} {group group' : Group} {x : MemberOp idealMls}
    (h : StepSystem.Reach (successionSys idealMls idealWire) G group) (hg : G group x)
    (hs : group.after idealWire x = group') : StepSystem.Reach (successionSys idealMls idealWire) G group' :=
  hs ▸ h.snoc hg

/-- What the admin's node holds on the way, and what each operation makes of the group. -/
theorem evaluated : (runOps opened).localDid = "did:a" ∧ held opened = some founded ∧
    (runOps (opened ++ [joins])).localDid = "did:a" ∧ held (opened ++ [joins]) = some (paired GroupRole.member) ∧
    founded.after idealWire ⟨runOps opened, joins⟩ = paired GroupRole.member ∧
    (paired GroupRole.member).after idealWire ⟨runOps (opened ++ [joins]), .delete (env 3) "g"⟩ = deserted ∧
    (paired GroupRole.member).after idealWire ⟨runOps (opened ++ [joins]), promotes⟩ = paired GroupRole.admin := by
  decide +kernel

theorem founded_consistent : MemberOp.Consistent ⟨runOps opened, joins⟩ founded :=
  consistent _ rfl (by decide) evaluated.1 evaluated.2.1

theorem paired_of_founded : founded.after idealWire ⟨runOps opened, joins⟩ = paired GroupRole.member :=
  evaluated.2.2.2.2.1

theorem paired_consistent (op : Op) :
    MemberOp.Consistent ⟨runOps (opened ++ [joins]), op⟩ (paired GroupRole.member) :=
  consistent _ rfl (by decide) evaluated.2.2.1 evaluated.2.2.2.1

theorem deletes : (paired GroupRole.member).after idealWire
    ⟨runOps (opened ++ [joins]), .delete (env 3) "g"⟩ = deserted :=
  evaluated.2.2.2.2.2.1

theorem promoted : (paired GroupRole.member).after idealWire
    ⟨runOps (opened ++ [joins]), promotes⟩ = paired GroupRole.admin :=
  evaluated.2.2.2.2.2.2

end AdminSuccession
end Variance
