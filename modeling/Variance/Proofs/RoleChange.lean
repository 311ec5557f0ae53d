import Variance.Proofs.RemoteAuthority

/-! `mls_change_member_role`: who may change whose role, and to what; and the same change on every other node
that holds the metadata. -/

namespace Variance
namespace Node
variable {M : OpenMls} {W : Wire} {n r : Node M} {env : Env} {id role : String} {d : Did}

open LocalMessageStorage

/-- An error, and nothing has happened. -/
def RoleRefused (W : Wire) (env : Env) (n : Node M) (id : String) (d : Did) (role : String) : Prop :=
  (∃ e, (n.mlsChangeMemberRole W env id d role).1 = .error e) ∧ (n.mlsChangeMemberRole W env id d role).2 = n

/-- `r` gets `content` from the group, and keeps what becomes of it. -/
def Hears (W : Wire) (env : Env) (r : Node M) (id : String) (content : MessageContent) (m : GroupMessage) : Prop :=
  m.groupId = id ∧ env.faults "group_metadata" id = false ∧
    ∃ dec, r.Decrypts m.groupId m dec ∧ livePayload W dec.plaintext = some (.message content)

/-- A change by an admin to a role there is, of a member that the admin outranks or makes an admin. Whoever held the
same metadata and hears of it holds the same again. -/
structure RoleChanged (W : Wire) (env : Env) (n : Node M) (id : String) (d : Did) (role : String) : Prop where
  label : role ∈ roleLabels
  entitled : ∃ group a m, n.storage.fetchGroupMetadata id = some group ∧
    group.members.find? (fun x => x.did = n.localDid) = some a ∧ a.role = GroupRole.admin ∧
    group.members.find? (fun x => x.did = d) = some m ∧
    (outranks (roleLabel a.role) (roleLabel m.role) ∨ role = "admin")
  agreed : ∃ content, (n.mlsChangeMemberRole W env id d role).2 =
      (sendGroupContent { n with storage := (n.mlsChangeMemberRole W env id d role).2.storage } W env id content
        false).2 ∧
    ∀ (r : Node M) rEnv m, r.storage.fetchGroupMetadata id = n.storage.fetchGroupMetadata id →
      r.Hears W rEnv id content m →
      (r.handleGroupMessage W rEnv m).storage.fetchGroupMetadata id =
        (n.mlsChangeMemberRole W env id d role).2.storage.fetchGroupMetadata id

/-- The condition: the role is one there is, or the metadata stand in the way of any change by this admin of this
member, or cannot be written. -/
def RoleRequestSound (env : Env) (n : Node M) (id : String) (d : Did) (role : String) : Prop :=
  role ∈ roleLabels ∨ env.faults "group_metadata" id = true ∨
    ∀ group a m, n.storage.fetchGroupMetadata id = some group →
      group.members.find? (fun x => x.did = n.localDid) = some a →
      group.members.find? (fun x => x.did = d) = some m →
      group.frozen = true ∨ a.role ≠ GroupRole.admin ∨ m.role = GroupRole.admin

/-! The checks -/

theorem roleRank_roleLabel (x : GroupRole) : roleRank (roleLabel x) = if x = 3 then 3 else if x = 2 then 2 else 1 := by
  unfold roleLabel
  split_ifs <;> rfl

/-- An admin is one by the first entry of its did. -/
theorem requireRole_admin_iff : n.requireRole id "admin" = .ok () ↔
    ∃ group a, n.storage.fetchGroupMetadata id = some group ∧
      group.members.find? (fun x => x.did = n.localDid) = some a ∧ a.role = GroupRole.admin := by
  unfold requireRole memberRoleFromMetadata
  cases n.storage.fetchGroupMetadata id with
  | none => simp [roleRank]
  | some group =>
    cases ha : group.members.find? fun x => x.did = n.localDid with
    | none => simp [ha, roleRank]
    | some a =>
      simp only [Option.bind_some, ha, roleRank_roleLabel]
      constructor
      · intro h
        refine ⟨group, a, rfl, ha, ?_⟩
        by_contra hne
        have hne : a.role ≠ 3 := hne
        rw [if_neg hne, if_pos] at h
        · cases h
        · split_ifs <;> decide
      · rintro ⟨group', a', hg, ha', hadmin⟩
        cases hg
        rw [ha] at ha'
        cases ha'
        rw [if_pos (show a.role = 3 from hadmin)]
        simp [roleRank]

theorem checkRoleChange_ok_iff : n.checkRoleChange id d role = .ok () ↔
    n.requireNotFrozen id = .ok () ∧ n.requireRole id "admin" = .ok () ∧
      (outranks (memberRoleFromMetadata (n.storage.fetchGroupMetadata id) n.localDid)
        (memberRoleFromMetadata (n.storage.fetchGroupMetadata id) d) = true ∨ role = "admin") := by
  have hrank : roleRank role ≠ 0 := by
    unfold roleRank
    split_ifs <;> decide
  unfold checkRoleChange
  cases n.requireNotFrozen id with
  | error e => simp [bind, Except.bind]
  | ok u =>
    cases n.requireRole id "admin" with
    | error e => simp [bind, Except.bind]
    | ok u =>
      simp only [bind, Except.bind, if_neg hrank]
      by_cases ho : outranks (memberRoleFromMetadata (n.storage.fetchGroupMetadata id) n.localDid)
          (memberRoleFromMetadata (n.storage.fetchGroupMetadata id) d) = true
      · simp [ho, pure, Except.pure]
      · by_cases hr : role = "admin" <;> simp [ho, hr, pure, Except.pure, throw, throwThe, MonadExceptOf.throw]

/-! The change -/

theorem any_of_find? {ms : List GroupMember} {m : GroupMember} (h : ms.find? (fun x => x.did = d) = some m) :
    (ms.any fun x => x.did = d) = true :=
  List.any_eq_true.2 ⟨m, List.mem_of_find?_eq_some h, by simpa using List.find?_some h⟩

/-- What the request comes to: nothing, or the entry of the member with its new role, and the word to the group. -/
theorem mlsChangeMemberRole_cases (W : Wire) (env : Env) (n : Node M) (id : String) (d : Did) (role : String) :
    n.RoleRefused W env id d role ∨
    n.checkRoleChange id d role = .ok () ∧ env.faults "group_metadata" id = false ∧
    ∃ group m, n.storage.fetchGroupMetadata id = some group ∧
      group.members.find? (fun x => x.did = d) = some m ∧
      (n.mlsChangeMemberRole W env id d role).1 = .ok () ∧
      (n.mlsChangeMemberRole W env id d role).2 = (sendGroupContent { n with
        storage := (n.storage.updateMemberRole env.faults id d (roleOfLabel role)).2 } W env id
        (.control [("type", "role_change"), ("target_did", d), ("new_role", role)]) false).2 := by
  unfold RoleRefused mlsChangeMemberRole
  cases hc : n.checkRoleChange id d role with
  | error e => exact Or.inl ⟨⟨e, rfl⟩, rfl⟩
  | ok u =>
    dsimp only
    cases hg : n.storage.groupMetadata[id]? with
    | none =>
      rw [show n.storage.updateMemberRole env.faults id d (roleOfLabel role) = (.ok false, n.storage) by
        simp [updateMemberRole, hg]]
      exact Or.inl ⟨⟨_, rfl⟩, rfl⟩
    | some group =>
      cases hm : group.members.find? fun x => x.did = d with
      | none =>
        have hl : ¬ (group.members.any fun x => x.did = d) = true := by
          intro hl
          obtain ⟨m, hmem, hd⟩ := List.any_eq_true.1 hl
          exact List.find?_eq_none.1 hm m hmem hd
        rw [show n.storage.updateMemberRole env.faults id d (roleOfLabel role) = (.ok false, n.storage) by
          simp only [updateMemberRole, hg, if_neg hl]]
        exact Or.inl ⟨⟨_, rfl⟩, rfl⟩
      | some m =>
        have hl := any_of_find? hm
        by_cases hf : env.faults "group_metadata" id = true
        · rw [show n.storage.updateMemberRole env.faults id d (roleOfLabel role) = (.error .storage, n.storage) by
            simp [updateMemberRole, hg, hl, treeInsert, hf, Except.map]]
          exact Or.inl ⟨⟨_, rfl⟩, rfl⟩
        · have hf : env.faults "group_metadata" id = false := by simpa using hf
          have hu : (n.storage.updateMemberRole env.faults id d (roleOfLabel role)).1 = .ok true := by
            simp [updateMemberRole, hg, hl, treeInsert_ok hf, Except.map]
          generalize n.storage.updateMemberRole env.faults id d (roleOfLabel role) = w at hu
          obtain ⟨w, st⟩ := w
          dsimp only at hu
          subst hu
          exact Or.inr ⟨rfl, hf, group, m, hg, hm, rfl, rfl⟩

theorem fetch_updateMemberRole {st : LocalMessageStorage} {f : Faults} {x : GroupRole}
    (hf : f "group_metadata" id = false) : (st.updateMemberRole f id d x).2.fetchGroupMetadata id =
      (st.fetchGroupMetadata id).map fun group => { group with members := setRole d x group.members } := by
  unfold fetchGroupMetadata
  rw [updateMemberRole_metadata]
  cases hg : st.groupMetadata[id]? with
  | none => simp [hg]
  | some group => simp [hf]

/-- A node that hears of the change makes it as well. -/
theorem Hears.fetch {m : GroupMessage} {content : MessageContent} (h : r.Hears W env id content m)
    (ht : content.metadata["type"]? = some "role_change") (hd : content.metadata["target_did"]? = some d)
    (hr : content.metadata["new_role"]? = some role) :
    (r.handleGroupMessage W env m).storage.fetchGroupMetadata id =
      (r.storage.fetchGroupMetadata id).map fun group =>
        { group with members := setRole d (roleOfLabel role) group.members } := by
  obtain ⟨rfl, hf, dec, hdec, hp⟩ := h
  obtain ⟨mls, hl⟩ := hdec.live W env
  rw [hl, emit_storage, handleGroupPlaintext_eq, hp]
  dsimp only
  unfold handleGroupMessageContent
  rw [ht, hd, hr]
  exact fetch_updateMemberRole hf

theorem control_get (target : Did) (role : String) :
    (MessageContent.control [("type", "role_change"), ("target_did", target), ("new_role", role)]).metadata["type"]? =
      some "role_change" ∧
    (MessageContent.control [("type", "role_change"), ("target_did", target),
      ("new_role", role)]).metadata["target_did"]? = some target ∧
    (MessageContent.control [("type", "role_change"), ("target_did", target),
      ("new_role", role)]).metadata["new_role"]? = some role := by
  refine ⟨?_, ?_, ?_⟩
  · exact Std.ExtTreeMap.getElem?_ofList_of_mem (k := "type") (by simp) (by simp) (by simp)
  · exact Std.ExtTreeMap.getElem?_ofList_of_mem (k := "target_did") (by simp) (by simp) (by simp)
  · exact Std.ExtTreeMap.getElem?_ofList_of_mem (k := "new_role") (by simp) (by simp) (by simp)

/-- Without a role there is the request is refused exactly where the metadata stand in its way. -/
theorem refused_of_sound (hs : n.RoleRequestSound env id d role) (hrole : role ∉ roleLabels) :
    n.RoleRefused W env id d role := by
  rcases mlsChangeMemberRole_cases W env n id d role with h | ⟨hc, hf, group, m, hg, hm, -, -⟩
  · exact h
  obtain ⟨hfrozen, hadmin, hrank⟩ := checkRoleChange_ok_iff.1 hc
  obtain ⟨group', a, hg', ha, hadmin⟩ := requireRole_admin_iff.1 hadmin
  cases hg.symm.trans hg'
  rcases hs with hs | hs | hs
  · exact (hrole hs).elim
  · rw [hf] at hs
    cases hs
  rcases hs group a m hg ha hm with h | h | h
  · rw [requireNotFrozen_iff.1 hfrozen group hg] at h
    cases h
  · exact (h hadmin).elim
  · rcases hrank with hrank | hrank
    · simp [outranks, memberRoleFromMetadata, hg, ha, hm, roleRank_roleLabel, show m.role = 3 from h,
        show a.role = 3 from hadmin] at hrank
    · exact (hrole (by simp [roleLabels, hrank])).elim

theorem roleChanged_of_label (hrole : role ∈ roleLabels) :
    n.RoleRefused W env id d role ∨ n.RoleChanged W env id d role := by
  rcases mlsChangeMemberRole_cases W env n id d role with h | ⟨hc, hf, group, m, hg, hm, -, hsend⟩
  · exact Or.inl h
  refine Or.inr ⟨hrole, ?_, ?_⟩
  · obtain ⟨-, hadmin, hrank⟩ := checkRoleChange_ok_iff.1 hc
    obtain ⟨group', a, hg', ha, hadmin⟩ := requireRole_admin_iff.1 hadmin
    cases hg.symm.trans hg'
    refine ⟨group, a, m, hg, ha, hadmin, hm, ?_⟩
    simpa [memberRoleFromMetadata, hg, ha, hm] using hrank
  · obtain ⟨ht, hd, hr⟩ := control_get d role
    refine ⟨_, by rw [hsend, sendGroupContent_storage], fun r rEnv m hsame hears => ?_⟩
    rw [hears.fetch ht hd hr, hsame, hsend, sendGroupContent_storage]
    exact (fetch_updateMemberRole hf).symm

/-- Where nothing stands in the way of a change by the admin, any role will do. -/
theorem mlsChangeMemberRole_unopposed {group : Group} {a m : GroupMember} (hf : env.faults "group_metadata" id = false)
    (hg : n.storage.fetchGroupMetadata id = some group)
    (ha : group.members.find? (fun x => x.did = n.localDid) = some a)
    (hm : group.members.find? (fun x => x.did = d) = some m) (hfrozen : group.frozen = false)
    (hadmin : a.role = GroupRole.admin) (hrank : m.role ≠ GroupRole.admin) :
    (n.mlsChangeMemberRole W env id d role).1 = .ok () := by
  refine (mlsChangeMemberRole_ok (checkRoleChange_ok_iff.2 ⟨?_, ?_, Or.inl ?_⟩) hg (any_of_find? hm) hf).1
  · refine requireNotFrozen_iff.2 fun group' hg' => ?_
    cases hg.symm.trans hg'
    exact hfrozen
  · exact requireRole_admin_iff.2 ⟨group, a, hg, ha, hadmin⟩
  · have hrank : m.role ≠ 3 := hrank
    simp only [outranks, memberRoleFromMetadata, hg, Option.bind_some, ha, hm, roleRank_roleLabel,
      show a.role = 3 from hadmin, if_neg hrank]
    split_ifs <;> decide

/-- A role change is refused without a trace or right in every way just when the role is one there is, or the
metadata stand in its way. -/
theorem roleChange_iff (W : Wire) (env : Env) (n : Node M) (id : String) (d : Did) (role : String) :
    n.RoleRefused W env id d role ∨ n.RoleChanged W env id d role ↔ n.RoleRequestSound env id d role := by
  constructor
  · rintro (⟨⟨e, he⟩, -⟩ | h)
    · refine or_iff_not_imp_left.2 fun _ => or_iff_not_imp_left.2 fun hf group a m hg ha hm => ?_
      by_contra hne
      obtain ⟨hfrozen, hadmin, hrank⟩ := not_or.1 hne |>.imp_right not_or.1
      rw [mlsChangeMemberRole_unopposed (by simpa using hf) hg ha hm (by simpa using hfrozen)
        (not_not.1 hadmin) hrank] at he
      cases he
    · exact Or.inl h.label
  · intro hs
    by_cases hrole : role ∈ roleLabels
    · exact roleChanged_of_label hrole
    · exact Or.inl (refused_of_sound hs hrole)

end Node

namespace RoleChange
open IdealGroup

/-- An admin makes somebody an owner. -/
theorem owner_accepted : ¬ (group.RoleRefused idealWire (env 6) "g" "did:c" "owner" ∨
    group.RoleChanged idealWire (env 6) "g" "did:c" "owner") := by
  rintro (⟨⟨e, he⟩, -⟩ | h)
  · have hok : (group.mlsChangeMemberRole idealWire (env 6) "g" "did:c" "owner").1 = .ok () := by decide +kernel
    cases hok.symm.trans he
  · exact absurd h.label (by decide)

end RoleChange
end Variance
