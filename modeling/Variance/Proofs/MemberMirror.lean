import Variance.Sanity.Handshakes
import Variance.Sanity.IdealGroup
import Variance.Sanity.Listed

/-! The metadata of a group follows its MLS group as long as no commit of another member moves anybody. What a node
does itself it writes down; of what comes by a commit it only tells the frontend. -/

namespace Variance

open LocalMessageStorage MlsGroupHandler

theorem SameMembers.trans {a b c : List Did} (h : SameMembers a b) (h' : SameMembers b c) : SameMembers a c :=
  fun d => (h d).trans (h' d)

theorem SameMembers.symm {a b : List Did} (h : SameMembers a b) : SameMembers b a := fun d => (h d).symm

theorem Moves.still {ds ds' : List Did} (h : Moves [] [] ds ds') : SameMembers ds' ds :=
  fun x => by simpa using h.1 x

namespace Node
variable {M : OpenMls} {L : MemberLaws M} {W : Wire} {n n' : Node M} {env : Env} {gid id : String} {d : Did}
  {R : Did → GroupRole → Prop}

/-- The group is as it was, if it is still there. -/
def Retains (n n' : Node M) (gid : String) : Prop :=
  n'.listed gid = n.listed gid ∧ ∀ g', n'.mls.groups[gid]? = some g' →
    ∃ g, n.mls.groups[gid]? = some g ∧ SameMembers (M.dids g') (M.dids g)

/-- The metadata mirrors the group after the step, and whom the step let in has a role of `R`. -/
def Settles (n n' : Node M) (gid : String) (R : Did → GroupRole → Prop) : Prop :=
  n'.Mirrored gid ∧ ∀ d, n.ComesIn n' gid d → ∃ group, n'.storage.fetchGroupMetadata gid = some group ∧
    ∀ m ∈ group.members, m.did = d → R d m.role

theorem Retains.refl (n : Node M) (gid : String) : Retains n n gid :=
  ⟨rfl, fun g hg => ⟨g, hg, fun _ => Iff.rfl⟩⟩

theorem Retains.congr (hs : n'.listed gid = n.listed gid) (hg : n'.mls.groups[gid]? = n.mls.groups[gid]?) :
    Retains n n' gid :=
  ⟨hs, fun g hg' => ⟨g, hg ▸ hg', fun _ => Iff.rfl⟩⟩

theorem Retains.trans {n'' : Node M} (h : Retains n n' gid) (h' : Retains n' n'' gid) : Retains n n'' gid := by
  refine ⟨h'.1.trans h.1, fun g'' hg'' => ?_⟩
  obtain ⟨g', hg', hsame'⟩ := h'.2 g'' hg''
  obtain ⟨g, hg, hsame⟩ := h.2 g' hg'
  exact ⟨g, hg, hsame'.trans hsame⟩

theorem Retains.settles (h : Retains n n' gid) (hm : n.Mirrored gid) : Settles n n' gid R := by
  refine ⟨fun g' hg' => ?_, fun d hd => ?_⟩
  · obtain ⟨g, hg, hsame⟩ := h.2 g' hg'
    obtain ⟨ds, hds, hmem⟩ := hm g hg
    exact ⟨ds, h.1.trans hds, hmem.trans hsame.symm⟩
  · obtain ⟨-, hnew, g', hg', hin⟩ := hd
    obtain ⟨g, hg, hsame⟩ := h.2 g' hg'
    exact (hnew g hg ((hsame d).1 hin)).elim

theorem settles_of_gone (h : n'.mls.groups[gid]? = none) : Settles n n' gid R := by
  refine ⟨fun g' hg' => ?_, fun d hd => ?_⟩
  · rw [h] at hg'
    cases hg'
  · obtain ⟨-, -, g', hg', -⟩ := hd
    rw [h] at hg'
    cases hg'

/-- A group whose metadata was written anew. -/
theorem settles_of_written {group : Group} {x : M.Group} (hg : n'.mls.groups[gid]? = some x)
    (hs : n'.storage.fetchGroupMetadata gid = some group)
    (hsame : SameMembers (group.members.map (·.did)) (M.dids x))
    (hR : ∀ d, n.ComesIn n' gid d → ∀ m ∈ group.members, m.did = d → R d m.role) : Settles n n' gid R := by
  refine ⟨fun y hy => ⟨_, by rw [listed, hs]; rfl, ?_⟩, fun d hd => ⟨group, hs, hR d hd⟩⟩
  obtain rfl := Option.some.inj (hg.symm.trans hy)
  exact hsame

/-- A step that founds, commits and receives nothing in the group leaves its members alone. -/
theorem members_kept (L : MemberLaws M) {o : Op} (hc : ¬ (Event.op o).Commits n.mls gid)
    (hr : ∀ pm, ¬ (Event.op o).Receives M gid pm) (hf : ∀ g, ¬ (Event.op o).Founds n W gid g) :
    ∀ g', (n.exec W o).mls.groups[gid]? = some g' →
      ∃ g, n.mls.groups[gid]? = some g ∧ SameMembers (M.dids g') (M.dids g) := by
  have hcalls := calls_react n W (.op o)
  intro g' hg'
  refine hcalls.invariant (P := fun k x => k = gid → ∃ g, n.mls.groups[gid]? = some g ∧
    SameMembers (M.dids x) (M.dids g)) ?_ ?_ ?_ gid g' hg' rfl
  · intro k c p x hmakes hx hk
    obtain ⟨g, hg, hsame⟩ := hx hk
    refine ⟨g, hg, SameMembers.trans (fun y => ?_) hsame⟩
    subst hk
    cases hmakes with
    | still hs => rw [L.still c hs]
    | commit _ hcom => exact (hc hcom).elim
    | add _ => exact iff_of_eq (congrArg (y ∈ ·) L.add)
    | receive hrec => exact (hr _ hrec).elim
  · rintro k x hfound rfl
    exact (hf x hfound).elim
  · rintro k x hx rfl
    exact ⟨x, hx, fun _ => Iff.rfl⟩

/-! One lemma for each operation that touches the members of a group -/

theorem settles_create {name : String} (L : MemberLaws M) (hl : n.mls.localDid = n.localDid)
    (hm : n.Mirrored gid) (hf : env.faults "group_metadata" env.ulid = false) :
    Settles n (n.mlsCreateGroup env name).2 gid (fun _ r => r = GroupRole.admin) := by
  unfold mlsCreateGroup
  dsimp only
  split
  · exact (Retains.refl n gid).settles hm
  rcases hnew : M.newWithGroupId n.mls.localDid env.ulid env.rng n.mls.provider with ⟨⟨e⟩ | ⟨g⟩, p'⟩
  · simp only [createGroup, hnew]
    exact Retains.settles (Retains.congr rfl rfl) hm
  simp only [createGroup, hnew]
  by_cases hid : env.ulid = gid
  · subst hid
    refine settles_of_written (x := g) (by simp) ((fetch_store _ _ _ _).trans (if_pos ⟨rfl, hf⟩)) ?_ ?_
    · intro x
      rw [L.new hnew, hl]
      simp
    · intro d _ m hmem _
      obtain rfl := List.mem_singleton.1 hmem
      rfl
  · refine Retains.settles (Retains.congr ?_ ?_) hm
    · exact (listed_store _ _ _ _).trans (if_neg fun h => hid h.1)
    · simp [hid]

theorem fetch_finishAccept (n : Node M) (env : Env) (i : GroupInvitation) (id joined gid : String) :
    (n.finishAccept env i id joined).storage.fetchGroupMetadata gid =
      if joined = gid ∧ env.faults "group_metadata" joined = false then some (n.joinedMetadata env i joined)
      else n.storage.fetchGroupMetadata gid := by
  unfold finishAccept answerInvitation fetchGroupMetadata
  dsimp only
  split_ifs with hd hj hj
  all_goals simp only [store_storage, emit_storage, refreshKeyPackage_storage, enterGroup, storeGroupMetadata,
    deletePendingInvitation, get_treeInsert]
  · exact if_pos hj
  · exact if_neg hj
  · exact if_pos hj
  · exact if_neg hj

theorem finishAccept_groups (n : Node M) (env : Env) (i : GroupInvitation) (id joined : String) :
    (n.finishAccept env i id joined).mls.groups = n.mls.groups := by
  unfold finishAccept answerInvitation
  dsimp only
  split_ifs
  · simp only [store_mls, emit_mls, refreshKeyPackage_groups, enterGroup]
  · simp only [store_mls, refreshKeyPackage_groups, enterGroup, emit_mls]

theorem settles_accept (hm : n.Mirrored gid) (hf : Op.Follows L W n (.accept env id)) :
    Settles n (n.acceptInvitation env id).2 gid (n.Admits (.accept env id)) := by
  unfold acceptInvitation
  cases hi : n.storage.fetchPendingInvitation id with
  | none => exact (Retains.refl n gid).settles hm
  | some i =>
    dsimp only
    cases hw : M.deserializeMessage i.mlsWelcome with
    | error e => exact (Retains.refl n gid).settles hm
    | ok welcome =>
      dsimp only
      rcases n.mls.joinGroupFromWelcome_cases welcome with ⟨e, mls, hj, hgs⟩ | ⟨g, mls, hg, hj, hgs⟩
      · rw [hj]
        refine Retains.settles (Retains.congr rfl ?_) hm
        rw [hgs]
      · obtain ⟨hfault, hrole, hsame⟩ := hf i welcome g hi hw hg
        rw [hj]
        have hfetch := fetch_finishAccept { n with mls := mls } env i id (M.groupId g) gid
        have hgroups := finishAccept_groups { n with mls := mls } env i id (M.groupId g)
        by_cases hid : M.groupId g = gid
        · rw [if_pos ⟨hid, hfault⟩] at hfetch
          refine settles_of_written (x := g) ?_ hfetch ?_ ?_
          · rw [hgroups]
            simp [hgs, hid]
          · refine SameMembers.trans (fun x => ?_) hsame
            simp only [joinedMetadata]
            split_ifs with hany
            · have hlocal : n.localDid ∈ i.members.map (·.did) := by simpa using hany
              rw [List.mem_cons]
              constructor
              · exact Or.inr
              · rintro (rfl | hx)
                · exact hlocal
                · exact hx
            · simp [or_comm]
          · intro d _ m hmem hmd
            have hcases : m ∈ i.members ∨ m.did = n.localDid ∧ m.role = GroupRole.member := by
              simp only [joinedMetadata] at hmem
              split_ifs at hmem
              · exact Or.inl hmem
              · rcases List.mem_append.1 hmem with h | h
                · exact Or.inl h
                · obtain rfl := List.mem_singleton.1 h
                  exact Or.inr ⟨rfl, rfl⟩
            simp only [Admits]
            split_ifs with hd
            · rcases hcases with h | h
              · exact hrole m h (hmd.trans hd)
              · exact h.2
            · rcases hcases with h | h
              · exact ⟨i, hi, m, h, hmd, rfl⟩
              · exact (hd (hmd.symm.trans h.1)).elim
        · rw [if_neg fun h => hid h.1] at hfetch
          refine Retains.settles (Retains.congr (listed_congr hfetch) ?_) hm
          rw [hgroups]
          simp [hgs, hid]

theorem settles_acceptWelcome {hex : String} (hm : n.Mirrored gid) (hf : Op.Follows L W n (.acceptWelcome env hex)) :
    Settles n (n.mlsAcceptWelcome W env hex).2 gid (n.Admits (.acceptWelcome env hex)) := by
  unfold mlsAcceptWelcome
  cases hb : W.hexDecode hex with
  | none => exact (Retains.refl n gid).settles hm
  | some b =>
    dsimp only
    cases hw : M.deserializeMessage b with
    | error e => exact (Retains.refl n gid).settles hm
    | ok welcome =>
      dsimp only
      rcases n.mls.joinGroupFromWelcome_cases welcome with ⟨e, mls, hj, hgs⟩ | ⟨g, mls, hg, hj, hgs⟩
      · rw [hj]
        refine Retains.settles (Retains.congr rfl ?_) hm
        rw [hgs]
      · have hcond := hf b welcome g hb hw hg
        rw [hj]
        dsimp only
        by_cases hid : M.groupId g = gid
        · subst hid
          cases hfetch : n.storage.fetchGroupMetadata (M.groupId g) with
          | some kept =>
            rw [hfetch] at hcond
            obtain ⟨hsame, hrole⟩ := hcond
            simp only [emit_storage, hfetch]
            refine settles_of_written (x := g) (by simp [hgs]) hfetch hsame ?_
            rintro d ⟨hwho, hnew, g', hg', hin⟩ m hmem hmd
            obtain rfl : g = g' := by simpa [hgs] using hg'
            rcases hwho with rfl | hsome
            · exact hrole m hmem hmd
            · -- whoever else the group gained would have been listed before
              obtain ⟨g₀, hg₀⟩ := Option.isSome_iff_exists.1 hsome
              obtain ⟨ds, hds, hmem₀⟩ := hm g₀ hg₀
              obtain rfl : kept.members.map (·.did) = ds := by simpa [listed, hfetch] using hds
              exact (hnew g₀ hg₀ ((hmem₀ d).1 ((hsame d).2 hin))).elim
          | none =>
            rw [hfetch] at hcond
            obtain ⟨hfault, hsame⟩ := hcond
            simp only [emit_storage, hfetch]
            refine settles_of_written (x := g) (by simp [hgs]) ((fetch_store _ _ _ _).trans
              (if_pos ⟨rfl, hfault⟩)) hsame ?_
            intro d _ m hmem _
            obtain rfl := List.mem_singleton.1 hmem
            rfl
        · refine Retains.settles (Retains.congr ?_ ?_) hm
          · cases hfetch : n.storage.fetchGroupMetadata (M.groupId g) with
            | some kept =>
              simp only [emit_storage, hfetch]
              rfl
            | none =>
              simp only [emit_storage, hfetch]
              exact (listed_store _ _ _ _).trans (if_neg fun h => hid h.1)
          · cases hfetch : n.storage.fetchGroupMetadata (M.groupId g) with
            | some kept => simp [hfetch, hgs, hid]
            | none => simp [hfetch, hgs, hid]

/-- A way out of a group: it is gone, or nothing has happened to its metadata. -/
theorem settles_leaving (L : MemberLaws M) (o : Op) (hm : n.Mirrored gid) (hw : o.writes W n.localDid = PurgeWrite id)
    (hc : ¬ (Event.op o).Commits n.mls gid) (hr : ∀ pm, ¬ (Event.op o).Receives M gid pm)
    (hf : ∀ g, ¬ (Event.op o).Founds n W gid g)
    (hout : (n.exec W o).storage = n.storage ∨ (n.exec W o).mls.groups[id]? = none) :
    Settles n (n.exec W o) gid R := by
  have hkept := members_kept (W := W) L hc hr hf
  by_cases hid : id = gid
  · subst hid
    rcases hout with hs | hgone
    · exact Retains.settles ⟨listed_congr (by rw [hs]), hkept⟩ hm
    · exact settles_of_gone hgone
  · refine Retains.settles ⟨(acts_exec W n o).listed fun w h => ?_, hkept⟩ hm
    rw [hw] at h
    exact spares_purge hid w h

theorem settles_leave (L : MemberLaws M) (hm : n.Mirrored gid) : Settles n (n.exec W (.leave env id)) gid R := by
  refine settles_leaving L _ hm rfl (fun h => h) (fun _ h => h) (fun _ h => h) ?_
  change (n.mlsLeaveGroup env id).2.storage = _ ∨ (n.mlsLeaveGroup env id).2.mls.groups[id]? = none
  unfold mlsLeaveGroup
  split
  · exact Or.inl rfl
  · exact departGroup_stored

theorem settles_abandon (L : MemberLaws M) (hm : n.Mirrored gid) : Settles n (n.exec W (.abandon env id)) gid R := by
  refine settles_leaving L _ hm rfl (fun h => h) (fun _ h => h) (fun _ h => h) ?_
  change (n.mlsAbandonGroup W env id).2.storage = _ ∨ (n.mlsAbandonGroup W env id).2.mls.groups[id]? = none
  unfold mlsAbandonGroup
  split
  · exact Or.inl rfl
  · refine departGroup_stored.imp (fun h => h.trans sendGroupContent_storage) fun h => h

theorem settles_delete (L : MemberLaws M) (hm : n.Mirrored gid) : Settles n (n.exec W (.delete env id)) gid R := by
  refine settles_leaving L _ hm rfl (fun h => h) (fun _ h => h) (fun _ h => h) ?_
  change (n.mlsDeleteGroup env id).2.storage = _ ∨ (n.mlsDeleteGroup env id).2.mls.groups[id]? = none
  unfold mlsDeleteGroup
  split
  · exact Or.inl rfl
  · exact Or.inr removeGroup_gone

theorem listed_removeMember_other (hk : n.storage.Keyed) (hne : gid ≠ id) :
    (n.mlsRemoveMember env id d).2.listed gid = n.listed gid := by
  unfold mlsRemoveMember
  split
  · rfl
  split
  · rfl
  rename_i mls _
  have hmeta : ((emit { n with mls := mls } .schedulePersist).removeFromMetadata env id d).listed gid = n.listed gid :=
    removeFromMetadata_other hk hne
  dsimp only
  split
  · exact hmeta
  · exact hmeta

theorem removeFromMetadata_mls : (n.removeFromMetadata env id d).mls = n.mls := by
  unfold removeFromMetadata
  split
  · rfl
  · rfl

/-- The group is left with one that has the same members. -/
theorem retains_insert {mls : MlsGroupHandler M} {g g' : M.Group} (hg : n.mls.groups[id]? = some g)
    (hgs : mls.groups = n.mls.groups.insert id g') (hsame : SameMembers (M.dids g') (M.dids g)) (gid : String) :
    Retains n { n with mls := mls } gid := by
  refine ⟨rfl, fun x hx => ?_⟩
  have hx' : (n.mls.groups.insert id g')[gid]? = some x := hgs ▸ hx
  rw [get_insert] at hx'
  split_ifs at hx' with hid
  · subst hid
    obtain rfl := Option.some.inj hx'
    exact ⟨g, hg, hsame⟩
  · exact ⟨x, hx', fun _ => Iff.rfl⟩

theorem settles_removeMember (hk : n.storage.Keyed) (hm : n.Mirrored gid)
    (hf : Op.Follows L W n (.removeMember env id d)) :
    Settles n (n.mlsRemoveMember env id d).2 gid R := by
  by_cases hid : gid = id
  swap
  · refine Retains.settles ⟨listed_removeMember_other hk hid, ?_⟩ hm
    exact members_kept (W := W) L (o := .removeMember env id d) hid (fun _ h => h) (fun _ h => h)
  subst hid
  unfold mlsRemoveMember
  cases hi : n.removalIndex gid d with
  | error e => exact (Retains.refl n gid).settles hm
  | ok i =>
    dsimp only
    obtain ⟨g, hg, hmem⟩ := member_of_removalIndex hi
    obtain ⟨g', hgs, hout⟩ := removeMember_cases i env.rng hg
    have hsame₁ : M.dids (M.removeMembers n.mls.localDid env.rng [i] n.mls.provider g).2.2 = M.dids g := L.remove
    rcases hr : n.mls.removeMember gid i env.rng with ⟨r, mls⟩
    rw [hr] at hgs hout
    dsimp only at hgs
    rcases hout with ⟨e, e', p₁, he, hop⟩ | ⟨c, p₁, g₁, hop, ⟨e, e', p₂, he, hmerge⟩ | ⟨p₂, hok, hmerge⟩⟩
    · rw [hop] at hsame₁
      dsimp only at he
      subst he
      exact (retains_insert hg hgs (fun x => iff_of_eq (congrArg (x ∈ ·) hsame₁)) gid).settles hm
    · rw [hop] at hsame₁
      dsimp only at he
      subst he
      exact (retains_insert hg hgs (fun x => iff_of_eq (congrArg (x ∈ ·) ((L.merge_error hmerge).trans hsame₁)))
        gid).settles hm
    · rw [hop] at hsame₁
      dsimp only at hok hsame₁
      subst hok
      obtain ⟨hfault, hcond⟩ := hf
      obtain ⟨hnodup, hq⟩ := hcond g hg
      obtain ⟨k, hpending, hbrings, htakes⟩ := L.remove_ok hop hq hmem
      have hmoves := L.merge hmerge hpending
      rw [hbrings, htakes, hsame₁] at hmoves
      have hgone : d ∉ M.dids g' := hmoves.2 hnodup d (by simp) (by simp)
      have hstay (x : Did) (hx : x ≠ d) : x ∈ M.dids g' ↔ x ∈ M.dids g := by simpa [hx] using hmoves.1 x
      obtain ⟨ds, hds, hmirror⟩ := hm g hg
      have hlisted : ((emit { n with mls := mls } .schedulePersist).removeFromMetadata env gid d).listed gid =
          some (ds.filter fun x => x ≠ d) :=
        listed_removeFromMetadata (n := emit { n with mls := mls } .schedulePersist) hk hfault hds
      have hget : ((emit { n with mls := mls } .schedulePersist).removeFromMetadata env gid d).mls.groups[gid]? =
          some g' := by
        rw [removeFromMetadata_mls]
        simp [hgs]
      have hsettled :
          Settles n ((emit { n with mls := mls } .schedulePersist).removeFromMetadata env gid d) gid R := by
        refine ⟨fun x hx => ⟨_, hlisted, fun y => ?_⟩, fun y hy => ?_⟩
        · obtain rfl := Option.some.inj (hget.symm.trans hx)
          by_cases hy : y = d
          · subst hy
            exact iff_of_false (by simp) hgone
          · rw [hstay y hy, ← hmirror y]
            simp [hy]
        · obtain ⟨-, hnew, x, hx, hin⟩ := hy
          obtain rfl := Option.some.inj (hget.symm.trans hx)
          have hyd : y ≠ d := fun h => hgone (h ▸ hin)
          exact (hnew g hg ((hstay y hyd).1 hin)).elim
      dsimp only
      split
      · exact hsettled
      · exact hsettled

theorem listed_direct {mid : String} {ts : ℤ} {content : MessageContent} (hk : n.storage.Keyed)
    (h : ¬ (content.metadata["type"]? = some "mls_invite_accepted" ∧ content.metadata["group_id"]? = some gid)) :
    (n.handleDirectContent W env d mid ts content).listed gid = n.listed gid := by
  have hforget (n' : Node M) (h' : n'.storage.groupMetadata[gid]? = n.storage.groupMetadata[gid]?) :
      (n'.store fun s => s.deleteDirectById env.faults d n'.localDid ts mid).listed gid = n.listed gid :=
    listed_congr (by rw [store_storage, deleteDirectById_metadata, h'])
  unfold handleDirectContent
  dsimp only
  split
  · split
    · exact hforget _ (by rw [handleGroupInvitationDm_storage.2])
    · exact hforget _ rfl
  · rename_i hkind
    split
    · rename_i g' hg'
      refine hforget _ (handleInviteAcceptedDm_metadata hk ?_)
      intro heq
      exact h ⟨hkind, heq ▸ hg'⟩
    · exact hforget _ rfl
  · split
    · exact hforget _ (by rw [handleInviteDeclinedDm_metadata])
    · exact hforget _ rfl
  · rfl

/-- The inviter's side of an acceptance: the one that the commit brings in is entered as a member. -/
theorem settles_accepted (hk : n.storage.Keyed) (hm : n.Mirrored gid)
    (hf : ∀ g k, n.mls.groups[gid]? = some g → M.pendingCommit g = some k →
      env.faults "group_metadata" gid = false ∧ L.brings k = [d] ∧ L.takes k = []) :
    Settles n (n.handleInviteAcceptedDm env gid d) gid (fun _ r => r = GroupRole.member) := by
  unfold handleInviteAcceptedDm
  rcases n.mls.confirmAddMember_cases gid with ⟨e, he⟩ | ⟨g, k, r, p', g', hg, hpending, hmerge, hgs, hout⟩
  · rw [he]
    exact (Retains.refl n gid).settles hm
  rcases hr : n.mls.confirmAddMember gid with ⟨c, mls⟩
  rw [hr] at hgs hout
  dsimp only at hgs
  rcases hout with ⟨e, e', rfl, he⟩ | ⟨rfl, hok⟩
  · dsimp only at he
    subst he
    exact (retains_insert hg hgs (fun x => iff_of_eq (congrArg (x ∈ ·) (L.merge_error hmerge))) gid).settles hm
  · dsimp only at hok
    subst hok
    obtain ⟨hfault, hbrings, htakes⟩ := hf g k hg hpending
    have hmoves := L.merge hmerge hpending
    rw [hbrings, htakes] at hmoves
    have hnow (x : Did) : x ∈ M.dids g' ↔ x ∈ M.dids g ∨ x = d := by simpa using hmoves.1 x
    obtain ⟨ds, hds, hmirror⟩ := hm g hg
    cases hgroup : n.storage.fetchGroupMetadata gid with
    | none => simp [listed, hgroup] at hds
    | some group =>
      obtain rfl : group.members.map (·.did) = ds := by simpa [listed, hgroup] using hds
      have hgroup' : ((emit { n with mls := mls } .schedulePersist).publishInviteCommit env gid
          d).storage.fetchGroupMetadata gid = some group := by simpa using hgroup
      have hfetch := fetch_addToMetadata (d := d) (by simpa using hk) hfault hgroup'
      have hget : ((((emit { n with mls := mls } .schedulePersist).publishInviteCommit env gid d).addToMetadata
          env gid d).store fun s => s.deleteOutboundInvite env.faults gid d).mls.groups[gid]? = some g' := by
        rw [store_mls, addToMetadata_mls, publishInviteCommit_mls]
        simp [hgs]
      refine settles_of_written hget hfetch (fun x => ?_) ?_
      · rw [hnow x, ← hmirror x]
        split_ifs with hany
        · have hin : d ∈ group.members.map (·.did) := by simpa using hany
          constructor
          · exact Or.inl
          · intro hx
            rcases hx with hx | rfl
            · exact hx
            · exact hin
        · simp
      · rintro y ⟨-, hnew, x, hx, hin⟩ m hmem hmd
        obtain rfl := Option.some.inj (hget.symm.trans hx)
        have hy : y ∉ M.dids g := hnew g hg
        obtain rfl : y = d := ((hnow y).1 hin).resolve_left hy
        have hunlisted : y ∉ group.members.map (·.did) := fun h => hy ((hmirror y).1 h)
        rw [if_neg (by simpa using hunlisted)] at hmem
        rcases List.mem_append.1 hmem with h | h
        · exact (hunlisted (hmd ▸ List.mem_map_of_mem h)).elim
        · obtain rfl := List.mem_singleton.1 h
          rfl

theorem settles_direct {mid : String} {ts : ℤ} {content : MessageContent} (hk : n.storage.Keyed) (hm : n.Mirrored gid)
    (hf : Op.Follows L W n (.direct env d mid ts content)) :
    Settles n (n.handleDirectContent W env d mid ts content) gid (fun _ r => r = GroupRole.member) := by
  by_cases h : content.metadata["type"]? = some "mls_invite_accepted" ∧ content.metadata["group_id"]? = some gid
  · have hs := settles_accepted hk hm fun g k => hf gid g k h.1 h.2
    simp only [handleDirectContent, h.1, h.2]
    refine ⟨fun g hg => ?_, fun x hx => ?_⟩
    · obtain ⟨ds, hds, hmem⟩ := hs.1 g hg
      exact ⟨ds, (listed_congr (by rw [store_storage, deleteDirectById_metadata])).trans hds, hmem⟩
    · obtain ⟨group, hgroup, hrole⟩ := hs.2 x hx
      refine ⟨group, ?_, hrole⟩
      unfold fetchGroupMetadata at hgroup ⊢
      rw [store_storage, deleteDirectById_metadata]
      exact hgroup
  · refine Retains.settles ⟨listed_direct hk h, ?_⟩ hm
    exact members_kept (W := W) L (o := .direct env d mid ts content) h (fun _ h => h) (fun _ h => h)

/-! Messages of the group -/

variable {pm : M.Message} {p : M.Provider} {g : M.Group}

theorem dids_receive_failed (L : MemberLaws M) (h : M.received pm p g = none) :
    M.dids (M.receive pm p g).2 = M.dids g := by
  have hp : M.dids (M.processMessage pm p g).2.2 = M.dids g := L.process.1
  unfold OpenMls.received at h
  unfold OpenMls.receive
  rcases hpm : M.processMessage pm p g with ⟨⟨e⟩ | ⟨s, content⟩, p₁, g₁⟩
  · rw [hpm] at hp
    exact hp
  · rw [hpm] at hp h
    cases content with
    | applicationMessage b => exact hp
    | other => exact hp
    | proposalMessage q => exact L.propose.trans hp
    | stagedCommitMessage k =>
      dsimp only at h ⊢
      rcases hmerge : M.mergeStagedCommit k p₁ g₁ with ⟨⟨e⟩ | ⟨u⟩, p₂, g₂⟩
      · exact (L.staged_error hmerge).trans hp
      · rw [hmerge] at h
        cases h

/-- What is not a commit that moves somebody. -/
theorem dids_receive_still (L : MemberLaws M) (h : ∀ s k, (M.processMessage pm p g).1 =
    .ok (s, .stagedCommitMessage k) → L.brings k = [] ∧ L.takes k = []) :
    SameMembers (M.dids (M.receive pm p g).2) (M.dids g) := by
  have hp : M.dids (M.processMessage pm p g).2.2 = M.dids g := L.process.1
  unfold OpenMls.receive
  rcases hpm : M.processMessage pm p g with ⟨⟨e⟩ | ⟨s, content⟩, p₁, g₁⟩
  · rw [hpm] at hp
    exact fun x => iff_of_eq (congrArg (x ∈ ·) hp)
  · rw [hpm] at hp h
    dsimp only at hp
    cases content with
    | applicationMessage b => exact fun x => iff_of_eq (congrArg (x ∈ ·) hp)
    | other => exact fun x => iff_of_eq (congrArg (x ∈ ·) hp)
    | proposalMessage q => exact fun x => iff_of_eq (congrArg (x ∈ ·) (L.propose.trans hp))
    | stagedCommitMessage k =>
      obtain ⟨hb, ht⟩ := h s k rfl
      rcases hmerge : M.mergeStagedCommit k p₁ g₁ with ⟨⟨e⟩ | ⟨u⟩, p₂, g₂⟩
      · exact fun x => iff_of_eq (congrArg (x ∈ ·) (by simp only [hmerge]; exact (L.staged_error hmerge).trans hp))
      · have hmoves := (L.staged hmerge).1
        rw [hb, ht, hp] at hmoves
        simp only [hmerge]
        exact hmoves.still

theorem retains_synced {x : Env × GroupMessage} (L : MemberLaws M) (id : String)
    (h : n.storage.hasGroupMessage id x.2.id = false → ∀ pm g s k, M.Reads x.2.mlsCiphertext pm →
      n.mls.groups[id]? = some g → (M.processMessage pm n.mls.provider g).1 = .ok (s, .stagedCommitMessage k) →
      L.brings k = [] ∧ L.takes k = []) (gid : String) :
    Retains n (n.handleSyncedMessage W x.1 id x.2).2 gid := by
  have hs : (n.handleSyncedMessage W x.1 id x.2).2.listed gid = n.listed gid :=
    listed_congr (by rw [handleSyncedMessage_metadata])
  rcases n.handleSyncedMessage_cases W x.1 id x.2 with hsame | ⟨hnew, pm, g, hr, hg, hgs⟩
  · exact .congr hs (by rw [hsame])
  · exact ⟨hs, (retains_insert hg hgs (dids_receive_still L (h hnew pm g · · hr hg)) gid).2⟩

theorem retains_sync (L : MemberLaws M) {xs : List (Env × GroupMessage)} (h : HarmlessBatch L W id n xs)
    (gid : String) : Retains n (n.handleSyncReceived W id xs) gid := by
  have hfold : ∀ k, Retains n (xs.foldl (fun acc x =>
      let r := acc.2.handleSyncedMessage W x.1 id x.2
      (if r.1 then acc.1 + 1 else acc.1, r.2)) (k, n)).2 gid := by
    induction xs generalizing n with
    | nil => exact fun _ => .refl n gid
    | cons x xs ih =>
      intro k
      exact (retains_synced L id h.1 gid).trans (ih h.2 _)
  unfold handleSyncReceived
  dsimp only
  split_ifs
  · exact hfold 0
  · exact hfold 0

/-- With nothing proposed there is nothing to commit. -/
theorem afterHandshake_cases (env : Env) (before : List Did) (hg : n.mls.groups[gid]? = some g)
    (hq : M.pendingProposals g = []) :
    n.localDid ∈ M.dids g ∧ (n.afterHandshake env gid before).storage = n.storage ∧
        (n.afterHandshake env gid before).mls.groups = n.mls.groups ∨
      (n.afterHandshake env gid before).mls.groups[gid]? = none := by
  have hcommit : n.mls.commitPendingProposals gid env.rng = (.ok none, n.mls) := by
    simp [commitPendingProposals, hg, hq]
  have hsettle (before' : List Did) := settleMembers_cases (n.emit .schedulePersist) env gid before' (M.dids g)
  unfold afterHandshake
  dsimp only
  rw [emit_mls, membersOrDefault_some hg]
  split_ifs with hsame
  · simp only [autoCommitProposals, emit_mls, hcommit]
    rcases hsettle before with ⟨hin, hs, hm⟩ | hgone
    · exact Or.inl ⟨hin, hs, congrArg (·.groups) hm⟩
    · exact Or.inr hgone
  · rcases hsettle before with ⟨hin, hs, hm⟩ | hgone
    · exact Or.inl ⟨hin, hs, congrArg (·.groups) hm⟩
    · exact Or.inr hgone

theorem retains_plaintext (L : MemberLaws M) (hk : n.storage.Keyed) (m : GroupMessage) (b : Bytes)
    (hs : ∀ content d ds, livePayload W b = some (.message content) →
      content.metadata["type"]? = some "admin_abandoned" → content.metadata["admin_did"]? = some d →
      n.listed m.groupId = some ds → d ∉ ds) (gid : String) :
    Retains n ((n.handleGroupPlaintext W env m b).emit .schedulePersist) gid := by
  refine ⟨listed_handleGroupPlaintext hk m hs, fun g' hg' => ?_⟩
  have hcalls : Calls (fun _ c => GroupCall.Still c) (fun _ _ => False) n.mls (n.handleGroupPlaintext W env m b).mls :=
    calls_handleGroupPlaintext (fun _ _ h => h) (.refl _ _ n.mls)
  exact hcalls.invariant (P := fun k x => ∃ g, n.mls.groups[k]? = some g ∧ SameMembers (M.dids x) (M.dids g))
    (fun _ c _ _ hc hx => by rw [L.still c hc]; exact hx) (fun _ _ h => h.elim)
    (fun k x hx => ⟨x, hx, fun _ => Iff.rfl⟩) gid g' hg'

/-- A commit or a proposal that openmls took. -/
theorem received_none (h : M.received pm p g = some none) :
    (∃ s k p₁ g₁ p₂, M.processMessage pm p g = (.ok (s, .stagedCommitMessage k), p₁, g₁) ∧
      M.mergeStagedCommit k p₁ g₁ = (.ok (), p₂, (M.receive pm p g).2)) ∨
    (∃ s q, (M.processMessage pm p g).1 = .ok (s, .proposalMessage q)) ∨
    ∃ s p₁, M.processMessage pm p g = (.ok (s, .other), p₁, (M.receive pm p g).2) := by
  unfold OpenMls.received at h
  unfold OpenMls.receive
  rcases hpm : M.processMessage pm p g with ⟨⟨e⟩ | ⟨s, content⟩, p₁, g₁⟩
  · rw [hpm] at h
    cases h
  · rw [hpm] at h
    cases content with
    | applicationMessage b => cases h
    | proposalMessage q => exact Or.inr (Or.inl ⟨s, q, rfl⟩)
    | other => exact Or.inr (Or.inr ⟨s, p₁, rfl⟩)
    | stagedCommitMessage k =>
      dsimp only at h ⊢
      rcases hmerge : M.mergeStagedCommit k p₁ g₁ with ⟨⟨e⟩ | ⟨u⟩, p₂, g₂⟩
      · rw [hmerge] at h
        cases h
      · exact Or.inl ⟨s, k, p₁, g₁, p₂, rfl, hmerge⟩

theorem received_some {d : DecryptedMessage} (h : M.received pm p g = some (some d)) :
    (M.processMessage pm p g).1 = .ok (d.senderCredential, .applicationMessage d.plaintext) := by
  unfold OpenMls.received at h
  rcases hpm : M.processMessage pm p g with ⟨⟨e⟩ | ⟨s, content⟩, p₁, g₁⟩
  · rw [hpm] at h
    cases h
  · rw [hpm] at h
    cases content with
    | applicationMessage b =>
      obtain rfl := Option.some.inj (Option.some.inj h)
      rfl
    | proposalMessage q =>
      dsimp only at h
      cases hq : (M.storePendingProposal q p₁ g₁).1.toOption <;> simp [hq] at h
    | stagedCommitMessage k =>
      dsimp only at h
      cases hq : (M.mergeStagedCommit k p₁ g₁).1.toOption <;> simp [hq] at h
    | other => cases h

/-- A handshake that is harmless leaves nothing to commit, and us out or everybody in. -/
theorem handshake_of_harmless {g : M.Group} (hh : n.Harmless L W pm g)
    (hrec : M.received pm n.mls.provider g = some none) :
    M.pendingProposals (M.receive pm n.mls.provider g).2 = [] ∧
      (SameMembers (M.dids (M.receive pm n.mls.provider g).2) (M.dids g) ∨
        n.localDid ∉ M.dids (M.receive pm n.mls.provider g).2) := by
  have hp : M.dids (M.processMessage pm n.mls.provider g).2.2 = M.dids g ∧
      M.pendingProposals (M.processMessage pm n.mls.provider g).2.2 = M.pendingProposals g := L.process
  unfold Harmless at hh
  rcases received_none hrec with ⟨s, k, p₁, g₁, p₂, hpm, hmerge⟩ | ⟨s, q, hpm⟩ | ⟨s, p₁, hpm⟩
  · rw [hpm] at hp hh
    dsimp only at hp hh
    obtain ⟨hq, hmoved⟩ := hh
    obtain ⟨hmoves, hleft⟩ := L.staged hmerge
    rw [hp.1] at hmoves
    refine ⟨hleft (hp.2.trans hq), ?_⟩
    rcases hmoved with ⟨hb, ht⟩ | ⟨hnodup, htaken, hkept⟩
    · rw [hb, ht] at hmoves
      exact Or.inl hmoves.still
    · exact Or.inr (hmoves.2 hnodup _ htaken hkept)
  · rw [hpm] at hh
    exact hh.elim
  · rw [hpm] at hp hh
    exact ⟨hp.2.trans hh, Or.inl fun x => iff_of_eq (congrArg (x ∈ ·) hp.1)⟩

theorem settles_group {m : GroupMessage} (hk : n.storage.Keyed) (hm : ∀ gid, n.Mirrored gid)
    (hf : Op.Follows L W n (.group env m)) : Settles n (n.handleGroupMessage W env m) gid R := by
  rcases n.handleGroupMessage_cases W env m with ⟨-, hs, -, hgs⟩ | ⟨pm, g, mls, hr, hg, -, hgs, hcase⟩
  · exact Retains.settles (.congr (listed_congr (by rw [hs])) (by rw [hgs])) (hm gid)
  have hh := hf pm g hr hg
  cases hrec : M.received pm n.mls.provider g with
  | none =>
    rw [hrec] at hcase
    obtain ⟨-, hs, -, hgs'⟩ := hcase
    have hfail := retains_insert hg hgs (fun x => iff_of_eq (congrArg (x ∈ ·) (dids_receive_failed L hrec))) gid
    exact Retains.settles (hfail.trans (.congr (listed_congr (by rw [hs])) (by rw [hgs']))) (hm gid)
  | some r =>
    rw [hrec] at hcase
    cases r with
    | some d =>
      have hpm := received_some hrec
      dsimp only at hcase
      rw [hcase]
      have hsame : SameMembers (M.dids (M.receive pm n.mls.provider g).2) (M.dids g) :=
        dids_receive_still L fun s k h => by rw [hpm] at h; cases h
      refine Retains.settles ((retains_insert hg hgs hsame gid).trans ?_) (hm gid)
      refine retains_plaintext (n := { n with mls := mls }) L hk m d.plaintext ?_ gid
      intro content d' ds hp ht hd hds
      unfold Harmless at hh
      rw [hpm] at hh
      obtain ⟨ds', hds', hmirror⟩ := hm m.groupId g hg
      obtain rfl := Option.some.inj (hds'.symm.trans hds)
      exact fun hin => hh content d' hp ht hd ((hmirror d').1 hin)
    | none =>
      dsimp only at hcase
      obtain ⟨hq, hmoved⟩ := handshake_of_harmless hh hrec
      by_cases hid : m.groupId = gid
      · rw [hcase]
        have hget : ({ n with mls := mls } : Node M).mls.groups[m.groupId]? =
            some (M.receive pm n.mls.provider g).2 := by simp [hgs]
        subst hid
        rcases afterHandshake_cases env (n.mls.membersOrDefault m.groupId) hget hq with ⟨hin, hs, hgs'⟩ | hgone
        · rcases hmoved with hsame | hout
          · exact Retains.settles ((retains_insert hg hgs hsame _).trans
              (.congr (listed_congr (by rw [hs])) (by rw [hgs']))) (hm _)
          · exact (hout hin).elim
        · exact settles_of_gone hgone
      · refine Retains.settles ⟨?_, ?_⟩ (hm gid)
        · rw [hcase]
          exact (acts_afterHandshake { n with mls := mls } env m.groupId _).listed (spares_purge hid)
        · exact members_kept (W := W) L (o := .group env m) (fun h => hid h.symm) (fun _ h => hid h.1.symm)
            (fun _ h => h)

/-- One step that meets the condition. -/
theorem settles_exec (hk : n.storage.Keyed) (hl : n.mls.localDid = n.localDid) (hm : ∀ gid, n.Mirrored gid)
    (op : Op) (hf : op.Follows L W n) (gid : String) : Settles n (n.exec W op) gid (n.Admits op) := by
  cases op with
  | create env name => exact settles_create L hl (hm gid) hf
  | invite env net id invitee =>
    refine Retains.settles ⟨(acts_mlsInviteToGroup n W env net id invitee).listed ?_, ?_⟩ (hm gid)
    · rintro w ⟨d, i, now, rfl, -, -⟩
      trivial
    · exact members_kept (W := W) L (o := .invite env net id invitee) (fun h => h) (fun _ h => h) (fun _ h => h)
  | accept env id => exact settles_accept (hm gid) hf
  | decline env id =>
    refine Retains.settles ⟨listed_declineInvitation, ?_⟩ (hm gid)
    exact members_kept (W := W) L (o := .decline env id) (fun h => h) (fun _ h => h) (fun _ h => h)
  | acceptWelcome env hex => exact settles_acceptWelcome (hm gid) hf
  | leave env id => exact settles_leave L (hm gid)
  | abandon env id => exact settles_abandon L (hm gid)
  | delete env id => exact settles_delete L (hm gid)
  | removeMember env id d => exact settles_removeMember hk (hm gid) hf
  | changeRole env id d role =>
    refine Retains.settles ⟨(acts_mlsChangeMemberRole n W env id d role).listed ?_, ?_⟩ (hm gid)
    · rintro w rfl
      trivial
    · exact members_kept (W := W) L (o := .changeRole env id d role) (fun h => h) (fun _ h => h) (fun _ h => h)
  | send env id text r md =>
    refine Retains.settles ⟨(acts_mlsSendGroupMessage n W env id text r md).listed ?_, ?_⟩ (hm gid)
    · rintro w (⟨_, -, -, rfl⟩ | ⟨_, _, rfl⟩)
      · trivial
      · trivial
    · exact members_kept (W := W) L (o := .send env id text r md) (fun h => h) (fun _ h => h) (fun _ h => h)
  | direct env d mid ts content => exact settles_direct hk (hm gid) hf
  | group env m => exact settles_group hk hm hf
  | sync id xs => exact (retains_sync L hf gid).settles (hm gid)
  | sweep env =>
    refine Retains.settles ⟨listed_sweepExpiredInvites, ?_⟩ (hm gid)
    exact members_kept (W := W) L (o := .sweep env) (fun h => h) (fun _ h => h) (fun _ h => h)

/-- Along a run of steps that meet the condition the metadata of every group lists the members of its MLS group, and
each step gives whom it lets in the role that it should. -/
theorem mirrored_runs (L : MemberLaws M) (W : Wire) (n : Node M)
    (h : StepSystem.Reach (memberSys M W) (fun n op => op.Follows L W n) n) :
    (∀ gid, n.Mirrored gid) ∧ ∀ op : Op, op.Follows L W n → n.AdmitsRightly W op := by
  have hn : n.storage.Keyed ∧ n.mls.localDid = n.localDid ∧ ∀ gid, n.Mirrored gid := by
    refine h.invariant (I := fun n => n.storage.Keyed ∧ n.mls.localDid = n.localDid ∧ ∀ gid, n.Mirrored gid) ?_ ?_
    · intro n hfresh
      refine ⟨by rw [hfresh.1.storage]; exact .empty, hfresh.2, fun gid g hg => ?_⟩
      rw [hfresh.1.groups] at hg
      simp at hg
    · intro n op hn hf
      refine ⟨keyed_exec op hn.1, ?_, fun gid => (settles_exec hn.1 hn.2.1 hn.2.2 op hf gid).1⟩
      exact ((calls_react n W (.op op)).localDid.trans hn.2.1).trans (acts_exec W n op).localDid.symm
  exact ⟨hn.2.2, fun op hf gid d hd => (settles_exec hn.1 hn.2.1 hn.2.2 op hf gid).2 d hd⟩

end Node

namespace IdealMls
variable {g : GroupState} {c : Commit}

theorem moves_apply (g : GroupState) (c : Commit) : Moves c.adds c.removes g.members (g.apply c).members := by
  refine ⟨fun x hx => ?_, fun _ x hx hnot => ?_⟩
  · simp [GroupState.apply, hx]
  · simp [GroupState.apply, hx, hnot]

theorem dids_propose {α : Type} (p : Provider) (g : GroupState) (c : Commit) (a : α) :
    idealMls.dids (propose p g c a).2.2 = idealMls.dids g := by
  unfold propose
  split_ifs
  · rfl
  · rfl

def memberLaws : MemberLaws idealMls where
  brings c := c.adds
  takes c := c.removes
  new h := (epochs.new h).2.1
  still c hc := by
    cases c with
    | createMessage d rng b =>
      simp only [GroupCall.run, idealMls]
      split_ifs
      · rfl
      · rfl
    | clearPendingCommit => rfl
    | leaveGroup d rng => rfl
    | _ => exact hc.elim
  add := by
    intro d rng kp p g
    have hadd : idealMls.addMembers d rng [kp] p g = if (g.members ++ [kp.did]).Nodup then
        propose p g ⟨d, rng, g.epoch, [kp.did], []⟩ _ else (.error "DuplicateSignatureKey", p, g) := rfl
    rw [hadd]
    split_ifs
    · exact dids_propose _ _ _ _
    · rfl
  remove := dids_propose _ _ _ _
  remove_ok := by
    intro d rng i x p g c p' g' h _ hx
    obtain ⟨-, rfl⟩ := propose_ok h
    obtain ⟨y, hy, heq⟩ := List.mem_map.1 hx
    obtain ⟨rfl, rfl⟩ := Prod.mk.inj heq
    exact ⟨_, rfl, rfl, by simp [List.mk_mem_zipIdx_iff_getElem?.1 hy]⟩
  merge := by
    intro p g k p' g' h hk
    simp only [idealMls] at h hk
    rw [hk] at h
    obtain rfl : g.apply k = g' := (Prod.mk.inj (Prod.mk.inj h).2).2
    rw [dids_eq, dids_eq g]
    exact moves_apply g k
  merge_error := by
    intro p g e p' g' h
    simp only [idealMls] at h
    split at h
    · cases h
    · cases h
  process := ⟨rfl, rfl⟩
  propose := rfl
  staged := by
    intro k p g p' g' h
    obtain rfl : g.apply k = g' := (Prod.mk.inj (Prod.mk.inj h).2).2
    rw [dids_eq, dids_eq g]
    exact ⟨moves_apply g k, fun _ => rfl⟩
  staged_error h := by cases h

end IdealMls

namespace MemberMirror
open IdealMls IdealGroup

/-- `did:a`'s group with `did:b` and with `did:c`, a moderator. -/
def staffed : Node idealMls :=
  [Op.create (env 0) "G", Op.invite (env 1) net "g" "did:b",
    Op.direct (env 2) "did:b" "m" 0 (Node.acceptedContent "g"), Op.invite (env 3) net "g" "did:c",
    Op.direct (env 4) "did:c" "m" 0 (Node.acceptedContent "g"),
    Op.changeRole (env 5) "g" "did:c" "moderator"].foldl (fun n op => n.exec idealWire op) alice

/-- The commit with which `did:b` removes `did:c`. -/
def removal : GroupMessage :=
  { id := "x", senderDid := "did:b", groupId := "g", timestamp := 0, type := 0, replyTo := none
    mlsCiphertext := messageCodec.enc (.commit "g" ⟨"did:b", 6, 2, [], ["did:c"]⟩) }

def struck : Node idealMls := staffed.exec idealWire (.group (env 6) removal)

def reinvited : Node idealMls := struck.exec idealWire (.invite (env 7) net "g" "did:c")

theorem reachable_staffed : StepSystem.Reachable (memberSys idealMls idealWire) staffed :=
  StepSystem.reachable_foldl (M := memberSys idealMls idealWire) (.init ⟨⟨rfl, rfl⟩, rfl⟩) _

theorem reachable_struck : StepSystem.Reachable (memberSys idealMls idealWire) struck :=
  StepSystem.reachable_foldl (M := memberSys idealMls idealWire) (s := staffed) reachable_staffed
    [.group (env 6) removal]

theorem reachable_reinvited : StepSystem.Reachable (memberSys idealMls idealWire) reinvited :=
  StepSystem.reachable_foldl (M := memberSys idealMls idealWire) (s := struck) reachable_struck
    [.invite (env 7) net "g" "did:c"]

/-- `did:b` removes `did:c`: the others' metadata goes on listing it, and when it is invited again it is the moderator
it was. -/
theorem removal_unheard :
    (¬ ∀ n : Node idealMls, StepSystem.Reachable (memberSys idealMls idealWire) n → ∀ gid, n.Mirrored gid) ∧
    ¬ ∀ n : Node idealMls, StepSystem.Reachable (memberSys idealMls idealWire) n →
      ∀ op : Op, n.AdmitsRightly idealWire op := by
  refine ⟨fun h => ?_, fun h => ?_⟩
  · have hgroup : struck.mls.groups["g"]?.map idealMls.dids = some ["did:a", "did:b"] := by decide +kernel
    have hlisted : struck.listed "g" = some ["did:a", "did:b", "did:c"] := by decide +kernel
    obtain ⟨g, hg, hdids⟩ := Option.map_eq_some_iff.1 hgroup
    obtain ⟨ds, hds, hsame⟩ := h struck reachable_struck "g" g hg
    obtain rfl := Option.some.inj (hlisted.symm.trans hds)
    have hmem := (hsame "did:c").1 (by decide)
    rw [hdids] at hmem
    revert hmem
    decide
  · have hbefore : reinvited.mls.groups["g"]?.map idealMls.dids = some ["did:a", "did:b"] := by decide +kernel
    have hafter :
        (reinvited.exec idealWire (.direct (env 8) "did:c" "m" 0 (Node.acceptedContent "g"))).mls.groups["g"]?.map
        idealMls.dids = some ["did:a", "did:b", "did:c"] := by decide +kernel
    have hmembers : (((reinvited.exec idealWire (.direct (env 8) "did:c" "m" 0
        (Node.acceptedContent "g"))).storage.fetchGroupMetadata "g").map (·.members)) =
        some [⟨"did:a", GroupRole.admin, 0, none⟩, ⟨"did:b", GroupRole.member, 0, none⟩,
          ⟨"did:c", GroupRole.moderator, 0, none⟩] := by decide +kernel
    obtain ⟨g, hg, hdids⟩ := Option.map_eq_some_iff.1 hbefore
    obtain ⟨g', hg', hdids'⟩ := Option.map_eq_some_iff.1 hafter
    have hnew : ∀ x, reinvited.mls.groups["g"]? = some x → "did:c" ∉ idealMls.dids x := by
      intro x hx
      obtain rfl := Option.some.inj (hg.symm.trans hx)
      rw [hdids]
      decide
    obtain ⟨group, hgroup, hrole⟩ := h reinvited reachable_reinvited
      (.direct (env 8) "did:c" "m" 0 (Node.acceptedContent "g")) "g" "did:c"
      ⟨Or.inr (by rw [hg]; rfl), hnew, g', hg', by rw [hdids']; decide⟩
    rw [hgroup] at hmembers
    have hms := Option.some.inj hmembers
    have hmoderator : GroupRole.moderator = GroupRole.member :=
      hrole ⟨"did:c", GroupRole.moderator, 0, none⟩ (by simp [hms]) rfl
    revert hmoderator
    decide

/-! `did:b` joins, is removed and joins again. -/

def joins : List Op :=
  [.create (env 0) "G", .invite (env 1) net "g" "did:b",
    .direct (env 2) "did:b" "m" 0 (Node.acceptedContent "g"), .removeMember (env 3) "g" "did:b",
    .invite (env 4) net "g" "did:b"]

def asked : Node idealMls := joins.foldl (fun n op => n.exec idealWire op) alice

theorem follows_accepted {n : Node idealMls} {i : ℕ} {d : Did} {k : idealMls.Commit} (hs : n.mls.slot "g" = some k)
    (hb : memberLaws.brings k = [d]) (ht : memberLaws.takes k = []) :
    Op.Follows memberLaws idealWire n (.direct (env i) d "m" 0 (Node.acceptedContent "g")) := by
  intro gid g k' _ hgid hg hk
  have hname : (Node.acceptedContent "g").metadata["group_id"]? = some "g" := by decide +kernel
  obtain rfl := Option.some.inj (hname.symm.trans hgid)
  obtain rfl := Option.some.inj ((MlsGroupHandler.slot_eq_some.2 ⟨g, hg, hk⟩).symm.trans hs)
  exact ⟨rfl, hb, ht⟩

theorem guarded_joins : StepSystem.Guarded (memberSys idealMls idealWire)
    (fun n op => op.Follows memberLaws idealWire n) alice joins := by
  refine ⟨rfl, trivial, ?_, ⟨rfl, fun g hg => ?_⟩, trivial, trivial⟩
  · exact follows_accepted (k := ⟨"did:a", 1, 0, ["did:b"], []⟩) (by decide +kernel) rfl rfl
  · have hgroup : ((joins.take 3).foldl (fun n op => n.exec idealWire op) alice).mls.groups["g"]?.map
        (fun g => (idealMls.dids g, g.proposals)) = some (["did:a", "did:b"], []) := by decide +kernel
    have hg' := congrArg (Option.map fun g => (idealMls.dids g, GroupState.proposals g)) hg
    obtain ⟨hdids, hproposals⟩ := Prod.mk.inj (Option.some.inj (hg'.symm.trans hgroup))
    exact ⟨by rw [hdids]; decide, hproposals⟩

theorem rejoined_rightly : (∀ gid, asked.Mirrored gid) ∧
    asked.AdmitsRightly idealWire (.direct (env 5) "did:b" "m" 0 (Node.acceptedContent "g")) := by
  have hreach := StepSystem.reach_foldl (M := memberSys idealMls idealWire)
    (G := fun n op => op.Follows memberLaws idealWire n) (.init ⟨⟨rfl, rfl⟩, rfl⟩) guarded_joins
  have hruns := Node.mirrored_runs memberLaws idealWire asked hreach
  exact ⟨hruns.1, hruns.2 _ (follows_accepted (k := ⟨"did:a", 4, 2, ["did:b"], []⟩) (by decide +kernel) rfl rfl)⟩

end MemberMirror
end Variance
