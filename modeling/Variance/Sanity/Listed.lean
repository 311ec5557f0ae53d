import Variance.Sanity.InviteSteps
import Variance.Spec.Membership

/-! Which steps change the dids that a group's metadata lists. Most leave them as they are; the others are an entry
stored, a member added and a member taken out. -/

namespace Variance

theorem Group.map_did_setRole {d : Did} {r : GroupRole} {ms : List GroupMember} :
    (LocalMessageStorage.setRole d r ms).map (·.did) = ms.map (·.did) := by
  induction ms with
  | nil => rfl
  | cons m ms ih =>
    unfold LocalMessageStorage.setRole
    split_ifs
    · rfl
    · rw [List.map_cons, ih, List.map_cons]

/-- A write that leaves the members listed for `gid` as they are. -/
def StoreWrite.Spares (gid : String) : StoreWrite → Prop
  | .metadata m => m.id ≠ gid
  | .noMetadata g => g ≠ gid
  | _ => True

namespace Node
variable {M : OpenMls} {n n' : Node M} {W : Wire} {env : Env} {gid g : String} {d : Did} {A : StoreWrite → Prop}

open LocalMessageStorage

theorem listed_congr (h : n'.storage.groupMetadata[gid]? = n.storage.groupMetadata[gid]?) :
    n'.listed gid = n.listed gid := by
  unfold listed fetchGroupMetadata
  rw [h]

theorem fetch_store (n : Node M) (env : Env) (gid : String) (group : Group) :
    (n.store fun s => s.storeGroupMetadata env.faults group).storage.fetchGroupMetadata gid =
      if group.id = gid ∧ env.faults "group_metadata" group.id = false then some group
      else n.storage.fetchGroupMetadata gid := by
  simp only [fetchGroupMetadata, store_storage, storeGroupMetadata, get_treeInsert]

theorem listed_store (n : Node M) (env : Env) (gid : String) (group : Group) :
    (n.store fun s => s.storeGroupMetadata env.faults group).listed gid =
      if group.id = gid ∧ env.faults "group_metadata" group.id = false then some (group.members.map (·.did))
      else n.listed gid := by
  unfold listed
  rw [fetch_store]
  split_ifs <;> rfl

theorem listed_updateMemberRole (n : Node M) (f : Faults) (g gid : String) (d : Did) (r : GroupRole) :
    listed { n with storage := (n.storage.updateMemberRole f g d r).2 } gid = n.listed gid := by
  unfold listed fetchGroupMetadata updateMemberRole
  cases hg : n.storage.groupMetadata[g]? with
  | none => rfl
  | some group =>
    dsimp only
    split
    · simp only [get_treeInsert]
      split_ifs with hif
      · rw [← hif.1, hg]
        simp [Group.map_did_setRole]
      · rfl
    · rfl

theorem Acts.listed (h : Acts A n n') (hA : ∀ w, A w → w.Spares gid) : n'.listed gid = n.listed gid := by
  refine h.invariant (P := fun s => (s.fetchGroupMetadata gid).map (fun group => group.members.map (·.did)) =
    n.listed gid) ?_ rfl
  intro s f w hw hs
  have hspare := hA w hw
  unfold fetchGroupMetadata at hs ⊢
  rw [← hs]
  cases w with
  | metadata group =>
    simp only [LocalMessageStorage.apply, storeGroupMetadata, get_treeInsert]
    rw [if_neg fun hif => hspare hif.1]
  | noMetadata k =>
    simp only [LocalMessageStorage.apply, deleteGroupMetadata, get_treeRemove]
    rw [if_neg fun hif => hspare hif.1]
  | role k d r => exact listed_updateMemberRole { n with storage := s } f k gid d r
  | noGroupMessages k =>
    simp only [LocalMessageStorage.apply]
    rw [deleteGroupMessages_metadata]
  | noDirect a b ts id =>
    simp only [LocalMessageStorage.apply]
    rw [deleteDirectById_metadata]
  | _ => rfl

theorem spares_purge (hne : g ≠ gid) (w : StoreWrite) (hw : PurgeWrite g w) : w.Spares gid := by
  rcases hw with rfl | rfl | ⟨_, rfl⟩ | rfl
  · trivial
  · exact hne
  · trivial
  · trivial

/-! The steps that look at the members -/

/-- A freeze that strikes nobody who is listed. -/
theorem listed_freezeGroup (hk : n.storage.Keyed) {admin : Option Did}
    (ha : ∀ d ds, admin = some d → n.listed g = some ds → d ∉ ds) : (n.freezeGroup env g admin).listed gid =
      n.listed gid := by
  unfold freezeGroup
  cases hg : n.storage.fetchGroupMetadata g with
  | none => rfl
  | some group =>
    have hid : group.id = g := hk.metadata g group hg
    have hds : n.listed g = some (group.members.map (·.did)) := by simp [listed, hg]
    dsimp only
    rw [listed_store]
    split_ifs with hif
    · obtain rfl : g = gid := hid.symm.trans hif.1
      rw [hds]
      cases admin with
      | none => rfl
      | some d =>
        have hd := ha d _ rfl hds
        dsimp only
        rw [List.filter_eq_self.2]
        intro m hm
        have : m.did ≠ d := fun heq => hd (heq ▸ List.mem_map_of_mem hm)
        simpa using this
    · rfl

theorem listed_handleGroupPlaintext (hk : n.storage.Keyed) (m : GroupMessage) {b : Bytes}
    (hs : ∀ content d ds, livePayload W b = some (.message content) →
      content.metadata["type"]? = some "admin_abandoned" → content.metadata["admin_did"]? = some d →
      n.listed m.groupId = some ds → d ∉ ds) :
    (n.handleGroupPlaintext W env m b).listed gid = n.listed gid := by
  rw [handleGroupPlaintext_eq]
  split
  · exact listed_congr (by rw [handleGroupReceipt_metadata])
  · rename_i content hp
    unfold handleGroupMessageContent
    split
    · rename_i ht
      exact listed_freezeGroup hk fun d ds hd hds => hs content d ds hp ht hd hds
    · split
      · exact listed_updateMemberRole n env.faults m.groupId gid _ _
      · rfl
    · exact listed_congr (by rw [storeGroupContent_metadata])
  · rfl

theorem listed_sweepExpiredInvites : (n.sweepExpiredInvites env).listed gid = n.listed gid := by
  have hfold (l : List (String × Did × GroupInvitation)) (n' : Node M) :
      (l.foldl (expireInvite env) n').listed gid = n'.listed gid := by
    induction l generalizing n' with
    | nil => rfl
    | cons x l ih => exact ih _
  unfold sweepExpiredInvites
  dsimp only
  split_ifs
  · exact hfold _ n
  · exact hfold _ n

theorem listed_declineInvitation : (n.declineInvitation env g).2.listed gid = n.listed gid := by
  unfold declineInvitation
  split
  · rfl
  · dsimp only
    split_ifs
    · rfl
    · rfl

/-- An answerer who is not listed comes in as a member. -/
theorem fetch_addToMetadata (hk : n.storage.Keyed) (hf : env.faults "group_metadata" g = false) {group : Group}
    (hg : n.storage.fetchGroupMetadata g = some group) : (n.addToMetadata env g d).storage.fetchGroupMetadata g =
      some (if group.members.any fun m => m.did = d then group
        else { group with members := group.members ++
          [{ did := d, role := GroupRole.member, joinedAt := env.now, nickname := none }] }) := by
  have hid : group.id = g := hk.metadata g group hg
  unfold addToMetadata
  simp only [hg]
  split_ifs with hin
  · exact hg
  · exact (fetch_store _ _ _ _).trans (if_pos ⟨hid, by rw [hid]; exact hf⟩)

theorem listed_removeFromMetadata (hk : n.storage.Keyed) (hf : env.faults "group_metadata" g = false)
    {ds : List Did} (hds : n.listed g = some ds) :
    (n.removeFromMetadata env g d).listed g = some (ds.filter fun x => x ≠ d) := by
  cases hg : n.storage.fetchGroupMetadata g with
  | none => simp [listed, hg] at hds
  | some group =>
    have hid : group.id = g := hk.metadata g group hg
    obtain rfl : group.members.map (·.did) = ds := by simpa [listed, hg] using hds
    unfold removeFromMetadata
    simp only [hg]
    rw [listed_store, if_pos ⟨hid, by rw [hid]; exact hf⟩]
    simp only [List.filter_map]
    rfl

theorem removeFromMetadata_other (hk : n.storage.Keyed) (hne : gid ≠ g) :
    (n.removeFromMetadata env g d).listed gid = n.listed gid := by
  unfold removeFromMetadata
  split
  · rfl
  · rename_i group hg
    rw [listed_store, if_neg]
    rintro ⟨h, -⟩
    exact hne (h.symm.trans (hk.metadata g group hg))

end Node
end Variance
