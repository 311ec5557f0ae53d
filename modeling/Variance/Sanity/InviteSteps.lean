import Variance.Sanity.Writes
import Variance.Sanity.Slot

/-! What each step of the invitation flow does to the three things an invitation lives in: the
slot of the group's pending commit, the outbound-invite records, and the group metadata. -/

namespace Variance
namespace Node
variable {M : OpenMls} {n : Node M} {W : Wire} {env : Env} {g g' : String} {d : Did}

open LocalMessageStorage MlsGroupHandler

theorem refreshKeyPackage_groups {b : Bool} :
    (n.refreshKeyPackage env b).mls.groups = n.mls.groups := by
  unfold refreshKeyPackage generateKeyPackage
  dsimp only
  split
  · rename_i heq
    rw [← (Prod.mk.inj heq).2]
  · rename_i heq
    rw [← (Prod.mk.inj heq).2]
    split
    · rfl
    · split_ifs <;> rfl

@[simp] theorem announceLeave_storage {id : String} : (n.announceLeave env id).storage = n.storage := by
  unfold announceLeave
  split
  · rfl
  · dsimp only
    split <;> rfl

@[simp] theorem publishInviteCommit_mls : (n.publishInviteCommit env g d).mls = n.mls := by
  unfold publishInviteCommit
  split
  · rfl
  · split_ifs <;> rfl

@[simp] theorem publishInviteCommit_storage : (n.publishInviteCommit env g d).storage = n.storage := by
  unfold publishInviteCommit
  split
  · rfl
  · split_ifs <;> rfl

@[simp] theorem addToMetadata_mls : (n.addToMetadata env g d).mls = n.mls := by
  unfold addToMetadata
  split
  · rfl
  · split_ifs <;> rfl

@[simp] theorem addToMetadata_invites :
    (n.addToMetadata env g d).storage.outboundInvites = n.storage.outboundInvites := by
  unfold addToMetadata
  split
  · rfl
  · split_ifs <;> rfl

theorem addToMetadata_other (hk : n.storage.Keyed) (hne : g' ≠ g) :
    (n.addToMetadata env g d).storage.groupMetadata[g']? = n.storage.groupMetadata[g']? := by
  unfold addToMetadata
  split
  · rfl
  · rename_i m hm
    split_ifs
    · rfl
    · have hid : m.id = g := hk.metadata _ _ hm
      simp only [store_storage, storeGroupMetadata, get_treeInsert]
      rw [if_neg]
      rintro ⟨h, -⟩
      exact hne (h ▸ hid)

/-- An acceptance that finds nothing to merge does nothing. -/
theorem handleInviteAcceptedDm_none (hs : n.mls.slot g = none) :
    n.handleInviteAcceptedDm env g d = n := by
  obtain ⟨e, he⟩ := confirmAddMember_none hs
  simp [handleInviteAcceptedDm, he]

/-- An acceptance that merges: the record under the answerer's key goes, whatever was merged. -/
theorem handleInviteAcceptedDm_some (env : Env) (d : Did) (S : CommitSlot M) {k : M.Commit}
    (hs : n.mls.slot g = some k) :
    (n.handleInviteAcceptedDm env g d).mls = (n.mls.confirmAddMember g).2 ∧
    (n.handleInviteAcceptedDm env g d).storage.outboundInvites =
      (treeRemove env.faults "outbound_invites" (inviteKey g d) n.storage.outboundInvites).2 := by
  obtain ⟨x, hx, hk⟩ := slot_eq_some.1 hs
  obtain ⟨p', x', he, -, -⟩ := confirmAddMember_some S hx hk
  simp [handleInviteAcceptedDm, he, deleteOutboundInvite]

theorem handleInviteAcceptedDm_metadata (hk : n.storage.Keyed) (hne : g' ≠ g) :
    (n.handleInviteAcceptedDm env g d).storage.groupMetadata[g']? = n.storage.groupMetadata[g']? := by
  unfold handleInviteAcceptedDm
  split
  · rfl
  · refine (addToMetadata_other ?_ hne).trans ?_
    · simpa using hk
    · simp

theorem handleInviteDeclinedDm_mls :
    (n.handleInviteDeclinedDm env g d).mls = (n.mls.cancelAddMember g).2 := rfl

theorem handleInviteDeclinedDm_invites : (n.handleInviteDeclinedDm env g d).storage.outboundInvites =
    (treeRemove env.faults "outbound_invites" (inviteKey g d) n.storage.outboundInvites).2 := rfl

theorem handleInviteDeclinedDm_metadata :
    (n.handleInviteDeclinedDm env g d).storage.groupMetadata = n.storage.groupMetadata := rfl

theorem handleGroupInvitationDm_storage {hex : String} :
    (n.handleGroupInvitationDm W env hex d).2.storage.outboundInvites = n.storage.outboundInvites ∧
    (n.handleGroupInvitationDm W env hex d).2.storage.groupMetadata = n.storage.groupMetadata := by
  unfold handleGroupInvitationDm
  split
  · exact ⟨rfl, rfl⟩
  · split
    · exact ⟨rfl, rfl⟩
    · split
      · exact ⟨rfl, rfl⟩
      · rename_i storage heq
        rw [← (Prod.mk.inj heq).2]
        exact ⟨rfl, rfl⟩

theorem handleGroupInvitationDm_mls {hex : String} :
    (n.handleGroupInvitationDm W env hex d).2.mls = n.mls := by
  unfold handleGroupInvitationDm
  split
  · rfl
  · split
    · rfl
    · split <;> rfl

end Node
end Variance
