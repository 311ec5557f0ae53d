import Variance.Sanity.IdealGroup

/-! Whose word changes a role or freezes a group. The API asks who the caller is; the listener applies
what a payload says, whoever sent it. -/

namespace Variance
namespace Node
variable {M : OpenMls} {W : Wire} {n : Node M} {env : Env} {g : String} {s : Did} {content : MessageContent}

open LocalMessageStorage

/-- `s` before the API, with the stores of `n`. -/
def actingAs (n : Node M) (s : Did) : Node M := { n with localDid := s }

def roleLabels : List String := ["admin", "moderator", "member"]

def frozenWithout (group : Group) (adminDid : Option Did) : Group :=
  { group with
    frozen := true
    members := match adminDid with
      | some did => group.members.filter fun m => m.did ≠ did
      | none => group.members }

/-- The API, called by `s` on the same metadata, makes that change of role. -/
def RoleAuthorized (W : Wire) (env : Env) (n n' : Node M) (s : Did) (g : String) (content : MessageContent) :
    Prop :=
  ∃ targetDid newRole, content.metadata["target_did"]? = some targetDid ∧
    content.metadata["new_role"]? = some newRole ∧ newRole ∈ roleLabels ∧
    ((n.actingAs s).mlsChangeMemberRole W env g targetDid newRole).1 = .ok () ∧
    n'.storage.groupMetadata =
      ((n.actingAs s).mlsChangeMemberRole W env g targetDid newRole).2.storage.groupMetadata

/-- The notice names its sender, who is the sole admin. -/
def AbandonAuthorized (n n' : Node M) (s : Did) (g : String) (content : MessageContent) : Prop :=
  content.metadata["admin_did"]? = some s ∧ (n.actingAs s).isSoleAdmin g = true ∧
  ∃ group, n.storage.fetchGroupMetadata g = some group ∧
    n'.storage.groupMetadata = n.storage.groupMetadata.insert group.id (frozenWithout group (some s))

/-- The metadata is as it was, or what `s` was entitled to make of it. -/
def MetadataAuthorized (W : Wire) (env : Env) (n n' : Node M) (s : Did) (g : String)
    (content : MessageContent) : Prop :=
  n'.storage.groupMetadata = n.storage.groupMetadata ∨
  content.metadata["type"]? = some "role_change" ∧ RoleAuthorized W env n n' s g content ∨
  content.metadata["type"]? = some "admin_abandoned" ∧ AbandonAuthorized n n' s g content

/-- The condition: the payload has nothing to change, or the sender passes the checks the API makes of its
caller. -/
def SenderEntitled (n : Node M) (env : Env) (s : Did) (g : String) (content : MessageContent) : Prop :=
  match content.metadata["type"]? with
  | some "admin_abandoned" => ∀ group, n.storage.fetchGroupMetadata g = some group →
      env.faults "group_metadata" group.id = false →
      n.storage.groupMetadata[group.id]? = some (frozenWithout group content.metadata["admin_did"]?) ∨
      content.metadata["admin_did"]? = some s ∧ (n.actingAs s).isSoleAdmin g = true
  | some "role_change" => ∀ targetDid newRole group, content.metadata["target_did"]? = some targetDid →
      content.metadata["new_role"]? = some newRole → n.storage.fetchGroupMetadata g = some group →
      env.faults "group_metadata" g = false →
      setRole targetDid (roleOfLabel newRole) group.members = group.members ∨
      newRole ∈ roleLabels ∧ (n.actingAs s).checkRoleChange g targetDid newRole = .ok ()
  | _ => True

theorem setRole_of_notMem {d : Did} {r : GroupRole} {ms : List GroupMember} (h : ¬ ms.any fun m => m.did = d) :
    setRole d r ms = ms := by
  induction ms with
  | nil => rfl
  | cons m ms ih =>
    simp only [List.any_cons, decide_eq_true_eq, Bool.or_eq_true, not_or] at h
    rw [setRole, if_neg h.1, ih h.2]

/-- A role written: the tree is as it was, or the group has the new members. -/
theorem updateMemberRole_metadata (st : LocalMessageStorage) (f : Faults) (g : String) (d : Did) (r : GroupRole) :
    (st.updateMemberRole f g d r).2.groupMetadata =
      match st.groupMetadata[g]? with
      | none => st.groupMetadata
      | some group => if f "group_metadata" g = true then st.groupMetadata
          else st.groupMetadata.insert g { group with members := setRole d r group.members } := by
  unfold updateMemberRole
  cases hg : st.groupMetadata[g]? with
  | none => rfl
  | some group =>
    dsimp only
    by_cases hl : group.members.any fun m => m.did = d
    · rw [if_pos hl]
      unfold treeInsert
      split_ifs <;> rfl
    · rw [if_neg hl, setRole_of_notMem hl]
      split_ifs
      · rfl
      · exact (insert_self_iff.2 hg).symm

/-- The API made the change: its checks passed and the store took it. -/
theorem mlsChangeMemberRole_ok {d : Did} {role : String} (hc : n.checkRoleChange g d role = .ok ())
    {group : Group} (hg : n.storage.fetchGroupMetadata g = some group)
    (hl : (group.members.any fun m => m.did = d) = true) (hf : env.faults "group_metadata" g = false) :
    (n.mlsChangeMemberRole W env g d role).1 = .ok () ∧
    (n.mlsChangeMemberRole W env g d role).2.storage.groupMetadata =
      (n.storage.updateMemberRole env.faults g d (roleOfLabel role)).2.groupMetadata := by
  have hu : (n.storage.updateMemberRole env.faults g d (roleOfLabel role)).1 = .ok true := by
    unfold fetchGroupMetadata at hg
    simp [updateMemberRole, hg, hl, treeInsert_ok hf, Except.map]
  rcases hst : n.storage.updateMemberRole env.faults g d (roleOfLabel role) with ⟨r, st⟩
  rw [hst] at hu
  dsimp only at hu
  subst hu
  unfold mlsChangeMemberRole
  rw [hc]
  dsimp only
  rw [hst]
  exact ⟨rfl, by rw [sendGroupContent_storage]⟩

theorem checkRoleChange_of_ok {d : Did} {role : String}
    (h : (n.mlsChangeMemberRole W env g d role).1 = .ok ()) : n.checkRoleChange g d role = .ok () := by
  unfold mlsChangeMemberRole at h
  cases hc : n.checkRoleChange g d role with
  | error e => simp [hc] at h
  | ok u => rfl

theorem freezeGroup_metadata (st : LocalMessageStorage) (a : Option Did) (h : n.storage = st) :
    (n.freezeGroup env g a).storage.groupMetadata =
      match st.groupMetadata[g]? with
      | none => st.groupMetadata
      | some group => if env.faults "group_metadata" group.id = true then st.groupMetadata
          else st.groupMetadata.insert group.id (frozenWithout group a) := by
  subst h
  unfold freezeGroup
  change (match n.storage.groupMetadata[g]? with | none => n | some group => _ : Node M).storage.groupMetadata = _
  cases n.storage.groupMetadata[g]? with
  | none => rfl
  | some group =>
    show (treeInsert env.faults "group_metadata" group.id (frozenWithout group a) n.storage.groupMetadata).2 = _
    unfold treeInsert
    dsimp only
    split_ifs <;> rfl

theorem authorized_abandoned {n' : Node M} (ht : content.metadata["type"]? = some "admin_abandoned")
    (hn' : n'.storage.groupMetadata = match n.storage.groupMetadata[g]? with
      | none => n.storage.groupMetadata
      | some group => if env.faults "group_metadata" group.id = true then n.storage.groupMetadata
          else n.storage.groupMetadata.insert group.id (frozenWithout group content.metadata["admin_did"]?)) :
    MetadataAuthorized W env n n' s g content ↔ SenderEntitled n env s g content := by
  unfold SenderEntitled MetadataAuthorized fetchGroupMetadata
  rw [ht, hn']
  cases hg : n.storage.groupMetadata[g]? with
  | none => simp
  | some group =>
    dsimp only
    split_ifs with hf
    · simp [hf]
    rw [insert_self_iff]
    constructor
    · rintro (hsame | ⟨habs, -⟩ | ⟨-, ha, hsole, -⟩) group' heq -
      · cases heq
        exact Or.inl hsame
      · simp at habs
      · exact Or.inr ⟨ha, hsole⟩
    · intro h
      rcases h group rfl (by simpa using hf) with hsame | ⟨ha, hsole⟩
      · exact Or.inl hsame
      · exact Or.inr (Or.inr ⟨rfl, ha, hsole, group, hg, by rw [hn', hg]; simp [hf, ha]⟩)

theorem authorized_roleChange {n' : Node M} (ht : content.metadata["type"]? = some "role_change")
    (hn' : n'.storage.groupMetadata = match content.metadata["target_did"]?, content.metadata["new_role"]? with
      | some d, some role => (n.storage.updateMemberRole env.faults g d (roleOfLabel role)).2.groupMetadata
      | _, _ => n.storage.groupMetadata) :
    MetadataAuthorized W env n n' s g content ↔ SenderEntitled n env s g content := by
  have hnone (h : n'.storage.groupMetadata = n.storage.groupMetadata) :
      MetadataAuthorized W env n n' s g content := Or.inl h
  unfold SenderEntitled
  rw [ht]
  cases htd : content.metadata["target_did"]? with
  | none => exact iff_of_true (hnone (by rw [hn', htd])) (by simp)
  | some d =>
  cases hnr : content.metadata["new_role"]? with
  | none => exact iff_of_true (hnone (by rw [hn', htd, hnr])) (by simp)
  | some role =>
  rw [htd, hnr] at hn'
  dsimp only at hn'
  have hupd := hn'
  rw [updateMemberRole_metadata] at hupd
  cases hg : n.storage.groupMetadata[g]? with
  | none => exact iff_of_true (hnone (by rw [hupd, hg])) (by simp [fetchGroupMetadata, hg])
  | some group =>
  rw [hg] at hupd
  dsimp only at hupd
  by_cases hf : env.faults "group_metadata" g = true
  · exact iff_of_true (hnone (by rw [hupd, if_pos hf])) (by simp [hf])
  rw [if_neg hf] at hupd
  have hff : env.faults "group_metadata" g = false := by simpa using hf
  constructor
  · rintro (hsame | ⟨-, d', role', htd', hnr', hlabel, hok, -⟩ | ⟨habs, -⟩) d'' role'' group' h₁ h₂ hg' -
    · cases h₁
      cases h₂
      rw [fetchGroupMetadata, hg] at hg'
      cases hg'
      rw [hupd, insert_self_iff, hg] at hsame
      exact Or.inl (congrArg Group.members (Option.some.inj hsame)).symm
    · cases htd.symm.trans htd'
      cases hnr.symm.trans hnr'
      cases h₁
      cases h₂
      exact Or.inr ⟨hlabel, checkRoleChange_of_ok hok⟩
    · simp [ht] at habs
  · intro h
    rcases h d role group rfl rfl hg hff with hset | ⟨hlabel, hcheck⟩
    · refine hnone ?_
      rw [hupd, hset, insert_self_iff, hg]
    · by_cases hl : group.members.any fun m => m.did = d
      · obtain ⟨hok, hmeta⟩ := mlsChangeMemberRole_ok (W := W) hcheck hg hl hff
        exact Or.inr (Or.inl ⟨ht, d, role, htd, hnr, hlabel, hok, by rw [hn', hmeta]; rfl⟩)
      · refine hnone ?_
        rw [hupd, setRole_of_notMem hl, insert_self_iff, hg]

theorem authorized_content {n' : Node M} {m : GroupMessage}
    (hn' : n'.storage.groupMetadata = (n.handleGroupMessageContent W env m content).storage.groupMetadata) :
    MetadataAuthorized W env n n' s m.groupId content ↔ SenderEntitled n env s m.groupId content := by
  by_cases ha : content.metadata["type"]? = some "admin_abandoned"
  · refine authorized_abandoned ha ?_
    rw [hn', handleGroupMessageContent_abandoned ha, emit_storage, freezeGroup_metadata n.storage _ rfl]
  by_cases hr : content.metadata["type"]? = some "role_change"
  · refine authorized_roleChange hr ?_
    rw [hn']
    simp only [handleGroupMessageContent, hr]
    cases content.metadata["target_did"]? with
    | none => rfl
    | some d => cases content.metadata["new_role"]? <;> rfl
  rw [handleGroupMessageContent_kept ha hr, storeGroupContent_metadata] at hn'
  refine iff_of_true (Or.inl hn') ?_
  unfold SenderEntitled
  split
  · rename_i h
    exact (ha h).elim
  · rename_i h
    exact (hr h).elim
  · trivial

theorem handleGroupMessageContent_metadata_congr {n₁ n₂ : Node M} {m : GroupMessage}
    (h : n₁.storage = n₂.storage) : (n₁.handleGroupMessageContent W env m content).storage.groupMetadata =
      (n₂.handleGroupMessageContent W env m content).storage.groupMetadata := by
  unfold handleGroupMessageContent
  split
  · rw [emit_storage, emit_storage, freezeGroup_metadata _ _ h, freezeGroup_metadata _ _ rfl]
  · split
    · show (n₁.storage.updateMemberRole ..).2.groupMetadata = (n₂.storage.updateMemberRole ..).2.groupMetadata
      rw [h]
    · rw [h]
  · rw [storeGroupContent_metadata, storeGroupContent_metadata, h]

/-- A payload that decrypts is applied to the metadata with its sender's authority exactly when that
sender passes the API's checks, or there is nothing to change; a synced one is never applied. -/
theorem remote_authority_iff (W : Wire) (env : Env) {m : GroupMessage} {d : DecryptedMessage}
    (h : n.Decrypts m.groupId m d) (hp : livePayload W d.plaintext = some (.message content)) :
    (MetadataAuthorized W env n (n.handleGroupMessage W env m) d.senderCredential m.groupId content ↔
      SenderEntitled n env d.senderCredential m.groupId content) ∧
    ∀ g xs, (n.handleSyncReceived W g xs).storage.groupMetadata = n.storage.groupMetadata := by
  refine ⟨authorized_content ?_, fun g xs => handleSyncReceived_metadata⟩
  obtain ⟨mls, hl⟩ := h.live W env
  rw [hl, emit_storage, handleGroupPlaintext_eq, hp]
  exact handleGroupMessageContent_metadata_congr rfl

end Node

/-! Role changes in a group of three -/

namespace RemoteAuthority
open IdealGroup

def promotion (targetDid newRole : String) : MessageContent :=
  .control [("type", "role_change"), ("target_did", targetDid), ("new_role", newRole)]

theorem promotion_type (t r : String) : (promotion t r).metadata["type"]? = some "role_change" :=
  Std.ExtTreeMap.getElem?_ofList_of_mem (k := "type") (by simp) (by simp) (by simp)

theorem promotion_target (t r : String) : (promotion t r).metadata["target_did"]? = some t :=
  Std.ExtTreeMap.getElem?_ofList_of_mem (k := "target_did") (by simp) (by simp) (by simp)

theorem promotion_role (t r : String) : (promotion t r).metadata["new_role"]? = some r :=
  Std.ExtTreeMap.getElem?_ofList_of_mem (k := "new_role") (by simp) (by simp) (by simp)

/-- A plain member makes itself an admin. -/
theorem member_promotes_itself : ¬ ∀ (n : Node idealMls) (env : Env) (m : GroupMessage) (d : DecryptedMessage)
    (content : MessageContent), StepSystem.Reachable (nodeSys idealMls idealWire) n →
    n.Decrypts m.groupId m d → livePayload idealWire d.plaintext = some (.message content) →
    n.MetadataAuthorized idealWire env (n.handleGroupMessage idealWire env m) d.senderCredential m.groupId
      content := by
  intro h
  have hmeta := h group (env 6) (sent "did:c" "did:c" (payload (promotion "did:c" "admin")))
    ⟨payload (promotion "did:c" "admin"), "did:c"⟩ _ reachable_group (decrypts (by decide +kernel))
    (livePayload_payload _)
  rcases hmeta with hsame | ⟨-, d, role, hd, hr, -, hok, -⟩ | ⟨habs, -⟩
  · have hbefore : group.storage.groupMetadata["g"]?.map (fun g => g.members.map (·.role)) =
        some [3, 3, 1] := by decide +kernel
    rw [← hsame] at hbefore
    revert hbefore
    decide +kernel
  · rw [promotion_target] at hd
    rw [promotion_role] at hr
    cases hd
    cases hr
    revert hok
    decide +kernel
  · simp [promotion_type] at habs

theorem admin_demotes : group.MetadataAuthorized idealWire (env 6)
    (group.handleGroupMessage idealWire (env 6)
      (sent "did:b" "did:b" (payload (promotion "did:c" "moderator")))) "did:b" "g"
    (promotion "did:c" "moderator") := by
  refine (Node.remote_authority_iff idealWire (env 6) (decrypts ?_) (livePayload_payload _)).1.2 ?_
  · decide +kernel
  · unfold Node.SenderEntitled
    rw [promotion_type]
    intro t r _ ht hr _ _
    rw [promotion_target] at ht
    rw [promotion_role] at hr
    cases ht
    cases hr
    exact Or.inr ⟨by decide, by decide +kernel⟩

end RemoteAuthority
end Variance
