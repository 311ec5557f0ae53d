import Variance.Sanity.Frees
import Variance.Spec.InviteWorld

/-! The messages of the invitation flow: what each side sends, what an invitee keeps, and what an
invite leaves behind. -/

namespace Variance
namespace Node
variable {M : OpenMls} {n n₁ n₂ : Node M} {W : Wire} {env : Env} {g : String} {d : Did}
  {Q : Did → MessageContent → Prop}

open LocalMessageStorage MlsGroupHandler

/-- Effects were only added, and every direct message among them meets `Q`. -/
def Sends (Q : Did → MessageContent → Prop) (n n' : Node M) : Prop :=
  ∃ es, n'.effects = n.effects ++ es ∧ ∀ r c, Effect.sendDm r c ∈ es → Q r c

theorem Sends.refl (Q : Did → MessageContent → Prop) (n : Node M) : Sends Q n n := ⟨[], by simp⟩

theorem Sends.trans (h₁ : Sends Q n n₁) (h₂ : Sends Q n₁ n₂) : Sends Q n n₂ := by
  obtain ⟨es, he, hes⟩ := h₁
  obtain ⟨fs, hf, hfs⟩ := h₂
  refine ⟨es ++ fs, by rw [hf, he, List.append_assoc], fun r c hrc => ?_⟩
  rcases List.mem_append.1 hrc with h | h
  · exact hes r c h
  · exact hfs r c h

theorem Sends.of_eq {n' : Node M} (he : n'.effects = n.effects) : Sends Q n n' := ⟨[], by simp [he]⟩

theorem Sends.store {op : LocalMessageStorage → Except MsgError Unit × LocalMessageStorage}
    (h : Sends Q n n₁) : Sends Q n (n₁.store op) := h.trans (.of_eq rfl)

theorem Sends.emit {e : Effect} (h : Sends Q n n₁) (he : ∀ r c, e = .sendDm r c → Q r c) :
    Sends Q n (n₁.emit e) := by
  refine h.trans ⟨[e], rfl, fun r c hrc => he r c ?_⟩
  exact (List.mem_singleton.1 hrc).symm

theorem mem_sentDms (h : Sends Q n n₁) {p : Did × MessageContent} (hp : p ∈ sentDms n n₁) : Q p.1 p.2 := by
  obtain ⟨es, he, hes⟩ := h
  rw [sentDms, he, List.drop_left] at hp
  obtain ⟨e, hmem, heq⟩ := List.mem_filterMap.1 hp
  split at heq
  · rw [← Option.some.inj heq]
    exact hes _ _ hmem
  · cases heq

/-! The invitee -/

theorem kind_acceptedContent : (acceptedContent g).metadata["type"]? = some "mls_invite_accepted" :=
  Std.ExtTreeMap.getElem?_ofList_of_mem (k := "type") (by simp)
    (by simp) (by simp)

theorem kind_declinedContent : (declinedContent g).metadata["type"]? = some "mls_invite_declined" :=
  Std.ExtTreeMap.getElem?_ofList_of_mem (k := "type") (by simp)
    (by simp) (by simp)

theorem hex_invitationContent {i : GroupInvitation} :
    (invitationContent W i).metadata["invitation"]? = some (W.hexEncode (W.encodeInvitation i)) :=
  Std.ExtTreeMap.getElem?_ofList_of_mem (k := "invitation") (by simp) (by simp) (by simp)

theorem kind_invitationContent {i : GroupInvitation} :
    (invitationContent W i).metadata["type"]? = some "mls_group_invitation" :=
  Std.ExtTreeMap.getElem?_ofList_of_mem (k := "type") (by simp) (by simp) (by simp)

/-- An answer is no invitation. -/
def IsAnswer (c : MessageContent) : Prop := c.metadata["type"]? ≠ some "mls_group_invitation"

theorem sends_refreshKeyPackage {b : Bool} (h : Sends Q n n₁) : Sends Q n (n₁.refreshKeyPackage env b) := by
  unfold refreshKeyPackage
  split
  · exact h.trans (.of_eq rfl)
  · rename_i mls _
    have hmls : Sends Q n { n₁ with mls := mls } := h.trans (.of_eq rfl)
    dsimp only
    split
    · exact hmls
    · split_ifs
      · exact (hmls.emit (by simp)).emit (by simp)
      · exact hmls.emit (by simp)

theorem isAnswer_acceptedContent : IsAnswer (acceptedContent g) := by
  simp [IsAnswer, kind_acceptedContent]

theorem isAnswer_declinedContent : IsAnswer (declinedContent g) := by
  simp [IsAnswer, kind_declinedContent]

/-- An acceptance goes to the inviter that the invitation names. -/
theorem sends_acceptInvitation : Sends (fun r c => IsAnswer c ∧
    ∃ i, n.storage.fetchPendingInvitation g = some i ∧ r = i.inviterDid) n (n.acceptInvitation env g).2 := by
  unfold acceptInvitation
  split
  · exact .refl _ _
  rename_i i hi
  split
  · exact .refl _ _
  split
  · exact .of_eq rfl
  unfold finishAccept enterGroup answerInvitation
  dsimp only
  refine Sends.store ?_
  split_ifs
  · refine Sends.emit (sends_refreshKeyPackage (Sends.emit (Sends.store (Sends.emit (.of_eq rfl) ?_)) ?_)) ?_
    · simp
    · simp
    · rintro r c ⟨⟩
      exact ⟨isAnswer_acceptedContent, i, hi, rfl⟩
  · refine sends_refreshKeyPackage (Sends.emit (Sends.store (Sends.emit (.of_eq rfl) ?_)) ?_) <;> simp

theorem sends_declineInvitation : Sends (fun _ c => IsAnswer c) n (n.declineInvitation env g).2 := by
  unfold declineInvitation
  split
  · exact .refl _ _
  dsimp only
  refine Sends.store ?_
  split_ifs
  · refine (Sends.refl _ _).emit ?_
    rintro r c ⟨⟩
    exact isAnswer_declinedContent
  · exact .refl _ _

/-- What an invitee's steps leave of the pending invitations: no more than there was. -/
theorem pending_acceptInvitation {k : String} {i : GroupInvitation}
    (h : (n.acceptInvitation env g).2.storage.pendingInvitations[k]? = some i) :
    n.storage.pendingInvitations[k]? = some i := by
  unfold acceptInvitation at h
  split at h
  · exact h
  split at h
  · exact h
  split at h
  · exact h
  unfold finishAccept enterGroup answerInvitation at h
  dsimp only at h
  have := get_treeRemove_some h
  split_ifs at this
  · simpa [storeGroupMetadata] using this
  · simpa [storeGroupMetadata] using this

theorem pending_declineInvitation {k : String} {i : GroupInvitation}
    (h : (n.declineInvitation env g).2.storage.pendingInvitations[k]? = some i) :
    n.storage.pendingInvitations[k]? = some i := by
  unfold declineInvitation at h
  split at h
  · exact h
  dsimp only at h
  have := get_treeRemove_some h
  split_ifs at this
  · exact this
  · exact this

theorem deleteDirectById_pending {s : LocalMessageStorage} {f : Faults} {a b : Did} {ts : ℤ} {id : String} :
    (s.deleteDirectById f a b ts id).2.pendingInvitations = s.pendingInvitations := by
  unfold deleteDirectById
  dsimp only
  split <;> rfl

theorem pending_handleInviteAcceptedDm : (n.handleInviteAcceptedDm env g d).storage.pendingInvitations =
    n.storage.pendingInvitations := by
  unfold handleInviteAcceptedDm
  split
  · rfl
  · simp only [emit_storage, store_storage, deleteOutboundInvite]
    unfold addToMetadata
    split
    · simp
    · split_ifs
      · simp
      · simp [storeGroupMetadata]

/-- A pending invitation is an old one, or came out of the message. -/
theorem pending_handleDirectContent {mid : String} {ts : ℤ} {content : MessageContent} {k : String}
    {i : GroupInvitation}
    (h : (n.handleDirectContent W env d mid ts content).storage.pendingInvitations[k]? = some i) :
    n.storage.pendingInvitations[k]? = some i ∨
    content.metadata["type"]? = some "mls_group_invitation" ∧ ∃ hex,
      content.metadata["invitation"]? = some hex ∧ (W.hexDecode hex).bind W.decodeInvitation = some i := by
  unfold handleDirectContent at h
  dsimp only at h
  split at h
  · rename_i ht
    rw [store_storage, deleteDirectById_pending] at h
    split at h
    · rename_i hex hhex
      unfold handleGroupInvitationDm at h
      split at h
      · exact Or.inl h
      rename_i bytes hbytes
      split at h
      · exact Or.inl h
      rename_i inv hinv
      split at h
      · exact Or.inl h
      · rename_i storage heq
        have hstored : (n.storage.storePendingInvitation env.faults inv).2.pendingInvitations[k]? = some i := by
          rw [heq]
          exact h
        rcases get_treeInsert_some hstored with ⟨-, rfl⟩ | hold
        · exact Or.inr ⟨ht, hex, hhex, by rw [hbytes]; exact hinv⟩
        · exact Or.inl hold
    · exact Or.inl h
  · rw [store_storage, deleteDirectById_pending] at h
    split at h
    · rw [pending_handleInviteAcceptedDm] at h
      exact Or.inl h
    · exact Or.inl h
  · rw [store_storage, deleteDirectById_pending] at h
    split at h
    · exact Or.inl h
    · exact Or.inl h
  · exact Or.inl h

/-- The invitee after it has stored an invitation from `d`, or failed to. -/
def keepInvitation (n : Node M) (env : Env) (i : GroupInvitation) (d : Did) : Node M :=
  match n.storage.storePendingInvitation env.faults i with
  | (.error _, _) => n
  | (.ok (), storage) => Node.emit { n with storage }
    (.ws (.groupInvitationReceived i.groupId i.groupName d))

/-- An invitation that decodes is kept, and its message forgotten. -/
theorem handleDirectContent_invitation {mid : String} {ts : ℤ} {i : GroupInvitation}
    (hW : (W.hexDecode (W.hexEncode (W.encodeInvitation i))).bind W.decodeInvitation = some i) :
    n.handleDirectContent W env d mid ts (invitationContent W i) =
      (n.keepInvitation env i d).store fun s => s.deleteDirectById env.faults d n.localDid ts mid := by
  obtain ⟨b, hb, hi⟩ := Option.bind_eq_some_iff.1 hW
  unfold handleDirectContent
  rw [kind_invitationContent]
  rcases hst : n.storage.storePendingInvitation env.faults i with ⟨⟨e⟩ | ⟨⟩, st⟩ <;>
    simp [hex_invitationContent, handleGroupInvitationDm, keepInvitation, hb, hi, hst]

/-! The inviter -/

/-- The invitation's Welcome belongs to the commit. -/
def WelcomeOf (S : CommitSlot M) (i : GroupInvitation) (c : M.Commit) : Prop :=
  ∃ m, M.deserializeMessage i.mlsWelcome = .ok m ∧ S.commitOf m = some c

/-- What an invite that issued `x` leaves behind. -/
structure Issued (S : CommitSlot M) (W : Wire) (n n' : Node M) (x : Issue M) : Prop where
  free : n.mls.slot x.groupId = none
  filled : n'.mls.slot x.groupId = some x.commit
  other : ∀ g, g ≠ x.groupId → n'.mls.slot g = n.mls.slot g
  records : ∀ (k : String) (e : OutboundInvite), n'.storage.outboundInvites[k]? = some e →
    n.storage.outboundInvites[k]? = some e ∨
      k = inviteKey x.groupId x.inviteeDid ∧ e.createdAtMs = x.issuedAt
  invitation : ∀ i, x.invitation = some i → i.inviteeDid = x.inviteeDid ∧ WelcomeOf S i x.commit
  sent : ∀ p ∈ sentDms n n', ∃ i, x.invitation = some i ∧ p = (x.inviteeDid, invitationContent W i)

theorem sendInvitation_none {id : String} {r : AddMemberResult M}
    (h : invitationFor n env id d r = none) : (n.sendInvitation W env id d r).2 = n := by
  unfold invitationFor at h
  unfold sendInvitation
  split
  · rfl
  rename_i hw
  split
  · rfl
  rename_i hc
  simp [hw, hc] at h

theorem sendInvitation_some {id : String} {r : AddMemberResult M} {i : GroupInvitation}
    (h : invitationFor n env id d r = some i) :
    i.inviteeDid = d ∧ M.serializeMessage r.welcome = .ok i.mlsWelcome ∧
    (n.sendInvitation W env id d r).2.mls = n.mls ∧
    (n.sendInvitation W env id d r).2.storage =
      (n.storage.storeOutboundInvite env.faults id d i env.now).2 ∧
    Sends (fun x c => x = d ∧ c = invitationContent W i) n (n.sendInvitation W env id d r).2 := by
  unfold invitationFor at h
  split at h
  swap
  · cases h
  rename_i hw hc
  obtain rfl := Option.some.inj h
  refine ⟨rfl, hw, ?_⟩
  unfold sendInvitation
  rw [hw, hc]
  dsimp only
  split_ifs
  · refine ⟨rfl, rfl, ((Sends.refl _ _).store).emit ?_⟩
    rintro x c ⟨⟩
    exact ⟨rfl, rfl⟩
  · exact ⟨rfl, rfl, (Sends.refl _ _).store⟩

/-- An invite either issues an add or leaves slots, records and network alone. -/
theorem invite_cases (n : Node M) (W : Wire) (env : Env) (net : InviteNet) (id invitee : String)
    (S : CommitSlot M) (hM : ∀ m b, M.serializeMessage m = .ok b → M.deserializeMessage b = .ok m) :
    (issueOf n env net id invitee = none ∧
      (∀ g, (n.mlsInviteToGroup W env net id invitee).2.mls.slot g = n.mls.slot g) ∧
      (n.mlsInviteToGroup W env net id invitee).2.storage = n.storage ∧
      sentDms n (n.mlsInviteToGroup W env net id invitee).2 = []) ∨
    ∃ x, issueOf n env net id invitee = some x ∧
      Issued S W n (n.mlsInviteToGroup W env net id invitee).2 x := by
  cases hkp : n.inviteKeyPackage net id invitee with
  | error e => exact Or.inl (by simp [mlsInviteToGroup, issueOf, hkp, sentDms])
  | ok p =>
  obtain ⟨d, kp⟩ := p
  rcases hadd : n.mls.addMemberDeferred id kp env.rng with ⟨⟨e⟩ | ⟨r⟩, mls⟩
  · refine Or.inl ⟨by simp [issueOf, hkp, hadd], fun g => ?_, ?_, ?_⟩
    · simp only [mlsInviteToGroup, hkp, hadd]
      exact addMemberDeferred_error S hadd
    · simp [mlsInviteToGroup, hkp, hadd]
    · simp [mlsInviteToGroup, hkp, hadd, sentDms]
  obtain ⟨hfree, c, hc, -, hwc⟩ := addMemberDeferred_ok S hadd
  have hother (g : String) (hg : g ≠ id) : mls.slot g = n.mls.slot g := by
    have hgroup := congrArg (fun x => x.2.groups[g]?) hadd
    simp only [addMemberDeferred_other hg] at hgroup
    rw [slot, slot, hgroup]
  set n' := emit { n with mls := mls } .schedulePersist with hn'
  have hrun : (n.mlsInviteToGroup W env net id invitee).2 = (n'.sendInvitation W env id d r).2 := by
    simp [mlsInviteToGroup, hkp, hadd, hn']
  have hissue : issueOf n env net id invitee =
      some ⟨id, d, c, invitationFor n' env id d r, env.now⟩ := by
    simp only [issueOf, hkp, hadd, hc, Option.map_some]
    rfl
  refine Or.inr ⟨_, hissue, ?_⟩
  rw [hrun]
  have hemit {Q : Did → MessageContent → Prop} : Sends Q n n' := .emit (.of_eq rfl) (by simp)
  cases hi : invitationFor n' env id d r with
  | none =>
    rw [sendInvitation_none hi]
    refine ⟨hfree, hc, hother, fun k e he => Or.inl he, by simp, fun p hp => ?_⟩
    exact (mem_sentDms (Q := fun _ _ => False) hemit hp).elim
  | some i =>
    obtain ⟨hd, hw, hmls, hst, hsends⟩ := sendInvitation_some (W := W) hi
    refine ⟨hfree, by rw [hmls]; exact hc, fun g hg => by rw [hmls]; exact hother g hg, ?_, ?_, ?_⟩
    · intro k e he
      rw [hst] at he
      rcases get_treeInsert_some he with ⟨rfl, rfl⟩ | hold
      · exact Or.inr ⟨rfl, rfl⟩
      · exact Or.inl hold
    · rintro j hj
      obtain rfl := Option.some.inj hj
      exact ⟨hd, r.welcome, hM _ _ hw, hwc⟩
    · intro p hp
      obtain ⟨h₁, h₂⟩ := mem_sentDms (hemit.trans hsends) hp
      exact ⟨i, rfl, Prod.ext h₁ h₂⟩

end Node
end Variance
