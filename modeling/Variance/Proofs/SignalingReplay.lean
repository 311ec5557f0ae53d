import Variance.Spec.CallTable

/-! A signaling message is accepted once for each time its call is purged and once more, whatever else goes on. -/

namespace Variance
namespace MediaHandler
variable {E : Ed25519} {h h' : MediaHandler} {m : SignalingMessage} {key nonce : Bytes} {callId : String}

/-- Everything but the nonce is in order. -/
def Verifies (E : Ed25519) (m : SignalingMessage) (key : Bytes) : Prop :=
  m.nonce.length = 16 ∧ m.signature.length = 64 ∧ E.verify key m.payload m.signature = true

/-- What verification may do: take a message with a new nonce, which is then recorded, or leave the nonces alone. -/
theorem verifyMessage_cases (E : Ed25519) (h : MediaHandler) (m : SignalingMessage) (key : Bytes) :
    (Verifies E m key ∧ m.nonce ∉ h.nonces m.callId ∧ (h.verifyMessage E m key).1 = .ok () ∧
        (h.verifyMessage E m key).2 =
          { h with seenNonces := h.seenNonces.insert m.callId (m.nonce :: h.nonces m.callId) }) ∨
      (¬ (Verifies E m key ∧ m.nonce ∉ h.nonces m.callId) ∧ (h.verifyMessage E m key).1 ≠ .ok () ∧
        (h.verifyMessage E m key).2 = h) := by
  unfold verifyMessage Verifies nonces
  dsimp only
  split_ifs with hnonce hsignature hverify hseen
  · exact Or.inr ⟨fun hv => hnonce hv.1.1, by simp, rfl⟩
  · exact Or.inr ⟨fun hv => hsignature hv.1.2.1, by simp, rfl⟩
  · exact Or.inr ⟨fun hv => by simp [hv.1.2.2] at hverify, by simp, rfl⟩
  · exact Or.inr ⟨fun hv => hv.2 hseen, by simp, rfl⟩
  · exact Or.inl ⟨⟨not_not.1 hnonce, not_not.1 hsignature, by simpa using hverify⟩, hseen, rfl, rfl⟩

theorem accepts_iff :
    (h.verifyMessage E m key).1 = .ok () ↔ Verifies E m key ∧ m.nonce ∉ h.nonces m.callId := by
  rcases verifyMessage_cases E h m key with ⟨hv, hnew, hok, -⟩ | ⟨hnot, herr, -⟩
  · exact ⟨fun _ => ⟨hv, hnew⟩, fun _ => hok⟩
  · exact ⟨fun hok => absurd hok herr, fun hv => absurd hv hnot⟩

theorem rejected_keeps (hr : (h.verifyMessage E m key).1 ≠ .ok ()) : (h.verifyMessage E m key).2 = h := by
  rcases verifyMessage_cases E h m key with ⟨-, -, hok, -⟩ | ⟨-, -, hkeep⟩
  · exact absurd hok hr
  · exact hkeep

theorem nonces_accepted (ha : (h.verifyMessage E m key).1 = .ok ()) :
    (h.verifyMessage E m key).2.nonces callId =
      if m.callId = callId then m.nonce :: h.nonces callId else h.nonces callId := by
  rcases verifyMessage_cases E h m key with ⟨-, -, -, heq⟩ | ⟨-, herr, -⟩
  · rw [heq]
    unfold nonces
    split_ifs with hc
    · simp [hc]
    · simp [hc]
  · exact absurd ha herr

theorem nonces_purge (h : MediaHandler) (purged callId : String) :
    (h.purgeCallNonces purged).nonces callId = if purged = callId then [] else h.nonces callId := by
  unfold purgeCallNonces nonces
  split_ifs with hc
  · simp [hc]
  · simp [hc]

/-! Once for each purge, and once more -/

/-- A nonce that is recorded must wait for a purge. -/
theorem countP_accepted_le (es : List NonceStep) (h : MediaHandler) :
    (accepted E h es).countP (Bears callId nonce) ≤
      es.count (.purgeCallNonces callId) + if nonce ∈ h.nonces callId then 0 else 1 := by
  induction es generalizing h with
  | nil => simp [accepted]
  | cons e es ih =>
    cases e with
    | purgeCallNonces purged =>
      have hrest := ih (h.purgeCallNonces purged)
      rw [nonces_purge] at hrest
      unfold accepted
      rw [List.count_cons]
      by_cases hc : purged = callId
      · subst hc
        simp only [if_true, List.not_mem_nil, if_false, beq_self_eq_true] at hrest ⊢
        omega
      · simp only [if_neg hc] at hrest
        omega
    | verifyMessage m key =>
      have hrest := ih (h.verifyMessage E m key).2
      have hcount : (NonceStep.verifyMessage m key :: es).count (.purgeCallNonces callId) =
          es.count (.purgeCallNonces callId) := List.count_cons_of_ne (by simp)
      unfold accepted
      rw [hcount]
      by_cases ha : (h.verifyMessage E m key).1 = .ok ()
      · rw [nonces_accepted ha] at hrest
        have hnew : m.nonce ∉ h.nonces m.callId := (accepts_iff.1 ha).2
        rw [if_pos ha, List.countP_cons]
        by_cases hb : m.callId = callId ∧ m.nonce = nonce
        · -- the one acceptance until the next purge
          obtain ⟨rfl, rfl⟩ := hb
          simp only [if_true, List.mem_cons, true_or, Bears, and_self, decide_true, if_neg hnew] at hrest ⊢
          omega
        · have hsame : nonce ∈ (if m.callId = callId then m.nonce :: h.nonces callId else h.nonces callId) ↔
              nonce ∈ h.nonces callId := by
            split_ifs with hc
            · have hne : nonce ≠ m.nonce := fun hn => hb ⟨hc, hn.symm⟩
              simp [hne]
            · exact Iff.rfl
          simp only [hsame] at hrest
          simpa [Bears, hb] using hrest
      · rw [if_neg ha]
        rw [rejected_keeps ha] at hrest ⊢
        exact hrest

/-! Calls apart -/

/-- Only the call's own nonces decide about its messages. -/
theorem accepted_congr (es : List NonceStep) (hes : ∀ e ∈ es, e.callId = callId)
    (hsame : h.nonces callId = h'.nonces callId) :
    accepted E h es = accepted E h' es := by
  induction es generalizing h h' with
  | nil => rfl
  | cons e es ih =>
    have hrest : ∀ e ∈ es, e.callId = callId := fun e he => hes e (List.mem_cons_of_mem _ he)
    have hcall : e.callId = callId := hes e List.mem_cons_self
    cases e with
    | purgeCallNonces purged =>
      unfold accepted
      exact ih hrest (by rw [nonces_purge, nonces_purge, hsame])
    | verifyMessage m key =>
      obtain rfl : m.callId = callId := hcall
      have hiff : (h.verifyMessage E m key).1 = .ok () ↔ (h'.verifyMessage E m key).1 = .ok () := by
        rw [accepts_iff, accepts_iff, hsame]
      unfold accepted
      by_cases ha : (h.verifyMessage E m key).1 = .ok ()
      · have hboth : (h.verifyMessage E m key).2.nonces m.callId = (h'.verifyMessage E m key).2.nonces m.callId :=
          calc _ = m.nonce :: h.nonces m.callId := (nonces_accepted ha).trans (if_pos rfl)
            _ = m.nonce :: h'.nonces m.callId := by rw [hsame]
            _ = _ := ((nonces_accepted (hiff.1 ha)).trans (if_pos rfl)).symm
        rw [if_pos ha, if_pos (hiff.1 ha), ih hrest hboth]
      · have ha' : (h'.verifyMessage E m key).1 ≠ .ok () := fun hok => ha (hiff.2 hok)
        rw [if_neg ha, if_neg ha']
        exact ih hrest (by rw [rejected_keeps ha, rejected_keeps ha', hsame])

/-- A step of one call leaves the nonces of the others alone. -/
theorem nonces_nonceStep_of_ne {e : NonceStep} (hne : e.callId ≠ callId) :
    (h.nonceStep E e).nonces callId = h.nonces callId := by
  cases e with
  | purgeCallNonces purged => exact (nonces_purge h purged callId).trans (if_neg hne)
  | verifyMessage m key =>
    show (h.verifyMessage E m key).2.nonces callId = h.nonces callId
    by_cases ha : (h.verifyMessage E m key).1 = .ok ()
    · exact (nonces_accepted ha).trans (if_neg hne)
    · rw [rejected_keeps ha]

theorem accepted_cons (h : MediaHandler) (e : NonceStep) (es : List NonceStep) :
    accepted E h (e :: es) = accepted E h [e] ++ accepted E (h.nonceStep E e) es := by
  cases e with
  | purgeCallNonces purged => rfl
  | verifyMessage m key =>
    simp only [accepted, nonceStep]
    split_ifs
    · rfl
    · rfl

theorem accepted_callId {e : NonceStep} (hm : m ∈ accepted E h [e]) : m.callId = e.callId := by
  cases e with
  | purgeCallNonces purged => cases hm
  | verifyMessage m' key =>
    simp only [accepted] at hm
    split_ifs at hm
    · rw [List.mem_singleton.1 hm]
      rfl
    · cases hm

/-- What is accepted of a call is what is accepted when there is only that call. -/
theorem filter_accepted (es : List NonceStep) (h : MediaHandler) (callId : String) :
    (accepted E h es).filter (fun m => m.callId = callId) = accepted E h (es.filter fun e => e.callId = callId) := by
  induction es generalizing h with
  | nil => rfl
  | cons e es ih =>
    rw [accepted_cons, List.filter_append, ih (h.nonceStep E e)]
    by_cases hc : e.callId = callId
    · have hall : (accepted E h [e]).filter (fun m => m.callId = callId) = accepted E h [e] := by
        rw [List.filter_eq_self]
        intro m hm
        simp [accepted_callId hm, hc]
      rw [hall, List.filter_cons_of_pos (by simpa using hc), ← accepted_cons]
    · have hnone : (accepted E h [e]).filter (fun m => m.callId = callId) = [] := by
        rw [List.filter_eq_nil_iff]
        intro m hm
        simp [accepted_callId hm, hc]
      rw [hnone, List.nil_append, List.filter_cons_of_neg (by simpa using hc)]
      refine accepted_congr _ (fun e he => ?_) (nonces_nonceStep_of_ne hc)
      simpa using (List.mem_filter.1 he).2

end MediaHandler

namespace SignalingReplay
open MediaHandler

/-- For every handler and every sequence of verifications and purges: a call's messages of one nonce are accepted no more
often than once after each purge of the call and once before; the other calls' steps make no difference to what is
accepted of a call; and a message that is rejected leaves the nonces alone. -/
theorem accepted_once_a_purge (E : Ed25519) (h : MediaHandler) (es : List NonceStep) :
    (∀ (callId : String) (nonce : Bytes),
        (accepted E h es).countP (Bears callId nonce) ≤ es.count (.purgeCallNonces callId) + 1) ∧
      (∀ callId : String, (accepted E h es).filter (fun m => m.callId = callId) =
        accepted E h (es.filter fun e => e.callId = callId)) ∧
      ∀ (m : SignalingMessage) (key : Bytes), (h.verifyMessage E m key).1 ≠ .ok () → (h.verifyMessage E m key).2 = h := by
  refine ⟨fun callId nonce => ?_, filter_accepted es h, fun m key hr => rejected_keeps hr⟩
  have hle : (accepted E h es).countP (Bears callId nonce) ≤
      es.count (.purgeCallNonces callId) + if nonce ∈ h.nonces callId then 0 else 1 := countP_accepted_le es h
  split_ifs at hle
  · omega
  · exact hle

def offer : SignalingMessage :=
  { callId := "call", senderDid := "did:b", recipientDid := "did:a", message := some (.offer "sdp" 1)
    timestamp := 0, signature := List.replicate 64 1, nonce := List.replicate 16 0 }

/-- `did:b` calls `did:a`, who hangs up. -/
def hungUp : List CallDesk.Step :=
  [.verifyMessage offer (List.replicate 32 1), .table (.registerIncomingCall "call" "did:b" 1), .table (.register 0 0),
    .table (.endCall "call" 5), .table (.finish 0 true), .purge 0, .verifyMessage offer (List.replicate 32 1)]

/-- The offer of a call that was ended is accepted again. -/
theorem offer_accepted_twice : ¬ ∀ (E : Ed25519) (h : MediaHandler) (d : CallDesk) (es : List CallDesk.Step)
    (m : SignalingMessage), (accepted E h (d.trace es)).count m ≤ 1 := by
  intro h
  have htwice := h .repeated ⟨"did:a", fun _ => [], ∅⟩ ⟨⟨"did:a", ∅, 0, ∅, [], [], []⟩, [], []⟩ hungUp offer
  have hcount : (accepted .repeated ⟨"did:a", fun _ => [], ∅⟩
      (CallDesk.trace ⟨⟨"did:a", ∅, 0, ∅, [], [], []⟩, [], []⟩ hungUp)).count offer = 2 := by decide +kernel
  omega

end SignalingReplay
end Variance
