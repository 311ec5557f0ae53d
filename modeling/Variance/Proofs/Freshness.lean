import Variance.Spec.Freshness

/-! The time windows of announcements and mailbox requests: exact as long as the distance fits the machine's integers,
and what happens at the one timestamp where it does not and nothing stops. -/

namespace Variance
namespace Freshness

open Overflow (Build)
open IdentityProto MessagingProto

variable {b : Build} {now timestamp : Int64}

theorem checkDrift_exact (h : |now.toInt - timestamp.toInt| < 2 ^ 63) :
    (checkDrift b now timestamp).map Except.isOk = some (decide (InWindow now timestamp)) := by
  have hfits : Overflow.Fits |now.toInt - timestamp.toInt| :=
    ⟨le_trans (by decide) (abs_nonneg _), h⟩
  have hlt : (300 < Int64.ofInt |now.toInt - timestamp.toInt|) ↔ ¬ InWindow now timestamp := by
    rw [Int64.lt_iff_toInt_lt, Overflow.toInt_ofInt hfits, InWindow, not_le]
    rfl
  rw [checkDrift, Overflow.distance_exact h, Option.map_some, Option.map_some]
  by_cases hw : InWindow now timestamp
  · rw [if_neg (fun h' => hlt.mp h' hw), decide_eq_true hw]
    rfl
  · rw [if_pos (hlt.mpr hw), decide_eq_false hw]
    rfl

theorem checkDrift_debug (h : 2 ^ 63 ≤ |now.toInt - timestamp.toInt|) : checkDrift .debug now timestamp = none := by
  rw [checkDrift, Overflow.distance_debug h, Option.map_none]

@[simp] theorem isOk_mapError {α ε ε' : Type} (f : ε → ε') (x : Except ε α) : (x.mapError f).isOk = x.isOk := by
  cases x <;> rfl

theorem isOk_iff {ε : Type} {x : Except ε Unit} : x.isOk = true ↔ x = .ok () := by
  cases x <;> simp [Except.isOk, Except.toBool]

theorem map_isOk_checkTimestamp (r : MessagingProto.OfflineMessageRequest) :
    (r.checkTimestamp b now).map Except.isOk = (checkDrift b now r.authTimestamp).map Except.isOk := by
  rw [OfflineMessageRequest.checkTimestamp, Option.map_map]
  exact congrArg (fun f => Option.map f _) (funext fun x => isOk_mapError _ x)

theorem windowExact_iff : WindowExact now timestamp ↔ |now.toInt - timestamp.toInt| < 2 ^ 63 := by
  constructor
  · intro h
    by_contra hfar
    have := (h .debug).1 ⟨"", "", 0, [], timestamp⟩ rfl
    rw [UsernameChanged.checkTimestamp, checkDrift_debug (not_lt.mp hfar), Option.map_none] at this
    exact absurd this (by simp)
  · intro h b
    refine ⟨fun r hr => ?_, fun r hr => ?_⟩
    · rw [UsernameChanged.checkTimestamp, hr]
      exact checkDrift_exact h
    · rw [map_isOk_checkTimestamp, hr]
      exact checkDrift_exact h

/-- Short of that distance the announcement is looked at as with numbers. -/
theorem verify_wide (E : Ed25519) (n : NameNode) (r : IdentityProto.UsernameChanged)
    (h : |now.toInt - r.timestamp.toInt| < 2 ^ 63) :
    r.verify E n b now = some (n.verifyRename E r.wide now.toInt) := by
  have hwide : r.signature = [] ∨ r.timestamp = 0 ↔ r.wide.signature = [] ∨ r.wide.timestamp = 0 :=
    or_congr Iff.rfl Int64.toInt_inj.symm
  have hfresh : r.checkTimestamp b now = some (decide (InWindow now r.timestamp)) :=
    (windowExact_iff.mpr h b).1 r rfl
  have hfar : (300 < (now.toInt - r.wide.timestamp).natAbs) ↔ ¬ InWindow now r.timestamp := by
    rw [InWindow, Int.abs_eq_natAbs]
    show 300 < (now.toInt - r.timestamp.toInt).natAbs ↔ _
    omega
  unfold UsernameChanged.verify NameNode.verifyRename
  by_cases hmissing : r.signature = [] ∨ r.timestamp = 0
  · rw [if_pos hmissing, if_pos (hwide.mp hmissing)]
  · rw [if_neg hmissing, if_neg fun h' => hmissing (hwide.mpr h'), hfresh, Option.map_some]
    by_cases hw : InWindow now r.timestamp
    · rw [if_neg fun h' => hfar.mp h' hw, decide_eq_true hw, Bool.true_and]
      rfl
    · rw [if_pos (hfar.mpr hw), decide_eq_false hw, Bool.false_and]

/-- A clock that runs and is not near its end: what a release build takes from outside the window is the one timestamp
whose distance is the least integer with its sign lost. -/
theorem far_accepted_iff (hnow : 0 ≤ now.toInt) (hend : now.toInt + 300 < 2 ^ 63) :
    (checkDrift .release now timestamp).map Except.isOk = some true ∧ ¬ InWindow now timestamp ↔
      timestamp.toInt = now.toInt - 2 ^ 63 := by
  have hlow := timestamp.le_toInt
  have hhigh := timestamp.toInt_lt
  by_cases hnear : |now.toInt - timestamp.toInt| < 2 ^ 63
  · rw [checkDrift_exact hnear]
    constructor
    · intro h
      exact absurd (of_decide_eq_true (Option.some.inj h.1)) h.2
    · intro h
      have := abs_lt.mp hnear
      omega
  · have hfar : 2 ^ 63 ≤ now.toInt - timestamp.toInt := by
      rw [abs_lt] at hnear
      omega
    have hmod : |(now.toInt - timestamp.toInt).bmod (2 ^ 64)| = 2 ^ 64 - (now.toInt - timestamp.toInt) := by
      have hdown : (now.toInt - timestamp.toInt).bmod (2 ^ 64) = now.toInt - timestamp.toInt - 2 ^ 64 := by
        rw [Int.bmod_def]
        split_ifs <;> omega
      rw [hdown, abs_of_nonpos (by omega)]
      omega
    have hout : ¬ InWindow now timestamp := fun h => by
      have := le_abs_self (now.toInt - timestamp.toInt)
      unfold InWindow at h
      omega
    rw [checkDrift, Overflow.distance_release, hmod, Option.map_some, Option.map_some, and_iff_left hout]
    by_cases hedge : timestamp.toInt = now.toInt - 2 ^ 63
    · rw [show (2 : ℤ) ^ 64 - (now.toInt - timestamp.toInt) = 2 ^ 63 by omega]
      exact ⟨fun _ => hedge, fun _ => by decide⟩
    · have hfits : Overflow.Fits (2 ^ 64 - (now.toInt - timestamp.toInt)) := by
        constructor <;> omega
      have hlt : 300 < Int64.ofInt (2 ^ 64 - (now.toInt - timestamp.toInt)) := by
        rw [Int64.lt_iff_toInt_lt, Overflow.toInt_ofInt hfits]
        show (300 : ℤ) < _
        omega
      rw [if_pos hlt]
      exact ⟨fun h => absurd (Option.some.inj h) Bool.false_ne_true, fun h => absurd h hedge⟩

theorem checkKey_iff {A : RelayAuth} {r : MessagingProto.OfflineMessageRequest} :
    r.checkKey A = .ok () ↔ r.verifyingKey.length = 32 ∧ A.fromBytes r.verifyingKey = .ok () ∧
      r.mailboxToken = A.mailboxToken r.verifyingKey := by
  unfold OfflineMessageRequest.checkKey
  by_cases hlen : r.verifyingKey.length = 32
  · rw [if_neg (not_not.mpr hlen)]
    cases A.fromBytes r.verifyingKey with
    | error e => simp
    | ok u => by_cases htoken : r.mailboxToken = A.mailboxToken r.verifyingKey <;> simp [htoken, hlen]
  · simp [hlen]

theorem checkSignature_iff {A : RelayAuth} {r : MessagingProto.OfflineMessageRequest} :
    r.checkSignature A = .ok () ↔ r.authSignature.length = 64 ∧
      A.verifyStrict r.verifyingKey r.payload r.authSignature = .ok () := by
  unfold OfflineMessageRequest.checkSignature
  split_ifs with hlen
  · simp [hlen]
  · rw [← isOk_iff, isOk_mapError, isOk_iff]
    simp [not_not.mp hlen]

/-- Short of that distance the relay takes the requests that meet all it asks, in either build. -/
theorem verifyAuth_iff {A : RelayAuth} {r : MessagingProto.OfflineMessageRequest}
    (h : |now.toInt - r.authTimestamp.toInt| < 2 ^ 63) :
    r.verifyAuth A b now = some (.ok ()) ↔ AuthenticFetch A now r := by
  have hfresh := (windowExact_iff.mpr h b).2 r rfl
  obtain ⟨x, hx, hw⟩ := Option.map_eq_some_iff.mp hfresh
  unfold OfflineMessageRequest.verifyAuth
  constructor
  · intro ho
    cases hk : r.checkKey A with
    | error e => simp [hk] at ho
    | ok u =>
      obtain ⟨hlen, hvalid, howner⟩ := checkKey_iff.mp hk
      rw [hk, hx] at ho
      cases x with
      | error e => exact absurd ho (by simp [Except.bind])
      | ok u =>
        obtain ⟨hsig, hsigned⟩ := checkSignature_iff.mp (Option.some.inj ho)
        exact ⟨hlen, hvalid, howner, of_decide_eq_true hw.symm, hsig, hsigned⟩
  · intro ha
    rw [checkKey_iff.mpr ⟨ha.length_key, ha.validKey, ha.owner⟩, hx]
    rw [decide_eq_true ha.fresh, isOk_iff] at hw
    rw [hw]
    exact congrArg some (checkSignature_iff.mpr ⟨ha.length_signature, ha.signed⟩)

theorem closedTo (A : RelayAuth) (b : Build) (now : Int64) (r : MessagingProto.OfflineMessageRequest) :
    ClosedTo A b now r := by
  intro hr s allowed peer
  unfold OfflineServer.handleOfflineRequest
  by_cases hallowed : allowed = false
  · simp only [if_pos hallowed]
    exact ⟨fun _ => rfl, fun _ _ h => (Prod.mk.inj (Option.some.inj h)).2.symm⟩
  · simp only [if_neg hallowed]
    cases hv : r.verifyAuth A b now with
    | none => exact ⟨fun _ => rfl, fun _ _ h => nomatch h⟩
    | some verdict =>
      cases verdict with
      | error reason => exact ⟨fun _ => rfl, fun _ _ h => (Prod.mk.inj (Option.some.inj h)).2.symm⟩
      | ok u => exact absurd hv hr

/-- The windows are exact where the distance fits, and there alone; unauthenticated requests never get at a mailbox. -/
theorem windows_exact_iff (A : RelayAuth) (now timestamp : Int64) :
    (WindowExact now timestamp ∧ ∀ b r, ClosedTo A b now r) ↔ |now.toInt - timestamp.toInt| < 2 ^ 63 :=
  ⟨fun h => windowExact_iff.mp h.1, fun h => ⟨windowExact_iff.mpr h, fun b r => closedTo A b now r⟩⟩

/-- A relay for which a key is its own mailbox and signs with its first byte. -/
def plainAuth : RelayAuth where
  fromBytes _ := .ok ()
  verifyStrict key _ signature :=
    if signature = List.replicate 64 (key.headD 0) then .ok () else .error "signature error"
  sha256 := List.take 32

/-- Signed in good order, for a time 292 billion years back. -/
def ancient : MessagingProto.OfflineMessageRequest where
  mailboxToken := List.replicate 32 7
  sinceTimestamp := none
  limit := 10
  verifyingKey := List.replicate 32 7
  authSignature := List.replicate 64 7
  authTimestamp := -9223372035154775808

theorem ancient_accepted :
    ¬ (∀ timestamp, WindowExact 1700000000 timestamp) ∧ ¬ InWindow 1700000000 ancient.authTimestamp ∧
      ancient.verifyAuth plainAuth .release 1700000000 = some (.ok ()) ∧
      ancient.verifyAuth plainAuth .debug 1700000000 = none := by
  refine ⟨fun h => ?_, by decide, by decide +kernel, by decide +kernel⟩
  exact absurd (windowExact_iff.mp (h ancient.authTimestamp)) (by decide)

end Freshness
end Variance
