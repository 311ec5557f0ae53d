import Variance.Proofs.Freshness
import Variance.Proofs.MailboxOrder
import Variance.Spec.Signing
import Variance.Spec.Freshness

/-! A relay takes a signature over a mailbox and a time for the whole request, and for as long as the time is near. -/

namespace Variance

open Overflow (Build)
open Freshness

/-! A page -/

namespace RelayStore
variable {s : RelayStore} {request : OfflineMessageRequest} {page : OfflineMessageResponse}

theorem fetchMessages_ok (h0 : request.limit ≠ 0) : ∃ page, s.fetchMessages request = .ok page := by
  unfold fetchMessages
  rw [if_neg h0]
  exact ⟨_, rfl⟩

theorem limit_of_fetchMessages (h : s.fetchMessages request = .ok page) : request.limit ≠ 0 := by
  intro h0
  unfold fetchMessages at h
  rw [if_pos h0] at h
  cases h

/-- A page is a beginning of what lies after the cursor, and not an empty one. -/
theorem messages_of_fetchMessages (h : s.fetchMessages request = .ok page) : ∃ n, 0 < n ∧
    page.messages = (s.laterThan request.mailboxToken request.sinceTimestamp).take n := by
  have h0 := limit_of_fetchMessages h
  have hpos : 0 < request.limit.toNat := Nat.pos_of_ne_zero fun hz => h0 (UInt32.toNat_inj.1 hz)
  unfold fetchMessages at h
  rw [if_neg h0] at h
  obtain rfl := Except.ok.inj h
  dsimp only
  rw [fetchOffline_eq]
  split_ifs
  · exact ⟨_, lt_min hpos (lt_of_lt_of_le one_pos (le_max_left _ _)), List.take_take⟩
  · exact ⟨_, lt_of_lt_of_le one_pos (le_max_left _ _), rfl⟩

theorem messages_eq_nil_iff (h : s.fetchMessages request = .ok page) :
    page.messages = [] ↔ s.laterThan request.mailboxToken request.sinceTimestamp = [] := by
  obtain ⟨n, hn, hm⟩ := messages_of_fetchMessages h
  rw [hm, List.take_eq_nil_iff]
  exact or_iff_right hn.ne'

theorem token_of_messages (h : s.fetchMessages request = .ok page) {e : OfflineMessageEnvelope}
    (he : e ∈ page.messages) : e.mailboxToken = request.mailboxToken := by
  obtain ⟨n, -, hm⟩ := messages_of_fetchMessages h
  rw [hm] at he
  obtain ⟨x, hx, rfl⟩ := List.mem_map.1 (List.mem_of_mem_take he)
  exact (mem_mailbox.1 (List.mem_of_mem_filter hx)).2

end RelayStore

/-! A request -/

namespace MailboxAccess
variable {A : RelayAuth} {b : Build} {w : MailboxAccess} {now : Int64} {allowed : Bool} {peer : PeerId}
  {r a : MessagingProto.OfflineMessageRequest} {answer : OfflineAnswer} {s server : OfflineServer}

theorem verifyAuth_ok_iff : r.verifyAuth A b now = some (.ok ()) ↔
    r.checkKey A = .ok () ∧ checkDrift b now r.authTimestamp = some (.ok ()) ∧ r.checkSignature A = .ok () := by
  unfold MessagingProto.OfflineMessageRequest.verifyAuth MessagingProto.OfflineMessageRequest.checkTimestamp
  cases r.checkKey A with
  | error e => simp
  | ok u =>
    cases checkDrift b now r.authTimestamp with
    | none => simp
    | some verdict => cases verdict <;> simp [Except.mapError, Except.bind]

/-- What is served of a request. -/
structure Served (A : RelayAuth) (b : Build) (now : Int64) (s : OfflineServer) (allowed : Bool)
    (r : MessagingProto.OfflineMessageRequest) : Prop where
  allowed : allowed = true
  key : r.checkKey A = .ok ()
  fresh : checkDrift b now r.authTimestamp = some (.ok ())
  signed : r.checkSignature A = .ok ()
  limit : r.limit ≠ 0
  counts : ¬ (b = .debug ∧ r.limit + 1 = 0)

theorem handle_served (peer : PeerId) (h : Served A b now s allowed r) : ∃ page,
    s.store.fetchMessages ⟨r.mailboxToken, r.sinceTimestamp.map Int64.toInt, r.limit⟩ = .ok page ∧
      s.handleOfflineRequest A b now allowed peer r =
        some (⟨page, none, none⟩, { s with events := s.events ++ [⟨peer, r.mailboxToken, r.limit⟩] }) := by
  obtain ⟨page, hpage⟩ : ∃ page,
      s.store.fetchMessages ⟨r.mailboxToken, r.sinceTimestamp.map Int64.toInt, r.limit⟩ = .ok page :=
    RelayStore.fetchMessages_ok h.limit
  refine ⟨page, hpage, ?_⟩
  unfold OfflineServer.handleOfflineRequest
  rw [if_neg (by simp [h.allowed]), verifyAuth_ok_iff.2 ⟨h.key, h.fresh, h.signed⟩]
  dsimp only
  rw [if_neg h.counts, OfflineServer.handleRequest]
  dsimp only
  rw [hpage]

/-- Whatever else is answered has an error and no envelope. -/
theorem handle_refused (h : ¬ Served A b now s allowed r)
    (ha : s.handleOfflineRequest A b now allowed peer r = some (answer, server)) :
    answer.errorCode ≠ none ∧ answer.messages = [] := by
  unfold OfflineServer.handleOfflineRequest at ha
  by_cases hallowed : allowed = false
  · rw [if_pos hallowed] at ha
    cases ha
    exact ⟨by simp [OfflineAnswer.refusal], rfl⟩
  rw [if_neg hallowed] at ha
  cases hv : r.verifyAuth A b now with
  | none =>
    rw [hv] at ha
    cases ha
  | some verdict =>
    rw [hv] at ha
    cases verdict with
    | error reason =>
      cases ha
      exact ⟨by simp [OfflineAnswer.refusal], rfl⟩
    | ok u =>
      obtain ⟨hkey, hfresh, hsigned⟩ := verifyAuth_ok_iff.1 hv
      dsimp only at ha
      by_cases hcounts : b = .debug ∧ r.limit + 1 = 0
      · rw [if_pos hcounts] at ha
        cases ha
      rw [if_neg hcounts] at ha
      have hlimit : r.limit = 0 := by
        by_contra h0
        exact h ⟨by simpa using hallowed, hkey, hfresh, hsigned, h0, hcounts⟩
      cases ha
      unfold OfflineServer.handleRequest RelayStore.fetchMessages
      dsimp only
      rw [if_pos hlimit]
      exact ⟨by simp [OfflineAnswer.refusal], rfl⟩

/-- A mailbox has one key. -/
theorem key_iff (hA : Function.Injective A.sha256) {key key' : Bytes} :
    A.mailboxToken key = A.mailboxToken key' ↔ key = key' := by
  refine ⟨fun h => ?_, fun h => h ▸ rfl⟩
  exact List.append_cancel_right (hA h)

/-! What has been signed -/

theorem payload_inj (h : a.payload = r.payload) :
    a.mailboxToken = r.mailboxToken ∧ a.authTimestamp = r.authTimestamp := by
  unfold MessagingProto.OfflineMessageRequest.payload at h
  obtain ⟨htoken, htime⟩ := List.append_inj' h (by rw [length_leBytes, length_leBytes])
  have hi64 (t : Int64) : IsI64 t.toInt := ⟨t.le_toInt, t.toInt_lt⟩
  exact ⟨htoken, Int64.toInt_inj.1 (leBytes_i64 (hi64 _) (hi64 _) htime)⟩

/-- A copy of what a holder has signed is made with the holder's key and for its mailbox. -/
theorem checkKey_copy (h : a.signedPart = r.signedPart) (ha : a.checkKey A = .ok ()) : r.checkKey A = .ok () := by
  obtain ⟨hkey, hpayload⟩ := Prod.mk.inj h
  rw [checkKey_iff, ← hkey, ← (payload_inj hpayload).1, ← checkKey_iff]
  exact ha

/-- The requests that the holders have signed are in order. -/
def Signed (A : RelayAuth) (w : MailboxAccess) : Prop := ∀ a ∈ w.authorised, a.checkKey A = .ok ()

theorem authorised_request : (w.step A b (.request now allowed peer r)).authorised = w.authorised := by
  unfold step
  dsimp only
  split <;> rfl

theorem Signed.step (h : w.Signed A) {e : AccessEvent} (hu : w.Unforged A e) : (w.step A b e).Signed A := by
  cases e with
  | store store => exact h
  | authorise r =>
    intro a ha
    rcases List.mem_append.1 ha with hold | hnew
    · exact h a hold
    · rw [List.mem_singleton.1 hnew]
      exact hu.1
  | request now allowed peer r =>
    unfold Signed
    rw [authorised_request]
    exact h

theorem guards_iff (hA : Function.Injective A.sha256) (hw : w.Signed A) {e : AccessEvent} (hu : w.Unforged A e) :
    w.Guards A b e ↔ w.Careful A b e := by
  cases e with
  | store store => exact Iff.rfl
  | authorise r => exact Iff.rfl
  | request now allowed peer r =>
    by_cases hs : Served A b now w.server allowed r
    · obtain ⟨page, hpage, hanswer⟩ := handle_served peer hs
      have hcopy := hu hs.signed
      have howned : ∀ e ∈ page.messages, ∀ key, A.mailboxToken key = e.mailboxToken ↔ key = r.verifyingKey := by
        intro e he key
        have htoken := RelayStore.token_of_messages hpage he
        rw [htoken, (checkKey_iff.1 hs.key).2.2]
        exact key_iff hA
      have hempty := RelayStore.messages_eq_nil_iff hpage
      constructor
      · intro h _ _ _ _ _ _
        rw [← hempty]
        exact (h _ _ hanswer).2 rfl
      · intro h answer' server' hanswer'
        cases hanswer.symm.trans hanswer'
        refine ⟨howned, fun _ => ?_⟩
        have hspent := h hs.allowed hs.fresh hs.signed hs.limit hs.counts hcopy
        rw [← hempty] at hspent
        exact hspent
    · refine iff_of_true (fun answer server hanswer => ?_) fun h1 h2 h3 h4 h5 hcopy => ?_
      · obtain ⟨herror, hnone⟩ := handle_refused hs hanswer
        rw [hnone]
        exact ⟨fun e he => (List.not_mem_nil he).elim, fun h => (herror h).elim⟩
      · obtain ⟨a, ha, hpart⟩ := hcopy
        exact (hs ⟨h1, checkKey_copy hpart (hw a ha), h2, h3, h4, h5⟩).elim

/-- The relay answers what was authorised, and each once, just when nothing else that bears a signature of a holder
comes within the window and finds something. -/
theorem access_guarded_iff (hA : Function.Injective A.sha256) (hi : (accessSys A b).init w) {es : List AccessEvent}
    (hu : StepSystem.Guarded (accessSys A b) (Unforged A) w es) :
    StepSystem.Guarded (accessSys A b) (Guards A b) w es ↔ StepSystem.Guarded (accessSys A b) (Careful A b) w es := by
  have hstart : w.Signed A := by
    intro a ha
    rw [hi.1] at ha
    exact (List.not_mem_nil ha).elim
  exact StepSystem.guarded_iff_under (I := Signed A) (fun w e h hu => guards_iff hA h hu) (fun w e h hu _ => h.step hu)
    hstart hu

end MailboxAccess

namespace MailboxReplay
open MailboxAccess

/-- A relay for which a key signs with its first byte. -/
def openAuth : RelayAuth := { plainAuth with sha256 := id }

def key : Bytes := List.replicate 32 7

def waiting : OfflineMessageEnvelope :=
  ⟨openAuth.mailboxToken key, some (.direct ⟨"m", "did:a", "did:b", [], 0, [], 1, 0, none, none⟩), 1, 2⟩

def fetch : MessagingProto.OfflineMessageRequest where
  mailboxToken := openAuth.mailboxToken key
  sinceTimestamp := none
  limit := 10
  verifyingKey := key
  authSignature := List.replicate 64 7
  authTimestamp := 1700000000

def blank : MailboxAccess := ⟨⟨.empty, []⟩, [], []⟩

/-- The holder's request is answered. -/
def answered : List AccessEvent :=
  [.store (RelayStore.empty.storeOffline waiting).2, .authorise fetch, .request 1700000000 true "peer-b" fetch]

/-- Ten seconds later another sends it, with a limit of its own. -/
def copied (limit : UInt32) : List AccessEvent := answered ++ [.request 1700000010 true "peer-m" { fetch with limit }]

theorem copied_unforged (limit : UInt32) :
    StepSystem.Guarded (accessSys openAuth .release) (Unforged openAuth) blank (copied limit) := by
  have hsigned (w : MailboxAccess) (hw : w.authorised = [fetch]) (now : Int64) (peer : PeerId) (limit : UInt32) :
      w.Unforged openAuth (.request now true peer { fetch with limit }) :=
    fun _ => ⟨fetch, by rw [hw]; exact List.mem_singleton_self _, rfl⟩
  refine ⟨trivial, ⟨by decide +kernel, by decide +kernel⟩, hsigned _ rfl _ _ 10, hsigned _ ?_ _ _ limit, trivial⟩
  exact authorised_request

/-- Neither a second copy nor one with another limit has been authorised, and both get what waits. -/
theorem copied_served (limit : UInt32) (h0 : limit ≠ 0) :
    ¬ StepSystem.Guarded (accessSys openAuth .release) (Guards openAuth .release) blank (copied limit) := by
  intro h
  set w := answered.foldl (accessSys openAuth .release).step blank
  have hauth : w.authorised = [fetch] := authorised_request
  have hhonoured : w.honoured.map (·.content) = [fetch.content] := by decide +kernel
  have hwaits : w.server.store.laterThan fetch.mailboxToken none ≠ [] := by decide +kernel
  have hsigned : w.Signed openAuth := by
    rw [Signed, hauth]
    decide +kernel
  have hunforged : w.Unforged openAuth (.request 1700000010 true "peer-m" { fetch with limit }) :=
    fun _ => ⟨fetch, by rw [hauth]; exact List.mem_singleton_self _, rfl⟩
  have hcareful := (guards_iff (b := .release) Function.injective_id hsigned hunforged).1 h.2.2.2.1
  have hfresh : checkDrift .release 1700000010 fetch.authTimestamp = some (.ok ()) := by decide +kernel
  have hsignature : fetch.checkSignature openAuth = .ok () := by decide +kernel
  rcases hcareful rfl hfresh hsignature h0 (fun hd => by cases hd.1)
    ⟨fetch, by rw [hauth]; exact List.mem_singleton_self _, rfl⟩ with hspent | ⟨hnone, -⟩
  · unfold Unspent at hspent
    rw [hhonoured, hauth] at hspent
    exact lt_irrefl _ hspent
  · exact hwaits hnone

/-- The same request again, and the same with another limit. -/
theorem replayed_and_altered : Function.Injective openAuth.sha256 ∧
    (∀ limit ∈ [10, 500], StepSystem.Guarded (accessSys openAuth .release) (Unforged openAuth) blank (copied limit) ∧
      ¬ StepSystem.Guarded (accessSys openAuth .release) (Guards openAuth .release) blank (copied limit)) ∧
    copied 10 = answered ++ [.request 1700000010 true "peer-m" fetch] := by
  refine ⟨Function.injective_id, fun limit hl => ⟨copied_unforged limit, copied_served limit ?_⟩, rfl⟩
  rcases List.mem_pair.1 hl with rfl | rfl
  · decide
  · decide

theorem answered_guarded :
    StepSystem.Guarded (accessSys openAuth .release) (Guards openAuth .release) blank answered := by
  refine (access_guarded_iff (A := openAuth) Function.injective_id ⟨rfl, rfl⟩ (copied_unforged 10).left).2
    ⟨trivial, trivial, fun _ _ _ _ _ _ => Or.inl ?_, trivial⟩
  unfold Unspent
  decide +kernel

end MailboxReplay
end Variance
