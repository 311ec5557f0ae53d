import Variance.Sanity.Trees
import Variance.Spec.MessageIndex

/-! The mailboxes of a relay with its store requests under way (`variance-messaging/src/offline.rs`): a request looks at
the clock, counts its mailbox and stores, and at each await point others come between. The clock moves on its own, and
`cleanup_expired` runs when it is called. -/

namespace Variance

def OfflineMessageEnvelope.key (e : OfflineMessageEnvelope) : Option String :=
  e.message.map fun m => offlineKey e.mailboxToken m.timestamp m.id

namespace IndexedStore
variable {s : IndexedStore}

/-- Every envelope lies under the key that its own fields make. -/
def Filed (s : IndexedStore) : Prop :=
  ∀ (k : String) (e : OfflineMessageEnvelope), s.offline[k]? = some e →
    ∃ m, e.message = some m ∧ offlineKey e.mailboxToken m.timestamp m.id = k

theorem filed_storeOffline (h : s.Filed) (f : Faults) (envelope : OfflineMessageEnvelope) :
    (s.storeOffline f envelope).2.Filed := by
  unfold storeOffline
  cases hm : envelope.message with
  | none => exact h
  | some m =>
    dsimp only
    by_cases hf : f "offline_messages" (offlineKey envelope.mailboxToken m.timestamp m.id) = true
    · rw [treeInsert, if_pos hf]
      exact h
    rw [Bool.not_eq_true] at hf
    rw [treeInsert_ok hf]
    intro k e he
    dsimp only at he
    rw [get_insert] at he
    split_ifs at he with hk
    · obtain rfl := Option.some.inj he
      exact ⟨m, hm, hk⟩
    · exact h k e he

theorem deleteOffline_some {f : Faults} {messageId k : String} {e : OfflineMessageEnvelope}
    (h : (s.deleteOffline f messageId).2.offline[k]? = some e) : s.offline[k]? = some e := by
  unfold deleteOffline at h
  cases hentry : (s.storage.messageIndex[LocalMessageStorage.indexKey messageId]?).bind offlineIndexedKey with
  | some fullKey =>
    rw [hentry] at h
    dsimp only at h
    by_cases hf : f "offline_messages" fullKey = true
    · rw [treeRemove, if_pos hf] at h
      exact h
    rw [Bool.not_eq_true] at hf
    rw [treeRemove_ok hf] at h
    exact get_erase_some h
  | none =>
    rw [hentry] at h
    dsimp only at h
    split at h
    · exact h
    · exact get_treeRemove_some h

theorem cleanupExpired_some {f : Faults} {now : ℤ} {k : String} {e : OfflineMessageEnvelope}
    (h : (s.cleanupExpired f now).2.offline[k]? = some e) : s.offline[k]? = some e := get_treeRemoveAll_some h

end IndexedStore

/-- How far a call of `store_message` has come. -/
inductive StoreRequest
  | validated (envelope : OfflineMessageEnvelope)
  | counted (envelope : OfflineMessageEnvelope)
deriving DecidableEq

/-- The first part of `store_message`, up to the count. -/
def validateEnvelope (now : ℤ) (envelope : OfflineMessageEnvelope) : Except OfflineError Unit :=
  if envelope.message.isNone then .error (.invalidFormat "Envelope must contain a message")
  else if envelope.expiresAt < now then .error (.messageExpired "envelope")
  else .ok ()

/-- The second part, up to `store_offline`. -/
def RelayStore.checkQueue (s : RelayStore) (envelope : OfflineMessageEnvelope) : Except OfflineError Unit :=
  if maxQueuedPerMailbox ≤ s.countOfflineForMailbox envelope.mailboxToken then .error .relayStorageFull else .ok ()

/-- The relay handler over its store, the clock, and the requests under way; `storedWhen` is kept beside it and says
when what lies under a key was stored. -/
structure MailboxRelay where
  store : IndexedStore
  filed : store.Filed
  ttlMs : ℤ
  now : ℤ
  requests : List StoreRequest
  storedWhen : SledTree ℤ

/-- A fetch changes nothing, so it is no event. -/
inductive MailboxEvent
  | request (envelope : OfflineMessageEnvelope)
  | count (i : ℕ)
  | store (f : Faults) (i : ℕ)
  | delete (f : Faults) (messageId : String)
  | cleanup (f : Faults)
  | tick (now : ℤ)

namespace MailboxRelay

def start (ttlMs now : ℤ) : MailboxRelay :=
  ⟨.empty, fun k e h => by simp [IndexedStore.empty] at h, ttlMs, now, [], ∅⟩

def relay (s : MailboxRelay) : RelayStore := ⟨s.store.offline, s.filed⟩

/-- Stamped just when the envelope is written. -/
def stamp (s : MailboxRelay) (f : Faults) (envelope : OfflineMessageEnvelope) : SledTree ℤ :=
  match envelope.key with
  | none => s.storedWhen
  | some key => (treeInsert f "offline_messages" key s.now s.storedWhen).2

def countedAt (s : MailboxRelay) (i : ℕ) : Option OfflineMessageEnvelope :=
  match s.requests[i]? with
  | some (.counted envelope) => some envelope
  | _ => none

def step (s : MailboxRelay) : MailboxEvent → MailboxRelay
  | .request envelope =>
    match validateEnvelope s.now envelope with
    | .error _ => s
    | .ok () => { s with requests := s.requests ++ [.validated envelope] }
  | .count i =>
    match s.requests[i]? with
    | some (.validated envelope) =>
      match s.relay.checkQueue envelope with
      | .error _ => { s with requests := s.requests.eraseIdx i }
      | .ok () => { s with requests := s.requests.set i (.counted envelope) }
    | _ => s
  | .store f i =>
    match s.countedAt i with
    | none => s
    | some envelope =>
      { s with
        store := (s.store.storeOffline f envelope).2
        filed := IndexedStore.filed_storeOffline s.filed f envelope
        requests := s.requests.eraseIdx i
        storedWhen := s.stamp f envelope }
  | .delete f messageId =>
    { s with
      store := (s.store.deleteOffline f messageId).2
      filed := fun k e h => s.filed k e (IndexedStore.deleteOffline_some h) }
  | .cleanup f =>
    { s with
      store := (s.store.cleanupExpired f s.now).2
      filed := fun k e h => s.filed k e (IndexedStore.cleanupExpired_some h) }
  | .tick now => { s with now := now }

/-- What a step answers the store request that it ends. -/
def answer (s : MailboxRelay) : MailboxEvent → Option (Except OfflineError Unit)
  | .request envelope =>
    match validateEnvelope s.now envelope with
    | .error err => some (.error err)
    | .ok () => none
  | .count i =>
    match s.requests[i]? with
    | some (.validated envelope) =>
      match s.relay.checkQueue envelope with
      | .error err => some (.error err)
      | .ok () => none
    | _ => none
  | .store f i => (s.countedAt i).map fun envelope => (s.store.storeOffline f envelope).1
  | _ => none

/-- Some fetch answers with it. -/
def Retrievable (s : MailboxRelay) (e : OfflineMessageEnvelope) : Prop :=
  ∃ request response, s.relay.fetchMessages request = .ok response ∧ e ∈ response.messages

structure WithinLimits (s : MailboxRelay) : Prop where
  quota : ∀ mailboxToken, s.relay.countOfflineForMailbox mailboxToken ≤ RelayStore.maxQueuedPerMailbox
  unexpired : ∀ e, s.Retrievable e → s.now ≤ e.expiresAt
  withinTtl : ∀ e, s.Retrievable e → ∃ k t, e.key = some k ∧ s.storedWhen[k]? = some t ∧ s.now ≤ t + s.ttlMs

/-- The relay is within its limits after the step, and a store request that it refuses leaves the store as it was. -/
structure Sound (s : MailboxRelay) (ev : MailboxEvent) : Prop where
  limits : (s.step ev).WithinLimits
  refused : ∀ err, s.answer ev = some (.error err) → (s.step ev).store = s.store

/-- A request stores while its mailbox has room, or in the place of what has its key, an envelope that has not expired
and expires within the relay's own time to live, and the index is written with it; and the clock passes an expiry only
once the envelope is gone. -/
def Careful (s : MailboxRelay) : MailboxEvent → Prop
  | .store f i => ∀ envelope ∈ s.countedAt i, ∀ m ∈ envelope.message,
      f "offline_messages" (offlineKey envelope.mailboxToken m.timestamp m.id) = false →
        (s.relay.countOfflineForMailbox envelope.mailboxToken < RelayStore.maxQueuedPerMailbox ∨
          (s.store.offline[offlineKey envelope.mailboxToken m.timestamp m.id]?).isSome = true) ∧
        s.now ≤ envelope.expiresAt ∧ envelope.expiresAt ≤ s.now + s.ttlMs ∧
        f "message_index" (LocalMessageStorage.indexKey m.id) = false
  | .tick now => ∀ e ∈ s.store.offline.toList, now ≤ e.2.expiresAt
  | _ => True

instance (s : MailboxRelay) : ∀ ev, Decidable (s.Careful ev)
  | .request _ => inferInstanceAs (Decidable True)
  | .count _ => inferInstanceAs (Decidable True)
  | .store _ i => inferInstanceAs (Decidable (∀ envelope ∈ s.countedAt i, ∀ m ∈ envelope.message, _ → _ ∧ _))
  | .delete _ _ => inferInstanceAs (Decidable True)
  | .cleanup _ => inferInstanceAs (Decidable True)
  | .tick now => inferInstanceAs (Decidable (∀ e ∈ s.store.offline.toList, now ≤ e.2.expiresAt))

end MailboxRelay

def mailboxSys (ttlMs now : ℤ) : StepSystem.Sys MailboxRelay MailboxEvent where
  init s := s = .start ttlMs now
  step := MailboxRelay.step

end Variance
