import Variance.Lib.Run
import Variance.Spec.Relay

/-! The index by message id that the pending messages and the relay's offline messages share
(`storage/direct.rs`, `storage/offline.rs`): `idx:{message_id}` names the tree and the key. -/

namespace Variance

/-- By the reverse index; without an entry for a pending message there, whether any key ends in `:{message_id}`. -/
def LocalMessageStorage.isMessagePending (s : LocalMessageStorage) (messageId : String) : Bool :=
  (s.messageIndex[indexKey messageId]?).any (fun v => Text.HasPrefix "pending:" v) ||
    s.pendingMessages.toList.any fun e => Text.HasSuffix (":" ++ messageId) e.1

/-- The errors of the relay's functions. -/
inductive OfflineError
  | invalidFormat (message : String)
  | messageExpired (messageId : String)
  | messageNotFound (messageId : String)
  | relayStorageFull
  | storage
deriving DecidableEq

def OfflineMessageEnvelope.messageId (e : OfflineMessageEnvelope) : Option String := e.message.map OfflineMessage.id

/-- `storage` for the pending messages and the index, `offline` for the `offline_messages` tree. -/
structure IndexedStore where
  storage : LocalMessageStorage
  offline : SledTree OfflineMessageEnvelope

namespace IndexedStore

def empty : IndexedStore := ⟨.empty, ∅⟩

/-- The envelope, then its reverse index; the index is not written when the envelope was not. -/
def storeOffline (s : IndexedStore) (f : Faults) (envelope : OfflineMessageEnvelope) :
    Except OfflineError Unit × IndexedStore :=
  match envelope.message with
  | none => (.error (.invalidFormat "Offline envelope has no message"), s)
  | some m =>
    let key := offlineKey envelope.mailboxToken m.timestamp m.id
    match treeInsert f "offline_messages" key envelope s.offline with
    | (.error _, _) => (.error .storage, s)
    | (.ok (), t) =>
      let w := treeInsert f "message_index" (LocalMessageStorage.indexKey m.id) ("offline:" ++ key)
        s.storage.messageIndex
      (w.1.mapError fun _ => .storage, { storage := { s.storage with messageIndex := w.2 }, offline := t })

/-- `val_str.strip_prefix("offline:")`. -/
def offlineIndexedKey (v : String) : Option String :=
  if Text.HasPrefix "offline:" v then some (String.ofList (v.toList.drop 8)) else none

/-- By the reverse index; without one, the first envelope with that id. -/
def deleteOffline (s : IndexedStore) (f : Faults) (messageId : String) : Except OfflineError Unit × IndexedStore :=
  match (s.storage.messageIndex[LocalMessageStorage.indexKey messageId]?).bind offlineIndexedKey with
  | some fullKey =>
    match treeRemove f "offline_messages" fullKey s.offline with
    | (.error _, _) => (.error .storage, s)
    | (.ok (), t) =>
      let w := treeRemove f "message_index" (LocalMessageStorage.indexKey messageId) s.storage.messageIndex
      (w.1.mapError fun _ => .storage, { storage := { s.storage with messageIndex := w.2 }, offline := t })
  | none =>
    match s.offline.toList.find? fun e => e.2.messageId = some messageId with
    | none => (.error (.messageNotFound messageId), s)
    | some e =>
      let w := treeRemove f "offline_messages" e.1 s.offline
      (w.1.mapError fun _ => .storage, { s with offline := w.2 })

/-- The index is left as it is. -/
def cleanupExpired (s : IndexedStore) (f : Faults) (now : ℤ) : Except OfflineError ℕ × IndexedStore :=
  let toDelete := (s.offline.toList.filter fun e => e.2.expiresAt ≤ now).map (·.1)
  let w := treeRemoveAll f "offline_messages" toDelete s.offline
  ((w.1.map fun _ => toDelete.length).mapError fun _ => .storage, { s with offline := w.2 })

end IndexedStore

/-- A flush is a delete for each message that could be sent; `query` asks whether a message is pending. -/
inductive IndexOp
  | storePending (f : Faults) (peerDid : Did) (m : DirectMessage)
  | storeOffline (f : Faults) (envelope : OfflineMessageEnvelope)
  | deletePending (f : Faults) (messageId : String)
  | deleteOffline (f : Faults) (messageId : String)
  | cleanupExpired (f : Faults) (now : ℤ)
  | query (messageId : String)

namespace IndexedStore

def step (s : IndexedStore) : IndexOp → IndexedStore
  | .storePending f peerDid m => { s with storage := (s.storage.storePendingMessage f peerDid m).2 }
  | .storeOffline f envelope => (s.storeOffline f envelope).2
  | .deletePending f messageId => { s with storage := (s.storage.deletePendingMessage f messageId).2 }
  | .deleteOffline f messageId => (s.deleteOffline f messageId).2
  | .cleanupExpired f now => (s.cleanupExpired f now).2
  | .query _ => s

end IndexedStore

def indexSys : StepSystem.Sys IndexedStore IndexOp where
  init s := s = .empty
  step := IndexedStore.step

/-- Everything with the id is gone, and nothing else is touched. -/
def RemovesExactly {β : Type} (hasId : β → Prop) (t t' : SledTree β) : Prop :=
  ∀ (k : String) v, t'[k]? = some v ↔ t[k]? = some v ∧ ¬ hasId v

namespace IndexedStore

/-- A query answers by what is in the pending tree, and a delete by id that succeeds removes exactly what has the id
from its tree, and nothing from the other. -/
def Exact (s : IndexedStore) : IndexOp → Prop
  | .deletePending f messageId => (s.storage.deletePendingMessage f messageId).1 = .ok () →
      RemovesExactly (fun m : DirectMessage => m.id = messageId) s.storage.pendingMessages
          (s.step (.deletePending f messageId)).storage.pendingMessages ∧
        (s.step (.deletePending f messageId)).offline = s.offline
  | .deleteOffline f messageId => (s.deleteOffline f messageId).1 = .ok () →
      RemovesExactly (fun e : OfflineMessageEnvelope => e.messageId = some messageId) s.offline
          (s.step (.deleteOffline f messageId)).offline ∧
        (s.step (.deleteOffline f messageId)).storage.pendingMessages = s.storage.pendingMessages
  | .query messageId => s.storage.isMessagePending messageId = true ↔
      ∃ (k : String) (m : DirectMessage), s.storage.pendingMessages[k]? = some m ∧ m.id = messageId
  | _ => True

/-- The pending key that the index has for an id. -/
def pendingEntry (s : IndexedStore) (messageId : String) : Option String :=
  (s.storage.messageIndex[LocalMessageStorage.indexKey messageId]?).bind LocalMessageStorage.indexedKey

def offlineEntry (s : IndexedStore) (messageId : String) : Option String :=
  (s.storage.messageIndex[LocalMessageStorage.indexKey messageId]?).bind offlineIndexedKey

/-- What keeps the index right. A message is stored where its id is new, or under the very key it has, and no message
with another id lies there; where the index of an envelope cannot be written, it names no other envelope. A pending
message is deleted together with its index entry, and without one the first key that ends in `:{message_id}` is of that
id, if it can be removed; and a query comes across such a key only if a message has the id. -/
def Careful (s : IndexedStore) : IndexOp → Prop
  | .storePending f peerDid m =>
    f "pending_messages" (LocalMessageStorage.pendingKey peerDid m.id) = false →
      ∀ e ∈ s.storage.pendingMessages.toList, e.1 = LocalMessageStorage.pendingKey peerDid m.id ↔ e.2.id = m.id
  | .storeOffline f envelope => ∀ m ∈ envelope.message,
      f "offline_messages" (offlineKey envelope.mailboxToken m.timestamp m.id) = false →
        (∀ e ∈ s.offline.toList, e.2.messageId = some m.id →
          e.1 = offlineKey envelope.mailboxToken m.timestamp m.id) ∧
        (f "message_index" (LocalMessageStorage.indexKey m.id) = true → ∀ k ∈ s.offlineEntry m.id,
          k = offlineKey envelope.mailboxToken m.timestamp m.id)
  | .deletePending f messageId =>
    (∀ k ∈ s.pendingEntry messageId,
      f "pending_messages" k = false → f "message_index" (LocalMessageStorage.indexKey messageId) = false) ∧
    (s.pendingEntry messageId = none →
      ∀ e ∈ s.storage.pendingMessages.toList.find? fun e => Text.HasSuffix (":" ++ messageId) e.1,
        f "pending_messages" e.1 = false → e.2.id = messageId)
  | .query messageId => ∀ e ∈ s.storage.pendingMessages.toList, Text.HasSuffix (":" ++ messageId) e.1 →
      ∃ e' ∈ s.storage.pendingMessages.toList, e'.2.id = messageId
  | _ => True

instance (s : IndexedStore) : ∀ op, Decidable (s.Careful op)
  | .storePending .. => inferInstanceAs (Decidable (_ → ∀ e ∈ s.storage.pendingMessages.toList, _))
  | .storeOffline _ envelope => inferInstanceAs (Decidable (∀ m ∈ envelope.message, _ → _ ∧ _))
  | .deletePending .. => inferInstanceAs (Decidable (_ ∧ _))
  | .deleteOffline .. => inferInstanceAs (Decidable True)
  | .cleanupExpired .. => inferInstanceAs (Decidable True)
  | .query _ => inferInstanceAs (Decidable (∀ e ∈ s.storage.pendingMessages.toList, _))

end IndexedStore

end Variance
