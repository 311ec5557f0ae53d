import Mathlib.Data.Prod.Lex
import Variance.Lib.Paging
import Variance.Spec.History
import Variance.Spec.Relay
import Variance.Spec.Retention
import Variance.Spec.Signing

/-! Keys as clocks: what it is for the keys of messages (`storage/mod.rs`) to stand in the order of time and to give
back what they were made from, and for all that reads them to go by the messages' own times. -/

namespace Variance

/-- The order in which messages are to be read: by time, and within one millisecond by id. -/
def GroupMessage.stamp (m : GroupMessage) : ℤ ×ₗ String := toLex (m.timestamp, m.id)

def DirectMessage.stamp (m : DirectMessage) : ℤ ×ₗ String := toLex (m.timestamp, m.id)

/-- A storage operation stores no timestamp but such as the wire carries. -/
def StorageOp.Typed : StorageOp → Prop
  | .storeDirect _ m => IsI64 m.timestamp
  | .storeGroup _ m => IsI64 m.timestamp
  | _ => True

/-- What it stores has no colon in an id or a group's name, and was sent at a time that is neither negative nor the
greatest there is. -/
def StorageOp.Plain : StorageOp → Prop
  | .storeDirect _ m => ':' ∉ m.id.toList ∧ 0 ≤ m.timestamp
  | .storeGroup _ m => ':' ∉ m.id.toList ∧ ':' ∉ m.groupId.toList ∧ 0 ≤ m.timestamp ∧ m.timestamp < 2 ^ 63 - 1
  | _ => True

namespace LocalMessageStorage

/-- None of the group's messages is later. -/
def IsLatest (s : LocalMessageStorage) (groupId : String) (m : GroupMessage) : Prop :=
  m ∈ s.groupHistory groupId ∧ ∀ m' ∈ s.groupHistory groupId, m'.stamp ≤ m.stamp

/-- The group's messages from after a time. -/
def newerThan (s : LocalMessageStorage) (groupId : String) (t : ℤ) : List GroupMessage :=
  (s.groupHistory groupId).filter fun m => t < m.timestamp

/-- All that reads a group's keys finds what the messages say themselves; the id is one that is asked for. -/
structure GroupAgrees (s : LocalMessageStorage) (groupId messageId : String) : Prop where
  order : ∀ m ∈ s.groupHistory groupId, ∀ m' ∈ s.groupHistory groupId, m.key < m'.key ↔ m.stamp < m'.stamp
  parsed : ∀ m ∈ s.groupHistory groupId,
    parseGroupKeyTimestamp m.key = some m.timestamp ∧ afterLastColon m.key = some m.id
  own : ∀ limit before, ∀ m ∈ s.fetchGroup groupId limit before, m.groupId = groupId
  newest : ∀ m ∈ s.fetchGroup groupId 1 none, s.IsLatest groupId m
  found : s.fetchGroup groupId 1 none = [] → s.groupHistory groupId = []
  latest : s.latestGroupTimestamp groupId = (s.fetchGroup groupId 1 none).head?.map (·.timestamp)
  since : ∀ t limit, IsI64 t → s.fetchGroupSince groupId t limit <+: s.newerThan groupId t ∧
    ((s.newerThan groupId t).length ≤ limit → s.fetchGroupSince groupId t limit = s.newerThan groupId t)
  has : s.hasGroupMessage groupId messageId = true ↔ ∃ m ∈ s.groupHistory groupId, m.id = messageId
  cleaned : ∀ cutoffMs, ∀ m ∈ s.groupHistory groupId,
    (s.cleanupOldGroupMessages noFaults cutoffMs).2.groupMessages[m.key]? = none ↔ m.timestamp < cutoffMs

/-- The same of a conversation's keys. -/
structure DirectAgrees (s : LocalMessageStorage) (a b : Did) : Prop where
  order : ∀ m ∈ s.directHistory a b, ∀ m' ∈ s.directHistory a b, m.key < m'.key ↔ m.stamp < m'.stamp
  parsed : ∀ m ∈ s.directHistory a b,
    parseDirectKey m.key = some (conversationId a b, m.timestamp) ∧ afterLastColon m.key = some m.id
  cleaned : ∀ cutoffMs, ∀ m ∈ s.directHistory a b,
    (s.cleanupOldDirectMessages noFaults cutoffMs).2.directMessages[m.key]? = none ↔ m.timestamp < cutoffMs

/-- No id of the group's messages has a colon, no other group's key begins with this one's name and a colon, no
timestamp is negative or the greatest there is, and an id that is asked for and has a colon is not the end of a key. -/
structure GroupPlain (s : LocalMessageStorage) (groupId messageId : String) : Prop where
  ids : ∀ m ∈ s.groupHistory groupId, ':' ∉ m.id.toList
  own : ∀ e ∈ scanPrefix (groupId ++ ":") s.groupMessages, e.2.groupId = groupId
  timed : ∀ m ∈ s.groupHistory groupId, 0 ≤ m.timestamp ∧ m.timestamp < 2 ^ 63 - 1
  asked : ':' ∈ messageId.toList → ∀ m ∈ s.groupHistory groupId, ¬ Text.HasSuffix (":" ++ messageId) m.key

/-- No id of the conversation's messages has a colon, and no two of the timestamps are negative and differ. -/
structure DirectPlain (s : LocalMessageStorage) (a b : Did) : Prop where
  ids : ∀ m ∈ s.directHistory a b, ':' ∉ m.id.toList
  timed : ∀ m ∈ s.directHistory a b, ∀ m' ∈ s.directHistory a b, m.timestamp < 0 → m'.timestamp < 0 →
    m.timestamp = m'.timestamp

end LocalMessageStorage

/-! What a fetch from a mailbox (`storage/offline.rs`) is to give: the earliest of what the mailbox has. -/

/-- When the message in it was sent, as its sender has it. -/
def OfflineMessageEnvelope.sentAt (e : OfflineMessageEnvelope) : ℤ := (e.message.map (·.timestamp)).getD 0

namespace RelayStore

/-- Its messages have such timestamps as the wire carries. -/
def Typed (s : RelayStore) : Prop := ∀ (k : String) (e : OfflineMessageEnvelope), s.tree[k]? = some e → IsI64 e.sentAt

/-- The envelopes for a mailbox from after a time, by their own fields. -/
def waiting (s : RelayStore) (mailboxToken : Bytes) (since : Option ℤ) : List OfflineMessageEnvelope :=
  (s.tree.toList.map (·.2)).filter fun e => e.mailboxToken = mailboxToken ∧ ∀ t ∈ since, t < e.sentAt

/-- A fetch with this limit gives the earliest of them, from whatever time on. -/
def ServesEarliest (s : RelayStore) (mailboxToken : Bytes) (limit : ℕ) : Prop :=
  ∀ since : Option ℤ, (∀ t ∈ since, IsI64 t) →
    Paging.Earliest (·.sentAt) limit (s.waiting mailboxToken since) (s.fetchOffline mailboxToken since limit)

/-- The timestamp that is read off each of the mailbox's keys is the message's own, and no two of them are negative and
differ. -/
structure KeysTell (s : RelayStore) (mailboxToken : Bytes) : Prop where
  read : ∀ (k : String) (e : OfflineMessageEnvelope), s.tree[k]? = some e → e.mailboxToken = mailboxToken →
    keyTimestamp k = some e.sentAt
  timed : ∀ e ∈ s.waiting mailboxToken none, ∀ e' ∈ s.waiting mailboxToken none, e.sentAt < 0 → e'.sentAt < 0 →
    e.sentAt = e'.sentAt

end RelayStore

end Variance
