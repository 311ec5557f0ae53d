import Variance.Lib.CacheCover
import Variance.Spec.History
import Variance.Spec.Relay

/-! Messages and their cached plaintexts: what is stored, and all that removes it, the retention cleanup included
(`cleanup_old_direct_messages`, `cleanup_old_group_messages`). -/

namespace Variance

/-- `(conv_id, timestamp)`: what stands before the last colon but one, and between the last two. -/
def parseDirectKey (key : String) : Option (String × ℤ) :=
  match Text.rsplitOnce ':' key with
  | none => none
  | some (beforeId, _) =>
    (Text.rsplitOnce ':' beforeId).bind fun p => (Text.parseI64 p.2).map fun timestamp => (p.1, timestamp)

/-- `parse_group_key_timestamp`. -/
def parseGroupKeyTimestamp (key : String) : Option ℤ :=
  match Text.rsplitOnce ':' key with
  | none => none
  | some (beforeId, _) => (Text.rsplitOnce ':' beforeId).bind fun p => Text.parseI64 p.2

namespace LocalMessageStorage

/-- The keys of the direct messages from before a time; a key that gives no time is passed over. -/
def oldDirectKeys (s : LocalMessageStorage) (cutoffMs : ℤ) : List String :=
  (s.directMessages.toList.map (·.1)).filter fun key =>
    match parseDirectKey key with
    | some (_, timestamp) => timestamp < cutoffMs
    | none => false

/-- `cutoff_ms` is the time now less the greatest age. -/
def cleanupOldDirectMessages (s : LocalMessageStorage) (f : Faults) (cutoffMs : ℤ) :
    Except MsgError ℕ × LocalMessageStorage :=
  let toDelete := s.oldDirectKeys cutoffMs
  let w := treeRemoveAll f "direct_messages" toDelete s.directMessages
  (w.1.map fun _ => toDelete.length, { s with directMessages := w.2 })

def oldGroupKeys (s : LocalMessageStorage) (cutoffMs : ℤ) : List String :=
  (s.groupMessages.toList.map (·.1)).filter fun key =>
    match parseGroupKeyTimestamp key with
    | some timestamp => timestamp < cutoffMs
    | none => false

def cleanupOldGroupMessages (s : LocalMessageStorage) (f : Faults) (cutoffMs : ℤ) :
    Except MsgError ℕ × LocalMessageStorage :=
  let toDelete := s.oldGroupKeys cutoffMs
  let w := treeRemoveAll f "group_messages" toDelete s.groupMessages
  (w.1.map fun _ => toDelete.length, { s with groupMessages := w.2 })

end LocalMessageStorage

/-- `cacheDirect` and `cacheGroup` store the plaintext of the message under a key, if there is one. -/
inductive StorageOp
  | storeDirect (f : Faults) (m : DirectMessage)
  | storeGroup (f : Faults) (m : GroupMessage)
  | cacheDirect (f : Faults) (key : String) (content : MessageContent)
  | cacheGroup (f : Faults) (key : String) (content : MessageContent)
  | cleanupDirect (f : Faults) (cutoffMs : ℤ)
  | cleanupGroup (f : Faults) (cutoffMs : ℤ)
  | deleteConversation (f : Faults) (did1 did2 : Did)
  | deleteDirect (f : Faults) (senderDid recipientDid : Did) (timestamp : ℤ) (messageId : String)
  | deleteGroup (f : Faults) (groupId : String)

namespace LocalMessageStorage

def perform (s : LocalMessageStorage) : StorageOp → LocalMessageStorage
  | .storeDirect f m => (s.storeDirect f m).2
  | .storeGroup f m => (s.storeGroup f m).2
  | .cacheDirect f key content =>
    match s.directMessages[key]? with
    | none => s
    | some m => (s.storePlaintext f m.id content).2
  | .cacheGroup f key content =>
    match s.groupMessages[key]? with
    | none => s
    | some m => (s.storeGroupPlaintext f m.id content).2
  | .cleanupDirect f cutoffMs => (s.cleanupOldDirectMessages f cutoffMs).2
  | .cleanupGroup f cutoffMs => (s.cleanupOldGroupMessages f cutoffMs).2
  | .deleteConversation f did1 did2 => (s.deleteDirectConversation f did1 did2).2
  | .deleteDirect f senderDid recipientDid timestamp messageId =>
    (s.deleteDirectById f senderDid recipientDid timestamp messageId).2
  | .deleteGroup f groupId => (s.deleteGroupMessages f groupId).2

end LocalMessageStorage

def storageSys : StepSystem.Sys LocalMessageStorage StorageOp where
  init s := s = .empty
  step := LocalMessageStorage.perform

namespace LocalMessageStorage

/-- Each cached plaintext is that of a message that is there, direct and group messages apart. -/
structure PlaintextCovered (s : LocalMessageStorage) : Prop where
  direct : CacheCover.Covered DirectMessage.id (fun k : String => s.directMessages[k]?) fun i : String => s.plaintext[i]?
  group : CacheCover.Covered GroupMessage.id (fun k : String => s.groupMessages[k]?) fun i : String => s.groupPlaintext[i]?

/-- The keys of `keys` before the first that cannot be removed. -/
def removable (f : Faults) (tree : String) (keys : List String) : Set String :=
  {k | k ∈ keys.takeWhile fun a => f tree a = false}

/-- The direct messages that a step removes, or displaces by one with another id. -/
def directTaken (s : LocalMessageStorage) : StorageOp → Set String
  | .storeDirect f m => {k | f "direct_messages" m.key = false ∧ k = m.key ∧
      ∀ x, s.directMessages[k]? = some x → x.id ≠ m.id}
  | .cleanupDirect f cutoffMs => removable f "direct_messages" (s.oldDirectKeys cutoffMs)
  | .deleteConversation f did1 did2 => removable f "direct_messages"
      ((scanPrefix (conversationId did1 did2 ++ ":") s.directMessages).map (·.1))
  | .deleteDirect f senderDid recipientDid timestamp messageId =>
    removable f "direct_messages" [directKey senderDid recipientDid timestamp messageId]
  | _ => ∅

/-- The ids whose plaintexts it drops: those it reads off the keys, when all of them could be removed. -/
def directDropped (s : LocalMessageStorage) : StorageOp → Set String
  | .deleteConversation f did1 did2 =>
    let keys := (scanPrefix (conversationId did1 did2 ++ ":") s.directMessages).map (·.1)
    {i | (∀ k ∈ keys, f "direct_messages" k = false) ∧ i ∈ keys.filterMap afterLastColon ∧
      f "plaintext_cache" i = false}
  | .deleteDirect f senderDid recipientDid timestamp messageId =>
    {i | f "direct_messages" (directKey senderDid recipientDid timestamp messageId) = false ∧ i = messageId ∧
      f "plaintext_cache" i = false}
  | _ => ∅

def groupTaken (s : LocalMessageStorage) : StorageOp → Set String
  | .storeGroup f m => {k | f "group_messages" m.key = false ∧ k = m.key ∧
      ∀ x, s.groupMessages[k]? = some x → x.id ≠ m.id}
  | .cleanupGroup f cutoffMs => removable f "group_messages" (s.oldGroupKeys cutoffMs)
  | .deleteGroup f groupId => removable f "group_messages" ((scanPrefix (groupId ++ ":") s.groupMessages).map (·.1))
  | _ => ∅

def groupDropped (s : LocalMessageStorage) : StorageOp → Set String
  | .deleteGroup f groupId =>
    let keys := (scanPrefix (groupId ++ ":") s.groupMessages).map (·.1)
    {i | (∀ k ∈ keys, f "group_messages" k = false) ∧ i ∈ keys.filterMap afterLastColon ∧
      f "group_plaintext_cache" i = false}
  | _ => ∅

/-- Each message that the step takes and whose plaintext is cached has its plaintext dropped, or a namesake that the
step leaves. -/
structure PlaintextSpared (s : LocalMessageStorage) (op : StorageOp) : Prop where
  direct : CacheCover.Spares DirectMessage.id (fun k : String => s.directMessages[k]?) (fun i : String => s.plaintext[i]?)
    (s.directTaken op) (s.directDropped op)
  group : CacheCover.Spares GroupMessage.id (fun k : String => s.groupMessages[k]?)
    (fun i : String => s.groupPlaintext[i]?) (s.groupTaken op) (s.groupDropped op)

end LocalMessageStorage

end Variance
