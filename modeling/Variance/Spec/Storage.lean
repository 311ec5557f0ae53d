import Variance.Lib.Text
import Variance.Spec.Types

/-! `variance-messaging/src/storage`: the trees of `LocalMessageStorage` and the
operations the node's logic uses. A value is kept as the message it encodes. Every write
may fail: `Faults` says which of a step's writes do, by tree name and key. A read does not. -/

namespace Variance

/-- The writes of one step that fail. -/
abbrev Faults := String → String → Bool

def noFaults : Faults := fun _ _ => false

/-- `OutboundInvite`: the invitation and when it was made (ms), for the 5-minute timeout. -/
structure OutboundInvite where
  invitation : GroupInvitation
  createdAtMs : ℤ
deriving DecidableEq

structure LocalMessageStorage where
  pendingInvitations : SledTree GroupInvitation
  outboundInvites : SledTree OutboundInvite
  groupMetadata : SledTree Group
  groupMessages : SledTree GroupMessage
  groupPlaintext : SledTree MessageContent
  groupReceipts : SledTree GroupReadReceipt
  lastReadAt : SledTree ℤ
  directMessages : SledTree DirectMessage
  plaintext : SledTree MessageContent
  pendingMessages : SledTree DirectMessage
  messageIndex : SledTree String

def LocalMessageStorage.empty : LocalMessageStorage :=
  ⟨∅, ∅, ∅, ∅, ∅, ∅, ∅, ∅, ∅, ∅, ∅⟩

/-- `tree.insert(key, value)`. -/
def treeInsert {β : Type} (f : Faults) (tree key : String) (v : β) (t : SledTree β) :
    Except MsgError Unit × SledTree β :=
  if f tree key then (.error .storage, t) else (.ok (), t.insert key v)

/-- `tree.remove(key)`; removing an absent key succeeds. -/
def treeRemove {β : Type} (f : Faults) (tree key : String) (t : SledTree β) :
    Except MsgError Unit × SledTree β :=
  if f tree key then (.error .storage, t) else (.ok (), t.erase key)

/-- `for key in keys { tree.remove(key)? }`. -/
def treeRemoveAll {β : Type} (f : Faults) (tree : String) :
    List String → SledTree β → Except MsgError Unit × SledTree β
  | [], t => (.ok (), t)
  | key :: keys, t =>
    if f tree key then (.error .storage, t) else treeRemoveAll f tree keys (t.erase key)

/-- `tree.scan_prefix(prefix)`, in key order. -/
def scanPrefix {β : Type} (pre : String) (t : SledTree β) : List (String × β) :=
  t.toList.filter fun e => Text.HasPrefix pre e.1

/-- `{timestamp:020}`: zero-padded to twenty characters, the sign first. -/
def pad20 (t : ℤ) : String :=
  let digits := (toString t.natAbs).toList
  if t < 0 then String.ofList ('-' :: List.replicate (19 - digits.length) '0' ++ digits)
  else String.ofList (List.replicate (20 - digits.length) '0' ++ digits)

/-- `key[key.rfind(':')? + 1..]`. -/
def afterLastColon (key : String) : Option String :=
  if ':' ∈ key.toList then some (String.ofList (key.toList.reverse.takeWhile (· ≠ ':')).reverse)
  else none

namespace LocalMessageStorage

/-! Invitations -/

def storePendingInvitation (s : LocalMessageStorage) (f : Faults) (invitation : GroupInvitation) :
    Except MsgError Unit × LocalMessageStorage :=
  let w := treeInsert f "pending_invitations" invitation.groupId invitation s.pendingInvitations
  (w.1, { s with pendingInvitations := w.2 })

def fetchPendingInvitation (s : LocalMessageStorage) (groupId : String) : Option GroupInvitation :=
  s.pendingInvitations[groupId]?

def deletePendingInvitation (s : LocalMessageStorage) (f : Faults) (groupId : String) :
    Except MsgError Unit × LocalMessageStorage :=
  let w := treeRemove f "pending_invitations" groupId s.pendingInvitations
  (w.1, { s with pendingInvitations := w.2 })

/-- `{group_id}:{invitee_did}`. -/
def inviteKey (groupId : String) (inviteeDid : Did) : String := groupId ++ ":" ++ inviteeDid

def storeOutboundInvite (s : LocalMessageStorage) (f : Faults) (groupId : String) (inviteeDid : Did)
    (invitation : GroupInvitation) (createdAtMs : ℤ) : Except MsgError Unit × LocalMessageStorage :=
  let w := treeInsert f "outbound_invites" (inviteKey groupId inviteeDid) ⟨invitation, createdAtMs⟩
    s.outboundInvites
  (w.1, { s with outboundInvites := w.2 })

def fetchOutboundInvite (s : LocalMessageStorage) (groupId : String) (inviteeDid : Did) :
    Option (GroupInvitation × ℤ) :=
  (s.outboundInvites[inviteKey groupId inviteeDid]?).map fun e => (e.invitation, e.createdAtMs)

def deleteOutboundInvite (s : LocalMessageStorage) (f : Faults) (groupId : String)
    (inviteeDid : Did) : Except MsgError Unit × LocalMessageStorage :=
  let w := treeRemove f "outbound_invites" (inviteKey groupId inviteeDid) s.outboundInvites
  (w.1, { s with outboundInvites := w.2 })

/-- Stops at the first key it cannot remove. -/
def deleteAllOutboundInvitesForGroup (s : LocalMessageStorage) (f : Faults) (groupId : String) :
    Except MsgError Unit × LocalMessageStorage :=
  let keys := (scanPrefix (groupId ++ ":") s.outboundInvites).map (·.1)
  let w := treeRemoveAll f "outbound_invites" keys s.outboundInvites
  (w.1, { s with outboundInvites := w.2 })

/-- `(&key[..pos], &key[pos + 1..])` at the first `":did:"` of a key. -/
def splitInviteKey (key : String) : Option (String × Did) :=
  (Text.cutString ":did:" key).map fun p => (p.1, String.ofList (p.2.toList.drop 1))

/-- Triples `(invitee_did, invitation, created_at_ms)`; a key without `":did:"` is passed over. -/
def fetchOutboundInvitesForGroup (s : LocalMessageStorage) (groupId : String) :
    List (Did × GroupInvitation × ℤ) :=
  (scanPrefix (groupId ++ ":") s.outboundInvites).filterMap fun e =>
    (splitInviteKey e.1).map fun p => (p.2, e.2.invitation, e.2.createdAtMs)

/-- Triples `(group_id, invitee_did, invitation)` with `created_at_ms + timeout < now`. -/
def fetchExpiredOutboundInvites (s : LocalMessageStorage) (timeoutMs nowMs : ℤ) :
    List (String × Did × GroupInvitation) :=
  s.outboundInvites.toList.filterMap fun e =>
    if e.2.createdAtMs + timeoutMs < nowMs then
      (splitInviteKey e.1).map fun p => (p.1, p.2, e.2.invitation)
    else none

/-! Groups -/

/-- `{group_id}:{timestamp:020}:{id}`. -/
def groupKey (groupId : String) (timestamp : ℤ) (id : String) : String :=
  groupId ++ ":" ++ pad20 timestamp ++ ":" ++ id

def storeGroup (s : LocalMessageStorage) (f : Faults) (message : GroupMessage) :
    Except MsgError Unit × LocalMessageStorage :=
  let w := treeInsert f "group_messages" (groupKey message.groupId message.timestamp message.id)
    message s.groupMessages
  (w.1, { s with groupMessages := w.2 })

/-- A key of the group's range that ends in `:{message_id}`. -/
def hasGroupMessage (s : LocalMessageStorage) (groupId messageId : String) : Bool :=
  (scanPrefix (groupId ++ ":") s.groupMessages).any fun e => Text.HasSuffix (":" ++ messageId) e.1

/-- The messages first; their cached plaintexts only when all of them went. -/
def deleteGroupMessages (s : LocalMessageStorage) (f : Faults) (groupId : String) :
    Except MsgError Unit × LocalMessageStorage :=
  let keys := (scanPrefix (groupId ++ ":") s.groupMessages).map (·.1)
  match treeRemoveAll f "group_messages" keys s.groupMessages with
  | (.error e, t) => (.error e, { s with groupMessages := t })
  | (.ok (), t) =>
    (.ok (), { s with
      groupMessages := t
      groupPlaintext := (keys.filterMap afterLastColon).foldl
        (fun p id => (treeRemove f "group_plaintext_cache" id p).2) s.groupPlaintext })

def storeGroupMetadata (s : LocalMessageStorage) (f : Faults) (group : Group) :
    Except MsgError Unit × LocalMessageStorage :=
  let w := treeInsert f "group_metadata" group.id group s.groupMetadata
  (w.1, { s with groupMetadata := w.2 })

def fetchGroupMetadata (s : LocalMessageStorage) (groupId : String) : Option Group :=
  s.groupMetadata[groupId]?

def deleteGroupMetadata (s : LocalMessageStorage) (f : Faults) (groupId : String) :
    Except MsgError Unit × LocalMessageStorage :=
  let w := treeRemove f "group_metadata" groupId s.groupMetadata
  (w.1, { s with groupMetadata := w.2 })

/-- The first member with that did gets the role. -/
def setRole (memberDid : Did) (newRole : GroupRole) : List GroupMember → List GroupMember
  | [] => []
  | m :: ms =>
    if m.did = memberDid then { m with role := newRole } :: ms else m :: setRole memberDid newRole ms

/-- `Ok(false)` when the group or the member is unknown. -/
def updateMemberRole (s : LocalMessageStorage) (f : Faults) (groupId : String) (memberDid : Did)
    (newRole : GroupRole) : Except MsgError Bool × LocalMessageStorage :=
  match s.groupMetadata[groupId]? with
  | none => (.ok false, s)
  | some group =>
    if group.members.any fun m => m.did = memberDid then
      let w := treeInsert f "group_metadata" groupId
        { group with members := setRole memberDid newRole group.members } s.groupMetadata
      (w.1.map fun _ => true, { s with groupMetadata := w.2 })
    else (.ok false, s)

def storeGroupPlaintext (s : LocalMessageStorage) (f : Faults) (messageId : String)
    (content : MessageContent) : Except MsgError Unit × LocalMessageStorage :=
  let w := treeInsert f "group_plaintext_cache" messageId content s.groupPlaintext
  (w.1, { s with groupPlaintext := w.2 })

/-- `{group_id}:{message_id}:{reader_did}:{timestamp:020}`. -/
def groupReceiptKey (r : GroupReadReceipt) : String :=
  r.groupId ++ ":" ++ r.messageId ++ ":" ++ r.readerDid ++ ":" ++ pad20 r.timestamp

def storeGroupReceipt (s : LocalMessageStorage) (f : Faults) (receipt : GroupReadReceipt) :
    Except MsgError Unit × LocalMessageStorage :=
  let w := treeInsert f "group_receipts" (groupReceiptKey receipt) receipt s.groupReceipts
  (w.1, { s with groupReceipts := w.2 })

def groupLastReadKey (ourDid : Did) (groupId : String) : String := ourDid ++ "::group::" ++ groupId

def deleteGroupLastReadAt (s : LocalMessageStorage) (f : Faults) (ourDid : Did) (groupId : String) :
    Except MsgError Unit × LocalMessageStorage :=
  let w := treeRemove f "last_read_at" (groupLastReadKey ourDid groupId) s.lastReadAt
  (w.1, { s with lastReadAt := w.2 })

/-! Direct messages -/

/-- The two DIDs, sorted, with a colon between. -/
def conversationId (did1 did2 : Did) : String :=
  if did1 ≤ did2 then did1 ++ ":" ++ did2 else did2 ++ ":" ++ did1

def directKey (sender recipient : Did) (timestamp : ℤ) (id : String) : String :=
  conversationId sender recipient ++ ":" ++ pad20 timestamp ++ ":" ++ id

def storeDirect (s : LocalMessageStorage) (f : Faults) (m : DirectMessage) :
    Except MsgError Unit × LocalMessageStorage :=
  let w := treeInsert f "direct_messages" (directKey m.senderDid m.recipientDid m.timestamp m.id) m
    s.directMessages
  (w.1, { s with directMessages := w.2 })

/-- A failure to drop the cached plaintext is only logged. -/
def deleteDirectById (s : LocalMessageStorage) (f : Faults) (senderDid recipientDid : Did)
    (timestamp : ℤ) (messageId : String) : Except MsgError Unit × LocalMessageStorage :=
  let key := directKey senderDid recipientDid timestamp messageId
  match treeRemove f "direct_messages" key s.directMessages with
  | (.error e, _) => (.error e, s)
  | (.ok (), t) =>
    (.ok (), { s with
      directMessages := t
      plaintext := (treeRemove f "plaintext_cache" messageId s.plaintext).2 })

def storePlaintext (s : LocalMessageStorage) (f : Faults) (messageId : String)
    (content : MessageContent) : Except MsgError Unit × LocalMessageStorage :=
  let w := treeInsert f "plaintext_cache" messageId content s.plaintext
  (w.1, { s with plaintext := w.2 })

/-- `{peer_did}:{message_id}`. -/
def pendingKey (peerDid : Did) (messageId : String) : String := peerDid ++ ":" ++ messageId

def indexKey (messageId : String) : String := "idx:" ++ messageId

/-- The message, then its reverse index; the index is not written when the message was not. -/
def storePendingMessage (s : LocalMessageStorage) (f : Faults) (peerDid : Did)
    (message : DirectMessage) : Except MsgError Unit × LocalMessageStorage :=
  let key := pendingKey peerDid message.id
  match treeInsert f "pending_messages" key message s.pendingMessages with
  | (.error e, _) => (.error e, s)
  | (.ok (), t) =>
    let w := treeInsert f "message_index" (indexKey message.id) ("pending:" ++ key) s.messageIndex
    (w.1, { s with pendingMessages := t, messageIndex := w.2 })

def fetchPendingMessages (s : LocalMessageStorage) (peerDid : Did) : List DirectMessage :=
  (scanPrefix (peerDid ++ ":") s.pendingMessages).map (·.2)

/-- `val_str.strip_prefix("pending:")`. -/
def indexedKey (v : String) : Option String :=
  if Text.HasPrefix "pending:" v then some (String.ofList (v.toList.drop 8)) else none

/-- By the reverse index; without one, the first key that ends in `:{message_id}`. -/
def deletePendingMessage (s : LocalMessageStorage) (f : Faults) (messageId : String) :
    Except MsgError Unit × LocalMessageStorage :=
  match (s.messageIndex[indexKey messageId]?).bind indexedKey with
  | some fullKey =>
    match treeRemove f "pending_messages" fullKey s.pendingMessages with
    | (.error e, _) => (.error e, s)
    | (.ok (), t) =>
      let w := treeRemove f "message_index" (indexKey messageId) s.messageIndex
      (w.1, { s with pendingMessages := t, messageIndex := w.2 })
  | none =>
    match s.pendingMessages.toList.find? fun e => Text.HasSuffix (":" ++ messageId) e.1 with
    | none => (.ok (), s)
    | some e =>
      let w := treeRemove f "pending_messages" e.1 s.pendingMessages
      (w.1, { s with pendingMessages := w.2 })

end LocalMessageStorage

end Variance
