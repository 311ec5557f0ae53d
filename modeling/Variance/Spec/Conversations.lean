import Variance.Spec.Clients
import Variance.Spec.KeyOrder

/-! The conversations of the local user, read off the keys of the direct messages (`storage/mod.rs`,
`storage/direct.rs`). -/

namespace Variance

/-- `did:method:id`. -/
def IsDid (did : Did) : Prop :=
  ∃ method id : String, did = "did:" ++ method ++ ":" ++ id ∧ ':' ∉ method.toList ∧ ':' ∉ id.toList

/-- `strip_prefix`. -/
def stripPrefix (pre s : String) : Option String :=
  if Text.HasPrefix pre s then some (String.ofList (s.toList.drop pre.toList.length)) else none

/-- `strip_suffix`. -/
def stripSuffix (suf s : String) : Option String :=
  if Text.HasSuffix suf s then some (String.ofList (s.toList.take (s.toList.length - suf.toList.length))) else none

namespace LocalMessageStorage

def peerDidFromConvId (convId : String) (localDid : Did) : Option Did :=
  match stripPrefix (localDid ++ ":") convId with
  | some rest => some rest
  | none => stripSuffix (":" ++ localDid) convId

/-- Whose conversation with the local user a key names, and the time it gives. -/
def namedByKey (localDid : Did) (key : String) : Option (Did × ℤ) :=
  (parseDirectKey key).bind fun p => (peerDidFromConvId p.1 localDid).map fun peerDid => (peerDid, p.2)

def i64Min : ℤ := -2 ^ 63

/-- One turn of the scan: the latest time of all, and the latest of the others' messages. -/
def noteConversation (localDid : Did) (conversations : SledTree (ℤ × Option ℤ)) (e : String × DirectMessage) :
    SledTree (ℤ × Option ℤ) :=
  match namedByKey localDid e.1 with
  | none => conversations
  | some (peerDid, timestamp) =>
    let entry := conversations[peerDid]?.getD (i64Min, none)
    let latest := if entry.1 < timestamp then timestamp else entry.1
    let peerTs := entry.2.getD i64Min
    let peerLatest := if e.2.senderDid ≠ localDid then some (if peerTs < timestamp then timestamp else peerTs) else entry.2
    conversations.insert peerDid (latest, peerLatest)

/-- The table is a hash map: `iterated` gives its entries in some order, and the sort by `Reverse` is stable. -/
def listDirectConversations (s : LocalMessageStorage)
    (iterated : List (Did × ℤ × Option ℤ) → List (Did × ℤ × Option ℤ)) (localDid : Did) : List (Did × ℤ × Option ℤ) :=
  (iterated (s.directMessages.toList.foldl (noteConversation localDid) ∅).toList).mergeSort fun a b => b.2.1 ≤ a.2.1

/-! What is wanted of the ids and of the list -/

/-- Symmetric, invertible, injective, and no prefix of another conversation's keys. -/
structure ConversationIdsApart : Prop where
  symm : ∀ a b, conversationId a b = conversationId b a
  peer : ∀ a b, IsDid a → IsDid b → peerDidFromConvId (conversationId a b) a = some b
  injective : ∀ a b c d, IsDid a → IsDid b → IsDid c → IsDid d → conversationId a b = conversationId c d → s(a, b) = s(c, d)
  apart : ∀ a b c d t id, IsDid a → IsDid b → IsDid c → IsDid d →
    Text.HasPrefix (conversationId a b ++ ":") (directKey c d t id) → s(a, b) = s(c, d)

def timestamps (messages : List DirectMessage) : List ℤ := messages.map (·.timestamp)

/-- The messages of a conversation that the local user did not send. -/
def incoming (s : LocalMessageStorage) (localDid peerDid : Did) : List DirectMessage :=
  (s.directHistory localDid peerDid).filter fun m => m.senderDid ≠ localDid

/-- One entry for each peer with messages, with the times of the latest message and of the latest incoming one, the
newest first. -/
structure ListsConversations (s : LocalMessageStorage) (localDid : Did) (conversations : List (Did × ℤ × Option ℤ)) :
    Prop where
  once : (conversations.map (·.1)).Nodup
  peers : ∀ peerDid, peerDid ∈ conversations.map (·.1) ↔ s.directHistory localDid peerDid ≠ []
  latest : ∀ c ∈ conversations, (timestamps (s.directHistory localDid c.1)).max? = some c.2.1
  incoming : ∀ c ∈ conversations, (timestamps (s.incoming localDid c.1)).max? = c.2.2
  newestFirst : conversations.Pairwise fun a b => b.2.1 ≤ a.2.1

/-- The condition, on the messages whose id has a colon: what stands in the key before the last two colons does not begin
or end with the local DID, if a time stands between them; and in its conversation there is another message, without a
colon in its id, that is no earlier, and an incoming one if it is incoming. -/
structure ColonsHarmless (s : LocalMessageStorage) (localDid : Did) : Prop where
  unnamed : ∀ (k : String) (m : DirectMessage), s.directMessages[k]? = some m → ':' ∈ m.id.toList →
    ∀ p, parseDirectKey m.key = some p → ¬ Text.HasPrefix (localDid ++ ":") p.1 ∧ ¬ Text.HasSuffix (":" ++ localDid) p.1
  latest : ∀ peerDid, ∀ m ∈ s.directHistory localDid peerDid, ':' ∈ m.id.toList →
    ∃ m' ∈ s.directHistory localDid peerDid, ':' ∉ m'.id.toList ∧ m.timestamp ≤ m'.timestamp
  incoming : ∀ peerDid, ∀ m ∈ s.incoming localDid peerDid, ':' ∈ m.id.toList →
    ∃ m' ∈ s.incoming localDid peerDid, ':' ∉ m'.id.toList ∧ m.timestamp ≤ m'.timestamp

end LocalMessageStorage

/-- The direct messages that a storage operation stores are between DIDs. -/
def StorageOp.BetweenDids : StorageOp → Prop
  | .storeDirect _ m => IsDid m.senderDid ∧ IsDid m.recipientDid
  | _ => True

/-! What is reported unread (`api/conversations.rs`, `api/groups.rs`): the latest timestamp of a conversation against the
local time at which it was last read. -/

namespace LocalMessageStorage

def lastReadKey (ourDid peerDid : Did) : String := ourDid ++ "::" ++ peerDid

def storeLastReadAt (s : LocalMessageStorage) (f : Faults) (ourDid peerDid : Did) (timestamp : ℤ) :
    Except MsgError Unit × LocalMessageStorage :=
  let w := treeInsert f "last_read_at" (lastReadKey ourDid peerDid) timestamp s.lastReadAt
  (w.1, { s with lastReadAt := w.2 })

def fetchLastReadAt (s : LocalMessageStorage) (ourDid peerDid : Did) : Option ℤ :=
  s.lastReadAt[lastReadKey ourDid peerDid]?

def fetchGroupLastReadAt (s : LocalMessageStorage) (ourDid : Did) (groupId : String) : Option ℤ :=
  s.lastReadAt[groupLastReadKey ourDid groupId]?

/-- The message under the last key of the group's range. -/
def fetchGroupLatest (s : LocalMessageStorage) (groupId : String) : Option GroupMessage :=
  (scanPrefix (groupId ++ ":") s.groupMessages).getLast?.map (·.2)

end LocalMessageStorage

structure ConversationResponse where
  id : String
  peerDid : Did
  lastMessageTimestamp : ℤ
  hasUnread : Bool

namespace LocalMessageStorage

/-- `.unwrap_or(None).unwrap_or(0)`. -/
def lastRead (s : LocalMessageStorage) (localDid peerDid : Did) : ℤ := (s.fetchLastReadAt localDid peerDid).getD 0

def groupLastRead (s : LocalMessageStorage) (localDid : Did) (groupId : String) : ℤ :=
  (s.fetchGroupLastReadAt localDid groupId).getD 0

/-- Only messages from the peer count. -/
def listConversations (s : LocalMessageStorage)
    (iterated : List (Did × ℤ × Option ℤ) → List (Did × ℤ × Option ℤ)) (localDid : Did) : List ConversationResponse :=
  (s.listDirectConversations iterated localDid).map fun (peerDid, lastMessageTimestamp, lastPeerTimestamp) =>
    { id := conversationId localDid peerDid
      peerDid := peerDid
      lastMessageTimestamp := lastMessageTimestamp
      hasUnread := match lastPeerTimestamp with
        | some ts => s.lastRead localDid peerDid < ts
        | none => false }

/-- `has_unread` in the list of groups. -/
def groupHasUnread (s : LocalMessageStorage) (localDid : Did) (groupId : String) : Bool :=
  match s.fetchGroupLatest groupId with
  | some m => s.groupLastRead localDid groupId < m.timestamp
  | none => false

end LocalMessageStorage

/-! Runs -/

/-- The groups the local user is in, the store, and of each conversation whether a message of another's was received after it was last opened. -/
structure UnreadWorld where
  localDid : Did
  groupIds : List String
  storage : LocalMessageStorage
  fresh : Did → Bool
  groupFresh : String → Bool

/-- A direct message that was sent or received is stored, or one of a group that was received or sent over HTTP; the
WebSocket also moves the last read time of the group to the message's. Opening does so with the clock's. -/
inductive UnreadStep
  | direct (f : Faults) (m : DirectMessage)
  | group (f : Faults) (m : GroupMessage)
  | sendGroupWs (f : Faults) (m : GroupMessage)
  | openDirect (f : Faults) (peerDid : Did) (now : ℤ)
  | openGroup (f : Faults) (groupId : String) (now : ℤ)

/-- Direct messages are between DIDs, and a DID's conversation is opened. -/
def UnreadStep.Typed : UnreadStep → Prop
  | .direct _ m => IsI64 m.timestamp ∧ IsDid m.senderDid ∧ IsDid m.recipientDid
  | .openDirect _ peerDid _ => IsDid peerDid
  | _ => True

namespace UnreadWorld
open LocalMessageStorage

def next (w : UnreadWorld) : UnreadStep → UnreadWorld
  | .direct f m =>
    let received := f "direct_messages" m.key = false ∧ m.senderDid ≠ w.localDid
    { w with
      storage := (w.storage.storeDirect f m).2
      fresh := fun peer => w.fresh peer || decide (received ∧ m.chat = .direct s(w.localDid, peer)) }
  | .group f m =>
    let received := f "group_messages" m.key = false ∧ m.senderDid ≠ w.localDid
    { w with
      storage := (w.storage.storeGroup f m).2
      groupFresh := fun g => w.groupFresh g || decide (received ∧ g = m.groupId) }
  | .sendGroupWs f m =>
    let s := (w.storage.storeGroup f m).2
    { w with storage := (s.storeGroupLastReadAt f w.localDid m.groupId m.timestamp).2 }
  | .openDirect f peerDid now =>
    { w with
      storage := (w.storage.storeLastReadAt f w.localDid peerDid now).2
      fresh := Function.update w.fresh peerDid false }
  | .openGroup f groupId now =>
    { w with
      storage := (w.storage.storeGroupLastReadAt f w.localDid groupId now).2
      groupFresh := Function.update w.groupFresh groupId false }

/-- The flags: whatever the order of the table, a conversation is reported unread just if it has something fresh. -/
structure Flagged (w : UnreadWorld) : Prop where
  direct : ∀ iterated, (∀ l, (iterated l).Perm l) → ∀ peer,
    (∃ c ∈ w.storage.listConversations iterated w.localDid, c.peerDid = peer ∧ c.hasUnread = true) ↔ w.fresh peer = true
  group : ∀ g ∈ w.groupIds, w.storage.groupHasUnread w.localDid g = w.groupFresh g

/-- The key of a message names the peer, with a time after that conversation was last read. -/
def TellsUnread (w : UnreadWorld) (peer : Did) (key : String) : Prop :=
  ∃ t, namedByKey w.localDid key = some (peer, t) ∧ w.storage.lastRead w.localDid peer < t

/-- A message of another's under another key does. -/
def UnreadBut (w : UnreadWorld) (key : String) (peer : Did) : Prop :=
  ∃ (k : String) (m : DirectMessage), w.storage.directMessages[k]? = some m ∧ k ≠ key ∧ m.senderDid ≠ w.localDid ∧
    w.TellsUnread peer k

/-- Under the group's name, no key comes after it. -/
def ComesLast (w : UnreadWorld) (g : String) (key : String) : Prop :=
  Text.HasPrefix (g ++ ":") key ∧ ∀ e ∈ scanPrefix (g ++ ":") w.storage.groupMessages, e.1 ≤ key

/-- The condition on a direct message that is stored. One of another's: its own key, or another message of the
conversation, tells of a time after it was last read, and its key of no other conversation. One of the local user's: it
replaces no message that was the only one to tell of that. -/
def CarefulDirect (w : UnreadWorld) (m : DirectMessage) : Prop :=
  if m.senderDid = w.localDid then ∀ peer, w.fresh peer = true → w.UnreadBut m.key peer
  else (∀ peer, m.chat = .direct s(w.localDid, peer) → w.UnreadBut m.key peer ∨ w.TellsUnread peer m.key) ∧
    ∀ peer, w.TellsUnread peer m.key → m.chat = .direct s(w.localDid, peer)

/-- Where the key of a group message comes last, its time is after the group was last read just if something is fresh
there, itself included. -/
def CarefulLast (w : UnreadWorld) (m : GroupMessage) (received : Prop) (g : String) : Prop :=
  g ∈ w.groupIds → w.ComesLast g m.key → (w.storage.groupLastRead w.localDid g < m.timestamp ↔
    w.groupFresh g = true ∨ received ∧ g = m.groupId)

/-- The condition. -/
def Careful (w : UnreadWorld) : UnreadStep → Prop
  | .direct f m => f "direct_messages" m.key = false → w.CarefulDirect m
  | .group f m => f "group_messages" m.key = false →
    (∀ g, w.CarefulLast m (m.senderDid ≠ w.localDid) g) ∧
      (m.groupId ∈ w.groupIds → m.senderDid ≠ w.localDid → ¬ w.ComesLast m.groupId m.key →
        w.groupFresh m.groupId = true)
  | .sendGroupWs f m =>
    let stored := f "group_messages" m.key = false
    let marked := f "last_read_at" (groupLastReadKey w.localDid m.groupId) = false
    (stored → ∀ g, (g = m.groupId → ¬ marked) → w.CarefulLast m False g) ∧
      (m.groupId ∈ w.groupIds → marked → (stored ∧ w.ComesLast m.groupId m.key → w.groupFresh m.groupId = false) ∧
        (¬ (stored ∧ w.ComesLast m.groupId m.key) → (w.groupFresh m.groupId = true ↔
          ∃ x, w.storage.fetchGroupLatest m.groupId = some x ∧ m.timestamp < x.timestamp)))
  | .openDirect f peerDid now =>
    if f "last_read_at" (lastReadKey w.localDid peerDid) then w.fresh peerDid = false
    else ∀ (k : String) (m : DirectMessage), w.storage.directMessages[k]? = some m → m.senderDid ≠ w.localDid →
      ∀ t, namedByKey w.localDid k = some (peerDid, t) → t ≤ now
  | .openGroup f groupId now =>
    groupId ∈ w.groupIds → if f "last_read_at" (groupLastReadKey w.localDid groupId) then w.groupFresh groupId = false
    else ∀ m, w.storage.fetchGroupLatest groupId = some m → m.timestamp ≤ now

end UnreadWorld

def unreadSys : StepSystem.Sys UnreadWorld UnreadStep where
  init w := w.storage = .empty ∧ IsDid w.localDid ∧ (w.fresh = fun _ => false) ∧ w.groupFresh = fun _ => false
  step := UnreadWorld.next

end Variance
