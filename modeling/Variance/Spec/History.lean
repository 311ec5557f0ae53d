import Mathlib.Data.Sym.Sym2
import Variance.Lib.Paging
import Variance.Lib.Run
import Variance.Spec.Direct
import Variance.Spec.Groups

/-! A node as one process: its groups and its direct messages over one store. What it keeps of its conversations, and
what a message that comes in may do to that. -/

namespace Variance

/-- `delete_direct_conversation`: the messages, and only when all of them went their cached plaintexts. -/
def LocalMessageStorage.deleteDirectConversation (s : LocalMessageStorage) (f : Faults) (did1 did2 : Did) :
    Except MsgError Unit × LocalMessageStorage :=
  let keys := (scanPrefix (conversationId did1 did2 ++ ":") s.directMessages).map (·.1)
  match treeRemoveAll f "direct_messages" keys s.directMessages with
  | (.error e, t) => (.error e, { s with directMessages := t })
  | (.ok (), t) =>
    (.ok (), { s with
      directMessages := t
      plaintext := (keys.filterMap afterLastColon).foldl
        (fun p id => (treeRemove f "plaintext_cache" id p).2) s.plaintext })

/-- The content a conversation shows for a message: from the plaintext store, which survives restarts, and only for
a message that has none there from Olm. -/
def DirectMessageHandler.getMessageContent {O : Olm} (h : DirectMessageHandler O) (W : Wire) (env : Env)
    (message : DirectMessage) : Except MsgError MessageContent × DirectMessageHandler O :=
  match h.storage.plaintext[message.id]? with
  | some content => (.ok content, h)
  | none => h.receiveMessage W env message

/-- Both halves of a node; the store is the groups' half's. -/
structure App (M : OpenMls) (O : Olm) where
  node : Node M
  dms : DirectMessageHandler O

namespace App
variable {M : OpenMls} {O : Olm}

def handler (a : App M O) : DirectMessageHandler O := { a.dms with storage := a.node.storage }

def withHandler (a : App M O) (h : DirectMessageHandler O) : App M O := ⟨{ a.node with storage := h.storage }, h⟩

/-- The direct-message listener: receive, then what the content's type asks for; a PreKey message has consumed a
one-time key, and the pool is filled up. -/
def receiveDirect (W : Wire) (a : App M O) (env : Env) (message : DirectMessage) : App M O :=
  match a.handler.receiveMessage W env message with
  | (.error _, h) => a.withHandler h
  | (.ok content, h) =>
    let a := a.withHandler h
    let a : App M O :=
      { a with node := a.node.handleDirectContent W env message.senderDid message.id message.timestamp content }
    if message.olmMessageType = 0 then a.withHandler ((a.handler.mintKeys env 10).2.persistAccount env) else a

/-- `send_direct_message`: a session first, then the message. -/
def sendDirect (W : Wire) (a : App M O) (env : Env) (recipientDid : Did) (found : Except String IdentityFound)
    (content : MessageContent) : App M O :=
  match a.handler.ensureOlmSession env recipientDid found with
  | (.error _, h) => a.withHandler h
  | (.ok (), h) => a.withHandler (h.sendMessage W env recipientDid content).2

/-- A new process, on the store that is there and the MLS state that was last written. -/
def restart (a : App M O) (env : Env) (identityFile : O.Account) (snapshot : MlsStateSnapshot M) : App M O :=
  let a := a.withHandler (a.handler.startUp env identityFile).2
  { a with node := { a.node with
      mls := MlsGroupHandler.restoreInPlace { a.node.mls with groups := ∅, desyncCounters := ∅ } snapshot } }

end App

/-- What can happen to a node; what a direct message asks of the groups comes with its receipt. -/
inductive AppOp (M : OpenMls) (O : Olm)
  | node (o : Op)
  | sendDirect (env : Env) (recipientDid : Did) (found : Except String IdentityFound) (content : MessageContent)
  | receiveDirect (env : Env) (message : DirectMessage)
  | view (env : Env) (key : String)
  | deleteConversation (env : Env) (peerDid : Did)
  | restart (env : Env) (identityFile : O.Account) (snapshot : MlsStateSnapshot M)

namespace App
variable {M : OpenMls} {O : Olm}

def step (W : Wire) (a : App M O) : AppOp M O → App M O
  | .node (.direct ..) => a
  | .node o => { a with node := a.node.exec W o }
  | .sendDirect env d found content => a.sendDirect W env d found content
  | .receiveDirect env message => a.receiveDirect W env message
  | .view env key =>
    match a.node.storage.directMessages[key]? with
    | none => a
    | some message => a.withHandler (a.handler.getMessageContent W env message).2
  | .deleteConversation env peer =>
    { a with node := a.node.store fun s => s.deleteDirectConversation env.faults a.node.localDid peer }
  | .restart env identityFile snapshot => a.restart env identityFile snapshot

end App

/-- A node from nothing on. -/
def appSys (M : OpenMls) (O : Olm) (W : Wire) : StepSystem.Sys (App M O) (AppOp M O) where
  init a := a.node.Fresh
  step a o := a.step W o

/-- Two who write to each other, or a group. -/
inductive Chat
  | direct (pair : Sym2 Did)
  | group (groupId : String)
deriving DecidableEq

def DirectMessage.chat (m : DirectMessage) : Chat := .direct s(m.senderDid, m.recipientDid)

def GroupMessage.chat (m : GroupMessage) : Chat := .group m.groupId

/-- The key a message is kept under. -/
def DirectMessage.key (m : DirectMessage) : String :=
  LocalMessageStorage.directKey m.senderDid m.recipientDid m.timestamp m.id

def GroupMessage.key (m : GroupMessage) : String := LocalMessageStorage.groupKey m.groupId m.timestamp m.id

/-- A message from outside: to the direct listener, to the live group listener, or one of a batch that a member of
the group served. -/
inductive Inbound
  | direct (m : DirectMessage)
  | group (m : GroupMessage)
  | synced (groupId : String) (m : GroupMessage)

namespace Inbound

def author : Inbound → Did
  | .direct m => m.senderDid
  | .group m => m.senderDid
  | .synced _ m => m.senderDid

def chat : Inbound → Chat
  | .direct m => m.chat
  | .group m => m.chat
  | .synced groupId _ => .group groupId

/-- A stored message that the inbound one has no business with: of another author, or of another conversation. -/
def Foreign (i : Inbound) (author : Did) (chat : Chat) : Prop := author ≠ i.author ∨ chat ≠ i.chat

variable {M : OpenMls} {O : Olm}

def receive (W : Wire) (env : Env) (a : App M O) : Inbound → App M O
  | .direct m => a.receiveDirect W env m
  | .group m => { a with node := a.node.handleGroupMessage W env m }
  | .synced groupId m => { a with node := (a.node.handleSyncedMessage W env groupId m).2 }

/-- No foreign message has its id, or the key it is kept or, as a control message, dropped under. -/
def Clear (i : Inbound) (a : App M O) : Prop :=
  match i with
  | .direct m => ∀ (k : String) (x : DirectMessage), a.node.storage.directMessages[k]? = some x →
      i.Foreign x.senderDid x.chat → x.id ≠ m.id ∧ x.key ≠ m.key ∧
        x.key ≠ LocalMessageStorage.directKey m.senderDid a.node.localDid m.timestamp m.id
  | .group m => ∀ (k : String) (x : GroupMessage), a.node.storage.groupMessages[k]? = some x →
      i.Foreign x.senderDid x.chat → x.id ≠ m.id ∧ x.key ≠ m.key
  | .synced _ m => ∀ (k : String) (x : GroupMessage), a.node.storage.groupMessages[k]? = some x →
      i.Foreign x.senderDid x.chat → x.id ≠ m.id ∧ x.key ≠ m.key

/-- The keys of a group that the step took us out of. -/
def Leaves (i : Inbound) (a a' : App M O) (k : String) : Prop :=
  match i with
  | .group m => (a.node.mls.groups[m.groupId]?).isSome ∧ a'.node.mls.groups[m.groupId]? = none ∧
      Text.HasPrefix (m.groupId ++ ":") k
  | _ => False

end Inbound

/-- Every foreign message is still stored and shows the same content, outside the keys `R` that are given up: a
message there goes, and with it the cached content under its id. -/
structure App.Intact {M : OpenMls} {O : Olm} (a a' : App M O) (i : Inbound) (R : String → Prop) : Prop where
  direct : ∀ (k : String) (x : DirectMessage), a.node.storage.directMessages[k]? = some x →
    i.Foreign x.senderDid x.chat → a'.node.storage.directMessages[k]? = some x ∧
      a'.node.storage.plaintext[x.id]? = a.node.storage.plaintext[x.id]?
  group : ∀ (k : String) (x : GroupMessage), a.node.storage.groupMessages[k]? = some x →
    i.Foreign x.senderDid x.chat → ¬ R k → a'.node.storage.groupMessages[k]? = some x ∧
      ((∀ (k' : String) y, a.node.storage.groupMessages[k']? = some y → R k' →
          afterLastColon k' ≠ some x.id) →
        a'.node.storage.groupPlaintext[x.id]? = a.node.storage.groupPlaintext[x.id]?)

end Variance

/-! Reading the message stores: the newest-first pages of a conversation's history (`storage/direct.rs`,
`storage/group.rs`), and what a member is served of a group it has missed. -/

namespace Variance
namespace LocalMessageStorage

/-- A page of history: of the entries under a prefix, from the last one back, those sent before the bound, in order. -/
def pageBefore {β : Type} (timestamp : β → ℤ) (pre : String) (t : SledTree β) (limit : ℕ) (before : Option ℤ) :
    List β :=
  ((((scanPrefix pre t).reverse.map (·.2)).filter fun m =>
    match before with
    | none => true
    | some ts => decide (timestamp m < ts)).take limit).reverse

def fetchDirect (s : LocalMessageStorage) (senderDid recipientDid : Did) (limit : ℕ) (before : Option ℤ) :
    List DirectMessage :=
  pageBefore (·.timestamp) (conversationId senderDid recipientDid ++ ":") s.directMessages limit before

/-- The key range from `{group_id}:` up to `{group_id};` is that of the prefix. -/
def fetchGroup (s : LocalMessageStorage) (groupId : String) (limit : ℕ) (before : Option ℤ) : List GroupMessage :=
  pageBefore (·.timestamp) (groupId ++ ":") s.groupMessages limit before

/-- `since_timestamp.saturating_add(1)`. -/
def saturatingSucc (t : ℤ) : ℤ := min (t + 1) (2 ^ 63 - 1)

/-- The key from which the messages sent after a time are scanned. -/
def sinceKey (groupId : String) (since : ℤ) : String := groupId ++ ":" ++ pad20 (saturatingSucc since) ++ ":"

/-- The loop of the scan: it ends with the group's prefix or when the limit is reached. -/
def collectGroup (pre : String) (limit : ℕ) :
    List (String × GroupMessage) → List GroupMessage → List GroupMessage
  | [], messages => messages
  | (key, message) :: entries, messages =>
    if Text.HasPrefix pre key then
      let messages := messages ++ [message]
      if limit ≤ messages.length then messages else collectGroup pre limit entries messages
    else messages

def fetchGroupSince (s : LocalMessageStorage) (groupId : String) (sinceTimestamp : ℤ) (limit : ℕ) :
    List GroupMessage :=
  collectGroup (groupId ++ ":") limit (s.groupMessages.toList.filter fun e => sinceKey groupId sinceTimestamp ≤ e.1) []

/-- The timestamp under the last key of the group's range. -/
def latestGroupTimestamp (s : LocalMessageStorage) (groupId : String) : Option ℤ :=
  (scanPrefix (groupId ++ ":") s.groupMessages).getLast?.map (·.2.timestamp)

/-- The messages of a group's range from a time's key on. -/
def range (s : LocalMessageStorage) (groupId : String) (since : ℤ) : List GroupMessage :=
  ((scanPrefix (groupId ++ ":") s.groupMessages).filter fun e => sinceKey groupId since ≤ e.1).map (·.2)

/-! What the pages of a history are to do -/

/-- A client that pages back: the timestamp of a page's oldest message is the bound of the next, until a page comes
empty. `none` when `fuel` pages do not do. -/
def readHistory {β : Type} (timestamp : β → ℤ) (fetch : Option ℤ → List β) : ℕ → Option ℤ → Option (List (List β))
  | 0, _ => none
  | fuel + 1, before =>
    match fetch before with
    | [] => some []
    | oldest :: rest =>
      (readHistory timestamp fetch fuel (some (timestamp oldest))).map ((oldest :: rest) :: ·)

/-- With every page size: the pages come to an end, have each of `wanted` once and nothing else, and each is in
chronological order. -/
def Covers {β : Type} (timestamp : β → ℤ) (fetch : ℕ → Option ℤ → List β) (wanted : List β) : Prop :=
  ∀ limit, 0 < limit → ∃ fuel pages, readHistory timestamp (fetch limit) fuel none = some pages ∧
    pages.flatten.Perm wanted ∧ ∀ page ∈ pages, page.Pairwise fun a b => timestamp a ≤ timestamp b

/-- The direct messages of a conversation. -/
def directHistory (s : LocalMessageStorage) (a b : Did) : List DirectMessage :=
  (s.directMessages.toList.map (·.2)).filter fun m => m.chat = .direct s(a, b)

/-- The messages of a group. -/
def groupHistory (s : LocalMessageStorage) (groupId : String) : List GroupMessage :=
  (s.groupMessages.toList.map (·.2)).filter fun m => m.groupId = groupId

/-- In the order of the keys under a prefix the timestamps go strictly up, and every entry there is wanted. -/
def StrictlyTimed {β : Type} (timestamp : β → ℤ) (pre : String) (t : SledTree β) (wanted : β → Prop) : Prop :=
  ((scanPrefix pre t).map (·.2)).Pairwise (fun a b => timestamp a < timestamp b) ∧
    ∀ e ∈ scanPrefix pre t, wanted e.2

end LocalMessageStorage
end Variance
