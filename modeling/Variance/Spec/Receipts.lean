import Variance.Lib.Run
import Variance.Spec.Groups
import Variance.Spec.MessageIndex
import Variance.Spec.NameWorld

/-! Receipts: `variance-messaging/src/receipts.rs` over `storage/receipts.rs`, and the status that the message lists
make of them (`api/conversations.rs`, `api/groups.rs`). -/

namespace Variance

structure ReadReceipt where
  messageId : String
  readerDid : Did
  status : ℤ
  timestamp : ℤ
  signature : Bytes
deriving DecidableEq

/-- `{message_id}:{reader_did}:{timestamp:020}`. -/
def receiptKey (r : ReadReceipt) : String := r.messageId ++ ":" ++ r.readerDid ++ ":" ++ pad20 r.timestamp

/-- The trees of receipts for direct messages: those stored, and those that wait for their peer. -/
structure ReceiptStorage where
  receipts : SledTree ReadReceipt
  pendingReceipts : SledTree ReadReceipt

def ReceiptStorage.empty : ReceiptStorage := ⟨∅, ∅⟩

/-- The loop of the status queries: the highest timestamp, the first of those that have it. -/
def latest {α : Type} (timestamp : α → ℤ) (receipts : List α) : Option α :=
  receipts.foldl (fun latest r =>
    match latest with
    | some current => if timestamp current < timestamp r then some r else latest
    | none => some r) none

namespace ReceiptStorage

def storeReceipt (s : ReceiptStorage) (f : Faults) (receipt : ReadReceipt) : Except MsgError Unit × ReceiptStorage :=
  let w := treeInsert f "read_receipts" (receiptKey receipt) receipt s.receipts
  (w.1, { s with receipts := w.2 })

def fetchReceipts (s : ReceiptStorage) (messageId : String) : List ReadReceipt :=
  (scanPrefix (messageId ++ ":") s.receipts).map (·.2)

def fetchReceiptStatus (s : ReceiptStorage) (messageId : String) (readerDid : Did) : Option ReadReceipt :=
  latest (·.timestamp) ((scanPrefix (messageId ++ ":" ++ readerDid ++ ":") s.receipts).map (·.2))

end ReceiptStorage

def LocalMessageStorage.fetchGroupReceipts (s : LocalMessageStorage) (groupId messageId : String) :
    List GroupReadReceipt :=
  (scanPrefix (groupId ++ ":" ++ messageId ++ ":") s.groupReceipts).map (·.2)

/-- The highest status of each reader, from nought. -/
def statusMap (receipts : List GroupReadReceipt) : SledTree ℤ :=
  receipts.foldl (fun map r =>
    let entry := (map[r.readerDid]?).getD 0
    map.insert r.readerDid (if entry < r.status then r.status else entry)) ∅

/-- What the lists call a lowest status. -/
def statusStr (minStatus : ℤ) : String :=
  if receiptRead ≤ minStatus then "read" else if receiptDelivered ≤ minStatus then "delivered" else "sent"

/-- `get_group_aggregate_status`: the lowest status of the members; one without a receipt counts as nought. -/
def LocalMessageStorage.groupAggregateStatus (s : LocalMessageStorage) (groupId messageId : String)
    (memberDids : List Did) : String :=
  if memberDids = [] then "sent"
  else
    let map := statusMap (s.fetchGroupReceipts groupId messageId)
    statusStr ((memberDids.map fun did => (map[did]?).getD 0).min?.getD 0)

/-- `receipt_status_to_string`. -/
def receiptStatusToString (status : ℤ) : String :=
  if status = receiptDelivered then "delivered" else if status = receiptRead then "read" else "unknown"

/-- The status that `get_direct_messages` gives one of our own messages. -/
def directStatus (localDid : Did) (store : LocalMessageStorage) (s : ReceiptStorage) (m : DirectMessage) :
    Option String :=
  if m.senderDid = localDid then
    if store.isMessagePending m.id then some "pending"
    else
      let receipts := s.fetchReceipts m.id
      if receipts.any fun r => r.status = receiptRead then some "read"
      else if receipts.any fun r => r.status = receiptDelivered then some "delivered"
      else some "sent"
  else none

namespace Node
variable {M : OpenMls}

/-- The members of a group other than us. -/
def otherMembers (n : Node M) (groupId : String) : List Did :=
  (n.mls.membersOrDefault groupId).filter fun did => did ≠ n.localDid

/-- The status that `get_group_messages` gives one of our own messages. -/
def groupStatus (n : Node M) (groupId : String) (m : GroupMessage) : Option String :=
  if m.senderDid = n.localDid then some (n.storage.groupAggregateStatus groupId m.id (n.otherMembers groupId)) else none

end Node

/-! Receipts that arrive in any order -/

/-- A delivered or a read receipt for the message. -/
def ReadReceipt.IsFor (r : ReadReceipt) (messageId : String) : Prop :=
  r.messageId = messageId ∧ (r.status = receiptDelivered ∨ r.status = receiptRead)

def GroupReadReceipt.IsFor (r : GroupReadReceipt) (groupId messageId : String) : Prop :=
  r.groupId = groupId ∧ r.messageId = messageId ∧ (r.status = receiptDelivered ∨ r.status = receiptRead)

/-- The status that the latest receipt of a reader gives a message. -/
def ReceiptStorage.readerStatus (s : ReceiptStorage) (messageId : String) (readerDid : Did) : String :=
  match s.fetchReceiptStatus messageId readerDid with
  | none => "sent"
  | some r => receiptStatusToString r.status

def ReceiptStorage.receive (s : ReceiptStorage) (arrivals : List ReadReceipt) : ReceiptStorage :=
  arrivals.foldl (fun s r => (s.storeReceipt noFaults r).2) s

def Node.receive {M : OpenMls} (n : Node M) (arrivals : List GroupReadReceipt) : Node M :=
  { n with storage := arrivals.foldl (fun s r => (s.storeGroupReceipt noFaults r).2) n.storage }

/-- The message is shown with the status its receipts give it. -/
def StatusShown (localDid : Did) (store : LocalMessageStorage) (m : DirectMessage) : Prop :=
  m.senderDid = localDid ∧ store.isMessagePending m.id = false

/-- Receipts of a pool arrive in any order, any of them and any number of times: what a direct message's list entry
and a reader's status say depends on the set of those that came, read stays read, and for the recipient the two agree. -/
structure DirectSettled (localDid : Did) (store : LocalMessageStorage) (s : ReceiptStorage) (m : DirectMessage)
    (reader : Did) (pool : List ReadReceipt) : Prop where
  bySet : ∀ as bs, as ⊆ pool → (∀ r, r ∈ as ↔ r ∈ bs) →
    directStatus localDid store (s.receive as) m = directStatus localDid store (s.receive bs) m ∧
      (s.receive as).readerStatus m.id reader = (s.receive bs).readerStatus m.id reader
  stays : ∀ as bs, as ++ bs ⊆ pool →
    (directStatus localDid store (s.receive as) m = some "read" →
      directStatus localDid store (s.receive (as ++ bs)) m = some "read") ∧
    ((s.receive as).readerStatus m.id reader = "read" → (s.receive (as ++ bs)).readerStatus m.id reader = "read")
  agree : StatusShown localDid store m → reader = m.recipientDid → ∀ as, as ⊆ pool →
    directStatus localDid store (s.receive as) m = some ((s.receive as).readerStatus m.id reader)

/-- The greatest status of a member among receipts. -/
def maxStatus (receipts : List GroupReadReceipt) (did : Did) : ℤ :=
  ((receipts.filter fun r => r.readerDid = did).map (·.status)).foldr max 0

/-- The status of a group message is the least of the other members' greatest ones, depends on the set of receipts
that came, and read stays read. -/
structure GroupSettled {M : OpenMls} (n : Node M) (groupId : String) (m : GroupMessage) (pool : List GroupReadReceipt) :
    Prop where
  bySet : ∀ as bs, as ⊆ pool → (∀ r, r ∈ as ↔ r ∈ bs) →
    (n.receive as).groupStatus groupId m = (n.receive bs).groupStatus groupId m
  stays : ∀ as bs, as ++ bs ⊆ pool → (n.receive as).groupStatus groupId m = some "read" →
    (n.receive (as ++ bs)).groupStatus groupId m = some "read"
  least : m.senderDid = n.localDid → ∀ as, as ⊆ pool → (n.receive as).groupStatus groupId m =
    some (statusStr (((n.otherMembers groupId).map (maxStatus as)).min?.getD 0))

/-- Whether a reader's status query comes across a receipt. -/
def ReadReceipt.SeenFor (r : ReadReceipt) (messageId : String) (reader : Did) : Prop :=
  Text.HasPrefix (messageId ++ ":" ++ reader ++ ":") (receiptKey r)

instance (r : ReadReceipt) (messageId : String) (reader : Did) : Decidable (r.SeenFor messageId reader) :=
  inferInstanceAs (Decidable (Text.HasPrefix _ _))

/-- Of the receipts the query comes across, each read one is later than each delivered one, or as late and before it
in the order of the keys. -/
def ReadPrevails (messageId : String) (reader : Did) (pool : List ReadReceipt) : Prop :=
  ∀ a ∈ pool, ∀ b ∈ pool, a.status = receiptRead → b.status = receiptDelivered → a.SeenFor messageId reader →
    b.SeenFor messageId reader →
      b.timestamp < a.timestamp ∨ (a.timestamp = b.timestamp ∧ receiptKey a < receiptKey b)

/-- No reader's delivered receipt has the millisecond of a read one. -/
def Unclashing (pool : List ReadReceipt) : Prop :=
  ∀ a ∈ pool, ∀ b ∈ pool, a.status = receiptRead → b.status = receiptDelivered →
    ¬ (a.readerDid = b.readerDid ∧ a.timestamp = b.timestamp)

/-- Nor, in a group, one of a member's, or some member has none that is read. -/
def GroupUnclashing (members : List Did) (pool : List GroupReadReceipt) : Prop :=
  (∃ did ∈ members, ∀ r ∈ pool, r.readerDid = did → r.status ≠ receiptRead) ∨
    ∀ a ∈ pool, ∀ b ∈ pool, a.readerDid ∈ members → a.status = receiptRead → b.status = receiptDelivered →
      ¬ (a.readerDid = b.readerDid ∧ a.timestamp = b.timestamp)

/-! Receipts from the network: the swarm's handler (`handle_receipt_event`), the channel it sends to, and the listener
that stores what the channel holds (`event_router/social.rs`). -/

/-- The bytes that a receipt's signature covers. -/
def ReadReceipt.payload (r : ReadReceipt) : Bytes :=
  utf8Bytes r.messageId ++ utf8Bytes r.readerDid ++ leBytes 4 (r.status % 2 ^ 32).toNat ++
    leBytes 8 (r.timestamp % 2 ^ 64).toNat

/-- `verify_receipt_with_key`, which the listener's caller is told to call and nobody does. -/
def ReadReceipt.verifyWithKey (E : Ed25519) (r : ReadReceipt) (readerPublicKey : Bytes) : Bool :=
  r.signature.length = 64 && E.verify readerPublicKey r.payload r.signature

/-- What the socket is told of a receipt. -/
inductive ReceiptNotice
  | read (messageId : String)
  | delivered (messageId : String)
deriving DecidableEq

/-- `storage` holds the messages that are still pending, `channel` the receipts that the listener has yet to take. -/
structure ReceiptNode where
  localDid : Did
  storage : LocalMessageStorage
  receipts : ReceiptStorage
  channel : List ReadReceipt
  notices : List ReceiptNotice

namespace ReceiptNode

/-- `handle_receipt_event`, a request: any peer's receipt goes to the channel. -/
def handleReceiptEvent (n : ReceiptNode) (_ : PeerId) (request : ReadReceipt) : ReceiptNode :=
  { n with channel := n.channel ++ [request] }

/-- `ReceiptHandler::receive_receipt`. -/
def receiveReceipt (n : ReceiptNode) (f : Faults) (receipt : ReadReceipt) : Except MsgError Unit × ReceiptNode :=
  let w := n.receipts.storeReceipt f receipt
  (w.1, { n with receipts := w.2 })

/-- One turn of the listener. -/
def listen (n : ReceiptNode) (f : Faults) : ReceiptNode :=
  match n.channel with
  | [] => n
  | receipt :: rest =>
    match { n with channel := rest }.receiveReceipt f receipt with
    | (.error _, n) => n
    | (.ok (), n) =>
      { n with notices := n.notices ++
          [if receipt.status = receiptRead then .read receipt.messageId else .delivered receipt.messageId] }

end ReceiptNode

/-- A receipt from a peer, a turn of the listener, and a lag of the channel, which loses its oldest. -/
inductive ReceiptStep
  | request (peer : PeerId) (receipt : ReadReceipt)
  | listen (f : Faults)
  | lagged (missed : ℕ)

namespace ReceiptNode

def step (n : ReceiptNode) : ReceiptStep → ReceiptNode
  | .request peer receipt => n.handleReceiptEvent peer receipt
  | .listen f => n.listen f
  | .lagged missed => { n with channel := n.channel.drop missed }

/-- The status the list shows for a message. -/
def status (n : ReceiptNode) (m : DirectMessage) : Option String := directStatus n.localDid n.storage n.receipts m

end ReceiptNode

/-- From any state. -/
def receiptSys : StepSystem.Sys ReceiptNode ReceiptStep where
  init _ := True
  step := ReceiptNode.step

/-- A receipt for the message, by its recipient, whose signature verifies under the recipient's key. -/
def ReadReceipt.Genuine (E : Ed25519) (m : DirectMessage) (r : ReadReceipt) : Prop :=
  r.messageId = m.id ∧ r.readerDid = m.recipientDid ∧ r.verifyWithKey E (E.keyOf m.recipientDid) = true

namespace ReceiptNode

/-- The step takes up a genuine receipt, or leaves the message's receipts and its status as they were. -/
def Undisturbed (E : Ed25519) (m : DirectMessage) (n : ReceiptNode) (e : ReceiptStep) : Prop :=
  (∃ f r rest, e = .listen f ∧ n.channel = r :: rest ∧ r.Genuine E m) ∨
    ((n.step e).receipts.fetchReceipts m.id = n.receipts.fetchReceipts m.id ∧ (n.step e).status m = n.status m)

/-- The status is one that receipts give. -/
def Acknowledged (m : DirectMessage) (n : ReceiptNode) : Prop :=
  n.status m = some "delivered" ∨ n.status m = some "read"

/-- Along a run, no other receipt changes anything for the message; and if a receipt has given it its status, a genuine
one came in, or was waiting. -/
def Authentic (E : Ed25519) (m : DirectMessage) (n : ReceiptNode) (es : List ReceiptStep) : Prop :=
  StepSystem.Guarded receiptSys (Undisturbed E m) n es ∧
    ∀ before after, es = before ++ after → (before.foldl step n).Acknowledged m →
      n.Acknowledged m ∨ ∃ r : ReadReceipt, r.Genuine E m ∧ (r ∈ n.channel ∨ ∃ peer, .request peer r ∈ before)

/-- Of the receipts taken up, each that is stored, that the message's scan comes across and that is not there yet is
genuine. -/
def GenuineOnly (E : Ed25519) (m : DirectMessage) (n : ReceiptNode) (e : ReceiptStep) : Prop :=
  ∀ f r rest, e = .listen f → n.channel = r :: rest → f "read_receipts" (receiptKey r) = false →
    Text.HasPrefix (m.id ++ ":") (receiptKey r) → n.receipts.receipts[receiptKey r]? ≠ some r → r.Genuine E m

end ReceiptNode

/-! Receipts that wait for their peer: `storage/receipts.rs`, filled by the API (`send_delivered_receipt`,
`send_read_receipt`) and the direct-message listener, and flushed when the peer connects
(`handle_peer_connected`). -/

/-- `{target_did}:{message_id}`. -/
def pendingReceiptKey (targetDid : Did) (messageId : String) : String := targetDid ++ ":" ++ messageId

namespace ReceiptStorage

def storePendingReceipt (s : ReceiptStorage) (f : Faults) (targetDid : Did) (receipt : ReadReceipt) :
    Except MsgError Unit × ReceiptStorage :=
  let w := treeInsert f "pending_receipts" (pendingReceiptKey targetDid receipt.messageId) receipt s.pendingReceipts
  (w.1, { s with pendingReceipts := w.2 })

/-- Each entry is removed as it is read; a removal that fails ends the drain with an error. -/
def drainPendingReceipts (s : ReceiptStorage) (f : Faults) (targetDid : Did) :
    Except MsgError (List ReadReceipt) × ReceiptStorage :=
  let entries := scanPrefix (targetDid ++ ":") s.pendingReceipts
  let w := treeRemoveAll f "pending_receipts" (entries.map (·.1)) s.pendingReceipts
  (w.1.map fun _ => entries.map (·.2), { s with pendingReceipts := w.2 })

end ReceiptStorage

/-- `onTheWay` is what a flush has drained and what the API sends itself, up to the outcome of the send; `queued` and
`sent` record which receipts were put in the queue, and which reached their peer. -/
structure ReceiptOutbox where
  storage : ReceiptStorage
  onTheWay : List (Did × ReadReceipt)
  queued : List (Did × ReadReceipt)
  sent : List (Did × ReadReceipt)

namespace ReceiptOutbox

def new : ReceiptOutbox := ⟨.empty, [], [], []⟩

/-- `store_pending_receipt`; a failure is only logged. -/
def queue (s : ReceiptOutbox) (f : Faults) (targetDid : Did) (receipt : ReadReceipt) : ReceiptOutbox :=
  match s.storage.storePendingReceipt f targetDid receipt with
  | (.error _, storage) => { s with storage }
  | (.ok (), storage) => { s with storage, queued := s.queued ++ [(targetDid, receipt)] }

/-- The flush in `handle_peer_connected`: what is drained is handed to `send_receipt`, one after the other. -/
def flush (s : ReceiptOutbox) (f : Faults) (did : Did) : ReceiptOutbox :=
  match s.storage.drainPendingReceipts f did with
  | (.error _, storage) => { s with storage }
  | (.ok receipts, storage) => { s with storage, onTheWay := s.onTheWay ++ receipts.map fun r => (did, r) }

/-- The node gets a receipt to its peer, or does not: the command channel is closed, the peer unknown, the request
fails. Either way nobody hears of it. -/
def outcome (s : ReceiptOutbox) (i : ℕ) (delivered : Bool) : ReceiptOutbox :=
  match s.onTheWay[i]? with
  | none => s
  | some entry =>
    { s with onTheWay := s.onTheWay.eraseIdx i, sent := if delivered then s.sent ++ [entry] else s.sent }

end ReceiptOutbox

/-- `attempt` is the API's own send, after it has queued. -/
inductive OutboxStep
  | queue (f : Faults) (targetDid : Did) (receipt : ReadReceipt)
  | attempt (targetDid : Did) (receipt : ReadReceipt)
  | flush (f : Faults) (did : Did)
  | outcome (i : ℕ) (delivered : Bool)
  | stop

namespace ReceiptOutbox

def step (s : ReceiptOutbox) : OutboxStep → ReceiptOutbox
  | .queue f targetDid receipt => s.queue f targetDid receipt
  | .attempt targetDid receipt => { s with onTheWay := s.onTheWay ++ [(targetDid, receipt)] }
  | .flush f did => s.flush f did
  | .outcome i delivered => s.outcome i delivered
  | .stop => { s with onTheWay := [] }

end ReceiptOutbox

def outboxSys : StepSystem.Sys ReceiptOutbox OutboxStep where
  init s := s = .new
  step := ReceiptOutbox.step

/-- The same receipt, or one for the same message with a higher status. -/
def ReadReceipt.Covers (r' r : ReadReceipt) : Prop :=
  r' = r ∨ (r'.messageId = r.messageId ∧ r.status < r'.status)

namespace ReceiptOutbox

/-- Still in the queue, for that peer. -/
def Waiting (s : ReceiptOutbox) (targetDid : Did) (r : ReadReceipt) : Prop :=
  s.storage.pendingReceipts[pendingReceiptKey targetDid r.messageId]? = some r

/-- On its way to the peer, or sent. -/
def Away (s : ReceiptOutbox) (targetDid : Did) (r : ReadReceipt) : Prop :=
  (targetDid, r) ∈ s.onTheWay ∨ (targetDid, r) ∈ s.sent

/-- The receipt, or one that supersedes it, is sent, on its way or still in the queue. -/
def Safe (s : ReceiptOutbox) (targetDid : Did) (r : ReadReceipt) : Prop :=
  ∃ r', r'.Covers r ∧ (s.Waiting targetDid r' ∨ s.Away targetDid r')

def Unlost (s : ReceiptOutbox) : Prop := ∀ targetDid r, (targetDid, r) ∈ s.queued → s.Safe targetDid r

/-- No read receipt in the queue has a delivered one for its message put in its place. -/
def Undowngraded (s s' : ReceiptOutbox) : Prop :=
  ∀ (k : String) old r, s.storage.pendingReceipts[k]? = some old → s'.storage.pendingReceipts[k]? = some r →
    old.messageId = r.messageId → old.status = receiptRead → r.status ≠ receiptDelivered

def Kept (s : ReceiptOutbox) (e : OutboxStep) : Prop := (s.step e).Unlost ∧ s.Undowngraded (s.step e)

/-- Even without the queue. -/
def SafeAway (s : ReceiptOutbox) (targetDid : Did) (r : ReadReceipt) : Prop :=
  ∃ r', r'.Covers r ∧ s.Away targetDid r'

/-- The keys that a flush removes. -/
def drained (s : ReceiptOutbox) (f : Faults) (did : Did) : List String :=
  ((scanPrefix (did ++ ":") s.storage.pendingReceipts).map (·.1)).takeWhile fun k => f "pending_receipts" k = false

/-- What a step takes from its place is safe without it. A receipt is queued in the place of the same one, of one that
it supersedes, or of one that is on its way or sent, and no delivered one in the place of a read one; a flush removes
all that it reads, for the peer that it was queued for, or what is on its way or sent anyway; and a send that fails
and a stop lose only what is safe otherwise. -/
def Careful (s : ReceiptOutbox) : OutboxStep → Prop
  | .queue f targetDid r =>
    f "pending_receipts" (pendingReceiptKey targetDid r.messageId) = false →
      ∀ old, s.storage.pendingReceipts[pendingReceiptKey targetDid r.messageId]? = some old →
        (old.messageId = r.messageId → old.status = receiptRead → r.status ≠ receiptDelivered) ∧
        ∀ did, (did, old) ∈ s.queued → pendingReceiptKey did old.messageId = pendingReceiptKey targetDid r.messageId →
          r.Covers old ∨ s.SafeAway did old
  | .attempt _ _ => True
  | .flush f did => ∀ targetDid r, (targetDid, r) ∈ s.queued → s.Waiting targetDid r →
      pendingReceiptKey targetDid r.messageId ∈ s.drained f did →
      (targetDid = did ∧ ∀ e ∈ scanPrefix (did ++ ":") s.storage.pendingReceipts, f "pending_receipts" e.1 = false) ∨
        s.SafeAway targetDid r
  | .outcome i delivered => delivered = false → ∀ targetDid r, s.onTheWay[i]? = some (targetDid, r) →
      ∀ r0, (targetDid, r0) ∈ s.queued → r.Covers r0 →
        ({ s with onTheWay := s.onTheWay.eraseIdx i } : ReceiptOutbox).Safe targetDid r0
  | .stop => ∀ targetDid r, (targetDid, r) ∈ s.onTheWay → ∀ r0, (targetDid, r0) ∈ s.queued → r.Covers r0 →
      ({ s with onTheWay := [] } : ReceiptOutbox).Safe targetDid r0

end ReceiptOutbox

end Variance
