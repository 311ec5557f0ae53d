import Variance.Lib.InsertionMap
import Variance.Lib.Run
import Variance.Spec.History
import Variance.Spec.Types

/-! A conversation as it is shown, `MessageView` and `GroupView`: the newest page of its history, which is fetched anew
at times, and the older pages that were loaded by scrolling up. -/

namespace Variance

/-- What the server answers for a stored message. A timestamp is taken to be exact as a number of the frontend. -/
structure ViewMessage where
  id : String
  timestamp : ℤ
  /-- `metadata?.type`. -/
  type : Option String
deriving DecidableEq

structure HistoryKind where
  pageSize : ℕ
  /-- How many messages the server answers with that is not given a limit. -/
  serverLimit : ℕ
  /-- The types of messages whose timestamp is no cursor. -/
  passedOver : List String
  pageSize_pos : 0 < pageSize
  pageSize_le : pageSize ≤ serverLimit

namespace HistoryKind

def direct : HistoryKind := ⟨50, 1024, ["reaction"], by decide, by decide⟩

def group : HistoryKind := ⟨50, 50, ["reaction", "role_change"], by decide, by decide⟩

def Ordinary (k : HistoryKind) (m : ViewMessage) : Prop := ∀ t ∈ k.passedOver, m.type ≠ some t

instance (k : HistoryKind) (m : ViewMessage) : Decidable (k.Ordinary m) :=
  inferInstanceAs (Decidable (∀ t ∈ k.passedOver, _))

end HistoryKind

/-- `filter((msg, i, arr) => arr.findIndex((m) => m.id === msg.id) === i)`. -/
def uniqueIds : List ViewMessage → List ViewMessage
  | [] => []
  | m :: ms => m :: (uniqueIds ms).filter fun m' => m'.id ≠ m.id

structure HistoryView where
  kind : HistoryKind
  /-- What the keys of the conversation's messages begin with. -/
  pre : String
  store : SledTree ViewMessage
  messages : List ViewMessage
  olderMessages : List ViewMessage
  hasMore : Bool
  /-- The cursor with which `loadOlder` awaits a page. -/
  loadingOlder : Option ℤ
  /-- What has been stored since the newest page was fetched. -/
  arrived : List ViewMessage

namespace HistoryView

/-- `{prefix}{timestamp:020}:{id}`. -/
def keyOf (v : HistoryView) (m : ViewMessage) : String := v.pre ++ pad20 m.timestamp ++ ":" ++ m.id

def history (v : HistoryView) : List ViewMessage := (scanPrefix v.pre v.store).map (·.2)

def fetch (v : HistoryView) (limit : ℕ) (before : Option ℤ) : List ViewMessage :=
  LocalMessageStorage.pageBefore (·.timestamp) v.pre v.store limit before

def allMessages (v : HistoryView) : List ViewMessage :=
  (uniqueIds (v.olderMessages ++ v.messages)).mergeSort fun a b => a.timestamp ≤ b.timestamp

/-- `oldestTimestamp`. -/
def cursor (v : HistoryView) : Option ℤ := (v.allMessages.find? fun m => v.kind.Ordinary m).map (·.timestamp)

def newestPage (v : HistoryView) : List ViewMessage := v.fetch v.kind.pageSize none

def refetch (v : HistoryView) : HistoryView := { v with messages := v.newestPage, arrived := [] }

/-- A view that has fetched its first page. -/
def opened (kind : HistoryKind) (pre : String) (store : SledTree ViewMessage) : HistoryView :=
  refetch ⟨kind, pre, store, [], [], true, none, []⟩

def arrive (v : HistoryView) (m : ViewMessage) : HistoryView :=
  { v with store := v.store.insert (v.keyOf m) m, arrived := v.arrived ++ [m] }

/-- `loadOlder` up to its request. -/
def request (v : HistoryView) : HistoryView :=
  if v.loadingOlder.isSome ∨ v.hasMore = false then v
  else match v.cursor with
    | none => v
    | some oldestTimestamp => { v with loadingOlder := some oldestTimestamp }

/-- And from the answer on. -/
def respond (v : HistoryView) : HistoryView :=
  match v.loadingOlder with
  | none => v
  | some oldestTimestamp =>
    let page := v.fetch v.kind.serverLimit (some oldestTimestamp)
    let v := { v with loadingOlder := none }
    if page = [] then { v with hasMore := false }
    else { v with
      hasMore := v.hasMore && decide (v.kind.pageSize ≤ page.length)
      olderMessages := uniqueIds (page ++ v.olderMessages) }

def loadOlder (v : HistoryView) : HistoryView := v.request.respond

end HistoryView

inductive HistoryEvent
  | refetch
  | arrive (m : ViewMessage)
  | request
  | respond
  /-- There is no answer. -/
  | fail

namespace HistoryView

def step (v : HistoryView) : HistoryEvent → HistoryView
  | .refetch => v.refetch
  | .arrive m => v.arrive m
  | .request => v.request
  | .respond => v.respond
  | .fail => { v with loadingOlder := none }

/-- Shown, or to be shown when the newest page is fetched again. -/
def Accounted (v : HistoryView) (m : ViewMessage) : Prop := m ∈ v.allMessages ∨ m ∈ v.arrived

instance (v : HistoryView) (m : ViewMessage) : Decidable (v.Accounted m) := inferInstanceAs (Decidable (_ ∨ _))

def Whole (v : HistoryView) : Prop := ∀ m ∈ v.history, v.Accounted m

instance (v : HistoryView) : Decidable v.Whole := inferInstanceAs (Decidable (∀ m ∈ v.history, _))

/-- No holes: what is shown is what is stored from some message on, but for what has arrived since the newest page was
fetched, and each once; there is no more only when that is everything; and loading on gets there. -/
structure Sound (v : HistoryView) : Prop where
  stored : ∀ m ∈ v.allMessages, m ∈ v.history
  unique : (v.allMessages.map (·.id)).Nodup
  suffix : ∀ m ∈ v.allMessages, ∀ m' ∈ v.history, v.keyOf m < v.keyOf m' → v.Accounted m'
  complete : v.hasMore = false → v.Whole
  reaches : ∃ n, (loadOlder^[n] v).Whole

/-! The condition -/

/-- Every message lies under its own key, and no two have one id. -/
structure Filed (v : HistoryView) : Prop where
  key : ∀ e ∈ scanPrefix v.pre v.store, e.1 = v.keyOf e.2
  ids : (v.history.map (·.id)).Nodup

/-- If there is more than one page: in the order of the keys the timestamps do not fall, and a message that may give
the cursor is later than all before it. -/
def Timed (v : HistoryView) : Prop := v.kind.pageSize < v.history.length →
  ∀ a ∈ v.history, ∀ b ∈ v.history, v.keyOf a < v.keyOf b →
    a.timestamp ≤ b.timestamp ∧ (v.kind.Ordinary b → a.timestamp < b.timestamp)

/-- Nothing is missing, or a message is shown that gives the cursor, and of those before it each page that does not
have the very first gives the next. -/
def Passable (v : HistoryView) : Prop :=
  v.Whole ∨ ∃ t ∈ v.cursor, ∀ front page back,
    v.history.filter (fun m => m.timestamp < t) = front ++ page ++ back → page.length = v.kind.serverLimit →
      front ≠ [] → ∃ m ∈ page, v.kind.Ordinary m

structure Fit (v : HistoryView) : Prop where
  filed : v.Filed
  timed : v.Timed
  passable : v.Passable

/-- A message that arrives is a new one and leaves the history so. The newest page is fetched again when nothing older
has been asked for, or when nothing that it is to join falls out of it. -/
def Careful (v : HistoryView) : HistoryEvent → Prop
  | .arrive m => (∀ m' ∈ v.history, m'.id ≠ m.id ∧ v.keyOf m' ≠ v.keyOf m) ∧ (v.arrive m).Timed ∧ (v.arrive m).Passable
  | .refetch =>
    (v.olderMessages ≠ [] ∨ v.hasMore = false ∨ v.loadingOlder.isSome →
      ∀ m ∈ v.messages, m ∈ v.olderMessages ∨ m ∈ v.newestPage) ∧
    (∀ m ∈ v.arrived, v.hasMore = false ∨ (∃ a ∈ v.olderMessages, v.keyOf a < v.keyOf m) ∨
      (∃ t ∈ v.loadingOlder, t ≤ m.timestamp) → m ∈ v.olderMessages ∨ m ∈ v.newestPage) ∧
    v.refetch.Passable
  | .request | .respond | .fail => True

end HistoryView

/-- From a view that is opened on a store. -/
def historyViewSys (P : HistoryView → Prop) : StepSystem.Sys HistoryView HistoryEvent where
  init v := (∃ kind pre store, v = .opened kind pre store ∧ (kind = .direct ∨ kind = .group)) ∧ P v
  step := HistoryView.step

end Variance

/-! The reaction counts of the two message views (`app/src/components/messages/MessageView.tsx`, `GroupView.tsx`). -/

namespace Variance

/-- A message, as far as reactions go. -/
structure ReactionMessage where
  senderDid : Did
  timestamp : ℤ
  metadata : Option (InsertionMap String String)

structure ReactionSummary where
  emoji : String
  count : ℤ
  reactedByMe : Bool
deriving DecidableEq

namespace ReactionMessage

/-- A field that is there and not empty. -/
def field (msg : ReactionMessage) (name : String) : Option String :=
  (msg.metadata.bind fun entries => entries.get name).filter fun value => value ≠ ""

end ReactionMessage

/-- For each target and emoji the action that was last taken of each reactor. -/
abbrev ReactionTable := InsertionMap String (InsertionMap String (InsertionMap Did String))

/-- The first loop. -/
def ReactionTable.note (byMessage : ReactionTable) (msg : ReactionMessage) : ReactionTable :=
  match msg.field "message_id", msg.field "emoji", msg.field "action" with
  | some targetId, some emoji, some action =>
    let byEmoji := (byMessage.get targetId).getD ∅
    let reactors := (byEmoji.get emoji).getD ∅
    byMessage.set targetId (byEmoji.set emoji (reactors.set msg.senderDid action))
  | _, _, _ => byMessage

/-- `Array.sort` is stable. -/
def ReactionTable.ofMessages (reactionMsgs : List ReactionMessage) : ReactionTable :=
  (reactionMsgs.mergeSort fun a b => a.timestamp ≤ b.timestamp).foldl ReactionTable.note ∅

/-- The second loop, up to what is done to a count. -/
def ReactionTable.summarise (byMessage : ReactionTable) (safe : ℤ → ℤ) (localDid : Option Did) :
    InsertionMap String (List ReactionSummary) :=
  byMessage.filterMap fun _ byEmoji =>
    let summaries := byEmoji.entries.filterMap fun e =>
      let count := (e.2.entries.filter fun r => r.2 = "add").length
      let reactedByMe := e.2.entries.any fun r => r.2 = "add" && some r.1 = localDid
      if 0 < safe count then some ⟨e.1, safe count, reactedByMe⟩ else none
    if summaries = [] then none else some summaries

/-- `MessageView.tsx`. -/
def aggregateReactions (reactionMsgs : List ReactionMessage) (localDid : Option Did) :
    InsertionMap String (List ReactionSummary) :=
  (ReactionTable.ofMessages reactionMsgs).summarise (max 0) localDid

/-- `GroupView.tsx`. -/
def aggregateGroupReactions (reactionMsgs : List ReactionMessage) (localDid : Option Did) :
    InsertionMap String (List ReactionSummary) :=
  (ReactionTable.ofMessages reactionMsgs).summarise id localDid

/-! What is shown under a message -/

def summaryOf (result : InsertionMap String (List ReactionSummary)) (targetId emoji : String) :
    Option ReactionSummary :=
  (result.get targetId).bind fun summaries => summaries.find? fun s => s.emoji = emoji

def countOf (result : InsertionMap String (List ReactionSummary)) (targetId emoji : String) : ℤ :=
  ((summaryOf result targetId emoji).map (·.count)).getD 0

def mineOf (result : InsertionMap String (List ReactionSummary)) (targetId emoji : String) : Bool :=
  ((summaryOf result targetId emoji).map (·.reactedByMe)).getD false

/-! What it is to say -/

/-- What the message does with an emoji on a target, if it is the sender's. -/
def ReactionMessage.actionOn (msg : ReactionMessage) (targetId emoji : String) (did : Did) : Option String :=
  if msg.field "message_id" = some targetId ∧ msg.field "emoji" = some emoji ∧ msg.senderDid = did then
    msg.field "action"
  else none

/-- No later action of the sender on the emoji is among the messages. -/
def Latest (msgs : List ReactionMessage) (targetId emoji : String) (did : Did) (action : String) : Prop :=
  ∃ m ∈ msgs, m.actionOn targetId emoji did = some action ∧
    ∀ m' ∈ msgs, m'.actionOn targetId emoji did ≠ none → m'.timestamp ≤ m.timestamp

instance {msgs : List ReactionMessage} {targetId emoji : String} {did : Did} {action : String} :
    Decidable (Latest msgs targetId emoji did action) := by
  unfold Latest
  infer_instance

def adders (msgs : List ReactionMessage) (targetId emoji : String) : Finset Did :=
  (msgs.map (·.senderDid)).toFinset.filter fun did => Latest msgs targetId emoji did "add"

/-- The counts and flags are the same in whatever order the messages are listed, and in both views; a count is how many
senders' latest action is to add; and the flag says whether the local user is one of them. -/
structure CountsReactions (msgs : List ReactionMessage) (localDid : Option Did) : Prop where
  order : ∀ l, l.Perm msgs → ∀ targetId emoji,
    countOf (aggregateReactions l localDid) targetId emoji =
        countOf (aggregateReactions msgs localDid) targetId emoji ∧
      mineOf (aggregateReactions l localDid) targetId emoji = mineOf (aggregateReactions msgs localDid) targetId emoji
  count : ∀ targetId emoji,
    countOf (aggregateReactions msgs localDid) targetId emoji = (adders msgs targetId emoji).card
  mine : ∀ targetId emoji, mineOf (aggregateReactions msgs localDid) targetId emoji = true ↔
    ∃ did, localDid = some did ∧ did ∈ adders msgs targetId emoji
  same : ∀ l, l.Perm msgs → aggregateGroupReactions l localDid = aggregateReactions l localDid

/-- Of the latest actions of a sender on an emoji, which have one timestamp, all are to add, or none. -/
def Untied (msgs : List ReactionMessage) : Prop :=
  ∀ targetId emoji did action, Latest msgs targetId emoji did "add" → Latest msgs targetId emoji did action →
    action = "add"

end Variance
