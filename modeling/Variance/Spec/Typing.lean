import Variance.Lib.Run
import Variance.Lib.Text
import Variance.Spec.Types

/-! Who is typing: `variance-messaging/src/typing.rs`, the indicators that the swarm loop and the event router hand on,
and the query of the API. Here each call is one step; the steps of a call are those of `TypingRace`. -/

namespace Variance

/-- The `oneof` of a `TypingIndicator`. -/
inductive TypingRecipient
  | recipientDid (did : Did)
  | groupId (groupId : String)
deriving DecidableEq

structure TypingIndicator where
  senderDid : Did
  recipient : Option TypingRecipient
  isTyping : Bool
  timestamp : ℤ

structure TypingHandler where
  localDid : Did
  /-- Under a DID or `group:{group_id}`: who, and since when. -/
  typingStates : SledTree (List (Did × ℤ))
  timeoutMs : ℤ

def groupTypingKey (groupId : String) : String := "group:" ++ groupId

def TypingRecipient.key : TypingRecipient → String
  | .recipientDid did => did
  | .groupId id => groupTypingKey id

/-- `strip_prefix("group:")`. -/
def groupOfRecipient (recipient : String) : Option String :=
  if Text.HasPrefix "group:" recipient then some (String.ofList (recipient.toList.drop 6)) else none

namespace TypingHandler

def new (localDid : Did) : TypingHandler := ⟨localDid, ∅, 5000⟩

def withTimeout (localDid : Did) (timeoutMs : ℤ) : TypingHandler := ⟨localDid, ∅, timeoutMs⟩

/-- An entry without anybody in it goes. -/
def putEntry (t : TypingHandler) (key : String) (entry : List (Did × ℤ)) : TypingHandler :=
  { t with typingStates := if entry = [] then t.typingStates.erase key else t.typingStates.insert key entry }

def cleanupExpired (t : TypingHandler) (key : String) (now : ℤ) : TypingHandler :=
  match t.typingStates[key]? with
  | none => t
  | some entry => t.putEntry key (entry.filter fun x => now - x.2 < t.timeoutMs)

def receiveIndicator (t : TypingHandler) (indicator : TypingIndicator) (now : ℤ) : TypingHandler :=
  match indicator.recipient with
  | none => t
  | some recipient =>
    let key := recipient.key
    let others (entry : List (Did × ℤ)) := entry.filter fun x => x.1 ≠ indicator.senderDid
    let t := if indicator.isTyping then
        let entry := others (t.typingStates[key]?.getD []) ++ [(indicator.senderDid, indicator.timestamp)]
        { t with typingStates := t.typingStates.insert key entry }
      else match t.typingStates[key]? with
        | some entry => t.putEntry key (others entry)
        | none => t
    t.cleanupExpired key now

/-- `get_typing_users_direct`, and `get_typing_users_group` under the group's key. -/
def getTypingUsersAt (t : TypingHandler) (key : String) (now : ℤ) : List Did × TypingHandler :=
  let t := t.cleanupExpired key now
  (((t.typingStates[key]?).map fun entry => entry.map (·.1)).getD [], t)

def getTypingUsersDirect (t : TypingHandler) (peerDid : Did) (now : ℤ) : List Did × TypingHandler :=
  t.getTypingUsersAt peerDid now

def getTypingUsersGroup (t : TypingHandler) (groupId : String) (now : ℤ) : List Did × TypingHandler :=
  t.getTypingUsersAt (groupTypingKey groupId) now

def cleanupAllExpired (t : TypingHandler) (now : ℤ) : TypingHandler :=
  t.typingStates.keys.foldl (fun t key => t.cleanupExpired key now) t

/-- The endpoint. -/
def getTypingUsers (t : TypingHandler) (recipient : String) (now : ℤ) : List Did × TypingHandler :=
  match groupOfRecipient recipient with
  | some groupId => t.getTypingUsersGroup groupId now
  | none => t.getTypingUsersDirect recipient now

end TypingHandler

/-- `TypingEvent::IndicatorReceived`. -/
structure TypingEvent where
  senderDid : Did
  recipient : String
  isTyping : Bool

/-- `handle_typing_indicator_event`, of a request within its rate limit; the sender's timestamp goes no further. -/
def TypingIndicator.received (i : TypingIndicator) : TypingEvent where
  senderDid := i.senderDid
  recipient := match i.recipient with
    | some recipient => recipient.key
    | none => i.senderDid
  isTyping := i.isTyping

/-- The listener: only members count in a group. -/
def TypingHandler.routeTyping (t : TypingHandler) (members : String → List Did) (e : TypingEvent) (now : ℤ) :
    TypingHandler :=
  match groupOfRecipient e.recipient with
  | some groupId =>
    if e.senderDid ∈ members groupId then
      t.receiveIndicator ⟨e.senderDid, some (.groupId groupId), e.isTyping, now⟩ now
    else t
  | none => t.receiveIndicator ⟨e.senderDid, some (.recipientDid e.recipient), e.isTyping, now⟩ now

/-! Runs -/

/-- The local user, or a group. -/
inductive TypingAddress
  | direct
  | group (groupId : String)
deriving DecidableEq

/-- A start or a stop, and when. -/
structure LastTyping where
  isTyping : Bool
  time : ℤ

/-- The handler, the clock and the groups' members, with the last indicator that was received from a sender, and the
last that was not dropped. -/
structure TypingWorld where
  handler : TypingHandler
  now : ℤ
  members : String → List Did
  last : TypingAddress → Did → Option LastTyping
  taken : TypingAddress → Did → Option LastTyping

inductive TypingStep
  | indicator (senderDid : Did) (address : TypingAddress) (isTyping : Bool) (timestamp : ℤ)
  | query (recipient : String)
  | cleanupAllExpired
  | members (groupId : String) (dids : List Did)
  | advance (elapsed : ℕ)

namespace TypingWorld

def recipient (w : TypingWorld) : TypingAddress → TypingRecipient
  | .direct => .recipientDid w.handler.localDid
  | .group groupId => .groupId groupId

/-- The sender's last word to the address. -/
def note (last : TypingAddress → Did → Option LastTyping) (address : TypingAddress) (did : Did) (x : LastTyping) :
    TypingAddress → Did → Option LastTyping :=
  fun a d => if a = address ∧ d = did then some x else last a d

/-- An indicator of somebody outside the group is dropped. -/
def Drops (w : TypingWorld) (senderDid : Did) : TypingAddress → Prop
  | .direct => False
  | .group groupId => senderDid ∉ w.members groupId

instance (w : TypingWorld) (senderDid : Did) : (a : TypingAddress) → Decidable (w.Drops senderDid a)
  | .direct => inferInstanceAs (Decidable False)
  | .group groupId => inferInstanceAs (Decidable (senderDid ∉ w.members groupId))

def next (w : TypingWorld) : TypingStep → TypingWorld
  | .indicator senderDid address isTyping timestamp =>
    let i : TypingIndicator := ⟨senderDid, some (w.recipient address), isTyping, timestamp⟩
    { w with
      handler := w.handler.routeTyping w.members i.received w.now
      last := note w.last address senderDid ⟨isTyping, w.now⟩
      taken := if w.Drops senderDid address then w.taken else note w.taken address senderDid ⟨isTyping, w.now⟩ }
  | .query recipient => { w with handler := (w.handler.getTypingUsers recipient w.now).2 }
  | .cleanupAllExpired => { w with handler := w.handler.cleanupAllExpired w.now }
  | .members groupId dids => { w with members := Function.update w.members groupId dids }
  | .advance elapsed => { w with now := w.now + elapsed }

/-- A start within the timeout. -/
def Live (w : TypingWorld) (x : Option LastTyping) : Prop :=
  ∃ l, x = some l ∧ l.isTyping = true ∧ w.now - l.time < w.handler.timeoutMs

def users (w : TypingWorld) (recipient : String) : List Did := (w.handler.getTypingUsers recipient w.now).1

/-- What the endpoint says of a peer, and of a group. -/
structure TypingRight (w : TypingWorld) : Prop where
  direct : ∀ peer, ¬ Text.HasPrefix "group:" peer →
    (peer ∈ w.users peer ↔ w.Live (w.last .direct peer)) ∧ ∀ d ∈ w.users peer, d = peer
  group : ∀ groupId d, d ∈ w.users (groupTypingKey groupId) ↔
    d ∈ w.members groupId ∧ w.Live (w.last (.group groupId) d)

/-- The condition: nobody else is typing to the local user; and whose last indicator to a group that was not dropped is
a start within the timeout is still a member, and no indicator of a member has been dropped since. -/
structure NobodyTypes (w : TypingWorld) : Prop where
  direct : ∀ d, w.Live (w.last .direct d) → d = w.handler.localDid
  group : ∀ groupId d, w.Live (w.taken (.group groupId) d) ↔
    d ∈ w.members groupId ∧ w.Live (w.last (.group groupId) d)

end TypingWorld

/-- The local DID is no group's key. -/
def typingSys : StepSystem.Sys TypingWorld TypingStep where
  init w := w.handler.typingStates = ∅ ∧ ¬ Text.HasPrefix "group:" w.handler.localDid ∧
    (w.last = fun _ _ => none) ∧ w.taken = fun _ _ => none
  step := TypingWorld.next

/-! One entry of the typing map in many hands (`variance-messaging/src/typing.rs`): the receivers, the queries and the
cleanups of one key, one operation of the map at a time. -/

namespace TypingRace

/-- Whose cleanup it is. `standing`: of a start, that no stop of its sender has been received since it was entered. -/
inductive Call
  | start (indicator : Did × ℤ) (standing : Bool)
  | stop
  | query
  | cleanup
deriving DecidableEq

/-- The start that has been entered, if it stands. -/
def Call.entered? : Call → Option (Did × ℤ)
  | .start indicator true => some indicator
  | _ => none

/-- A stop of `senderDid` has been received. -/
def Call.stopped (senderDid : Did) : Call → Call
  | .start indicator standing => .start indicator (standing && decide (indicator.1 ≠ senderDid))
  | call => call

/-- What is done next. -/
inductive Task
  /-- `entry(key).or_default().retain(..)`. -/
  | startRetain (indicator : Did × ℤ)
  /-- `get_mut(&key).unwrap().push(..)`. -/
  | startPush (indicator : Did × ℤ)
  | stopRetain (senderDid : Did)
  /-- The entry was found empty, and its lock let go. -/
  | stopRemove
  /-- `cleanup_expired` reads the clock. -/
  | sample (call : Call)
  | expire (now : ℤ) (call : Call)
  /-- As in `stopRemove`. -/
  | remove (call : Call)
  | read
  | done
  | panicked
deriving DecidableEq

namespace Task

def call? : Task → Option Call
  | .sample call | .expire _ call | .remove call => some call
  | _ => none

def entered? (t : Task) : Option (Did × ℤ) := t.call?.bind Call.entered?

def stopped (senderDid : Did) : Task → Task
  | .sample call => .sample (call.stopped senderDid)
  | .expire now call => .expire now (call.stopped senderDid)
  | .remove call => .remove (call.stopped senderDid)
  | t => t

end Task
end TypingRace

open TypingRace in
structure TypingRace where
  timeoutMs : ℤ
  now : ℤ
  entry : Option (List (Did × ℤ))
  tasks : List Task
  /-- Of a sender, the latest start whose receipt was completed, unless a stop was received since. -/
  standing : Did → Option ℤ

namespace TypingRace

inductive Step
  | receiveIndicator (senderDid : Did) (isTyping : Bool) (timestamp : ℤ)
  | getTypingUsers
  | cleanupExpired
  | run (i : ℕ)
  | advance (elapsed : ℕ)

def set (s : TypingRace) (i : ℕ) (t : Task) : TypingRace := { s with tasks := s.tasks.set i t }

def spawn (s : TypingRace) (t : Task) : TypingRace := { s with tasks := s.tasks ++ [t] }

/-- The cleanup is over; a query goes on to read. -/
def finish (s : TypingRace) (i : ℕ) : Call → TypingRace
  | .start indicator standing =>
    let latest := match s.standing indicator.1 with
      | some t => max t indicator.2
      | none => indicator.2
    { s.set i .done with
      standing := if standing then Function.update s.standing indicator.1 (some latest) else s.standing }
  | .stop | .cleanup => s.set i .done
  | .query => s.set i .read

def withoutSender (entry : List (Did × ℤ)) (senderDid : Did) : List (Did × ℤ) :=
  entry.filter fun x => x.1 ≠ senderDid

/-- One operation. -/
def runTask (s : TypingRace) (i : ℕ) : Task → TypingRace
  | .startRetain x => { s.set i (.startPush x) with entry := some (withoutSender (s.entry.getD []) x.1) }
  | .startPush x =>
    match s.entry with
    | none => s.set i .panicked
    | some entry => { s.set i (.sample (.start x true)) with entry := some (entry ++ [x]) }
  | .stopRetain senderDid =>
    let s := { s with
      tasks := s.tasks.map (Task.stopped senderDid)
      standing := Function.update s.standing senderDid none }
    match s.entry with
    | none => s.set i (.sample .stop)
    | some entry =>
      let entry := withoutSender entry senderDid
      { s.set i (if entry = [] then .stopRemove else .sample .stop) with entry := some entry }
  | .stopRemove => { s.set i (.sample .stop) with entry := none }
  | .sample call => s.set i (.expire s.now call)
  | .expire now call =>
    match s.entry with
    | none => s.finish i call
    | some entry =>
      let entry := entry.filter fun x => now - x.2 < s.timeoutMs
      let s := { s with entry := some entry }
      if entry = [] then s.set i (.remove call) else s.finish i call
  | .remove call => { s.finish i call with entry := none }
  | .read => s.set i .done
  | .done | .panicked => s

def next (s : TypingRace) : Step → TypingRace
  | .receiveIndicator senderDid isTyping timestamp =>
    s.spawn (if isTyping then .startRetain (senderDid, timestamp) else .stopRetain senderDid)
  | .getTypingUsers => s.spawn (.sample .query)
  | .cleanupExpired => s.spawn (.sample .cleanup)
  | .run i => match s.tasks[i]? with
    | some t => s.runTask i t
    | none => s
  | .advance elapsed => { s with now := s.now + elapsed }

/-- What a query reads. -/
def users (s : TypingRace) : List Did := (s.entry.getD []).map (·.1)

/-- No `unwrap` of a missing entry, and whoever stands within the timeout is read. -/
def Right (s : TypingRace) : Step → Prop
  | .run i => match s.tasks[i]? with
    | some (.startPush _) => s.entry ≠ none
    | some .read => ∀ d time, s.standing d = some time → s.now - time < s.timeoutMs → d ∈ s.users
    | _ => True
  | _ => True

/-- A start that stands, its receipt completed or not. -/
def Entered (s : TypingRace) (d : Did) (time : ℤ) : Prop :=
  s.standing d = some time ∨ ∃ t ∈ s.tasks, t.entered? = some (d, time)

/-- The condition: when an entry is removed, whatever is in it has expired and no start is between its two operations;
when it is read, no start is there whose sender stands within the timeout; and the starts of a sender are entered in the
order of their times. -/
def Careful (s : TypingRace) : Step → Prop
  | .run i => match s.tasks[i]? with
    | some (.startRetain x) => ∀ time, s.Entered x.1 time → time ≤ x.2
    | some .stopRemove | some (.remove _) =>
      (∀ x ∈ s.entry.getD [], s.timeoutMs ≤ s.now - x.2) ∧ ∀ x, .startPush x ∉ s.tasks
    | some .read => ∀ x, .startPush x ∈ s.tasks → ∀ time, s.standing x.1 = some time → s.timeoutMs ≤ s.now - time
    | _ => True
  | _ => True

end TypingRace

/-- Nobody is typing, and nothing under way. -/
def typingRaceSys : StepSystem.Sys TypingRace TypingRace.Step where
  init s := s.entry = none ∧ s.tasks = [] ∧ s.standing = fun _ => none
  step := TypingRace.next

end Variance
