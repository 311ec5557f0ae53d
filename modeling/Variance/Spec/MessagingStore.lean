import Variance.Lib.InsertionMap
import Variance.Lib.Run
import Variance.Lib.Text

/-! Who is shown as typing: the part of the frontend's `messagingStore` that is about it, with the timeouts that are
pending. How long one waits is left out: each may fire at any time. -/

namespace Variance

inductive ActiveConversation
  | dm (peerId : String)
  | group (groupId : String)

/-- The key under which its indicators are kept: the `recipient` that `setTyping` is given. -/
def ActiveConversation.key : ActiveConversation → String
  | .dm peerId => peerId
  | .group groupId => "group:" ++ groupId

/-- What the callback of a timeout closes over. -/
structure TypingPair where
  recipient : String
  sender : String
deriving DecidableEq

/-- "{recipient}::{from}". -/
def TypingPair.timerKey (p : TypingPair) : String := p.recipient ++ "::" ++ p.sender

structure MessagingStore where
  activeConversation : Option ActiveConversation
  typingUsers : InsertionMap String (Finset String)
  typingExpireTimers : InsertionMap String ℕ
  /-- The timeouts that are pending. -/
  timeouts : InsertionMap ℕ TypingPair
  nextTimer : ℕ

namespace MessagingStore

def new : MessagingStore := ⟨none, ∅, ∅, ∅, 1⟩

/-- The two `set`s that put a sender into a conversation's set or take it out. -/
def mark (typingUsers : InsertionMap String (Finset String)) (p : TypingPair) (isTyping : Bool) :
    InsertionMap String (Finset String) :=
  let current := (typingUsers.get p.recipient).getD ∅
  let current := if isTyping then insert p.sender current else current.erase p.sender
  if current.card = 0 then typingUsers.delete p.recipient else typingUsers.set p.recipient current

/-- `clearTimeout` and `typingExpireTimers.delete`. -/
def clear (s : MessagingStore) (timerKey : String) (timer : ℕ) : MessagingStore :=
  { s with timeouts := s.timeouts.delete timer, typingExpireTimers := s.typingExpireTimers.delete timerKey }

def cancel (s : MessagingStore) (timerKey : String) : MessagingStore :=
  match s.typingExpireTimers.get timerKey with
  | none => s
  | some existing => s.clear timerKey existing

def schedule (s : MessagingStore) (p : TypingPair) : MessagingStore :=
  { s with
    timeouts := s.timeouts.set s.nextTimer p
    typingExpireTimers := s.typingExpireTimers.set p.timerKey s.nextTimer
    nextTimer := s.nextTimer + 1 }

def setTyping (s : MessagingStore) (p : TypingPair) (isTyping : Bool) : MessagingStore :=
  let s := s.cancel p.timerKey
  let s := if isTyping then s.schedule p else s
  { s with typingUsers := mark s.typingUsers p isTyping }

/-- The loop over the timers. -/
def clearPrefixed (s : MessagingStore) (oldKey : String) (timers : List (String × ℕ)) : MessagingStore :=
  timers.foldl (fun s e => if Text.HasPrefix (oldKey ++ "::") e.1 then s.clear e.1 e.2 else s) s

def setActiveConversation (s : MessagingStore) (activeConversation : Option ActiveConversation) : MessagingStore :=
  match s.activeConversation with
  | none => { s with activeConversation }
  | some old =>
    { s.clearPrefixed old.key s.typingExpireTimers.entries with
      activeConversation, typingUsers := s.typingUsers.delete old.key }

/-- The callback of a timeout. -/
def expire (s : MessagingStore) (timer : ℕ) : MessagingStore :=
  match s.timeouts.get timer with
  | none => s
  | some p =>
    { s with
      timeouts := s.timeouts.delete timer
      typingExpireTimers := s.typingExpireTimers.delete p.timerKey
      typingUsers := mark s.typingUsers p false }

end MessagingStore

inductive TypingStoreEvent
  | setTyping (p : TypingPair) (isTyping : Bool)
  | setActiveConversation (activeConversation : Option ActiveConversation)
  | expire (timer : ℕ)

namespace MessagingStore

def step (s : MessagingStore) : TypingStoreEvent → MessagingStore
  | .setTyping p isTyping => s.setTyping p isTyping
  | .setActiveConversation activeConversation => s.setActiveConversation activeConversation
  | .expire timer => s.expire timer

/-- The sender is in `typingUsers[recipient]`. -/
def Shows (s : MessagingStore) (p : TypingPair) : Prop := p.sender ∈ (s.typingUsers.get p.recipient).getD ∅

/-- Nobody is shown as typing whose indicator will not go, and none goes twice. -/
structure Expiring (s : MessagingStore) : Prop where
  shown : ∀ p, s.Shows p ↔ ∃ t, s.timeouts.get t = some p
  single : ∀ p t t', s.timeouts.get t = some p → s.timeouts.get t' = some p → t = t'

/-- What an event should do. A conversation that is left takes its own indicators and timeouts with it. -/
structure Unstuck (s : MessagingStore) (e : TypingStoreEvent) : Prop where
  expiring : (s.step e).Expiring
  leaves : ∀ activeConversation, e = .setActiveConversation activeConversation → ∀ p,
    ((s.step e).Shows p ↔ s.Shows p ∧ ∀ old ∈ s.activeConversation, p.recipient ≠ old.key) ∧
    ∀ t, (s.step e).timeouts.get t = some p ↔
      s.timeouts.get t = some p ∧ ∀ old ∈ s.activeConversation, p.recipient ≠ old.key

/-- The condition, on what is pending when the event comes: no other pair has the key of the one that is set, and no
other conversation a key that begins with that of the one that is left. -/
def Careful (s : MessagingStore) : TypingStoreEvent → Prop
  | .setTyping p _ => ∀ e ∈ s.timeouts.entries, e.2.timerKey = p.timerKey → e.2 = p
  | .setActiveConversation _ => ∀ old ∈ s.activeConversation, ∀ e ∈ s.timeouts.entries,
      Text.HasPrefix (old.key ++ "::") e.2.timerKey → e.2.recipient = old.key
  | .expire _ => True

instance (s : MessagingStore) : ∀ e, Decidable (s.Careful e)
  | .setTyping _ _ => inferInstanceAs (Decidable (∀ e ∈ s.timeouts.entries, _ → _))
  | .setActiveConversation _ =>
    inferInstanceAs (Decidable (∀ old ∈ s.activeConversation, ∀ e ∈ s.timeouts.entries, _ → _))
  | .expire _ => inferInstanceAs (Decidable True)

end MessagingStore

/-- From a page that was just loaded on. -/
def typingStoreSys : StepSystem.Sys MessagingStore TypingStoreEvent where
  init s := s = .new
  step := MessagingStore.step

end Variance
