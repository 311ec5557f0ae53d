import Variance.Lib.Arrivals
import Variance.Spec.MessagingStore
import Variance.Spec.Storage

/-! The notifications of the desktop app (`hooks/useWebSocket.ts`): a burst of messages of a conversation is told of
once, with an id that is the conversation's until it is opened, and a click on the notification leads there. Permission
is asked for before each, so that several callbacks may wait for it at once. -/

namespace Variance

deriving instance DecidableEq for ActiveConversation

/-- The arguments of `notify`. -/
structure Notice where
  conversationKey : String
  body : String
  target : Option ActiveConversation
deriving DecidableEq

/-- The events of the socket that tell the user something. -/
inductive WsNotice
  | directMessageReceived (sender : Did) (senderName : String)
  | groupMessageReceived (groupId senderName : String)
  | offlineMessagesReceived
  | groupInvitationReceived (groupId inviterName groupName : String)

/-- What happens to notices, in order. -/
inductive NotifyEntry
  | called (time : ℕ) (n : Notice)
  /-- The timeout has come, and the permission is asked for. -/
  | asked (time : ℕ) (n : Notice)
  | sent (time id : ℕ) (n : Notice)
  /-- Out of the notification center, by the second timeout or by hand. -/
  | removed (id : ℕ)
  | cleared (conversationKey : String)
deriving DecidableEq

/-- The maps of the module, the timeouts that are pending with the times they are due at, the callbacks that wait for
the permission, and the notification center. -/
structure NotifyPage where
  notifyTimers : InsertionMap String ℕ
  notifyBodies : InsertionMap String String
  notifyIds : InsertionMap String ℕ
  notifyClearTimers : InsertionMap String ℕ
  notifyActionTargets : InsertionMap ℕ (Option ActiveConversation × String)
  pendingNavTarget : Option ActiveConversation
  pendingNavKey : Option String
  pendingNavAt : ℕ
  notifyIdCounter : ℕ
  timeouts : InsertionMap ℕ (ℕ × Notice)
  clearTimeouts : InsertionMap ℕ (ℕ × ℕ × String)
  nextTimer : ℕ
  asking : List Notice
  center : InsertionMap ℕ String
  now : ℕ
  localDid : Option Did
  activeConversation : Option ActiveConversation
  activeConversationRef : Option ActiveConversation
  unreadConversations : Finset String
  log : List NotifyEntry

namespace NotifyPage

def tell (p : NotifyPage) (e : NotifyEntry) : NotifyPage := { p with log := p.log ++ [e] }

def getNotifyId (p : NotifyPage) (key : String) : ℕ × NotifyPage :=
  match p.notifyIds.get key with
  | some id => (id, p)
  | none =>
    (p.notifyIdCounter,
      { p with notifyIds := p.notifyIds.set key p.notifyIdCounter, notifyIdCounter := p.notifyIdCounter + 1 })

/-- `removeActive`, and what `onAction` knew of the id. -/
def dropId (p : NotifyPage) (key : String) : NotifyPage :=
  match p.notifyIds.get key with
  | none => p
  | some id =>
    { p with
      center := p.center.delete id
      notifyActionTargets := p.notifyActionTargets.delete id
      notifyIds := p.notifyIds.delete key }

def dropClearTimer (p : NotifyPage) (key : String) : NotifyPage :=
  match p.notifyClearTimers.get key with
  | none => p
  | some timer =>
    { p with
      clearTimeouts := p.clearTimeouts.delete timer
      notifyClearTimers := p.notifyClearTimers.delete key }

def dropNav (p : NotifyPage) : NotifyPage :=
  { p with pendingNavTarget := none, pendingNavKey := none, pendingNavAt := 0 }

def clearConversationNotification (p : NotifyPage) (key : String) : NotifyPage :=
  let p := (p.dropId key).dropClearTimer key
  let p := if p.pendingNavKey = some key then p.dropNav else p
  p.tell (.cleared key)

def notify (p : NotifyPage) (n : Notice) : NotifyPage :=
  let p := { p with notifyBodies := p.notifyBodies.set n.conversationKey n.body }
  let p := match p.notifyTimers.get n.conversationKey with
    | none => p
    | some existing => { p with timeouts := p.timeouts.delete existing }
  { p with
    timeouts := p.timeouts.set p.nextTimer (p.now + 500, n)
    notifyTimers := p.notifyTimers.set n.conversationKey p.nextTimer
    nextTimer := p.nextTimer + 1 }.tell (.called p.now n)

/-- The callback of the first timeout, as far as the permission. -/
def debounced (p : NotifyPage) (timer : ℕ) : NotifyPage :=
  match p.timeouts.get timer with
  | none => p
  | some (due, n) =>
    if p.now < due then p
    else
      let latest := { n with body := (p.notifyBodies.get n.conversationKey).getD n.body }
      { p with
        timeouts := p.timeouts.delete timer
        notifyTimers := p.notifyTimers.delete n.conversationKey
        notifyBodies := p.notifyBodies.delete n.conversationKey
        asking := p.asking ++ [latest] }.tell (.asked p.now latest)

/-- The rest of it, once the permission is there. -/
def send (p : NotifyPage) (n : Notice) : NotifyPage :=
  let r := p.getNotifyId n.conversationKey
  let p := { r.2 with
    notifyActionTargets := r.2.notifyActionTargets.set r.1 (n.target, n.conversationKey)
    center := r.2.center.set r.1 n.body }
  let p := match n.target with
    | none => p
    | some target =>
      { p with pendingNavTarget := some target, pendingNavKey := some n.conversationKey, pendingNavAt := p.now }
  let p := match p.notifyClearTimers.get n.conversationKey with
    | none => p
    | some clearTimer => { p with clearTimeouts := p.clearTimeouts.delete clearTimer }
  { p with
    clearTimeouts := p.clearTimeouts.set p.nextTimer (p.now + 60000, r.1, n.conversationKey)
    notifyClearTimers := p.notifyClearTimers.set n.conversationKey p.nextTimer
    nextTimer := p.nextTimer + 1 }.tell (.sent p.now r.1 n)

/-- The permission is given to a callback, or refused. -/
def permission (p : NotifyPage) (i : ℕ) (granted : Bool) : NotifyPage :=
  match p.asking[i]? with
  | none => p
  | some n =>
    let p := { p with asking := p.asking.eraseIdx i }
    if granted then p.send n else p

/-- The callback of the second timeout. -/
def autoClear (p : NotifyPage) (timer : ℕ) : NotifyPage :=
  match p.clearTimeouts.get timer with
  | none => p
  | some (due, id, key) =>
    if p.now < due then p
    else
      { p with
        center := p.center.delete id
        clearTimeouts := p.clearTimeouts.delete timer
        notifyClearTimers := p.notifyClearTimers.delete key }.tell (.removed id)

/-- The user takes it away. -/
def dismiss (p : NotifyPage) (id : ℕ) : NotifyPage := { p with center := p.center.delete id }.tell (.removed id)

def setActiveConversation (p : NotifyPage) (activeConversation : Option ActiveConversation) : NotifyPage :=
  { p with activeConversation }

def markRead (p : NotifyPage) (key : String) : NotifyPage :=
  { p with unreadConversations := p.unreadConversations.erase key }

def markUnread (p : NotifyPage) (key : String) : NotifyPage :=
  { p with unreadConversations := insert key p.unreadConversations }

/-- The listener of `onAction`: the button of a notification, also of one that is gone. -/
def onAction (p : NotifyPage) (id : ℕ) : NotifyPage :=
  match p.notifyActionTargets.get id with
  | none => p
  | some (target, key) =>
    let p := match target with
      | none => p
      | some t => (p.setActiveConversation (some t)).markRead key
    p.clearConversationNotification key

/-- The listener of `onFocusChanged`. -/
def onFocusChanged (p : NotifyPage) (focused : Bool) : NotifyPage :=
  if !focused then p
  else match p.pendingNavTarget with
    | none => p
    | some target =>
      if p.now - p.pendingNavAt < 30000 then
        let p := p.setActiveConversation (some target)
        let p := match p.pendingNavKey with
          | none => p
          | some key => (p.markRead key).clearConversationNotification key
        p.dropNav
      else p

/-- The key that a conversation's notices have; the DIDs are sorted. -/
def conversationKey (localDid : Did) : ActiveConversation → String
  | .dm peerId => LocalMessageStorage.conversationId localDid peerId
  | .group groupId => groupId

/-- The effects that follow a change of the conversation that is open. -/
def rendered (p : NotifyPage) : NotifyPage :=
  let p := { p with activeConversationRef := p.activeConversation }
  match p.activeConversation, p.localDid with
  | some conversation, some localDid => p.clearConversationNotification (conversationKey localDid conversation)
  | _, _ => p

/-- The part of the socket's listener that is about notices. -/
def receive (p : NotifyPage) : WsNotice → NotifyPage
  | .directMessageReceived sender senderName =>
    match p.localDid with
    | none => p
    | some currentDid =>
      let key := LocalMessageStorage.conversationId currentDid sender
      if p.activeConversationRef = some (.dm sender) then p
      else
        let p := p.markUnread key
        if sender = currentDid then p
        else p.notify ⟨key, "New message from " ++ senderName, some (.dm sender)⟩
  | .groupMessageReceived groupId senderName =>
    if p.activeConversationRef = some (.group groupId) then p
    else (p.markUnread groupId).notify ⟨groupId, "New group message from " ++ senderName, some (.group groupId)⟩
  | .offlineMessagesReceived => p.notify ⟨"offline-relay", "You have new messages while you were away", none⟩
  | .groupInvitationReceived groupId inviterName groupName =>
    p.notify ⟨"invite:" ++ groupId, inviterName ++ " invited you to \"" ++ groupName ++ "\"", none⟩

end NotifyPage

inductive NotifyEvent
  | elapse (ms : ℕ)
  | receive (e : WsNotice)
  | debounced (timer : ℕ)
  | permission (i : ℕ) (granted : Bool)
  | autoClear (timer : ℕ)
  | dismiss (id : ℕ)
  | onAction (id : ℕ)
  | onFocusChanged (focused : Bool)
  | setActiveConversation (activeConversation : Option ActiveConversation)
  | markRead (key : String)
  | seedUnread (ids : Finset String)
  | rendered
  | signIn (localDid : Option Did)

namespace NotifyPage

def step (p : NotifyPage) : NotifyEvent → NotifyPage
  | .elapse ms => { p with now := p.now + ms }
  | .receive e => p.receive e
  | .debounced timer => p.debounced timer
  | .permission i granted => p.permission i granted
  | .autoClear timer => p.autoClear timer
  | .dismiss id => p.dismiss id
  | .onAction id => p.onAction id
  | .onFocusChanged focused => p.onFocusChanged focused
  | .setActiveConversation activeConversation => p.setActiveConversation activeConversation
  | .markRead key => p.markRead key
  | .seedUnread ids => { p with unreadConversations := p.unreadConversations ∪ ids }
  | .rendered => p.rendered
  | .signIn localDid => { p with localDid }

def new : NotifyPage :=
  { notifyTimers := ∅, notifyBodies := ∅, notifyIds := ∅, notifyClearTimers := ∅, notifyActionTargets := ∅
    pendingNavTarget := none, pendingNavKey := none, pendingNavAt := 0, notifyIdCounter := 1
    timeouts := ∅, clearTimeouts := ∅, nextTimer := 1, asking := [], center := ∅, now := 0
    localDid := none, activeConversation := none, activeConversationRef := none, unreadConversations := ∅, log := [] }

end NotifyPage

/-- From a page that was just loaded on. -/
def notifySys : StepSystem.Sys NotifyPage NotifyEvent where
  init p := p = .new
  step := NotifyPage.step

/-! What the log says of it -/

namespace NotifyEntry

/-- A call is over with the next of its conversation, or with the timeout. -/
def Rearms : NotifyEntry → NotifyEntry → Prop
  | .called _ n', .called _ n => n'.conversationKey = n.conversationKey
  | .asked _ n', .called _ n => n'.conversationKey = n.conversationKey
  | _, _ => False

/-- A notification has its id until the next of its conversation, or until the conversation is opened. -/
def Releases : NotifyEntry → NotifyEntry → Prop
  | .sent _ _ n', .sent _ _ n => n'.conversationKey = n.conversationKey
  | .cleared key, .sent _ _ n => key = n.conversationKey
  | _, _ => False

def Hides : NotifyEntry → NotifyEntry → Prop
  | .removed id', .sent _ id _ => id' = id
  | e, e' => e.Releases e'

/-- A notification that leads somewhere is where the focus leads until the next such, or until it was seen to. -/
def Diverts : NotifyEntry → NotifyEntry → Prop
  | .sent _ _ n', .sent _ _ _ => n'.target ≠ none
  | .cleared key, .sent _ _ n => key = n.conversationKey
  | _, _ => False

def askedNotice : NotifyEntry → Option Notice
  | .asked _ n => some n
  | _ => none

def sentNotice : NotifyEntry → Option Notice
  | .sent _ _ n => some n
  | _ => none

end NotifyEntry

namespace NotifyPage
open Arrivals NotifyEntry

/-- A conversation's last call waits, and no other; who asks for the permission does so half a second after the last
call, with what that said; and no notification is sent that was not asked for. -/
structure Debounced (p : NotifyPage) : Prop where
  waiting : ∀ time n, InEffect Rearms p.log (.called time n) ↔ ∃ timer, p.timeouts.get timer = some (time + 500, n)
  single : ∀ timer timer' x x', p.timeouts.get timer = some x → p.timeouts.get timer' = some x' →
    x.2.conversationKey = x'.2.conversationKey → timer = timer'
  asked : ∀ early time n late, p.log = early ++ .asked time n :: late →
    ∃ called, InEffect Rearms early (.called called n) ∧ called + 500 ≤ time
  sent : ∀ n, (p.log.filterMap sentNotice).count n + p.asking.count n ≤ (p.log.filterMap askedNotice).count n

/-- The notification center has what was sent last for each conversation that was not opened since, until its minute is
over; the button leads to where that one should; and an id never stands for two conversations. -/
structure Centered (p : NotifyPage) : Prop where
  shown : ∀ id body, p.center.get id = some body ↔
    ∃ time n, n.body = body ∧ InEffect Hides p.log (.sent time id n)
  leads : ∀ id target key, p.notifyActionTargets.get id = some (target, key) ↔
    ∃ time n, n.target = target ∧ n.conversationKey = key ∧ InEffect Releases p.log (.sent time id n)
  timed : ∀ time id n, InEffect Hides p.log (.sent time id n) →
    ∃ timer, p.clearTimeouts.get timer = some (time + 60000, id, n.conversationKey)
  own : ∀ time time' id n n', .sent time id n ∈ p.log → .sent time' id n' ∈ p.log →
    n.conversationKey = n'.conversationKey

/-- The focus leads to the conversation that was last told of, if that was within half a minute and nobody has opened it
since; it marks it as read, and leads there once. -/
structure Led (p : NotifyPage) : Prop where
  leads : ∀ time id n target, InEffect Diverts p.log (.sent time id n) → n.target = some target →
    p.now - time < 30000 → (p.onFocusChanged true).activeConversation = some target ∧
      n.conversationKey ∉ (p.onFocusChanged true).unreadConversations ∧
      (p.onFocusChanged true).onFocusChanged true = p.onFocusChanged true
  stays : (∀ time id n, InEffect Diverts p.log (.sent time id n) → n.target ≠ none → 30000 ≤ p.now - time) →
    p.onFocusChanged true = p

end NotifyPage
end Variance
