import Variance.Lib.Metering
import Variance.Spec.MessagingStore
import Variance.Spec.Typing

/-! Who types tells the others: the outbound half of `TypingHandler` (`variance-messaging/src/typing.rs`), the two
endpoints that call it (`variance-app/src/api/social.rs`), the composer that calls these (`MessageEditor.tsx`), and the
page of the one who is told. Times are in milliseconds. -/

namespace Variance

/-- `last_outbound_start` and `compose_start`, under the keys of `typing_states`. -/
structure TypingOutbound where
  localDid : Did
  lastOutboundStart : SledTree ℕ
  composeStart : SledTree ℕ

structure TypingRequest where
  recipient : String
  isGroup : Bool

def TypingRequest.key (r : TypingRequest) : String := if r.isGroup then groupTypingKey r.recipient else r.recipient

namespace TypingOutbound

def new (localDid : Did) : TypingOutbound := ⟨localDid, ∅, ∅⟩

def outboundCooldownMs : ℕ := 2000

def composeThresholdMs : ℕ := 300

def sendTypingDirect (t : TypingOutbound) (recipientDid : Did) (isTyping : Bool) (now : ℕ) : TypingIndicator :=
  ⟨t.localDid, some (.recipientDid recipientDid), isTyping, now⟩

def sendTypingGroup (t : TypingOutbound) (groupId : String) (isTyping : Bool) (now : ℕ) : TypingIndicator :=
  ⟨t.localDid, some (.groupId groupId), isTyping, now⟩

def isWithinCooldown (t : TypingOutbound) (key : String) (now : ℕ) : Bool :=
  match t.lastOutboundStart[key]? with
  | some last => now - last < outboundCooldownMs
  | none => false

def tryStartTypingDirect (t : TypingOutbound) (recipientDid : Did) (now : ℕ) :
    Option TypingIndicator × TypingOutbound :=
  if t.isWithinCooldown recipientDid now then (none, t)
  else
    (some (t.sendTypingDirect recipientDid true now),
      { t with lastOutboundStart := t.lastOutboundStart.insert recipientDid now })

/-- The first keystroke of all only starts the clock. -/
def tryStartTypingGroup (t : TypingOutbound) (groupId : String) (now : ℕ) : Option TypingIndicator × TypingOutbound :=
  let key := groupTypingKey groupId
  match t.composeStart[key]? with
  | none => (none, { t with composeStart := t.composeStart.insert key now })
  | some start =>
    if now - start < composeThresholdMs then (none, t)
    else if t.isWithinCooldown key now then (none, t)
    else
      (some (t.sendTypingGroup groupId true now), { t with lastOutboundStart := t.lastOutboundStart.insert key now })

def clearCooldown (t : TypingOutbound) (recipient : String) : TypingOutbound :=
  { t with lastOutboundStart := t.lastOutboundStart.erase recipient }

/-- Which no endpoint calls. -/
def clearComposeStart (t : TypingOutbound) (groupKey : String) : TypingOutbound :=
  { t with composeStart := t.composeStart.erase groupKey }

/-- The indicator that is handed to the node, for the recipient or for all members; somebody who is in the group no
more sends none. -/
def startTyping (t : TypingOutbound) (isMember : Bool) (r : TypingRequest) (now : ℕ) :
    Option TypingIndicator × TypingOutbound :=
  if r.isGroup then if isMember then t.tryStartTypingGroup r.recipient now else (none, t)
  else t.tryStartTypingDirect r.recipient now

/-- A group is not told. -/
def stopTyping (t : TypingOutbound) (r : TypingRequest) (now : ℕ) : Option TypingIndicator × TypingOutbound :=
  if r.isGroup then (none, t.clearCooldown (groupTypingKey r.recipient))
  else (some (t.sendTypingDirect r.recipient false now), t.clearCooldown r.recipient)

end TypingOutbound

/-- A request to one of the endpoints, and what `is_member` says then. -/
structure TypingCall where
  now : ℕ
  starts : Bool
  request : TypingRequest
  isMember : Bool

def TypingOutbound.call (t : TypingOutbound) (c : TypingCall) : Option TypingIndicator × TypingOutbound :=
  if c.starts then t.startTyping c.isMember c.request c.now else t.stopTyping c.request c.now

/-- A call that was made, and whether it sent anything. -/
structure TypingSent where
  call : TypingCall
  sent : Bool

namespace TypingOutbound

def next (t : TypingOutbound) (c : TypingCall) : TypingOutbound := (t.call c).2

def trace (t : TypingOutbound) : List TypingCall → List TypingSent
  | [] => []
  | c :: cs => ⟨c, (t.call c).1.isSome⟩ :: (t.next c).trace cs

end TypingOutbound

namespace TypingSent

def Starts (x : TypingSent) (key : String) : Prop :=
  x.call.starts = true ∧ x.sent = true ∧ x.call.request.key = key

def Stops (x : TypingSent) (key : String) : Prop := x.call.starts = false ∧ x.call.request.key = key

/-- A keystroke of a member. -/
def Composes (x : TypingSent) (key : String) : Prop :=
  x.call.starts = true ∧ x.call.request.isGroup = true ∧ x.call.isMember = true ∧ x.call.request.key = key

end TypingSent

/-- A start was sent within the last two seconds and none stopped since. -/
def Cooling (past : List TypingSent) (key : String) (now : ℕ) : Prop :=
  ∃ a x b, past = a ++ x :: b ∧ x.Starts key ∧ now < x.call.now + 2000 ∧ ∀ y ∈ b, ¬ y.Stops key

/-- A keystroke came that long ago or longer. -/
def Composing (past : List TypingSent) (key : String) (now : ℕ) : Prop :=
  ∃ x ∈ past, x.Composes key ∧ x.call.now + 300 ≤ now

/-- Going by the calls that came before, a start should be sent. -/
def TypingCall.Due (c : TypingCall) (past : List TypingSent) : Prop :=
  ¬ Cooling past c.request.key c.now ∧
    (c.request.isGroup = true → c.isMember = true ∧ Composing past c.request.key c.now)

/-- A start is sent just when it should be; and so those that are sent under one key, with no stop between, are two
seconds apart. -/
structure Throttled (calls : List TypingSent) : Prop where
  due : ∀ past x later, calls = past ++ x :: later → x.call.starts = true → (x.sent = true ↔ x.call.Due past)
  spaced : ∀ a x b y c key, calls = a ++ x :: b ++ y :: c → x.Starts key → y.Starts key →
    (∀ z ∈ b, ¬ z.Stops key) → x.call.now + 2000 ≤ y.call.now

/-! The composer -/

/-- `typingTimerRef`, with when it fires, and `lastTypingSentRef`. -/
structure MessageEditor where
  cooldownMs : ℕ
  stopDelayMs : ℕ
  typingTimer : Option ℕ
  lastTypingSent : ℕ

namespace MessageEditor

/-- `MessageInput`, of a direct conversation. -/
def messageInput : MessageEditor := ⟨3000, 2000, none, 0⟩

/-- `GroupView`. -/
def groupView : MessageEditor := ⟨500, 1500, none, 0⟩

/-- Whether typing/start is called. -/
def onUpdate (e : MessageEditor) (blank : Bool) (now : ℕ) : Bool × MessageEditor :=
  if blank then (false, e)
  else if e.lastTypingSent + e.cooldownMs ≤ now then
    (true, { e with lastTypingSent := now, typingTimer := some (now + e.stopDelayMs) })
  else (false, { e with typingTimer := some (now + e.stopDelayMs) })

/-- The timer fires, or a message is sent: typing/stop is called. -/
def stop (e : MessageEditor) : MessageEditor := { e with lastTypingSent := 0, typingTimer := none }

end MessageEditor

/-! Both ends -/

/-- An indicator under way. -/
structure TypingNote where
  isTyping : Bool
  sentAt : ℕ

/-- One user's composer and node, the page of another who is told, and what is between them. `due`: when the page's
timers fire. `lastKey`, `lastStart`: when the last keystroke came, and when the last start was sent. `arrived`: when the
latest of the starts that have reached the page was sent. -/
structure TypingLink where
  now : ℕ
  editor : MessageEditor
  outbound : TypingOutbound
  request : TypingRequest
  wire : List TypingNote
  store : MessagingStore
  due : ℕ → ℕ
  lastKey : Option ℕ
  lastStart : Option ℕ
  arrived : Option ℕ

inductive TypingLinkEvent
  | update (blank : Bool)
  /-- The composer's timer. -/
  | fire
  | send
  | unmount
  | deliver (i : ℕ)
  | lose (i : ℕ)
  /-- A timer of the page, and what else happens there. -/
  | expire (timer : ℕ)
  | page (e : TypingStoreEvent)
  | advance (ms : ℕ)

namespace TypingLink

def typingExpiryMs : ℕ := 3000

/-- How the page keys it: a direct conversation goes by the sender. -/
def pair (w : TypingLink) : TypingPair :=
  ⟨if w.request.isGroup then w.request.key else w.outbound.localDid, w.outbound.localDid⟩

/-- The endpoint, of a user who stays in the group. -/
def call (w : TypingLink) (starts : Bool) : TypingLink :=
  let r := w.outbound.call ⟨w.now, starts, w.request, true⟩
  { w with
    outbound := r.2
    wire := match r.1 with
      | some i => w.wire ++ [⟨i.isTyping, w.now⟩]
      | none => w.wire
    lastStart := if starts ∧ r.1.isSome then some w.now else w.lastStart }

def update (w : TypingLink) (blank : Bool) : TypingLink :=
  let r := w.editor.onUpdate blank w.now
  let w := { w with editor := r.2, lastKey := if blank then w.lastKey else some w.now }
  if r.1 then w.call true else w

def stop (w : TypingLink) : TypingLink := { w with editor := w.editor.stop }.call false

def setTyping (w : TypingLink) (p : TypingPair) (isTyping : Bool) : TypingLink :=
  { w with
    store := w.store.setTyping p isTyping
    due := if isTyping then Function.update w.due w.store.nextTimer (w.now + typingExpiryMs) else w.due }

def deliver (w : TypingLink) (i : ℕ) : TypingLink :=
  match w.wire[i]? with
  | none => w
  | some m =>
    { w.setTyping w.pair m.isTyping with
      wire := w.wire.eraseIdx i
      arrived := if m.isTyping then some (max m.sentAt (w.arrived.getD 0)) else w.arrived }

def step (w : TypingLink) : TypingLinkEvent → TypingLink
  | .update blank => w.update blank
  | .fire => match w.editor.typingTimer with
    | some d => if d ≤ w.now then w.stop else w
    | none => w
  | .send => w.stop
  | .unmount => { w with editor := { w.editor with typingTimer := none, lastTypingSent := 0 } }
  | .deliver i => w.deliver i
  | .lose i => { w with wire := w.wire.eraseIdx i }
  | .expire timer => if w.due timer ≤ w.now then { w with store := w.store.expire timer } else w
  | .page (.setTyping p isTyping) => w.setTyping p isTyping
  | .page e => { w with store := w.store.step e }
  | .advance ms => { w with now := w.now + ms }

/-- What arrives is not later than `latest` and not earlier than `earliest`; timers fire on time; and elsewhere on the
page nothing is mistaken for the user's indicator. -/
def Timely (earliest latest : ℕ) (w : TypingLink) : TypingLinkEvent → Prop
  | .advance ms => (∀ m ∈ w.wire, w.now + ms ≤ m.sentAt + latest) ∧
      (∀ d ∈ w.editor.typingTimer, w.now + ms ≤ d) ∧ ∀ t ∈ w.store.timeouts.entries, w.now + ms ≤ w.due t.1
  | .deliver i => (∀ m ∈ w.wire[i]?, m.sentAt + earliest ≤ w.now) ∧ w.store.Careful (.setTyping w.pair true)
  | .page e => w.store.Careful e ∧ match e with
    | .setTyping p isTyping => p = w.pair → isTyping = false
    | .setActiveConversation _ => True
    | .expire _ => False
  | _ => True

/-- The user goes on writing, never longer than `gap` without a keystroke, and the other does not leave the
conversation; nothing is lost. -/
def Steady (earliest latest gap : ℕ) (w : TypingLink) (e : TypingLinkEvent) : Prop :=
  w.Timely earliest latest e ∧ match e with
    | .send | .unmount | .lose _ => False
    | .advance ms => ∀ k ∈ w.lastKey, w.now + ms ≤ k + gap
    | .page (.setTyping p _) => p ≠ w.pair
    | .page (.setActiveConversation _) => ∀ old ∈ w.store.activeConversation, old.key ≠ w.pair.recipient
    | _ => True

/-- What is sent arrives in its order and after one and the same time; the composer stays. -/
def Prompt (latency : ℕ) (w : TypingLink) (e : TypingLinkEvent) : Prop :=
  w.Timely latency latency e ∧ match e with
    | .deliver i => i = 0
    | .unmount | .lose _ => False
    | _ => True

instance (earliest latest : ℕ) (w : TypingLink) : ∀ e, Decidable (w.Timely earliest latest e)
  | .advance _ => inferInstanceAs (Decidable (_ ∧ _ ∧ _))
  | .deliver _ => inferInstanceAs (Decidable (_ ∧ _))
  | .page (.setTyping _ _) => inferInstanceAs (Decidable (_ ∧ (_ → _)))
  | .page (.setActiveConversation _) => inferInstanceAs (Decidable (_ ∧ True))
  | .page (.expire _) => inferInstanceAs (Decidable (_ ∧ False))
  | .update _ | .fire | .send | .unmount | .lose _ | .expire _ => inferInstanceAs (Decidable True)

instance (earliest latest gap : ℕ) (w : TypingLink) : ∀ e, Decidable (w.Steady earliest latest gap e)
  | .advance _ => inferInstanceAs (Decidable (_ ∧ _))
  | .page (.setTyping _ _) => inferInstanceAs (Decidable (_ ∧ _ ≠ _))
  | .page (.setActiveConversation _) =>
    inferInstanceAs (Decidable (_ ∧ ∀ old ∈ w.store.activeConversation, old.key ≠ _))
  | .send | .unmount | .lose _ => isFalse And.right
  | .page (.expire _) => isFalse fun h => h.1.2
  | .update _ | .fire | .deliver _ | .expire _ => inferInstanceAs (Decidable (_ ∧ True))

instance (latency : ℕ) (w : TypingLink) : ∀ e, Decidable (w.Prompt latency e)
  | .deliver _ => inferInstanceAs (Decidable (_ ∧ _ = _))
  | .unmount | .lose _ => isFalse And.right
  | .update _ | .fire | .send | .expire _ | .page _ | .advance _ => inferInstanceAs (Decidable (_ ∧ True))

end TypingLink

/-- Nothing was typed yet, and the page shows nobody; the clock has run for a while. -/
def typingLinkSys (editor : MessageEditor) (isGroup : Bool) : StepSystem.Sys TypingLink TypingLinkEvent where
  init w := w.editor = editor ∧ w.request.isGroup = isGroup ∧ editor.cooldownMs ≤ w.now ∧
    (∃ did, w.outbound = .new did) ∧ w.wire = [] ∧ w.store = .new ∧ w.lastKey = none ∧ w.lastStart = none ∧
    w.arrived = none
  step := TypingLink.step

end Variance
