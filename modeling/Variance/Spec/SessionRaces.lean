import Variance.Lib.Run
import Variance.Spec.Direct
import Variance.Spec.History

/-! What a failed `receive_message` leaves behind, and the sessions in many hands: `init_session_if_needed`, which is
serialized by its lock, and `receive_message`, which is not, one access of the shared maps at a time. -/

namespace Variance
namespace DirectMessageHandler
variable {O : Olm}

/-! One call -/

/-- The sessions, in memory and on disk, and the message store are as they were. -/
def SameState (h h' : DirectMessageHandler O) : Prop :=
  h'.sessions = h.sessions ∧ h'.sessionPickles = h.sessionPickles ∧ h'.storage = h.storage

/-- Nothing is left behind if the call fails. -/
def Atomic (h : DirectMessageHandler O) (W : Wire) (env : Env) (message : DirectMessage) : Prop :=
  ∀ e, (h.receiveMessage W env message).1 = .error e → h.SameState (h.receiveMessage W env message).2

/-- Both writes of the message succeed. -/
def Writes (env : Env) (message : DirectMessage) : Prop :=
  env.faults "direct_messages" message.key = false ∧ env.faults "plaintext_cache" message.id = false

/-- The first write fails, or has nothing to change. -/
def Unmoved (h : DirectMessageHandler O) (env : Env) (message : DirectMessage) : Prop :=
  env.faults "direct_messages" message.key = true ∨
    h.storage.directMessages[message.key]? = some message

/-- The session is the one that is there, and what is written over it, if it can be written. -/
def Rests (h : DirectMessageHandler O) (env : Env) (peerDid : Did) (session : O.Session) : Prop :=
  h.sessions[peerDid]? = some session ∧
    (env.faults "session_pickles" peerDid = true ∨ h.sessionPickles[peerDid]? = some session)

/-- The condition, for what a sender's message decrypts to: it is content, and stored; or nothing has moved. -/
def Opens (h : DirectMessageHandler O) (W : Wire) (env : Env) (message : DirectMessage) (session : O.Session)
    (plaintext : Bytes) : Prop :=
  match W.decodeMessageContent plaintext with
  | none => h.Rests env message.senderDid session
  | some _ => Writes env message ∨ h.Rests env message.senderDid session ∧ h.Unmoved env message

/-- The PreKey message makes a session. -/
def Makes (h : DirectMessageHandler O) (message : DirectMessage) (p : O.PreKey) (session : O.Session)
    (plaintext : Bytes) (account : O.Account) : Prop :=
  ∃ ik identityKey, message.senderIdentityKey = some ik ∧ CurveKey.ofBytes ik = some identityKey ∧
    O.createInboundSession h.account identityKey p = (.ok (session, plaintext), account)

/-- The condition, for such a message: its content is there, and stored. -/
def Establishes (h : DirectMessageHandler O) (W : Wire) (env : Env) (message : DirectMessage) (p : O.PreKey) : Prop :=
  ∀ session plaintext account, h.Makes message p session plaintext account →
    (W.decodeMessageContent plaintext).isSome ∧ Writes env message

/-- The condition. -/
def Settles (h : DirectMessageHandler O) (W : Wire) (env : Env) (message : DirectMessage) : Prop :=
  if message.olmMessageType = olmMessageTypeSelf then
    (W.decodeMessageContent message.ciphertext).isSome → Writes env message ∨ h.Unmoved env message
  else match O.fromParts message.olmMessageType message.ciphertext with
    | .error _ => True
    | .ok m => match m, h.sessions[message.senderDid]? with
      | .preKey p, none => h.Establishes W env message p
      | .normal _, none => True
      | .preKey _, some session => match O.decrypt session m with
        | (.error _, session) => h.Rests env message.senderDid session
        | (.ok plaintext, session) => h.Opens W env message session plaintext
      | .normal _, some session => match O.decrypt session m with
        | (.error _, session) => h.sessions[message.senderDid]? = some session
        | (.ok plaintext, session) => h.Opens W env message session plaintext

end DirectMessageHandler

/-! Calls at once -/

namespace SessionRace

inductive Origin
  | outbound
  | inbound
deriving DecidableEq

/-- What a call does next. `seen`: how many sessions had been established when it found none for its peer. -/
inductive Task (O : Olm)
  | initLock (peerDid : Did) (identityKey oneTimeKey : CurveKey)
  | initCheck (peerDid : Did) (identityKey oneTimeKey : CurveKey)
  | initCreate (peerDid : Did) (identityKey oneTimeKey : CurveKey) (seen : ℕ)
  | initInsert (peerDid : Did) (session : O.Session) (seen : ℕ)
  | initPersist (peerDid : Did)
  | initDone (result : Except MsgError Unit)
  | receive (message : DirectMessage)
  | createInbound (message : DirectMessage) (m : O.PreKey) (seen : ℕ)
  | insertInbound (message : DirectMessage) (session : O.Session) (plaintext : Bytes) (seen : ℕ)
  /-- `persist_session`, whose failure is only logged; the outcome of the decryption comes after it. -/
  | persist (message : DirectMessage) (result : Except MsgError Bytes)
  | keep (message : DirectMessage) (content : MessageContent)
  | received (result : Except MsgError MessageContent)

end SessionRace

structure SessionRace (O : Olm) where
  handler : DirectMessageHandler O
  /-- The task that holds `session_init_lock`. -/
  initLock : Option ℕ
  tasks : List (SessionRace.Task O)
  /-- The sessions established, in order. -/
  established : List (Did × SessionRace.Origin)
  /-- Whose session an inbound one has replaced. -/
  replaced : List Did

namespace SessionRace
variable {O : Olm}

inductive Step (O : Olm)
  | initSessionIfNeeded (peerDid : Did) (identityKey oneTimeKey : CurveKey)
  | receiveMessage (message : DirectMessage)
  | run (i : ℕ) (env : Env)

def set (w : SessionRace O) (i : ℕ) (t : Task O) : SessionRace O := { w with tasks := w.tasks.set i t }

def spawn (w : SessionRace O) (t : Task O) : SessionRace O := { w with tasks := w.tasks ++ [t] }

/-- What a plaintext goes on as. -/
def decode (W : Wire) (message : DirectMessage) (plaintext : Bytes) : Task O :=
  match W.decodeMessageContent plaintext with
  | none => .received (.error .protocol)
  | some content => .keep message content

/-- A session for the peer in the map, over whatever is there. -/
def insertSession (h : DirectMessageHandler O) (peerDid : Did) (session : O.Session) : DirectMessageHandler O :=
  { h with sessions := h.sessions.insert peerDid session }

/-- One access of what is shared. -/
def runTask (w : SessionRace O) (W : Wire) (env : Env) (i : ℕ) : Task O → SessionRace O
  | .initLock peerDid identityKey oneTimeKey =>
    match w.initLock with
    | some _ => w
    | none => { w.set i (.initCheck peerDid identityKey oneTimeKey) with initLock := some i }
  | .initCheck peerDid identityKey oneTimeKey =>
    match w.handler.sessions[peerDid]? with
    | some _ => { w.set i (.initDone (.ok ())) with initLock := none }
    | none => w.set i (.initCreate peerDid identityKey oneTimeKey w.established.length)
  | .initCreate peerDid identityKey oneTimeKey seen =>
    w.set i (.initInsert peerDid (O.createOutboundSession env.rng w.handler.account identityKey oneTimeKey) seen)
  | .initInsert peerDid session _ =>
    { w.set i (.initPersist peerDid) with
      handler := insertSession w.handler peerDid session
      established := w.established ++ [(peerDid, .outbound)] }
  | .initPersist peerDid =>
    let (r, handler) := w.handler.persistSession env peerDid
    { w.set i (.initDone r) with handler, initLock := none }
  | .receive message =>
    if message.olmMessageType = olmMessageTypeSelf then w.set i (decode W message message.ciphertext)
    else match O.fromParts message.olmMessageType message.ciphertext with
      | .error e => w.set i (.received (.error (.crypto ("Failed to decode OlmMessage: " ++ e))))
      | .ok m => match m, w.handler.sessions[message.senderDid]? with
        | .preKey p, none => w.set i (.createInbound message p w.established.length)
        | .normal _, none =>
          w.set i (.received (.error (.doubleRatchet ("No session with " ++ message.senderDid))))
        | .preKey _, some session =>
          let (r, session) := O.decrypt session m
          { w.set i (.persist message (r.mapError fun e => .crypto ("Decryption failure: " ++ e))) with
            handler := insertSession w.handler message.senderDid session }
        | .normal _, some session =>
          let (r, session) := O.decrypt session m
          let t : Task O := match r with
            | .error e => .received (.error (.crypto ("Decryption failure: " ++ e)))
            | .ok plaintext => .persist message (.ok plaintext)
          { w.set i t with handler := insertSession w.handler message.senderDid session }
  | .createInbound message m seen =>
    match message.senderIdentityKey with
    | none => w.set i (.received (.error (.crypto "PreKey message missing sender_identity_key")))
    | some senderIdentityKey =>
      match CurveKey.ofBytes senderIdentityKey with
      | none => w.set i (.received (.error (.crypto "sender_identity_key must be exactly 32 bytes")))
      | some identityKey =>
        let (r, account) := O.createInboundSession w.handler.account identityKey m
        let t : Task O := match r with
          | .error (.missingOneTimeKey e) =>
            .received (.error (.staleOneTimeKey ("Failed to create inbound Olm session: " ++ e)))
          | .error (.other e) => .received (.error (.crypto ("Failed to create inbound Olm session: " ++ e)))
          | .ok (session, plaintext) => .insertInbound message session plaintext seen
        { w.set i t with handler := { w.handler with account } }
  | .insertInbound message session plaintext _ =>
    { w.set i (.persist message (.ok plaintext)) with
      handler := insertSession w.handler message.senderDid session
      established := w.established ++ [(message.senderDid, .inbound)]
      replaced := if (w.handler.sessions[message.senderDid]?).isSome then w.replaced ++ [message.senderDid]
        else w.replaced }
  | .persist message result =>
    let t : Task O := match result with
      | .error e => .received (.error e)
      | .ok plaintext => decode W message plaintext
    { w.set i t with handler := (w.handler.persistSession env message.senderDid).2 }
  | .keep message content =>
    let (r, handler) := w.handler.keepMessage env message content
    { w.set i (.received (r.map fun _ => content)) with handler }
  | .initDone _ | .received _ => w

def next (W : Wire) (w : SessionRace O) : Step O → SessionRace O
  | .initSessionIfNeeded peerDid identityKey oneTimeKey => w.spawn (.initLock peerDid identityKey oneTimeKey)
  | .receiveMessage message => w.spawn (.receive message)
  | .run i env => match w.tasks[i]? with
    | some t => w.runTask W env i t
    | none => w

def start (h : DirectMessageHandler O) : SessionRace O := ⟨h, none, [], [], []⟩

/-- At most one session for each peer, the ones of before among them; and none was replaced by an inbound one. -/
structure Unique (before : DirectMessageHandler O) (w : SessionRace O) : Prop where
  once : (w.established.map (·.1)).Nodup
  new : ∀ d ∈ w.established.map (·.1), before.sessions[d]? = none
  kept : w.replaced = []

/-- The condition: when a call puts its session in the map, no inbound session of the peer was established since the
call found none, and, if the call is itself a receipt, no outbound one either. -/
def InTime (w : SessionRace O) : Step O → Prop
  | .run i _ => match w.tasks[i]? with
    | some (.initInsert peerDid _ seen) => (peerDid, .inbound) ∉ w.established.drop seen
    | some (.insertInbound message _ _ seen) => message.senderDid ∉ (w.established.drop seen).map (·.1)
    | _ => True
  | _ => True

end SessionRace

def sessionRaceSys {O : Olm} (W : Wire) (before : DirectMessageHandler O) :
    StepSystem.Sys (SessionRace O) (SessionRace.Step O) where
  init w := w = SessionRace.start before
  step := SessionRace.next W

end Variance
