import Variance.Lib.Overflow
import Variance.Lib.Run
import Variance.Spec.MessagingProto
import Variance.Spec.NameWorld
import Variance.Spec.Relay

/-! Timestamps held against the clock, as they travel: a rename announcement and a fetch from a mailbox
(`p2p/src/node/event_handlers.rs`). Where the arithmetic stops a debug build the outcome is `none`. -/

namespace Variance

open Overflow (Build)

/-- `(now - timestamp).abs()` against five minutes; what is refused is refused with the drift. -/
def checkDrift (b : Build) (now timestamp : Int64) : Option (Except Int64 Unit) :=
  (Overflow.distance b now timestamp).map fun drift => if 300 < drift then .error drift else .ok ()

/-- `UsernameChanged` of `identity.proto`. -/
structure IdentityProto.UsernameChanged where
  did : Did
  username : String
  discriminator : UInt32
  signature : Bytes
  timestamp : Int64

namespace IdentityProto.UsernameChanged

/-- The announcement with its timestamp as a number. -/
def wide (r : UsernameChanged) : Variance.UsernameChanged :=
  ⟨r.did, r.username, r.discriminator, r.signature, r.timestamp.toInt⟩

def checkTimestamp (b : Build) (now : Int64) (r : UsernameChanged) : Option Bool :=
  (checkDrift b now r.timestamp).map fun verdict => verdict.isOk

/-- The signature, where there is a document to take the key from. -/
def verifySignature (E : Ed25519) (n : NameNode) (r : UsernameChanged) : Bool :=
  match n.didCache[r.did]? with
  | some c =>
    match c.getVerifyingKey E with
    | some key => E.verify key r.wide.payload r.signature
    | none => false
  | none => true

/-- `handle_rename_event` up to the event that it sends. -/
def verify (E : Ed25519) (n : NameNode) (b : Build) (now : Int64) (r : UsernameChanged) : Option Bool :=
  if r.signature = [] ∨ r.timestamp = 0 then some false
  else (r.checkTimestamp b now).map fun fresh => fresh && r.verifySignature E n

end IdentityProto.UsernameChanged

/-- Ed25519 and SHA-256 as the relay uses them, with what they say of a key or a signature they refuse. -/
structure RelayAuth where
  /-- `VerifyingKey::from_bytes`. -/
  fromBytes : Bytes → Except String Unit
  /-- Key, message, signature. -/
  verifyStrict : Bytes → Bytes → Bytes → Except String Unit
  sha256 : Bytes → Bytes

def RelayAuth.mailboxToken (A : RelayAuth) (verifyingKey : Bytes) : Bytes :=
  A.sha256 (verifyingKey ++ utf8Bytes "variance-mailbox-v1")

namespace MessagingProto.OfflineMessageRequest

/-- `mailbox_token || auth_timestamp`. -/
def payload (r : OfflineMessageRequest) : Bytes :=
  r.mailboxToken ++ leBytes 8 (r.authTimestamp.toInt % 2 ^ 64).toNat

def checkTimestamp (b : Build) (now : Int64) (r : OfflineMessageRequest) : Option (Except String Unit) :=
  (checkDrift b now r.authTimestamp).map fun verdict => verdict.mapError fun drift =>
    "auth_timestamp drift " ++ toString drift ++ "s exceeds 5-minute window"

def checkSignature (A : RelayAuth) (r : OfflineMessageRequest) : Except String Unit :=
  if r.authSignature.length ≠ 64 then
    .error ("auth_signature must be 64 bytes, got " ++ toString r.authSignature.length)
  else (A.verifyStrict r.verifyingKey r.payload r.authSignature).mapError ("signature verification failed: " ++ ·)

/-- The key is one, and the mailbox is the key's. -/
def checkKey (A : RelayAuth) (r : OfflineMessageRequest) : Except String Unit :=
  if r.verifyingKey.length ≠ 32 then
    .error ("verifying_key must be 32 bytes, got " ++ toString r.verifyingKey.length)
  else match A.fromBytes r.verifyingKey with
    | .error e => .error ("invalid Ed25519 verifying key: " ++ e)
    | .ok () =>
      if r.mailboxToken ≠ A.mailboxToken r.verifyingKey then
        .error "verifying_key does not derive the claimed mailbox_token"
      else .ok ()

/-- `verify_offline_request_auth`. -/
def verifyAuth (A : RelayAuth) (b : Build) (now : Int64) (r : OfflineMessageRequest) : Option (Except String Unit) :=
  match r.checkKey A with
  | .error reason => some (.error reason)
  | .ok () => (r.checkTimestamp b now).map fun fresh => fresh.bind fun _ => r.checkSignature A

end MessagingProto.OfflineMessageRequest

/-- `OfflineMessageResponse` with its error fields. -/
structure OfflineAnswer extends OfflineMessageResponse where
  errorCode : Option String
  errorMessage : Option String

/-- `create_error_response`. -/
def OfflineAnswer.refusal (errorCode errorMessage : String) : OfflineAnswer :=
  ⟨⟨[], false, none⟩, some errorCode, some errorMessage⟩

/-- `FetchRequested`. -/
structure FetchRequested where
  peer : PeerId
  mailboxToken : Bytes
  limit : UInt32
deriving DecidableEq

structure OfflineServer where
  store : RelayStore
  events : List FetchRequested

namespace OfflineServer

/-- `OfflineMessageHandler::handle_request`. -/
def handleRequest (s : OfflineServer) (r : MessagingProto.OfflineMessageRequest) : OfflineAnswer :=
  match s.store.fetchMessages ⟨r.mailboxToken, r.sinceTimestamp.map Int64.toInt, r.limit⟩ with
  | .ok page => ⟨page, none, none⟩
  | .error e => .refusal "storage_error" ("Failed to fetch messages: " ++ e.display)

/-- `handle_offline_protocol_event` for a request; `allowed`: the peer is within its rate limit. The greatest limit has
no successor, which stops a debug build as well. -/
def handleOfflineRequest (A : RelayAuth) (b : Build) (now : Int64) (s : OfflineServer) (allowed : Bool) (peer : PeerId)
    (r : MessagingProto.OfflineMessageRequest) : Option (OfflineAnswer × OfflineServer) :=
  if allowed = false then some (.refusal "rate_limited" "Too many requests, retry later", s)
  else match r.verifyAuth A b now with
    | none => none
    | some (.error reason) => some (.refusal "auth_failed" reason, s)
    | some (.ok ()) =>
      let s := { s with events := s.events ++ [⟨peer, r.mailboxToken, r.limit⟩] }
      if b = .debug ∧ r.limit + 1 = 0 then none else some (s.handleRequest r, s)

end OfflineServer

/-- At most five minutes apart, either way. -/
def InWindow (now timestamp : Int64) : Prop := |now.toInt - timestamp.toInt| ≤ 300

instance (now timestamp : Int64) : Decidable (InWindow now timestamp) := by unfold InWindow; infer_instance

/-- Both checks come to an end in either build, and pass what lies in the window and nothing else. -/
def WindowExact (now timestamp : Int64) : Prop :=
  ∀ b, (∀ r : IdentityProto.UsernameChanged, r.timestamp = timestamp →
      r.checkTimestamp b now = some (decide (InWindow now timestamp))) ∧
    ∀ r : MessagingProto.OfflineMessageRequest, r.authTimestamp = timestamp →
      (r.checkTimestamp b now).map Except.isOk = some (decide (InWindow now timestamp))

/-- What a request that is not authenticated is answered does not depend on what the mailboxes hold, and leaves them
and the events as they are. -/
def ClosedTo (A : RelayAuth) (b : Build) (now : Int64) (r : MessagingProto.OfflineMessageRequest) : Prop :=
  r.verifyAuth A b now ≠ some (.ok ()) → ∀ (s : OfflineServer) allowed peer,
    (∀ store, (OfflineServer.handleOfflineRequest A b now { s with store } allowed peer r).map (·.1) =
      (OfflineServer.handleOfflineRequest A b now s allowed peer r).map (·.1)) ∧
    ∀ answer s', OfflineServer.handleOfflineRequest A b now s allowed peer r = some (answer, s') → s' = s

/-- What the relay asks of a request, in numbers. -/
structure AuthenticFetch (A : RelayAuth) (now : Int64) (r : MessagingProto.OfflineMessageRequest) : Prop where
  length_key : r.verifyingKey.length = 32
  validKey : A.fromBytes r.verifyingKey = .ok ()
  owner : r.mailboxToken = A.mailboxToken r.verifyingKey
  fresh : InWindow now r.authTimestamp
  length_signature : r.authSignature.length = 64
  signed : A.verifyStrict r.verifyingKey r.payload r.authSignature = .ok ()

end Variance

/-! A relay over time: what the holders of keys have authorised, what anybody sends, and what is answered. -/

namespace Variance

open Overflow (Build)

namespace MessagingProto.OfflineMessageRequest

/-- A request but for its signature: whose key, which mailbox, when, from where on and how many. -/
def content (r : OfflineMessageRequest) : Bytes × Bytes × Int64 × Option Int64 × UInt32 :=
  (r.verifyingKey, r.mailboxToken, r.authTimestamp, r.sinceTimestamp, r.limit)

/-- The part of it that is signed, and the key. -/
def signedPart (r : OfflineMessageRequest) : Bytes × Bytes := (r.verifyingKey, r.payload)

end MessagingProto.OfflineMessageRequest

/-- A relay with what the holders of keys have authorised and what was answered with a page, neither of which it
knows. -/
structure MailboxAccess where
  server : OfflineServer
  authorised : List MessagingProto.OfflineMessageRequest
  honoured : List MessagingProto.OfflineMessageRequest

inductive AccessEvent
  /-- Envelopes come in and expire. -/
  | store (store : RelayStore)
  /-- The holder of a key signs a request. -/
  | authorise (r : MessagingProto.OfflineMessageRequest)
  /-- Somebody sends one; `allowed`: within its rate limit. -/
  | request (now : Int64) (allowed : Bool) (peer : PeerId) (r : MessagingProto.OfflineMessageRequest)

namespace MailboxAccess
variable (A : RelayAuth) (b : Build)

def step (w : MailboxAccess) : AccessEvent → MailboxAccess
  | .store store => { w with server := { w.server with store } }
  | .authorise r => { w with authorised := w.authorised ++ [r] }
  | .request now allowed peer r =>
    match w.server.handleOfflineRequest A b now allowed peer r with
    | none => w
    | some (answer, server) =>
      { w with server, honoured := if answer.errorCode = none then w.honoured ++ [r] else w.honoured }

/-- A request has been authorised more often than it was honoured. -/
def Unspent (w : MailboxAccess) (r : MessagingProto.OfflineMessageRequest) : Prop :=
  (w.honoured.map (·.content)).count r.content < (w.authorised.map (·.content)).count r.content

/-- A holder signs for its own mailbox, and the signatures that are sent are those that the holders have made. -/
def Unforged (w : MailboxAccess) : AccessEvent → Prop
  | .store _ => True
  | .authorise r => r.checkKey A = .ok () ∧ r.checkSignature A = .ok ()
  | .request _ _ _ r => r.checkSignature A = .ok () → ∃ a ∈ w.authorised, a.signedPart = r.signedPart

/-- What is returned is from the mailbox of the one key that the request is made with; and a page is an answer to what
has been authorised and was not yet honoured, or else it is empty and answers nothing that was authorised. -/
def Guards (w : MailboxAccess) : AccessEvent → Prop
  | .request now allowed peer r => ∀ answer server,
      w.server.handleOfflineRequest A b now allowed peer r = some (answer, server) →
        (∀ e ∈ answer.messages, ∀ key, A.mailboxToken key = e.mailboxToken ↔ key = r.verifyingKey) ∧
          (answer.errorCode = none →
            w.Unspent r ∨ answer.messages = [] ∧ ∀ a ∈ w.authorised, a.content ≠ r.content)
  | _ => True

/-- The condition: a copy of what a holder has signed, sent within the window, is what was authorised and was not yet
honoured, or it is not what was authorised and there is nothing that it could get. -/
def Careful (w : MailboxAccess) : AccessEvent → Prop
  | .request now allowed _ r =>
    allowed = true → checkDrift b now r.authTimestamp = some (.ok ()) → r.checkSignature A = .ok () →
      r.limit ≠ 0 → ¬ (b = .debug ∧ r.limit + 1 = 0) → (∃ a ∈ w.authorised, a.signedPart = r.signedPart) →
        w.Unspent r ∨ w.server.store.laterThan r.mailboxToken (r.sinceTimestamp.map Int64.toInt) = [] ∧
          ∀ a ∈ w.authorised, a.content ≠ r.content
  | _ => True

end MailboxAccess

/-- From nothing authorised on, with any mailboxes. -/
def accessSys (A : RelayAuth) (b : Build) : StepSystem.Sys MailboxAccess AccessEvent where
  init w := w.authorised = [] ∧ w.honoured = []
  step := MailboxAccess.step A b

end Variance
