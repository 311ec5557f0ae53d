import Variance.Spec.Node
import Variance.Spec.Olm

/-! `variance-messaging/src/direct.rs`: one-to-one messages over Olm sessions, one session a peer. The
at-rest encryption of the plaintext cache is left out. -/

namespace Variance

/-- The type that marks an unencrypted message to oneself. -/
def olmMessageTypeSelf : ℕ := 999

structure DirectMessageHandler (O : Olm) where
  localDid : Did
  account : O.Account
  sessions : SledTree O.Session
  storage : LocalMessageStorage
  /-- The trees `session_pickles` and `olm_account_pickle`. -/
  sessionPickles : SledTree O.Session
  olmPickle : SledTree O.Account

/-- The `k` low bytes, least significant first. -/
def leBytes : ℕ → ℕ → Bytes
  | 0, _ => []
  | k + 1, n => UInt8.ofNat (n % 256) :: leBytes k (n / 256)

def utf8Bytes (s : String) : Bytes := s.toUTF8.toList

/-- What the sender's signature covers. -/
def signableBytes (m : DirectMessage) : Bytes :=
  utf8Bytes m.id ++ utf8Bytes m.senderDid ++ utf8Bytes m.recipientDid ++ m.ciphertext ++
    leBytes 4 m.olmMessageType ++ leBytes 8 (m.timestamp % 2 ^ 64).toNat

/-- `infer_message_type`: image, file, audio or video by the first attachment, else text. -/
def inferMessageType (content : MessageContent) : ℤ :=
  match content.attachments with
  | [] => 1
  | a :: _ => if a.type = 1 then 2 else if a.type = 2 then 3 else if a.type = 3 then 4
    else if a.type = 4 then 5 else 1

namespace DirectMessageHandler
variable {O : Olm}

/-- `store_direct`, then `persist_plaintext`; the first to fail is the error. -/
def keepMessage (h : DirectMessageHandler O) (env : Env) (message : DirectMessage)
    (content : MessageContent) : Except MsgError Unit × DirectMessageHandler O :=
  match h.storage.storeDirect env.faults message with
  | (.error e, storage) => (.error e, { h with storage })
  | (.ok (), storage) =>
    let w := storage.storePlaintext env.faults message.id content
    (w.1, { h with storage := w.2 })

def persistSession (h : DirectMessageHandler O) (env : Env) (peerDid : Did) :
    Except MsgError Unit × DirectMessageHandler O :=
  match h.sessions[peerDid]? with
  | none => (.ok (), h)
  | some session =>
    let w := treeInsert env.faults "session_pickles" peerDid session h.sessionPickles
    (w.1, { h with sessionPickles := w.2 })

/-- The session is in use even when it could not be persisted. -/
def initSessionAsInitiator (h : DirectMessageHandler O) (env : Env) (recipientDid : Did)
    (recipientIdentityKey recipientOneTimeKey : CurveKey) :
    Except MsgError Unit × DirectMessageHandler O :=
  let session := O.createOutboundSession env.rng h.account recipientIdentityKey recipientOneTimeKey
  persistSession { h with sessions := h.sessions.insert recipientDid session } env recipientDid

def initSessionIfNeeded (h : DirectMessageHandler O) (env : Env) (recipientDid : Did)
    (recipientIdentityKey recipientOneTimeKey : CurveKey) :
    Except MsgError Unit × DirectMessageHandler O :=
  match h.sessions[recipientDid]? with
  | some _ => (.ok (), h)
  | none => h.initSessionAsInitiator env recipientDid recipientIdentityKey recipientOneTimeKey

/-- At startup: what is on disk, over what is in memory. -/
def restoreSessions (h : DirectMessageHandler O) : DirectMessageHandler O :=
  { h with sessions := h.sessionPickles.toList.foldl (fun t e => t.insert e.1 e.2) h.sessions }

/-- `store_olm_pickle`, its failure only logged. -/
def persistAccount (h : DirectMessageHandler O) (env : Env) : DirectMessageHandler O :=
  { h with
    olmPickle := (treeInsert env.faults "olm_account_pickle" h.localDid h.account h.olmPickle).2 }

/-- A new message from us, signed. -/
def signedMessage (h : DirectMessageHandler O) (W : Wire) (env : Env) (recipientDid : Did)
    (content : MessageContent) (olmMessageType : ℕ) (ciphertext : Bytes)
    (senderIdentityKey : Option Bytes) : DirectMessage :=
  let message : DirectMessage :=
    { id := env.ulid, senderDid := h.localDid, recipientDid := recipientDid, ciphertext := ciphertext,
      olmMessageType := olmMessageType, signature := [], timestamp := env.now,
      type := inferMessageType content, replyTo := content.replyTo,
      senderIdentityKey := senderIdentityKey }
  { message with signature := W.sign h.localDid (signableBytes message) }

def sendSelfMessage (h : DirectMessageHandler O) (W : Wire) (env : Env) (content : MessageContent) :
    Except MsgError DirectMessage × DirectMessageHandler O :=
  let message := h.signedMessage W env h.localDid content olmMessageTypeSelf
    (W.encodeMessageContent content) none
  let w := h.keepMessage env message content
  (w.1.map fun _ => message, w.2)

/-- Our identity key goes along with a PreKey message. -/
def sendMessage (h : DirectMessageHandler O) (W : Wire) (env : Env) (recipientDid : Did)
    (content : MessageContent) : Except MsgError DirectMessage × DirectMessageHandler O :=
  if recipientDid = h.localDid then h.sendSelfMessage W env content
  else match h.sessions[recipientDid]? with
    | none => (.error (.doubleRatchet ("No session with " ++ recipientDid)), h)
    | some session =>
      let (olmMessage, session) := O.encrypt env.rng session (W.encodeMessageContent content)
      let senderIdentityKey := match olmMessage with
        | .preKey _ => some (O.identityKey h.account).bytes
        | .normal _ => none
      let (msgType, ciphertext) := O.toParts olmMessage
      let h := { h with sessions := h.sessions.insert recipientDid session }
      let message := h.signedMessage W env recipientDid content msgType ciphertext senderIdentityKey
      match h.keepMessage env message content with
      | (.error e, h) => (.error e, h)
      | (.ok (), h) => (.ok message, (h.persistSession env recipientDid).2)

/-- An inbound session from a PreKey message; a failure to persist it is only logged. -/
def openInbound (h : DirectMessageHandler O) (env : Env) (message : DirectMessage) (m : O.PreKey) :
    Except MsgError Bytes × DirectMessageHandler O :=
  match message.senderIdentityKey with
  | none => (.error (.crypto "PreKey message missing sender_identity_key"), h)
  | some senderIdentityKey =>
    match CurveKey.ofBytes senderIdentityKey with
    | none => (.error (.crypto "sender_identity_key must be exactly 32 bytes"), h)
    | some identityKey =>
      match O.createInboundSession h.account identityKey m with
      | (.error (.missingOneTimeKey e), account) =>
        (.error (.staleOneTimeKey ("Failed to create inbound Olm session: " ++ e)), { h with account })
      | (.error (.other e), account) =>
        (.error (.crypto ("Failed to create inbound Olm session: " ++ e)), { h with account })
      | (.ok (session, plaintext), account) =>
        let h := { h with account, sessions := h.sessions.insert message.senderDid session }
        (.ok plaintext, (h.persistSession env message.senderDid).2)

/-- Decrypt in the session kept for the sender; a PreKey message opens one when there is none. -/
def decryptFrom (h : DirectMessageHandler O) (env : Env) (message : DirectMessage) (m : O.Message) :
    Except MsgError Bytes × DirectMessageHandler O :=
  match m, h.sessions[message.senderDid]? with
  | .preKey p, none => h.openInbound env message p
  | .normal _, none => (.error (.doubleRatchet ("No session with " ++ message.senderDid)), h)
  | .preKey _, some session =>
    let (r, session) := O.decrypt session m
    let h := { h with sessions := h.sessions.insert message.senderDid session }
    (r.mapError fun e => .crypto ("Decryption failure: " ++ e), (h.persistSession env message.senderDid).2)
  | .normal _, some session =>
    let (r, session) := O.decrypt session m
    let h := { h with sessions := h.sessions.insert message.senderDid session }
    match r with
    | .error e => (.error (.crypto ("Decryption failure: " ++ e)), h)
    | .ok plaintext => (.ok plaintext, (h.persistSession env message.senderDid).2)

/-- The content of an inbound message; a message to oneself is its own plaintext. -/
def openMessage (h : DirectMessageHandler O) (W : Wire) (env : Env) (message : DirectMessage) :
    Except MsgError MessageContent × DirectMessageHandler O :=
  if message.olmMessageType = olmMessageTypeSelf then
    match W.decodeMessageContent message.ciphertext with
    | none => (.error .protocol, h)
    | some content => (.ok content, h)
  else match O.fromParts message.olmMessageType message.ciphertext with
    | .error e => (.error (.crypto ("Failed to decode OlmMessage: " ++ e)), h)
    | .ok m =>
      match h.decryptFrom env message m with
      | (.error e, h) => (.error e, h)
      | (.ok plaintext, h) =>
        match W.decodeMessageContent plaintext with
        | none => (.error .protocol, h)
        | some content => (.ok content, h)

/-- The signature is not looked at. -/
def receiveMessage (h : DirectMessageHandler O) (W : Wire) (env : Env) (message : DirectMessage) :
    Except MsgError MessageContent × DirectMessageHandler O :=
  match h.openMessage W env message with
  | (.error e, h) => (.error e, h)
  | (.ok content, h) =>
    let w := h.keepMessage env message content
    (w.1.map fun _ => content, w.2)

end DirectMessageHandler

/-! `ensure_olm_session` (`api/helpers.rs`) -/

/-- What an identity response says about a peer's Olm keys. -/
structure IdentityFound where
  olmIdentityKey : Bytes
  oneTimeKeys : List Bytes
  mlsKeyPackage : Option Bytes

namespace DirectMessageHandler
variable {O : Olm}

/-- Each one-time key in turn, until a session is made; one of the wrong length is passed over. -/
def tryOneTimeKeys (h : DirectMessageHandler O) (env : Env) (recipientDid : Did) (identityKey : CurveKey) :
    List Bytes → Option MsgError → Except AppError Unit × DirectMessageHandler O
  | [], none => (.ok (), h)
  | [], some e =>
    (if (h.sessions[recipientDid]?).isNone then
      .error (.sessionRequired ("Failed to establish session: all provided OTKs were invalid (" ++
        e.display ++ "). Peer may need to refresh their keys."))
    else .ok (), h)
  | otk :: otks, lastError =>
    match CurveKey.ofBytes otk with
    | none => h.tryOneTimeKeys env recipientDid identityKey otks lastError
    | some oneTimeKey =>
      match h.initSessionIfNeeded env recipientDid identityKey oneTimeKey with
      | (.ok (), h) => (.ok (), h)
      | (.error (.staleOneTimeKey m), h) =>
        h.tryOneTimeKeys env recipientDid identityKey otks (some (.staleOneTimeKey m))
      | (.error e, h) => (.error (.wrap "Failed to initialize Olm session" e), h)

/-- `found` is what resolving the did over P2P gave; an error carries its text. -/
def ensureOlmSession (h : DirectMessageHandler O) (env : Env) (recipientDid : Did)
    (found : Except String IdentityFound) : Except AppError Unit × DirectMessageHandler O :=
  if recipientDid = h.localDid then (.ok (), h)
  else if (h.sessions[recipientDid]?).isSome then (.ok (), h)
  else match found with
    | .error e => (.error (.sessionRequired e), h)
    | .ok found =>
      match CurveKey.ofBytes found.olmIdentityKey with
      | none => (.error (.sessionRequired "Peer did not provide a valid Olm identity key"), h)
      | some identityKey =>
        if found.oneTimeKeys = [] then
          (.error (.sessionRequired "Peer has no one-time pre-keys available"), h)
        else h.tryOneTimeKeys env recipientDid identityKey found.oneTimeKeys none

/-- A key given in hex by the caller. -/
def hexKey (W : Wire) (name hex : String) : Except AppError CurveKey :=
  match W.hexDecode hex with
  | none => .error (.badRequest (name ++ " must be hex-encoded"))
  | some b =>
    match CurveKey.ofBytes b with
    | none => .error (.badRequest (name ++ " must be exactly 32 bytes"))
    | some key => .ok key

/-- `start_conversation` may bring its own keys; without both, they are resolved. -/
def ensureOlmSessionWithKeys (h : DirectMessageHandler O) (W : Wire) (env : Env) (recipientDid : Did)
    (identityKeyHex oneTimeKeyHex : Option String) (found : Except String IdentityFound) :
    Except AppError Unit × DirectMessageHandler O :=
  if recipientDid = h.localDid then (.ok (), h)
  else if (h.sessions[recipientDid]?).isSome then (.ok (), h)
  else match identityKeyHex, oneTimeKeyHex with
    | some ikHex, some otkHex =>
      match hexKey W "recipient_identity_key" ikHex, hexKey W "recipient_one_time_key" otkHex with
      | .error e, _ => (.error e, h)
      | .ok _, .error e => (.error e, h)
      | .ok identityKey, .ok oneTimeKey =>
        match h.initSessionIfNeeded env recipientDid identityKey oneTimeKey with
        | (.ok (), h) => (.ok (), h)
        | (.error e, h) => (.error (.wrap "Failed to initialize Olm session" e), h)
    | _, _ => h.ensureOlmSession env recipientDid found

end DirectMessageHandler

/-! The node's own keys: `from_identity` and `restore_crypto_state` at startup, the router's replenishment,
and the weekly rotation of the fallback key -/

namespace DirectMessageHandler
variable {O : Olm}

/-- The pickle in the store, or else the one in the identity file. -/
def restoredAccount (h : DirectMessageHandler O) (identityFile : O.Account) : O.Account :=
  (h.olmPickle[h.localDid]?).getD identityFile

/-- Generate keys, mark them published, and say which they are. A fallback key is never among them. -/
def mintKeys (h : DirectMessageHandler O) (env : Env) (count : ℕ) : List CurveKey × DirectMessageHandler O :=
  let account := O.generateOneTimeKeys env.rng count h.account
  (O.oneTimeKeys account, { h with account := O.markKeysAsPublished account })

/-- A process that starts: the keys it will advertise, and the handler. -/
def startUp (h : DirectMessageHandler O) (env : Env) (identityFile : O.Account) :
    List CurveKey × DirectMessageHandler O :=
  let account := O.generateOneTimeKeys env.rng 50 (h.restoredAccount identityFile)
  let account := O.generateFallbackKey (env.rng + 50) account
  let h := { h with account := O.markKeysAsPublished account, sessions := ∅ }
  (O.oneTimeKeys account, (h.persistAccount env).restoreSessions)

def rotateFallbackKey (h : DirectMessageHandler O) (env : Env) : DirectMessageHandler O :=
  let account := O.generateFallbackKey env.rng (O.forgetFallbackKey h.account)
  { h with account := O.markKeysAsPublished account }.persistAccount env

end DirectMessageHandler

end Variance

/-! `variance-p2p/src/handlers/identity.rs`: what a node tells of its own keys. The did document, the
username and the mailbox token of an answer are left out. -/

namespace Variance

structure LocalIdentity where
  did : Did
  olmIdentityKey : Bytes
  oneTimeKeys : List Bytes
  mlsKeyPackage : Option Bytes

structure IdentityHandler where
  localIdentity : Option LocalIdentity

namespace IdentityHandler

def setLocalIdentity (did : Did) (olmIdentityKey : Bytes) (oneTimeKeys : List Bytes)
    (mlsKeyPackage : Option Bytes) : IdentityHandler :=
  ⟨some ⟨did, olmIdentityKey, oneTimeKeys, mlsKeyPackage⟩⟩

def updateOneTimeKeys (h : IdentityHandler) (oneTimeKeys : List Bytes) : IdentityHandler :=
  ⟨h.localIdentity.map fun l => { l with oneTimeKeys }⟩

def updateMlsKeyPackage (h : IdentityHandler) (keyPackage : Bytes) : IdentityHandler :=
  ⟨h.localIdentity.map fun l => { l with mlsKeyPackage := some keyPackage }⟩

/-- The whole list of one-time keys goes to everyone who asks for our own did. -/
def resolveDid (h : IdentityHandler) (did : Did) : Option IdentityFound :=
  match h.localIdentity with
  | none => none
  | some l => if l.did = did then some ⟨l.olmIdentityKey, l.oneTimeKeys, l.mlsKeyPackage⟩ else none

end IdentityHandler

end Variance
