import Variance.Lib.Run
import Variance.Spec.Direct
import Variance.Spec.Usernames

/-! Every way a name gets into the registry: `handle_rename_event` and `handle_identity_response`
(`p2p/src/node/event_handlers.rs`), their listeners (`event_router/social.rs`), the two resolvers
(`api/identity.rs`, `api/helpers.rs`), our own `register_username`, and the start of a node. -/

namespace Variance

structure VerificationMethod where
  keyType : String
  publicKeyMultibase : Bytes
deriving DecidableEq

/-- `DidDocument`, as far as names and keys go. -/
structure DidDocument where
  id : Did
  authentication : List VerificationMethod
  displayName : Option String
deriving DecidableEq

/-- Ed25519 as `dalek` has it, and whose key is whose: `keyOf` is a did's own key, `peerId` the libp2p peer that
holds a key. -/
structure Ed25519 where
  validKey : Bytes → Bool
  /-- `Signature::from_slice` and `verify`: key, message, signature. -/
  verify : Bytes → Bytes → Bytes → Bool
  encodeDocument : DidDocument → Bytes
  keyOf : Did → Bytes
  peerId : Bytes → PeerId

/-- Any scheme will do where only the flow of documents and messages counts: a key's signature is sixty-four times its
first byte. -/
def Ed25519.repeated : Ed25519 where
  validKey _ := true
  verify key _ signature := signature = List.replicate 64 (key.headD 0)
  encodeDocument doc := utf8Bytes doc.id
  keyOf _ := List.replicate 32 1
  peerId key := String.ofList (key.map fun b => Char.ofNat b.toNat)

/-- The `Did` that an identity response is made into, `from_proto_with_signature`. -/
structure CachedDid where
  id : Did
  document : DidDocument
  documentSignature : Option Bytes

def CachedDid.ofProto (proto : DidDocument) (signature : Bytes) : CachedDid :=
  ⟨proto.id, proto, if signature = [] then none else some signature⟩

def CachedDid.getVerifyingKey (E : Ed25519) (c : CachedDid) : Option Bytes :=
  match c.document.authentication with
  | [] => none
  | m :: _ =>
    if m.keyType = "Ed25519VerificationKey2020" ∧ m.publicKeyMultibase.length = 32 ∧
        E.validKey m.publicKeyMultibase then
      some m.publicKeyMultibase
    else none

/-- A document verifies under the key it names itself. -/
def CachedDid.verifyDocument (E : Ed25519) (c : CachedDid) : Bool :=
  match c.documentSignature, c.getVerifyingKey E with
  | some signature, some key => E.verify key (E.encodeDocument c.document) signature
  | _, _ => false

structure UsernameChanged where
  did : Did
  username : String
  discriminator : UInt32
  signature : Bytes
  timestamp : ℤ

/-- `did || username || discriminator_le_bytes || timestamp_le_bytes`. -/
def UsernameChanged.payload (r : UsernameChanged) : Bytes :=
  utf8Bytes r.did ++ utf8Bytes r.username ++ leBytes 4 r.discriminator.toNat ++
    leBytes 8 (r.timestamp % 2 ^ 64).toNat

/-- `IdentityFound`, as far as names go. -/
structure FoundName where
  didDocument : Option DidDocument
  username : Option String
  discriminator : Option UInt32
  documentSignature : Bytes

/-- The dedicated fields before the document's display name. -/
def FoundName.cached (found : FoundName) (doc : DidDocument) : Option (String × UInt32) :=
  let fromDocument := (doc.displayName.bind (Text.rsplitOnce '#')).bind fun p =>
    (Text.parseU32 p.2).map fun disc => (p.1, disc)
  match found.username, found.discriminator with
  | some name, some disc => if name ≠ "" ∧ 0 < disc then some (name, disc) else fromDocument
  | _, _ => fromDocument

/-- What the network answers a resolver: the providers of a base name, and the identity response of each. -/
structure UsernameNet where
  findUsernameProviders : String → Except String (List PeerId)
  sendIdentityRequest : PeerId → Except String (Option FoundName)

structure NameNode where
  localDid : Did
  registry : UsernameRegistry
  /-- The `peer_names` tree: the formatted name under its did. -/
  peerNames : SledTree String
  /-- The name in the identity file. -/
  identityName : Option (String × UInt32)
  /-- The P2P handler's cache, in memory. -/
  didCache : SledTree CachedDid
  /-- The rename channel. Its events leave the signature out; it is kept here for the record. -/
  renames : List UsernameChanged

namespace NameNode

/-- `signature` and time window first; a did without a cached document passes unverified. -/
def verifyRename (E : Ed25519) (n : NameNode) (r : UsernameChanged) (now : ℤ) : Bool :=
  if r.signature = [] ∨ r.timestamp = 0 then false
  else if 300 < (now - r.timestamp).natAbs then false
  else match n.didCache[r.did]? with
    | some c =>
      match c.getVerifyingKey E with
      | some key => E.verify key r.payload r.signature
      | none => false
    | none => true

/-- `allowed`: the peer is within its rate limit. -/
def handleRenameEvent (E : Ed25519) (n : NameNode) (r : UsernameChanged) (now : ℤ) (allowed : Bool) : NameNode :=
  if allowed && n.verifyRename E r now then { n with renames := n.renames ++ [r] } else n

def storePeerName (n : NameNode) (f : Faults) (did : Did) (username : String) (disc : UInt32) : NameNode :=
  { n with peerNames := (treeInsert f "peer_names" did (UsernameRegistry.formatUsername username disc)
      n.peerNames).2 }

/-- Cache and persist, as both listeners do; a failed write is only logged. -/
def learnName (n : NameNode) (U : Unicode) (f : Faults) (did : Did) (username : String) (disc : UInt32) : NameNode :=
  { n with registry := n.registry.cacheMapping U username disc did }.storePeerName f did username disc

/-- The rename listener's next event. -/
def routeRename (n : NameNode) (U : Unicode) (f : Faults) : NameNode :=
  match n.renames with
  | [] => n
  | r :: rest => { n with renames := rest }.learnName U f r.did r.username r.discriminator

/-- `ResponseReceived`: the listener takes the name as the response has it. -/
def routeResponse (n : NameNode) (U : Unicode) (f : Faults) (found : FoundName) : NameNode :=
  match found.didDocument with
  | none => n
  | some doc =>
    match found.cached doc with
    | none => n
    | some (name, disc) => n.learnName U f doc.id name disc

/-- By its did, and by its display name. -/
def cacheDid (n : NameNode) (c : CachedDid) : NameNode :=
  let cache := n.didCache.insert c.id c
  { n with didCache := match c.document.displayName with
      | some username => cache.insert username c
      | none => cache }

/-- The task `handle_identity_response` spawns, whenever it comes to run: only a verified document is cached. -/
def handleIdentityResponse (E : Ed25519) (n : NameNode) (found : FoundName) : NameNode :=
  match found.didDocument with
  | none => n
  | some doc =>
    let c := CachedDid.ofProto doc found.documentSignature
    if c.verifyDocument E then n.cacheDid c else n

/-- The providers in turn, until one answers. `resolve_username` caches an answer and then looks whether its
discriminator was asked for (`cacheFirst`), `resolve_invitee_did` looks first. -/
def askProviders (U : Unicode) (cacheFirst : Bool) (ask : PeerId → Except String (Option FoundName))
    (baseName : String) (requested : Option UInt32) :
    List PeerId → UsernameRegistry → Option (Did × UInt32) × UsernameRegistry
  | [], r => (none, r)
  | p :: ps, r =>
    match ask p with
    | .ok (some found) =>
      match found.didDocument with
      | some doc =>
        let disc := found.discriminator.getD 1
        let r' := (r.registerWithDiscriminator U baseName disc doc.id).2
        if requested.all (· = disc) then (some (doc.id, disc), r')
        else askProviders U cacheFirst ask baseName requested ps (if cacheFirst then r' else r)
      | none => askProviders U cacheFirst ask baseName requested ps r
    | _ => askProviders U cacheFirst ask baseName requested ps r

/-- What is found in the registry itself: one holder, or several. -/
def lookup (n : NameNode) (U : Unicode) (baseName : String) : Option UInt32 → List (UInt32 × Did)
  | some disc => ((n.registry.lookupExact U baseName disc).map fun did => (disc, did)).toList
  | none => n.registry.lookupAll U baseName

/-- A username with or without its discriminator. -/
def query (username : String) : String × Option UInt32 :=
  match UsernameRegistry.parseUsername username with
  | some (name, disc) => (name, some disc)
  | none => (username, none)

/-- The part both resolvers share: providers are only asked when the registry has nobody. -/
def resolveThrough (n : NameNode) (U : Unicode) (cacheFirst : Bool) (lookupFailed : String → String)
    (net : UsernameNet) (username : String) : Except AppError (List (UInt32 × Did)) × NameNode :=
  let (baseName, requested) := query username
  let found := n.lookup U baseName requested
  if found ≠ [] then (.ok found, n)
  else match net.findUsernameProviders baseName with
    | .error e => (.error (.app (lookupFailed baseName ++ ": " ++ e)), n)
    | .ok providers =>
      if providers = [] then
        (.error (.notFound ("No user found with username '" ++ username ++ "'")), n)
      else match askProviders U cacheFirst net.sendIdentityRequest baseName requested providers n.registry with
        | (some (did, disc), registry) => (.ok [(disc, did)], { n with registry })
        | (none, registry) =>
          (.error (.notFound ("Found " ++ toString providers.length ++ " provider(s) for '" ++ username ++
            "' but none responded with a valid identity")), { n with registry })

/-- `resolve_username`: every holder of the name. -/
def resolveUsername (n : NameNode) (U : Unicode) (net : UsernameNet) (username : String) :
    Except AppError (List (UInt32 × Did)) × NameNode :=
  n.resolveThrough U true (fun _ => "DHT lookup failed") net username

/-- `resolve_invitee_did`: the one holder of the name. -/
def resolveInviteeDid (n : NameNode) (U : Unicode) (net : UsernameNet) (invitee : String) :
    Except AppError Did × NameNode :=
  if Text.HasPrefix "did:" invitee then (.ok invitee, n)
  else match n.resolveThrough U false (fun baseName => "DHT lookup failed for '" ++ baseName ++ "'") net invitee with
    | (.error e, n) => (.error e, n)
    | (.ok [(_, did)], n) => (.ok did, n)
    | (.ok found, n) =>
      let baseName := (query invitee).1
      (.error (.badRequest ("Ambiguous username '" ++ baseName ++ "' — " ++ toString found.length ++
        " users share this name. Add a discriminator, e.g. '" ++ baseName ++ "#0001'.")), n)

/-- `persisted`: the identity file could be written. -/
def registerUsername (n : NameNode) (U : Unicode) (username : String) (draws : List UInt32) (persisted : Bool) :
    Except AppError Unit × NameNode :=
  match UsernameRegistry.validateUsername U username with
  | .error e => (.error (.badRequest ("Invalid username: " ++ e.display)), n)
  | .ok () =>
    match n.registry.registerLocal U username n.localDid draws with
    | (.error e, registry) => (.error (.app ("Failed to register username: " ++ e.display)), { n with registry })
    | (.ok (_, disc), registry) =>
      (.ok (), { n with
        registry
        identityName := if persisted then some (username, disc) else n.identityName })

/-- `load_all_peer_names`; an entry that does not parse is passed over. -/
def loadAllPeerNames (n : NameNode) : List (Did × String × UInt32) :=
  n.peerNames.toList.filterMap fun e =>
    (Text.rsplitOnce '#' e.2).bind fun p => (Text.parseU32 p.2).map fun disc => (e.1, p.1, disc)

/-- A new process: our own name from the identity file, then everybody's. -/
def start (n : NameNode) (U : Unicode) : NameNode :=
  let own := match n.identityName with
    | some (username, disc) =>
      (UsernameRegistry.new.registerWithDiscriminator U username disc n.localDid).2
    | none => UsernameRegistry.new
  { n with
    registry := n.loadAllPeerNames.foldl (fun r x => r.cacheMapping U x.2.1 x.2.2 x.1) own
    didCache := ∅
    renames := [] }

end NameNode

inductive NameEvent
  | rename (r : UsernameChanged) (now : ℤ) (allowed : Bool)
  | routeRename (f : Faults)
  | missed (k : ℕ)
  | response (peer : PeerId) (found : FoundName) (f : Faults)
  | verified (found : FoundName)
  | resolve (net : UsernameNet) (username : String)
  | resolveInvitee (net : UsernameNet) (invitee : String)
  | register (username : String) (draws : List UInt32) (persisted : Bool)
  | start

def NameNode.exec (E : Ed25519) (U : Unicode) (n : NameNode) : NameEvent → NameNode
  | .rename r now allowed => n.handleRenameEvent E r now allowed
  | .routeRename f => n.routeRename U f
  | .missed k => { n with renames := n.renames.drop k }
  | .response _ found f => n.routeResponse U f found
  | .verified found => n.handleIdentityResponse E found
  | .resolve net username => (n.resolveUsername U net username).2
  | .resolveInvitee net invitee => (n.resolveInviteeDid U net invitee).2
  | .register username draws persisted => (n.registerUsername U username draws persisted).2
  | .start => n.start U

/-! Who a step speaks for -/

def UsernameChanged.Signed (E : Ed25519) (r : UsernameChanged) : Prop :=
  E.verify (E.keyOf r.did) r.payload r.signature = true

/-- The verified document of the did, from the peer that holds the did's key. -/
def FoundName.Authentic (E : Ed25519) (found : FoundName) (peer : PeerId) (did : Did) : Prop :=
  ∃ doc, found.didDocument = some doc ∧ doc.id = did ∧
    (CachedDid.ofProto doc found.documentSignature).verifyDocument E = true ∧
    (CachedDid.ofProto doc found.documentSignature).getVerifyingKey E = some (E.keyOf did) ∧
    peer = E.peerId (E.keyOf did)

def NameNode.SpeaksFor (E : Ed25519) (n : NameNode) (d : Did) : NameEvent → Prop
  | .routeRename _ => ∃ r ∈ n.renames.head?, r.did = d ∧ r.Signed E
  | .response peer found _ => found.Authentic E peer d
  | .resolve net _ | .resolveInvitee net _ =>
    ∃ peer found, net.sendIdentityRequest peer = .ok (some found) ∧ found.Authentic E peer d
  | _ => False

/-- A node, and the names its peers were given by a step that spoke for them. -/
structure NameWorld where
  node : NameNode
  vouched : Did → String × UInt32 → Prop

def nameSys (E : Ed25519) (U : Unicode) : StepSystem.Sys NameWorld NameEvent where
  init w := w.node.registry = .new ∧ w.node.peerNames = ∅ ∧ w.node.identityName = none ∧ w.node.didCache = ∅ ∧
    w.node.renames = [] ∧ ∀ d nm, ¬ w.vouched d nm
  step w e :=
    { node := w.node.exec E U e
      vouched := fun d nm => w.vouched d nm ∨
        w.node.SpeaksFor E d e ∧ (w.node.exec E U e).registry.getUsername d = some nm }

/-! Names as text -/

/-- `s` is the name and a number of these digits, perhaps after an `@` and with zeroes before the number. -/
def Writes (s name : String) (digits : List Char) : Prop :=
  ∃ mark zeros, (mark = "" ∨ mark = "@") ∧
    s = mark ++ name ++ String.singleton '#' ++ String.ofList (List.replicate zeros '0' ++ digits)

/-- Two texts that differ in no more than an `@`, the case of the name and the zeroes. -/
def SameName (U : Unicode) (s t : String) : Prop :=
  ∃ name name' digits, (∀ c ∈ digits, c.isDigit = true) ∧ Writes s name digits ∧ Writes t name' digits ∧
    U.toLowercase name = U.toLowercase name'

/-- What follows the last `#` is a discriminator with a plus before it. -/
def PlusSigned (s : String) : Prop :=
  ∃ name digits, s = name ++ String.singleton '#' ++ String.ofList ('+' :: digits) ∧ digits ≠ [] ∧
    (∀ c ∈ digits, c.isDigit = true) ∧ 1 ≤ Nat.ofDigitChars 10 digits 0 ∧ Nat.ofDigitChars 10 digits 0 ≤ 9999

/-- A call of `store_peer_name`. -/
structure PeerNameStore where
  faults : Faults
  did : Did
  username : String
  discriminator : UInt32

def NameNode.storePeerNames (n : NameNode) (stores : List PeerNameStore) : NameNode :=
  stores.foldl (fun n x => n.storePeerName x.faults x.did x.username x.discriminator) n

/-- The last name stored for a peer. -/
def lastStored (stores : List PeerNameStore) (did : Did) : Option (String × UInt32) :=
  (stores.reverse.find? fun x => x.did = did ∧ x.faults "peer_names" did = false).map fun x =>
    (x.username, x.discriminator)

/-- A name that is valid is read as it was written, a text that is read is written as it was, and the names stored in
an empty tree are loaded, each once. -/
structure TextForms (U : Unicode) (name : String) (disc : UInt32) (s : String) (n : NameNode)
    (stores : List PeerNameStore) : Prop where
  parsed : UsernameRegistry.validateUsername U name = .ok () → minDiscriminator ≤ disc → disc ≤ maxDiscriminator →
    UsernameRegistry.parseUsername (UsernameRegistry.formatUsername name disc) = some (name, disc)
  formatted : ∀ name' disc', UsernameRegistry.parseUsername s = some (name', disc') →
    SameName U s (UsernameRegistry.formatUsername name' disc')
  loaded : n.peerNames = ∅ → ((n.storePeerNames stores).loadAllPeerNames.map (·.1)).Nodup ∧
    ∀ x, x ∈ (n.storePeerNames stores).loadAllPeerNames ↔ lastStored stores x.1 = some x.2

end Variance
