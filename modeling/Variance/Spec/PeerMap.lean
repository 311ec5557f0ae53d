import Variance.Spec.NameWorld

/-! Where a DID is reached: the map `did_to_peer` of the swarm loop (`p2p/src/node/event_handlers.rs`), the messages
of other peers that write it, and the documents that `p2p/src/handlers/identity.rs` answers with. -/

namespace Variance

inductive IdentityQuery
  | did (did : Did)
  | username (username : String)
  | peerId (peerId : PeerId)

inductive IdentityResult
  | found (f : FoundName)
  | notFound (query reason : String)
  | error (error details : String)

/-- `create_success_response`. -/
def createSuccessResponse (c : CachedDid) : IdentityResult :=
  .found { didDocument := some c.document, username := none, discriminator := none,
           documentSignature := c.documentSignature.getD [] }

/-- `LocalIdentity`, with its document and name. -/
structure LocalDocument where
  did : Did
  username : Option String
  discriminator : Option UInt32
  didStruct : Option CachedDid

/-- `IdentityHandler`, as far as it answers for documents. -/
structure DocumentHandler where
  peerId : PeerId
  /-- By DID, and by display name. -/
  cache : SledTree CachedDid
  localIdentity : Option LocalDocument

namespace DocumentHandler

/-- What we say of ourselves: our signed document, or a bare one. -/
def selfResponse (me : LocalDocument) : IdentityResult :=
  let displayName := match me.username, me.discriminator with
    | some name, some disc => some (UsernameRegistry.formatUsername name disc)
    | _, _ => none
  let (document, signature) := match me.didStruct with
    | some c => (c.document, c.documentSignature.getD [])
    | none => ({ id := me.did, authentication := [], displayName }, [])
  .found { didDocument := some document, username := me.username, discriminator := me.discriminator,
           documentSignature := signature }

/-- Ourselves, or anybody whose document is cached. -/
def resolveDid (h : DocumentHandler) (did : Did) : IdentityResult :=
  match h.localIdentity with
  | some me => if me.did = did then selfResponse me else fromCache
  | none => fromCache
where
  fromCache : IdentityResult := match h.cache[did]? with
    | some c => createSuccessResponse c
    | none => .notFound did "DID not found in cache. IPFS/IPNS resolution not yet implemented."

def resolveUsername (h : DocumentHandler) (username : String) : IdentityResult :=
  match h.cache[username]? with
  | some c => createSuccessResponse c
  | none => .notFound username "Username not found in cache. DHT provider lookup not yet implemented."

def handleRequest (h : DocumentHandler) : Option IdentityQuery → IdentityResult
  | some (.did did) => h.resolveDid did
  | some (.username username) => h.resolveUsername username
  | some (.peerId peerId) =>
    match h.localIdentity with
    | some me =>
      if peerId = h.peerId then h.resolveDid me.did else .notFound peerId "No DID known for this PeerId"
    | none => .notFound peerId "No DID known for this PeerId"
  | none => .error "Invalid request" "Request must contain a query"

def cacheDid (h : DocumentHandler) (c : CachedDid) : DocumentHandler :=
  let cache := h.cache.insert c.id c
  { h with cache := match c.document.displayName with
      | some username => cache.insert username c
      | none => cache }

def getCachedDid (h : DocumentHandler) (didOrUsername : String) : Option CachedDid := h.cache[didOrUsername]?

end DocumentHandler

/-- What the swarm loop spawns: the mapping of a gossip message, the verification of a document. -/
inductive MapTask
  | learn (did : Did) (peer : PeerId)
  | verify (document : DidDocument) (signature : Bytes) (peer : PeerId)

/-- The identity events that tell of the map. -/
inductive MapEvent
  | didCached (did : Did)
  | peerOffline (did : Did)

/-- The swarm loop, as far as the map goes. -/
structure MapNode where
  didToPeer : SledTree PeerId
  /-- `peer_store`, which outlives the process. -/
  peerStore : SledTree PeerId
  handler : DocumentHandler
  tasks : List MapTask
  events : List MapEvent

namespace MapNode

/-- `did_to_peer` and `peer_store`; an event when the mapping is a new one. -/
def learn (n : MapNode) (f : Faults) (did : Did) (peer : PeerId) : MapNode :=
  { n with
    didToPeer := n.didToPeer.insert did peer
    peerStore := (treeInsert f "did_peer_map" did peer n.peerStore).2
    events := if n.didToPeer[did]? ≠ some peer then n.events ++ [.didCached did] else n.events }

/-- A gossip message, from the peer that forwarded it. -/
def handleGossip (n : MapNode) (propagationSource : PeerId) (message : Option GroupMessage) (allowed : Bool) :
    MapNode :=
  match message with
  | some m =>
    if allowed ∧ m.senderDid ≠ "" then
      { n with tasks := n.tasks ++ [.learn m.senderDid propagationSource] }
    else n
  | none => n

def handleDirectMessage (n : MapNode) (f : Faults) (peer : PeerId) (request : DirectMessage) (allowed : Bool) :
    MapNode :=
  if allowed ∧ request.senderDid ≠ "" then n.learn f request.senderDid peer else n

/-- The response; a request writes no mapping. -/
def handleIdentityRequest (n : MapNode) (query : Option IdentityQuery) (allowed : Bool) : IdentityResult × MapNode :=
  if allowed then (n.handler.handleRequest query, n) else (.error "rate_limited" "Too many requests, retry later", n)

/-- A document is verified in a task of its own. -/
def handleIdentityResponse (n : MapNode) (peer : PeerId) : IdentityResult → MapNode
  | .found f => match f.didDocument with
    | some document => { n with tasks := n.tasks ++ [.verify document f.documentSignature peer] }
    | none => n
  | _ => n

/-- The mappings of the peer go. -/
def handleConnectionClosed (n : MapNode) (peer : PeerId) : MapNode :=
  { n with
    didToPeer := n.didToPeer.filter fun _ p => p ≠ peer
    events := n.events ++ ((n.didToPeer.filter fun _ p => p = peer).keys.map .peerOffline) }

/-- A spawned task comes to run. -/
def runTask (E : Ed25519) (n : MapNode) (f : Faults) : MapTask → MapNode
  | .learn did peer => n.learn f did peer
  | .verify document signature peer =>
    let c := CachedDid.ofProto document signature
    if c.verifyDocument E then
      { n with
        didToPeer := n.didToPeer.insert document.id peer
        peerStore := (treeInsert f "did_peer_map" document.id peer n.peerStore).2
        handler := n.handler.cacheDid c
        events := n.events ++ [.didCached document.id] }
    else n

/-- Where a command sends what is for the DID: the map, then the store. -/
def lookupPeer (n : MapNode) (did : Did) : Option PeerId := (n.didToPeer[did]?).or n.peerStore[did]?

end MapNode

/-- What reaches the swarm loop. The author of an identity response is the peer whose document it carries: the one
that responds, unless that one relays it or has it from its cache. -/
inductive SwarmEvent
  | gossip (propagationSource : PeerId) (message : Option GroupMessage) (allowed : Bool)
  | directMessage (peer : PeerId) (request : DirectMessage) (allowed : Bool) (f : Faults)
  | identityRequest (peer : PeerId) (query : Option IdentityQuery) (allowed : Bool)
  | identityResponse (peer author : PeerId) (result : IdentityResult)
  | connectionEstablished (peer : PeerId)
  | connectionClosed (peer : PeerId)
  | runTask (i : ℕ) (f : Faults)
  | restart

def MapNode.exec (E : Ed25519) (n : MapNode) : SwarmEvent → MapNode
  | .gossip source message allowed => n.handleGossip source message allowed
  | .directMessage peer request allowed f => n.handleDirectMessage f peer request allowed
  | .identityRequest _ query allowed => (n.handleIdentityRequest query allowed).2
  | .identityResponse peer _ result => n.handleIdentityResponse peer result
  | .connectionEstablished _ => n
  | .connectionClosed peer => n.handleConnectionClosed peer
  | .runTask i f => match n.tasks[i]? with
    | some task => { n with tasks := n.tasks.eraseIdx i }.runTask E f task
    | none => n
  | .restart => { n with didToPeer := ∅, handler := { n.handler with cache := ∅ }, tasks := [], events := [] }

/-! Who vouches for a mapping -/

/-- A document for the DID that verifies, and under the DID's own key. -/
def Ed25519.Vouches (E : Ed25519) (document : DidDocument) (signature : Bytes) (did : Did) : Prop :=
  document.id = did ∧ (CachedDid.ofProto document signature).verifyDocument E = true ∧
    (CachedDid.ofProto document signature).getVerifyingKey E = some (E.keyOf did)

/-- With this message the peer, its author, presents such a document. -/
def SwarmEvent.Presents (E : Ed25519) (peer : PeerId) (did : Did) : SwarmEvent → Prop
  | .identityResponse sender author (.found f) =>
    sender = peer ∧ author = peer ∧ ∃ document, f.didDocument = some document ∧
      E.Vouches document f.documentSignature did
  | _ => False

/-- The node, and what its peers have presented so far. -/
structure MapWorld where
  node : MapNode
  presented : PeerId → Did → Prop

def mapSys (E : Ed25519) : StepSystem.Sys MapWorld SwarmEvent where
  init w := w.node.didToPeer = ∅ ∧ w.node.peerStore = ∅ ∧ w.node.tasks = [] ∧ ∀ p d, ¬ w.presented p d
  step w e :=
    { node := w.node.exec E e
      presented := fun p d => w.presented p d ∨ e.Presents E p d }

/-- A DID leads only to a peer that has presented its document. -/
def MapWorld.Sound (w : MapWorld) : Prop := ∀ d p, w.node.didToPeer[d]? = some p → w.presented p d

end Variance
