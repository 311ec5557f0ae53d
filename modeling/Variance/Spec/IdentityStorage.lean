import Variance.Spec.DidDocument
import Variance.Spec.IdentityCache
import Variance.Spec.Storage

/-! Documents under published names: the storage of `variance-identity/src/storage.rs`, who publishes to it
(`app/src/node.rs` at start-up, `api/identity.rs` with a new username), and `resolve_identity`, which reads from it. -/

namespace Variance

/-- `serde_json` on a `Did`, and SHA-256. -/
structure ContentCodec where
  toJson : Identity.Did → Bytes
  fromJson : Bytes → Option Identity.Did
  sha256 : Bytes → Bytes

/-- `content` is addressed by its hash, `names` is not. -/
structure LocalStorage where
  content : SledTree Bytes
  names : SledTree String

namespace LocalStorage

def generateCid (K : ContentCodec) (did : Identity.Did) : String :=
  "local:" ++ String.ofList (Text.hexChars (K.sha256 (K.toJson did)))

def store (s : LocalStorage) (K : ContentCodec) (f : Faults) (did : Identity.Did) :
    Except MsgError String × LocalStorage :=
  let cid := generateCid K did
  let w := treeInsert f "content" cid (K.toJson did) s.content
  (w.1.map fun _ => cid, { s with content := w.2 })

/-- `none` for a document that does not parse is an error like that of the tree. -/
def fetch (s : LocalStorage) (K : ContentCodec) (f : Faults) (id : String) : Except MsgError (Option Identity.Did) :=
  if f "content" id then .error .storage
  else match s.content[id]? with
    | none => .ok none
    | some bytes => match K.fromJson bytes with
      | some did => .ok (some did)
      | none => .error .storage

def publish (s : LocalStorage) (f : Faults) (name contentId : String) : Except MsgError Unit × LocalStorage :=
  let w := treeInsert f "names" name contentId s.names
  (w.1, { s with names := w.2 })

def resolve (s : LocalStorage) (f : Faults) (name : String) : Except MsgError (Option String) :=
  if f "names" name then .error .storage else .ok s.names[name]?

end LocalStorage

/-- `variance-`, and the first sixteen digits of the DID in hex. -/
def ipnsKeyName (did : Did) : String :=
  "variance-" ++ String.ofList ((Text.hexChars (utf8Bytes did)).take 16)

/-- The document as both publications make it: without keys, and unsigned. -/
def publishedDid (did : Did) (now : Int64) (displayName : Option String) : Identity.Did :=
  { id := did
    document := { id := did, authentication := [], keyAgreement := [], service := [], createdAt := now,
                  updatedAt := now, displayName, avatarCid := none, bio := none }
    documentSignature := none }

/-- What `resolve_identity` answers; `own` is the local identity. -/
inductive Resolution
  | own
  | resolved (did : Identity.Did)
  | unresolved

/-- `now` is the cache's, and `g` its faults. -/
def resolveIdentity (E : Ed25519) (K : ContentCodec) (s : LocalStorage) (localDid : Did)
    (cache : MultiLayerCache Identity.Did) (f : Faults) (g : DiskFaults) (did : Did) (now : ℕ) :
    Resolution × MultiLayerCache Identity.Did :=
  if did = localDid then (.own, cache)
  else match s.resolve f (ipnsKeyName did) with
    | .ok (some cid) => match s.fetch K f cid with
      | .ok (some doc) =>
        (.resolved doc, (cache.insert g (decide (doc.verifyDocument E = .ok ())) did doc now).2)
      | _ => (.unresolved, cache)
    | _ => (.unresolved, cache)

/-! Runs -/

/-- `did:variance:<hex>`. -/
structure VarianceDid where
  hex : String
  isHex : ∀ c ∈ hex.toList, (Text.hexValue c).isSome = true

def VarianceDid.did (d : VarianceDid) : Did := "did:variance:" ++ d.hex

/-- A publication under way: stored, and not yet under its name. -/
structure Publication where
  did : VarianceDid
  document : Identity.Did
  cid : String

/-- One storage, shared by any number of nodes. -/
structure NamingWorld where
  storage : LocalStorage
  underWay : List Publication
  /-- The document most recently published for a DID. -/
  published : Did → Option Identity.Did
  caches : Did → MultiLayerCache Identity.Did

inductive NamingEvent
  | store (did : VarianceDid) (now : Int64) (displayName : Option String) (f : Faults)
  | publish (i : ℕ) (f : Faults)
  | resolve (localDid did : VarianceDid) (f : Faults) (g : DiskFaults) (now : ℕ)

namespace NamingWorld

/-- A publication ends where its store or its publish fails. -/
def next (E : Ed25519) (K : ContentCodec) (w : NamingWorld) : NamingEvent → NamingWorld
  | .store d now displayName f =>
    let doc := publishedDid d.did now displayName
    match w.storage.store K f doc with
    | (.ok cid, storage) => { w with storage, underWay := w.underWay ++ [⟨d, doc, cid⟩] }
    | (.error _, storage) => { w with storage }
  | .publish i f =>
    match w.underWay[i]? with
    | none => w
    | some p =>
      match w.storage.publish f (ipnsKeyName p.did.did) p.cid with
      | (.ok (), storage) =>
        { w with
          storage
          underWay := w.underWay.eraseIdx i
          published := Function.update w.published p.did.did (some p.document) }
      | (.error _, storage) => { w with storage, underWay := w.underWay.eraseIdx i }
  | .resolve localDid d f g now =>
    let r := resolveIdentity E K w.storage localDid.did (w.caches localDid.did) f g d.did now
    { w with caches := Function.update w.caches localDid.did r.2 }

/-- DIDs publish under names of their own; what is resolved of a DID, and cached under it, is its document, as most
recently published. -/
def Right (E : Ed25519) (K : ContentCodec) (w : NamingWorld) (e : NamingEvent) : Prop :=
  match e with
  | .store .. => True
  | .publish .. => ∀ d d', (w.next E K e).published d ≠ none → (w.next E K e).published d' ≠ none → d ≠ d' →
      ipnsKeyName d ≠ ipnsKeyName d'
  | .resolve localDid d f g now =>
    let r := resolveIdentity E K w.storage localDid.did (w.caches localDid.did) f g d.did now
    (∀ doc, r.1 = .resolved doc → doc.id = d.did ∧ doc.document.id = d.did ∧ w.published d.did = some doc) ∧
      (r.2 = w.caches localDid.did ∨ ∃ doc, doc.document.id = d.did ∧ w.published d.did = some doc ∧
        r.2 = ((w.caches localDid.did).insert g true d.did doc now).2)

/-- The condition: whoever publishes is the only one who has, and nobody else's DID is resolved then, save by its own
node or to no avail. -/
def Alone (K : ContentCodec) (w : NamingWorld) : NamingEvent → Prop
  | .store .. => True
  | .publish i f => ∀ p, w.underWay[i]? = some p → f "names" (ipnsKeyName p.did.did) = false →
      ∀ d, w.published d ≠ none → d = p.did.did
  | .resolve localDid d f _ _ => d.did = localDid.did ∨ f "names" (ipnsKeyName d.did) = true ∨
      ∀ d' doc, w.published d' = some doc → f "content" (LocalStorage.generateCid K doc) = false → d' = d.did

end NamingWorld

def namingSys (E : Ed25519) (K : ContentCodec) : StepSystem.Sys NamingWorld NamingEvent where
  init w := w.storage = ⟨∅, ∅⟩ ∧ w.underWay = [] ∧ w.published = fun _ => none
  step := NamingWorld.next E K

/-- What is relied on: JSON of a document reads back, and SHA-256 has no collisions. -/
structure ContentCodec.Lawful (K : ContentCodec) : Prop where
  fromJson_toJson : ∀ did now displayName,
    K.fromJson (K.toJson (publishedDid did now displayName)) = some (publishedDid did now displayName)
  sha256_inj : ∀ a b, K.sha256 a = K.sha256 b → a = b

end Variance
