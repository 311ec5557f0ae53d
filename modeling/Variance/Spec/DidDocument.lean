import Mathlib.Data.List.Forall2
import Variance.Lib.Text
import Variance.Lib.ProtoMap
import Variance.Spec.NameWorld

/-! DID documents in full: the messages of `identity.proto`, and the `Did` that is signed, sent and verified
(`variance-identity/src/did.rs`). A secret key is what its owner alone has, and is left out. -/

namespace Variance

namespace IdentityProto
open Protobuf Protobuf.Schema

structure VerificationMethod where
  id : String
  type : String
  controller : String
  publicKeyMultibase : Bytes

structure Service where
  id : String
  type : String
  serviceEndpoint : String
  metadata : EntryMap String String

structure DidDocument where
  id : Did
  authentication : List VerificationMethod
  keyAgreement : List VerificationMethod
  service : List Service
  createdAt : Int64
  updatedAt : Int64
  displayName : Option String
  avatarCid : Option String
  bio : Option String

def VerificationMethod.schema : Schema VerificationMethod :=
  (prod (singular 1 .string "") <| prod (singular 2 .string "") <| prod (singular 3 .string "") (singular 4 .bytes [])).map
  { toFun := fun (id, type, controller, key) => ⟨id, type, controller, key⟩
    invFun := fun m => (m.id, m.type, m.controller, m.publicKeyMultibase)
    left_inv := fun _ => rfl
    right_inv := fun _ => rfl }

def metadataEntry : Schema (String × String) := prod (singular 1 .string "") (singular 2 .string "")

def Service.schema : Schema Service :=
  (prod (singular 1 .string "") <| prod (singular 2 .string "") <| prod (singular 3 .string "")
    (entries 4 metadataEntry.scalar)).map
  { toFun := fun (id, type, endpoint, metadata) => ⟨id, type, endpoint, metadata⟩
    invFun := fun m => (m.id, m.type, m.serviceEndpoint, m.metadata)
    left_inv := fun _ => rfl
    right_inv := fun _ => rfl }

def DidDocument.schema : Schema DidDocument :=
  (prod (singular 1 .string "") <| prod (repeated 2 VerificationMethod.schema.scalar) <|
    prod (repeated 3 VerificationMethod.schema.scalar) <| prod (repeated 4 Service.schema.scalar) <|
    prod (singular 5 .int64 0) <| prod (singular 6 .int64 0) <| prod (optional 7 .string) <|
    prod (optional 8 .string) (optional 9 .string)).map
  { toFun := fun (id, authentication, keyAgreement, service, createdAt, updatedAt, displayName, avatarCid, bio) =>
      ⟨id, authentication, keyAgreement, service, createdAt, updatedAt, displayName, avatarCid, bio⟩
    invFun := fun m => (m.id, m.authentication, m.keyAgreement, m.service, m.createdAt, m.updatedAt, m.displayName,
      m.avatarCid, m.bio)
    left_inv := fun _ => rfl
    right_inv := fun _ => rfl }

/-- The metadata may be walked in different orders. -/
def Service.Same (s s' : Service) : Prop :=
  s'.id = s.id ∧ s'.type = s.type ∧ s'.serviceEndpoint = s.serviceEndpoint ∧ s.metadata.Same s'.metadata

/-- Equal up to the order in which the metadata of the services is walked. -/
def DidDocument.Same (p p' : DidDocument) : Prop :=
  ∃ service, List.Forall₂ Service.Same p.service service ∧ p' = { p with service }

/-- A decoded document has new maps, which are walked in orders of their own. -/
def Received (bytes : Bytes) (p : DidDocument) : Prop :=
  ∃ sent, DidDocument.schema.decode bytes = some sent ∧ sent.Same p

end IdentityProto

namespace Identity

structure VerificationMethod where
  id : String
  keyType : String
  controller : String
  publicKeyMultibase : Bytes

structure Service where
  id : String
  serviceType : String
  serviceEndpoint : String
  metadata : Protobuf.EntryMap String String

structure DidDocument where
  id : Variance.Did
  authentication : List VerificationMethod
  keyAgreement : List VerificationMethod
  service : List Service
  createdAt : Int64
  updatedAt : Int64
  displayName : Option String
  avatarCid : Option String
  bio : Option String

structure Did where
  id : Variance.Did
  document : DidDocument
  documentSignature : Option Bytes

/-- `Error`, without the texts of the signature crate. -/
inductive Error
  | invalidDid (did : String)
  | missingSignature (did : Variance.Did)
  | malformedSignature (did : Variance.Did)
  | signatureVerification (did : Variance.Did)
deriving DecidableEq

def VerificationMethod.toProto (vm : VerificationMethod) : IdentityProto.VerificationMethod :=
  { id := vm.id, type := vm.keyType, controller := vm.controller, publicKeyMultibase := vm.publicKeyMultibase }

def VerificationMethod.ofProto (vm : IdentityProto.VerificationMethod) : VerificationMethod :=
  { id := vm.id, keyType := vm.type, controller := vm.controller, publicKeyMultibase := vm.publicKeyMultibase }

def Service.toProto (s : Service) : IdentityProto.Service :=
  { id := s.id, type := s.serviceType, serviceEndpoint := s.serviceEndpoint, metadata := s.metadata }

def Service.ofProto (s : IdentityProto.Service) : Service :=
  { id := s.id, serviceType := s.type, serviceEndpoint := s.serviceEndpoint, metadata := s.metadata }

/-- The content is the same; the metadata of the services may be walked in different orders. -/
def Service.Same (s s' : Service) : Prop :=
  s'.id = s.id ∧ s'.serviceType = s.serviceType ∧ s'.serviceEndpoint = s.serviceEndpoint ∧ s.metadata.Same s'.metadata

def DidDocument.Same (doc doc' : DidDocument) : Prop :=
  ∃ service, List.Forall₂ Service.Same doc.service service ∧ doc' = { doc with service }

namespace Did

def toProtoDocument (d : Did) : IdentityProto.DidDocument :=
  { id := d.document.id
    authentication := d.document.authentication.map VerificationMethod.toProto
    keyAgreement := d.document.keyAgreement.map VerificationMethod.toProto
    service := d.document.service.map Service.toProto
    createdAt := d.document.createdAt
    updatedAt := d.document.updatedAt
    displayName := d.document.displayName
    avatarCid := d.document.avatarCid
    bio := d.document.bio }

def toProto (d : Did) : IdentityProto.DidDocument := d.toProtoDocument

/-- An empty signature is none. -/
def fromProtoWithSignature (proto : IdentityProto.DidDocument) (signature : Option Bytes) : Did :=
  { id := proto.id
    document :=
      { id := proto.id
        authentication := proto.authentication.map VerificationMethod.ofProto
        keyAgreement := proto.keyAgreement.map VerificationMethod.ofProto
        service := proto.service.map Service.ofProto
        createdAt := proto.createdAt
        updatedAt := proto.updatedAt
        displayName := proto.displayName
        avatarCid := proto.avatarCid
        bio := proto.bio }
    documentSignature := signature.filter (· ≠ []) }

/-- The first authentication method is the one. -/
def getVerifyingKey (E : Ed25519) (d : Did) : Except Error Bytes :=
  match d.document.authentication with
  | [] => .error (.invalidDid (d.id ++ ": No authentication method in DID document"))
  | vm :: _ =>
    if vm.keyType ≠ "Ed25519VerificationKey2020" then
      .error (.invalidDid (d.id ++ ": Unsupported key type: " ++ vm.keyType ++ ". Expected Ed25519VerificationKey2020"))
    else if vm.publicKeyMultibase.length ≠ 32 then
      .error (.invalidDid (d.id ++ ": Public key must be 32 bytes, got " ++ toString vm.publicKeyMultibase.length))
    else if E.validKey vm.publicKeyMultibase = false then
      .error (.invalidDid (d.id ++ ": Invalid Ed25519 public key: "))
    else .ok vm.publicKeyMultibase

/-- The document as prost encodes it, its maps in the order in which they are walked. -/
def documentSigningBytes (d : Did) : Bytes := IdentityProto.DidDocument.schema.encode d.toProtoDocument

/-- Under the key that the document names. -/
def verifyDocument (E : Ed25519) (d : Did) : Except Error Unit :=
  match d.documentSignature with
  | none => .error (.missingSignature d.id)
  | some signature =>
    if signature.length ≠ 64 then .error (.malformedSignature d.id)
    else
      match d.getVerifyingKey E with
      | .error e => .error e
      | .ok key =>
        if E.verify key d.documentSigningBytes signature then .ok () else .error (.signatureVerification d.id)

section
variable {E : Ed25519} {d : Did}

theorem getVerifyingKey_ok_iff {key : Bytes} : d.getVerifyingKey E = .ok key ↔
    ∃ vm rest, d.document.authentication = vm :: rest ∧ vm.keyType = "Ed25519VerificationKey2020" ∧
      vm.publicKeyMultibase.length = 32 ∧ E.validKey vm.publicKeyMultibase = true ∧ vm.publicKeyMultibase = key := by
  unfold getVerifyingKey
  cases hauth : d.document.authentication with
  | nil => simp
  | cons vm rest =>
    dsimp only
    split_ifs with htype hlength hvalid
    · simp [htype]
    · simp [hlength]
    · simp [hvalid]
    · simp only [ne_eq, not_not] at htype hlength
      simp [htype, hlength, hvalid]

theorem verifyDocument_ok_iff : d.verifyDocument E = .ok () ↔ ∃ signature key, d.documentSignature = some signature ∧
    signature.length = 64 ∧ d.getVerifyingKey E = .ok key ∧ E.verify key d.documentSigningBytes signature = true := by
  unfold verifyDocument
  cases hsignature : d.documentSignature with
  | none => simp
  | some signature =>
    dsimp only
    split_ifs with hlength
    · simp [hlength]
    · rw [not_not] at hlength
      cases hkey : d.getVerifyingKey E with
      | error e => simp
      | ok key =>
        by_cases hverify : E.verify key d.documentSigningBytes signature = true
        · simp [hlength, hverify]
        · simp [hlength, hverify]

end

/-- An identity response with a document, `handle_identity_response`: what is accepted is what verifies. -/
def acceptResponse (E : Ed25519) (proto : IdentityProto.DidDocument) (signature : Bytes) : Option Did :=
  let d := fromProtoWithSignature proto (some signature)
  if d.verifyDocument E = .ok () then some d else none

def Accepted (E : Ed25519) (d : Did) : Prop := ∃ proto signature, acceptResponse E proto signature = some d

/-- Whatever arrives of the document verifies again. -/
def Survives (E : Ed25519) (d : Did) : Prop :=
  d.verifyDocument E = .ok () → ∀ p, IdentityProto.Received (IdentityProto.DidDocument.schema.encode d.toProto) p →
    (fromProtoWithSignature p d.documentSignature).verifyDocument E = .ok ()

/-- What is signed is a function of the content. -/
def Canonical (d : Did) : Prop :=
  ∀ document, d.document.Same document → { d with document }.documentSigningBytes = d.documentSigningBytes

end Did

/-- `identity_gen.rs` -/
def didFromVerifyingKey (key : Bytes) : Variance.Did :=
  "did:variance:" ++ String.ofList (Text.hexChars (key.take 8))

end Identity
end Variance
