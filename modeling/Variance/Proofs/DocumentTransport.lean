import Variance.Spec.DidDocument

/-! A DID document's signature is over the metadata of its services in the order in which they happen to be walked. -/

namespace Variance

namespace Identity
open Protobuf

variable {E : Ed25519} {d d' : Did}

/-- No service has two entries. -/
def DidDocument.Unordered (doc : DidDocument) : Prop := ∀ s ∈ doc.service, s.metadata.entries.length ≤ 1

theorem VerificationMethod.map_ofProto_toProto (vms : List VerificationMethod) :
    (vms.map toProto).map ofProto = vms := by
  rw [List.map_map]
  exact List.map_id vms

theorem Service.map_ofProto_toProto (ss : List Service) : (ss.map toProto).map ofProto = ss := by
  rw [List.map_map]
  exact List.map_id ss

/-! The order of the metadata -/

theorem Service.Same.refl (s : Service) : s.Same s := ⟨rfl, rfl, rfl, .refl _⟩

theorem Service.Same.eq {s s' : Service} (h : s.Same s') (hs : s.metadata.entries.length ≤ 1) : s' = s := by
  obtain ⟨id, type, endpoint, metadata⟩ := s
  obtain ⟨rfl, rfl, rfl, hmetadata⟩ := h
  obtain rfl : s'.metadata = metadata := hmetadata.eq_of_length_le_one hs
  rfl

theorem Service.eq_of_forall₂ {ss ss' : List Service} (h : List.Forall₂ Same ss ss')
    (hs : ∀ s ∈ ss, s.metadata.entries.length ≤ 1) : ss' = ss := by
  induction h with
  | nil => rfl
  | cons hsame _ ih =>
    rw [hsame.eq (hs _ List.mem_cons_self), ih fun s hs' => hs s (List.mem_cons_of_mem _ hs')]

/-- Two entries can be walked the other way round. -/
theorem Service.exists_forall₂_ne {ss : List Service} {s : Service} (hs : s ∈ ss) (h : 1 < s.metadata.entries.length) :
    ∃ ss', List.Forall₂ Same ss ss' ∧ ss' ≠ ss := by
  obtain ⟨before, after, rfl⟩ := List.append_of_mem hs
  obtain ⟨metadata, hsame, hne⟩ := EntryMap.exists_same_ne h
  refine ⟨before ++ { s with metadata } :: after, ?_, fun heq => hne ?_⟩
  · refine List.rel_append (List.forall₂_same.2 fun s _ => Same.refl s) (.cons ⟨rfl, rfl, rfl, hsame⟩ ?_)
    exact List.forall₂_same.2 fun s _ => Same.refl s
  · have hcons : { s with metadata } :: after = s :: after := List.append_cancel_left heq
    have hservice : ({ s with metadata } : Service) = s := List.head_eq_of_cons_eq hcons
    exact congrArg Service.metadata hservice

theorem Service.forall₂_ofProto {ps ps' : List IdentityProto.Service}
    (h : List.Forall₂ IdentityProto.Service.Same ps ps') : List.Forall₂ Same (ps.map ofProto) (ps'.map ofProto) := by
  rw [List.forall₂_map_left_iff, List.forall₂_map_right_iff]
  exact h

namespace Did

/-- Verification looks at the document and the signature alone. -/
theorem verifyDocument_congr (hdocument : d'.document = d.document)
    (hsignature : d'.documentSignature = d.documentSignature) :
    d'.verifyDocument E = .ok () ↔ d.verifyDocument E = .ok () := by
  have hkey (key : Bytes) : d'.getVerifyingKey E = .ok key ↔ d.getVerifyingKey E = .ok key := by
    rw [getVerifyingKey_ok_iff, getVerifyingKey_ok_iff, hdocument]
  have hbytes : d'.documentSigningBytes = d.documentSigningBytes := by
    unfold documentSigningBytes toProtoDocument
    rw [hdocument]
  simp only [verifyDocument_ok_iff, hkey, hbytes, hsignature]

/-- What is made of a document that arrives is the document, with its maps walked as they arrive. -/
theorem received_fromProto {p : IdentityProto.DidDocument}
    (h : IdentityProto.Received (IdentityProto.DidDocument.schema.encode d.toProto) p) :
    d.document.Same (fromProtoWithSignature p d.documentSignature).document := by
  obtain ⟨sent, hsent, service, hsame, rfl⟩ := h
  rw [Schema.decode_encode] at hsent
  obtain rfl := Option.some.inj hsent
  refine ⟨service.map Service.ofProto, ?_, ?_⟩
  · have hservice := Service.forall₂_ofProto hsame
    rwa [show d.toProto.service = d.document.service.map Service.toProto from rfl, Service.map_ofProto_toProto] at hservice
  · unfold fromProtoWithSignature toProto toProtoDocument
    simp only [VerificationMethod.map_ofProto_toProto]

theorem unordered_eq {document : DidDocument} (h : d.document.Unordered) (hsame : d.document.Same document) :
    document = d.document := by
  obtain ⟨service, hservice, rfl⟩ := hsame
  rw [Service.eq_of_forall₂ hservice h]

theorem survives_of_unordered (h : d.document.Unordered) : d.Survives E := by
  intro hverify p hp
  obtain ⟨signature, -, hsignature, hlength, -⟩ := verifyDocument_ok_iff.1 hverify
  refine (verifyDocument_congr (unordered_eq h (received_fromProto hp)) ?_).2 hverify
  have hne : signature ≠ [] := by
    rintro rfl
    simp at hlength
  show d.documentSignature.filter (· ≠ []) = d.documentSignature
  rw [hsignature]
  simp [hne]

theorem canonical_iff : d.Canonical ↔ d.document.Unordered := by
  constructor
  · intro h s hs
    by_contra hlt
    obtain ⟨service, hsame, hne⟩ := Service.exists_forall₂_ne hs (not_le.1 hlt)
    have hbytes := h { d.document with service } ⟨service, hsame, rfl⟩
    have hproto := congrArg IdentityProto.DidDocument.service (Schema.encode_inj.1 hbytes)
    have hmap : service.map Service.toProto = d.document.service.map Service.toProto := hproto
    apply hne
    rw [← Service.map_ofProto_toProto service, hmap, Service.map_ofProto_toProto]
  · intro h document hsame
    rw [unordered_eq h hsame]

end Did
end Identity

namespace DocumentTransport
open Identity Protobuf

/-- For every scheme and every document with its signature: the signature survives transport and is over the content
alone exactly when no service has more than one entry of metadata. -/
theorem signature_survives_iff (E : Ed25519) (d : Identity.Did) :
    d.Survives E ∧ d.Canonical ↔ ∀ s ∈ d.document.service, s.metadata.entries.length ≤ 1 :=
  ⟨fun h => Did.canonical_iff.1 h.2, fun h => ⟨Did.survives_of_unordered h, Did.canonical_iff.2 h⟩⟩

/-- A document with a service of two entries. -/
def document (metadata : EntryMap String String) : Identity.DidDocument :=
  { id := "did:variance:0101010101010101"
    authentication := [⟨"#key-1", "Ed25519VerificationKey2020", "did:variance:0101010101010101", List.replicate 32 1⟩]
    keyAgreement := []
    service := [⟨"#relay", "Relay", "/dns/relay", metadata⟩]
    createdAt := 0
    updatedAt := 0
    displayName := none
    avatarCid := none
    bio := none }

def metadata : EntryMap String String := ⟨[("region", "eu"), ("tier", "gold")], by decide⟩
def rewalked : EntryMap String String := ⟨[("tier", "gold"), ("region", "eu")], by decide⟩

def signed : Identity.Did := ⟨"did:variance:0101010101010101", document metadata, some (List.replicate 64 1)⟩

/-- The one signature there is, of the document as it was signed. -/
def once : Ed25519 where
  validKey _ := true
  verify _ message _ := message = signed.documentSigningBytes
  encodeDocument doc := utf8Bytes doc.id
  keyOf _ := List.replicate 32 1
  peerId _ := "peer"

/-- The metadata arrives in a map that is walked the other way round. -/
theorem rewalked_refused : ¬ ∀ (E : Ed25519) (d : Identity.Did), d.Survives E ∧ d.Canonical := by
  intro h
  have hverify : signed.verifyDocument once = .ok () :=
    Did.verifyDocument_ok_iff.2 ⟨_, _, rfl, rfl, rfl, decide_eq_true rfl⟩
  have hreceived : IdentityProto.Received (IdentityProto.DidDocument.schema.encode signed.toProto)
      { signed.toProto with service := [⟨"#relay", "Relay", "/dns/relay", rewalked⟩] } :=
    ⟨signed.toProto, Schema.decode_encode _, [⟨"#relay", "Relay", "/dns/relay", rewalked⟩],
      .cons ⟨rfl, rfl, rfl, List.Perm.swap ("tier", "gold") ("region", "eu") []⟩ .nil, rfl⟩
  obtain ⟨_, key, -, -, -, hbytes⟩ := Did.verifyDocument_ok_iff.1 ((h once signed).1 hverify _ hreceived)
  have hproto := Schema.encode_inj.1 (of_decide_eq_true hbytes)
  have hentries := congrArg (fun p => p.service.map fun s => s.metadata.entries) hproto
  exact absurd hentries (by decide)

end DocumentTransport

/-! A DID is derived from a key, but a document is verified under the key that it names, whatever DID it is for. -/

namespace Identity

variable {E : Ed25519} {d d' : Did} {key key' : Bytes}

theorem didFromVerifyingKey_inj (h : didFromVerifyingKey key = didFromVerifyingKey key') : key.take 8 = key'.take 8 := by
  have hlist := congrArg String.toList h
  unfold didFromVerifyingKey at hlist
  simp only [String.toList_append, String.toList_ofList] at hlist
  exact Text.hexChars_inj.1 (List.append_cancel_left hlist)

/-- A document for a DID that names a key. -/
def claiming (id : Variance.Did) (key : Bytes) : IdentityProto.DidDocument :=
  { id
    authentication := [⟨id ++ "#key-1", "Ed25519VerificationKey2020", id, key⟩]
    keyAgreement := []
    service := []
    createdAt := 0
    updatedAt := 0
    displayName := none
    avatarCid := none
    bio := none }

/-- The key can be used: it is one, and signs whatever its owner wants signed. -/
structure Usable (E : Ed25519) (key : Bytes) : Prop where
  length : key.length = 32
  valid : E.validKey key = true
  signs : ∀ message, ∃ signature, signature.length = 64 ∧ E.verify key message signature = true

/-- Whoever has a key signs a document for any DID that is accepted. -/
theorem exists_accepted (hkey : Usable E key) (id : Variance.Did) :
    ∃ d : Did, d.Accepted E ∧ d.id = id ∧ d.getVerifyingKey E = .ok key := by
  obtain ⟨signature, hlength, hverify⟩ :=
    hkey.signs (Did.fromProtoWithSignature (claiming id key) none).documentSigningBytes
  have hnamed : (Did.fromProtoWithSignature (claiming id key) (some signature)).getVerifyingKey E = .ok key :=
    Did.getVerifyingKey_ok_iff.2 ⟨_, [], rfl, rfl, hkey.length, hkey.valid, rfl⟩
  have hne : signature ≠ [] := by
    rintro rfl
    simp at hlength
  have hsignature : (Did.fromProtoWithSignature (claiming id key) (some signature)).documentSignature = some signature := by
    show (some signature).filter (· ≠ []) = some signature
    simp [hne]
  refine ⟨_, ⟨claiming id key, signature, if_pos ?_⟩, rfl, hnamed⟩
  exact Did.verifyDocument_ok_iff.2 ⟨signature, key, hsignature, hlength, hnamed, hverify⟩

/-- Accepted documents for the DID name one of the keys. -/
def OneKey (E : Ed25519) (K : Bytes → Prop) (id : Variance.Did) : Prop :=
  ∀ d d' : Did, d.Accepted E → d'.Accepted E → d.id = id → d'.id = id → ∀ key key', K key → K key' →
    d.getVerifyingKey E = .ok key → d'.getVerifyingKey E = .ok key' → key = key'

end Identity

namespace DidKeys
open Identity

/-- For every scheme and all keys in use, no two with one prefix: a DID, whichever it is, names one key exactly when
there are no two keys; and documents for the DIDs derived from their keys name one key for each DID. -/
theorem did_names_one_key_iff (E : Ed25519) (K : Bytes → Prop)
    (hapart : ∀ key key', K key → K key' → key.take 8 = key'.take 8 → key = key') (huse : ∀ key, K key → Usable E key) :
    (∀ id, OneKey E K id ↔ ∀ key key', K key → K key' → key = key') ∧
      ∀ d d' : Identity.Did, d.Accepted E → d'.Accepted E → d.id = d'.id → ∀ key key', K key → K key' →
        d.getVerifyingKey E = .ok key → d'.getVerifyingKey E = .ok key' →
        d.id = didFromVerifyingKey key → d'.id = didFromVerifyingKey key' → key = key' := by
  refine ⟨fun id => ⟨fun h key key' hk hk' => ?_, fun h d d' _ _ _ _ key key' hk hk' _ _ => h key key' hk hk'⟩, ?_⟩
  · obtain ⟨d, hd, hid, hkey⟩ := exists_accepted (huse key hk) id
    obtain ⟨d', hd', hid', hkey'⟩ := exists_accepted (huse key' hk') id
    exact h d d' hd hd' hid hid' key key' hk hk' hkey hkey'
  · intro d d' _ _ hsame key key' hk hk' _ _ hid hid'
    refine hapart key key' hk hk' (didFromVerifyingKey_inj ?_)
    rw [← hid, ← hid', hsame]

/-- Two keys, apart in their first byte. -/
def inUse (key : Bytes) : Prop := key = List.replicate 32 1 ∨ key = List.replicate 32 2

theorem inUse_apart : ∀ key key', inUse key → inUse key' → key.take 8 = key'.take 8 → key = key' := by
  rintro _ _ (rfl | rfl) (rfl | rfl) h
  · rfl
  · exact absurd h (by decide)
  · exact absurd h (by decide)
  · rfl

theorem inUse_usable : ∀ key, inUse key → Usable .repeated key := by
  rintro _ (rfl | rfl)
  · exact ⟨by simp, rfl, fun _ => ⟨List.replicate 64 1, by simp, by simp [Ed25519.repeated]⟩⟩
  · exact ⟨by simp, rfl, fun _ => ⟨List.replicate 64 2, by simp, by simp [Ed25519.repeated]⟩⟩

/-- With two keys in use the DID of the one is not a name of one key. -/
theorem did_names_one_key_two : ¬ OneKey .repeated inUse (didFromVerifyingKey (List.replicate 32 1)) := by
  intro h
  have hall := ((did_names_one_key_iff .repeated inUse inUse_apart inUse_usable).1 _).1 h
  exact absurd (hall _ _ (Or.inl rfl) (Or.inr rfl)) (by decide)

/-- The second key's owner signs a document for the DID of the first. -/
theorem second_key_accepted : ¬ ∀ (E : Ed25519) (K : Bytes → Prop),
    (∀ key key', K key → K key' → key.take 8 = key'.take 8 → key = key') → ∀ id, OneKey E K id := by
  intro h
  obtain ⟨d, hd, hid, hkey⟩ := exists_accepted (inUse_usable _ (Or.inl rfl)) "did:variance:0101010101010101"
  obtain ⟨d', hd', hid', hkey'⟩ := exists_accepted (inUse_usable _ (Or.inr rfl)) "did:variance:0101010101010101"
  have hsame := h .repeated inUse inUse_apart _ d d' hd hd' hid hid' _ _ (Or.inl rfl) (Or.inr rfl) hkey hkey'
  exact absurd hsame (by decide)

end DidKeys

end Variance
