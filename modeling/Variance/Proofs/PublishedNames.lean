import Variance.Spec.Signing
import Variance.Sanity.Trees
import Variance.Spec.IdentityStorage

/-! Sixteen digits of hex are eight bytes, and every DID begins with the same eight: there is one name for all. -/

namespace Variance

/-- The digits say `did:vari`. -/
theorem ipnsKeyName_varianceDid (d : VarianceDid) : ipnsKeyName d.did = "variance-6469643a76617269" := by
  have hfirst : (Text.hexChars (utf8Bytes d.did)).take 16 = "6469643a76617269".toList := by
    unfold VarianceDid.did
    rw [utf8Bytes_append, Text.hexChars, List.flatMap_append, List.take_append_of_le_length (by decide +kernel)]
    decide +kernel
  unfold ipnsKeyName
  rw [hfirst]
  decide

namespace NamingWorld
variable {E : Ed25519} {K : ContentCodec} {w : NamingWorld} {d : Did} {doc doc' : Identity.Did}

/-- While one DID publishes alone: the name, if it is taken, leads to the DID's document. -/
structure Inv (K : ContentCodec) (w : NamingWorld) : Prop where
  one : ∀ d d', w.published d ≠ none → w.published d' ≠ none → d = d'
  form : ∀ d doc, w.published d = some doc →
    (∃ v : VarianceDid, v.did = d) ∧ ∃ now displayName, doc = publishedDid d now displayName
  underWay : ∀ p ∈ w.underWay, p.cid = LocalStorage.generateCid K p.document ∧
    w.storage.content[p.cid]? = some (K.toJson p.document) ∧
    ∃ now displayName, p.document = publishedDid p.did.did now displayName
  named : ∀ d doc, w.published d = some doc →
    w.storage.names[ipnsKeyName d]? = some (LocalStorage.generateCid K doc) ∧
    w.storage.content[LocalStorage.generateCid K doc]? = some (K.toJson doc)
  unnamed : (∀ d, w.published d = none) → ∀ k : String, w.storage.names[k]? = none

/-- One cid, one content. -/
theorem toJson_of_cid (hK : K.Lawful) (h : LocalStorage.generateCid K doc = LocalStorage.generateCid K doc') :
    K.toJson doc = K.toJson doc' :=
  hK.sha256_inj _ _ (Text.hexChars_inj.1 (String.ofList_injective (Text.append_right_inj.1 h)))

/-- A content that is stored stays. -/
theorem get_content_insert (hK : K.Lawful) {t : SledTree Bytes}
    (h : t[LocalStorage.generateCid K doc]? = some (K.toJson doc)) :
    (t.insert (LocalStorage.generateCid K doc') (K.toJson doc'))[LocalStorage.generateCid K doc]? =
      some (K.toJson doc) := by
  rw [get_insert]
  split_ifs with hc
  · rw [toJson_of_cid hK hc]
  · exact h

/-- One name for all. -/
theorem Inv.key_eq (h : w.Inv K) (hd : w.published d ≠ none) (v : VarianceDid) :
    ipnsKeyName d = ipnsKeyName v.did := by
  obtain ⟨doc, hdoc⟩ := Option.ne_none_iff_exists'.1 hd
  obtain ⟨⟨v', rfl⟩, -⟩ := h.form d doc hdoc
  rw [ipnsKeyName_varianceDid, ipnsKeyName_varianceDid]

/-! What is resolved -/

section Resolve
variable {localDid : Did} {v : VarianceDid} {cache : MultiLayerCache Identity.Did} {f : Faults} {g : DiskFaults} {now : ℕ}

/-- The published document is unsigned, and not cached. -/
theorem insert_unsigned (hdoc : doc.documentSignature = none) :
    (cache.insert g (decide (doc.verifyDocument E = .ok ())) d doc now).2 = cache := by
  rw [show doc.verifyDocument E = .error (.missingSignature doc.id) by simp [Identity.Did.verifyDocument, hdoc]]
  rfl

theorem resolve_failing (hf : f "names" (ipnsKeyName d) = true) (hl : d ≠ localDid) :
    resolveIdentity E K w.storage localDid cache f g d now = (.unresolved, cache) := by
  simp [resolveIdentity, hl, LocalStorage.resolve, hf]

theorem Inv.resolve_unnamed (h : w.Inv K) (hd : ∀ d, w.published d = none) (hl : d ≠ localDid) :
    resolveIdentity E K w.storage localDid cache f g d now = (.unresolved, cache) := by
  unfold resolveIdentity LocalStorage.resolve
  rw [if_neg hl, h.unnamed hd]
  split_ifs <;> rfl

/-- Whoever's DID is asked for, the answer is the document of the one that has published. -/
theorem Inv.resolve_named (hK : K.Lawful) (h : w.Inv K) (hd : w.published d = some doc) (hl : v.did ≠ localDid)
    (hf : f "names" (ipnsKeyName v.did) = false) :
    resolveIdentity E K w.storage localDid cache f g v.did now =
      (if f "content" (LocalStorage.generateCid K doc) then .unresolved else .resolved doc, cache) := by
  obtain ⟨hname, hcontent⟩ := h.named d doc hd
  obtain ⟨-, now', displayName, rfl⟩ := h.form d doc hd
  rw [h.key_eq (by rw [hd]; exact Option.some_ne_none _) v] at hname
  have hres : w.storage.resolve f (ipnsKeyName v.did) =
      .ok (some (LocalStorage.generateCid K (publishedDid d now' displayName))) := by
    simp [LocalStorage.resolve, hf, hname]
  unfold resolveIdentity
  rw [if_neg hl, hres]
  dsimp only
  by_cases hc : f "content" (LocalStorage.generateCid K (publishedDid d now' displayName)) = true
  · rw [if_pos hc, LocalStorage.fetch, if_pos hc]
  · rw [if_neg hc, LocalStorage.fetch, if_neg hc, hcontent]
    dsimp only
    rw [hK.fromJson_toJson]
    exact Prod.ext rfl (insert_unsigned rfl)

end Resolve
/-! The steps -/

theorem next_store {did : VarianceDid} {now : Int64} {displayName : Option String} {f : Faults} {cid : String}
    (hdoc : doc = publishedDid did.did now displayName) (hcid : cid = LocalStorage.generateCid K doc) :
    w.next E K (.store did now displayName f) = if f "content" cid then w
      else { w with
        storage := { w.storage with content := w.storage.content.insert cid (K.toJson doc) }
        underWay := w.underWay ++ [⟨did, doc, cid⟩] } := by
  subst hdoc hcid
  unfold next LocalStorage.store treeInsert
  dsimp only
  split_ifs <;> rfl

theorem Inv.store {did : VarianceDid} {now : Int64} {displayName : Option String} {f : Faults} (hK : K.Lawful)
    (h : w.Inv K) : (w.next E K (.store did now displayName f)).Inv K := by
  rw [next_store rfl rfl]
  split_ifs with hf
  · exact h
  · refine ⟨h.one, h.form, fun p hp => ?_, fun d doc hd => ?_, h.unnamed⟩
    · rcases List.mem_append.1 hp with hp | hp
      · obtain ⟨hcid, hcontent, hform⟩ := h.underWay p hp
        rw [hcid] at hcontent
        exact ⟨hcid, by rw [hcid]; exact get_content_insert hK hcontent, hform⟩
      · obtain rfl := List.mem_singleton.1 hp
        exact ⟨rfl, by simp, now, displayName, rfl⟩
    · exact ⟨(h.named d doc hd).1, get_content_insert hK (h.named d doc hd).2⟩

/-- Where the name can be written the document is the DID's new one. -/
theorem next_publish {i : ℕ} {f : Faults} {p : Publication} (hp : w.underWay[i]? = some p) :
    w.next E K (.publish i f) = if f "names" (ipnsKeyName p.did.did) then { w with underWay := w.underWay.eraseIdx i }
      else { w with
        storage := { w.storage with names := w.storage.names.insert (ipnsKeyName p.did.did) p.cid }
        underWay := w.underWay.eraseIdx i
        published := Function.update w.published p.did.did (some p.document) } := by
  unfold next LocalStorage.publish treeInsert
  dsimp only
  rw [hp]
  dsimp only
  split_ifs <;> rfl

theorem Inv.publish {i : ℕ} {f : Faults} (h : w.Inv K) (ha : w.Alone K (.publish i f)) :
    (w.next E K (.publish i f)).Inv K := by
  cases hp : w.underWay[i]? with
  | none => simpa only [next, hp] using h
  | some p =>
    have hrest : ∀ q ∈ w.underWay.eraseIdx i, q ∈ w.underWay := fun q hq => List.mem_of_mem_eraseIdx hq
    rw [next_publish hp]
    split_ifs with hf
    · exact ⟨h.one, h.form, fun q hq => h.underWay q (hrest q hq), h.named, h.unnamed⟩
    · have hone : ∀ d, Function.update w.published p.did.did (some p.document) d ≠ none → d = p.did.did := by
        intro d hd
        by_contra hne
        rw [Function.update_of_ne hne] at hd
        exact hne (ha p hp (by simpa using hf) d hd)
      obtain ⟨hcid, hcontent, hform⟩ := h.underWay p (List.mem_of_getElem? hp)
      have hself : ∀ d doc, Function.update w.published p.did.did (some p.document) d = some doc →
          d = p.did.did ∧ doc = p.document := by
        intro d doc hd
        obtain rfl := hone d (by rw [hd]; exact Option.some_ne_none _)
        rw [Function.update_self] at hd
        exact ⟨rfl, (Option.some.inj hd).symm⟩
      refine ⟨fun d d' hd hd' => (hone d hd).trans (hone d' hd').symm, fun d doc hd => ?_,
        fun q hq => h.underWay q (hrest q hq), fun d doc hd => ?_, fun hnone => ?_⟩
      · obtain ⟨rfl, rfl⟩ := hself d doc hd
        exact ⟨⟨p.did, rfl⟩, hform⟩
      · obtain ⟨rfl, rfl⟩ := hself d doc hd
        rw [hcid] at hcontent
        exact ⟨by simp [hcid], hcontent⟩
      · have hnew : Function.update w.published p.did.did (some p.document) p.did.did = none := hnone p.did.did
        rw [Function.update_self] at hnew
        cases hnew

theorem Inv.next {e : NamingEvent} (hK : K.Lawful) (h : w.Inv K) (ha : w.Alone K e) : (w.next E K e).Inv K := by
  cases e with
  | store did now displayName f => exact h.store hK
  | publish i f => exact h.publish ha
  | resolve localDid did f g now => exact ⟨h.one, h.form, h.underWay, h.named, h.unnamed⟩

theorem Inv.publish_iff {i : ℕ} {f : Faults} (h : w.Inv K) :
    w.Right E K (.publish i f) ↔ w.Alone K (.publish i f) := by
  unfold Right Alone
  dsimp only
  constructor
  · intro hr p hp hf d hd
    by_contra hne
    rw [next_publish hp, if_neg (by simp [hf])] at hr
    refine hr d p.did.did ?_ (by simp) hne (h.key_eq hd p.did)
    dsimp only
    rw [Function.update_of_ne hne]
    exact hd
  · intro ha d d' hd hd' hne
    exact (hne ((h.publish (E := E) ha).one d d' hd hd')).elim

theorem Inv.resolve_iff {localDid v : VarianceDid} {f : Faults} {g : DiskFaults} {now : ℕ} (hK : K.Lawful)
    (h : w.Inv K) : w.Right E K (.resolve localDid v f g now) ↔ w.Alone K (.resolve localDid v f g now) := by
  unfold Right Alone
  dsimp only
  by_cases hl : v.did = localDid.did
  · refine iff_of_true ?_ (Or.inl hl)
    simp [resolveIdentity, hl]
  by_cases hf : f "names" (ipnsKeyName v.did) = true
  · refine iff_of_true ?_ (Or.inr (Or.inl hf))
    rw [resolve_failing hf hl]
    exact ⟨nofun, Or.inl rfl⟩
  by_cases hnone : ∀ d, w.published d = none
  · refine iff_of_true ?_ (Or.inr (Or.inr fun d doc hd _ => ?_))
    · rw [h.resolve_unnamed hnone hl]
      exact ⟨nofun, Or.inl rfl⟩
    · rw [hnone d] at hd
      cases hd
  obtain ⟨d, hd⟩ := not_forall.1 hnone
  obtain ⟨doc, hdoc⟩ := Option.ne_none_iff_exists'.1 hd
  rw [h.resolve_named hK hdoc hl (by simpa using hf)]
  obtain ⟨-, now', displayName, rfl⟩ := h.form d doc hdoc
  by_cases hc : f "content" (LocalStorage.generateCid K (publishedDid d now' displayName)) = true
  · rw [if_pos hc]
    refine iff_of_true ⟨nofun, Or.inl rfl⟩ (Or.inr (Or.inr fun d' doc' hd' hc' => ?_))
    obtain rfl := h.one d' d (by rw [hd']; exact Option.some_ne_none _) hd
    cases hdoc.symm.trans hd'
    rw [hc] at hc'
    cases hc'
  · rw [if_neg hc]
    constructor
    · rintro ⟨hr, -⟩
      refine Or.inr (Or.inr fun d' doc' hd' _ => ?_)
      rw [h.one d' d (by rw [hd']; exact Option.some_ne_none _) hd]
      exact (hr _ rfl).1
    · rintro (ha | ha | ha)
      · exact (hl ha).elim
      · exact (hf ha).elim
      · obtain rfl := ha d _ hdoc (by simpa using hc)
        refine ⟨fun doc' hr => ?_, Or.inl rfl⟩
        cases hr
        exact ⟨rfl, rfl, hdoc⟩

/-- The steps of a run are all right just when one DID publishes alone. -/
theorem naming_right_iff (E : Ed25519) {K : ContentCodec} (hK : K.Lawful) {w : NamingWorld}
    (hw : (namingSys E K).init w) (es : List NamingEvent) :
    StepSystem.Guarded (namingSys E K) (Right E K) w es ↔ StepSystem.Guarded (namingSys E K) (fun w => w.Alone K) w es := by
  refine StepSystem.guarded_iff (I := fun w => w.Inv K) (fun w e h => ?_) (fun w e h ha => h.next hK ha) ?_ es
  · cases e with
    | store did now displayName f => exact Iff.rfl
    | publish i f => exact h.publish_iff
    | resolve localDid did f g now => exact h.resolve_iff hK
  · obtain ⟨hs, hu, hp⟩ := hw
    refine ⟨fun d d' hd _ => ?_, fun d doc hd => ?_, fun p hmem => ?_, fun d doc hd => ?_, fun _ k => ?_⟩
    · exact (hd (by rw [hp])).elim
    · rw [hp] at hd
      cases hd
    · rw [hu] at hmem
      cases hmem
    · rw [hp] at hd
      cases hd
    · rw [hs]
      simp

end NamingWorld

namespace PublishedNames

/-- A document as its protobuf message, and what is hashed for its hash. -/
def plainContent : ContentCodec where
  toJson did := IdentityProto.DidDocument.schema.encode did.toProto
  fromJson bytes := (IdentityProto.DidDocument.schema.decode bytes).map (Identity.Did.fromProtoWithSignature · none)
  sha256 bytes := bytes

theorem plainContent_lawful : plainContent.Lawful := by
  refine ⟨fun did now displayName => ?_, fun _ _ h => h⟩
  unfold plainContent
  dsimp only
  rw [Protobuf.Schema.decode_encode]
  rfl

def alice : VarianceDid := ⟨"01", List.all_eq_true.1 (by decide)⟩
def bob : VarianceDid := ⟨"02", List.all_eq_true.1 (by decide)⟩
def carol : VarianceDid := ⟨"03", List.all_eq_true.1 (by decide)⟩

def start : NamingWorld := ⟨⟨∅, ∅⟩, [], fun _ => none, fun _ => .empty⟩

/-- Alice publishes, and Carol's node resolves `d`. -/
def thenResolve (d : VarianceDid) : List NamingEvent :=
  [.store alice 0 none noFaults, .publish 0 noFaults, .resolve carol d noFaults ⟨false, false, false⟩ 0]

/-- Whose document the answer has. -/
def documentOf : Resolution → Option Did
  | .resolved did => some did.id
  | _ => none

def published : NamingWorld :=
  [NamingEvent.store alice 0 none noFaults, .publish 0 noFaults].foldl (namingSys .repeated plainContent).step start

theorem bob_gets_alice : documentOf (resolveIdentity .repeated plainContent published.storage carol.did
    (published.caches carol.did) noFaults ⟨false, false, false⟩ bob.did 0).1 = some alice.did := by
  decide +kernel

/-- Bob's DID is resolved to Alice's document. -/
theorem alice_for_bob : ¬ ∀ es, StepSystem.Guarded (namingSys .repeated plainContent)
    (NamingWorld.Right .repeated plainContent) start es := by
  intro h
  obtain ⟨-, -, ⟨hr, -⟩, -⟩ := h (thenResolve bob)
  have hgot := bob_gets_alice
  unfold documentOf at hgot
  split at hgot
  · rename_i doc hdoc
    rw [(hr doc hdoc).1] at hgot
    exact absurd hgot (by decide)
  · cases hgot

/-- Alice's own is. -/
theorem alice_for_alice : StepSystem.Guarded (namingSys .repeated plainContent)
    (NamingWorld.Right .repeated plainContent) start (thenResolve alice) := by
  refine (NamingWorld.naming_right_iff .repeated plainContent_lawful ⟨rfl, rfl, rfl⟩ _).2
    ⟨trivial, fun _ _ _ d hd => (hd rfl).elim, Or.inr (Or.inr fun d doc hd _ => ?_), trivial⟩
  by_contra hne
  change Function.update (fun _ => none) alice.did (some (publishedDid alice.did 0 none)) d = some doc at hd
  rw [Function.update_of_ne hne] at hd
  cases hd

end PublishedNames
end Variance
