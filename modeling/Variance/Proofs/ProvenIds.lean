import Variance.Sanity.Trees
import Variance.Spec.PeerMap

/-! One map has the verified documents by their ids and by the names they give themselves. A DID's entry is another's
while the last document to claim the DID claims it for a name. -/

namespace Variance
namespace DocumentHandler
variable {h : DocumentHandler} {c : CachedDid} {d : Did}

/-- Documents that are cached one after the other. -/
def cacheAll (h : DocumentHandler) (cs : List CachedDid) : DocumentHandler := cs.foldl cacheDid h

/-- What is found for the DID is a document of the DID. -/
def Proven (h : DocumentHandler) (d : Did) : Prop := ∀ c, h.getCachedDid d = some c → c.id = d

/-- Each document of another id that has the DID for its name is followed by one of the DID. -/
def Followed (d : Did) : List CachedDid → Prop
  | [] => True
  | c :: cs => (c.document.displayName = some d → c.id ≠ d → ∃ c' ∈ cs, c'.id = d) ∧ Followed d cs

theorem getCachedDid_cacheDid (h : DocumentHandler) (c : CachedDid) (d : Did) :
    (h.cacheDid c).getCachedDid d =
      if c.id = d ∨ c.document.displayName = some d then some c else h.getCachedDid d := by
  unfold getCachedDid cacheDid
  dsimp only
  split
  next username hname =>
    by_cases hu : username = d
    · simp [hname, hu]
    · simp [hname, hu]
  next hname => simp [hname]

theorem followed_cons {cs : List CachedDid} : Followed d (c :: cs) ↔
    (c.document.displayName = some d → c.id ≠ d → ∃ c' ∈ cs, c'.id = d) ∧ Followed d cs := Iff.rfl

theorem proven_cacheDid :
    (h.cacheDid c).Proven d ↔ c.id = d ∨ c.document.displayName ≠ some d ∧ h.Proven d := by
  unfold Proven
  rw [getCachedDid_cacheDid]
  by_cases hid : c.id = d
  · simp [hid]
  · by_cases hname : c.document.displayName = some d
    · simp [hid, hname]
    · simp [hid, hname]

/-- From any cache: a document of the DID stands there or is handed in, and every other that takes its place is
followed by one. -/
theorem proven_cacheAll (cs : List CachedDid) (h : DocumentHandler) :
    (h.cacheAll cs).Proven d ↔ Followed d cs ∧ (h.Proven d ∨ ∃ c ∈ cs, c.id = d) := by
  induction cs generalizing h with
  | nil => simp [cacheAll, Followed]
  | cons c cs ih =>
    have hcons : h.cacheAll (c :: cs) = (h.cacheDid c).cacheAll cs := rfl
    rw [hcons, ih, proven_cacheDid, followed_cons]
    by_cases hid : c.id = d
    · simp [hid]
    · by_cases hname : c.document.displayName = some d
      · simp only [hid, hname, ne_eq, not_true_eq_false, false_and, or_self, false_or, not_false_eq_true, forall_const,
          List.exists_mem_cons_iff]
        tauto
      · simp [hid, hname]

theorem proven_empty (h : DocumentHandler) (d : Did) : Proven { h with cache := ∅ } d := by
  intro c hc
  simp [getCachedDid] at hc

/-- A document of another id with the DID for its name stands there when it has just been cached. -/
theorem proven_take_iff (cs : List CachedDid) (h : DocumentHandler) (hp : h.Proven d) :
    (∀ n, (h.cacheAll (cs.take n)).Proven d) ↔ ∀ c ∈ cs, c.document.displayName = some d → c.id = d := by
  induction cs generalizing h with
  | nil => simp [cacheAll, hp]
  | cons c cs ih =>
    rw [List.forall_mem_cons]
    constructor
    · intro hall
      have hone : (h.cacheDid c).Proven d := hall 1
      refine ⟨fun hname => ?_, (ih _ hone).1 fun n => hall (n + 1)⟩
      rcases proven_cacheDid.1 hone with hid | ⟨hother, -⟩
      · exact hid
      · exact absurd hname hother
    · rintro ⟨hc, hcs⟩ n
      have hone : (h.cacheDid c).Proven d := by
        refine proven_cacheDid.2 ?_
        by_cases hname : c.document.displayName = some d
        · exact Or.inl (hc hname)
        · exact Or.inr ⟨hname, hp⟩
      cases n with
      | zero => exact hp
      | succ n => exact (ih _ hone).2 hcs n

end DocumentHandler

namespace ProvenIds
open DocumentHandler

/-- For every sequence of documents and every DID: what is found after them is the DID's own exactly when each document
of another id with the DID for its name is followed by one of the DID, and so after each of them exactly when there
is no such document. -/
theorem getCachedDid_proven_iff (h : DocumentHandler) (cs : List CachedDid) (d : Did) :
    ((cacheAll { h with cache := ∅ } cs).Proven d ↔ Followed d cs) ∧
      ((∀ n, (cacheAll { h with cache := ∅ } (cs.take n)).Proven d) ↔
        ∀ c ∈ cs, c.document.displayName = some d → c.id = d) := by
  refine ⟨?_, proven_take_iff cs _ (proven_empty h d)⟩
  rw [proven_cacheAll]
  exact ⟨fun hp => hp.1, fun hf => ⟨hf, Or.inl (proven_empty h d)⟩⟩

/-- A document with a key of its own. -/
def document (id : Did) (displayName : Option String) (key : UInt8) : CachedDid :=
  .ofProto ⟨id, [⟨"Ed25519VerificationKey2020", List.replicate 32 key⟩], displayName⟩ (List.replicate 64 key)

/-- `did:x` names itself `did:b`, and is found for it. -/
theorem named_for_another : ¬ ∀ (E : Ed25519) (h : DocumentHandler) (cs : List CachedDid),
    (∀ c ∈ cs, c.verifyDocument E = true) → ∀ d, (cacheAll { h with cache := ∅ } cs).Proven d := by
  intro hall
  have hverify : ∀ c ∈ [document "did:b" (some "bob#0042") 1, document "did:x" (some "did:b") 2],
      c.verifyDocument .repeated = true := by decide +kernel
  have hproven := hall .repeated ⟨"peer", ∅, none⟩ _ hverify "did:b"
  have hfound : (getCachedDid (cacheAll ⟨"peer", ∅, none⟩
      [document "did:b" (some "bob#0042") 1, document "did:x" (some "did:b") 2]) "did:b").map (·.id) = some "did:x" := by
    decide +kernel
  obtain ⟨c, hc, hid⟩ := Option.map_eq_some_iff.1 hfound
  rw [hproven c hc] at hid
  exact absurd hid (by decide)

end ProvenIds
end Variance
