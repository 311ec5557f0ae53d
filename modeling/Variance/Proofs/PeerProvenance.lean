import Variance.Sanity.Trees
import Variance.Spec.PeerMap

/-! Who is reached under a DID. Only the response to a query of ours is looked into; a sender named in a gossip or
direct message is taken at its word, and a response is taken for the peer that passes it on. -/

namespace Variance

variable {E : Ed25519} {w : MapWorld} {n : MapNode}

/-- The condition on a step: who names a sender has presented its document, and a document that verifies is its
sender's own, under the key of the DID it is for. -/
def MapWorld.Backed (E : Ed25519) (w : MapWorld) : SwarmEvent → Prop
  | .gossip source message allowed => ∀ m ∈ message, allowed = true → m.senderDid ≠ "" →
      w.presented source m.senderDid
  | .directMessage peer request allowed _ => allowed = true → request.senderDid ≠ "" →
      w.presented peer request.senderDid
  | .identityResponse peer author (.found f) => ∀ document key, f.didDocument = some document →
      (CachedDid.ofProto document f.documentSignature).verifyDocument E = true →
      (CachedDid.ofProto document f.documentSignature).getVerifyingKey E = some key →
      author = peer ∧ key = E.keyOf document.id
  | _ => True

/-- What a task will write is presented. -/
def MapWorld.TaskSound (E : Ed25519) (w : MapWorld) : MapTask → Prop
  | .learn did peer => w.presented peer did
  | .verify document signature peer =>
    (CachedDid.ofProto document signature).verifyDocument E = true → w.presented peer document.id

structure MapWorld.Sourced (E : Ed25519) (w : MapWorld) : Prop where
  sound : w.Sound
  stored : ∀ d p, w.node.peerStore[d]? = some p → w.presented p d
  tasks : ∀ t ∈ w.node.tasks, w.TaskSound E t

theorem CachedDid.verifyingKey_of_verifies {c : CachedDid} (h : c.verifyDocument E = true) :
    ∃ key, c.getVerifyingKey E = some key := by
  unfold CachedDid.verifyDocument at h
  split at h
  · exact ⟨_, ‹_›⟩
  · cases h

theorem MapWorld.TaskSound.mono {t : MapTask} {presented : PeerId → Did → Prop} {n' : MapNode}
    (h : w.TaskSound E t) (hp : ∀ p d, w.presented p d → presented p d) :
    MapWorld.TaskSound E ⟨n', presented⟩ t := by
  cases t with
  | learn did peer => exact hp _ _ h
  | verify document signature peer => exact fun hv => hp _ _ (h hv)

namespace MapWorld.Sourced

/-- A mapping that is presented may be written. -/
theorem insert {did d : Did} {peer p : PeerId} {t : SledTree PeerId} {presented : PeerId → Did → Prop}
    (ht : ∀ d p, t[d]? = some p → presented p d) (hp : presented peer did)
    (hd : (t.insert did peer)[d]? = some p) : presented p d := by
  rw [get_insert] at hd
  split_ifs at hd with heq
  · obtain rfl := Option.some.inj hd
    exact heq ▸ hp
  · exact ht d p hd

theorem treeInsert {did d : Did} {peer p : PeerId} {t : SledTree PeerId} {presented : PeerId → Did → Prop}
    {f : Faults} {tree : String} (ht : ∀ d p, t[d]? = some p → presented p d) (hp : presented peer did)
    (hd : (treeInsert f tree did peer t).2[d]? = some p) : presented p d := by
  unfold Variance.treeInsert at hd
  split_ifs at hd
  · exact ht d p hd
  · exact insert ht hp hd

/-- Between two steps that do not write the map: more is presented, and new tasks are sound. -/
theorem spawn {presented : PeerId → Did → Prop} {tasks : List MapTask} (h : w.Sourced E)
    (hp : ∀ p d, w.presented p d → presented p d)
    (ht : ∀ t ∈ tasks, t ∈ w.node.tasks ∨ MapWorld.TaskSound E ⟨w.node, presented⟩ t) :
    MapWorld.Sourced E ⟨{ w.node with tasks }, presented⟩ := by
  refine ⟨fun d p hd => hp _ _ (h.sound d p hd), fun d p hd => hp _ _ (h.stored d p hd), fun t hmem => ?_⟩
  rcases ht t hmem with hold | hnew
  · exact (h.tasks t hold).mono hp
  · exact hnew.mono fun _ _ => id

theorem learn {f : Faults} {did : Did} {peer : PeerId} (h : w.Sourced E) (hp : w.presented peer did) :
    MapWorld.Sourced E ⟨w.node.learn f did peer, w.presented⟩ :=
  ⟨fun _ _ => insert h.sound hp, fun _ _ => treeInsert h.stored hp, fun t ht => (h.tasks t ht).mono fun _ _ => id⟩

theorem runTask {f : Faults} {t : MapTask} (h : w.Sourced E) (ht : w.TaskSound E t) :
    MapWorld.Sourced E ⟨w.node.runTask E f t, w.presented⟩ := by
  cases t with
  | learn did peer => exact h.learn ht
  | verify document signature peer =>
    rw [MapNode.runTask]
    split_ifs with hv
    · exact ⟨fun _ _ => insert h.sound (ht hv), fun _ _ => treeInsert h.stored (ht hv),
        fun t ht => (h.tasks t ht).mono fun _ _ => id⟩
    · exact h

theorem next {e : SwarmEvent} (h : w.Sourced E) (hb : w.Backed E e) : ((mapSys E).step w e).Sourced E := by
  have hmore (p : PeerId) (d : Did) (hd : w.presented p d) : w.presented p d ∨ e.Presents E p d := Or.inl hd
  have hsame : MapWorld.Sourced E ⟨w.node, fun p d => w.presented p d ∨ e.Presents E p d⟩ :=
    h.spawn hmore fun t ht => Or.inl ht
  cases e with
  | gossip source message allowed =>
    cases message with
    | none => exact hsame
    | some m =>
      change MapWorld.Sourced E ⟨w.node.handleGossip source (some m) allowed, _⟩
      rw [MapNode.handleGossip]
      split_ifs with hs
      · refine h.spawn hmore fun t ht => ?_
        rcases List.mem_append.1 ht with hold | hnew
        · exact Or.inl hold
        · obtain rfl := List.mem_singleton.1 hnew
          exact Or.inr (Or.inl (hb m rfl hs.1 hs.2))
      · exact hsame
  | directMessage peer request allowed f =>
    change MapWorld.Sourced E ⟨w.node.handleDirectMessage f peer request allowed, _⟩
    rw [MapNode.handleDirectMessage]
    split_ifs with hs
    · exact hsame.learn (Or.inl (hb hs.1 hs.2))
    · exact hsame
  | identityRequest peer query allowed =>
    change MapWorld.Sourced E ⟨(w.node.handleIdentityRequest query allowed).2, _⟩
    rw [MapNode.handleIdentityRequest]
    split_ifs
    · exact hsame
    · exact hsame
  | identityResponse peer author result =>
    cases result with
    | found f =>
      change MapWorld.Sourced E ⟨w.node.handleIdentityResponse peer (.found f), _⟩
      rw [MapNode.handleIdentityResponse]
      cases hdoc : f.didDocument with
      | none => exact hsame
      | some document =>
        refine h.spawn hmore fun t ht => ?_
        rcases List.mem_append.1 ht with hold | hnew
        · exact Or.inl hold
        · obtain rfl := List.mem_singleton.1 hnew
          refine Or.inr fun hv => Or.inr ?_
          obtain ⟨key, hkey⟩ := CachedDid.verifyingKey_of_verifies hv
          obtain ⟨rfl, rfl⟩ := hb document key hdoc hv hkey
          exact ⟨rfl, rfl, document, hdoc, rfl, hv, hkey⟩
    | notFound query reason => exact hsame
    | error error details => exact hsame
  | connectionEstablished peer => exact hsame
  | connectionClosed peer =>
    refine ⟨fun d p hd => ?_, hsame.stored, hsame.tasks⟩
    have hkept : (w.node.didToPeer.filter fun _ p => p ≠ peer)[d]? = some p := hd
    rw [Std.ExtTreeMap.getElem?_filter'] at hkept
    exact hsame.sound d p (Option.eq_some_of_filter_eq_some hkept)
  | runTask i f =>
    change MapWorld.Sourced E ⟨w.node.exec E (.runTask i f), _⟩
    rw [MapNode.exec]
    cases ht : w.node.tasks[i]? with
    | none => exact hsame
    | some task =>
      have hless : MapWorld.Sourced E ⟨{ w.node with tasks := w.node.tasks.eraseIdx i },
          fun p d => w.presented p d ∨ (SwarmEvent.runTask i f).Presents E p d⟩ :=
        h.spawn hmore fun t ht => Or.inl (List.mem_of_mem_eraseIdx ht)
      exact hless.runTask ((h.tasks task (List.mem_of_getElem? ht)).mono hmore)
  | restart =>
    refine ⟨fun d p hd => ?_, hsame.stored, fun t ht => by cases ht⟩
    cases hd

end MapWorld.Sourced

theorem MapWorld.sourced_of_init (h : (mapSys E).init w) : w.Sourced E := by
  obtain ⟨hmap, hstore, htasks, -⟩ := h
  refine ⟨fun d p hd => ?_, fun d p hd => ?_, fun t ht => ?_⟩
  · rw [hmap] at hd
    cases hd
  · rw [hstore] at hd
    cases hd
  · rw [htasks] at ht
    cases ht

/-- So does what a command looks up. -/
theorem MapWorld.Sourced.lookup {d : Did} {p : PeerId} (h : w.Sourced E) (hp : w.node.lookupPeer d = some p) :
    w.presented p d := by
  rcases Option.or_eq_some_iff.1 hp with hmap | ⟨-, hstore⟩
  · exact h.sound d p hmap
  · exact h.stored d p hstore

/-- As long as nobody names a sender it has not shown to be, and nobody answers for another, a DID leads to a peer
that has presented its document. -/
theorem MapWorld.sound_of_reach (h : StepSystem.Reach (mapSys E) (MapWorld.Backed E) w) : w.Sound :=
  (h.invariant (I := MapWorld.Sourced E) (fun _ => MapWorld.sourced_of_init) fun _ _ hs hb => hs.next hb).sound

namespace PeerProvenance

def key (d : Did) : Bytes := List.replicate 32 (if d = "did:b" then 1 else 2)

/-- A signature is its key and its message. -/
def ideal : Ed25519 where
  validKey _ := true
  verify key m s := decide (s = key ++ m)
  encodeDocument doc := utf8Bytes doc.id
  keyOf := key
  peerId key := if key.head? = some 1 then "peer-b" else "peer-c"

def document (d : Did) : DidDocument := ⟨d, [⟨"Ed25519VerificationKey2020", key d⟩], none⟩

/-- The identity of a DID, with its document as it has signed it. -/
def signed (d : Did) : CachedDid := .ofProto (document d) (key d ++ utf8Bytes d)

/-- The identity handler of did:b, which has the document of did:c in its cache. -/
def handlerOfB : DocumentHandler :=
  DocumentHandler.cacheDid ⟨"peer-b", ∅, some ⟨"did:b", none, none, some (signed "did:b")⟩⟩ (signed "did:c")

def blank : MapWorld := ⟨⟨∅, ∅, ⟨"peer-a", ∅, none⟩, [], []⟩, fun _ _ => False⟩

theorem blank_init : (mapSys ideal).init blank := ⟨rfl, rfl, rfl, fun _ _ => id⟩

def message (d : Did) : DirectMessage := ⟨"m", d, "did:a", [], 0, [], 0, 0, none, none⟩

/-- did:b says who it is, then writes. -/
def introduces : List SwarmEvent :=
  [.identityResponse "peer-b" "peer-b" (handlerOfB.handleRequest (some (.peerId "peer-b"))), .runTask 0 noFaults,
    .directMessage "peer-b" (message "did:b") true noFaults]

/-- It answers for did:c from its cache, and writes in the name of did:d. -/
def answersForAnother : List SwarmEvent :=
  [.identityResponse "peer-b" "peer-c" (handlerOfB.handleRequest (some (.did "did:c"))), .runTask 0 noFaults,
    .directMessage "peer-b" (message "did:d") true noFaults]

def run (es : List SwarmEvent) : MapWorld := es.foldl (mapSys ideal).step blank

theorem introduced_sound : (run introduces).node.didToPeer["did:b"]? = some "peer-b" ∧ (run introduces).Sound := by
  have hself : handlerOfB.handleRequest (some (.peerId "peer-b")) =
      .found ⟨some (document "did:b"), none, none, key "did:b" ++ utf8Bytes "did:b"⟩ := by rfl
  have hvouches : ideal.Vouches (document "did:b") (key "did:b" ++ utf8Bytes "did:b") "did:b" := by
    refine ⟨rfl, ?_, ?_⟩ <;> decide +kernel
  refine ⟨by decide +kernel, MapWorld.sound_of_reach
    (StepSystem.reach_foldl (.init blank_init) ⟨?_, trivial, ?_, trivial⟩)⟩
  · rw [hself]
    intro doc k hdoc _ hk
    obtain rfl : document "did:b" = doc := Option.some.inj hdoc
    rw [hvouches.2.2] at hk
    exact ⟨rfl, (Option.some.inj hk).symm⟩
  · intro _ _
    refine Or.inl (Or.inr ?_)
    rw [hself]
    exact ⟨rfl, rfl, _, rfl, hvouches⟩

/-- Neither did:c nor did:d has been shown to be at the peer they lead to. -/
theorem cached_answer_redirects : ∃ w, StepSystem.Reachable (mapSys ideal) w ∧ ¬ w.Sound ∧
    ∀ d ∈ ["did:c", "did:d"], w.node.didToPeer[d]? = some "peer-b" ∧ ¬ w.presented "peer-b" d := by
  have hmap : ∀ d ∈ ["did:c", "did:d"], (run answersForAnother).node.didToPeer[d]? = some "peer-b" := by
    decide +kernel
  have hnot (d : Did) : ¬ (run answersForAnother).presented "peer-b" d := by
    rintro (((hblank | ⟨-, hauthor, -⟩) | hrun) | hdirect)
    · exact hblank
    · exact absurd hauthor (by decide)
    · exact hrun
    · exact hdirect
  exact ⟨run answersForAnother, StepSystem.reachable_foldl (.init blank_init) _,
    fun hs => hnot _ (hs "did:c" "peer-b" (hmap _ (by simp))), fun d hd => ⟨hmap d hd, hnot d⟩⟩

end PeerProvenance

end Variance
