import Variance.Spec.Presence

/-! Presence follows the connections exactly as long as no connection closes beside another of its peer. -/

namespace Variance

/-! The buckets -/

namespace PeerRateLimiter
variable {l : PeerRateLimiter} {peer p : PeerId} {label : String} {tokens : Tokens}

/-- Every bucket is in the index. -/
def Indexed (l : PeerRateLimiter) : Prop :=
  ∀ p label, (p, label) ∈ l.protocolBuckets → label ∈ (l.peerProtocols[p]?).getD []

theorem indexed_new : new.Indexed := by
  intro p label h
  simp [new] at h

theorem Indexed.protocolBucket (h : l.Indexed) : (l.protocolBucket peer label).Indexed := by
  unfold PeerRateLimiter.protocolBucket
  split_ifs
  · exact h
  · intro p lab hmem
    dsimp only at hmem ⊢
    rw [get_insert]
    rcases Finset.mem_insert.1 hmem with heq | hold
    · obtain ⟨rfl, rfl⟩ := Prod.mk.inj heq
      simp
    · split_ifs with hp
      · subst hp
        simp [h _ _ hold]
      · exact h p lab hold

theorem Tracks.protocolBucket (h : l.Tracks p) : (l.protocolBucket peer label).Tracks p := by
  unfold PeerRateLimiter.protocolBucket
  split_ifs
  · exact h
  · exact h.imp id fun ⟨lab, hlab⟩ => ⟨lab, Finset.mem_insert_of_mem hlab⟩

theorem Indexed.check (h : l.Indexed) : (l.check peer label tokens).2.Indexed := by
  unfold PeerRateLimiter.check
  split_ifs
  · exact h.protocolBucket
  · exact h.protocolBucket
  · exact h.protocolBucket
  · exact h

theorem Tracks.check (h : l.Tracks p) : (l.check peer label tokens).2.Tracks p := by
  unfold PeerRateLimiter.check
  split_ifs
  · exact h.protocolBucket.imp Finset.mem_insert_of_mem id
  · exact h.protocolBucket.imp Finset.mem_insert_of_mem id
  · exact h.protocolBucket
  · exact h

theorem mem_foldl_erase {labels : List String} {buckets : Finset (PeerId × String)} {b : PeerId × String} :
    b ∈ labels.foldl (fun buckets label => buckets.erase (peer, label)) buckets ↔
      b ∈ buckets ∧ ¬ (b.1 = peer ∧ b.2 ∈ labels) := by
  induction labels generalizing buckets with
  | nil => simp
  | cons lab labels ih =>
    rw [List.foldl_cons, ih, Finset.mem_erase, List.mem_cons]
    constructor
    · rintro ⟨⟨hne, hb⟩, hrest⟩
      refine ⟨hb, ?_⟩
      rintro ⟨hp, rfl | hmem⟩
      · exact hne (Prod.ext hp rfl)
      · exact hrest ⟨hp, hmem⟩
    · rintro ⟨hb, hnot⟩
      refine ⟨⟨?_, hb⟩, fun hrest => hnot ⟨hrest.1, Or.inr hrest.2⟩⟩
      rintro rfl
      exact hnot ⟨rfl, Or.inl rfl⟩

theorem Indexed.not_tracks_removePeer (h : l.Indexed) : ¬ (l.removePeer peer).Tracks peer := by
  rintro (hglobal | ⟨label, hlabel⟩)
  · exact (Finset.mem_erase.1 hglobal).1 rfl
  · obtain ⟨hmem, hnot⟩ := mem_foldl_erase.1 hlabel
    exact hnot ⟨rfl, h peer label hmem⟩

theorem Tracks.removePeer (h : l.Tracks p) (hp : p ≠ peer) : (l.removePeer peer).Tracks p := by
  rcases h with hglobal | ⟨label, hlabel⟩
  · exact Or.inl (Finset.mem_erase.2 ⟨hp, hglobal⟩)
  · exact Or.inr ⟨label, mem_foldl_erase.2 ⟨hlabel, fun hb => hp hb.1⟩⟩

theorem Indexed.removePeer (h : l.Indexed) : (l.removePeer peer).Indexed := by
  intro p label hmem
  obtain ⟨hold, hnot⟩ := mem_foldl_erase.1 hmem
  have hlab := h p label hold
  have hp : peer ≠ p := by
    rintro rfl
    exact hnot ⟨rfl, hlab⟩
  change label ∈ ((l.peerProtocols.erase peer)[p]?).getD []
  rwa [get_erase, if_neg hp]

end PeerRateLimiter

/-! What a message or a task does to the map: DIDs are added, and said to be reached. -/

/-- Nothing goes, and what is new is announced. -/
structure MapNode.Opens (n n' : MapNode) (new : List Did) : Prop where
  kept : ∀ d : Did, n'.didToPeer[d]? = none → n.didToPeer[d]? = none
  fresh : ∀ d : Did, n.didToPeer[d]? = none → n'.didToPeer[d]? ≠ none → d ∈ new
  events : n'.events = n.events ++ new.map .didCached

namespace MapNode.Opens
variable {n n' : MapNode} {did : Did} {peer : PeerId}

theorem same (hmap : n'.didToPeer = n.didToPeer) (hev : n'.events = n.events) : n.Opens n' [] :=
  ⟨fun d h => by rwa [hmap] at h, fun d h hne => absurd (by rwa [hmap]) hne, by simpa using hev⟩

theorem insert (hmap : n'.didToPeer = n.didToPeer.insert did peer) (hev : n'.events = n.events ++ [.didCached did]) :
    n.Opens n' [did] := by
  refine ⟨fun d h => ?_, fun d h hne => ?_, hev⟩
  · rw [hmap, get_insert] at h
    split_ifs at h
    exact h
  · rw [hmap, get_insert] at hne
    split_ifs at hne with hd
    · exact List.mem_singleton.2 hd.symm
    · exact absurd h hne

theorem learn (n : MapNode) (f : Faults) (did : Did) (peer : PeerId) : ∃ new, n.Opens (n.learn f did peer) new := by
  by_cases hnew : n.didToPeer[did]? ≠ some peer
  · exact ⟨_, insert rfl (if_pos hnew)⟩
  · refine ⟨[], fun d h => ?_, fun d h hne => ?_, ?_⟩
    · change (n.didToPeer.insert did peer)[d]? = none at h
      rw [get_insert] at h
      split_ifs at h
      exact h
    · change (n.didToPeer.insert did peer)[d]? ≠ none at hne
      rw [get_insert] at hne
      split_ifs at hne with hd
      · subst hd
        rw [not_not.1 hnew] at h
        cases h
      · exact absurd h hne
    · change (if n.didToPeer[did]? ≠ some peer then _ else _) = _
      rw [if_neg hnew]
      simp

theorem handleGossip (n : MapNode) (source : PeerId) (message : Option GroupMessage) (allowed : Bool) :
    n.Opens (n.handleGossip source message allowed) [] := by
  unfold MapNode.handleGossip
  cases message with
  | none => exact same rfl rfl
  | some m =>
    dsimp only
    split_ifs <;> exact same rfl rfl

theorem handleDirectMessage (n : MapNode) (f : Faults) (peer : PeerId) (request : DirectMessage) (allowed : Bool) :
    ∃ new, n.Opens (n.handleDirectMessage f peer request allowed) new := by
  unfold MapNode.handleDirectMessage
  split_ifs
  · exact learn n f _ _
  · exact ⟨[], same rfl rfl⟩

theorem handleIdentityRequest (n : MapNode) (query : Option IdentityQuery) (allowed : Bool) :
    n.Opens (n.handleIdentityRequest query allowed).2 [] := by
  unfold MapNode.handleIdentityRequest
  split_ifs <;> exact same rfl rfl

theorem handleIdentityResponse (n : MapNode) (peer : PeerId) (result : IdentityResult) :
    n.Opens (n.handleIdentityResponse peer result) [] := by
  unfold MapNode.handleIdentityResponse
  split
  · split <;> exact same rfl rfl
  · exact same rfl rfl

theorem runTask (E : Ed25519) (n : MapNode) (f : Faults) (task : MapTask) :
    ∃ new, n.Opens (n.runTask E f task) new := by
  cases task with
  | learn did peer => exact learn n f did peer
  | verify document signature peer =>
    unfold MapNode.runTask
    dsimp only
    split_ifs
    · exact ⟨_, insert rfl rfl⟩
    · exact ⟨[], same rfl rfl⟩

end MapNode.Opens

namespace PresenceNode
variable {E : Ed25519} {n n' : PresenceNode}

/-- What holds at all times: the index of the limiter, the alternation so far, and that a DID in the map has been
said to be reached, or is about to be. -/
structure Tracking (n : PresenceNode) : Prop where
  indexed : n.limiter.Indexed
  alternates : Alternates n.map.events
  settled : ∀ did : Did, n.map.didToPeer[did]? ≠ none → .didCached did ∈ n.announcing ∨ ¬ n.Offline did
  cached : ∀ e ∈ n.announcing, ∃ did, e = .didCached did

theorem didCached_ne (d d' : Did) : MapEvent.peerOffline d ≠ .didCached d' := fun h => by cases h

theorem peerOffline_injective : Function.Injective MapEvent.peerOffline := fun _ _ h => MapEvent.peerOffline.inj h

theorem alternates_cached {log : List MapEvent} (h : Alternates log) (new : List Did) :
    Alternates (log ++ new.map .didCached) := by
  induction new generalizing log with
  | nil => simpa using h
  | cons d new ih =>
    rw [List.map_cons, List.append_cons]
    exact ih (Alternation.alternates_snoc.2 ⟨h, fun d' heq => absurd heq.symm (didCached_ne d' d)⟩)

/-- The DIDs that are said to be reached are not offline after it, and nobody else goes offline. -/
theorem offline_cached {log : List MapEvent} {new : List Did} {d : Did}
    (h : Alternation.Down MapEvent.didCached MapEvent.peerOffline d (log ++ new.map .didCached)) :
    Alternation.Down MapEvent.didCached MapEvent.peerOffline d log ∧ d ∉ new := by
  induction new generalizing log with
  | nil => exact ⟨by simpa using h, by simp⟩
  | cons d' new ih =>
    rw [List.map_cons, List.append_cons] at h
    obtain ⟨hlog, hnew⟩ := ih h
    rcases hlog.of_snoc with heq | ⟨hdown, hne⟩
    · exact absurd heq.symm (didCached_ne d d')
    · exact ⟨hdown, fun hmem => (List.mem_cons.1 hmem).elim (fun hd => hne (by rw [hd])) hnew⟩

/-- A step between connection events: the map opens, what it says is sent or waits, and no bucket goes. -/
structure Grows (n n' : PresenceNode) : Prop where
  kept : ∀ d : Did, n'.map.didToPeer[d]? = none → n.map.didToPeer[d]? = none
  fresh : ∀ d : Did, n.map.didToPeer[d]? = none → n'.map.didToPeer[d]? ≠ none →
    .didCached d ∈ n'.announcing ∨ ¬ n'.Offline d
  events : ∃ new : List Did, n'.map.events = n.map.events ++ new.map .didCached
  waiting : ∀ d, .didCached d ∈ n.announcing → .didCached d ∈ n'.announcing ∨ ¬ n'.Offline d
  tracks : ∀ p, n.limiter.Tracks p → n'.limiter.Tracks p
  indexed : n.limiter.Indexed → n'.limiter.Indexed
  cached : (∀ e ∈ n.announcing, ∃ did, e = .didCached did) → ∀ e ∈ n'.announcing, ∃ did, e = .didCached did

theorem Grows.offline (h : n.Grows n') {d : Did} (hd : n'.Offline d) : n.Offline d := by
  obtain ⟨new, hnew⟩ := h.events
  unfold PresenceNode.Offline at hd
  rw [hnew] at hd
  exact (offline_cached hd).1

theorem Grows.tracking (h : n.Grows n') (ht : n.Tracking) : n'.Tracking := by
  obtain ⟨new, hnew⟩ := h.events
  refine ⟨h.indexed ht.indexed, ?_, fun d hd => ?_, h.cached ht.cached⟩
  · rw [hnew]
    exact alternates_cached ht.alternates new
  · by_cases hold : n.map.didToPeer[d]? = none
    · exact h.fresh d hold hd
    · rcases ht.settled d hold with hwait | hon
      · exact h.waiting d hwait
      · exact Or.inr fun hoff => hon (h.offline hoff)

/-- An operation of the map that sends what it says itself, beside a check of the limiter. -/
theorem Grows.of_opens {map : MapNode} {limiter : PeerRateLimiter} {new : List Did} (hm : n.map.Opens map new)
    (ht : ∀ p, n.limiter.Tracks p → limiter.Tracks p) (hi : n.limiter.Indexed → limiter.Indexed) :
    n.Grows { n with map, limiter } where
  kept := hm.kept
  fresh d hd hne := by
    refine Or.inr fun hoff => ?_
    unfold PresenceNode.Offline at hoff
    rw [hm.events] at hoff
    exact (offline_cached hoff).2 (hm.fresh d hd hne)
  events := ⟨new, hm.events⟩
  waiting _ hd := Or.inl hd
  tracks := ht
  indexed := hi
  cached := id

theorem grows_runTask (E : Ed25519) (n : PresenceNode) (f : Faults) (i : ℕ) : n.Grows (n.runTask E f i) := by
  unfold PresenceNode.runTask
  cases n.map.tasks[i]? with
  | none => exact Grows.of_opens (.same rfl rfl) (fun _ => id) id
  | some task =>
    obtain ⟨new, hm⟩ := MapNode.Opens.runTask E { n.map with tasks := n.map.tasks.eraseIdx i, events := [] } f task
    refine ⟨hm.kept, fun d hd hne => Or.inl ?_, ⟨[], by simp⟩, fun d hd => Or.inl (List.mem_append_left _ hd),
      fun _ => id, id, fun hc e he => ?_⟩
    · dsimp only
      rw [hm.events]
      exact List.mem_append_right _ (by simpa using hm.fresh d hd hne)
    · rcases List.mem_append.1 he with hold | hnew
      · exact hc e hold
      · rw [hm.events] at hnew
        obtain ⟨d, -, rfl⟩ := List.mem_map.1 hnew
        exact ⟨d, rfl⟩

theorem grows_announce (n : PresenceNode) (i : ℕ) (hc : ∀ e ∈ n.announcing, ∃ d, e = .didCached d) :
    n.Grows (n.announce i) := by
  unfold PresenceNode.announce
  cases hi : n.announcing[i]? with
  | none => exact Grows.of_opens (.same rfl rfl) (fun _ => id) id
  | some e =>
    obtain ⟨d, rfl⟩ := hc e (List.mem_of_getElem? hi)
    refine ⟨fun _ => id, fun d hd hne => absurd hd hne, ⟨[d], rfl⟩, fun d' hd' => ?_, fun _ => id, id,
      fun _ e he => hc e (List.mem_of_mem_eraseIdx he)⟩
    by_cases hdd : d' = d
    · have hsent : d' ∈ [d] := by simp [hdd]
      exact Or.inr fun hoff => (offline_cached hoff).2 hsent
    · exact Or.inl (StepSystem.mem_eraseIdx_of_ne hi hd' fun heq => hdd (MapEvent.didCached.inj heq))

/-- Every step but the close of a connection. -/
theorem grows_step {e : PresenceEvent} (ht : n.Tracking) (he : ∀ peer, e ≠ .connectionClosed peer) :
    n.Grows (n.step E e) := by
  cases e with
  | connectionEstablished peer => exact ⟨fun _ => id, fun d hd hne => absurd hd hne, ⟨[], by simp [step]⟩,
      fun d hd => Or.inl hd, fun _ => id, id, id⟩
  | connectionClosed peer => exact absurd rfl (he peer)
  | gossip source message tokens => exact .of_opens (.handleGossip ..) (fun _ => .check) .check
  | directMessage peer request tokens f =>
    obtain ⟨new, hm⟩ := MapNode.Opens.handleDirectMessage n.map f peer request
      (n.limiter.check peer "direct_messages" tokens).1.isAllowed
    exact .of_opens hm (fun _ => .check) .check
  | identityRequest peer query tokens => exact .of_opens (.handleIdentityRequest ..) (fun _ => .check) .check
  | request peer label tokens => exact .of_opens (.same rfl rfl) (fun _ => .check) .check
  | identityResponse peer result => exact .of_opens (.handleIdentityResponse ..) (fun _ => id) id
  | runTask i f => exact grows_runTask E n f i
  | announce i => exact grows_announce n i ht.cached

theorem Grows.faithful {e : PresenceEvent} (h : n.Grows (n.step E e)) (ht : n.Tracking)
    (he : ∀ peer, e ≠ .connectionClosed peer) : n.Faithful E e where
  mapping d peer hd hnone := by
    have hnone' := h.kept d hnone
    unfold Maps at hd
    rw [hd] at hnone'
    cases hnone'
  offline d hd := by
    obtain ⟨new, hnew⟩ := h.events
    rw [hnew, List.drop_left] at hd
    obtain ⟨d', -, heq⟩ := List.mem_map.1 hd
    exact absurd heq.symm (didCached_ne d d')
  buckets peer hb hgone := absurd (h.tracks peer hb) hgone
  gone peer heq := absurd heq (he peer)
  alternates := (h.tracking ht).alternates

/-! The close of a connection -/

theorem mem_offline_keys {t : SledTree PeerId} {peer : PeerId} {d : Did} :
    d ∈ (t.filter fun _ p => p = peer).keys ↔ t[d]? = some peer := by
  rw [Std.ExtTreeMap.mem_keys, Std.ExtTreeMap.mem_iff_isSome_getElem?, Std.ExtTreeMap.getElem?_filter']
  cases t[d]? <;> simp [Option.filter]

theorem get_filter_ne {t : SledTree PeerId} {peer : PeerId} {d : Did} :
    (t.filter fun _ p => p ≠ peer)[d]? = none ↔ ∀ p, t[d]? = some p → p = peer := by
  rw [Std.ExtTreeMap.getElem?_filter']
  cases t[d]? <;> simp [Option.filter]

theorem closed_events (n : PresenceNode) (peer : PeerId) : (n.step E (.connectionClosed peer)).map.events =
    n.map.events ++ ((n.map.didToPeer.filter fun _ p => p = peer).keys.map .peerOffline) := rfl

theorem not_maps_closed (did : Did) (peer : PeerId) : ¬ (n.step E (.connectionClosed peer)).Maps did peer := by
  intro h
  have hget : (n.map.didToPeer.filter fun _ p => p ≠ peer)[did]? = some peer := h
  rw [Std.ExtTreeMap.getElem?_filter', Option.filter_eq_some_iff] at hget
  simp at hget

/-- The DIDs that go offline as the connection closes go so for the first time, or have been reached since. -/
theorem Tracking.alternates_closed (ht : n.Tracking) (peer : PeerId) :
    Alternates (n.step E (.connectionClosed peer)).map.events ↔
      ∀ did, n.Maps did peer → .didCached did ∈ n.announcing → ¬ n.Offline did := by
  rw [closed_events, Alternates, Alternation.alternates_append_map peerOffline_injective didCached_ne
    (Std.ExtTreeMap.nodup_keys ..)]
  constructor
  · exact fun h did hd _ => h.2 did (mem_offline_keys.2 hd)
  · intro h
    refine ⟨ht.alternates, fun did hd => ?_⟩
    have hmaps : n.Maps did peer := mem_offline_keys.1 hd
    rcases ht.settled did (by rw [show n.map.didToPeer[did]? = some peer from hmaps]; simp) with hwait | hon
    · exact h did hmaps hwait
    · exact hon

theorem Tracking.closed (ht : n.Tracking) {peer : PeerId} (ha : n.Alone (.connectionClosed peer)) :
    (n.step E (.connectionClosed peer)).Tracking where
  indexed := ht.indexed.removePeer
  alternates := (ht.alternates_closed peer).2 ha.2
  settled did hd := by
    have hkept : ¬ ∀ p, n.map.didToPeer[did]? = some p → p = peer := fun h => hd (get_filter_ne.2 h)
    push Not at hkept
    obtain ⟨p, hp, hne⟩ := hkept
    refine (ht.settled did (by rw [hp]; simp)).imp id fun hon hoff => ?_
    unfold Offline at hoff
    rw [closed_events] at hoff
    rcases hoff.of_append_map peerOffline_injective with hmem | hold
    · rw [mem_offline_keys, hp] at hmem
      exact hne (Option.some.inj hmem)
    · exact hon hold
  cached := ht.cached

theorem Tracking.faithful_closed (ht : n.Tracking) (peer : PeerId) :
    n.Faithful E (.connectionClosed peer) ↔ n.Alone (.connectionClosed peer) := by
  constructor
  · intro h
    refine ⟨or_iff_not_imp_left.2 fun hlast => ⟨fun did hd => hlast ?_, fun hb => hlast ?_⟩,
      (ht.alternates_closed peer).1 h.alternates⟩
    · have hgone : (n.step E (.connectionClosed peer)).map.didToPeer[did]? = none :=
        get_filter_ne.2 fun p hp => Option.some.inj (hp.symm.trans hd)
      exact (h.mapping did peer hd hgone).2
    · exact (h.buckets peer hb ht.indexed.not_tracks_removePeer).2
  · rintro ⟨hlast, hfirst⟩
    have hmaps : ∀ did, n.Maps did peer → n.Last peer := fun did hd => hlast.resolve_right fun h => h.1 did hd
    refine ⟨fun did p hd hgone => ?_, fun did hd => ?_, fun p hb hgone => ?_, fun p hp _ => ?_,
      (ht.alternates_closed peer).2 hfirst⟩
    · obtain rfl : p = peer := get_filter_ne.1 hgone p hd
      exact ⟨rfl, hmaps did hd⟩
    · rw [closed_events, List.drop_left] at hd
      obtain ⟨d, hmem, heq⟩ := List.mem_map.1 hd
      obtain rfl := peerOffline_injective heq
      have hd' : n.Maps d peer := mem_offline_keys.1 hmem
      exact ⟨peer, hd', rfl, hmaps d hd'⟩
    · by_cases hp : p = peer
      · subst hp
        exact ⟨rfl, hlast.resolve_right fun h => h.2 hb⟩
      · exact absurd (hb.removePeer hp) hgone
    · obtain rfl : peer = p := PresenceEvent.connectionClosed.inj hp
      exact ⟨fun did => not_maps_closed did peer, ht.indexed.not_tracks_removePeer⟩

theorem Tracking.faithful_iff (ht : n.Tracking) (e : PresenceEvent) : n.Faithful E e ↔ n.Alone e := by
  by_cases he : ∀ peer, e ≠ .connectionClosed peer
  · refine iff_of_true ((grows_step ht he).faithful ht he) ?_
    unfold Alone
    split
    · exact absurd rfl (he _)
    · trivial
  · push Not at he
    obtain ⟨peer, rfl⟩ := he
    exact ht.faithful_closed peer

theorem Tracking.step (ht : n.Tracking) {e : PresenceEvent} (ha : n.Alone e) : (n.step E e).Tracking := by
  by_cases he : ∀ peer, e ≠ .connectionClosed peer
  · exact (grows_step ht he).tracking ht
  · push Not at he
    obtain ⟨peer, rfl⟩ := he
    exact ht.closed ha

theorem Fresh.tracking (h : n.Fresh) : n.Tracking where
  indexed := by
    rw [h.limiter]
    exact PeerRateLimiter.indexed_new
  alternates := by
    rw [h.events]
    exact Alternation.alternates_nil
  settled did hd := by
    rw [h.didToPeer] at hd
    exact absurd rfl hd
  cached e he := by
    rw [h.announcing] at he
    cases he

def trusting : Ed25519 := ⟨fun _ => true, fun _ _ _ => true, fun _ => [], fun _ => [], fun _ => "p"⟩

def started : PresenceNode :=
  ⟨⟨∅, ∅, ⟨"me", ∅, none⟩, [], []⟩, .new, fun _ => 0, []⟩

def writes : PresenceEvent :=
  .directMessage "p" ⟨"m", "did:b", "did:a", [], 0, [], 0, 0, none, none⟩ ⟨true, true⟩ noFaults

theorem started_fresh : started.Fresh := ⟨rfl, rfl, rfl, rfl, fun _ => rfl, rfl⟩

/-- did:b is reached over two connections. -/
def twice : PresenceNode :=
  [.connectionEstablished "p", .connectionEstablished "p", writes].foldl (PresenceNode.step trusting) started

end PresenceNode
end Variance
