import Variance.Spec.SwarmQueries

/-! A discovery that fails on the way out stays pending for good; any other end clears it. -/

namespace Variance
namespace DiscoveryWorld
variable {w : DiscoveryWorld} {q : ℕ} {p r : PeerId} {node : DiscoveryNode} {peers : List PeerId}

/-- What is pending is the discoveries without an end, and the failed ones. -/
structure Inv (w : DiscoveryWorld) : Prop where
  pending : ∀ q p, w.node.pendingAutoDiscovery[q]? = some p ↔
    w.requests[q]? = some ⟨p, true⟩ ∧ (w.outcome q = none ∨ w.outcome q = some .failure)
  fresh : ∀ q, w.sent ≤ q → w.outcome q = none

theorem isPending_iff {n : DiscoveryNode} :
    n.isPending p = true ↔ ∃ q : ℕ, n.pendingAutoDiscovery[q]? = some p := by
  unfold DiscoveryNode.isPending
  rw [List.any_eq_true]
  constructor
  · rintro ⟨e, he, hp⟩
    exact ⟨e.1, by rw [Std.ExtTreeMap.mem_toList_iff_getElem?_eq_some.1 he, of_decide_eq_true hp]⟩
  · rintro ⟨q, hq⟩
    exact ⟨(q, p), Std.ExtTreeMap.mem_toList_iff_getElem?_eq_some.2 hq, decide_eq_true rfl⟩

/-! What is sent -/

theorem requests_record {autoDiscovery : Bool} {r : IdentityQueried} :
    ({ w with node := node }.record peers autoDiscovery).requests[q]? = some r ↔ w.requests[q]? = some r ∨
      w.sent ≤ q ∧ r.autoDiscovery = autoDiscovery ∧ peers[q - w.sent]? = some r.peer := by
  unfold record sent
  dsimp only
  rw [List.getElem?_append]
  by_cases hq : q < w.requests.length
  · rw [if_pos hq]
    exact ⟨Or.inl, fun h => h.resolve_right fun hr => by omega⟩
  · rw [if_neg hq, List.getElem?_map, Option.map_eq_some_iff, List.getElem?_eq_none (not_lt.1 hq)]
    constructor
    · rintro ⟨p, hp, rfl⟩
      exact Or.inr ⟨not_lt.1 hq, rfl, hp⟩
    · rintro (h | ⟨-, ha, hp⟩)
      · cases h
      · exact ⟨r.peer, hp, by rw [← ha]⟩

/-- Requests are sent, and the discoveries among them entered. -/
theorem Inv.record {autoDiscovery : Bool} (h : w.Inv) (hn : ∀ q p, node.pendingAutoDiscovery[q]? = some p ↔
      w.node.pendingAutoDiscovery[q]? = some p ∨ w.sent ≤ q ∧ autoDiscovery = true ∧ peers[q - w.sent]? = some p) :
    ({ w with node := node }.record peers autoDiscovery).Inv := by
  refine ⟨fun q p => ?_, fun q hq => h.fresh q ?_⟩
  · refine (hn q p).trans ?_
    rw [requests_record, h.pending]
    constructor
    · rintro (⟨hr, ho⟩ | ⟨hq, rfl, hp⟩)
      · exact ⟨Or.inl hr, ho⟩
      · exact ⟨Or.inr ⟨hq, rfl, hp⟩, Or.inl (h.fresh q hq)⟩
    · rintro ⟨hr | ⟨hq, ha, hp⟩, ho⟩
      · exact Or.inl ⟨hr, ho⟩
      · exact Or.inr ⟨hq, ha.symm, hp⟩
  · unfold sent DiscoveryWorld.record at *
    dsimp only at hq
    rw [List.length_append] at hq
    omega

/-- One request more. -/
theorem get_insert_sent (h : w.Inv) : (w.node.pendingAutoDiscovery.insert w.sent p)[q]? = some r ↔
    w.node.pendingAutoDiscovery[q]? = some r ∨ w.sent ≤ q ∧ [p][q - w.sent]? = some r := by
  rw [Std.ExtTreeMap.getElem?_insert]
  by_cases hq : w.sent = q
  · have hnone : w.node.pendingAutoDiscovery[q]? ≠ some r := by
      intro hp
      have := (List.getElem?_eq_some_iff.1 ((h.pending q r).1 hp).1).1
      unfold sent at hq
      omega
    simp [hq, hnone]
  · rw [if_neg (by simpa using hq)]
    refine ⟨Or.inl, fun hr => hr.resolve_right ?_⟩
    rintro ⟨hle, hr⟩
    rw [List.getElem?_eq_none (by simp; omega)] at hr
    cases hr

/-- The entries of several requests, numbered on from `s`. -/
theorem get_insertNumbered (t : Std.ExtTreeMap ℕ PeerId) (s : ℕ) :
    (((List.range' s peers.length).zip peers).foldl (fun t e => t.insert e.1 e.2) t)[q]? =
      if s ≤ q ∧ q < s + peers.length then peers[q - s]? else t[q]? := by
  induction peers generalizing t s with
  | nil => simp
  | cons a peers ih =>
    rw [List.length_cons, List.range'_succ, List.zip_cons_cons, List.foldl_cons, ih, Std.ExtTreeMap.getElem?_insert]
    by_cases hq : s = q
    · subst hq
      simp
    · by_cases hin : s + 1 ≤ q ∧ q < s + 1 + peers.length
      · rw [if_pos hin, if_pos (by omega), show q - s = q - (s + 1) + 1 by omega, List.getElem?_cons_succ]
      · rw [if_neg hin, if_neg (by simpa using hq), if_neg (by omega)]

/-! The steps -/

theorem Inv.settle {o : IdentityOutcome} (h : w.Inv) (hq : w.Waiting q)
    (hn : ∀ q' p, node.pendingAutoDiscovery[q']? = some p ↔
      w.node.pendingAutoDiscovery[q']? = some p ∧ (q' = q → o = .failure)) :
    Inv { w with node := node, outcome := Function.update w.outcome q (some o) } := by
  refine ⟨fun q' p => ?_, fun q' hq' => ?_⟩
  · refine (hn q' p).trans ?_
    rw [h.pending]
    dsimp only
    by_cases hqq : q' = q
    · subst hqq
      rw [Function.update_self, hq.2]
      simp
    · rw [Function.update_of_ne hqq]
      simp [hqq]
  · dsimp only
    rw [Function.update_of_ne]
    · exact h.fresh q' hq'
    · rintro rfl
      exact absurd hq.1 (not_lt.2 hq')

theorem Inv.next (h : w.Inv) (e : DiscoveryEvent) : (w.next e).Inv := by
  cases e with
  | connectionEstablished peer =>
    exact h.record fun q p => (get_insert_sent h).trans (by simp)
  | connectionClosed peer => exact ⟨h.pending, h.fresh⟩
  | request peer allowed =>
    refine h.record fun q p => ?_
    unfold DiscoveryNode.handleIdentityRequest
    by_cases hr : w.node.reciprocates peer allowed = true
    · rw [if_pos hr, if_pos hr]
      exact (get_insert_sent h).trans (by simp)
    · rw [if_neg hr, if_neg hr]
      simp
  | setLocalIdentity connected =>
    refine h.record fun q p => ?_
    unfold DiscoveryNode.setLocalIdentity
    dsimp only
    rw [get_insertNumbered]
    split_ifs with hq
    · have hnone : w.node.pendingAutoDiscovery[q]? ≠ some p := by
        intro hp
        have := (List.getElem?_eq_some_iff.1 ((h.pending q p).1 hp).1).1
        unfold sent at hq
        omega
      simp [hq.1, hnone]
    · refine ⟨Or.inl, fun hr => hr.resolve_right ?_⟩
      rintro ⟨hle, -, hr⟩
      rw [List.getElem?_eq_none (by omega)] at hr
      cases hr
  | send peer =>
    have hsame : ({ w with node := w.node }.record [peer] false).Inv := h.record fun q p => by simp
    exact hsame
  | mapping t => exact ⟨h.pending, h.fresh⟩
  | response q found =>
    unfold DiscoveryWorld.next
    dsimp only
    split_ifs with hq
    · refine h.settle hq fun q' p => ?_
      unfold DiscoveryNode.handleIdentityResponse
      dsimp only
      rw [Std.ExtTreeMap.getElem?_erase]
      by_cases hqq : q = q'
      · simp [hqq]
      · simp [hqq, Ne.symm hqq]
    · exact h
  | outboundFailure q =>
    unfold DiscoveryWorld.next
    dsimp only
    split_ifs with hq
    · exact h.settle hq fun q' p => by simp [DiscoveryNode.handleOutboundFailure]
    · exact h

theorem inv_of_reachable (h : StepSystem.Reachable discoverySys w) : w.Inv := by
  refine h.invariant ?_ fun _ e hi _ => hi.next e
  rintro w ⟨-, hp, -, hr, ho⟩
  refine ⟨fun q p => ?_, fun q _ => by rw [ho]⟩
  rw [hp, hr]
  simp

/-- The peer of an idle one that is pending has a failed discovery. -/
theorem Inv.pending_iff (h : w.Inv) (hi : w.Idle p) : w.node.isPending p = true ↔
    ∃ q, w.requests[q]? = some ⟨p, true⟩ ∧ w.outcome q = some .failure := by
  rw [isPending_iff]
  constructor
  · rintro ⟨q, hq⟩
    obtain ⟨hr, ho | ho⟩ := (h.pending q p).1 hq
    · exact (hi q _ hr rfl ho).elim
    · exact ⟨q, hr, ho⟩
  · rintro ⟨q, hr, ho⟩
    exact ⟨q, (h.pending q p).2 ⟨hr, Or.inr ho⟩⟩

/-- The bookkeeping is clean just when no discovery has failed of a peer that nothing is outstanding to. -/
theorem discovery_clean_iff (h : StepSystem.Reachable discoverySys w) : w.Clean ↔ w.NoneFailed := by
  have hi := inv_of_reachable h
  constructor
  · rintro hc q ⟨p, a⟩ hr rfl hidle ho
    have hpend := (hi.pending_iff hidle).2 ⟨q, hr, ho⟩
    rw [hc.settled p hidle] at hpend
    cases hpend
  · intro hn
    have hsettled : ∀ p, w.Idle p → w.node.isPending p = false := by
      intro p hidle
      rw [← Bool.not_eq_true, hi.pending_iff hidle]
      rintro ⟨q, hr, ho⟩
      exact hn q _ hr rfl hidle ho
    refine ⟨hsettled, fun p hidle hatt hmap => ?_⟩
    have hr : w.node.reciprocates p true = true := by
      simp [DiscoveryNode.reciprocates, hatt, hmap, hsettled p hidle]
    unfold DiscoveryWorld.next
    dsimp only
    rw [if_pos hr]
    rfl

end DiscoveryWorld

namespace Discovery

def started : DiscoveryWorld := ⟨⟨∅, ∅, ∅⟩, [], fun _ => none⟩

def run (es : List DiscoveryEvent) : DiscoveryWorld := es.foldl discoverySys.step started

theorem started_init : discoverySys.init started := ⟨rfl, rfl, rfl, rfl, rfl⟩

theorem reachable_run (es : List DiscoveryEvent) : StepSystem.Reachable discoverySys (run es) :=
  StepSystem.reachable_foldl (.init started_init) es

/-- A peer is asked on connecting, and the request fails. -/
theorem failure_stays : ¬ ∀ w, StepSystem.Reachable discoverySys w → w.Clean := by
  intro h
  have hc := h _ (reachable_run [.connectionEstablished "p", .outboundFailure 0])
  have hpend := hc.settled "p" fun q r hr _ ho => ?_
  · exact absurd hpend (by decide +kernel)
  · cases q with
    | zero => exact absurd ho (by decide +kernel)
    | succ q => cases hr

/-- It answers. -/
theorem clean_run : (run [.connectionEstablished "p", .response 0 true]).Clean :=
  (DiscoveryWorld.discovery_clean_iff (reachable_run _)).2 fun q r hr _ _ ho => by
    cases q with
    | zero => exact absurd ho (by decide +kernel)
    | succ q => cases hr

end Discovery
end Variance
