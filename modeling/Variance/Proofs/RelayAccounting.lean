import Mathlib.Algebra.BigOperators.Group.Finset.Basic
import Mathlib.Algebra.Order.BigOperators.Group.Finset
import Variance.Spec.Relay

/-! The relay's reservation counters follow the live reservations exactly as long as every event is one that the
counters can tell. -/

namespace Variance
namespace RelayWorld

/-- How many reservations of a peer are live. -/
def held (live : Finset (PeerId × ℕ)) (p : PeerId) : ℕ := (live.filter fun r => r.1 = p).card

variable {live : Finset (PeerId × ℕ)} {p q : PeerId} {c : ℕ}

theorem held_insert (h : (p, c) ∉ live) : held (insert (p, c) live) q = held live q + if p = q then 1 else 0 := by
  unfold held
  rw [Finset.filter_insert]
  split_ifs with hpq
  · rw [Finset.card_insert_of_notMem fun hm => h (Finset.mem_filter.1 hm).1]
  · rfl

theorem held_erase (h : (p, c) ∈ live) : held (live.erase (p, c)) q = held live q - if p = q then 1 else 0 := by
  unfold held
  rw [Finset.filter_erase]
  split_ifs with hpq
  · rw [Finset.card_erase_of_mem (Finset.mem_filter.2 ⟨h, hpq⟩)]
  · have hm : (p, c) ∉ live.filter fun r => r.1 = q := fun hm => hpq (Finset.mem_filter.1 hm).2
    rw [Finset.erase_eq_of_notMem hm, Nat.sub_zero]

theorem held_gone : held (live.filter fun r => r.1 ≠ p) q = if p = q then 0 else held live q := by
  unfold held
  rw [Finset.filter_filter]
  split_ifs with hpq
  · subst hpq
    rw [Finset.card_eq_zero, Finset.filter_eq_empty_iff]
    exact fun r _ hr => hr.1 hr.2
  · congr 1
    refine Finset.filter_congr fun r _ => ⟨fun hr => hr.2, fun hr => ⟨fun hp => hpq (hp.symm.trans hr), hr⟩⟩

theorem held_pos (h : (p, c) ∈ live) : 0 < held live p :=
  Finset.card_pos.2 ⟨(p, c), Finset.mem_filter.2 ⟨h, rfl⟩⟩

theorem card_gone : (live.filter fun r => r.1 ≠ p).card = live.card - held live p := by
  have h : (live.filter fun r => r.1 = p).card + (live.filter fun r => r.1 ≠ p).card = live.card :=
    Finset.card_filter_add_card_filter_not _
  unfold held
  omega

/-- What the counters keep of the live reservations. -/
structure Matched (w : RelayWorld) : Prop where
  active : w.stats.activeReservations = w.live.card
  peers : ∀ p : PeerId, w.stats.peerReservations[p]? = if held w.live p = 0 then none else some (held w.live p)

theorem Matched.get {w : RelayWorld} (h : Matched w) {n : ℕ} (hn : w.stats.peerReservations[p]? = some n) :
    n = held w.live p ∧ 0 < n := by
  rw [h.peers p] at hn
  split_ifs at hn with h0
  obtain rfl := Option.some.inj hn
  exact ⟨rfl, by omega⟩

theorem Matched.held_le {w : RelayWorld} (h : Matched w) (p : PeerId) :
    held w.live p ≤ w.stats.activeReservations := by
  rw [h.active]
  exact Finset.card_le_card (Finset.filter_subset _ _)

/-- The peers with a live reservation are those that are kept, so the counts add up to all that is live. -/
theorem Matched.summed {w : RelayWorld} (h : Matched w) :
    w.live.card = (w.stats.peerReservations.toList.map (·.2)).sum := by
  have hkeys : w.stats.peerReservations.toList.map (·.2) =
      (w.stats.peerReservations.toList.map (·.1)).map (held w.live) := by
    rw [List.map_map]
    exact List.map_congr_left fun e he => (h.get ((mem_iter _).1 he)).1
  have hnodup : (w.stats.peerReservations.toList.map (·.1)).Nodup := by
    rw [List.Nodup, List.pairwise_map]
    exact w.stats.peerReservations.distinct_keys_toList.imp fun hne heq => hne (by simp [heq])
  have hmem : ∀ r ∈ w.live, r.1 ∈ (w.stats.peerReservations.toList.map (·.1)).toFinset := by
    intro r hr
    have hpos : 0 < held w.live r.1 := held_pos hr
    have hget : w.stats.peerReservations[r.1]? = some (held w.live r.1) := by
      rw [h.peers, if_neg (by omega)]
    exact List.mem_toFinset.2 (List.mem_map.2 ⟨(r.1, held w.live r.1), (mem_iter _).2 hget, rfl⟩)
  rw [hkeys, ← List.sum_toFinset _ hnodup]
  exact Finset.card_eq_sum_card_fiberwise hmem

theorem Matched.accounted {w : RelayWorld} (h : Matched w) : w.Accounted where
  summed := h.active.trans h.summed
  live := h.active
  positive _ _ hn := (h.get hn).2
  covered p _ hn := (h.get hn).1 ▸ h.held_le p

theorem Matched.getD {w : RelayWorld} (h : Matched w) (p : PeerId) :
    (w.stats.peerReservations[p]?).getD 0 = held w.live p := by
  rw [h.peers p]
  split_ifs with h0
  · exact h0.symm
  · rfl

theorem Matched.accept {w : RelayWorld} (h : Matched w) (hc : (p, c) ∉ w.live) :
    Matched ⟨w.stats.reservationAccepted p, insert (p, c) w.live⟩ where
  active := by
    rw [Finset.card_insert_of_notMem hc, ← h.active]
    rfl
  peers q := by
    change (w.stats.peerReservations.insert p _)[q]? = _
    rw [get_insert, h.getD, held_insert hc]
    by_cases hpq : p = q
    · subst hpq
      simp
    · simp [hpq, h.peers q]

theorem Matched.timeOut {w : RelayWorld} (h : Matched w) (hc : (p, c) ∈ w.live) :
    Matched ⟨w.stats.reservationTimedOut p, w.live.erase (p, c)⟩ where
  active := by
    rw [Finset.card_erase_of_mem hc, ← h.active]
    rfl
  peers q := by
    have hpos : 0 < held w.live p := held_pos hc
    have hget : w.stats.peerReservations[p]? = some (held w.live p) := by rw [h.peers, if_neg (by omega)]
    unfold RelayStats.reservationTimedOut
    rw [hget, held_erase hc]
    by_cases hpq : p = q
    · subst hpq
      by_cases hlast : held w.live p - 1 = 0 <;> simp [hlast]
    · by_cases hlast : held w.live p - 1 = 0 <;> simp [hlast, hpq, h.peers q]

/-- Whether or not the peer was kept. -/
theorem Matched.disconnect {w : RelayWorld} (h : Matched w) (p : PeerId) :
    Matched ⟨w.stats.peerDisconnected p, w.live.filter fun r => r.1 ≠ p⟩ := by
  have hle := h.held_le p
  by_cases h0 : held w.live p = 0
  · have hget : w.stats.peerReservations[p]? = none := by rw [h.peers, if_pos h0]
    have hstats : w.stats.peerDisconnected p = w.stats := by
      unfold RelayStats.peerDisconnected
      rw [hget]
    refine ⟨?_, fun q => ?_⟩
    · rw [hstats, card_gone, h0, Nat.sub_zero, h.active]
    · rw [hstats, held_gone, h.peers q]
      by_cases hpq : p = q
      · subst hpq
        simp [h0]
      · simp [hpq]
  · have hget : w.stats.peerReservations[p]? = some (held w.live p) := by rw [h.peers, if_neg h0]
    unfold RelayStats.peerDisconnected
    rw [hget]
    refine ⟨?_, fun q => ?_⟩
    · rw [card_gone, ← h.active]
      exact if_pos (by omega)
    · rw [held_gone]
      by_cases hpq : p = q <;> simp [hpq, h.peers q]

theorem Matched.unheld {w : RelayWorld} (h : Matched w) (h0 : w.live = ∅) :
    w.stats.reservationTimedOut p = w.stats := by
  have hget : w.stats.peerReservations[p]? = none := by
    rw [h.peers, h0]
    rfl
  have hactive : w.stats.activeReservations - 1 = w.stats.activeReservations := by
    rw [h.active, h0]
    rfl
  unfold RelayStats.reservationTimedOut
  rw [hget, hactive]

theorem Matched.step {w : RelayWorld} (h : Matched w) {op : RelayOp} (ht : w.Told op) : Matched (w.step op) := by
  cases op with
  | closed p c n =>
    by_cases hn : n = 0
    · subst hn
      exact h.disconnect p
    · have hc : (p, c) ∉ w.live := ht.resolve_left hn
      have hstep : w.step (.closed p c n) = w := by
        simp [RelayWorld.step, liveAfter, handleConnectionClosed, hn, Finset.erase_eq_of_notMem hc]
      rwa [hstep]
  | relay event c =>
    cases event with
    | reservationReqAccepted p renewed =>
      obtain ⟨rfl, hc⟩ := ht
      exact h.accept hc
    | reservationTimedOut p =>
      rcases ht with hc | h0
      · exact h.timeOut hc
      · have hlive : w.live.erase (p, c) = w.live := by rw [h0, Finset.erase_empty]
        have hstep : w.step (.relay (.reservationTimedOut p) c) = w := by
          simp [RelayWorld.step, liveAfter, handleRelayEvent, h.unheld h0, hlive]
        rwa [hstep]
    | _ => exact ⟨h.active, h.peers⟩

/-- A step that the counters cannot tell leaves them apart from what is live. -/
theorem Matched.told {w : RelayWorld} (h : Matched w) {op : RelayOp} (ha : (w.step op).Accounted) : w.Told op := by
  have hlive := ha.live
  have hactive := h.active
  cases op with
  | closed p c n =>
    refine or_iff_not_imp_left.2 fun hn hc => ?_
    have hcard : (w.live.erase (p, c)).card = w.live.card - 1 := Finset.card_erase_of_mem hc
    have hpos : 0 < w.live.card := Finset.card_pos.2 ⟨_, hc⟩
    simp only [RelayWorld.step, handleConnectionClosed, liveAfter, if_neg hn] at hlive
    omega
  | relay event c =>
    cases event with
    | reservationReqAccepted p renewed =>
      change w.stats.activeReservations + 1 = (if renewed then w.live else insert (p, c) w.live).card at hlive
      cases renewed with
      | true =>
        rw [if_pos rfl] at hlive
        omega
      | false =>
        refine ⟨rfl, fun hc => ?_⟩
        rw [if_neg Bool.false_ne_true, Finset.insert_eq_of_mem hc] at hlive
        omega
    | reservationTimedOut p =>
      refine or_iff_not_imp_left.2 fun hc => Finset.not_nonempty_iff_eq_empty.1 fun hne => ?_
      have hpos : 0 < w.live.card := Finset.card_pos.2 hne
      change w.stats.activeReservations - 1 = (w.live.erase (p, c)).card at hlive
      rw [Finset.erase_eq_of_notMem hc] at hlive
      omega
    | _ => trivial

theorem matched_init : Matched init := ⟨rfl, fun _ => rfl⟩

/-- In every run of the relay the counters are right after each step just when each step is one they can tell. -/
theorem reservations_accounted (ops : List RelayOp) :
    StepSystem.Guarded relaySys (fun w op => (w.step op).Accounted) init ops ↔
      StepSystem.Guarded relaySys Told init ops :=
  StepSystem.guarded_iff (fun _ _ h => ⟨h.told, fun ht => (h.step ht).accounted⟩) (fun _ _ h ht => h.step ht)
    matched_init ops

/-- A reservation that is granted and then renewed is counted twice. -/
theorem renewal_counted_twice : ∃ ops : List RelayOp,
    (ops.foldl RelayWorld.step init).live.card = 1 ∧
      (ops.foldl RelayWorld.step init).stats.activeReservations = 2 ∧
      ¬ (ops.foldl RelayWorld.step init).Accounted := by
  refine ⟨[.relay (.reservationReqAccepted "p" false) 0, .relay (.reservationReqAccepted "p" true) 0], rfl, rfl, ?_⟩
  intro h
  exact absurd h.live (by decide)

end RelayWorld
end Variance
