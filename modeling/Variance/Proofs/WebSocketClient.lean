import Variance.Spec.WebSocketClient
import Mathlib.Tactic.Common

/-! A connection is one strand: a lookup, a socket that is not closed, or a reconnect timer. It stays one as long as
the app waits with the next connection until nothing is left of it, and does not break off a lookup. -/

namespace Variance
namespace VarianceWebSocket

variable {s : VarianceWebSocket} {e : SocketEvent} {i j t : ℕ}

/-! The parts of the steps -/

theorem unclosed_of_live (h : s.LiveSocket i) : s.Unclosed i := by
  rcases h with h | h
  · exact ⟨_, h, by decide⟩
  · exact ⟨_, h, by decide⟩

theorem closeSocket_frame : (s.closeSocket i).ws = s.ws ∧ (s.closeSocket i).stopped = s.stopped ∧
    (s.closeSocket i).lookups = s.lookups ∧ (s.closeSocket i).timeouts = s.timeouts ∧
    (s.closeSocket i).intervals = s.intervals ∧ (s.closeSocket i).reconnectTimer = s.reconnectTimer ∧
    (s.closeSocket i).heartbeatTimer = s.heartbeatTimer := by
  unfold closeSocket
  split <;> exact ⟨rfl, rfl, rfl, rfl, rfl, rfl, rfl⟩

theorem closeSocket_live (h : s.LiveSocket i) :
    s.closeSocket i = { s with sockets := s.sockets.set i .closing } := by
  unfold closeSocket
  rcases h with h | h
  · rw [h]
  · rw [h]

theorem closeSocket_not_live (h : ¬ s.LiveSocket i) : s.closeSocket i = s := by
  unfold closeSocket
  split
  · rename_i hc
    exact (h (Or.inl hc)).elim
  · rename_i hc
    exact (h (Or.inr hc)).elim
  · rfl

/-- A close does not run the close callback. -/
theorem unclosed_closeSocket : (s.closeSocket i).Unclosed j ↔ s.Unclosed j := by
  by_cases hl : s.LiveSocket i
  · obtain ⟨r, hr, hne⟩ := unclosed_of_live hl
    have hlt := (List.getElem?_eq_some_iff.1 hr).1
    rw [closeSocket_live hl]
    unfold Unclosed
    rw [List.getElem?_set]
    split_ifs with hij
    · subst hij
      exact iff_of_true ⟨_, rfl, by decide⟩ ⟨r, hr, hne⟩
    · exact Iff.rfl
  · rw [closeSocket_not_live hl]

theorem live_closeSocket : (s.closeSocket i).LiveSocket j ↔ s.LiveSocket j ∧ j ≠ i := by
  by_cases hl : s.LiveSocket i
  · obtain ⟨r, hr, -⟩ := unclosed_of_live hl
    have hlt := (List.getElem?_eq_some_iff.1 hr).1
    rw [closeSocket_live hl]
    unfold LiveSocket
    rw [List.getElem?_set]
    split_ifs with hij
    · subst hij
      simp
    · exact (and_iff_left (Ne.symm hij)).symm
  · rw [closeSocket_not_live hl]
    refine (and_iff_left_of_imp ?_).symm
    rintro h rfl
    exact hl h

/-- A socket that has closed is not live, and the others are as they were. -/
theorem unclosed_set_closed : { s with sockets := s.sockets.set i .closed }.Unclosed j ↔ s.Unclosed j ∧ j ≠ i := by
  unfold Unclosed
  rw [List.getElem?_set]
  by_cases hij : i = j
  · subst hij
    simp
  · rw [if_neg hij]
    exact (and_iff_left (Ne.symm hij)).symm

theorem unclosed_append : { s with sockets := s.sockets ++ [ReadyState.connecting] }.Unclosed i ↔
    s.Unclosed i ∨ i = s.sockets.length := by
  unfold Unclosed
  rcases Nat.lt_trichotomy i s.sockets.length with hlt | heq | hgt
  · rw [List.getElem?_append_left hlt]
    exact (or_iff_left (Nat.ne_of_lt hlt)).symm
  · subst heq
    rw [List.getElem?_concat_length]
    exact iff_of_true ⟨_, rfl, by decide⟩ (Or.inr rfl)
  · have hnone : (s.sockets ++ [ReadyState.connecting])[i]? = none := by
      rw [List.getElem?_eq_none_iff, List.length_append]
      exact hgt
    rw [hnone, List.getElem?_eq_none_iff.2 (Nat.le_of_lt hgt)]
    simp [Nat.ne_of_gt hgt]

/-- A field that has the one timer that runs clears it. -/
theorem timeouts_clearReconnect (ht : ∀ t ∈ s.timeouts, s.reconnectTimer = some t) (hl : s.timeouts.length ≤ 1) :
    s.clearReconnect.timeouts = [] := by
  unfold clearReconnect
  cases hs : s.timeouts with
  | nil =>
    split
    · exact hs
    · simp
  | cons t rest =>
    rw [hs] at ht hl
    rw [ht t List.mem_cons_self]
    dsimp only
    rw [List.length_eq_zero_iff.1 (Nat.le_zero.1 (Nat.le_of_succ_le_succ hl))]
    simp

theorem intervals_clearHeartbeat (hb : s.intervals = [] ∨ ∃ t, s.intervals = [t] ∧ s.heartbeatTimer = some t) :
    s.clearHeartbeat.intervals = [] := by
  unfold clearHeartbeat
  rcases hb with hnil | ⟨t, ht, hb⟩
  · split
    · exact hnil
    · simp [hnil]
  · rw [hb]
    dsimp only
    rw [ht]
    simp

theorem clearReconnect_frame : s.clearReconnect.ws = s.ws ∧ s.clearReconnect.stopped = s.stopped ∧
    s.clearReconnect.lookups = s.lookups ∧ s.clearReconnect.sockets = s.sockets ∧
    s.clearReconnect.intervals = s.intervals ∧ s.clearReconnect.heartbeatTimer = s.heartbeatTimer := by
  unfold clearReconnect
  split <;> exact ⟨rfl, rfl, rfl, rfl, rfl, rfl⟩

theorem clearHeartbeat_frame : s.clearHeartbeat.ws = s.ws ∧ s.clearHeartbeat.stopped = s.stopped ∧
    s.clearHeartbeat.lookups = s.lookups ∧ s.clearHeartbeat.sockets = s.sockets ∧
    s.clearHeartbeat.timeouts = s.timeouts ∧ s.clearHeartbeat.reconnectTimer = s.reconnectTimer := by
  unfold clearHeartbeat
  split <;> exact ⟨rfl, rfl, rfl, rfl, rfl, rfl⟩

/-! One strand -/

structure Inv (s : VarianceWebSocket) : Prop where
  single : ∀ i j, s.Unclosed i → s.Unclosed j → i = j
  strand : s.lookups + s.timeouts.length ≤ 1
  apart : s.lookups = 0 ∧ s.timeouts = [] ∨ ∀ i, ¬ s.Unclosed i
  current : ∀ i, s.ws = some i → s.Unclosed i
  live : ∀ i, s.LiveSocket i → s.ws = some i
  timer : ∀ t ∈ s.timeouts, s.reconnectTimer = some t
  /-- A heartbeat runs for a socket that has opened. -/
  beat : s.intervals = [] ∨ ∃ t i, s.intervals = [t] ∧ s.heartbeatTimer = some t ∧ s.Unclosed i ∧
    s.sockets[i]? ≠ some ReadyState.connecting
  halted : s.stopped = true → s.lookups = 0 ∧ s.timeouts = [] ∧ s.intervals = [] ∧ s.ws = none

theorem inv_new : new.Inv where
  single := by simp [Unclosed, new]
  strand := by decide
  apart := Or.inl ⟨rfl, rfl⟩
  current := by simp [new]
  live := by simp [LiveSocket, new]
  timer := by simp [new]
  beat := Or.inl rfl
  halted := by simp [new]

/-- Without a socket there is no heartbeat. -/
theorem Inv.still (h : s.Inv) (hn : ∀ i, ¬ s.Unclosed i) : s.intervals = [] := by
  rcases h.beat with hnil | ⟨t, i, -, -, hi, -⟩
  · exact hnil
  · exact (hn i hi).elim

theorem Inv.lookup (h : s.Inv) (hl : s.lookups ≠ 0) : s.lookups = 1 ∧ s.timeouts = [] ∧ ∀ i, ¬ s.Unclosed i := by
  have hs := h.strand
  refine ⟨by omega, List.length_eq_zero_iff.1 (by omega), ?_⟩
  rcases h.apart with ⟨hz, -⟩ | hn
  · exact (hl hz).elim
  · exact hn

theorem Inv.timeout (h : s.Inv) (ht : t ∈ s.timeouts) :
    s.lookups = 0 ∧ s.timeouts = [t] ∧ ∀ i, ¬ s.Unclosed i := by
  have hs := h.strand
  have hpos := List.length_pos_of_mem ht
  obtain ⟨u, hu⟩ := List.length_eq_one_iff.1 (show s.timeouts.length = 1 by omega)
  rw [hu] at ht
  refine ⟨by omega, by rw [hu, List.mem_singleton.1 ht], ?_⟩
  rcases h.apart with ⟨-, hz⟩ | hn
  · rw [hz] at hu
    cases hu
  · exact hn

theorem Inv.socket (h : s.Inv) (hi : s.Unclosed i) : s.lookups = 0 ∧ s.timeouts = [] := by
  rcases h.apart with hz | hn
  · exact hz
  · exact (hn i hi).elim

theorem Inv.beats (h : s.Inv) : s.intervals = [] ∨ ∃ t, s.intervals = [t] ∧ s.heartbeatTimer = some t := by
  rcases h.beat with hnil | ⟨t, i, ht, hb, -, -⟩
  · exact Or.inl hnil
  · exact Or.inr ⟨t, ht, hb⟩

/-! The steps -/

theorem Inv.connect (h : s.Inv) (hc : s.Careful .connect) : s.connect.Inv where
  single := h.single
  strand := by
    unfold VarianceWebSocket.connect
    dsimp only
    rw [hc.1, hc.2.1]
    exact Nat.le_refl 1
  apart := Or.inr hc.2.2
  current := h.current
  live := h.live
  timer := h.timer
  beat := Or.inl (h.still hc.2.2)
  halted := by
    intro hs
    cases hs

/-- What is left after a disconnect: nothing but what is closing. -/
theorem Inv.disconnect_left (h : s.Inv) : s.disconnect.ws = none ∧ s.disconnect.stopped = true ∧
    s.disconnect.lookups = s.lookups ∧ s.disconnect.timeouts = [] ∧ s.disconnect.intervals = [] ∧
    (∀ j, s.disconnect.Unclosed j ↔ s.Unclosed j) ∧ ∀ j, ¬ s.disconnect.LiveSocket j := by
  have hs := h.strand
  have htimeouts : { s with stopped := true }.clearReconnect.timeouts = [] :=
    timeouts_clearReconnect h.timer (by dsimp only; omega)
  obtain ⟨hws, hstopped, hlookups, hsockets, hintervals, hbeat⟩ :=
    clearReconnect_frame (s := { s with stopped := true })
  set a := { s with stopped := true }.clearReconnect with ha
  have hstill : a.clearHeartbeat.intervals = [] := intervals_clearHeartbeat (by
    rw [hintervals, hbeat]
    exact h.beats)
  obtain ⟨hws', hstopped', hlookups', hsockets', htimeouts', -⟩ := clearHeartbeat_frame (s := a)
  set b := a.clearHeartbeat with hb
  have hunclosed (j : ℕ) : b.Unclosed j ↔ s.Unclosed j := by
    unfold Unclosed
    rw [hsockets', hsockets]
  have hlive (j : ℕ) : b.LiveSocket j ↔ s.LiveSocket j := by
    unfold LiveSocket
    rw [hsockets', hsockets]
  cases hcur : s.ws with
  | none =>
    have hd : s.disconnect = { b with ws := none } := by
      unfold VarianceWebSocket.disconnect
      dsimp only
      rw [← ha, ← hb, hws', hws, hcur]
    rw [hd]
    refine ⟨rfl, hstopped'.trans hstopped, hlookups'.trans hlookups, htimeouts'.trans htimeouts, hstill, hunclosed,
      fun j hj => ?_⟩
    have := h.live j ((hlive j).1 hj)
    rw [hcur] at this
    cases this
  | some i =>
    have hd : s.disconnect = { b.closeSocket i with ws := none } := by
      unfold VarianceWebSocket.disconnect
      dsimp only
      rw [← ha, ← hb, hws', hws, hcur]
    obtain ⟨-, hstopped'', hlookups'', htimeouts'', hintervals'', -, -⟩ := closeSocket_frame (s := b) (i := i)
    rw [hd]
    refine ⟨rfl, hstopped''.trans (hstopped'.trans hstopped), hlookups''.trans (hlookups'.trans hlookups),
      htimeouts''.trans (htimeouts'.trans htimeouts), hintervals''.trans hstill,
      fun j => unclosed_closeSocket.trans (hunclosed j), fun j hj => ?_⟩
    obtain ⟨hj, hne⟩ := live_closeSocket.1 hj
    have := h.live j ((hlive j).1 hj)
    rw [hcur] at this
    exact hne (Option.some.inj this).symm

theorem Inv.disconnect (h : s.Inv) (hc : s.Careful .disconnect) : s.disconnect.Inv := by
  obtain ⟨hws, -, hlookups, htimeouts, hintervals, hunclosed, hlive⟩ := h.disconnect_left
  have hl : s.disconnect.lookups = 0 := hlookups.trans hc
  refine ⟨fun i j hi hj => ?_, ?_, Or.inl ⟨hl, htimeouts⟩, fun i hi => ?_, fun i hi => (hlive i hi).elim,
    fun t ht => ?_, Or.inl hintervals, fun _ => ⟨hl, htimeouts, hintervals, hws⟩⟩
  · exact h.single i j ((hunclosed i).1 hi) ((hunclosed j).1 hj)
  · rw [hl, htimeouts]
    exact Nat.zero_le 1
  · rw [hws] at hi
    cases hi
  · rw [htimeouts] at ht
    exact (List.not_mem_nil ht).elim

/-- A reconnect is scheduled where nothing is left, or not at all. -/
theorem Inv.scheduleReconnect (h : s.Inv) (hl : s.lookups = 0) (ht : s.timeouts = []) (hn : ∀ i, ¬ s.Unclosed i) :
    s.scheduleReconnect.Inv := by
  unfold VarianceWebSocket.scheduleReconnect
  split_ifs with hstopped
  · exact h
  · refine ⟨h.single, ?_, Or.inr hn, h.current, h.live, fun t hmem => ?_, Or.inl (h.still hn), fun hs => ?_⟩
    · dsimp only
      rw [hl, ht]
      exact Nat.le_refl 1
    · dsimp only at hmem
      rw [ht] at hmem
      exact congrArg some (List.mem_singleton.1 hmem).symm
    · exact (hstopped hs).elim

theorem live_append (i : ℕ) : { s with sockets := s.sockets ++ [ReadyState.connecting] }.LiveSocket i ↔
    s.LiveSocket i ∨ i = s.sockets.length := by
  constructor
  · intro h
    rcases unclosed_append.1 (unclosed_of_live h) with ⟨r, hr, -⟩ | hlast
    · left
      unfold LiveSocket at h
      dsimp only at h
      rw [List.getElem?_append_left (List.getElem?_eq_some_iff.1 hr).1] at h
      exact h
    · exact Or.inr hlast
  · rintro (h | rfl)
    · unfold LiveSocket
      dsimp only
      obtain ⟨r, hr, -⟩ := unclosed_of_live h
      rw [List.getElem?_append_left (List.getElem?_eq_some_iff.1 hr).1]
      exact h
    · exact Or.inl List.getElem?_concat_length

theorem Inv.lookedUp (h : s.Inv) (port : Option ℕ) : (s.step (.lookedUp port)).Inv := by
  unfold step
  dsimp only
  split_ifs with hl
  · exact h
  · obtain ⟨h1, ht, hn⟩ := h.lookup hl
    have hrunning : s.stopped = false := by
      cases hs : s.stopped with
      | false => rfl
      | true => exact (hl (h.halted hs).1).elim
    have hless : { s with lookups := s.lookups - 1 }.Inv := by
      refine ⟨h.single, ?_, Or.inr hn, h.current, h.live, h.timer, h.beat, fun hs => ?_⟩
      · dsimp only
        rw [h1, ht]
        exact Nat.zero_le 1
      · dsimp only at hs
        rw [hrunning] at hs
        cases hs
    unfold attemptConnect
    split_ifs with hport
    · exact hless.scheduleReconnect (by dsimp only; omega) ht hn
    · have hnew (i : ℕ) : ({ s with
          lookups := s.lookups - 1, sockets := s.sockets ++ [.connecting], ws := some s.sockets.length } :
          VarianceWebSocket).Unclosed i ↔ i = s.sockets.length :=
        unclosed_append.trans (or_iff_right (hn i))
      refine ⟨fun i j hi hj => ?_, hless.strand, Or.inl ⟨by dsimp only; omega, ht⟩, fun i hi => ?_, fun i hi => ?_,
        h.timer, Or.inl (h.still hn), fun hs => ?_⟩
      · rw [(hnew i).1 hi, (hnew j).1 hj]
      · exact (hnew i).2 (Option.some.inj hi).symm
      · exact congrArg some ((hnew i).1 (unclosed_of_live hi)).symm
      · dsimp only at hs
        rw [hrunning] at hs
        cases hs

theorem Inv.opened (h : s.Inv) (i : ℕ) : (s.step (.opened i)).Inv := by
  unfold step
  dsimp only
  split_ifs with hi
  · have hlt := (List.getElem?_eq_some_iff.1 hi).1
    have hlive : s.LiveSocket i := Or.inl hi
    obtain ⟨hl, ht⟩ := h.socket (unclosed_of_live hlive)
    have hws := h.live i hlive
    have hrunning : s.stopped ≠ true := by
      intro hs
      rw [(h.halted hs).2.2.2] at hws
      cases hws
    have hstill : s.intervals = [] := by
      rcases h.beat with hnil | ⟨t, j, -, -, hj, hne⟩
      · exact hnil
      · rw [h.single j i hj (unclosed_of_live hlive)] at hne
        exact (hne hi).elim
    have hget (j : ℕ) : (s.sockets.set i .opened)[j]? = if i = j then some .opened else s.sockets[j]? := by
      rw [List.getElem?_set]
      split_ifs with hij
      · rfl
      · rfl
    have hunclosed (j : ℕ) : { s with sockets := s.sockets.set i .opened }.onopen.Unclosed j ↔ s.Unclosed j := by
      unfold Unclosed onopen
      dsimp only
      rw [hget]
      split_ifs with hij
      · subst hij
        exact iff_of_true ⟨_, rfl, by decide⟩ ⟨_, hi, by decide⟩
      · exact Iff.rfl
    refine ⟨fun j k hj hk => h.single j k ((hunclosed j).1 hj) ((hunclosed k).1 hk), h.strand, Or.inl ⟨hl, ht⟩,
      fun j hj => (hunclosed j).2 (h.current j hj), fun j hj => ?_, h.timer, Or.inr ⟨s.nextTimer, i, ?_, rfl, ?_, ?_⟩,
      fun hs => (hrunning hs).elim⟩
    · rw [h.single j i ((hunclosed j).1 (unclosed_of_live hj)) (unclosed_of_live hlive)]
      exact hws
    · unfold onopen
      dsimp only
      rw [hstill]
      rfl
    · exact (hunclosed i).2 (unclosed_of_live hlive)
    · unfold onopen
      dsimp only
      rw [hget, if_pos rfl]
      simp
  · exact h

theorem Inv.closed (h : s.Inv) (i : ℕ) : (s.step (.closed i)).Inv := by
  unfold step
  dsimp only
  split
  · exact h
  · exact h
  · rename_i r hr hi
    have hopen : s.Unclosed i := ⟨r, hi, hr⟩
    obtain ⟨hl, ht⟩ := h.socket hopen
    set a := { s with sockets := s.sockets.set i .closed }
    have hnone (j : ℕ) : ¬ a.Unclosed j := by
      intro hj
      obtain ⟨hj, hne⟩ := unclosed_set_closed.1 hj
      exact hne (h.single j i hj hopen)
    have hstill : a.clearHeartbeat.intervals = [] := intervals_clearHeartbeat h.beats
    obtain ⟨-, hstopped, hlookups, hsockets, htimeouts, -⟩ := clearHeartbeat_frame (s := a)
    set b := { a.clearHeartbeat with ws := none }
    have hnone' (j : ℕ) : ¬ b.Unclosed j := by
      intro hj
      unfold Unclosed at hj
      rw [show b.sockets = a.sockets from hsockets] at hj
      exact hnone j hj
    have hbl : b.lookups = 0 := hlookups.trans hl
    have hbt : b.timeouts = [] := htimeouts.trans ht
    have hinv : b.Inv := by
      refine ⟨fun j k hj => (hnone' j hj).elim, ?_, Or.inr hnone', fun j hj => (by cases hj),
        fun j hj => (hnone' j (unclosed_of_live hj)).elim, fun t hmem => ?_, Or.inl hstill,
        fun _ => ⟨hbl, hbt, hstill, rfl⟩⟩
      · rw [hbl, hbt]
        exact Nat.zero_le 1
      · rw [hbt] at hmem
        exact (List.not_mem_nil hmem).elim
    show (if b.stopped then b else b.scheduleReconnect).Inv
    split_ifs
    · exact hinv
    · exact hinv.scheduleReconnect hbl hbt hnone'

theorem Inv.errored (h : s.Inv) (i : ℕ) : (s.step (.errored i)).Inv := by
  show (s.closeSocket i).Inv
  obtain ⟨hws, hstopped, hlookups, htimeouts, hintervals, hreconnect, hheartbeat⟩ := closeSocket_frame (s := s) (i := i)
  have hopen (j : ℕ) : (s.closeSocket i).Unclosed j ↔ s.Unclosed j := unclosed_closeSocket
  refine ⟨fun j k hj hk => h.single j k ((hopen j).1 hj) ((hopen k).1 hk), ?_, ?_, fun j hj => ?_, fun j hj => ?_,
    fun t ht => ?_, ?_, fun hs => ?_⟩
  · rw [hlookups, htimeouts]
    exact h.strand
  · rw [hlookups, htimeouts]
    exact h.apart.imp_right fun hn j hj => hn j ((hopen j).1 hj)
  · rw [hws] at hj
    exact (hopen j).2 (h.current j hj)
  · rw [hws]
    exact h.live j (live_closeSocket.1 hj).1
  · rw [htimeouts] at ht
    rw [hreconnect]
    exact h.timer t ht
  · rw [hintervals, hheartbeat]
    refine h.beat.imp_right fun ⟨t, j, ht, hb, hj, hne⟩ => ⟨t, j, ht, hb, (hopen j).2 hj, fun hc => ?_⟩
    have hlive := live_closeSocket.1 (Or.inl hc)
    obtain ⟨hl, hji⟩ := hlive
    unfold closeSocket at hc
    split at hc
    · rw [List.getElem?_set, if_neg (Ne.symm hji)] at hc
      exact hne hc
    · rw [List.getElem?_set, if_neg (Ne.symm hji)] at hc
      exact hne hc
    · exact hne hc
  · rw [hstopped] at hs
    rw [hlookups, htimeouts, hintervals, hws]
    exact h.halted hs

theorem Inv.reconnect (h : s.Inv) (t : ℕ) : (s.step (.reconnect t)).Inv := by
  unfold step
  dsimp only
  split_ifs with ht
  · obtain ⟨hl, htimeouts, hn⟩ := h.timeout ht
    have hrunning : s.stopped ≠ true := by
      intro hs
      rw [(h.halted hs).2.1] at ht
      exact List.not_mem_nil ht
    have hnil : s.timeouts.erase t = [] := by
      rw [htimeouts]
      simp
    refine ⟨h.single, ?_, Or.inr hn, h.current, h.live, fun u hu => ?_, h.beat, fun hs => (hrunning hs).elim⟩
    · dsimp only
      rw [hl, hnil]
      exact Nat.le_refl 1
    · dsimp only at hu
      rw [hnil] at hu
      exact (List.not_mem_nil hu).elim
  · exact h

theorem Inv.heartbeat (h : s.Inv) (t : ℕ) : (s.step (.heartbeat t)).Inv := by
  unfold step VarianceWebSocket.heartbeat
  dsimp only
  split_ifs
  · split
    · exact h
    · split_ifs
      · exact ⟨h.single, h.strand, h.apart, h.current, h.live, h.timer, h.beat, h.halted⟩
      · exact h
  · exact h

theorem Inv.step (h : s.Inv) (hc : s.Careful e) : (s.step e).Inv := by
  cases e with
  | connect => exact h.connect hc
  | disconnect => exact h.disconnect hc
  | lookedUp port => exact h.lookedUp port
  | opened i => exact h.opened i
  | closed i => exact h.closed i
  | errored i => exact h.errored i
  | reconnect t => exact h.reconnect t
  | heartbeat t => exact h.heartbeat t

/-! What is right -/

/-- At most one socket delivers. -/
theorem Inv.deliveries (h : s.Inv) : s.deliveries.length ≤ 1 := by
  have hnodup : s.deliveries.Nodup := List.nodup_range.filter _
  have hsame : ∀ i ∈ s.deliveries, ∀ j ∈ s.deliveries, i = j := by
    intro i hi j hj
    have hi' := of_decide_eq_true (List.mem_filter.1 hi).2
    have hj' := of_decide_eq_true (List.mem_filter.1 hj).2
    exact h.single i j (unclosed_of_live (Or.inr hi')) (unclosed_of_live (Or.inr hj'))
  match hd : s.deliveries with
  | [] => exact Nat.zero_le 1
  | [_] => exact Nat.le_refl 1
  | i :: j :: rest =>
    rw [hd] at hnodup hsame
    have hij := hsame i (by simp) j (by simp)
    rw [hij] at hnodup
    simp at hnodup

theorem Inv.right (h : s.Inv) (hc : s.Careful e) : s.Right e := by
  have hn := h.step hc
  have hs := hn.strand
  refine ⟨fun i j hi hj => hn.single i j (unclosed_of_live hi) (unclosed_of_live hj), hn.deliveries, ?_, by omega,
    fun i j he hj hne => ?_, fun hstopped _ _ => ?_⟩
  · rcases hn.beat with hnil | ⟨t, i, ht, -⟩
    · rw [hnil]
      exact Nat.zero_le 1
    · rw [ht]
      exact Nat.le_refl 1
  · subst he
    unfold VarianceWebSocket.step
    dsimp only
    split
    · exact hj
    · exact hj
    · rename_i r hr hi
      exact (hne (h.single j i (h.current j hj) ⟨r, hi, hr⟩)).elim
  · obtain ⟨-, ht, hi, hws⟩ := hn.halted hstopped
    refine ⟨fun i hl => ?_, hws, hi, ht⟩
    have := hn.live i hl
    rw [hws] at this
    cases this

/-! What goes wrong otherwise: with two strands the callbacks can come in an order that shows them. -/

/-- A lookup comes back with a port. -/
def found : SocketEvent := .lookedUp (some 9000)

theorem step_found (hl : s.lookups ≠ 0) : s.step found =
    { s with
      lookups := s.lookups - 1
      sockets := s.sockets ++ [.connecting]
      ws := some s.sockets.length } := by
  unfold found step
  dsimp only
  rw [if_neg hl]
  rfl

/-- The second socket that is made is one too many. -/
theorem two_live (hl : s.lookups ≠ 0) (hi : s.LiveSocket i) : ¬ s.Right found := by
  intro h
  have hone := h.one
  rw [step_found hl] at hone
  have hlast := hone i s.sockets.length ((live_append i).2 (Or.inl hi)) ((live_append _).2 (Or.inr rfl))
  obtain ⟨r, hr, -⟩ := unclosed_of_live hi
  have hlt := (List.getElem?_eq_some_iff.1 hr).1
  omega

theorem connect_beside_lookup (hl : s.lookups ≠ 0) :
    ¬ StepSystem.Guarded socketSys Right s [.connect, found, found] := by
  rintro ⟨-, -, h, -⟩
  have hfirst := step_found (s := s.connect) (Nat.succ_ne_zero _)
  refine two_live (i := s.sockets.length) ?_ ?_ h
  · show (s.connect.step found).lookups ≠ 0
    rw [hfirst]
    exact hl
  · show (s.connect.step found).LiveSocket s.sockets.length
    rw [hfirst]
    exact Or.inl List.getElem?_concat_length

theorem connect_beside_timer (ht : t ∈ s.timeouts) :
    ¬ StepSystem.Guarded socketSys Right s [.connect, found, .reconnect t, found] := by
  rintro ⟨-, -, -, h, -⟩
  have hfirst := step_found (s := s.connect) (Nat.succ_ne_zero _)
  have hfires : ((s.connect.step found).step (.reconnect t)) =
      { s.connect.step found with
        timeouts := (s.connect.step found).timeouts.erase t
        lookups := (s.connect.step found).lookups + 1 } := by
    rw [hfirst]
    exact if_pos ht
  refine two_live (i := s.sockets.length) ?_ ?_ h
  · show ((s.connect.step found).step (.reconnect t)).lookups ≠ 0
    rw [hfires]
    exact Nat.succ_ne_zero _
  · show ((s.connect.step found).step (.reconnect t)).LiveSocket s.sockets.length
    rw [hfires, hfirst]
    exact Or.inl List.getElem?_concat_length

theorem ws_closed (hi : s.Unclosed i) : (s.step (.closed i)).ws = none := by
  obtain ⟨r, hr, hne⟩ := hi
  unfold step
  dsimp only
  split
  · rename_i hnone
    rw [hr] at hnone
    cases hnone
  · rename_i hclosed
    rw [hr] at hclosed
    exact (hne (Option.some.inj hclosed)).elim
  · unfold onclose scheduleReconnect
    dsimp only
    split_ifs <;> rfl

/-- The close callback of the old socket takes the new one for its own. -/
theorem connect_beside_socket (hi : s.Unclosed i) :
    ¬ StepSystem.Guarded socketSys Right s [.connect, found, .closed i] := by
  rintro ⟨-, h, hclosed, -⟩
  have hfirst := step_found (s := s.connect) (Nat.succ_ne_zero _)
  obtain ⟨r, hr, -⟩ := id hi
  have hlt := (List.getElem?_eq_some_iff.1 hr).1
  have hopen : (s.connect.step found).Unclosed i := by
    rw [hfirst]
    exact unclosed_append.2 (Or.inl hi)
  have hkept := hclosed.keeps i s.sockets.length rfl (by
    show (s.connect.step found).ws = _
    rw [hfirst]
    rfl) (by omega)
  rw [show ((socketSys.step (socketSys.step s .connect) found).step (.closed i)).ws = none from ws_closed hopen] at hkept
  cases hkept

/-- A lookup that is left comes back to a client that was stopped. -/
theorem disconnect_in_lookup (h : s.Inv) (hl : s.lookups ≠ 0) :
    ¬ StepSystem.Guarded socketSys Right s [.disconnect, found] := by
  rintro ⟨-, hright, -⟩
  obtain ⟨h1, -, hn⟩ := h.lookup hl
  obtain ⟨-, hstopped, hlookups, -, -, hunclosed, -⟩ := h.disconnect_left
  have hfirst : s.disconnect.step found = _ := step_found (by rw [hlookups]; exact hl)
  have hclosing (j : ℕ) : (s.disconnect.step found).sockets[j]? ≠ some .closing := by
    intro hj
    rw [hfirst] at hj
    rcases unclosed_append.1 ⟨_, hj, by decide⟩ with hold | hnew
    · exact hn j ((hunclosed j).1 hold)
    · subst hnew
      dsimp only at hj
      rw [List.getElem?_concat_length] at hj
      cases hj
  have hlookups' : (s.disconnect.step found).lookups = 0 := by
    rw [hfirst]
    dsimp only
    omega
  have hstopped' : (s.disconnect.step found).stopped = true := by
    rw [hfirst]
    exact hstopped
  refine (hright.gone hstopped' hlookups' hclosing).1 s.disconnect.sockets.length ?_
  show (s.disconnect.step found).LiveSocket _
  rw [hfirst]
  exact Or.inl List.getElem?_concat_length

theorem careless (h : s.Inv) (hc : ¬ s.Careful e) :
    ∃ fs : List SocketEvent, (∀ f ∈ fs, f.IsCallback) ∧ ¬ StepSystem.Guarded socketSys Right s (e :: fs) := by
  cases e with
  | connect =>
    by_cases hl : s.lookups = 0
    · by_cases ht : s.timeouts = []
      · have hopen : ∃ i, s.Unclosed i := by
          by_contra hn
          exact hc ⟨hl, ht, not_exists.1 hn⟩
        obtain ⟨i, hi⟩ := hopen
        exact ⟨[found, .closed i], by simp [found, SocketEvent.IsCallback], connect_beside_socket hi⟩
      · obtain ⟨t, ht⟩ := List.exists_mem_of_ne_nil _ ht
        exact ⟨[found, .reconnect t, found], by simp [found, SocketEvent.IsCallback], connect_beside_timer ht⟩
    · exact ⟨[found, found], by simp [found, SocketEvent.IsCallback], connect_beside_lookup hl⟩
  | disconnect => exact ⟨[found], by simp [found, SocketEvent.IsCallback], disconnect_in_lookup h hc⟩
  | lookedUp port => exact (hc trivial).elim
  | opened i => exact (hc trivial).elim
  | closed i => exact (hc trivial).elim
  | errored i => exact (hc trivial).elim
  | reconnect t => exact (hc trivial).elim
  | heartbeat t => exact (hc trivial).elim

theorem careful_callback {f : SocketEvent} (hf : f.IsCallback) : s.Careful f := by
  cases f with
  | connect => exact hf.elim
  | disconnect => exact hf.elim
  | lookedUp port => trivial
  | opened i => trivial
  | closed i => trivial
  | errored i => trivial
  | reconnect t => trivial
  | heartbeat t => trivial

theorem careful_callbacks (s : VarianceWebSocket) {fs : List SocketEvent} (hf : ∀ f ∈ fs, f.IsCallback) :
    StepSystem.Guarded socketSys Careful s fs := by
  induction fs generalizing s with
  | nil => trivial
  | cons f fs ih => exact ⟨careful_callback (hf f List.mem_cons_self), ih _ fun g hg => hf g (List.mem_cons_of_mem _ hg)⟩

/-- The calls of the app and the callbacks between them are safe, whatever callbacks come after any of them, just when
the calls are careful. -/
theorem careful_iff (h : s.Inv) (es : List SocketEvent) : StepSystem.Guarded socketSys Careful s es ↔
    ∀ before callbacks, before <+: es → (∀ f ∈ callbacks, f.IsCallback) →
      StepSystem.Guarded socketSys Right s (before ++ callbacks) := by
  induction es generalizing s with
  | nil =>
    refine iff_of_true trivial fun before callbacks hbefore hcallbacks => ?_
    rw [List.prefix_nil.1 hbefore]
    exact StepSystem.Guarded.imp (fun _ _ h hc => h.right hc) (fun _ _ h hc => h.step hc) h
      (careful_callbacks s hcallbacks)
  | cons e es ih =>
    constructor
    · rintro ⟨hc, hrest⟩ before callbacks hbefore hcallbacks
      cases before with
      | nil =>
        exact StepSystem.Guarded.imp (fun _ _ h hc => h.right hc) (fun _ _ h hc => h.step hc) h
          (careful_callbacks s hcallbacks)
      | cons f before =>
        obtain ⟨rfl, hrests⟩ := List.cons_prefix_cons.1 hbefore
        exact ⟨h.right hc, (ih (h.step hc)).1 hrest before callbacks hrests hcallbacks⟩
    · intro hall
      have hc : s.Careful e := by
        by_contra hc
        obtain ⟨fs, hfs, hbad⟩ := careless h hc
        exact hbad (hall [e] fs ⟨es, rfl⟩ hfs)
      refine ⟨hc, (ih (h.step hc)).2 fun before callbacks hbefore hcallbacks => ?_⟩
      exact (hall (e :: before) callbacks (List.cons_prefix_cons.2 ⟨rfl, hbefore⟩) hcallbacks).2

/-- From the start on there is one live connection, whatever the callbacks do, just when the calls are careful. -/
theorem one_connection_iff (es : List SocketEvent) : StepSystem.Guarded socketSys Careful new es ↔
    ∀ before callbacks, before <+: es → (∀ f ∈ callbacks, f.IsCallback) →
      StepSystem.Guarded socketSys Right new (before ++ callbacks) := careful_iff inv_new es

/-- A disconnect during the lookup leaves a connection behind, and a connect right after a disconnect is undone by the
close of the socket before it. -/
theorem left_behind_and_undone : ¬ StepSystem.Guarded socketSys Right new [.connect, .disconnect, found] ∧
    ¬ StepSystem.Guarded socketSys Right new
      [.connect, found, .opened 0, .disconnect, .connect, found, .closed 0] := by
  constructor
  · intro h
    have hgone := h.2.2.1.gone (by decide) (by decide) (by
      intro i
      match i with
      | 0 => decide
      | i + 1 => exact fun h => by cases h)
    exact hgone.1 0 (Or.inl rfl)
  · intro h
    have hkept := h.2.2.2.2.2.2.1.keeps 0 1 rfl (by decide) (by decide)
    exact absurd hkept (by decide)

end VarianceWebSocket
end Variance
