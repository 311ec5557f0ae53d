import Mathlib.Data.Finset.Lattice.Lemmas
import Variance.Sanity.Trees
import Variance.Spec.SwarmQueries

/-! Whatever is asked meanwhile and in whichever order the network speaks: who asked is told what came of it, once, and
the search for relays does not overtake itself. -/

namespace Variance

namespace KadProgress
variable {log : List KadProgress} {p : KadProgress}

/-! One query, event by event -/

theorem outcome_eq_none : outcome log = none ↔ ∀ p ∈ log, p.last = false := by
  unfold outcome
  cases h : log.find? last with
  | none => simpa using h
  | some p =>
    have hmem := List.mem_of_find?_eq_some h
    have hlast := List.find?_some h
    refine iff_of_false ?_ fun hall => by rw [hall p hmem] at hlast; cases hlast
    cases p <;> simp

theorem found_eq (h : outcome log = none) : found log = log.flatMap providers := by
  rw [outcome_eq_none] at h
  unfold found
  rw [List.takeWhile_eq_self_iff.2 fun p hp => by rw [h p hp]; rfl]

/-- After the end nothing counts. -/
theorem found_concat_of_end (h : outcome log ≠ none) : found (log ++ [p]) = found log := by
  unfold found
  rw [List.takeWhile_append, if_neg]
  intro hlen
  refine h (outcome_eq_none.2 fun q hq => ?_)
  have hall := List.takeWhile_eq_self_iff.1 ((List.takeWhile_prefix _).eq_of_length hlen) q hq
  simpa using hall

theorem outcome_concat_of_end (h : outcome log ≠ none) : outcome (log ++ [p]) = outcome log := by
  unfold outcome at h ⊢
  rw [found_concat_of_end h, List.find?_append]
  cases hf : log.find? last with
  | none => rw [hf] at h; exact absurd rfl h
  | some q => rfl

theorem found_concat (h : outcome log = none) (ps : List PeerId) :
    outcome (log ++ [.foundProviders ps]) = none ∧ found (log ++ [.foundProviders ps]) = found log ++ ps := by
  have hnone : outcome (log ++ [.foundProviders ps]) = none := by
    rw [outcome_eq_none] at h ⊢
    intro p hp
    rcases List.mem_append.1 hp with hp | hp
    · exact h p hp
    · rw [List.mem_singleton.1 hp]
      rfl
  refine ⟨hnone, ?_⟩
  rw [found_eq hnone, found_eq h, List.flatMap_append]
  simp [providers]

theorem end_concat (h : outcome log = none) (hp : p.last = true) : found (log ++ [p]) = found log ∧
    outcome (log ++ [p]) = match p with
      | .failed error => some (.error ("get_providers failed: " ++ error))
      | _ => some (.ok (found log)) := by
  have hall := outcome_eq_none.1 h
  have hfound : found (log ++ [p]) = found log := by
    have hself : (log.takeWhile fun p => !p.last) = log :=
      List.takeWhile_eq_self_iff.2 fun q hq => by rw [hall q hq]; rfl
    unfold found
    rw [List.takeWhile_append, hself, if_pos rfl]
    simp [hp]
  refine ⟨hfound, ?_⟩
  have hfind : (log ++ [p]).find? last = some p := by
    rw [List.find?_append, List.find?_eq_none.2 fun q hq => by rw [hall q hq]; exact Bool.false_ne_true]
    simp [hp]
  unfold outcome
  rw [hfind, hfound]
  cases p with
  | foundProviders ps => cases hp
  | finished => rfl
  | failed error => rfl

end KadProgress

namespace QueryNode
variable {ρ : Type} {n : QueryNode} {q c : ℕ}

theorem mem_newRelays {known : Finset PeerId} {ps : List PeerId} {p : PeerId} :
    p ∈ newRelays known ps ↔ p ∉ known ∧ p ∈ ps := by
  induction ps generalizing known with
  | nil => simp [newRelays]
  | cons x ps ih =>
    unfold newRelays
    split_ifs with hx
    · rw [ih, List.mem_cons]
      constructor
      · exact fun h => ⟨h.1, Or.inr h.2⟩
      · rintro ⟨hp, rfl | hmem⟩
        · exact absurd hx hp
        · exact ⟨hp, hmem⟩
    · rw [List.mem_cons, ih, List.mem_cons, Finset.mem_insert, not_or]
      by_cases hpx : p = x
      · subst hpx
        simp [hx]
      · simp [hpx]

theorem newRelays_nodup {known : Finset PeerId} {ps : List PeerId} : (newRelays known ps).Nodup := by
  induction ps generalizing known with
  | nil => exact List.nodup_nil
  | cons x ps ih =>
    unfold newRelays
    split_ifs
    · exact ih
    · refine List.nodup_cons.2 ⟨fun hmem => ?_, ih⟩
      exact (mem_newRelays.1 hmem).1 (Finset.mem_insert_self _ _)

/-- The relays that an answer makes known. -/
def discovered (n : QueryNode) (q : ℕ) (ps : List PeerId) : List PeerId :=
  if n.pendingRelayQuery = some q then newRelays n.relayPeerIds ps else []

/-- An answer touches the relays and the one entry of its query. -/
theorem foundProviders_eq (n : QueryNode) (q : ℕ) (ps : List PeerId) : ∃ pending,
    n.foundProviders (ρ := ρ) q ps = ((n.discovered q ps).map .dial, { n with
      relayPeerIds := n.relayPeerIds ∪ (n.discovered q ps).toFinset
      pendingProviderQueries := pending }) ∧
    ∀ q' : ℕ, pending[q']? = if q = q' then n.pendingProviderQueries[q]?.map fun x => (x.1 ++ ps, x.2)
      else n.pendingProviderQueries[q']? := by
  unfold foundProviders discovered
  dsimp only
  cases h : n.pendingProviderQueries[q]? with
  | none =>
    refine ⟨_, rfl, fun q' => ?_⟩
    split_ifs with hq
    · rw [← hq, h]
      rfl
    · rfl
  | some x =>
    refine ⟨_, rfl, fun q' => ?_⟩
    rw [Std.ExtTreeMap.getElem?_insert]
    simp

/-- The end takes the entry of its query out, and the search for relays if it is the one. -/
theorem endQuery_eq (n : QueryNode) (q : ℕ) (answer : List PeerId → Except String (List PeerId)) : ∃ pending,
    n.endQuery (ρ := ρ) q answer =
      (n.pendingProviderQueries[q]?.elim [] fun x => [.reply x.2 (.providers (answer x.1))], { n with
        pendingProviderQueries := pending
        pendingRelayQuery := if n.pendingRelayQuery = some q then none else n.pendingRelayQuery }) ∧
    ∀ q' : ℕ, pending[q']? = if q = q' then none else n.pendingProviderQueries[q']? := by
  unfold endQuery
  dsimp only
  cases h : n.pendingProviderQueries[q]? with
  | none =>
    refine ⟨_, rfl, fun q' => ?_⟩
    split_ifs with hq
    · rw [← hq, h]
    · rfl
  | some x =>
    refine ⟨_, rfl, fun q' => ?_⟩
    rw [Std.ExtTreeMap.getElem?_erase]
    simp

end QueryNode

namespace QueryWorld
variable {ρ : Type} {w : QueryWorld ρ} {configured : Finset PeerId} {c q : ℕ}

/-- Each entry is a caller who has not been answered, and what has been found for them so far. -/
structure Inv (configured : Finset PeerId) (w : QueryWorld ρ) : Prop where
  identityPending : ∀ q c : ℕ, w.node.pendingIdentityRequests[q]? = some c ↔
    w.callers[c]? = some (.identity q) ∧ w.identityLog q = []
  providersPending : ∀ (q c : ℕ) (ps : List PeerId), w.node.pendingProviderQueries[q]? = some (ps, c) ↔
    w.callers[c]? = some (.providers q) ∧ KadProgress.outcome (w.kadLog q) = none ∧
      ps = KadProgress.found (w.kadLog q)
  identityAsked : ∀ c q : ℕ, w.callers[c]? = some (.identity q) → q < w.requests
  providersAsked : ∀ c q : ℕ, w.callers[c]? = some (.providers q) → q < w.queries
  relayAsked : ∀ q ∈ w.relayQueries, q < w.queries
  identityLog : ∀ q, w.requests ≤ q → w.identityLog q = []
  kadLog : ∀ q, w.queries ≤ q → w.kadLog q = []
  own : ∀ (c c' : ℕ) t, w.callers[c]? = some t → w.callers[c']? = some t → c = c'
  relays : w.node.relayPeerIds = configured ∪ w.dials.toFinset
  answered : w.Answered
  searches : w.Searches configured

theorem getElem?_concat_iff {α : Type} {l : List α} {a b : α} {i : ℕ} :
    (l ++ [a])[i]? = some b ↔ l[i]? = some b ∨ i = l.length ∧ a = b := by
  rcases lt_trichotomy i l.length with hlt | rfl | hgt
  · rw [List.getElem?_append_left hlt]
    exact (or_iff_left fun h => hlt.ne h.1).symm
  · simp
  · simp [List.getElem?_eq_none (l := l) hgt.le, hgt.ne', List.getElem?_append_right hgt.le,
      Nat.sub_ne_zero_of_lt hgt]

/-! Asking -/

theorem Inv.own_concat (h : w.Inv configured) {t : QueryTicket} (hnew : ∀ c : ℕ, w.callers[c]? ≠ some t)
    (c c' : ℕ) (t' : QueryTicket) (hc : (w.callers ++ [t])[c]? = some t') (hc' : (w.callers ++ [t])[c']? = some t') :
    c = c' := by
  rcases getElem?_concat_iff.1 hc with hc | ⟨rfl, rfl⟩
  · rcases getElem?_concat_iff.1 hc' with hc' | ⟨rfl, rfl⟩
    · exact h.own c c' t' hc hc'
    · exact absurd hc (hnew c)
  · rcases getElem?_concat_iff.1 hc' with hc' | ⟨rfl, -⟩
    · exact absurd hc' (hnew c')
    · rfl

theorem Inv.sendIdentityRequest (h : w.Inv configured) : (w.step .sendIdentityRequest).Inv configured := by
  have hnew : ∀ c : ℕ, w.callers[c]? ≠ some (.identity w.requests) := fun c hc =>
    (h.identityAsked c _ hc).false
  refine ⟨fun q c => ?_, fun q c ps => ?_, fun c q hc => ?_, fun c q hc => ?_, h.relayAsked,
    fun q hq => h.identityLog q (Nat.le_of_succ_le hq), h.kadLog, h.own_concat hnew, h.relays, ?_,
    ⟨h.searches.single, h.searches.once, h.searches.dialed⟩⟩
  · show (w.node.pendingIdentityRequests.insert w.requests w.callers.length)[q]? = some c ↔
      (w.callers ++ [_])[c]? = _ ∧ _
    rw [getElem?_concat_iff, Std.ExtTreeMap.getElem?_insert]
    by_cases hq : w.requests = q
    · subst hq
      rw [if_pos (by simp), Option.some.injEq]
      constructor
      · rintro rfl
        exact ⟨Or.inr ⟨rfl, rfl⟩, h.identityLog _ le_rfl⟩
      · rintro ⟨hc | ⟨rfl, -⟩, -⟩
        · exact absurd hc (hnew c)
        · rfl
    · rw [if_neg (by simpa using hq), h.identityPending]
      refine and_congr_left fun _ => (or_iff_left ?_).symm
      rintro ⟨-, heq⟩
      exact hq (QueryTicket.identity.inj heq)
  · show _ ↔ (w.callers ++ [_])[c]? = _ ∧ _
    rw [getElem?_concat_iff, or_iff_left fun hc => by cases hc.2]
    exact h.providersPending q c ps
  · rcases getElem?_concat_iff.1 hc with hc | ⟨-, heq⟩
    · exact (h.identityAsked c q hc).trans (Nat.lt_succ_self _)
    · rw [← QueryTicket.identity.inj heq]
      exact Nat.lt_succ_self _
  · rcases getElem?_concat_iff.1 hc with hc | ⟨-, heq⟩
    · exact h.providersAsked c q hc
    · cases heq
  · refine ⟨fun c q hc => ?_, fun c q hc => ?_, fun c hc => ?_⟩
    · rcases getElem?_concat_iff.1 hc with hc | ⟨rfl, heq⟩
      · exact h.answered.identity c q hc
      · have hlog := h.identityLog w.requests le_rfl
        rw [← QueryTicket.identity.inj heq]
        show w.replies w.callers.length = ((w.identityLog w.requests).head?.map _).toList
        rw [hlog]
        exact h.answered.nobody _ le_rfl
    · rcases getElem?_concat_iff.1 hc with hc | ⟨-, heq⟩
      · exact h.answered.providers c q hc
      · cases heq
    · exact h.answered.nobody c (Nat.le_of_succ_le (by simpa [QueryWorld.step] using hc))

theorem Inv.findUsernameProviders (h : w.Inv configured) : (w.step .findUsernameProviders).Inv configured := by
  have hnew : ∀ c : ℕ, w.callers[c]? ≠ some (.providers w.queries) := fun c hc =>
    (h.providersAsked c _ hc).false
  have hlog := h.kadLog w.queries le_rfl
  refine ⟨fun q c => ?_, fun q c ps => ?_, fun c q hc => ?_, fun c q hc => ?_,
    fun q hq => (h.relayAsked q hq).trans (Nat.lt_succ_self _), h.identityLog,
    fun q hq => h.kadLog q (Nat.le_of_succ_le hq), h.own_concat hnew, h.relays, ?_,
    ⟨h.searches.single, h.searches.once, h.searches.dialed⟩⟩
  · show _ ↔ (w.callers ++ [_])[c]? = _ ∧ _
    rw [getElem?_concat_iff, or_iff_left fun hc => by cases hc.2]
    exact h.identityPending q c
  · show (w.node.pendingProviderQueries.insert w.queries ([], w.callers.length))[q]? = some (ps, c) ↔
      (w.callers ++ [_])[c]? = _ ∧ _
    rw [getElem?_concat_iff, Std.ExtTreeMap.getElem?_insert]
    by_cases hq : w.queries = q
    · subst hq
      rw [if_pos (by simp), Option.some.injEq, Prod.mk.injEq]
      show _ ↔ _ ∧ KadProgress.outcome (w.kadLog w.queries) = none ∧ ps = KadProgress.found (w.kadLog w.queries)
      rw [hlog]
      constructor
      · rintro ⟨rfl, rfl⟩
        exact ⟨Or.inr ⟨rfl, rfl⟩, rfl, rfl⟩
      · rintro ⟨hc | ⟨rfl, -⟩, -, rfl⟩
        · exact absurd hc (hnew c)
        · exact ⟨rfl, rfl⟩
    · rw [if_neg (by simpa using hq), h.providersPending]
      refine and_congr_left fun _ => (or_iff_left ?_).symm
      rintro ⟨-, heq⟩
      exact hq (QueryTicket.providers.inj heq)
  · rcases getElem?_concat_iff.1 hc with hc | ⟨-, heq⟩
    · exact h.identityAsked c q hc
    · cases heq
  · rcases getElem?_concat_iff.1 hc with hc | ⟨-, heq⟩
    · exact (h.providersAsked c q hc).trans (Nat.lt_succ_self _)
    · rw [← QueryTicket.providers.inj heq]
      exact Nat.lt_succ_self _
  · refine ⟨fun c q hc => ?_, fun c q hc => ?_, fun c hc => ?_⟩
    · rcases getElem?_concat_iff.1 hc with hc | ⟨-, heq⟩
      · exact h.answered.identity c q hc
      · cases heq
    · rcases getElem?_concat_iff.1 hc with hc | ⟨rfl, heq⟩
      · exact h.answered.providers c q hc
      · rw [← QueryTicket.providers.inj heq]
        show w.replies w.callers.length = ((KadProgress.outcome (w.kadLog w.queries)).map _).toList
        rw [hlog]
        exact h.answered.nobody _ le_rfl
    · exact h.answered.nobody c (Nat.le_of_succ_le (by simpa [QueryWorld.step] using hc))

theorem Inv.relayTick (h : w.Inv configured) : (w.step .relayTick).Inv configured := by
  unfold QueryWorld.step QueryNode.triggerRelayDiscovery
  dsimp only
  cases hp : w.node.pendingRelayQuery with
  | some q => exact h
  | none =>
    have hlog := h.kadLog w.queries le_rfl
    refine ⟨h.identityPending, h.providersPending, h.identityAsked,
      fun c q hc => (h.providersAsked c q hc).trans (Nat.lt_succ_self _), fun q hq => ?_, h.identityLog,
      fun q hq => h.kadLog q (Nat.le_of_succ_le hq), h.own, h.relays,
      ⟨h.answered.identity, h.answered.providers, h.answered.nobody⟩, fun q => ?_, h.searches.once, fun p => ?_⟩
    · rcases List.mem_append.1 hq with hq | hq
      · exact (h.relayAsked q hq).trans (Nat.lt_succ_self _)
      · rw [List.mem_singleton.1 hq]
        exact Nat.lt_succ_self _
    · show some w.queries = some q ↔ q ∈ w.relayQueries ++ [w.queries] ∧ KadProgress.outcome (w.kadLog q) = none
      rw [List.mem_append, List.mem_singleton, Option.some.injEq]
      constructor
      · rintro rfl
        exact ⟨Or.inr rfl, by rw [hlog]; rfl⟩
      · rintro ⟨hq | rfl, hout⟩
        · cases hp.symm.trans ((h.searches.single q).2 ⟨hq, hout⟩)
        · rfl
    · show p ∈ w.dials ↔ p ∉ configured ∧ ∃ q ∈ w.relayQueries ++ [w.queries], p ∈ KadProgress.found (w.kadLog q)
      rw [h.searches.dialed]
      refine and_congr_right fun _ => ?_
      simp [hlog, KadProgress.found, or_and_right, exists_or]

theorem Inv.request (h : w.Inv configured) : (w.step .request).Inv configured :=
  ⟨h.identityPending, h.providersPending, fun c q hc => (h.identityAsked c q hc).trans (Nat.lt_succ_self _),
    h.providersAsked, h.relayAsked, fun q hq => h.identityLog q (Nat.le_of_succ_le hq), h.kadLog, h.own, h.relays,
    ⟨h.answered.identity, h.answered.providers, h.answered.nobody⟩,
    ⟨h.searches.single, h.searches.once, h.searches.dialed⟩⟩

theorem Inv.query (h : w.Inv configured) : (w.step .query).Inv configured :=
  ⟨h.identityPending, h.providersPending, h.identityAsked,
    fun c q hc => (h.providersAsked c q hc).trans (Nat.lt_succ_self _),
    fun q hq => (h.relayAsked q hq).trans (Nat.lt_succ_self _), h.identityLog,
    fun q hq => h.kadLog q (Nat.le_of_succ_le hq), h.own, h.relays,
    ⟨h.answered.identity, h.answered.providers, h.answered.nobody⟩,
    ⟨h.searches.single, h.searches.once, h.searches.dialed⟩⟩

/-! Being told -/

section Effects
variable {w' : QueryWorld ρ} {ps : List PeerId} {r : QueryReply ρ}

theorem replies_concat (he : w'.effects = w.effects ++ [.reply q r]) :
    w'.replies c = w.replies c ++ if q = c then [r] else [] := by
  unfold replies
  rw [he, List.filterMap_append]
  by_cases hq : q = c <;> simp [QueryEffect.replyTo, hq]

theorem dials_concat (he : w'.effects = w.effects ++ [.reply q r]) : w'.dials = w.dials := by
  unfold dials
  rw [he, List.filterMap_append]
  simp [QueryEffect.dialed]

theorem replies_dialing (he : w'.effects = w.effects ++ ps.map .dial) : w'.replies c = w.replies c := by
  unfold replies
  rw [he, List.filterMap_append, List.filterMap_map]
  simp [Function.comp_def, QueryEffect.replyTo]

theorem dials_dialing (he : w'.effects = w.effects ++ ps.map .dial) : w'.dials = w.dials ++ ps := by
  unfold dials
  rw [he, List.filterMap_append, List.filterMap_map]
  simp [Function.comp_def, QueryEffect.dialed]

end Effects

theorem lt_of_ticket {t : QueryTicket} (hc : w.callers[c]? = some t) : c < w.callers.length :=
  (List.getElem?_eq_some_iff.1 hc).1

/-- The first word on a request is the last that the caller hears. -/
theorem Inv.settled (h : w.Inv configured) (hq : q < w.requests) (r : Except String ρ) : QueryWorld.Inv configured
    { w.took (w.node.settleIdentityRequest q r) with
      identityLog := Function.update w.identityLog q (w.identityLog q ++ [r]) } := by
  have hlog : ∀ q', w.requests ≤ q' → Function.update w.identityLog q (w.identityLog q ++ [r]) q' = [] :=
    fun q' hq' => by rw [Function.update_of_ne (hq.trans_le hq').ne']; exact h.identityLog q' hq'
  unfold QueryNode.settleIdentityRequest took
  cases hp : w.node.pendingIdentityRequests[q]? with
  | none =>
    dsimp only
    rw [List.append_nil]
    have hheard : ∀ c : ℕ, w.callers[c]? = some (.identity q) → w.identityLog q ≠ [] := fun c hc hnil => by
      cases hp.symm.trans ((h.identityPending q c).2 ⟨hc, hnil⟩)
    refine ⟨fun q' c => ?_, h.providersPending, h.identityAsked, h.providersAsked, h.relayAsked, hlog, h.kadLog, h.own,
      h.relays, ⟨fun c q' hc => ?_, h.answered.providers, h.answered.nobody⟩,
      ⟨h.searches.single, h.searches.once, h.searches.dialed⟩⟩
    · show w.node.pendingIdentityRequests[q']? = some c ↔ _ ∧ Function.update w.identityLog q _ q' = []
      by_cases hqq : q' = q
      · subst hqq
        rw [hp, Function.update_self]
        simp
      · rw [Function.update_of_ne hqq]
        exact h.identityPending q' c
    · refine (h.answered.identity c q' hc).trans ?_
      show _ = ((Function.update w.identityLog q (w.identityLog q ++ [r]) q').head?.map _).toList
      by_cases hqq : q' = q
      · subst hqq
        rw [Function.update_self, List.head?_append_of_ne_nil _ (hheard c hc)]
      · rw [Function.update_of_ne hqq]
  | some c₀ =>
    dsimp only
    obtain ⟨hc₀, hnil⟩ := (h.identityPending q c₀).1 hp
    rw [hnil, List.nil_append]
    refine ⟨fun q' c => ?_, h.providersPending, h.identityAsked, h.providersAsked, h.relayAsked,
      by rwa [hnil] at hlog, h.kadLog, h.own, ?_, ⟨fun c q' hc => ?_, fun c q' hc => ?_, fun c hc => ?_⟩,
      ⟨h.searches.single, ?_, ?_⟩⟩
    · show (w.node.pendingIdentityRequests.erase q)[q']? = some c ↔ _ ∧ Function.update w.identityLog q [r] q' = []
      rw [Std.ExtTreeMap.getElem?_erase]
      by_cases hqq : q' = q
      · subst hqq
        simp
      · rw [if_neg (by simpa using Ne.symm hqq), Function.update_of_ne hqq]
        exact h.identityPending q' c
    · rw [dials_concat rfl]
      exact h.relays
    · rw [replies_concat rfl, h.answered.identity c q' hc]
      show _ = ((Function.update w.identityLog q [r] q').head?.map _).toList
      by_cases hqq : q' = q
      · subst hqq
        rw [if_pos (h.own c₀ c _ hc₀ hc), hnil, Function.update_self]
        rfl
      · rw [Function.update_of_ne hqq, if_neg, List.append_nil]
        rintro rfl
        exact hqq (QueryTicket.identity.inj (Option.some.inj (hc.symm.trans hc₀)))
    · rw [replies_concat rfl, if_neg, List.append_nil]
      · exact h.answered.providers c q' hc
      · rintro rfl
        cases hc₀.symm.trans hc
    · rw [replies_concat rfl, if_neg (lt_of_ticket hc₀ |>.trans_le hc).ne, List.append_nil]
      exact h.answered.nobody c hc
    · rw [dials_concat rfl]
      exact h.searches.once
    · rw [dials_concat rfl]
      exact h.searches.dialed

section Progress
variable {p : KadProgress} {q' : ℕ}

/-- What more is found counts as long as the query has not ended. -/
theorem found_update_iff (ps : List PeerId) {peer : PeerId} :
    peer ∈ KadProgress.found (Function.update w.kadLog q (w.kadLog q ++ [.foundProviders ps]) q') ↔
      peer ∈ KadProgress.found (w.kadLog q') ∨ q' = q ∧ KadProgress.outcome (w.kadLog q) = none ∧ peer ∈ ps := by
  by_cases hqq : q' = q
  · subst hqq
    rw [Function.update_self]
    by_cases hout : KadProgress.outcome (w.kadLog q') = none
    · rw [(KadProgress.found_concat hout ps).2, List.mem_append]
      simp [hout]
    · rw [KadProgress.found_concat_of_end hout]
      simp [hout]
  · rw [Function.update_of_ne hqq]
    simp [hqq]

theorem outcome_update (ps : List PeerId) :
    KadProgress.outcome (Function.update w.kadLog q (w.kadLog q ++ [.foundProviders ps]) q') =
      KadProgress.outcome (w.kadLog q') := by
  by_cases hqq : q' = q
  · subst hqq
    rw [Function.update_self]
    by_cases hout : KadProgress.outcome (w.kadLog q') = none
    · rw [(KadProgress.found_concat hout ps).1, hout]
    · rw [KadProgress.outcome_concat_of_end hout]
  · rw [Function.update_of_ne hqq]

end Progress

theorem Inv.relay_dialed (h : w.Inv configured) {peer : PeerId} :
    peer ∉ w.node.relayPeerIds ↔ peer ∉ configured ∧ peer ∉ w.dials := by
  rw [h.relays, Finset.mem_union, List.mem_toFinset, not_or]

theorem Inv.found (h : w.Inv configured) (hq : q < w.queries) (ps : List PeerId) : QueryWorld.Inv configured
    { w.took (w.node.foundProviders q ps) with
      kadLog := Function.update w.kadLog q (w.kadLog q ++ [.foundProviders ps]) } := by
  obtain ⟨pending, heq, hpending⟩ := w.node.foundProviders_eq (ρ := ρ) q ps
  rw [heq]
  unfold took
  dsimp only
  have hmem : ∀ p, p ∈ w.node.discovered q ps ↔
      (q ∈ w.relayQueries ∧ KadProgress.outcome (w.kadLog q) = none) ∧ p ∉ configured ∧ p ∉ w.dials ∧ p ∈ ps := by
    intro p
    unfold QueryNode.discovered
    split_ifs with hr
    · rw [QueryNode.mem_newRelays, h.relay_dialed, and_iff_right ((h.searches.single q).1 hr), and_assoc]
    · rw [h.searches.single] at hr
      simp [hr]
  have hnodup : (w.node.discovered q ps).Nodup := by
    unfold QueryNode.discovered
    split_ifs
    · exact QueryNode.newRelays_nodup
    · exact List.nodup_nil
  have hlog : ∀ q', w.queries ≤ q' →
      Function.update w.kadLog q (w.kadLog q ++ [.foundProviders ps]) q' = [] := fun q' hq' => by
    rw [Function.update_of_ne (hq.trans_le hq').ne']
    exact h.kadLog q' hq'
  refine ⟨h.identityPending, fun q' c ps' => ?_, h.identityAsked, h.providersAsked, h.relayAsked, h.identityLog, hlog,
    h.own, ?_, ⟨fun c q' hc => ?_, fun c q' hc => ?_, fun c hc => ?_⟩, ⟨fun q' => ?_, ?_, fun p => ?_⟩⟩
  · show pending[q']? = some (ps', c) ↔ _ ∧ KadProgress.outcome (Function.update w.kadLog q _ q') = none ∧
      ps' = KadProgress.found (Function.update w.kadLog q _ q')
    rw [hpending, outcome_update]
    by_cases hqq : q = q'
    · subst hqq
      rw [if_pos rfl, Function.update_self, Option.map_eq_some_iff]
      constructor
      · rintro ⟨x, hx, heq⟩
        obtain ⟨rfl, rfl⟩ := Prod.mk.inj heq
        obtain ⟨hc, hout, hps⟩ := (h.providersPending q x.2 x.1).1 hx
        exact ⟨hc, hout, by rw [(KadProgress.found_concat hout ps).2, hps]⟩
      · rintro ⟨hc, hout, rfl⟩
        refine ⟨_, (h.providersPending q c _).2 ⟨hc, hout, rfl⟩, ?_⟩
        rw [(KadProgress.found_concat hout ps).2]
    · rw [if_neg hqq, Function.update_of_ne (Ne.symm hqq)]
      exact h.providersPending q' c ps'
  · rw [dials_dialing rfl, List.toFinset_append, ← Finset.union_assoc, ← h.relays]
  · rw [replies_dialing rfl]
    exact h.answered.identity c q' hc
  · rw [replies_dialing rfl, h.answered.providers c q' hc]
    show _ = ((KadProgress.outcome (Function.update w.kadLog q _ q')).map _).toList
    rw [outcome_update]
  · rw [replies_dialing rfl]
    exact h.answered.nobody c hc
  · show _ ↔ _ ∧ KadProgress.outcome (Function.update w.kadLog q _ q') = none
    rw [outcome_update]
    exact h.searches.single q'
  · rw [dials_dialing rfl]
    exact h.searches.once.append hnodup fun p hp hnew => ((hmem p).1 hnew).2.2.1 hp
  · rw [dials_dialing rfl, List.mem_append, h.searches.dialed, hmem]
    show _ ↔ _ ∧ ∃ q' ∈ w.relayQueries, p ∈ KadProgress.found (Function.update w.kadLog q _ q')
    simp only [found_update_iff]
    constructor
    · rintro (⟨hp, q', hq', hfound⟩ | ⟨⟨hrelay, hout⟩, hp, -, hps⟩)
      · exact ⟨hp, q', hq', Or.inl hfound⟩
      · exact ⟨hp, q, hrelay, Or.inr ⟨rfl, hout, hps⟩⟩
    · rintro ⟨hp, q', hq', hfound | ⟨rfl, hout, hps⟩⟩
      · exact Or.inl ⟨hp, q', hq', hfound⟩
      · by_cases hdial : p ∈ w.dials
        · exact Or.inl ((h.searches.dialed p).1 hdial)
        · exact Or.inr ⟨⟨hq', hout⟩, hp, hdial, hps⟩

/-- Who is told at the end of a query. -/
def told (w : QueryWorld ρ) (q : ℕ) (answer : List PeerId → Except String (List PeerId)) : List (QueryEffect ρ) :=
  w.node.pendingProviderQueries[q]?.elim [] fun x => [.reply x.2 (.providers (answer x.1))]

theorem dialed_told {answer : List PeerId → Except String (List PeerId)} :
    (w.told q answer).filterMap QueryEffect.dialed = [] := by
  unfold told
  cases w.node.pendingProviderQueries[q]? <;> simp [QueryEffect.dialed]

theorem Inv.replyTo_told (h : w.Inv configured) {answer : List PeerId → Except String (List PeerId)} :
    (w.told q answer).filterMap (QueryEffect.replyTo c) =
      if w.callers[c]? = some (.providers q) ∧ KadProgress.outcome (w.kadLog q) = none then
        [.providers (answer (KadProgress.found (w.kadLog q)))]
      else [] := by
  unfold told
  cases hp : w.node.pendingProviderQueries[q]? with
  | none =>
    rw [if_neg]
    · rfl
    · rintro ⟨hc, hout⟩
      cases hp.symm.trans ((h.providersPending q c _).2 ⟨hc, hout, rfl⟩)
  | some x =>
    obtain ⟨hx, hout, hps⟩ := (h.providersPending q x.2 x.1).1 hp
    by_cases hc : x.2 = c
    · rw [if_pos ⟨by rw [← hc]; exact hx, hout⟩, ← hps]
      simp [QueryEffect.replyTo, hc]
    · rw [if_neg fun hc' => hc (h.own _ _ _ hx hc'.1)]
      simp [QueryEffect.replyTo, hc]

/-- The last word on a query; `hanswer` is what it says to those who waited. -/
theorem Inv.ended (h : w.Inv configured) (hq : q < w.queries) {p : KadProgress} (hlast : p.last = true)
    {answer : List PeerId → Except String (List PeerId)}
    (hanswer : KadProgress.outcome (w.kadLog q) = none →
      KadProgress.outcome (w.kadLog q ++ [p]) = some (answer (KadProgress.found (w.kadLog q)))) :
    QueryWorld.Inv configured
      { w.took (w.node.endQuery q answer) with kadLog := Function.update w.kadLog q (w.kadLog q ++ [p]) } := by
  obtain ⟨pending, heq, hpending⟩ := w.node.endQuery_eq (ρ := ρ) q answer
  rw [heq]
  unfold took
  dsimp only
  have hfound : ∀ q', KadProgress.found (Function.update w.kadLog q (w.kadLog q ++ [p]) q') =
      KadProgress.found (w.kadLog q') := by
    intro q'
    by_cases hqq : q' = q
    · subst hqq
      rw [Function.update_self]
      by_cases hout : KadProgress.outcome (w.kadLog q') = none
      · exact (KadProgress.end_concat hout hlast).1
      · exact KadProgress.found_concat_of_end hout
    · rw [Function.update_of_ne hqq]
  have hend : KadProgress.outcome (w.kadLog q ++ [p]) ≠ none := by
    by_cases hout : KadProgress.outcome (w.kadLog q) = none
    · rw [hanswer hout]
      exact Option.some_ne_none _
    · rwa [KadProgress.outcome_concat_of_end hout]
  have hlog : ∀ q', w.queries ≤ q' → Function.update w.kadLog q (w.kadLog q ++ [p]) q' = [] := fun q' hq' => by
    rw [Function.update_of_ne (hq.trans_le hq').ne']
    exact h.kadLog q' hq'
  have hreplies : ∀ c, (w.effects ++ w.told q answer).filterMap (QueryEffect.replyTo c) =
      w.replies c ++ if w.callers[c]? = some (.providers q) ∧ KadProgress.outcome (w.kadLog q) = none then
        [.providers (answer (KadProgress.found (w.kadLog q)))] else [] :=
    fun c => by rw [List.filterMap_append, h.replyTo_told]; rfl
  have hdials : (w.effects ++ w.told q answer).filterMap QueryEffect.dialed = w.dials := by
    rw [List.filterMap_append, dialed_told, List.append_nil]
    rfl
  refine ⟨h.identityPending, fun q' c ps => ?_, h.identityAsked, h.providersAsked, h.relayAsked, h.identityLog, hlog,
    h.own, h.relays.trans (by rw [← hdials]; rfl), ⟨fun c q' hc => ?_, fun c q' hc => ?_, fun c hc => ?_⟩,
    ⟨fun q' => ?_, ?_, fun peer => ?_⟩⟩
  · show pending[q']? = _ ↔ _ ∧ KadProgress.outcome (Function.update w.kadLog q _ q') = none ∧
      ps = KadProgress.found (Function.update w.kadLog q _ q')
    rw [hpending, hfound]
    by_cases hqq : q = q'
    · subst hqq
      rw [if_pos rfl, Function.update_self]
      simp [hend]
    · rw [if_neg hqq, Function.update_of_ne (Ne.symm hqq)]
      exact h.providersPending q' c ps
  · refine (hreplies c).trans ?_
    rw [if_neg, List.append_nil]
    · exact h.answered.identity c q' hc
    · rintro ⟨hc', -⟩
      cases hc.symm.trans hc'
  · refine (hreplies c).trans ?_
    show _ = ((KadProgress.outcome (Function.update w.kadLog q _ q')).map _).toList
    rw [h.answered.providers c q' hc]
    by_cases hqq : q = q'
    · subst hqq
      rw [Function.update_self]
      by_cases hout : KadProgress.outcome (w.kadLog q) = none
      · rw [if_pos ⟨hc, hout⟩, hanswer hout, hout]
        rfl
      · rw [if_neg fun h => hout h.2, List.append_nil, KadProgress.outcome_concat_of_end hout]
    · rw [Function.update_of_ne (Ne.symm hqq), if_neg, List.append_nil]
      rintro ⟨hc', -⟩
      exact hqq (QueryTicket.providers.inj (Option.some.inj (hc'.symm.trans hc)))
  · refine (hreplies c).trans ?_
    rw [if_neg, List.append_nil]
    · exact h.answered.nobody c hc
    · rintro ⟨hc', -⟩
      exact (lt_of_ticket hc').not_ge hc
  · show (if w.node.pendingRelayQuery = some q then none else w.node.pendingRelayQuery) = some q' ↔
      _ ∧ KadProgress.outcome (Function.update w.kadLog q _ q') = none
    by_cases hqq : q = q'
    · subst hqq
      rw [Function.update_self]
      refine iff_of_false (fun heq => ?_) fun h => hend h.2
      split_ifs at heq with hr
      exact hr heq
    · rw [Function.update_of_ne (Ne.symm hqq), ← h.searches.single]
      split_ifs with hr
      · rw [hr]
        simp [hqq]
      · rfl
  · show (((w.effects ++ w.told q answer).filterMap QueryEffect.dialed)).Nodup
    rw [hdials]
    exact h.searches.once
  · show peer ∈ (w.effects ++ w.told q answer).filterMap QueryEffect.dialed ↔
      _ ∧ ∃ q' ∈ w.relayQueries, peer ∈ KadProgress.found (Function.update w.kadLog q _ q')
    rw [hdials, h.searches.dialed]
    simp only [hfound]

theorem Inv.kad (h : w.Inv configured) (hq : q < w.queries) (p : KadProgress) : QueryWorld.Inv configured
    { w.took (w.node.handleKadEvent q p) with kadLog := Function.update w.kadLog q (w.kadLog q ++ [p]) } := by
  cases p with
  | foundProviders ps => exact h.found hq ps
  | finished => exact h.ended hq rfl fun hout => (KadProgress.end_concat hout rfl).2
  | failed error => exact h.ended hq rfl fun hout => (KadProgress.end_concat hout rfl).2

theorem Inv.step (h : w.Inv configured) (e : QueryEvent ρ) : (w.step e).Inv configured := by
  cases e with
  | sendIdentityRequest => exact h.sendIdentityRequest
  | findUsernameProviders => exact h.findUsernameProviders
  | relayTick => exact h.relayTick
  | request => exact h.request
  | query => exact h.query
  | identityResponse q response =>
    unfold QueryWorld.step
    dsimp only
    split_ifs with hq
    · exact h.settled hq _
    · exact h
  | identityFailure q peer error =>
    unfold QueryWorld.step
    dsimp only
    split_ifs with hq
    · exact h.settled hq _
    · exact h
  | kad q p =>
    unfold QueryWorld.step
    dsimp only
    split_ifs with hq
    · exact h.kad hq p
    · exact h

theorem Inv.init (h : (querySys ρ configured).init w) : w.Inv configured := by
  obtain ⟨node, requests, queries, callers, relayQueries, identityLog, kadLog, effects⟩ := w
  obtain ⟨rfl, rfl, rfl, rfl, rfl, rfl⟩ := h
  refine ⟨fun q c => ?_, fun q c ps => ?_, fun c q hc => ?_, fun c q hc => ?_, fun q hq => ?_, fun _ _ => rfl,
    fun _ _ => rfl, fun c c' t hc => ?_, ?_, ⟨fun c q hc => ?_, fun c q hc => ?_, fun _ _ => rfl⟩,
    ⟨fun q => ?_, List.nodup_nil, fun p => ?_⟩⟩
  · simp
  · simp
  · simp at hc
  · simp at hc
  · cases hq
  · simp at hc
  · simp [dials]
  · simp at hc
  · simp at hc
  · simp
  · simp [dials]

theorem inv_of_reachable (h : StepSystem.Reachable (querySys ρ configured) w) : w.Inv configured :=
  h.invariant (fun _ => Inv.init) fun _ e hi _ => hi.step e

/-- Who asks for an identity, or for the providers of a username, is sent what came of that very request, once; what was
found is handed over in the order it was found in. -/
theorem queries_answered (h : StepSystem.Reachable (querySys ρ configured) w) : w.Answered :=
  (inv_of_reachable h).answered

/-- No two searches for relays overlap, and no relay is dialed twice for having been found. -/
theorem relays_searched (h : StepSystem.Reachable (querySys ρ configured) w) : w.Searches configured :=
  (inv_of_reachable h).searches

/-- Two callers and two searches, whose answers cross; a failure follows the response, and a relay is found again. -/
def crossing : QueryWorld ℕ :=
  [.findUsernameProviders, .relayTick, .sendIdentityRequest, .relayTick, .kad 1 (.foundProviders ["r", "s", "r"]),
    .kad 0 (.foundProviders ["a"]), .identityResponse 0 7, .kad 0 (.foundProviders ["b"]),
    .identityFailure 0 "a" "Timeout", .kad 1 .finished, .kad 0 .finished, .relayTick,
    .kad 2 (.foundProviders ["s", "t"])].foldl QueryWorld.step
    ⟨⟨∅, ∅, {"r"}, none⟩, 0, 0, [], [], fun _ => [], fun _ => [], []⟩

theorem crossing_reachable : StepSystem.Reachable (querySys ℕ {"r"}) crossing :=
  StepSystem.reachable_foldl (M := querySys ℕ {"r"}) (.init ⟨rfl, rfl, rfl, rfl, rfl, rfl⟩) _

theorem queries_answered_crossing : crossing.replies 0 = [.providers (.ok ["a", "b"])] ∧
    crossing.replies 1 = [.identity (.ok 7)] :=
  have h := queries_answered crossing_reachable
  ⟨h.providers 0 0 (by decide), h.identity 1 0 rfl⟩

theorem relays_searched_crossing : crossing.dials.Nodup ∧ crossing.node.pendingRelayQuery = some 2 ∧
    "t" ∈ crossing.dials :=
  have h := relays_searched crossing_reachable
  ⟨h.once, (h.single 2).2 (by decide), (h.dialed "t").2 (by decide)⟩

end QueryWorld
end Variance
