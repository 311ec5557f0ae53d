import Variance.Spec.Resolve

/-! With one resolve of a DID at a time, each caller of a broadcast resolution gets its own reply, at the right
time. -/

namespace Variance
namespace ResolveWorld
variable {w : ResolveWorld} {did : Did} {q c : ℕ} {r : Resolve}

/-- What is known of a caller that has its reply. -/
def Answered (w : ResolveWorld) (c : ℕ) (r : Resolve) : Prop :=
  (∃ f, w.replies c = [.found f] ∧ f.About r.did ∧ ∃ q ∈ r.requests, w.outcome q = some (.found f)) ∨
    (w.replies c = [.notFound] ∧ ∀ q ∈ r.requests, w.outcome q = some .other)

/-- What is known of a caller that waits: its entry stands, and its counter is right. -/
structure Waits (w : ResolveWorld) (did : Did) (k c : ℕ) (r : Resolve) : Prop where
  caller : w.callers[c]? = some r
  asked : r.did = did
  silent : w.replies c = []
  pos : 0 < k
  count : k = r.requests.countP fun q => (w.outcome q).isNone
  open_ : ∀ q ∈ r.requests,
    (w.outcome q = none ∧ w.node.pendingResolveRequests[q]? = some did) ∨ w.outcome q = some .other

structure Inv (w : ResolveWorld) : Prop where
  fresh : ∀ q, w.sent ≤ q → w.outcome q = none
  own : ∀ (c : ℕ) (r : Resolve), w.callers[c]? = some r → r.requests.Nodup ∧ ∀ q ∈ r.requests, q < w.sent
  apart : ∀ (c c' : ℕ) (r r' : Resolve) (q : ℕ), w.callers[c]? = some r → w.callers[c']? = some r' →
    q ∈ r.requests → q ∈ r'.requests → c = c'
  silent : ∀ c, w.callers.length ≤ c → w.replies c = []
  waiting : ∀ (did : Did) (k c : ℕ), w.node.pendingDidBroadcasts[did]? = some (k, c) → ∃ r, w.Waits did k c r
  listed : ∀ (q : ℕ) (did : Did), w.node.pendingResolveRequests[q]? = some did → w.outcome q = none ∧
    ∃ k c r, w.node.pendingDidBroadcasts[did]? = some (k, c) ∧ w.callers[c]? = some r ∧ q ∈ r.requests
  done : ∀ (c : ℕ) (r : Resolve), w.callers[c]? = some r →
    (∃ k, w.node.pendingDidBroadcasts[r.did]? = some (k, c)) ∨ w.Answered c r

theorem Inv.resolved (h : w.Inv) : w.Resolved := by
  have hcase (c : ℕ) (r : Resolve) (hr : w.callers[c]? = some r) :
      (∃ k, w.Waits r.did k c r) ∨ w.Answered c r := by
    refine (h.done c r hr).imp_left ?_
    rintro ⟨k, hk⟩
    obtain ⟨r', hw⟩ := h.waiting r.did k c hk
    obtain rfl : r = r' := Option.some.inj (hr.symm.trans hw.caller)
    exact ⟨k, hw⟩
  refine ⟨fun c r hr => ?_, fun c r hr => ?_, fun c r f hr hf => ?_, fun c r reply hr hreply hne => ?_, ?_⟩
  · rcases hcase c r hr with ⟨k, hw⟩ | ⟨f, hf, -⟩ | ⟨he, -⟩
    · refine ⟨by rw [hw.silent]; exact Nat.zero_le _, fun hall => ?_⟩
      have hzero : (r.requests.countP fun q => (w.outcome q).isNone) = 0 :=
        List.countP_eq_zero.2 fun q hq => by simpa using hall q hq
      have hpos := hw.pos
      rw [hw.count, hzero] at hpos
      exact absurd hpos (lt_irrefl 0)
    · rw [hf]
      exact ⟨le_refl _, fun _ => rfl⟩
    · rw [he]
      exact ⟨le_refl _, fun _ => rfl⟩
  · rcases hcase c r hr with ⟨k, hw⟩ | ⟨f, hf, habout, q, hq, ho⟩ | ⟨he, hall⟩
    · rw [hw.silent]
      refine ⟨fun ⟨f, hf⟩ => (by cases hf), ?_⟩
      rintro ⟨q, hq, f, ho, -⟩
      rcases hw.open_ q hq with ⟨hnone, -⟩ | hother
      · rw [hnone] at ho
        cases ho
      · rw [hother] at ho
        cases ho
    · rw [hf]
      exact ⟨fun _ => ⟨q, hq, f, ho, habout⟩, fun _ => ⟨f, List.mem_singleton_self _⟩⟩
    · rw [he]
      refine ⟨fun ⟨f, hf⟩ => (by cases List.mem_singleton.1 hf), ?_⟩
      rintro ⟨q, hq, f, ho, -⟩
      rw [hall q hq] at ho
      cases ho
  · rcases hcase c r hr with ⟨k, hw⟩ | ⟨f', hf', habout, q, hq, ho⟩ | ⟨he, -⟩
    · rw [hw.silent] at hf
      cases hf
    · rw [hf'] at hf
      obtain rfl : f = f' := ResolveReply.found.inj (List.mem_singleton.1 hf)
      exact ⟨habout, q, hq, ho⟩
    · rw [he] at hf
      cases List.mem_singleton.1 hf
  · rcases hcase c r hr with ⟨k, hw⟩ | ⟨f, hf, -⟩ | ⟨-, hall⟩
    · rw [hw.silent] at hreply
      cases hreply
    · rw [hf] at hreply
      exact (hne f (List.mem_singleton.1 hreply)).elim
    · exact hall
  · intro did k c hk
    obtain ⟨r, hw⟩ := h.waiting did k c hk
    exact ⟨r, hw.caller, hw.asked, hw.pos, hw.count⟩

/-! Replies -/

@[simp] theorem reply_nil : w.reply [] = w := by
  simp [reply]

theorem reply_one (c : ℕ) (x : ResolveReply) :
    (w.reply [(c, x)]).replies = Function.update w.replies c (w.replies c ++ [x]) := by
  funext c'
  by_cases h : c = c'
  · subst h
    simp [reply]
  · simp [reply, h, Function.update_of_ne (Ne.symm h)]

/-! A command -/

theorem get_insertAll (t : Std.ExtTreeMap ℕ Did) (qs : List ℕ) :
    (qs.foldl (fun t q => t.insert q did) t)[q]? = if q ∈ qs then some did else t[q]? := by
  induction qs generalizing t with
  | nil => simp
  | cons a qs ih =>
    rw [List.foldl_cons, ih, Std.ExtTreeMap.getElem?_insert]
    by_cases hq : q ∈ qs
    · simp [hq]
    · by_cases ha : a = q
      · simp [ha]
      · simp [hq, ha, Ne.symm ha]

theorem callers_append {r₀ : Resolve} : (w.callers ++ [r₀])[c]? = some r ↔
    w.callers[c]? = some r ∨ (c = w.callers.length ∧ r = r₀) := by
  rw [List.getElem?_append]
  by_cases hlt : c < w.callers.length
  · rw [if_pos hlt]
    exact ⟨Or.inl, fun h => h.resolve_right fun hc => absurd hc.1 (Nat.ne_of_lt hlt)⟩
  · have hnone : w.callers[c]? = none := List.getElem?_eq_none (not_lt.1 hlt)
    rw [if_neg hlt, hnone]
    by_cases hc : c = w.callers.length
    · simp [hc, eq_comm]
    · have hone : 1 ≤ c - w.callers.length := by omega
      rw [List.getElem?_eq_none (by simpa using hone)]
      simp [hc]

theorem lt_length (h : w.callers[c]? = some r) : c < w.callers.length := (List.getElem?_eq_some_iff.1 h).1

/-- With a caller more, whose requests are new ones. -/
theorem Inv.own_append (h : w.Inv) {did : Did} {peers c : ℕ} {r : Resolve}
    (hr : (w.callers ++ [⟨did, List.range' w.sent peers⟩])[c]? = some r) :
    r.requests.Nodup ∧ ∀ q ∈ r.requests, q < w.sent + peers := by
  rcases callers_append.1 hr with hr | ⟨-, rfl⟩
  · exact ⟨(h.own c r hr).1, fun q hq => Nat.lt_add_right _ ((h.own c r hr).2 q hq)⟩
  · exact ⟨List.nodup_range', fun q hq => (List.mem_range'_1.1 hq).2⟩

theorem Inv.apart_append (h : w.Inv) {did : Did} {peers c c' : ℕ} {r r' : Resolve}
    (hr : (w.callers ++ [⟨did, List.range' w.sent peers⟩])[c]? = some r)
    (hr' : (w.callers ++ [⟨did, List.range' w.sent peers⟩])[c']? = some r') (q : ℕ) (hq : q ∈ r.requests)
    (hq' : q ∈ r'.requests) : c = c' := by
  have hnew {q : ℕ} (hq : q ∈ List.range' w.sent peers) : w.sent ≤ q := (List.mem_range'_1.1 hq).1
  rcases callers_append.1 hr with hr | ⟨hc, rfl⟩
  · rcases callers_append.1 hr' with hr' | ⟨-, rfl⟩
    · exact h.apart c c' r r' q hr hr' hq hq'
    · exact absurd ((h.own c r hr).2 q hq) (not_lt.2 (hnew hq'))
  · rcases callers_append.1 hr' with hr' | ⟨hc', -⟩
    · exact absurd ((h.own c' r' hr').2 q hq') (not_lt.2 (hnew hq))
    · rw [hc, hc']

theorem Inv.next_resolve (h : w.Inv) {peers : ℕ} (hs : peers = 0 ∨ w.node.pendingDidBroadcasts[did]? = none) :
    (w.next (.resolve did peers)).Inv := by
  by_cases hzero : peers = 0
  · -- nobody to ask: an error at once
    subst hzero
    have hnode : w.node.resolveIdentityByDid did w.callers.length (List.range' w.sent 0) =
        ([(w.callers.length, .notFound)], w.node) := rfl
    have hreplies : (w.next (.resolve did 0)).replies =
        Function.update w.replies w.callers.length (w.replies w.callers.length ++ [.notFound]) := reply_one _ _
    have hsame {c : ℕ} {r : Resolve} (hr : w.callers[c]? = some r) :
        (w.next (.resolve did 0)).replies c = w.replies c := by
      rw [hreplies, Function.update_of_ne (Nat.ne_of_lt (lt_length hr))]
    refine ⟨fun q hq => h.fresh q hq, fun c r hr => h.own_append hr,
      fun c c' r r' q hr hr' => h.apart_append hr hr' q, fun c hc => ?_, fun d k c hk => ?_, fun q d hq => ?_,
      fun c r hr => ?_⟩
    · have hlen : w.callers.length + 1 ≤ c := by
        have : (w.callers ++ [(⟨did, List.range' w.sent 0⟩ : Resolve)]).length ≤ c := hc
        simpa using this
      rw [hreplies, Function.update_of_ne (by omega)]
      exact h.silent c (by omega)
    · obtain ⟨r, hw⟩ := h.waiting d k c hk
      exact ⟨r, callers_append.2 (Or.inl hw.caller), hw.asked, (hsame hw.caller).trans hw.silent, hw.pos, hw.count,
        hw.open_⟩
    · obtain ⟨ho, k, c, r, hp, hr, hmem⟩ := h.listed q d hq
      exact ⟨ho, k, c, r, hp, callers_append.2 (Or.inl hr), hmem⟩
    · rcases callers_append.1 hr with hr | ⟨rfl, rfl⟩
      · refine (h.done c r hr).imp_right ?_
        rw [Answered, Answered, hsame hr]
        exact id
      · right
        right
        refine ⟨?_, fun q hq => by cases hq⟩
        rw [hreplies, Function.update_self, h.silent _ (le_refl _)]
        rfl
  · have hfree : w.node.pendingDidBroadcasts[did]? = none := hs.resolve_left hzero
    have hne : List.range' w.sent peers ≠ [] := by
      rw [ne_eq, List.range'_eq_nil_iff]
      exact hzero
    have hnode : w.node.resolveIdentityByDid did w.callers.length (List.range' w.sent peers) =
        ([], { pendingDidBroadcasts := w.node.pendingDidBroadcasts.insert did (peers, w.callers.length)
               pendingResolveRequests := (List.range' w.sent peers).foldl (fun t q => t.insert q did)
                w.node.pendingResolveRequests }) := by
      rw [ResolveNode.resolveIdentityByDid, if_neg hne, hfree, List.length_range']
      rfl
    have hnext : w.next (.resolve did peers) =
        { w with
          node := { pendingDidBroadcasts := w.node.pendingDidBroadcasts.insert did (peers, w.callers.length)
                    pendingResolveRequests := (List.range' w.sent peers).foldl (fun t q => t.insert q did)
                      w.node.pendingResolveRequests }
          callers := w.callers ++ [⟨did, List.range' w.sent peers⟩]
          sent := w.sent + peers } := by
      rw [next, hnode, reply_nil]
    have hnew {q : ℕ} (hq : q ∈ List.range' w.sent peers) : w.sent ≤ q := (List.mem_range'_1.1 hq).1
    have hold {q : ℕ} (hlt : q < w.sent) : ((List.range' w.sent peers).foldl (fun t q => t.insert q did)
        w.node.pendingResolveRequests)[q]? = w.node.pendingResolveRequests[q]? := by
      rw [get_insertAll, if_neg fun hq => absurd (hnew hq) (not_le.2 hlt)]
    rw [hnext]
    refine ⟨fun q hq => h.fresh q (by dsimp only at hq; omega), fun c r hr => h.own_append hr,
      fun c c' r r' q hr hr' => h.apart_append hr hr' q, fun c hc => ?_, fun d k c hk => ?_, fun q d hq => ?_,
      fun c r hr => ?_⟩
    · have hlen : w.callers.length + 1 ≤ c := by simpa using hc
      exact h.silent c (by omega)
    · dsimp only at hk
      rw [get_insert] at hk
      split_ifs at hk with hd
      · obtain ⟨rfl, rfl⟩ : peers = k ∧ w.callers.length = c := by simpa using hk
        subst hd
        refine ⟨⟨did, List.range' w.sent peers⟩, callers_append.2 (Or.inr ⟨rfl, rfl⟩), rfl, h.silent _ (le_refl _),
          Nat.pos_of_ne_zero hzero, ?_, fun q hq => Or.inl ⟨h.fresh q (hnew hq), ?_⟩⟩
        · have hall : (List.range' w.sent peers).countP (fun q => (w.outcome q).isNone) =
              (List.range' w.sent peers).length :=
            List.countP_eq_length.2 fun q hq => by rw [h.fresh q (hnew hq)]; rfl
          rw [hall, List.length_range']
        · rw [get_insertAll, if_pos hq]
      · obtain ⟨r, hw⟩ := h.waiting d k c hk
        refine ⟨r, callers_append.2 (Or.inl hw.caller), hw.asked, hw.silent, hw.pos, hw.count, fun q hq => ?_⟩
        dsimp only
        rw [hold ((h.own c r hw.caller).2 q hq)]
        exact hw.open_ q hq
    · dsimp only at hq
      rw [get_insertAll] at hq
      split_ifs at hq with hmem
      · obtain rfl := Option.some.inj hq
        refine ⟨h.fresh q (hnew hmem), peers, w.callers.length, ⟨did, List.range' w.sent peers⟩, ?_,
          callers_append.2 (Or.inr ⟨rfl, rfl⟩), hmem⟩
        dsimp only
        rw [get_insert, if_pos rfl]
      · obtain ⟨ho, k, c, r, hp, hr, hmem⟩ := h.listed q d hq
        have hd : did ≠ d := by
          rintro rfl
          rw [hfree] at hp
          cases hp
        refine ⟨ho, k, c, r, ?_, callers_append.2 (Or.inl hr), hmem⟩
        dsimp only
        rw [get_insert, if_neg hd]
        exact hp
    · rcases callers_append.1 hr with hr | ⟨rfl, rfl⟩
      · refine (h.done c r hr).imp_left ?_
        rintro ⟨k, hk⟩
        have hd : did ≠ r.did := by
          rintro rfl
          rw [hfree] at hk
          cases hk
        refine ⟨k, ?_⟩
        dsimp only
        rw [get_insert, if_neg hd]
        exact hk
      · left
        refine ⟨peers, ?_⟩
        dsimp only
        rw [get_insert, if_pos rfl]

/-! A request settles -/

section Settle
variable {o : Outcome} {qs : List ℕ}

theorem countP_settle (hn : qs.Nodup) (hq : q ∈ qs) (ho : w.outcome q = none) :
    (qs.countP fun x => (Function.update w.outcome q (some o) x).isNone) + 1 =
      qs.countP fun x => (w.outcome x).isNone := by
  induction qs with
  | nil => cases hq
  | cons a qs ih =>
    obtain ⟨ha, hn⟩ := List.nodup_cons.1 hn
    rw [List.countP_cons, List.countP_cons]
    rcases List.mem_cons.1 hq with rfl | hq
    · have hrest : (qs.countP fun x => (Function.update w.outcome q (some o) x).isNone) =
          qs.countP fun x => (w.outcome x).isNone := by
        refine List.countP_congr fun x hx => ?_
        rw [Function.update_of_ne (ne_of_mem_of_not_mem hx ha)]
      rw [hrest, Function.update_self, ho]
      rfl
    · rw [Function.update_of_ne (ne_of_mem_of_not_mem hq ha).symm, ← ih hn hq]
      omega

theorem countP_other (hq : q ∉ qs) : (qs.countP fun x => (Function.update w.outcome q (some o) x).isNone) =
    qs.countP fun x => (w.outcome x).isNone := by
  refine List.countP_congr fun x hx => ?_
  rw [Function.update_of_ne (ne_of_mem_of_not_mem hx hq)]

/-- A caller that has its reply keeps what is known of it. -/
theorem Answered.settle (h : w.Answered c r) (hq : w.outcome q = none) {w' : ResolveWorld}
    (ho : w'.outcome = Function.update w.outcome q (some o)) (hr : w'.replies c = w.replies c) : w'.Answered c r := by
  have hset {x : ℕ} {y : Outcome} (hx : w.outcome x = some y) : w'.outcome x = some y := by
    have hne : x ≠ q := by
      rintro rfl
      rw [hq] at hx
      cases hx
    rw [ho, Function.update_of_ne hne]
    exact hx
  rw [Answered, hr]
  rcases h with ⟨f, hf, habout, x, hx, hfound⟩ | ⟨he, hall⟩
  · exact Or.inl ⟨f, hf, habout, x, hx, hset hfound⟩
  · exact Or.inr ⟨he, fun x hx => hset (hall x hx)⟩

/-- A caller that waits, and whose request it was not, waits on. -/
theorem Waits.settle {d : Did} {k : ℕ} (h : w.Waits d k c r) (hq : q ∉ r.requests) {w' : ResolveWorld}
    (hc : w'.callers = w.callers) (ho : w'.outcome = Function.update w.outcome q (some o))
    (hr : w'.replies c = w.replies c)
    (hp : ∀ x ∈ r.requests, w.node.pendingResolveRequests[x]? = some d → w'.node.pendingResolveRequests[x]? = some d) :
    w'.Waits d k c r := by
  refine ⟨by rw [hc]; exact h.caller, h.asked, hr.trans h.silent, h.pos, ?_, fun x hx => ?_⟩
  · rw [ho, countP_other hq]
    exact h.count
  · rw [ho, Function.update_of_ne (ne_of_mem_of_not_mem hx hq)]
    exact (h.open_ x hx).imp_left fun hx' => ⟨hx'.1, hp x hx hx'.2⟩

/-- Where the request is nobody's any more, only its outcome is noted. -/
theorem Inv.settle_late (h : w.Inv) (hlt : q < w.sent) (hq : w.outcome q = none)
    (hnone : w.node.pendingResolveRequests[q]? = none) :
    Inv { w with outcome := Function.update w.outcome q (some o) } := by
  refine ⟨fun x hx => ?_, h.own, h.apart, h.silent, fun d k c hk => ?_, fun x d hx => ?_, fun c r hr => ?_⟩
  · dsimp only
    rw [Function.update_of_ne (by dsimp only at hx; omega)]
    exact h.fresh x hx
  · obtain ⟨r, hw⟩ := h.waiting d k c hk
    refine ⟨r, hw.settle (fun hmem => ?_) rfl rfl rfl fun _ _ hp => hp⟩
    rcases hw.open_ q hmem with ⟨-, hp⟩ | hother
    · rw [hnone] at hp
      cases hp
    · rw [hq] at hother
      cases hother
  · obtain ⟨ho, k, c, r, hp⟩ := h.listed x d hx
    have hne : x ≠ q := by
      rintro rfl
      rw [hnone] at hx
      cases hx
    refine ⟨?_, k, c, r, hp⟩
    dsimp only
    rw [Function.update_of_ne hne]
    exact ho
  · exact (h.done c r hr).imp_right fun ha => ha.settle hq rfl rfl

/-- The caller whose request it is: the entry under the DID is its own, and nobody else's. -/
theorem Inv.owner (h : w.Inv) (hp : w.node.pendingResolveRequests[q]? = some did) :
    ∃ k c r, w.node.pendingDidBroadcasts[did]? = some (k, c) ∧ w.Waits did k c r ∧ q ∈ r.requests ∧
      ∀ c' r', w.callers[c']? = some r' → c' ≠ c → q ∉ r'.requests := by
  obtain ⟨-, k, c, r, hk, hr, hmem⟩ := h.listed q did hp
  obtain ⟨r', hw⟩ := h.waiting did k c hk
  obtain rfl : r = r' := Option.some.inj (hr.symm.trans hw.caller)
  exact ⟨k, c, r, hk, hw, hmem, fun c' r' hr' hne hq => hne (h.apart c' c r' r q hr' hr hq hmem)⟩

/-- The caller is answered and the resolve is over: its entry goes, and what was listed for its DID. -/
theorem Inv.settle_over (h : w.Inv) (hq : w.outcome q = none) (hp : w.node.pendingResolveRequests[q]? = some did)
    {k c : ℕ} (hk : w.node.pendingDidBroadcasts[did]? = some (k, c)) {t : Std.ExtTreeMap ℕ Did}
    (ht : ∀ (x : ℕ) (d : Did), t[x]? = some d ↔ w.node.pendingResolveRequests[x]? = some d ∧ x ≠ q ∧ d ≠ did)
    {reply : ResolveReply}
    (ha : ∀ r, w.Waits did k c r → q ∈ r.requests → ∀ w' : ResolveWorld, w'.replies c = [reply] →
      w'.outcome = Function.update w.outcome q (some o) → w'.Answered c r) :
    (ResolveWorld.reply { w with
      node := ⟨w.node.pendingDidBroadcasts.erase did, t⟩
      outcome := Function.update w.outcome q (some o) } [(c, reply)]).Inv := by
  obtain ⟨k', c', r, hk', hw, hmem, hothers⟩ := h.owner hp
  rw [hk] at hk'
  obtain ⟨rfl, rfl⟩ : k = k' ∧ c = c' := by simpa using hk'
  set w' : ResolveWorld := ResolveWorld.reply { w with
    node := ⟨w.node.pendingDidBroadcasts.erase did, t⟩
    outcome := Function.update w.outcome q (some o) } [(c, reply)] with hw'
  have hreplies : w'.replies = Function.update w.replies c (w.replies c ++ [reply]) := reply_one _ _
  have hother {c' : ℕ} (hne : c' ≠ c) : w'.replies c' = w.replies c' := by rw [hreplies, Function.update_of_ne hne]
  refine ⟨fun x hx => ?_, h.own, h.apart, fun c' hc' => ?_, fun d k' c' hk' => ?_, fun x d hx => ?_,
    fun c' r' hr' => ?_⟩
  · have hx' : w.sent ≤ x := hx
    have hlt := (h.own c r hw.caller).2 q hmem
    show Function.update w.outcome q _ x = none
    rw [Function.update_of_ne (by omega)]
    exact h.fresh x hx'
  · have hne : c' ≠ c := by
      rintro rfl
      exact absurd (lt_length hw.caller) (not_lt.2 hc')
    rw [hother hne]
    exact h.silent c' hc'
  · have hk'' : (w.node.pendingDidBroadcasts.erase did)[d]? = some (k', c') := hk'
    rw [get_erase] at hk''
    split_ifs at hk'' with hd
    obtain ⟨r', hwaits⟩ := h.waiting d k' c' hk''
    have hne : c' ≠ c := by
      rintro rfl
      obtain rfl : r = r' := Option.some.inj (hw.caller.symm.trans hwaits.caller)
      exact hd (hw.asked.symm.trans hwaits.asked)
    exact ⟨r', hwaits.settle (hothers c' r' hwaits.caller hne) rfl rfl (hother hne) fun x hx hpx =>
      (ht x d).2 ⟨hpx, fun hxq => hothers c' r' hwaits.caller hne (hxq ▸ hx), Ne.symm hd⟩⟩
  · obtain ⟨hpx, hxq, hd⟩ := (ht x d).1 hx
    obtain ⟨ho, k', c', r', hk', hr'⟩ := h.listed x d hpx
    refine ⟨?_, k', c', r', ?_, hr'⟩
    · show Function.update w.outcome q _ x = none
      rw [Function.update_of_ne hxq]
      exact ho
    · show (w.node.pendingDidBroadcasts.erase did)[d]? = some (k', c')
      rw [get_erase, if_neg (Ne.symm hd)]
      exact hk'
  · have hr'' : w.callers[c']? = some r' := hr'
    by_cases hne : c' = c
    · subst hne
      obtain rfl : r = r' := Option.some.inj (hw.caller.symm.trans hr'')
      refine Or.inr (ha r hw hmem w' ?_ rfl)
      rw [hreplies, Function.update_self, hw.silent]
      rfl
    · rcases h.done c' r' hr'' with ⟨k', hk'⟩ | ha
      · left
        have hd : did ≠ r'.did := by
          rintro rfl
          rw [hk] at hk'
          exact hne (Prod.ext_iff.1 (Option.some.inj hk')).2.symm
        refine ⟨k', ?_⟩
        show (w.node.pendingDidBroadcasts.erase did)[r'.did]? = some (k', c')
        rw [get_erase, if_neg hd]
        exact hk'
      · exact Or.inr (ha.settle hq rfl (hother hne))

/-- Found: what else is listed for the DID is dropped. -/
theorem Inv.settle_found (h : w.Inv) (hq : w.outcome q = none) {f : FoundName}
    (hp : w.node.pendingResolveRequests[q]? = some did) (hf : ∀ r ∈ w.callers, q ∈ r.requests → f.About r.did) :
    (reply { w with
      node := (w.node.identityFound q f).2
      outcome := Function.update w.outcome q (some (.found f)) } (w.node.identityFound q f).1).Inv := by
  obtain ⟨k, c, -, hk, -⟩ := h.owner hp
  have hfound : w.node.identityFound q f = ([(c, .found f)],
      { pendingDidBroadcasts := w.node.pendingDidBroadcasts.erase did
        pendingResolveRequests := (w.node.pendingResolveRequests.erase q).filter fun _ d => d ≠ did }) := by
    rw [ResolveNode.identityFound, hp]
    dsimp only
    rw [hk]
    rfl
  rw [hfound]
  refine h.settle_over hq hp hk (fun x d => ?_) fun r hw hmem w' hr ho => Or.inl ⟨f, hr, ?_, q, hmem, ?_⟩
  · rw [Std.ExtTreeMap.getElem?_filter', Std.ExtTreeMap.getElem?_erase]
    by_cases hx : q = x
    · simp [hx]
    · simp [hx, Ne.symm hx, Option.filter_eq_some_iff]
  · exact hf r (List.mem_of_getElem? hw.caller) hmem
  · rw [ho, Function.update_self]

/-- Not found, and the last: all have settled without Found, and the caller has its error. -/
theorem Inv.settle_last (h : w.Inv) (hq : w.outcome q = none) {c : ℕ}
    (hp : w.node.pendingResolveRequests[q]? = some did) (hk : w.node.pendingDidBroadcasts[did]? = some (1, c)) :
    (reply { w with
      node := { pendingDidBroadcasts := w.node.pendingDidBroadcasts.erase did
                pendingResolveRequests := w.node.pendingResolveRequests.erase q }
      outcome := Function.update w.outcome q (some .other) } [(c, .notFound)]).Inv := by
  -- nothing else of the caller's is unsettled
  have hsettled (r : Resolve) (hw : w.Waits did 1 c r) (hmem : q ∈ r.requests) :
      ∀ x ∈ r.requests, x ≠ q → w.outcome x = some .other := by
    intro x hx hxq
    refine (hw.open_ x hx).resolve_left fun hopen => ?_
    have hcount := countP_settle (o := .other) (h.own c r hw.caller).1 hmem hq
    rw [← hw.count] at hcount
    have hzero := List.countP_eq_zero.1 (Nat.succ.inj hcount) x hx
    rw [Function.update_of_ne hxq, hopen.1] at hzero
    exact hzero rfl
  refine h.settle_over hq hp hk (fun x d => ?_) fun r hw hmem w' hr ho => Or.inr ⟨hr, fun x hx => ?_⟩
  · rw [Std.ExtTreeMap.getElem?_erase]
    by_cases hx : q = x
    · simp [hx]
    rw [if_neg (by simpa using hx)]
    refine ⟨fun hd => ⟨hd, Ne.symm hx, ?_⟩, And.left⟩
    rintro rfl
    obtain ⟨k, c', r, hk', hw, hmem, -⟩ := h.owner hp
    rw [hk] at hk'
    obtain ⟨rfl, rfl⟩ : 1 = k ∧ c = c' := by simpa using hk'
    obtain ⟨ho, k', c', r', hk', hr', hmem'⟩ := h.listed x d hd
    rw [hk] at hk'
    obtain ⟨-, rfl⟩ : 1 = k' ∧ c = c' := by simpa using hk'
    obtain rfl : r = r' := Option.some.inj (hw.caller.symm.trans hr')
    rw [hsettled r hw hmem x hmem' (Ne.symm hx)] at ho
    cases ho
  · rw [ho]
    by_cases hxq : x = q
    · rw [hxq, Function.update_self]
    · rw [Function.update_of_ne hxq]
      exact hsettled r hw hmem x hx hxq

/-- Not found, and others are still out: one less to wait for. -/
theorem Inv.settle_counted (h : w.Inv) (hq : w.outcome q = none) {k c : ℕ}
    (hp : w.node.pendingResolveRequests[q]? = some did) (hk : w.node.pendingDidBroadcasts[did]? = some (k, c))
    (hmore : k - 1 ≠ 0) :
    Inv { w with
      node := { pendingDidBroadcasts := w.node.pendingDidBroadcasts.insert did (k - 1, c)
                pendingResolveRequests := w.node.pendingResolveRequests.erase q }
      outcome := Function.update w.outcome q (some .other) } := by
  obtain ⟨k', c', r, hk', hw, hmem, hothers⟩ := h.owner hp
  rw [hk] at hk'
  obtain ⟨rfl, rfl⟩ : k = k' ∧ c = c' := by simpa using hk'
  have hget (x : ℕ) (d : Did) : (w.node.pendingResolveRequests.erase q)[x]? = some d ↔
      w.node.pendingResolveRequests[x]? = some d ∧ x ≠ q := by
    rw [Std.ExtTreeMap.getElem?_erase]
    by_cases hx : q = x
    · simp [hx]
    · simp [hx, Ne.symm hx]
  refine ⟨fun x hx => ?_, h.own, h.apart, h.silent, fun d k' c' hk' => ?_, fun x d hx => ?_, fun c' r' hr' => ?_⟩
  · have hx' : w.sent ≤ x := hx
    have hlt := (h.own c r hw.caller).2 q hmem
    dsimp only
    rw [Function.update_of_ne (by omega)]
    exact h.fresh x hx'
  · dsimp only at hk'
    rw [get_insert] at hk'
    split_ifs at hk' with hd
    · obtain ⟨rfl, rfl⟩ : k - 1 = k' ∧ c = c' := by simpa using hk'
      subst hd
      refine ⟨r, hw.caller, hw.asked, hw.silent, Nat.pos_of_ne_zero hmore, ?_, fun x hx => ?_⟩
      · have hcount := countP_settle (o := .other) (h.own c r hw.caller).1 hmem hq
        rw [← hw.count] at hcount
        dsimp only
        omega
      · dsimp only
        by_cases hxq : x = q
        · rw [hxq, Function.update_self]
          exact Or.inr rfl
        · rw [Function.update_of_ne hxq]
          exact (hw.open_ x hx).imp_left fun hx' => ⟨hx'.1, (hget x did).2 ⟨hx'.2, hxq⟩⟩
    · obtain ⟨r', hwaits⟩ := h.waiting d k' c' hk'
      have hne : c' ≠ c := by
        rintro rfl
        obtain rfl : r = r' := Option.some.inj (hw.caller.symm.trans hwaits.caller)
        exact hd (hw.asked.symm.trans hwaits.asked)
      exact ⟨r', hwaits.settle (hothers c' r' hwaits.caller hne) rfl rfl rfl fun x hx hpx =>
        (hget x d).2 ⟨hpx, fun hxq => hothers c' r' hwaits.caller hne (hxq ▸ hx)⟩⟩
  · obtain ⟨hpx, hxq⟩ := (hget x d).1 hx
    obtain ⟨ho, k', c', r', hk', hr', hmem'⟩ := h.listed x d hpx
    refine ⟨?_, ?_⟩
    · dsimp only
      rw [Function.update_of_ne hxq]
      exact ho
    · dsimp only
      by_cases hd : did = d
      · subst hd
        rw [hk] at hk'
        obtain ⟨rfl, rfl⟩ : k = k' ∧ c = c' := by simpa using hk'
        exact ⟨k - 1, c, r', by rw [get_insert, if_pos rfl], hr', hmem'⟩
      · exact ⟨k', c', r', by rw [get_insert, if_neg hd]; exact hk', hr', hmem'⟩
  · have hr'' : w.callers[c']? = some r' := hr'
    rcases h.done c' r' hr'' with ⟨k', hk'⟩ | ha
    · left
      dsimp only
      by_cases hd : did = r'.did
      · rw [← hd, hk] at hk'
        obtain ⟨rfl, rfl⟩ : k = k' ∧ c = c' := by simpa using hk'
        exact ⟨k - 1, by rw [← hd, get_insert, if_pos rfl]⟩
      · exact ⟨k', by rw [get_insert, if_neg hd]; exact hk'⟩
    · exact Or.inr (ha.settle hq rfl rfl)

end Settle

theorem Inv.next_settle (h : w.Inv) {o : Outcome} (hs : w.Single (.settle q o)) : (w.next (.settle q o)).Inv := by
  unfold next
  dsimp only
  split_ifs with hguard
  · exact h
  obtain ⟨hlt, hq⟩ : q < w.sent ∧ w.outcome q = none := by
    rw [not_or, not_le] at hguard
    exact ⟨hguard.1, by simpa using hguard.2⟩
  cases o with
  | found f =>
    dsimp only
    cases hp : w.node.pendingResolveRequests[q]? with
    | none =>
      have hnode : w.node.identityFound q f = ([], w.node) := by rw [ResolveNode.identityFound, hp]
      rw [hnode, reply_nil]
      exact h.settle_late hlt hq hp
    | some did => exact h.settle_found hq hp hs
  | other =>
    dsimp only
    cases hp : w.node.pendingResolveRequests[q]? with
    | none =>
      have hnode : w.node.requestFailed q = ([], w.node) := by rw [ResolveNode.requestFailed, hp]
      rw [hnode, reply_nil]
      exact h.settle_late hlt hq hp
    | some did =>
      obtain ⟨k, c, r, hk, hw, -, -⟩ := h.owner hp
      by_cases hlast : k - 1 = 0
      · obtain rfl : k = 1 := by
          have := hw.pos
          omega
        have hnode : w.node.requestFailed q = ([(c, .notFound)],
            { pendingDidBroadcasts := w.node.pendingDidBroadcasts.erase did
              pendingResolveRequests := w.node.pendingResolveRequests.erase q }) := by
          rw [ResolveNode.requestFailed, hp]
          dsimp only
          rw [hk]
          rfl
        rw [hnode]
        exact h.settle_last hq hp hk
      · have hnode : w.node.requestFailed q = ([],
            { pendingDidBroadcasts := w.node.pendingDidBroadcasts.insert did (k - 1, c)
              pendingResolveRequests := w.node.pendingResolveRequests.erase q }) := by
          rw [ResolveNode.requestFailed, hp]
          dsimp only
          rw [hk]
          exact if_neg hlast
        rw [hnode, reply_nil]
        exact h.settle_counted hq hp hk hlast

/-- In every run in which no DID is resolved twice at a time and Found is only answered with the DID asked for, every
caller of every state is served as it should be. -/
theorem resolved_of_reach (w : ResolveWorld) (h : StepSystem.Reach resolveSys Single w) : w.Resolved := by
  refine Inv.resolved (h.invariant (fun w hw => ?_) fun w e hw hs => ?_)
  · obtain ⟨hpd, hpr, hcallers, -, houtcome, hreplies⟩ := hw
    have hnone (c : ℕ) (r : Resolve) : ¬ w.callers[c]? = some r := by simp [hcallers]
    refine ⟨fun q _ => by rw [houtcome], fun c r hr => (hnone c r hr).elim, fun c c' r r' q hr => (hnone c r hr).elim,
      fun c _ => by rw [hreplies], fun d k c hk => ?_, fun q d hq => ?_, fun c r hr => (hnone c r hr).elim⟩
    · simp [hpd] at hk
    · simp [hpr] at hq
  · cases e with
    | resolve did peers => exact hw.next_resolve hs
    | settle q o => exact hw.next_settle hs

end ResolveWorld
namespace ResolveOnce

open ResolveWorld

def blank : ResolveWorld := ⟨⟨∅, ∅⟩, [], 0, fun _ => none, fun _ => []⟩

theorem blank_init : resolveSys.init blank := ⟨rfl, rfl, rfl, rfl, rfl, rfl⟩

def answer : FoundName := ⟨some ⟨"did:b", [], none⟩, none, none, []⟩

/-- The DID is asked for twice, of one peer, and the first request is answered: the second caller has the answer, and
the first an error. -/
def twice : List ResolveEvent := [.resolve "did:b" 1, .resolve "did:b" 1, .settle 0 (.found answer)]

theorem second_takes_reply : ¬ ∀ w, StepSystem.Reachable resolveSys w → w.Resolved := by
  intro h
  have hw := h (twice.foldl resolveSys.step blank) (StepSystem.reachable_foldl (.init blank_init) twice)
  obtain ⟨f, hf⟩ := (hw.found 0 ⟨"did:b", [0]⟩ rfl).2 ⟨0, by decide, answer, rfl, rfl⟩
  have hdropped : (twice.foldl resolveSys.step blank).replies 0 = [.dropped] := by rfl
  rw [hdropped] at hf
  cases List.mem_singleton.1 hf

/-- Two DIDs at a time, one found and one not. -/
theorem apart_resolved : (([.resolve "did:b" 1, .resolve "did:c" 2, .settle 1 .other, .settle 0 (.found answer),
    .settle 2 .other] : List ResolveEvent).foldl resolveSys.step blank).Resolved := by
  refine resolved_of_reach _ (StepSystem.reach_foldl (.init blank_init) ⟨Or.inr rfl, Or.inr ?_, trivial, ?_, trivial,
    trivial⟩)
  · decide +kernel
  · intro r hr hq
    have hcallers : (([.resolve "did:b" 1, .resolve "did:c" 2, .settle 1 .other] : List ResolveEvent).foldl
        resolveSys.step blank).callers = [⟨"did:b", [0]⟩, ⟨"did:c", [1, 2]⟩] := rfl
    have hmem : r ∈ [(⟨"did:b", [0]⟩ : Resolve), ⟨"did:c", [1, 2]⟩] := hcallers ▸ hr
    rcases List.mem_cons.1 hmem with rfl | hmem
    · rfl
    · rw [List.mem_singleton.1 hmem] at hq
      exact absurd hq (by decide)

end ResolveOnce
end Variance
