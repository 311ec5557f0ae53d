import Mathlib.Tactic.NormNum
import Variance.Proofs.PresenceTracking
import Variance.Spec.RateLimiter

/-! Each bucket of the rate limiter is a metered one: no call that it sees leaves it with more than it had less what was
let through, and a call that is refused leaves it with the same. -/

namespace Variance
namespace RateLimiter

namespace TokenBucket
variable {b : TokenBucket} {c : BucketConfig} {now t : ℚ}

/-- The bucket is one with the limit, filled at a time that has come. -/
structure Runs (b : TokenBucket) (c : BucketConfig) (now : ℚ) : Prop where
  capacity : b.maxTokens = c.maxTokens
  rate : b.refillRate = c.refillRate
  nonneg : 0 ≤ b.tokens
  le : b.tokens ≤ b.maxTokens
  last : b.lastRefill ≤ now

theorem Runs.new (c : BucketConfig) (now : ℚ) : (TokenBucket.new c.maxTokens c.refillRate now).Runs c now :=
  ⟨rfl, rfl, c.maxTokens_nonneg, le_rfl, le_rfl⟩

theorem Runs.later (h : b.Runs c now) (ht : now ≤ t) : b.Runs c t := { h with last := h.last.trans ht }

theorem Runs.rate_nonneg (h : b.Runs c now) : 0 ≤ b.refillRate := by
  rw [h.rate]
  exact c.refillRate_nonneg

theorem Runs.level_nonneg (h : b.Runs c now) : 0 ≤ b.level now := by
  refine Metering.level_nonneg ?_ h.rate_nonneg h.nonneg h.last
  exact h.nonneg.trans h.le

theorem Runs.level_le (h : b.Runs c now) : b.level now ≤ c.maxTokens := by
  rw [← h.capacity]
  exact Metering.level_le_capacity

theorem Runs.level_le_add (h : b.Runs c now) (ht : now ≤ t) : b.level t ≤ b.level now + (t - now) * c.refillRate := by
  rw [← h.rate]
  exact Metering.level_le_add h.rate_nonneg ht

/-- A bucket that is filled just now. -/
theorem level_self (hlast : b.lastRefill = now) (hle : b.tokens ≤ b.maxTokens) : b.level now = b.tokens := by
  unfold level
  rw [hlast]
  exact Metering.level_self hle

theorem level_new (ht : now ≤ t) : (new c.maxTokens c.refillRate now).level t = c.maxTokens := by
  have hgained : 0 ≤ (t - now) * c.refillRate := mul_nonneg (sub_nonneg.2 ht) c.refillRate_nonneg
  unfold level new Metering.level
  exact min_eq_right (by linarith)

theorem Runs.refill_tokens (h : b.Runs c now) : (b.refill now).tokens = b.level now := by
  have helapsed : max (now - b.lastRefill) 0 = now - b.lastRefill := max_eq_left (sub_nonneg.2 h.last)
  unfold refill level Metering.level
  rw [helapsed]

theorem Runs.refill (h : b.Runs c now) : (b.refill now).Runs c now where
  capacity := h.capacity
  rate := h.rate
  nonneg := by
    rw [h.refill_tokens]
    exact h.level_nonneg
  le := min_le_right _ _
  last := le_rfl

theorem Runs.level_refill (h : b.Runs c now) (ht : now ≤ t) : (b.refill now).level t = b.level t := by
  show Metering.level b.maxTokens b.refillRate (b.refill now).tokens now t = b.level t
  rw [h.refill_tokens]
  exact Metering.level_level h.rate_nonneg ht

/-- A token is taken, and can be given back, or there is none. -/
theorem Runs.tryConsume_cases (h : b.Runs c now) :
    ((b.tryConsume now).1 = true ∧ (b.tryConsume now).2.Runs c now ∧
        (b.tryConsume now).2.level now = b.level now - 1 ∧ (b.tryConsume now).2.refund.Runs c now ∧
        ∀ t, now ≤ t → (b.tryConsume now).2.refund.level t = b.level t) ∨
      ((b.tryConsume now).1 = false ∧ (b.tryConsume now).2.Runs c now ∧
        ∀ t, now ≤ t → (b.tryConsume now).2.level t = b.level t) := by
  have hfilled := h.refill
  unfold tryConsume
  dsimp only
  split_ifs with hone
  · have hleft : 0 ≤ (b.refill now).tokens - 1 := sub_nonneg.2 hone
    have hle : (b.refill now).tokens - 1 ≤ b.maxTokens := by
      have := hfilled.le
      show (b.refill now).tokens - 1 ≤ (b.refill now).maxTokens
      linarith
    have hback : ({ b.refill now with tokens := (b.refill now).tokens - 1 } : TokenBucket).refund = b.refill now := by
      have hmin : min ((b.refill now).tokens - 1 + 1) (b.refill now).maxTokens = (b.refill now).tokens := by
        rw [sub_add_cancel]
        exact min_eq_left hfilled.le
      unfold refund
      rw [hmin]
    refine Or.inl ⟨rfl, ⟨h.capacity, h.rate, hleft, hle, le_rfl⟩, ?_, ?_, fun t ht => ?_⟩
    · refine (level_self (b := { b.refill now with tokens := (b.refill now).tokens - 1 }) rfl hle).trans ?_
      rw [← h.refill_tokens]
    · rw [hback]
      exact hfilled
    · rw [hback]
      exact h.level_refill ht
  · exact Or.inr ⟨rfl, hfilled, fun t ht => h.level_refill ht⟩

theorem Runs.tryConsume_fst (h : b.Runs c now) : (b.tryConsume now).1 = decide (1 ≤ b.level now) := by
  unfold tryConsume
  dsimp only
  rw [h.refill_tokens]
  split_ifs with hone
  · exact (decide_eq_true hone).symm
  · exact (decide_eq_false hone).symm

theorem Runs.level_level (h : b.Runs c now) (ht : now ≤ t) :
    b.level t = Metering.level c.maxTokens c.refillRate (b.level now) now t := by
  unfold level
  rw [← h.capacity, ← h.rate]
  exact (Metering.level_level h.rate_nonneg ht).symm

end TokenBucket

namespace PeerRateLimiter
variable {s : PeerRateLimiter} {peer p : PeerId} {label l : String} {b g : TokenBucket} {c : BucketConfig} {now t : ℚ}

/-- Each bucket runs with its limit, and the index has each protocol bucket once. -/
structure Inv (s : PeerRateLimiter) (now : ℚ) : Prop where
  protocol : ∀ p l b, s.protocolBuckets p l = some b → ∃ c, s.configs l = some c ∧ b.Runs c now
  global : ∀ p b, s.globalBuckets p = some b → b.Runs s.globalConfig now
  nodup : ∀ p, ((s.peerProtocols p).getD []).Nodup
  indexed : ∀ p l, l ∈ (s.peerProtocols p).getD [] ↔ (s.protocolBuckets p l).isSome

theorem inv_unused (configs : String → Option BucketConfig) (globalConfig : BucketConfig) (now : ℚ) :
    (unused configs globalConfig).Inv now where
  protocol _ _ _ h := by cases h
  global _ _ h := by cases h
  nodup _ := List.nodup_nil
  indexed _ _ := by simp [unused]

theorem Inv.later (h : s.Inv now) (ht : now ≤ t) : s.Inv t where
  protocol p l b hb := by
    obtain ⟨c, hc, hruns⟩ := h.protocol p l b hb
    exact ⟨c, hc, hruns.later ht⟩
  global p b hb := (h.global p b hb).later ht
  nodup := h.nodup
  indexed := h.indexed

/-! What a bucket that is stored changes -/

theorem protocolLevel_storeProtocol : (s.storeProtocol peer label b).protocolLevel p l t =
    if p = peer ∧ l = label then b.level t else s.protocolLevel p l t := by
  unfold storeProtocol protocolLevel
  dsimp only
  split_ifs
  · rfl
  · rfl

theorem globalLevel_storeGlobal : (s.storeGlobal peer g).globalLevel p t =
    if p = peer then g.level t else s.globalLevel p t := by
  unfold storeGlobal globalLevel
  dsimp only
  split_ifs
  · rfl
  · rfl

theorem protocolLevel_storeGlobal : (s.storeGlobal peer g).protocolLevel p l t = s.protocolLevel p l t := rfl

theorem index_storeProtocol : ((s.storeProtocol peer label b).peerProtocols p).getD [] =
    if p = peer ∧ (s.protocolBuckets peer label).isSome = false then (s.peerProtocols p).getD [] ++ [label]
    else (s.peerProtocols p).getD [] := by
  unfold storeProtocol
  dsimp only
  by_cases hsome : (s.protocolBuckets peer label).isSome = true
  · simp [hsome]
  · by_cases hp : p = peer
    · simp [hsome, hp]
    · simp [hsome, hp]

theorem Inv.storeProtocol (h : s.Inv now) (hc : s.configs label = some c) (hb : b.Runs c now) :
    (s.storeProtocol peer label b).Inv now where
  protocol p l b' hb' := by
    change (if p = peer ∧ l = label then some b else s.protocolBuckets p l) = some b' at hb'
    split_ifs at hb' with hpl
    · obtain rfl := Option.some.inj hb'
      exact ⟨c, hpl.2 ▸ hc, hb⟩
    · exact h.protocol p l b' hb'
  global := h.global
  nodup p := by
    rw [index_storeProtocol]
    split_ifs with hnew
    · rw [List.nodup_append]
      refine ⟨h.nodup p, by simp, fun x hx y hy hxy => ?_⟩
      obtain rfl := List.mem_singleton.1 hy
      have hsome := (h.indexed p _).1 (hxy ▸ hx)
      rw [hnew.1, hnew.2] at hsome
      cases hsome
    · exact h.nodup p
  indexed p l := by
    have hindexed := h.indexed p l
    have hbuckets : ((s.storeProtocol peer label b).protocolBuckets p l).isSome ↔
        (p = peer ∧ l = label) ∨ (s.protocolBuckets p l).isSome := by
      unfold PeerRateLimiter.storeProtocol
      dsimp only
      split_ifs with hpl
      · simp [hpl]
      · simp [hpl]
    rw [index_storeProtocol, hbuckets, ← hindexed]
    split_ifs with hnew
    · rw [List.mem_append, List.mem_singleton]
      constructor
      · rintro (hin | rfl)
        · exact Or.inr hin
        · exact Or.inl ⟨hnew.1, rfl⟩
      · rintro (⟨-, rfl⟩ | hin)
        · exact Or.inr rfl
        · exact Or.inl hin
    · constructor
      · exact Or.inr
      · rintro (⟨rfl, rfl⟩ | hin)
        · refine hindexed.2 ?_
          by_contra hsome
          exact hnew ⟨rfl, Bool.eq_false_iff.2 hsome⟩
        · exact hin

theorem Inv.storeGlobal (h : s.Inv now) (hg : g.Runs s.globalConfig now) : (s.storeGlobal peer g).Inv now where
  protocol := h.protocol
  global p b hb := by
    change (if p = peer then some g else s.globalBuckets p) = some b at hb
    split_ifs at hb
    · obtain rfl := Option.some.inj hb
      exact hg
    · exact h.global p b hb
  nodup := h.nodup
  indexed := h.indexed

/-- A bucket that was just stored is stored again. -/
theorem storeProtocol_again (b' : TokenBucket) :
    ((s.storeProtocol peer label b).storeGlobal peer g).storeProtocol peer label b' =
      (s.storeProtocol peer label b').storeGlobal peer g := by
  have hsome : ((s.storeProtocol peer label b).storeGlobal peer g).protocolBuckets peer label = some b := by
    simp [storeProtocol, storeGlobal]
  have hbuckets : (fun p l => if p = peer ∧ l = label then some b' else
      ((s.storeProtocol peer label b).storeGlobal peer g).protocolBuckets p l) =
      (s.storeProtocol peer label b').protocolBuckets := by
    funext p l
    show (if p = peer ∧ l = label then some b' else if p = peer ∧ l = label then some b else s.protocolBuckets p l) =
      if p = peer ∧ l = label then some b' else s.protocolBuckets p l
    split_ifs
    · rfl
    · rfl
  rw [storeProtocol, hbuckets, hsome]
  rfl

/-! A check -/

theorem Inv.protocolBucket (h : s.Inv now) (peer : PeerId) (hc : s.configs label = some c) :
    (s.protocolBucket peer label c now).Runs c now ∧
      ∀ t, now ≤ t → (s.protocolBucket peer label c now).level t = s.protocolLevel peer label t := by
  unfold PeerRateLimiter.protocolBucket protocolLevel
  cases hb : s.protocolBuckets peer label with
  | none => exact ⟨.new c now, fun t ht => by rw [hc]; exact TokenBucket.level_new ht⟩
  | some b =>
    obtain ⟨c', hc', hruns⟩ := h.protocol peer label b hb
    obtain rfl := Option.some.inj (hc.symm.trans hc')
    exact ⟨hruns, fun _ _ => rfl⟩

theorem Inv.globalBucket (h : s.Inv now) (peer : PeerId) : (s.globalBucket peer now).Runs s.globalConfig now ∧
    ∀ t, now ≤ t → (s.globalBucket peer now).level t = s.globalLevel peer t := by
  unfold PeerRateLimiter.globalBucket globalLevel
  cases hb : s.globalBuckets peer with
  | none => exact ⟨.new _ now, fun t ht => TokenBucket.level_new ht⟩
  | some b => exact ⟨h.global peer b hb, fun _ _ => rfl⟩

/-- A check on a protocol with a limit: refused by either bucket, both are as full as before; let through, it takes a
token from each. -/
theorem check_cases (h : s.Inv now) (peer : PeerId) (hc : s.configs label = some c) :
    ∃ b, b.Runs c now ∧
      ((s.check peer label now = (.protocolLimited, s.storeProtocol peer label b) ∧
          ∀ t, now ≤ t → b.level t = s.protocolLevel peer label t) ∨
        ∃ g, g.Runs s.globalConfig now ∧
          ((s.check peer label now = (.globalLimited, (s.storeProtocol peer label b).storeGlobal peer g) ∧
              (∀ t, now ≤ t → b.level t = s.protocolLevel peer label t) ∧
              ∀ t, now ≤ t → g.level t = s.globalLevel peer t) ∨
            (s.check peer label now = (.allowed, (s.storeProtocol peer label b).storeGlobal peer g) ∧
              b.level now = s.protocolLevel peer label now - 1 ∧ g.level now = s.globalLevel peer now - 1))) := by
  obtain ⟨hruns, hlevel⟩ := h.protocolBucket peer hc
  unfold check
  rw [hc]
  dsimp only
  rcases hruns.tryConsume_cases with ⟨htake, htaken, htakenLevel, hback, hbackLevel⟩ | ⟨hout, hkept, hkeptLevel⟩
  · set r := (s.protocolBucket peer label c now).tryConsume now
    have hstored : (s.storeProtocol peer label r.2).Inv now := h.storeProtocol hc htaken
    obtain ⟨hgruns, hglevel⟩ := hstored.globalBucket peer
    rw [if_neg (by rw [htake]; decide)]
    rcases hgruns.tryConsume_cases with ⟨hgtake, hgtaken, hgtakenLevel, -, -⟩ | ⟨hgout, hgkept, hgkeptLevel⟩
    · rw [if_neg (by rw [hgtake]; decide)]
      refine ⟨r.2, htaken, Or.inr ⟨_, hgtaken, Or.inr ⟨rfl, ?_, ?_⟩⟩⟩
      · rw [htakenLevel, hlevel now le_rfl]
      · rw [hgtakenLevel, hglevel now le_rfl]
        rfl
    · rw [if_pos hgout, storeProtocol_again]
      refine ⟨r.2.refund, hback, Or.inr ⟨_, hgkept, Or.inl ⟨rfl, fun t ht => ?_, fun t ht => ?_⟩⟩⟩
      · rw [hbackLevel t ht, hlevel t ht]
      · rw [hgkeptLevel t ht, hglevel t ht]
        rfl
  · rw [if_pos hout]
    exact ⟨_, hkept, Or.inl ⟨rfl, fun t ht => by rw [hkeptLevel t ht, hlevel t ht]⟩⟩

theorem check_unknown (hc : s.configs label = none) : s.check peer label now = (.allowed, s) := by
  unfold check
  rw [hc]

/-- A check that is refused takes nothing from any bucket. -/
theorem refused_keeps (h : s.Inv now) (hr : (s.check peer label now).1 ≠ .allowed) (ht : now ≤ t) :
    (s.check peer label now).2.protocolLevel p l t = s.protocolLevel p l t ∧
      (s.check peer label now).2.globalLevel p t = s.globalLevel p t := by
  cases hc : s.configs label with
  | none => exact absurd (by rw [check_unknown hc]) hr
  | some c =>
    obtain ⟨b, -, ⟨heq, hlevel⟩ | ⟨g, -, ⟨heq, hlevel, hglevel⟩ | ⟨heq, -, -⟩⟩⟩ := check_cases h peer hc
    · rw [heq]
      refine ⟨?_, rfl⟩
      rw [protocolLevel_storeProtocol]
      split_ifs with hpl
      · rw [hpl.1, hpl.2, hlevel t ht]
      · rfl
    · rw [heq]
      constructor
      · rw [protocolLevel_storeGlobal, protocolLevel_storeProtocol]
        split_ifs with hpl
        · rw [hpl.1, hpl.2, hlevel t ht]
        · rfl
      · rw [globalLevel_storeGlobal]
        split_ifs with hp
        · rw [hp, hglevel t ht]
        · rfl
    · exact absurd (by rw [heq]) hr

/-- One that is let through takes a token from the protocol's bucket and one from the peer's, and none from others. -/
theorem allowed_takes (h : s.Inv now) (hc : s.configs label = some c) (ha : (s.check peer label now).1 = .allowed) :
    (s.check peer label now).2.protocolLevel p l now =
        (if p = peer ∧ l = label then s.protocolLevel p l now - 1 else s.protocolLevel p l now) ∧
      (s.check peer label now).2.globalLevel p now =
        if p = peer then s.globalLevel p now - 1 else s.globalLevel p now := by
  obtain ⟨b, -, ⟨heq, -⟩ | ⟨g, -, ⟨heq, -, -⟩ | ⟨heq, hlevel, hglevel⟩⟩⟩ := check_cases h peer hc
  · rw [heq] at ha
    cases ha
  · rw [heq] at ha
    cases ha
  · rw [heq, globalLevel_storeGlobal, protocolLevel_storeGlobal, protocolLevel_storeProtocol]
    constructor
    · split_ifs with hpl
      · rw [hpl.1, hpl.2, hlevel]
      · rfl
    · split_ifs with hp
      · rw [hp, hglevel]
      · rfl

theorem Inv.check (h : s.Inv now) : (s.check peer label now).2.Inv now := by
  cases hc : s.configs label with
  | none =>
    rw [check_unknown hc]
    exact h
  | some c =>
    obtain ⟨b, hb, ⟨heq, -⟩ | ⟨g, hg, ⟨heq, -, -⟩ | ⟨heq, -, -⟩⟩⟩ := check_cases h peer hc
    · rw [heq]
      exact h.storeProtocol hc hb
    · rw [heq]
      exact (h.storeProtocol hc hb).storeGlobal hg
    · rw [heq]
      exact (h.storeProtocol hc hb).storeGlobal hg

/-! A removal -/

/-- The index finds all of the peer's buckets. -/
theorem Inv.removePeer_eq (h : s.Inv now) (peer : PeerId) :
    (∀ p l, (s.removePeer peer).protocolBuckets p l = if p = peer then none else s.protocolBuckets p l) ∧
      (∀ p, (s.removePeer peer).globalBuckets p = if p = peer then none else s.globalBuckets p) ∧
      ∀ p, (s.removePeer peer).peerProtocols p = if p = peer then none else s.peerProtocols p := by
  have hindexed := h.indexed peer
  unfold removePeer
  dsimp only
  cases hlabels : s.peerProtocols peer with
  | none =>
    refine ⟨fun p l => ?_, fun p => rfl, fun p => ?_⟩
    · split_ifs with hp
      · subst hp
        have hnone := hindexed l
        rw [hlabels] at hnone
        simpa using hnone
      · rfl
    · split_ifs with hp
      · rw [hp, hlabels]
      · rfl
  | some labels =>
    refine ⟨fun p l => ?_, fun p => rfl, fun p => rfl⟩
    show (if p = peer ∧ l ∈ labels then none else s.protocolBuckets p l) = _
    by_cases hp : p = peer
    · subst hp
      have hmem := hindexed l
      rw [hlabels] at hmem
      by_cases hl : l ∈ labels
      · simp [hl]
      · have hnone : s.protocolBuckets p l = none := by simpa [hl] using hmem
        simp [hl, hnone]
    · simp [hp]

theorem removePeer_configs (s : PeerRateLimiter) (peer : PeerId) :
    (s.removePeer peer).configs = s.configs ∧ (s.removePeer peer).globalConfig = s.globalConfig := by
  unfold removePeer
  dsimp only
  split
  · exact ⟨rfl, rfl⟩
  · exact ⟨rfl, rfl⟩

theorem Inv.removePeer (h : s.Inv now) : (s.removePeer peer).Inv now := by
  obtain ⟨hprotocol, hglobal, hindex⟩ := h.removePeer_eq peer
  obtain ⟨hconfigs, hglobalConfig⟩ := removePeer_configs s peer
  refine ⟨fun p l b hb => ?_, fun p b hb => ?_, fun p => ?_, fun p l => ?_⟩
  · rw [hprotocol] at hb
    split_ifs at hb
    rw [hconfigs]
    exact h.protocol p l b hb
  · rw [hglobal] at hb
    split_ifs at hb
    rw [hglobalConfig]
    exact h.global p b hb
  · rw [hindex]
    split_ifs
    · exact List.nodup_nil
    · exact h.nodup p
  · rw [hindex, hprotocol]
    split_ifs
    · simp
    · exact h.indexed p l

/-! Runs -/

theorem check_configs (s : PeerRateLimiter) (peer : PeerId) (label : String) (now : ℚ) :
    (s.check peer label now).2.configs = s.configs ∧ (s.check peer label now).2.globalConfig = s.globalConfig := by
  unfold check
  dsimp only
  split
  · exact ⟨rfl, rfl⟩
  · split_ifs
    · exact ⟨rfl, rfl⟩
    · exact ⟨rfl, rfl⟩
    · exact ⟨rfl, rfl⟩

theorem step_configs (s : PeerRateLimiter) (e : Call) :
    (s.step e).configs = s.configs ∧ (s.step e).globalConfig = s.globalConfig := by
  obtain ⟨now, op⟩ := e
  cases op with
  | check peer label => exact check_configs s peer label now
  | removePeer peer => exact removePeer_configs s peer

theorem Inv.step {e : Call} (h : s.Inv now) (ht : now ≤ e.now) : (s.step e).Inv e.now := by
  obtain ⟨now', op⟩ := e
  cases op with
  | check peer label => exact (h.later ht).check
  | removePeer peer => exact (h.later ht).removePeer

/-- Of a limiter that has limits of its own. -/
structure Limited (configs : String → Option BucketConfig) (globalConfig : BucketConfig) (s : PeerRateLimiter)
    (now : ℚ) : Prop where
  inv : s.Inv now
  configs : s.configs = configs
  global : s.globalConfig = globalConfig

section
variable {configs : String → Option BucketConfig} {globalConfig : BucketConfig}

theorem Limited.step {e : Call} (h : Limited configs globalConfig s now) (ht : now ≤ e.now) :
    Limited configs globalConfig (s.step e) e.now :=
  ⟨h.inv.step ht, (step_configs s e).1.trans h.configs, (step_configs s e).2.trans h.global⟩

theorem Limited.later (h : Limited configs globalConfig s now) (ht : now ≤ t) : Limited configs globalConfig s t :=
  ⟨h.inv.later ht, h.configs, h.global⟩

/-- A removal of another peer. -/
theorem removePeer_levels (h : s.Inv now) (hne : p ≠ peer) :
    (s.removePeer peer).protocolLevel p l t = s.protocolLevel p l t ∧
      (s.removePeer peer).globalLevel p t = s.globalLevel p t := by
  obtain ⟨hprotocol, hglobal, -⟩ := h.removePeer_eq peer
  obtain ⟨hconfigs, hglobalConfig⟩ := removePeer_configs s peer
  unfold protocolLevel globalLevel
  rw [hprotocol, hglobal, if_neg hne, if_neg hne, hconfigs, hglobalConfig]
  exact ⟨rfl, rfl⟩

theorem protocolLevel_metered (hc : configs label = some c) :
    Metering.Metered step Call.now (allows peer label) (fun e => e.op ≠ .removePeer peer)
      (Limited configs globalConfig) (fun s t => s.protocolLevel peer label t) c.maxTokens c.refillRate where
  rate_nonneg := c.refillRate_nonneg
  keeps s now e hs ht := hs.step ht
  later s now t hs ht := hs.later ht
  nonneg s now hs := by
    have hlevel := (hs.inv.protocolBucket peer (by rw [hs.configs, hc])).2 now le_rfl
    rw [← hlevel]
    exact (hs.inv.protocolBucket peer (by rw [hs.configs, hc])).1.level_nonneg
  le_capacity s now hs := by
    have hlevel := (hs.inv.protocolBucket peer (by rw [hs.configs, hc])).2 now le_rfl
    rw [← hlevel]
    exact (hs.inv.protocolBucket peer (by rw [hs.configs, hc])).1.level_le
  fills s now t hs ht := by
    obtain ⟨hruns, hlevel⟩ := hs.inv.protocolBucket peer (by rw [hs.configs, hc])
    rw [← hlevel now le_rfl, ← hlevel t ht]
    exact hruns.level_le_add ht
  drains s e hs hok := by
    obtain ⟨now, op⟩ := e
    cases op with
    | removePeer p =>
      have hne : peer ≠ p := fun hp => hok (by rw [hp])
      have hlevels := removePeer_levels (l := label) (t := now) hs.inv hne
      simp [PeerRateLimiter.step, allows, hlevels.1]
    | check p l =>
      simp only [PeerRateLimiter.step, allows, decide_eq_true_eq]
      by_cases ha : (s.check p l now).1 = .allowed
      · cases hl : s.configs l with
        | none =>
          have hne : l ≠ label := by
            rintro rfl
            rw [hs.configs, hc] at hl
            cases hl
          rw [if_neg (fun hpl => hne hpl.2.1), check_unknown hl, add_zero]
        | some c' =>
          rw [(allowed_takes hs.inv hl ha).1]
          split_ifs with h1 h2 h2
          · linarith
          · exact absurd ⟨h1.1.symm, h1.2.symm, ha⟩ h2
          · exact absurd ⟨h2.1.symm, h2.2.1.symm⟩ h1
          · rw [add_zero]
      · rw [(refused_keeps hs.inv ha le_rfl).1, if_neg (fun hpl => ha hpl.2.2), add_zero]

theorem globalLevel_metered (peer : PeerId) :
    Metering.Metered step Call.now (allowsPeer peer) (fun e => e.op ≠ .removePeer peer)
      (Limited configs globalConfig) (fun s t => s.globalLevel peer t) globalConfig.maxTokens globalConfig.refillRate where
  rate_nonneg := globalConfig.refillRate_nonneg
  keeps s now e hs ht := hs.step ht
  later s now t hs ht := hs.later ht
  nonneg s now hs := by
    obtain ⟨hruns, hlevel⟩ := hs.inv.globalBucket peer
    rw [← hlevel now le_rfl]
    exact hruns.level_nonneg
  le_capacity s now hs := by
    obtain ⟨hruns, hlevel⟩ := hs.inv.globalBucket peer
    rw [← hlevel now le_rfl, ← hs.global]
    exact hruns.level_le
  fills s now t hs ht := by
    obtain ⟨hruns, hlevel⟩ := hs.inv.globalBucket peer
    rw [← hlevel now le_rfl, ← hlevel t ht, ← hs.global]
    exact hruns.level_le_add ht
  drains s e hs hok := by
    obtain ⟨now, op⟩ := e
    cases op with
    | removePeer p =>
      have hne : peer ≠ p := fun hp => hok (by rw [hp])
      have hlevels := removePeer_levels (l := "") (t := now) hs.inv hne
      simp [PeerRateLimiter.step, allowsPeer, hlevels.2]
    | check p l =>
      simp only [PeerRateLimiter.step, allowsPeer, decide_eq_true_eq]
      by_cases ha : (s.check p l now).1 = .allowed
      · cases hl : s.configs l with
        | none => rw [if_neg (by simp), check_unknown hl, add_zero]
        | some c' =>
          rw [(allowed_takes (l := "") hs.inv hl ha).2]
          split_ifs with h1 h2 h2
          · linarith
          · exact absurd ⟨h1.symm, rfl, ha⟩ h2
          · exact absurd h2.1.symm h1
          · rw [add_zero]
      · rw [(refused_keeps (l := "") hs.inv ha le_rfl).2, if_neg (fun hpl => ha hpl.2.2), add_zero]

theorem limited_unused (configs : String → Option BucketConfig) (globalConfig : BucketConfig) (now : ℚ) :
    Limited configs globalConfig (unused configs globalConfig) now :=
  ⟨inv_unused configs globalConfig now, rfl, rfl⟩

end

theorem Inv.orderly (h : s.Inv now) : s.Orderly now where
  refused peer label t ht hr p l later hlater := refused_keeps (h.later ht) hr hlater
  indexed p l := by
    have hindexed := h.indexed p l
    rw [(h.nodup p).count]
    split_ifs with hmem hsome hsome
    · rfl
    · exact absurd (hindexed.1 hmem) hsome
    · exact absurd (hindexed.2 hsome) hmem
    · rfl
  removed peer p l :=
    ⟨(h.removePeer_eq peer).1 p l, (h.removePeer_eq peer).2.1 p, (h.removePeer_eq peer).2.2 p⟩

/-! What the global limit adds -/

theorem Inv.check_fst (h : s.Inv now) (peer : PeerId) (hc : s.configs label = some c) : (s.check peer label now).1 =
    if s.protocolLevel peer label now < 1 then .protocolLimited
    else if s.globalLevel peer now < 1 then .globalLimited else .allowed := by
  obtain ⟨hruns, hlevel⟩ := h.protocolBucket peer hc
  obtain ⟨hgruns, hglevel⟩ := h.globalBucket peer
  unfold PeerRateLimiter.check
  rw [hc]
  dsimp only
  rw [← hlevel now le_rfl, ← hglevel now le_rfl, hruns.tryConsume_fst]
  have hglobal : ∀ b, ((s.storeProtocol peer label b).globalBucket peer now).tryConsume now =
      (s.globalBucket peer now).tryConsume now := fun b => rfl
  rw [hglobal, hgruns.tryConsume_fst]
  simp only [decide_eq_false_iff_not, not_le]
  split_ifs
  · rfl
  · rfl
  · rfl

theorem Inv.protocolLevel_later (h : s.Inv now) (ht : now ≤ t) : s.protocolLevel p l t =
    Metering.level (burst s.configs l) (sustained s.configs l) (s.protocolLevel p l now) now t := by
  unfold protocolLevel
  cases hb : s.protocolBuckets p l with
  | some b =>
    obtain ⟨c, hc, hruns⟩ := h.protocol p l b hb
    unfold burst sustained
    rw [hc]
    exact hruns.level_level ht
  | none =>
    have hbrings : 0 ≤ (t - now) * sustained s.configs l := by
      refine mul_nonneg (sub_nonneg.2 ht) ?_
      unfold sustained
      cases s.configs l with
      | none => exact le_rfl
      | some c => exact c.refillRate_nonneg
    exact (min_eq_right (by linarith)).symm

theorem Inv.globalLevel_later (h : s.Inv now) (ht : now ≤ t) : s.globalLevel p t =
    Metering.level s.globalConfig.maxTokens s.globalConfig.refillRate (s.globalLevel p now) now t := by
  unfold globalLevel
  cases hb : s.globalBuckets p with
  | some b => exact (h.global p b hb).level_level ht
  | none =>
    have hbrings : 0 ≤ (t - now) * s.globalConfig.refillRate :=
      mul_nonneg (sub_nonneg.2 ht) s.globalConfig.refillRate_nonneg
    exact (min_eq_right (by linarith)).symm

theorem Inv.protocolLevel_nonneg (h : s.Inv now) : 0 ≤ s.protocolLevel p l now := by
  unfold protocolLevel
  cases hb : s.protocolBuckets p l with
  | some b =>
    obtain ⟨c, -, hruns⟩ := h.protocol p l b hb
    exact hruns.level_nonneg
  | none =>
    dsimp only
    cases s.configs l with
    | none => exact le_rfl
    | some c => exact c.maxTokens_nonneg

/-- The limits of some protocols, and no other has one, are together within the global one. -/
structure Covers (labels : Finset String) (configs : String → Option BucketConfig) (globalConfig : BucketConfig) :
    Prop where
  mem : ∀ l, (configs l).isSome → l ∈ labels
  burst : ∑ l ∈ labels, burst configs l ≤ globalConfig.maxTokens
  sustained : ∑ l ∈ labels, sustained configs l ≤ globalConfig.refillRate

/-- And a peer's global bucket lacks no more than those of its protocols together. -/
structure Slack (labels : Finset String) (configs : String → Option BucketConfig) (globalConfig : BucketConfig)
    (s : PeerRateLimiter) (now : ℚ) : Prop where
  limited : Limited configs globalConfig s now
  lacks : ∀ p, globalConfig.maxTokens - s.globalLevel p now ≤
    ∑ l ∈ labels, (PeerRateLimiter.burst configs l - s.protocolLevel p l now)

section
variable {labels : Finset String} {configs : String → Option BucketConfig} {globalConfig : BucketConfig}

theorem slack_unused (labels : Finset String) (configs : String → Option BucketConfig) (globalConfig : BucketConfig)
    (now : ℚ) : Slack labels configs globalConfig (unused configs globalConfig) now where
  limited := limited_unused configs globalConfig now
  lacks p := by
    refine le_of_eq ?_
    show globalConfig.maxTokens - globalConfig.maxTokens = _
    rw [sub_self]
    exact (Finset.sum_eq_zero fun l _ => sub_self _).symm

theorem Slack.later (h : Slack labels configs globalConfig s now) (hcov : Covers labels configs globalConfig)
    (ht : now ≤ t) : Slack labels configs globalConfig s t where
  limited := h.limited.later ht
  lacks p := by
    have hglobal := h.limited.inv.globalLevel_later (p := p) ht
    have hprotocol := fun l => h.limited.inv.protocolLevel_later (p := p) (l := l) ht
    rw [h.limited.global] at hglobal
    simp only [h.limited.configs] at hprotocol
    simp only [hglobal, hprotocol]
    exact Metering.capacity_sub_level_le_sum hcov.sustained (h.lacks p) ht

/-- So the protocol's bucket is out before the global one is. -/
theorem Slack.one_le_global (h : Slack labels configs globalConfig s now) (hcov : Covers labels configs globalConfig)
    (hc : configs label = some c) (hone : 1 ≤ s.protocolLevel p label now) : 1 ≤ s.globalLevel p now := by
  have hin : label ∈ labels := hcov.mem label (by rw [hc]; rfl)
  have hlacks := h.lacks p
  have hbursts : ∑ l ∈ labels, (PeerRateLimiter.burst configs l - s.protocolLevel p l now) ≤
      ∑ l ∈ labels, PeerRateLimiter.burst configs l - s.protocolLevel p label now := by
    rw [Finset.sum_sub_distrib]
    have hsingle := Finset.single_le_sum (fun l _ => h.limited.inv.protocolLevel_nonneg (p := p) (l := l)) hin
    linarith
  have hcapacity := hcov.burst
  linarith

theorem Slack.check (h : Slack labels configs globalConfig s now) (hcov : Covers labels configs globalConfig) :
    Slack labels configs globalConfig (s.check peer label now).2 now where
  limited := h.limited.step (e := ⟨now, .check peer label⟩) le_rfl
  lacks p := by
    have hlacks := h.lacks p
    by_cases ha : (s.check peer label now).1 = .allowed
    · cases hc : configs label with
      | none =>
        rw [check_unknown (by rw [h.limited.configs, hc])]
        exact hlacks
      | some c =>
        have hin : label ∈ labels := hcov.mem label (by rw [hc]; rfl)
        have htakes := fun l => allowed_takes (p := p) (l := l) h.limited.inv (by rw [h.limited.configs, hc]) ha
        rw [(htakes "").2]
        simp only [fun l => (htakes l).1]
        by_cases hp : p = peer
        · have hone : ∑ l ∈ labels, (PeerRateLimiter.burst configs l -
              (if p = peer ∧ l = label then s.protocolLevel p l now - 1 else s.protocolLevel p l now)) =
              ∑ l ∈ labels, (PeerRateLimiter.burst configs l - s.protocolLevel p l now) + 1 := by
            rw [← Finset.add_sum_erase _ _ hin, ← Finset.add_sum_erase labels _ hin, if_pos ⟨hp, rfl⟩,
              Finset.sum_congr rfl fun l hl => by rw [if_neg fun hpl => Finset.ne_of_mem_erase hl hpl.2]]
            ring
          rw [hone, if_pos hp]
          linarith
        · rw [if_neg hp, Finset.sum_congr rfl fun l _ => by rw [if_neg fun hpl => hp hpl.1]]
          exact hlacks
    · have hkeeps := fun l => refused_keeps (p := p) (l := l) h.limited.inv ha le_rfl
      rw [(hkeeps "").2]
      simp only [fun l => (hkeeps l).1]
      exact hlacks

theorem Slack.removePeer (h : Slack labels configs globalConfig s now) :
    Slack labels configs globalConfig (s.removePeer peer) now where
  limited := h.limited.step (e := ⟨now, .removePeer peer⟩) le_rfl
  lacks p := by
    by_cases hp : p = peer
    · subst hp
      obtain ⟨hprotocol, hglobal, -⟩ := h.limited.inv.removePeer_eq p
      obtain ⟨hconfigs, hglobalConfig⟩ := removePeer_configs s p
      unfold protocolLevel globalLevel
      simp only [hprotocol, hglobal, if_true, hconfigs, hglobalConfig, h.limited.configs, h.limited.global]
      rw [sub_self]
      exact (Finset.sum_eq_zero fun l _ => sub_self _).ge
    · have hlevels := fun l => removePeer_levels (l := l) (t := now) h.limited.inv hp
      rw [(hlevels "").2]
      simp only [fun l => (hlevels l).1]
      exact h.lacks p

theorem Slack.step {e : Call} (h : Slack labels configs globalConfig s now) (hcov : Covers labels configs globalConfig)
    (ht : now ≤ e.now) : Slack labels configs globalConfig (s.step e) e.now := by
  obtain ⟨now', op⟩ := e
  cases op with
  | check peer label => exact (h.later hcov ht).check hcov
  | removePeer peer => exact (h.later hcov ht).removePeer

/-- After any run of calls in time. -/
theorem Slack.after {start : ℚ} {before : List Call} (hcov : Covers labels configs globalConfig)
    (ht : Metering.Timed Call.now start before) (hle : ∀ e ∈ before, e.now ≤ now) (hstart : start ≤ now) :
    Slack labels configs globalConfig ((unused configs globalConfig).after before) now :=
  ht.foldl (fun _ _ _ h ht => h.step hcov ht) (fun _ _ _ h ht => h.later hcov ht)
    (slack_unused labels configs globalConfig start) hle hstart

end

/-! Without the tokens -/

/-- The limiter of which only the keys are kept, its answers given from outside. -/
structure Forgets (s : PeerRateLimiter) (l : Variance.PeerRateLimiter) : Prop where
  protocol : ∀ p label, (p, label) ∈ l.protocolBuckets ↔ (s.protocolBuckets p label).isSome
  global : ∀ p, p ∈ l.globalBuckets ↔ (s.globalBuckets p).isSome
  configs : ∀ label, label ∈ l.configs ↔ (s.configs label).isSome
  index : ∀ p : PeerId, l.peerProtocols[p]? = s.peerProtocols p

variable {k : Variance.PeerRateLimiter}

theorem Forgets.storeProtocol (h : s.Forgets k) : (s.storeProtocol peer label b).Forgets (k.protocolBucket peer label) := by
  have hkey := h.protocol peer label
  unfold PeerRateLimiter.storeProtocol Variance.PeerRateLimiter.protocolBucket
  by_cases hin : (peer, label) ∈ k.protocolBuckets
  · rw [if_pos hin, if_pos (hkey.1 hin)]
    refine ⟨fun p l => ?_, h.global, h.configs, h.index⟩
    dsimp only
    split_ifs with hpl
    · rw [hpl.1, hpl.2]
      exact ⟨fun _ => rfl, fun _ => hin⟩
    · exact h.protocol p l
  · rw [if_neg hin, if_neg fun hsome => hin (hkey.2 hsome)]
    refine ⟨fun p l => ?_, h.global, h.configs, fun p => ?_⟩
    · dsimp only
      rw [Finset.mem_insert, h.protocol p l, Prod.mk.injEq]
      split_ifs with hpl
      · simp [hpl]
      · simp [hpl]
    · dsimp only
      rw [get_insert, h.index peer, h.index p]
      simp only [eq_comm]

theorem Forgets.storeGlobal (h : s.Forgets k) :
    (s.storeGlobal peer g).Forgets { k with globalBuckets := insert peer k.globalBuckets } where
  protocol := h.protocol
  global p := by
    unfold PeerRateLimiter.storeGlobal
    dsimp only
    rw [Finset.mem_insert, h.global p]
    split_ifs with hp
    · simp [hp]
    · simp [hp]
  configs := h.configs
  index := h.index

/-- A check is one that the limiter without tokens makes too, told what the buckets answer. -/
theorem Forgets.check (h : s.Forgets k) (hs : s.Inv now) (peer : PeerId) (label : String) :
    ∃ tokens, (k.check peer label tokens).1 = (s.check peer label now).1 ∧
      (s.check peer label now).2.Forgets (k.check peer label tokens).2 := by
  unfold Variance.PeerRateLimiter.check
  cases hc : s.configs label with
  | none =>
    have hout : label ∉ k.configs := fun hin => by
      have hsome := (h.configs label).1 hin
      rw [hc] at hsome
      cases hsome
    simp only [check_unknown hc, if_neg hout]
    exact ⟨⟨true, true⟩, trivial, h⟩
  | some c =>
    have hin : label ∈ k.configs := (h.configs label).2 (by rw [hc]; rfl)
    simp only [if_pos hin]
    obtain ⟨b, -, ⟨heq, -⟩ | ⟨g, -, ⟨heq, -⟩ | ⟨heq, -⟩⟩⟩ := check_cases hs peer hc
    · rw [heq]
      exact ⟨⟨false, true⟩, rfl, h.storeProtocol⟩
    · rw [heq]
      exact ⟨⟨true, false⟩, rfl, h.storeProtocol.storeGlobal⟩
    · rw [heq]
      exact ⟨⟨true, true⟩, rfl, h.storeProtocol.storeGlobal⟩

theorem Forgets.removePeer (h : s.Forgets k) (hs : s.Inv now) : (s.removePeer peer).Forgets (k.removePeer peer) := by
  obtain ⟨hprotocol, hglobal, hindex⟩ := hs.removePeer_eq peer
  refine ⟨fun p l => ?_, fun p => ?_, fun l => ?_, fun p => ?_⟩
  · refine Variance.PeerRateLimiter.mem_foldl_erase.trans ?_
    rw [h.protocol p l, h.index peer, hprotocol]
    dsimp only
    by_cases hp : p = peer
    · subst hp
      simp [hs.indexed p l, Option.isSome_iff_ne_none]
    · simp [hp]
  · rw [hglobal]
    refine Finset.mem_erase.trans ?_
    rw [h.global p]
    split_ifs with hp
    · simp [hp]
    · simp [hp]
  · rw [(removePeer_configs s peer).1]
    exact h.configs l
  · rw [hindex]
    refine (get_erase (β := List String) k.peerProtocols peer p).trans ?_
    rw [h.index p]
    simp only [eq_comm]

end PeerRateLimiter
end RateLimiter

namespace RateLimits
open RateLimiter RateLimiter.PeerRateLimiter Metering

/-- For all limits and every run of calls in time: what is allowed to a peer in an interval in which it is not removed
is, for each protocol with a limit and over all of these, within the burst and what the rate brings; and the limiter is
orderly all along. -/
theorem allowed_within_limits (configs : String → Option BucketConfig) (globalConfig : BucketConfig)
    (start a length : ℚ) (before window : List PeerRateLimiter.Call)
    (ht : Timed PeerRateLimiter.Call.now start (before ++ window)) (hstart : start ≤ a) (hlength : 0 ≤ length)
    (hbefore : ∀ e ∈ before, e.now ≤ a) (hwindow : ∀ e ∈ window, a ≤ e.now ∧ e.now ≤ a + length)
    (peer : PeerId) :
    ((unused configs globalConfig).after before).Orderly a ∧
      ((∀ e ∈ window, e.op ≠ .removePeer peer) →
        (∀ label config, configs label = some config →
          (Metering.taken step (allows peer label) ((unused configs globalConfig).after before) window : ℚ) ≤
            config.maxTokens + config.refillRate * length) ∧
        (Metering.taken step (allowsPeer peer) ((unused configs globalConfig).after before) window : ℚ) ≤
          globalConfig.maxTokens + globalConfig.refillRate * length) := by
  have hunused := limited_unused configs globalConfig start
  have hafter : Limited configs globalConfig ((unused configs globalConfig).after before) a :=
    (globalLevel_metered peer).inv_foldl hunused ht.left hbefore hstart
  have hright : Timed PeerRateLimiter.Call.now a window := ht.right fun e he => (hwindow e he).1
  refine ⟨hafter.inv.orderly, fun hkept => ⟨fun label config hc => ?_, ?_⟩⟩
  · exact (protocolLevel_metered hc).taken_le hafter hright hkept hlength fun e he => (hwindow e he).2
  · exact (globalLevel_metered peer).taken_le hafter hright hkept hlength fun e he => (hwindow e he).2

def ping : PeerRateLimiter.Call := ⟨0, .check "peer" "identity"⟩

/-- Of two checks at one time, a burst of one lets one through. -/
theorem allowed_within_limits_ping :
    (Metering.taken step (allowsPeer "peer") ((unused defaultConfigs (.fromWindow 1 60)).after []) [ping, ping] : ℚ) ≤
      (BucketConfig.fromWindow 1 60).maxTokens + (BucketConfig.fromWindow 1 60).refillRate * 0 := by
  refine ((allowed_within_limits defaultConfigs (.fromWindow 1 60) 0 0 0 [] [ping, ping] ?_ le_rfl le_rfl ?_ ?_
    "peer").2 ?_).2
  · exact ⟨le_rfl, le_rfl, trivial⟩
  · simp
  · simp [ping]
  · simp [ping]

/-- A protocol that has no limit is let through, whatever the peer's own limit is. -/
theorem unlimited_protocol_passes : ¬ ∀ (configs : String → Option BucketConfig) (globalConfig : BucketConfig)
    (length : ℚ) (window : List PeerRateLimiter.Call) (peer : PeerId), Timed PeerRateLimiter.Call.now 0 window →
    (∀ e ∈ window, 0 ≤ e.now ∧ e.now ≤ 0 + length) → (∀ e ∈ window, e.op ≠ .removePeer peer) →
    (Metering.taken step (allowsAny peer) (unused configs globalConfig) window : ℚ) ≤
      globalConfig.maxTokens + globalConfig.refillRate * length := by
  intro h
  have hle := h defaultConfigs (.fromWindow 1 60) 0 [⟨0, .check "peer" "ping"⟩, ⟨0, .check "peer" "ping"⟩] "peer"
    ⟨le_rfl, le_rfl, trivial⟩ (by simp) (by simp)
  have htaken : Metering.taken step (allowsAny "peer") (unused defaultConfigs (.fromWindow 1 60))
      [⟨0, .check "peer" "ping"⟩, ⟨0, .check "peer" "ping"⟩] = 2 := by decide +kernel
  rw [htaken] at hle
  norm_num [BucketConfig.fromWindow] at hle

def limitedLabels : Finset String :=
  {"direct_messages", "typing_indicators", "signaling", "identity", "offline_messages", "rename", "group_sync"}

theorem default_covers : Covers limitedLabels defaultConfigs (.fromWindow 500 60) where
  mem l hl := by
    unfold defaultConfigs at hl
    split at hl <;> simp [limitedLabels] at hl ⊢
  burst := by decide +kernel
  sustained := by decide +kernel

/-- With the default limits, in every run of calls in time, the bucket of the protocol decides alone: the global one is
never out while that has a token. -/
theorem default_protocol_decides (start now : ℚ) (before : List PeerRateLimiter.Call)
    (ht : Timed PeerRateLimiter.Call.now start before) (hstart : start ≤ now) (hbefore : ∀ e ∈ before, e.now ≤ now)
    (peer : PeerId) (label : String) :
    ((RateLimiter.PeerRateLimiter.new.after before).check peer label now).1 =
      if (defaultConfigs label).isSome ∧ (RateLimiter.PeerRateLimiter.new.after before).protocolLevel peer label now < 1
      then .protocolLimited else .allowed := by
  have hslack : Slack limitedLabels defaultConfigs (.fromWindow 500 60)
      (RateLimiter.PeerRateLimiter.new.after before) now :=
    Slack.after default_covers ht hbefore hstart
  cases hc : defaultConfigs label with
  | none =>
    rw [check_unknown (by rw [hslack.limited.configs, hc])]
    simp
  | some c =>
    rw [hslack.limited.inv.check_fst peer (by rw [hslack.limited.configs, hc])]
    by_cases hone : (RateLimiter.PeerRateLimiter.new.after before).protocolLevel peer label now < 1
    · simp [hone]
    · have hglobal := hslack.one_le_global default_covers hc (not_lt.1 hone)
      simp [hone, not_lt.2 hglobal]

def renames : List PeerRateLimiter.Call := [⟨0, .check "peer" "rename"⟩, ⟨0, .check "peer" "rename"⟩]

/-- Two renames at once are all that there is to have. -/
theorem default_protocol_decides_renames :
    ((RateLimiter.PeerRateLimiter.new.after renames).check "peer" "rename" 0).1 =
      if (defaultConfigs "rename").isSome ∧
        (RateLimiter.PeerRateLimiter.new.after renames).protocolLevel "peer" "rename" 0 < 1
      then .protocolLimited else .allowed :=
  default_protocol_decides 0 0 renames ⟨le_rfl, le_rfl, trivial⟩ le_rfl (by simp [renames]) "peer" "rename"

end RateLimits
end Variance
