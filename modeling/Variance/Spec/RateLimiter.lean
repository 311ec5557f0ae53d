import Mathlib.Algebra.Order.Field.Rat
import Mathlib.Algebra.Order.Group.Nat
import Mathlib.Data.Rat.Defs
import Mathlib.Logic.Function.Basic
import Variance.Lib.Metering
import Variance.Lib.Run
import Variance.Spec.Presence

/-! The rate limiter, `p2p/src/rate_limiter.rs`, with its tokens, in exact numbers. -/

namespace Variance
namespace RateLimiter

/-- A burst size and a rate of tokens a second. -/
structure BucketConfig where
  maxTokens : ℚ
  refillRate : ℚ
  maxTokens_nonneg : 0 ≤ maxTokens
  refillRate_nonneg : 0 ≤ refillRate

/-- The window is not empty. -/
def BucketConfig.fromWindow (tokens windowSecs : ℕ) : BucketConfig where
  maxTokens := tokens
  refillRate := tokens / windowSecs
  maxTokens_nonneg := Nat.cast_nonneg tokens
  refillRate_nonneg := div_nonneg (Nat.cast_nonneg tokens) (Nat.cast_nonneg windowSecs)

structure TokenBucket where
  tokens : ℚ
  maxTokens : ℚ
  refillRate : ℚ
  lastRefill : ℚ

namespace TokenBucket

def new (maxTokens refillRate now : ℚ) : TokenBucket := ⟨maxTokens, maxTokens, refillRate, now⟩

/-- A time before the last one counts as no time since. -/
def refill (b : TokenBucket) (now : ℚ) : TokenBucket :=
  let elapsed := max (now - b.lastRefill) 0
  { b with tokens := min (b.tokens + elapsed * b.refillRate) b.maxTokens, lastRefill := now }

def tryConsume (b : TokenBucket) (now : ℚ) : Bool × TokenBucket :=
  let b := b.refill now
  if 1 ≤ b.tokens then (true, { b with tokens := b.tokens - 1 }) else (false, b)

/-- A token is given back. -/
def refund (b : TokenBucket) : TokenBucket := { b with tokens := min (b.tokens + 1) b.maxTokens }

/-- What there is to take at a time. -/
def level (b : TokenBucket) (now : ℚ) : ℚ := Metering.level b.maxTokens b.refillRate b.tokens b.lastRefill now

end TokenBucket

structure PeerRateLimiter where
  protocolBuckets : PeerId → String → Option TokenBucket
  globalBuckets : PeerId → Option TokenBucket
  configs : String → Option BucketConfig
  globalConfig : BucketConfig
  /-- The protocols that a peer has used. -/
  peerProtocols : PeerId → Option (List String)

namespace PeerRateLimiter

def defaultConfigs : String → Option BucketConfig
  | "direct_messages" => some (.fromWindow 60 60)
  | "typing_indicators" => some (.fromWindow 20 60)
  | "signaling" => some (.fromWindow 30 60)
  | "identity" => some (.fromWindow 10 60)
  | "offline_messages" => some (.fromWindow 3 60)
  | "rename" => some (.fromWindow 2 60)
  | "group_sync" => some (.fromWindow 10 60)
  | _ => none

/-- A limiter that nobody has used, with whatever limits it was given. -/
def unused (configs : String → Option BucketConfig) (globalConfig : BucketConfig) : PeerRateLimiter :=
  ⟨fun _ _ => none, fun _ => none, configs, globalConfig, fun _ => none⟩

def new : PeerRateLimiter := unused defaultConfigs (.fromWindow 500 60)

/-- The peer's bucket for a protocol, a full one at first. -/
def protocolBucket (s : PeerRateLimiter) (peer : PeerId) (label : String) (config : BucketConfig) (now : ℚ) :
    TokenBucket :=
  (s.protocolBuckets peer label).getD (.new config.maxTokens config.refillRate now)

/-- The first bucket for a protocol is noted in the index. -/
def storeProtocol (s : PeerRateLimiter) (peer : PeerId) (label : String) (b : TokenBucket) : PeerRateLimiter :=
  { s with
    protocolBuckets := fun p l => if p = peer ∧ l = label then some b else s.protocolBuckets p l
    peerProtocols :=
      if (s.protocolBuckets peer label).isSome then s.peerProtocols
      else fun p => if p = peer then some ((s.peerProtocols peer).getD [] ++ [label]) else s.peerProtocols p }

def globalBucket (s : PeerRateLimiter) (peer : PeerId) (now : ℚ) : TokenBucket :=
  (s.globalBuckets peer).getD (.new s.globalConfig.maxTokens s.globalConfig.refillRate now)

def storeGlobal (s : PeerRateLimiter) (peer : PeerId) (b : TokenBucket) : PeerRateLimiter :=
  { s with globalBuckets := fun p => if p = peer then some b else s.globalBuckets p }

/-- The protocol's bucket first, which has its token back when the global one is out. -/
def check (s : PeerRateLimiter) (peer : PeerId) (label : String) (now : ℚ) : RateLimitDecision × PeerRateLimiter :=
  match s.configs label with
  | none => (.allowed, s)
  | some config =>
    let r := (s.protocolBucket peer label config now).tryConsume now
    let s := s.storeProtocol peer label r.2
    if r.1 = false then (.protocolLimited, s)
    else
      let g := (s.globalBucket peer now).tryConsume now
      let s := s.storeGlobal peer g.2
      if g.1 = false then (.globalLimited, s.storeProtocol peer label r.2.refund) else (.allowed, s)

/-- By the index. -/
def removePeer (s : PeerRateLimiter) (peer : PeerId) : PeerRateLimiter :=
  let s := { s with globalBuckets := fun p => if p = peer then none else s.globalBuckets p }
  match s.peerProtocols peer with
  | none => s
  | some labels =>
    { s with
      peerProtocols := fun p => if p = peer then none else s.peerProtocols p
      protocolBuckets := fun p l => if p = peer ∧ l ∈ labels then none else s.protocolBuckets p l }

inductive Op
  | check (peer : PeerId) (label : String)
  | removePeer (peer : PeerId)

/-- A call and when it is made. -/
structure Call where
  now : ℚ
  op : Op

def step (s : PeerRateLimiter) (c : Call) : PeerRateLimiter :=
  match c.op with
  | .check peer label => (s.check peer label c.now).2
  | .removePeer peer => s.removePeer peer

def after (s : PeerRateLimiter) (cs : List Call) : PeerRateLimiter := cs.foldl step s

/-- A check of the peer on the protocol that is allowed. -/
def allows (peer : PeerId) (label : String) (s : PeerRateLimiter) (c : Call) : Bool :=
  match c.op with
  | .check p l => p = peer ∧ l = label ∧ (s.check p l c.now).1 = .allowed
  | .removePeer _ => false

/-- A check of the peer that is allowed, on any of the protocols that have a limit. -/
def allowsPeer (peer : PeerId) (s : PeerRateLimiter) (c : Call) : Bool :=
  match c.op with
  | .check p l => p = peer ∧ (s.configs l).isSome ∧ (s.check p l c.now).1 = .allowed
  | .removePeer _ => false

/-- The same on any protocol at all. -/
def allowsAny (peer : PeerId) (s : PeerRateLimiter) (c : Call) : Bool :=
  match c.op with
  | .check p l => p = peer ∧ (s.check p l c.now).1 = .allowed
  | .removePeer _ => false

/-- A bucket that there is not is a full one. -/
def protocolLevel (s : PeerRateLimiter) (peer : PeerId) (label : String) (now : ℚ) : ℚ :=
  match s.protocolBuckets peer label with
  | some b => b.level now
  | none => ((s.configs label).map (·.maxTokens)).getD 0

def globalLevel (s : PeerRateLimiter) (peer : PeerId) (now : ℚ) : ℚ :=
  match s.globalBuckets peer with
  | some b => b.level now
  | none => s.globalConfig.maxTokens

/-- What a protocol may use at once, nothing if it has no limit. -/
def burst (configs : String → Option BucketConfig) (label : String) : ℚ := ((configs label).map (·.maxTokens)).getD 0

def sustained (configs : String → Option BucketConfig) (label : String) : ℚ :=
  ((configs label).map (·.refillRate)).getD 0

/-- From a time on: a check that is refused takes nothing from any bucket, the index has each bucket once, and a removal
takes all of the peer's state and nobody else's. -/
structure Orderly (s : PeerRateLimiter) (now : ℚ) : Prop where
  refused : ∀ peer label t, now ≤ t → (s.check peer label t).1 ≠ .allowed → ∀ p l later, t ≤ later →
    (s.check peer label t).2.protocolLevel p l later = s.protocolLevel p l later ∧
      (s.check peer label t).2.globalLevel p later = s.globalLevel p later
  indexed : ∀ p l, ((s.peerProtocols p).getD []).count l = if (s.protocolBuckets p l).isSome then 1 else 0
  removed : ∀ peer p l,
    (s.removePeer peer).protocolBuckets p l = (if p = peer then none else s.protocolBuckets p l) ∧
      (s.removePeer peer).globalBuckets p = (if p = peer then none else s.globalBuckets p) ∧
      (s.removePeer peer).peerProtocols p = if p = peer then none else s.peerProtocols p

end PeerRateLimiter
end RateLimiter
end Variance

/-! The rate limiter of the local HTTP API, `api/rate_limit.rs`. The clock is read in whole seconds. -/

namespace Variance

structure WindowState where
  count : ℕ
  windowStart : ℕ
deriving DecidableEq

/-- `LocalRateLimitLayer` and every `LocalRateLimit` that was made or cloned from it: they share the state. -/
structure LocalRateLimit where
  state : WindowState
  maxRequests : ℕ
  windowSecs : ℕ

namespace LocalRateLimit

def new (maxRequests windowSecs : ℕ) : LocalRateLimit := ⟨⟨0, 0⟩, maxRequests, windowSecs⟩

/-- `call` up to the inner service, to which the request goes unless it is refused with a 429 that says so. -/
def call (l : LocalRateLimit) (now : ℕ) : Except String Unit × LocalRateLimit :=
  if l.windowSecs ≤ now - l.state.windowStart then (.ok (), { l with state := ⟨1, now⟩ })
  else if l.state.count < l.maxRequests then
    (.ok (), { l with state := { l.state with count := l.state.count + 1 } })
  else (.error "Rate limit exceeded", l)

end LocalRateLimit

/-- A limiter, what it has forwarded and when, and its last reading of the clock. Of what was forwarded, `present` is
what came in the window that the limiter counts in, and `previous` what came in the one before. -/
structure HttpTraffic where
  limiter : LocalRateLimit
  clock : ℕ
  forwarded : List ℕ
  previous : List ℕ
  present : List ℕ

/-- A request, by which of the services that share the state it came, and when. -/
structure HttpRequest where
  service : ℕ
  now : ℕ

namespace HttpTraffic

def step (w : HttpTraffic) (r : HttpRequest) : HttpTraffic :=
  match w.limiter.call r.now with
  | (.error _, limiter) => { w with limiter, clock := r.now }
  | (.ok (), limiter) =>
    if w.limiter.windowSecs ≤ r.now - w.limiter.state.windowStart then
      { limiter, clock := r.now, forwarded := w.forwarded ++ [r.now], previous := w.present, present := [r.now] }
    else { w with limiter, clock := r.now, forwarded := w.forwarded ++ [r.now], present := w.present ++ [r.now] }

/-- How many of `times` are among the `windowSecs` seconds from `start` on. -/
def countFrom (windowSecs start : ℕ) (times : List ℕ) : ℕ := times.countP fun t => start ≤ t ∧ t < start + windowSecs

/-- How many of `times` are less than `windowSecs` old. -/
def recent (windowSecs now : ℕ) (times : List ℕ) : ℕ := times.countP fun t => now < t + windowSecs

/-- The clock does not go back. -/
def Steady (w : HttpTraffic) (r : HttpRequest) : Prop := w.clock ≤ r.now

/-- What a sliding window would do: it forwards no more than it may in any stretch of the window's length, and refuses
only when that many were forwarded within the last one. -/
structure Slides (w : HttpTraffic) (r : HttpRequest) : Prop where
  bounded : ∀ start, countFrom w.limiter.windowSecs start (w.step r).forwarded ≤ w.limiter.maxRequests
  refuses : ∀ e, (w.limiter.call r.now).1 = .error e →
    w.limiter.maxRequests ≤ recent w.limiter.windowSecs r.now w.forwarded

/-- The condition. The window before is forgotten: a request that begins a new one, or finds room in the present one,
comes when so much of what was forwarded in the one before is past that there is room for it in both together. -/
def Careful (w : HttpTraffic) (r : HttpRequest) : Prop :=
  if w.limiter.windowSecs ≤ r.now - w.limiter.state.windowStart then
    w.limiter.windowSecs = 0 ∨ recent w.limiter.windowSecs r.now w.present < w.limiter.maxRequests
  else w.limiter.state.count < w.limiter.maxRequests →
    recent w.limiter.windowSecs r.now w.previous + w.limiter.state.count < w.limiter.maxRequests

instance (w : HttpTraffic) (r : HttpRequest) : Decidable (w.Steady r) := inferInstanceAs (Decidable (_ ≤ _))
instance (w : HttpTraffic) (r : HttpRequest) : Decidable (w.Careful r) := by unfold Careful; infer_instance

end HttpTraffic

/-- From a new layer on. -/
def httpSys (maxRequests windowSecs : ℕ) : StepSystem.Sys HttpTraffic HttpRequest where
  init w := w = ⟨.new maxRequests windowSecs, 0, [], [], []⟩
  step := HttpTraffic.step

end Variance
