import Variance.Lib.Run
import Variance.Spec.Types

/-! The identity cache, `variance-identity/src/cache.rs`: two layers in memory, read off the monotonic clock, over one on
disk, which counts in whole seconds. Times are in nanoseconds, and both clocks are one. -/

namespace Variance

def nanosPerSec : ℕ := 1000000000

structure CacheEntry (V : Type) where
  value : V
  expiresAt : ℕ
deriving DecidableEq

namespace CacheEntry
variable {V : Type}

def new (value : V) (ttl now : ℕ) : CacheEntry V := ⟨value, now + ttl⟩

def isExpired (e : CacheEntry V) (now : ℕ) : Bool := e.expiresAt < now

end CacheEntry

/-- A layer in memory; `L1Cache` and `L2Cache` are one but for their `ttl`. -/
abbrev UpperCache (V : Type) := SledTree (CacheEntry V)

namespace UpperCache
variable {V : Type}

def get (t : UpperCache V) (key : String) (now : ℕ) : Option V :=
  match t[key]? with
  | some entry => if entry.isExpired now = false then some entry.value else none
  | none => none

def evictExpired (t : UpperCache V) (now : ℕ) : UpperCache V := t.filter fun _ entry => !entry.isExpired now

end UpperCache

/-- On disk, `expiresAt` is in seconds. -/
structure DiskEntry (V : Type) where
  value : V
  expiresAt : ℕ
deriving DecidableEq

inductive CacheError
  | signatureVerification
  | storage
deriving DecidableEq

/-- Which operations of the disk fail. -/
structure DiskFaults where
  reads : Bool
  inserts : Bool
  removes : Bool
deriving DecidableEq

structure MultiLayerCache (V : Type) where
  l1 : UpperCache V
  l2 : UpperCache V
  l3 : SledTree (DiskEntry V)

namespace MultiLayerCache
variable {V : Type}

/-- Five minutes, an hour, and, in seconds, a day. -/
def l1Ttl : ℕ := 5 * 60 * nanosPerSec
def l2Ttl : ℕ := 60 * 60 * nanosPerSec
def l3Ttl : ℕ := 24 * 60 * 60

def empty : MultiLayerCache V := ⟨∅, ∅, ∅⟩

/-! Operations of one layer -/

def l1Insert (c : MultiLayerCache V) (key : String) (value : V) (now : ℕ) : MultiLayerCache V :=
  { c with l1 := c.l1.insert key (.new value l1Ttl now) }

def l2Insert (c : MultiLayerCache V) (key : String) (value : V) (now : ℕ) : MultiLayerCache V :=
  { c with l2 := c.l2.insert key (.new value l2Ttl now) }

/-- An expired entry is removed. -/
def l3Get (c : MultiLayerCache V) (f : DiskFaults) (key : String) (now : ℕ) :
    Except CacheError (Option V) × MultiLayerCache V :=
  if f.reads then (.error .storage, c)
  else match c.l3[key]? with
    | none => (.ok none, c)
    | some entry =>
      if now / nanosPerSec < entry.expiresAt then (.ok (some entry.value), c)
      else if f.removes then (.error .storage, c)
      else (.ok none, { c with l3 := c.l3.erase key })

def l3Insert (c : MultiLayerCache V) (f : DiskFaults) (key : String) (value : V) (now : ℕ) :
    Except CacheError Unit × MultiLayerCache V :=
  if f.inserts then (.error .storage, c)
  else (.ok (), { c with l3 := c.l3.insert key ⟨value, now / nanosPerSec + l3Ttl⟩ })

def l3Remove (c : MultiLayerCache V) (f : DiskFaults) (key : String) : MultiLayerCache V :=
  if f.removes then c else { c with l3 := c.l3.erase key }

/-! Operations of the cache -/

/-- A hit is promoted to the layers above. -/
def get (c : MultiLayerCache V) (f : DiskFaults) (key : String) (now : ℕ) :
    Except CacheError (Option V) × MultiLayerCache V :=
  match c.l1.get key now with
  | some value => (.ok (some value), c)
  | none => match c.l2.get key now with
    | some value => (.ok (some value), c.l1Insert key value now)
    | none => match c.l3Get f key now with
      | (.ok (some value), c) => (.ok (some value), (c.l2Insert key value now).l1Insert key value now)
      | (.ok none, c) => (.ok none, c)
      | (.error e, c) => (.error e, c)

/-- `verified`: the value's document verifies. -/
def insert (c : MultiLayerCache V) (f : DiskFaults) (verified : Bool) (key : String) (value : V) (now : ℕ) :
    Except CacheError Unit × MultiLayerCache V :=
  if verified = false then (.error .signatureVerification, c)
  else ((c.l1Insert key value now).l2Insert key value now).l3Insert f key value now

/-- That the disk fails is passed over. -/
def remove (c : MultiLayerCache V) (f : DiskFaults) (key : String) : MultiLayerCache V :=
  { c with l1 := c.l1.erase key, l2 := c.l2.erase key }.l3Remove f key

/-- `stays`: the entries on disk whose removal fails. -/
def evictExpired (c : MultiLayerCache V) (stays : String → Bool) (now : ℕ) : MultiLayerCache V :=
  { l1 := c.l1.evictExpired now
    l2 := c.l2.evictExpired now
    l3 := c.l3.filter fun key entry => decide (now / nanosPerSec < entry.expiresAt) || stays key }

/-- `new`, over the disk of the process before. -/
def restart (c : MultiLayerCache V) : MultiLayerCache V := { c with l1 := ∅, l2 := ∅ }

end MultiLayerCache

/-! Runs -/

/-- A value with the number and the time of the insert that brought it. -/
structure Stamped (V : Type) where
  value : V
  serial : ℕ
  inserted : ℕ
deriving DecidableEq

structure CacheWorld (V : Type) where
  cache : MultiLayerCache (Stamped V)
  now : ℕ
  /-- How many inserts there were, and of each key the last that completed. -/
  inserts : ℕ
  completed : String → Option ℕ
  /-- When the disk entry expires that the entry of the layer was promoted from. -/
  l1Source : String → Option ℕ
  l2Source : String → Option ℕ

namespace CacheWorld
variable {V : Type}

inductive Step (V : Type)
  | get (f : DiskFaults) (key : String)
  | insert (f : DiskFaults) (verified : Bool) (key : String) (value : V)
  | remove (f : DiskFaults) (key : String)
  | evictExpired (stays : String → Bool)
  | restart
  | advance (elapsed : ℕ)

/-- What a get answers. -/
def answer (w : CacheWorld V) (f : DiskFaults) (key : String) : Except CacheError (Option (Stamped V)) :=
  (w.cache.get f key w.now).1

/-- A promotion takes the source along. -/
def promote (w : CacheWorld V) (f : DiskFaults) (key : String) : CacheWorld V :=
  match w.cache.l1.get key w.now with
  | some _ => w
  | none => match w.cache.l2.get key w.now with
    | some _ => { w with l1Source := fun k => if k = key then w.l2Source key else w.l1Source k }
    | none => match (w.cache.l3Get f key w.now).1 with
      | .ok (some _) =>
        let source := (w.cache.l3[key]?).map (·.expiresAt)
        { w with
          l1Source := fun k => if k = key then source else w.l1Source k
          l2Source := fun k => if k = key then source else w.l2Source k }
      | _ => w

def step (w : CacheWorld V) : Step V → CacheWorld V
  | .get f key => { w.promote f key with cache := (w.cache.get f key w.now).2 }
  | .insert f verified key value =>
    if verified = false then w
    else
      let r := w.cache.insert f true key ⟨value, w.inserts, w.now⟩ w.now
      { w with
        cache := r.2
        inserts := w.inserts + 1
        completed := if r.1 = .ok () then fun k => if k = key then some w.inserts else w.completed k else w.completed
        l1Source := fun k => if k = key then none else w.l1Source k
        l2Source := fun k => if k = key then none else w.l2Source k }
  | .remove f key => { w with cache := w.cache.remove f key }
  | .evictExpired stays => { w with cache := w.cache.evictExpired stays w.now }
  | .restart => { w with cache := w.cache.restart }
  | .advance elapsed => { w with now := w.now + elapsed }

/-- What a get answers was inserted a day ago at most. -/
def WithinTtl (w : CacheWorld V) : Step V → Prop
  | .get f key => ∀ v, w.answer f key = .ok (some v) → w.now ≤ v.inserted + MultiLayerCache.l3Ttl * nanosPerSec
  | _ => True

/-- What a get answers was inserted no earlier than by the last insert of the key that completed. -/
def Current (w : CacheWorld V) : Step V → Prop
  | .get f key => ∀ v n, w.answer f key = .ok (some v) → w.completed key = some n → n ≤ v.serial
  | _ => True

/-- A get that is answered from memory, by an entry that was promoted, comes before the disk entry expires that the
entry was promoted from. -/
def Sourced (w : CacheWorld V) : Step V → Prop
  | .get _ key =>
    (w.cache.l1.get key w.now ≠ none → ∀ expiresAt, w.l1Source key = some expiresAt →
        w.now / nanosPerSec < expiresAt) ∧
      (w.cache.l1.get key w.now = none → w.cache.l2.get key w.now ≠ none → ∀ expiresAt,
        w.l2Source key = some expiresAt → w.now / nanosPerSec < expiresAt)
  | _ => True

end CacheWorld

/-- Nothing is cached at first. -/
def cacheSys (V : Type) : StepSystem.Sys (CacheWorld V) (CacheWorld.Step V) where
  init w := w.cache = .empty ∧ w.completed = fun _ => none
  step := CacheWorld.step

/-! The identity cache in many hands: `get`, `insert` and `remove` of one key, one operation of a layer at a time. A
remove holds the locks of the layers in memory until it is done; nothing else holds one for longer than an operation. -/

namespace CacheRace
variable {V : Type}

/-- What a get does next. -/
inductive GetStage (V : Type)
  | l1
  | l2
  | l3
  | promoteL2 (value : Stamped V)
  | promoteL1 (value : Stamped V)
deriving DecidableEq

def GetStage.Hit : GetStage V → Prop
  | .promoteL2 _ | .promoteL1 _ => True
  | .l1 | .l2 | .l3 => False

/-- `late`: a remove had completed when it started, and no insert has begun since. -/
structure GetTask (V : Type) where
  stage : GetStage V
  late : Bool
deriving DecidableEq

/-- The layer that an insert writes next. -/
inductive InsertStage
  | l1
  | l2
  | l3
deriving DecidableEq

structure InsertTask (V : Type) where
  value : Stamped V
  stage : InsertStage
deriving DecidableEq

/-- The layers that a remove has locked and cleared. -/
inductive RemoveStage
  | l1
  | l1l2
deriving DecidableEq

inductive Answer (V : Type)
  | got (late : Bool) (r : Except CacheError (Option (Stamped V)))
  | inserted (value : Stamped V) (r : Except CacheError Unit)
  | removed
deriving DecidableEq

end CacheRace

open CacheRace in
structure CacheRace (V : Type) where
  key : String
  cache : MultiLayerCache (Stamped V)
  now : ℕ
  inserts : ℕ
  gets : List (GetTask V)
  writing : List (InsertTask V)
  removing : Option RemoveStage
  /-- A remove has completed, and no insert has begun since. -/
  removed : Bool

namespace CacheRace
variable {V : Type}

inductive Step (V : Type)
  | startGet
  | get (i : ℕ) (f : DiskFaults)
  | startInsert (verified : Bool) (value : V)
  | insert (i : ℕ) (f : DiskFaults)
  | startRemove
  | remove (f : DiskFaults)
  | advance (elapsed : ℕ)

/-- One operation of a get; a locked layer keeps it waiting. -/
def getStep (s : CacheRace V) (i : ℕ) (f : DiskFaults) : Option (Answer V) × CacheRace V :=
  match s.gets[i]? with
  | none => (none, s)
  | some t =>
    let goOn (stage : GetStage V) : Option (Answer V) × CacheRace V :=
      (none, { s with gets := s.gets.set i { t with stage } })
    match t.stage with
    | .l1 =>
      if s.removing ≠ none then (none, s)
      else match s.cache.l1.get s.key s.now with
        | some value => (some (.got t.late (.ok (some value))), { s with gets := s.gets.eraseIdx i })
        | none => goOn .l2
    | .l2 =>
      if s.removing = some .l1l2 then (none, s)
      else match s.cache.l2.get s.key s.now with
        | some value => goOn (.promoteL1 value)
        | none => goOn .l3
    | .l3 =>
      let r := s.cache.l3Get f s.key s.now
      match r.1 with
      | .ok (some value) => (none, { s with cache := r.2, gets := s.gets.set i { t with stage := .promoteL2 value } })
      | .ok none => (some (.got t.late (.ok none)), { s with cache := r.2, gets := s.gets.eraseIdx i })
      | .error e => (some (.got t.late (.error e)), { s with cache := r.2, gets := s.gets.eraseIdx i })
    | .promoteL2 value =>
      if s.removing = some .l1l2 then (none, s)
      else (none, { s with
        cache := s.cache.l2Insert s.key value s.now
        gets := s.gets.set i { t with stage := .promoteL1 value } })
    | .promoteL1 value =>
      if s.removing ≠ none then (none, s)
      else (some (.got t.late (.ok (some value))),
        { s with cache := s.cache.l1Insert s.key value s.now, gets := s.gets.eraseIdx i })

/-- A document that does not verify gets no further. -/
def startInsert (s : CacheRace V) (verified : Bool) (value : V) : Option (Answer V) × CacheRace V :=
  if verified = false then (some (.inserted ⟨value, s.inserts, s.now⟩ (.error .signatureVerification)), s)
  else
    (none, { s with
      inserts := s.inserts + 1
      writing := s.writing ++ [⟨⟨value, s.inserts, s.now⟩, .l1⟩]
      removed := false
      gets := s.gets.map fun t => { t with late := false } })

def insertStep (s : CacheRace V) (i : ℕ) (f : DiskFaults) : Option (Answer V) × CacheRace V :=
  match s.writing[i]? with
  | none => (none, s)
  | some t =>
    match t.stage with
    | .l1 =>
      if s.removing ≠ none then (none, s)
      else (none, { s with
        cache := s.cache.l1Insert s.key t.value s.now
        writing := s.writing.set i { t with stage := .l2 } })
    | .l2 =>
      if s.removing = some .l1l2 then (none, s)
      else (none, { s with
        cache := s.cache.l2Insert s.key t.value s.now
        writing := s.writing.set i { t with stage := .l3 } })
    | .l3 =>
      let r := s.cache.l3Insert f s.key t.value s.now
      (some (.inserted t.value r.1), { s with cache := r.2, writing := s.writing.eraseIdx i })

/-- The lock of the first layer keeps two removes apart. -/
def startRemove (s : CacheRace V) : CacheRace V :=
  if s.removing ≠ none then s
  else { s with cache := { s.cache with l1 := s.cache.l1.erase s.key }, removing := some .l1 }

def removeStep (s : CacheRace V) (f : DiskFaults) : Option (Answer V) × CacheRace V :=
  match s.removing with
  | none => (none, s)
  | some .l1 => (none, { s with cache := { s.cache with l2 := s.cache.l2.erase s.key }, removing := some .l1l2 })
  | some .l1l2 => (some .removed, { s with cache := s.cache.l3Remove f s.key, removing := none, removed := true })

def run (s : CacheRace V) : Step V → Option (Answer V) × CacheRace V
  | .startGet => (none, { s with gets := s.gets ++ [⟨.l1, s.removed⟩] })
  | .get i f => s.getStep i f
  | .startInsert verified value => s.startInsert verified value
  | .insert i f => s.insertStep i f
  | .startRemove => (none, s.startRemove)
  | .remove f => s.removeStep f
  | .advance elapsed => (none, { s with now := s.now + elapsed })

/-- A layer has the value for the key. -/
def Holding (s : CacheRace V) (value : Stamped V) : Prop :=
  (∃ e, s.cache.l1[s.key]? = some e ∧ e.value = value) ∨ (∃ e, s.cache.l2[s.key]? = some e ∧ e.value = value) ∨
    ∃ e, s.cache.l3[s.key]? = some e ∧ e.value = value

/-- A late get finds nothing, and an insert that fails leaves nothing. -/
def Right (s : CacheRace V) (e : Step V) : Prop :=
  (∀ value, (s.run e).1 ≠ some (.got true (.ok (some value)))) ∧
    ∀ value error, (s.run e).1 = some (.inserted value (.error error)) → ¬ (s.run e).2.Holding value

/-- When a remove completes, no get has a hit that it has not promoted yet, no insert is under way, and the disk gives
up what it has; and no insert's write to the disk fails. -/
def Careful (s : CacheRace V) : Step V → Prop
  | .remove f => s.removing = some .l1l2 →
      (∀ t ∈ s.gets, ¬ t.stage.Hit) ∧ s.writing = [] ∧ (f.removes = true → s.cache.l3[s.key]? = none)
  | .insert i f => ∀ t, s.writing[i]? = some t → t.stage = .l3 → f.inserts = false
  | _ => True

end CacheRace

/-- Nothing is cached, and nobody has begun anything. -/
def cacheRaceSys (V : Type) : StepSystem.Sys (CacheRace V) (CacheRace.Step V) where
  init s := s.cache = .empty ∧ s.gets = [] ∧ s.writing = [] ∧ s.removing = none ∧ s.removed = false
  step s e := (s.run e).2

end Variance
