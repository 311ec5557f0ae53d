import Variance.Lib.Run
import Variance.Lib.Text
import Variance.Spec.Types

/-! `variance-identity/src/username.rs`: the registry of names, `name#0001` with a discriminator. Names are
kept in lower case; what is a letter, and its lower case, are Unicode's. -/

namespace Variance

structure Unicode where
  toLowercase : String → String
  isAlphanumeric : Char → Bool

/-- `variance_identity::Error`, the variants the registry returns. -/
inductive IdentityError
  | usernameTaken (username : String)
  | invalidDid (did : String)
deriving DecidableEq

def IdentityError.display : IdentityError → String
  | .usernameTaken u => "Username " ++ u ++ " already taken"
  | .invalidDid d => "Invalid DID: " ++ d

def minDiscriminator : UInt32 := 1
def maxDiscriminator : UInt32 := 9999
def minUsernameLength : ℕ := 3
def maxUsernameLength : ℕ := 32
def maxDiscriminatorAttempts : ℕ := 100

structure UsernameRegistry where
  localCache : SledTree Did
  reverseCache : SledTree (String × UInt32)

namespace UsernameRegistry

def new : UsernameRegistry := ⟨∅, ∅⟩

/-- `{name}#{discriminator:04}`. -/
def formatUsername (name : String) (discriminator : UInt32) : String :=
  name ++ String.singleton '#' ++ Text.padded 4 discriminator.toNat

/-- `name#0001` or `@name#0001`. -/
def parseUsername (formatted : String) : Option (String × UInt32) :=
  let s := match formatted.toList with
    | '@' :: l => String.ofList l
    | l => String.ofList l
  match Text.rsplitOnce '#' s with
  | none => none
  | some (name, discStr) =>
    match Text.parseU32 discStr with
    | none => none
    | some disc => if minDiscriminator ≤ disc ∧ disc ≤ maxDiscriminator then some (name, disc) else none

/-- `{name}#{discriminator}`. -/
def compoundKey (name : String) (discriminator : UInt32) : String :=
  name ++ String.singleton '#' ++ Text.padded 0 discriminator.toNat

def validateUsername (U : Unicode) (username : String) : Except IdentityError Unit :=
  if username = "" then .error (.invalidDid "Username cannot be empty")
  else if username.utf8ByteSize < minUsernameLength then
    .error (.invalidDid ("Username too short (min " ++ toString minUsernameLength ++ " chars)"))
  else if maxUsernameLength < username.utf8ByteSize then
    .error (.invalidDid ("Username too long (max " ++ toString maxUsernameLength ++ " chars)"))
  else if ¬ username.toList.all fun c => U.isAlphanumeric c || c = '_' || c = '-' then
    .error (.invalidDid "Username must be alphanumeric with underscores/hyphens")
  else if ¬ username.toList.head?.any U.isAlphanumeric then
    .error (.invalidDid "Username must start with alphanumeric character")
  else .ok ()

/-- A did's present name goes, with its key. -/
def evict (r : UsernameRegistry) (did : Did) : UsernameRegistry :=
  match r.reverseCache[did]? with
  | none => r
  | some (oldName, oldDisc) => ⟨r.localCache.erase (compoundKey oldName oldDisc), r.reverseCache.erase did⟩

/-- Both caches get the entry. -/
def insert (r : UsernameRegistry) (name : String) (disc : UInt32) (did : Did) : UsernameRegistry :=
  ⟨r.localCache.insert (compoundKey name disc) did, r.reverseCache.insert did (name, disc)⟩

def isFree (r : UsernameRegistry) (name : String) (disc : UInt32) : Bool :=
  (r.localCache[compoundKey name disc]?).isNone

/-- `draws` are the random discriminators, from 1 to 9999; a hundred are tried. -/
def registerLocal (r : UsernameRegistry) (U : Unicode) (username : String) (did : Did) (draws : List UInt32) :
    Except IdentityError (String × UInt32) × UsernameRegistry :=
  match validateUsername U username with
  | .error e => (.error e, r)
  | .ok () =>
    let name := U.toLowercase username
    let r := r.evict did
    match (draws.take maxDiscriminatorAttempts).find? (r.isFree name) with
    | some disc => (.ok (name, disc), r.insert name disc did)
    | none => (.error (.usernameTaken (name ++ " (no available discriminators after " ++
        toString maxDiscriminatorAttempts ++ " attempts)")), r)

/-- The did's present key, if it has one, is left as it is. -/
def registerWithDiscriminator (r : UsernameRegistry) (U : Unicode) (username : String) (discriminator : UInt32)
    (did : Did) : Except IdentityError Unit × UsernameRegistry :=
  let name := U.toLowercase username
  if r.isFree name discriminator then (.ok (), r.insert name discriminator did)
  else (.error (.usernameTaken (compoundKey name discriminator)), r)

def lookupExact (r : UsernameRegistry) (U : Unicode) (username : String) (discriminator : UInt32) : Option Did :=
  r.localCache[compoundKey (U.toLowercase username) discriminator]?

/-- Every holder of a base name, with the discriminator. -/
def lookupAll (r : UsernameRegistry) (U : Unicode) (username : String) : List (UInt32 × Did) :=
  let pre := U.toLowercase username ++ String.singleton '#'
  r.localCache.toList.filterMap fun e =>
    if Text.HasPrefix pre e.1 then
      (Text.parseU32 (String.ofList (e.1.toList.drop pre.toList.length))).map fun disc => (disc, e.2)
    else none

def getUsername (r : UsernameRegistry) (did : Did) : Option (String × UInt32) := r.reverseCache[did]?

def getDisplayName (r : UsernameRegistry) (did : Did) : Option String :=
  (r.getUsername did).map fun p => formatUsername p.1 p.2

/-- Whatever the key held before, it is the did's now. -/
def cacheMapping (r : UsernameRegistry) (U : Unicode) (username : String) (discriminator : UInt32) (did : Did) :
    UsernameRegistry :=
  (r.evict did).insert (U.toLowercase username) discriminator did

end UsernameRegistry

/-- A call that changes the registry. -/
inductive RegistryCall
  | registerLocal (username : String) (did : Did) (draws : List UInt32)
  | registerWithDiscriminator (username : String) (discriminator : UInt32) (did : Did)
  | cacheMapping (username : String) (discriminator : UInt32) (did : Did)

namespace UsernameRegistry

/-- What the caller is told, and the registry after it. -/
def call (U : Unicode) (r : UsernameRegistry) : RegistryCall → Except IdentityError Unit × UsernameRegistry
  | .registerLocal username did draws =>
    let w := r.registerLocal U username did draws
    (w.1.map fun _ => (), w.2)
  | .registerWithDiscriminator username discriminator did => r.registerWithDiscriminator U username discriminator did
  | .cacheMapping username discriminator did => (.ok (), r.cacheMapping U username discriminator did)

/-- A name's key leads to a did just when the did leads to the name. -/
def Bijective (r : UsernameRegistry) : Prop :=
  ∀ name disc did, r.localCache[compoundKey name disc]? = some did ↔ r.reverseCache[did]? = some (name, disc)

/-- The call leaves the caches in step, and as they were when it returns an error. -/
def Atomic (U : Unicode) (r : UsernameRegistry) (c : RegistryCall) : Prop :=
  (r.call U c).2.Bijective ∧ ∀ e, (r.call U c).1 = .error e → (r.call U c).2 = r

/-- The key of the name is free, or the did's own. -/
def Available (r : UsernameRegistry) (name : String) (disc : UInt32) (did : Did) : Prop :=
  ∀ d, r.localCache[compoundKey name disc]? = some d → d = did

/-- A valid name finds an available discriminator among its draws, unless the did has no name that would go; a free
key is registered for a did without a name; a mapping is cached where it displaces nobody else. -/
def Unforced (U : Unicode) (r : UsernameRegistry) : RegistryCall → Prop
  | .registerLocal username did draws => validateUsername U username = .ok () →
      (∃ disc ∈ draws.take maxDiscriminatorAttempts, r.Available (U.toLowercase username) disc did) ∨
        r.reverseCache[did]? = none
  | .registerWithDiscriminator username discriminator did =>
      r.isFree (U.toLowercase username) discriminator = true → r.reverseCache[did]? = none
  | .cacheMapping username discriminator did => r.Available (U.toLowercase username) discriminator did

end UsernameRegistry

/-- The registry of a process, from nothing on. -/
def registrySys (U : Unicode) : StepSystem.Sys UsernameRegistry RegistryCall where
  init r := r = .new
  step r c := (r.call U c).2

end Variance
