import Variance.Spec.IdentityFile

/-! A registration and the places a name is kept in: the registry, the identity file, the P2P identity handler, and
the registry of the next process (`AppState::from_identity`). -/

namespace Variance

def IdentityFile.name (identity : IdentityFile) : Option (String × UInt32) :=
  match identity.username, identity.discriminator with
  | some username, some disc => some (username, disc)
  | _, _ => none

namespace IdentityNode
variable (C : IdentityCrypto) (U : Unicode)

/-- Our own entry. -/
def registryName (n : IdentityNode) : Option (String × UInt32) := n.registry.getUsername n.localDid

/-- The name in the file, if the file opens. -/
def fileName (n : IdentityNode) : Option (Option (String × UInt32)) :=
  match C.readIdentity n.file n.identityPassphrase with
  | .error _ => none
  | .ok identity => some identity.name

/-- What goes out with our identity. -/
def advertised (n : IdentityNode) : Option (String × UInt32) := n.localIdentity.join

/-- Our own entry in the next process, which is started with this file and these peer names. -/
def restored (n : IdentityNode) : Option (String × UInt32) :=
  match C.readIdentity n.file n.identityPassphrase with
  | .error _ => none
  | .ok identity =>
    (NameNode.start ⟨identity.did, .new, n.peerNames, identity.name, ∅, []⟩ U).registry.getUsername identity.did

/-- An error leaves every name as it was, and without one they are all the same, now and in the next process. -/
structure AllOrNothing (n : IdentityNode) (env : RegisterEnv) (username : String) : Prop where
  nothing : ∀ e, (n.registerUsername C U env username).1 = .error e →
    (n.registerUsername C U env username).2.registryName = n.registryName ∧
      (n.registerUsername C U env username).2.fileName C = n.fileName C ∧
      (n.registerUsername C U env username).2.advertised = n.advertised
  all : ∀ r, (n.registerUsername C U env username).1 = .ok r → ∃ nm,
    (n.registerUsername C U env username).2.registryName = some nm ∧
      (n.registerUsername C U env username).2.fileName C = some (some nm) ∧
      (n.registerUsername C U env username).2.advertised = some nm ∧
      (n.registerUsername C U env username).2.restored C U = some nm

end IdentityNode

/-! Where it holds -/

/-- With an Olm account, a fresh one if it had none. -/
def IdentityFile.migrated (identity : IdentityFile) (freshPickle : String) : IdentityFile :=
  if identity.olmAccountPickle = "" then { identity with olmAccountPickle := freshPickle } else identity

def IdentityFile.named (identity : IdentityFile) (username : String) (discriminator : UInt32) : IdentityFile :=
  { identity with username := some username, discriminator := some discriminator }

namespace FileEnv
variable (C : IdentityCrypto)

/-- The migration, where there is one, is written. -/
def Loads (env : FileEnv) (identity : IdentityFile) (passphrase : Option String) : Prop :=
  identity.olmAccountPickle = "" → env.migrate.Completes C (identity.migrated env.freshPickle) passphrase

/-- The identity is written with the name. -/
def Names (env : FileEnv) (identity : IdentityFile) (passphrase : Option String) (username : String)
    (discriminator : UInt32) : Prop :=
  env.Loads C identity passphrase ∧
    env.save.Completes C ((identity.migrated env.freshPickle).named username discriminator) passphrase

/-- One of the two writes is cut. -/
def Breaks (env : FileEnv) (identity : IdentityFile) (passphrase : Option String) (username : String)
    (discriminator : UInt32) : Prop :=
  identity.olmAccountPickle = "" ∧ env.migrate.Cuts C (identity.migrated env.freshPickle) passphrase ∨
    env.Loads C identity passphrase ∧
      env.save.Cuts C ((identity.migrated env.freshPickle).named username discriminator) passphrase

end FileEnv

namespace IdentityNode
variable (C : IdentityCrypto) (U : Unicode)

/-- The file has the name of the registry afterwards: it gets it, or is left with it. -/
def FileTakes (n : IdentityNode) (env : FileEnv) (username name : String) (discriminator : UInt32) : Prop :=
  ∃ identity, C.readIdentity n.file n.identityPassphrase = .ok identity ∧
    ¬ env.Breaks C identity n.identityPassphrase username discriminator ∧
    (env.Names C identity n.identityPassphrase username discriminator → username = name) ∧
    (¬ env.Names C identity n.identityPassphrase username discriminator → identity.name = some (name, discriminator))

/-- Nothing new gets to the file. -/
def FileKeeps (n : IdentityNode) (env : FileEnv) (username : String) (discriminator : UInt32) : Prop :=
  ∀ identity, C.readIdentity n.file n.identityPassphrase = .ok identity →
    ¬ env.Breaks C identity n.identityPassphrase username discriminator ∧
    (env.Names C identity n.identityPassphrase username discriminator → identity.name = some (username, discriminator))

/-- The P2P handler has the name of the registry afterwards. -/
def HandlerTakes (n : IdentityNode) (env : RegisterEnv) (username name : String) (discriminator : UInt32) : Prop :=
  if env.setUsername && n.localIdentity.isSome then username = name
  else n.advertised = some (name, discriminator)

/-- No other name is kept for the did of the file among those of the peers, and if there is none the lower case of the
name is itself. -/
def StartTakes (n : IdentityNode) (name : String) (discriminator : UInt32) : Prop :=
  ∀ identity, C.readIdentity n.file n.identityPassphrase = .ok identity →
    let entries := NameNode.loadAllPeerNames ⟨identity.did, .new, n.peerNames, identity.name, ∅, []⟩
    (∀ x ∈ entries, x.1 = identity.did → (U.toLowercase x.2.1, x.2.2) = (name, discriminator)) ∧
      ((∀ x ∈ entries, x.1 ≠ identity.did) → U.toLowercase name = name)

/-- The condition on a registration. A name for which no discriminator is found takes the old one away; one that is
found is refused by the DHT only where it changes nothing, and else is the same everywhere. -/
def Careful (n : IdentityNode) (env : RegisterEnv) (username : String) : Prop :=
  UsernameRegistry.validateUsername U username = .ok () →
    match n.registry.registerLocal U username n.localDid env.draws with
    | (.error _, _) => n.registryName = none
    | (.ok (name, discriminator), _) =>
      match env.provideUsername with
      | .error _ => n.registryName = some (name, discriminator) ∧ n.FileKeeps C env.toFileEnv username discriminator
      | .ok () => n.FileTakes C env.toFileEnv username name discriminator ∧
          n.HandlerTakes env username name discriminator ∧ n.StartTakes C U name discriminator

end IdentityNode
end Variance
