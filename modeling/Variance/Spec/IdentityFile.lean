import Variance.Lib.Run
import Variance.Spec.Signing
import Variance.Spec.NameWorld

/-! The identity file (`app/src/state.rs`, encrypted by `identity_crypto.rs`) and the two handlers that write it anew
(`api/identity.rs`): `change_passphrase` and `register_username`, the second with the other places a name is kept in. -/

namespace Variance

structure IdentityFile where
  did : Did
  signingKey : String
  verifyingKey : String
  signalingKey : String
  olmAccountPickle : String
  username : Option String
  discriminator : Option UInt32
  createdAt : String
  ipnsKey : Option String
deriving DecidableEq

def fromUtf8 (b : Bytes) : Option String := String.fromUTF8? b.toByteArray

theorem fromUtf8_iff {b : Bytes} {s : String} : fromUtf8 b = some s ↔ b = utf8Bytes s := by
  unfold fromUtf8 String.fromUTF8?
  constructor
  · intro h
    split_ifs at h
    rw [← Option.some.inj h, utf8Bytes_eq]
    show b = b.toByteArray.data.toList
    simp
  · rintro rfl
    have hb : (utf8Bytes s).toByteArray = s.toByteArray := by
      ext1
      rw [← Array.toList_inj, utf8Bytes_eq]
      simp
    rw [hb, dif_pos s.isValidUTF8]
    congr

/-- `serde_json` on an identity, Argon2id, AES-256-GCM, and what is said of bytes that are no UTF-8. -/
structure IdentityCrypto where
  toStringPretty : IdentityFile → String
  fromStr : String → Except String IdentityFile
  /-- Passphrase and salt. -/
  hashPassword : Bytes → Bytes → Except String Bytes
  /-- Key, nonce and text. -/
  gcmEncrypt : Bytes → Bytes → Bytes → Except String Bytes
  gcmDecrypt : Bytes → Bytes → Bytes → Option Bytes
  utf8Error : Bytes → String

/-- The random choices of an encryption. -/
structure SealDraw where
  salt : String
  nonce : Bytes
  salt_length : (utf8Bytes salt).length < 256
  nonce_length : nonce.length = 12

/-! Encryption -/

/-- `VEID`. -/
def magic : Bytes := [0x56, 0x45, 0x49, 0x44]

def cryptoVersion : UInt8 := 1

def isEncrypted (data : Bytes) : Bool := magic.isPrefixOf data

namespace IdentityCrypto

/-- What stands before the ciphertext. -/
def header (draw : SealDraw) : Bytes :=
  magic ++ cryptoVersion :: UInt8.ofNat (utf8Bytes draw.salt).length :: (utf8Bytes draw.salt ++ draw.nonce)

def encrypt (C : IdentityCrypto) (draw : SealDraw) (plaintext passphrase : String) : Except String Bytes :=
  match C.hashPassword (utf8Bytes passphrase) (utf8Bytes draw.salt) with
  | .error e => .error ("Argon2 KDF failed: " ++ e)
  | .ok key => match C.gcmEncrypt key draw.nonce (utf8Bytes plaintext) with
    | .error e => .error ("AES-GCM encryption failed: " ++ e)
    | .ok ciphertext => .ok (header draw ++ ciphertext)

/-- `decrypt` from the key on. -/
def decryptWith (C : IdentityCrypto) (passphrase : String) (salt nonce ciphertext : Bytes) : Except String String :=
  match fromUtf8 salt with
  | none => .error "Invalid salt encoding in encrypted file"
  | some saltStr => match C.hashPassword (utf8Bytes passphrase) (utf8Bytes saltStr) with
    | .error e => .error ("Argon2 KDF failed: " ++ e)
    | .ok key => match C.gcmDecrypt key nonce ciphertext with
      | none => .error "Decryption failed (wrong passphrase?)"
      | some plaintext => match fromUtf8 plaintext with
        | none => .error ("Decrypted data is not valid UTF-8: " ++ C.utf8Error plaintext)
        | some s => .ok s

/-- `decrypt` past the version. -/
def decryptBody (C : IdentityCrypto) (passphrase : String) : Bytes → Except String String
  | [] => .error "Truncated encrypted file (salt_len)"
  | saltLen :: rest =>
    if rest.length < saltLen.toNat then .error "Truncated encrypted file (salt)"
    else
      let afterSalt := rest.drop saltLen.toNat
      if afterSalt.length < 12 then .error "Truncated encrypted file (nonce)"
      else C.decryptWith passphrase (rest.take saltLen.toNat) (afterSalt.take 12) (afterSalt.drop 12)

def decrypt (C : IdentityCrypto) (data : Bytes) (passphrase : String) : Except String String :=
  if ¬ isEncrypted data then .error "Data is not an encrypted identity file"
  else match data.drop magic.length with
    | [] => .error "Truncated encrypted file (version byte)"
    | version :: rest =>
      if version ≠ cryptoVersion then .error ("Unsupported encrypted identity version: " ++ toString version)
      else C.decryptBody passphrase rest

end IdentityCrypto

/-! The file -/

/-- How `fs::write` ends: it may not open the file, and once it has the file is empty and takes what there is
room for. -/
inductive WriteFate
  | done
  | notOpened (e : String)
  | cutAt (n : ℕ) (e : String)

def fsWrite (fate : WriteFate) (file : Option Bytes) (bytes : Bytes) : Except String Unit × Option Bytes :=
  match fate with
  | .done => (.ok (), some bytes)
  | .notOpened e => (.error e, file)
  | .cutAt n e => if bytes.length ≤ n then (.ok (), some bytes) else (.error e, some (bytes.take n))

/-- What a save meets. -/
structure SaveEnv where
  draw : SealDraw
  fate : WriteFate

namespace IdentityCrypto
variable (C : IdentityCrypto)

/-- The bytes of `save_identity`. -/
def saveBytes (draw : SealDraw) (identity : IdentityFile) (passphrase : Option String) : Except String Bytes :=
  match passphrase with
  | some pp => (C.encrypt draw (C.toStringPretty identity) pp).mapError ("Failed to encrypt identity: " ++ ·)
  | none => .ok (utf8Bytes (C.toStringPretty identity))

def saveIdentity (env : SaveEnv) (file : Option Bytes) (identity : IdentityFile) (passphrase : Option String) :
    Except String Unit × Option Bytes :=
  match C.saveBytes env.draw identity passphrase with
  | .error e => (.error e, file)
  | .ok bytes =>
    let w := fsWrite env.fate file bytes
    (w.1.mapError ("Failed to write identity file: " ++ ·), w.2)

/-- The text of the file; a file that is not encrypted opens with any passphrase. -/
def contents (bytes : Bytes) (passphrase : Option String) : Except String String :=
  if isEncrypted bytes then
    match passphrase with
    | none => .error "Identity file is encrypted but no passphrase was provided"
    | some pp => (C.decrypt bytes pp).mapError ("Failed to decrypt identity file: " ++ ·)
  else match fromUtf8 bytes with
    | none => .error ("Identity file is not valid UTF-8: " ++ C.utf8Error bytes)
    | some s => .ok s

/-- The first part of `load_identity_with_passphrase`, up to the migration. `none` is a file that cannot be read. -/
def readIdentity (file : Option Bytes) (passphrase : Option String) : Except String IdentityFile :=
  match file with
  | none => .error "Failed to read identity file"
  | some bytes => match C.contents bytes passphrase with
    | .error e => .error e
    | .ok s => (C.fromStr s).mapError ("Failed to parse identity file: " ++ ·)

/-- An identity without an Olm account gets `freshPickle`, and is written back. -/
def loadIdentityWithPassphrase (env : SaveEnv) (freshPickle : String) (file : Option Bytes)
    (passphrase : Option String) : Except String IdentityFile × Option Bytes :=
  match C.readIdentity file passphrase with
  | .error e => (.error e, file)
  | .ok identity =>
    if identity.olmAccountPickle = "" then
      match C.saveIdentity env file { identity with olmAccountPickle := freshPickle } passphrase with
      | (.error e, file) => (.error ("Failed to write migrated identity file: " ++ e), file)
      | (.ok (), file) => (.ok { identity with olmAccountPickle := freshPickle }, file)
    else (.ok identity, file)

end IdentityCrypto

/-- What is written is read back, and nothing that is cut short; no JSON text begins with a `V`; and a text decrypts
under the passphrase that it was encrypted with, and under no other. -/
structure IdentityCrypto.Lawful (C : IdentityCrypto) : Prop where
  fromStr_toStringPretty (identity : IdentityFile) : C.fromStr (C.toStringPretty identity) = .ok identity
  json {s : String} {identity : IdentityFile} : C.fromStr s = .ok identity →
    s ≠ "" ∧ (utf8Bytes s).head? ≠ magic.head?
  json_cut {identity identity' : IdentityFile} {s : String} : utf8Bytes s <+: utf8Bytes (C.toStringPretty identity) →
    C.fromStr s = .ok identity' → s = C.toStringPretty identity
  decrypts {p q : String} {salt nonce text key key' c : Bytes} : C.hashPassword (utf8Bytes p) salt = .ok key →
    C.hashPassword (utf8Bytes q) salt = .ok key' → C.gcmEncrypt key nonce text = .ok c →
    C.gcmDecrypt key' nonce c = if p = q then some text else none
  decrypts_cut {nonce text key key' c c' : Bytes} : C.gcmEncrypt key nonce text = .ok c → c' <+: c → c' ≠ c →
    C.gcmDecrypt key' nonce c' = none

/-- The write comes to its end. -/
def WriteFate.Completes (fate : WriteFate) (bytes : Bytes) : Prop :=
  match fate with
  | .done => True
  | .notOpened _ => False
  | .cutAt n _ => bytes.length ≤ n

/-- The write opens the file and does not come to its end. -/
def WriteFate.Cuts (fate : WriteFate) (bytes : Bytes) : Prop :=
  match fate with
  | .cutAt n _ => n < bytes.length
  | _ => False

/-- The identity can be encrypted, and its write comes to its end. -/
def SaveEnv.Completes (C : IdentityCrypto) (env : SaveEnv) (identity : IdentityFile) (passphrase : Option String) :
    Prop :=
  ∃ bytes, C.saveBytes env.draw identity passphrase = .ok bytes ∧ env.fate.Completes bytes

/-- The identity can be encrypted, and its write is cut. -/
def SaveEnv.Cuts (C : IdentityCrypto) (env : SaveEnv) (identity : IdentityFile) (passphrase : Option String) : Prop :=
  ∃ bytes, C.saveBytes env.draw identity passphrase = .ok bytes ∧ env.fate.Cuts bytes

/-! The handlers -/

/-- A running node, as far as its identity file and its own name go. -/
structure IdentityNode where
  localDid : Did
  /-- The passphrase it was started with. -/
  identityPassphrase : Option String
  file : Option Bytes
  registry : UsernameRegistry
  peerNames : SledTree String
  /-- The name that the P2P handler gives with the identity, once it has one. -/
  localIdentity : Option (Option (String × UInt32))

/-- What a call meets on its way: the load, which may migrate, and the save. -/
structure FileEnv where
  freshPickle : String
  migrate : SaveEnv
  save : SaveEnv

/-- A registration needs draws too, and the P2P node; `setUsername`: its command gets there. -/
structure RegisterEnv extends FileEnv where
  draws : List UInt32
  provideUsername : Except String Unit
  setUsername : Bool

structure RegisterResponse where
  username : String
  discriminator : UInt32
  displayName : String
  did : Did
deriving DecidableEq

namespace IdentityNode
variable (C : IdentityCrypto)

def changePassphrase (n : IdentityNode) (env : FileEnv) (currentPassphrase newPassphrase : Option String) :
    Except AppError Unit × IdentityNode :=
  if currentPassphrase ≠ n.identityPassphrase then (.error (.badRequest "Current passphrase is incorrect"), n)
  else match C.loadIdentityWithPassphrase env.migrate env.freshPickle n.file n.identityPassphrase with
    | (.error e, file) => (.error (.app ("Failed to load identity: " ++ e)), { n with file })
    | (.ok identity, file) =>
      let w := C.saveIdentity env.save file identity newPassphrase
      (w.1.mapError fun e => .app ("Failed to save identity with new passphrase: " ++ e), { n with file := w.2 })

def persistUsernameToIdentity (n : IdentityNode) (env : FileEnv) (username : String) (discriminator : UInt32) :
    Except String Unit × Option Bytes :=
  match C.loadIdentityWithPassphrase env.migrate env.freshPickle n.file n.identityPassphrase with
  | (.error e, file) => (.error e, file)
  | (.ok identity, file) =>
    C.saveIdentity env.save file { identity with username := some username, discriminator := some discriminator }
      n.identityPassphrase

/-- The P2P handler's `set_local_username`: without an identity there is nothing to set. -/
def setLocalUsername (n : IdentityNode) (username : String) (discriminator : UInt32) : IdentityNode :=
  { n with localIdentity := n.localIdentity.map fun _ => some (username, discriminator) }

/-- Only the registry and the DHT make it an error; what follows them, the announcement to the peers and the document
that is published, is left out. -/
def registerUsername (U : Unicode) (n : IdentityNode) (env : RegisterEnv) (username : String) :
    Except AppError RegisterResponse × IdentityNode :=
  match UsernameRegistry.validateUsername U username with
  | .error e => (.error (.badRequest ("Invalid username: " ++ e.display)), n)
  | .ok () => match n.registry.registerLocal U username n.localDid env.draws with
    | (.error e, registry) => (.error (.app ("Failed to register username: " ++ e.display)), { n with registry })
    | (.ok (displayName, discriminator), registry) =>
      let n := { n with registry, file := (n.persistUsernameToIdentity C env.toFileEnv username discriminator).2 }
      match env.provideUsername with
      | .error e => (.error (.app ("Failed to publish username to DHT: " ++ e)), n)
      | .ok () =>
        (.ok ⟨username, discriminator, displayName, n.localDid⟩,
          if env.setUsername then n.setLocalUsername username discriminator else n)

/-- `start_node`, as far as it goes through the file: what it changes of the identity is written back, and a failure
only logged. -/
def startFile (load save : SaveEnv) (freshPickle : String) (update : IdentityFile → IdentityFile) (file : Option Bytes)
    (passphrase : Option String) : Except String IdentityFile × Option Bytes :=
  match C.loadIdentityWithPassphrase load freshPickle file passphrase with
  | (.error e, file) => (.error e, file)
  | (.ok identity, file) => (.ok (update identity), (C.saveIdentity save file (update identity) passphrase).2)

end IdentityNode

/-! Runs -/

inductive FileEvent
  | changePassphrase (env : FileEnv) (currentPassphrase newPassphrase : Option String)
  | registerUsername (env : RegisterEnv) (username : String)

/-- A running node, with the passphrase and the name that its file is to have: those of the last change that was
reported to have been made. -/
structure FileWorld where
  node : IdentityNode
  passphrase : Option String
  name : Option String × Option UInt32

namespace FileWorld
variable (C : IdentityCrypto) (U : Unicode)

def step (w : FileWorld) : FileEvent → FileWorld
  | .changePassphrase env currentPassphrase newPassphrase =>
    match w.node.changePassphrase C env currentPassphrase newPassphrase with
    | (.ok (), node) => { w with node, passphrase := newPassphrase }
    | (.error _, node) => { w with node }
  | .registerUsername env username =>
    match w.node.registerUsername C U env username with
    | (.ok r, node) => { w with node, name := (some r.username, some r.discriminator) }
    | (.error _, node) => { w with node }

/-- The call returns no error. -/
def succeeds (w : FileWorld) : FileEvent → Bool
  | .changePassphrase env currentPassphrase newPassphrase =>
    (w.node.changePassphrase C env currentPassphrase newPassphrase).1.isOk
  | .registerUsername env username => (w.node.registerUsername C U env username).1.isOk

/-- The file opens with its passphrase and no other, unless it has none, and has the name. It has an Olm account too,
so that a load changes nothing. -/
structure Coherent (w : FileWorld) : Prop where
  opens : ∃ identity, C.readIdentity w.node.file w.passphrase = .ok identity ∧ identity.olmAccountPickle ≠ "" ∧
    (identity.username, identity.discriminator) = w.name
  only : ∀ q identity, C.readIdentity w.node.file q = .ok identity → w.passphrase = none ∨ q = w.passphrase
  plain : (∃ bytes, w.node.file = some bytes ∧ isEncrypted bytes = false) ↔ w.passphrase = none

/-- The file is as it should be after the call; the passphrase is changed just when the one given is the file's and the
file can be written; and an error leaves the file as it was. -/
structure Right (w : FileWorld) (e : FileEvent) : Prop where
  coherent : (w.step C U e).Coherent C
  changes : ∀ env currentPassphrase newPassphrase identity, e = .changePassphrase env currentPassphrase newPassphrase →
    C.readIdentity w.node.file w.passphrase = .ok identity →
    (w.succeeds C U e = true ↔ currentPassphrase = w.passphrase ∧ env.save.Completes C identity newPassphrase)
  unchanged : w.succeeds C U e = false → (w.step C U e).node.file = w.node.file

/-- The passphrase that the node was started with opens the file. -/
def Opens (w : FileWorld) : Prop := w.passphrase = none ∨ w.node.identityPassphrase = w.passphrase

/-- The condition on a change of passphrase: no write is cut, and what is written is written while the file has the
passphrase that the node was started with. -/
def CarefulChange (w : FileWorld) (env : SaveEnv) (identity : IdentityFile)
    (currentPassphrase newPassphrase : Option String) : Prop :=
  (currentPassphrase = w.node.identityPassphrase → w.Opens → ¬ env.Cuts C identity newPassphrase) ∧
    (currentPassphrase = w.passphrase ∨ currentPassphrase = w.node.identityPassphrase ∧ w.Opens →
      env.Completes C identity newPassphrase → w.node.identityPassphrase = w.passphrase)

/-- The condition on a name that the registry has taken: no write is cut; if the DHT takes it, it is written to a file
that has the passphrase that the node was started with, or is there already; and if not, nothing new is written. -/
def CarefulName (w : FileWorld) (env : RegisterEnv) (identity : IdentityFile) (username : String)
    (discriminator : UInt32) : Prop :=
  let named := { identity with username := some username, discriminator := some discriminator }
  (w.Opens → ¬ env.save.Cuts C named w.node.identityPassphrase) ∧
    match env.provideUsername with
    | .ok () =>
      w.node.identityPassphrase = w.passphrase ∧ env.save.Completes C named w.node.identityPassphrase ∨
        ¬ (w.Opens ∧ env.save.Completes C named w.node.identityPassphrase) ∧
          w.name = (some username, some discriminator)
    | .error _ => w.Opens → ∀ bytes, C.saveBytes env.save.draw named w.node.identityPassphrase = .ok bytes →
        env.save.fate.Completes bytes → w.node.file = some bytes

def Careful (w : FileWorld) (e : FileEvent) : Prop :=
  ∀ identity, C.readIdentity w.node.file w.passphrase = .ok identity →
    match e with
    | .changePassphrase env currentPassphrase newPassphrase =>
      w.CarefulChange C env.save identity currentPassphrase newPassphrase
    | .registerUsername env username => ∀ name discriminator registry,
      w.node.registry.registerLocal U username w.node.localDid env.draws = (.ok (name, discriminator), registry) →
        w.CarefulName C env identity username discriminator

end FileWorld

/-- From a running node on, whose file has been left whole by its start. -/
def fileSys (C : IdentityCrypto) (U : Unicode) : StepSystem.Sys FileWorld FileEvent where
  init w := w.Coherent C
  step := FileWorld.step C U

end Variance
