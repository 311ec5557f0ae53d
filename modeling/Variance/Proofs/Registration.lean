import Variance.Proofs.IdentityFile
import Variance.Spec.Registration

/-! A registration changes four places one after the other. It is all or nothing just when nothing fails that comes
after a change, and the name is in lower case to begin with. -/

namespace Variance

open IdentityCrypto

/-! The registry -/

namespace UsernameRegistry
variable {r : UsernameRegistry} {U : Unicode} {name : String} {disc : UInt32} {did d : Did}

theorem getUsername_cacheMapping : (r.cacheMapping U name disc did).getUsername d =
    if d = did then some (U.toLowercase name, disc) else r.getUsername d := by
  have hname : (r.cacheMapping U name disc did).dir.name =
      Function.update r.dir.name did (some (U.toLowercase name, disc)) := by
    rw [dir_cacheMapping]
    exact Directory.load_name
  have h := congrFun hname d
  rw [Function.update_apply] at h
  exact h

/-- What is loaded for a did is what it is called. -/
theorem foldl_cacheMapping {nm : String × UInt32} (l : List (Did × String × UInt32)) (r : UsernameRegistry)
    (h : ∀ x ∈ l, x.1 = d → (U.toLowercase x.2.1, x.2.2) = nm) :
    (l.foldl (fun r x => r.cacheMapping U x.2.1 x.2.2 x.1) r).getUsername d = some nm ∨
      (∀ x ∈ l, x.1 ≠ d) ∧ (l.foldl (fun r x => r.cacheMapping U x.2.1 x.2.2 x.1) r).getUsername d = r.getUsername d := by
  induction l generalizing r with
  | nil => exact Or.inr ⟨by simp, rfl⟩
  | cons x l ih =>
    rw [List.foldl_cons]
    rcases ih (r.cacheMapping U x.2.1 x.2.2 x.1) (fun y hy => h y (List.mem_cons_of_mem _ hy)) with hnm | ⟨hnone, hsame⟩
    · exact Or.inl hnm
    · rw [hsame, getUsername_cacheMapping]
      by_cases hx : d = x.1
      · rw [if_pos hx, h x List.mem_cons_self hx.symm]
        exact Or.inl rfl
      · rw [if_neg hx]
        exact Or.inr ⟨List.forall_mem_cons.2 ⟨Ne.symm hx, hnone⟩, rfl⟩

end UsernameRegistry

/-! The file -/

namespace FileEnv
variable {C : IdentityCrypto} {env : FileEnv} {identity : IdentityFile} {file : Option Bytes}
  {passphrase : Option String} {username : String} {disc : UInt32}

theorem name_migrated (fresh : String) : (identity.migrated fresh).name = identity.name := by
  unfold IdentityFile.migrated
  split_ifs <;> rfl

theorem did_migrated (fresh : String) : (identity.migrated fresh).did = identity.did := by
  unfold IdentityFile.migrated
  split_ifs <;> rfl

theorem reads_of_saved (file : Option Bytes) (hC : C.Lawful) {env : SaveEnv} (h : env.Completes C identity passphrase) :
    ∃ bytes, C.saveIdentity env file identity passphrase = (.ok (), some bytes) ∧
      C.readIdentity (some bytes) passphrase = .ok identity := by
  obtain ⟨bytes, hb, hsave⟩ := saveIdentity_completes file h
  exact ⟨bytes, hsave, (sealed_of_saveBytes hC hb).opens⟩

theorem unread_of_cut (file : Option Bytes) (hC : C.Lawful) {env : SaveEnv} (h : env.Cuts C identity passphrase) :
    ∃ e bytes, C.saveIdentity env file identity passphrase = (.error e, some bytes) ∧
      ∀ identity', C.readIdentity (some bytes) passphrase ≠ .ok identity' := by
  obtain ⟨bytes, n, e, hb, hn, hsave⟩ := saveIdentity_cuts file h
  exact ⟨e, _, hsave, fun identity' => saveBytes_cut hC hb hn passphrase⟩

/-- A load that writes nothing, or all that it writes. -/
theorem load_ok (hC : C.Lawful) (h : C.readIdentity file passphrase = .ok identity)
    (hl : env.Loads C identity passphrase) : ∃ file',
      C.loadIdentityWithPassphrase env.migrate env.freshPickle file passphrase =
        (.ok (identity.migrated env.freshPickle), file') ∧
      C.readIdentity file' passphrase = .ok (identity.migrated env.freshPickle) := by
  by_cases hp : identity.olmAccountPickle = ""
  · obtain ⟨bytes, hsave, hread⟩ := reads_of_saved file hC (hl hp)
    have hm : identity.migrated env.freshPickle = { identity with olmAccountPickle := env.freshPickle } := if_pos hp
    rw [hm] at hsave hread ⊢
    refine ⟨some bytes, ?_, hread⟩
    unfold loadIdentityWithPassphrase
    rw [h]
    dsimp only
    rw [if_pos hp, hsave]
  · have hm : identity.migrated env.freshPickle = identity := if_neg hp
    rw [hm]
    exact ⟨file, load_of_read h hp, h⟩

theorem load_failed (h : C.readIdentity file passphrase = .ok identity) (hp : identity.olmAccountPickle = "")
    {e : String} {file' : Option Bytes}
    (hsave : C.saveIdentity env.migrate file (identity.migrated env.freshPickle) passphrase = (.error e, file')) :
    ∃ e', C.loadIdentityWithPassphrase env.migrate env.freshPickle file passphrase = (.error e', file') := by
  have hm : identity.migrated env.freshPickle = { identity with olmAccountPickle := env.freshPickle } := if_pos hp
  rw [hm] at hsave
  unfold loadIdentityWithPassphrase
  rw [h]
  dsimp only
  rw [if_pos hp, hsave]
  exact ⟨_, rfl⟩

end FileEnv

namespace IdentityNode
variable {C : IdentityCrypto} {U : Unicode} {n : IdentityNode} {env : RegisterEnv} {identity : IdentityFile}
  {username name : String} {disc : UInt32} {registry : UsernameRegistry}

/-- The file after a name was written to it, or not. -/
def named (C : IdentityCrypto) (n : IdentityNode) (env : FileEnv) (username : String) (disc : UInt32) : Option Bytes :=
  (n.persistUsernameToIdentity C env username disc).2

theorem named_of_load {env : FileEnv} {file' : Option Bytes}
    (h : C.loadIdentityWithPassphrase env.migrate env.freshPickle n.file n.identityPassphrase = (.ok identity, file')) :
    n.named C env username disc =
      (C.saveIdentity env.save file' (identity.named username disc) n.identityPassphrase).2 := by
  unfold named persistUsernameToIdentity
  rw [h]
  rfl

theorem named_of_failed {env : FileEnv} {file' : Option Bytes} {e : String}
    (h : C.loadIdentityWithPassphrase env.migrate env.freshPickle n.file n.identityPassphrase = (.error e, file')) :
    n.named C env username disc = file' := by
  unfold named persistUsernameToIdentity
  rw [h]

theorem named_of_names (hC : C.Lawful) {env : FileEnv}
    (hr : C.readIdentity n.file n.identityPassphrase = .ok identity)
    (h : env.Names C identity n.identityPassphrase username disc) :
    C.readIdentity (n.named C env username disc) n.identityPassphrase =
      .ok ((identity.migrated env.freshPickle).named username disc) := by
  obtain ⟨file', hload, -⟩ := FileEnv.load_ok hC hr h.1
  obtain ⟨bytes, hsave, hread⟩ := FileEnv.reads_of_saved file' hC h.2
  rw [named_of_load hload, hsave]
  exact hread

theorem named_of_breaks (hC : C.Lawful) {env : FileEnv}
    (hr : C.readIdentity n.file n.identityPassphrase = .ok identity)
    (h : env.Breaks C identity n.identityPassphrase username disc) (identity' : IdentityFile) :
    C.readIdentity (n.named C env username disc) n.identityPassphrase ≠ .ok identity' := by
  rcases h with ⟨hp, hcut⟩ | ⟨hl, hcut⟩
  · obtain ⟨e, bytes, hsave, hread⟩ := FileEnv.unread_of_cut n.file hC hcut
    obtain ⟨e', hload⟩ := FileEnv.load_failed hr hp hsave
    rw [named_of_failed hload]
    exact hread identity'
  · obtain ⟨file', hload, -⟩ := FileEnv.load_ok hC hr hl
    obtain ⟨e, bytes, hsave, hread⟩ := FileEnv.unread_of_cut file' hC hcut
    rw [named_of_load hload, hsave]
    exact hread identity'

/-- Otherwise it is as it was, up to the Olm account. -/
theorem named_of_kept (hC : C.Lawful) {env : FileEnv}
    (hr : C.readIdentity n.file n.identityPassphrase = .ok identity)
    (hn : ¬ env.Names C identity n.identityPassphrase username disc)
    (hb : ¬ env.Breaks C identity n.identityPassphrase username disc) : ∃ identity',
      C.readIdentity (n.named C env username disc) n.identityPassphrase = .ok identity' ∧
        identity'.name = identity.name ∧ identity'.did = identity.did := by
  by_cases hl : env.Loads C identity n.identityPassphrase
  · obtain ⟨file', hload, hread⟩ := FileEnv.load_ok hC hr hl
    obtain ⟨e, hsave⟩ := saveIdentity_refused file' (fun hd => hn ⟨hl, hd⟩) fun hc => hb (Or.inr ⟨hl, hc⟩)
    rw [named_of_load hload, hsave]
    exact ⟨_, hread, FileEnv.name_migrated _, FileEnv.did_migrated _⟩
  · obtain ⟨hp, hd⟩ := Classical.not_imp.1 hl
    obtain ⟨e, hsave⟩ := saveIdentity_refused n.file hd fun hc => hb (Or.inl ⟨hp, hc⟩)
    obtain ⟨e', hload⟩ := FileEnv.load_failed hr hp hsave
    rw [named_of_failed hload]
    exact ⟨identity, hr, rfl, rfl⟩

theorem fileName_of_read (h : C.readIdentity n.file n.identityPassphrase = .ok identity) :
    n.fileName C = some identity.name := by
  unfold fileName
  rw [h]

theorem fileName_of_error {e : String} (h : C.readIdentity n.file n.identityPassphrase = .error e) :
    n.fileName C = none := by
  unfold fileName
  rw [h]

/-- What can be read of a file that could be read is its old name or the new one, under its did. -/
theorem named_cases (hC : C.Lawful) {env : FileEnv} {n' : IdentityNode}
    (hf : n'.file = n.named C env username disc) (hp : n'.identityPassphrase = n.identityPassphrase)
    (hr : C.readIdentity n.file n.identityPassphrase = .ok identity) :
    env.Breaks C identity n.identityPassphrase username disc ∧ n'.fileName C = none ∨
      ¬ env.Breaks C identity n.identityPassphrase username disc ∧ ∃ identity',
        C.readIdentity n'.file n'.identityPassphrase = .ok identity' ∧ identity'.did = identity.did ∧
        (env.Names C identity n.identityPassphrase username disc ∧ identity'.name = some (username, disc) ∨
          ¬ env.Names C identity n.identityPassphrase username disc ∧ identity'.name = identity.name) := by
  rw [hf, hp]
  by_cases hb : env.Breaks C identity n.identityPassphrase username disc
  · refine Or.inl ⟨hb, ?_⟩
    cases hr' : C.readIdentity n'.file n'.identityPassphrase with
    | error e => exact fileName_of_error hr'
    | ok identity' =>
      rw [hf, hp] at hr'
      exact (named_of_breaks hC hr hb identity' hr').elim
  · refine Or.inr ⟨hb, ?_⟩
    by_cases hn : env.Names C identity n.identityPassphrase username disc
    · exact ⟨_, named_of_names hC hr hn, FileEnv.did_migrated _, Or.inl ⟨hn, rfl⟩⟩
    · obtain ⟨identity', hread, hname, hdid⟩ := named_of_kept hC hr hn hb
      exact ⟨identity', hread, hdid, Or.inr ⟨hn, hname⟩⟩

/-- The name in the file does not change just when nothing new gets there. -/
theorem fileKeeps_iff (hC : C.Lawful) {env : FileEnv} {n' : IdentityNode}
    (hf : n'.file = n.named C env username disc) (hp : n'.identityPassphrase = n.identityPassphrase) :
    n'.fileName C = n.fileName C ↔ n.FileKeeps C env username disc := by
  cases hr : C.readIdentity n.file n.identityPassphrase with
  | error e =>
    have hsame : C.readIdentity n'.file n'.identityPassphrase = .error e := by
      rw [hf, hp, named_of_failed (load_error hr), hr]
    rw [fileName_of_error hsame, fileName_of_error hr]
    refine iff_of_true rfl fun identity hr' => ?_
    rw [hr] at hr'
    cases hr'
  | ok identity =>
    have hkeeps : n.FileKeeps C env username disc ↔ ¬ env.Breaks C identity n.identityPassphrase username disc ∧
        (env.Names C identity n.identityPassphrase username disc → identity.name = some (username, disc)) := by
      refine ⟨fun h => h identity hr, fun h identity' hr' => ?_⟩
      obtain rfl := Except.ok.inj (hr.symm.trans hr')
      exact h
    rw [hkeeps, fileName_of_read hr]
    rcases named_cases hC hf hp hr with ⟨hb, hnone⟩ | ⟨hb, identity', hread, -, ⟨hn, hname⟩ | ⟨hn, hname⟩⟩
    · rw [hnone]
      exact iff_of_false (fun h => by cases h) fun h => h.1 hb
    · rw [fileName_of_read hread, hname, Option.some_inj]
      exact ⟨fun h => ⟨hb, fun _ => h.symm⟩, fun h => (h.2 hn).symm⟩
    · rw [fileName_of_read hread, hname]
      exact iff_of_true rfl ⟨hb, fun h => (hn h).elim⟩

/-- The file has the name afterwards just when it takes it. -/
theorem fileTakes_iff (hC : C.Lawful) {env : FileEnv} {n' : IdentityNode}
    (hf : n'.file = n.named C env username disc) (hp : n'.identityPassphrase = n.identityPassphrase) :
    n'.fileName C = some (some (name, disc)) ↔ n.FileTakes C env username name disc := by
  cases hr : C.readIdentity n.file n.identityPassphrase with
  | error e =>
    have hsame : C.readIdentity n'.file n'.identityPassphrase = .error e := by
      rw [hf, hp, named_of_failed (load_error hr), hr]
    rw [fileName_of_error hsame]
    refine iff_of_false (fun h => by cases h) fun ⟨identity, hr', _⟩ => ?_
    rw [hr] at hr'
    cases hr'
  | ok identity =>
    have htakes : n.FileTakes C env username name disc ↔
        ¬ env.Breaks C identity n.identityPassphrase username disc ∧
        (env.Names C identity n.identityPassphrase username disc → username = name) ∧
        (¬ env.Names C identity n.identityPassphrase username disc → identity.name = some (name, disc)) := by
      refine ⟨fun ⟨identity', hr', h⟩ => ?_, fun h => ⟨identity, hr, h⟩⟩
      obtain rfl := Except.ok.inj (hr.symm.trans hr')
      exact h
    rw [htakes]
    rcases named_cases hC hf hp hr with ⟨hb, hnone⟩ | ⟨hb, identity', hread, -, ⟨hn, hname⟩ | ⟨hn, hname⟩⟩
    · rw [hnone]
      exact iff_of_false (fun h => by cases h) fun h => h.1 hb
    · rw [fileName_of_read hread, hname]
      constructor
      · intro h
        cases h
        exact ⟨hb, fun _ => rfl, fun h => (h hn).elim⟩
      · intro h
        rw [h.2.1 hn]
    · rw [fileName_of_read hread, hname, Option.some_inj]
      exact ⟨fun h => ⟨hb, fun h => (hn h).elim, fun _ => h⟩, fun h => h.2.2 hn⟩

/-! The next process -/

/-- What is loaded for our own did is the name of the file, or the one that is kept for it among the peers'. -/
theorem restored_iff (hr : C.readIdentity n.file n.identityPassphrase = .ok identity)
    (hn : identity.name = some (name, disc)) :
    n.restored C U = some (name, disc) ↔ n.StartTakes C U name disc := by
  let start : NameNode := ⟨identity.did, .new, n.peerNames, identity.name, ∅, []⟩
  let own := (UsernameRegistry.new.registerWithDiscriminator U name disc identity.did).2
  have hown : own.getUsername identity.did = some (U.toLowercase name, disc) := by
    unfold own UsernameRegistry.registerWithDiscriminator
    dsimp only
    rw [if_pos (by simp [UsernameRegistry.isFree, UsernameRegistry.new]), UsernameRegistry.getUsername_insert]
  have hrestored : n.restored C U = (start.loadAllPeerNames.foldl (fun r x => r.cacheMapping U x.2.1 x.2.2 x.1)
      own).getUsername identity.did := by
    unfold restored NameNode.start
    rw [hr]
    dsimp only
    rw [hn]
    rfl
  have htakes : n.StartTakes C U name disc ↔
      (∀ x ∈ start.loadAllPeerNames, x.1 = identity.did → (U.toLowercase x.2.1, x.2.2) = (name, disc)) ∧
      ((∀ x ∈ start.loadAllPeerNames, x.1 ≠ identity.did) → U.toLowercase name = name) := by
    refine ⟨fun h => h identity hr, fun h identity' hr' => ?_⟩
    obtain rfl := Except.ok.inj (hr.symm.trans hr')
    exact h
  rw [hrestored, htakes]
  constructor
  · intro h
    constructor
    · intro x hx hxd
      have hsame : ∀ y ∈ start.loadAllPeerNames, y.1 = identity.did →
          (U.toLowercase y.2.1, y.2.2) = (U.toLowercase x.2.1, x.2.2) := by
        intro y hy hyd
        have hpx := NameNode.mem_loadAllPeerNames.1 hx
        have hpy := NameNode.mem_loadAllPeerNames.1 hy
        rw [hxd] at hpx
        rw [hyd] at hpy
        rw [Option.some.inj (hpy.symm.trans hpx)]
      rcases UsernameRegistry.foldl_cacheMapping _ own hsame with hnm | ⟨hnone, -⟩
      · exact Option.some.inj (hnm.symm.trans h)
      · exact (hnone x hx hxd).elim
    · intro hnone
      have hsame : ∀ y ∈ start.loadAllPeerNames, y.1 = identity.did →
          (U.toLowercase y.2.1, y.2.2) = (U.toLowercase name, disc) := fun y hy hyd => (hnone y hy hyd).elim
      rcases UsernameRegistry.foldl_cacheMapping _ own hsame with hnm | ⟨-, hsame⟩
      · exact congrArg Prod.fst (Option.some.inj (hnm.symm.trans h))
      · rw [hsame, hown] at h
        exact congrArg Prod.fst (Option.some.inj h)
  · rintro ⟨hall, hlower⟩
    rcases UsernameRegistry.foldl_cacheMapping _ own hall with hnm | ⟨hnone, hsame⟩
    · exact hnm
    · rw [hsame, hown, hlower hnone]

/-- Writing a name does not change whose file it is. -/
theorem startTakes_named (hC : C.Lawful) {env : FileEnv} {n' : IdentityNode} {nm : Option (String × UInt32)}
    (hf : n'.file = n.named C env username disc) (hp : n'.identityPassphrase = n.identityPassphrase)
    (hpeers : n'.peerNames = n.peerNames) (h : n'.fileName C = some nm) :
    n'.StartTakes C U name disc ↔ n.StartTakes C U name disc := by
  cases hr : C.readIdentity n.file n.identityPassphrase with
  | error e =>
    have hsame : C.readIdentity n'.file n'.identityPassphrase = .error e := by
      rw [hf, hp, named_of_failed (load_error hr), hr]
    rw [fileName_of_error hsame] at h
    cases h
  | ok identity =>
    rcases named_cases hC hf hp hr with ⟨-, hnone⟩ | ⟨-, identity', hr', hdid, -⟩
    · rw [hnone] at h
      cases h
    · unfold StartTakes NameNode.loadAllPeerNames
      simp only [hr, hr', hpeers, Except.ok.injEq, forall_eq', hdid]

/-! The registration -/

theorem registerUsername_refused {e : IdentityError}
    (h : n.registry.registerLocal U username n.localDid env.draws = (.error e, registry)) :
    ∃ e', n.registerUsername C U env username = (.error e', { n with registry }) := by
  unfold registerUsername
  cases hv : UsernameRegistry.validateUsername U username with
  | error e' =>
    rw [UsernameRegistry.registerLocal_invalid _ hv] at h
    cases h
    exact ⟨_, rfl⟩
  | ok u =>
    dsimp only
    rw [h]
    exact ⟨_, rfl⟩

theorem registerUsername_unpublished {e : String}
    (h : n.registry.registerLocal U username n.localDid env.draws = (.ok (name, disc), registry))
    (hp : env.provideUsername = .error e) : ∃ e', n.registerUsername C U env username =
      (.error e', { n with registry, file := n.named C env.toFileEnv username disc }) := by
  unfold registerUsername
  rw [(UsernameRegistry.registerLocal_ok h).1]
  dsimp only
  rw [h]
  dsimp only
  rw [hp]
  exact ⟨_, rfl⟩

theorem registerUsername_published
    (h : n.registry.registerLocal U username n.localDid env.draws = (.ok (name, disc), registry))
    (hp : env.provideUsername = .ok ()) : n.registerUsername C U env username =
      (.ok ⟨username, disc, name, n.localDid⟩,
        { n with
          registry
          file := n.named C env.toFileEnv username disc
          localIdentity := if env.setUsername then n.localIdentity.map fun _ => some (username, disc)
            else n.localIdentity }) := by
  unfold registerUsername
  rw [(UsernameRegistry.registerLocal_ok h).1]
  dsimp only
  rw [h]
  dsimp only
  rw [hp]
  dsimp only
  split_ifs <;> rfl

theorem handlerTakes_iff :
    (if env.setUsername then n.localIdentity.map fun _ => some (username, disc) else n.localIdentity).join =
      some (name, disc) ↔ n.HandlerTakes env username name disc := by
  unfold HandlerTakes advertised
  cases env.setUsername <;> cases n.localIdentity <;> simp

/-- A registration is all or nothing just when the name is in lower case and gets everywhere, or nothing is changed
before the error. -/
theorem allOrNothing_iff (hC : C.Lawful) : n.AllOrNothing C U env username ↔ n.Careful C U env username := by
  cases hreg : n.registry.registerLocal U username n.localDid env.draws with
  | mk result registry =>
  cases result with
  | error e =>
    obtain ⟨e', hcall⟩ := registerUsername_refused (C := C) hreg
    have hkept : n.AllOrNothing C U env username ↔ registry.getUsername n.localDid = n.registryName := by
      constructor
      · intro h
        have hnames := (h.nothing e' (by rw [hcall])).1
        rw [hcall] at hnames
        exact hnames
      · intro h
        refine ⟨fun _ _ => ?_, fun r hr => ?_⟩
        · rw [hcall]
          exact ⟨h, rfl, rfl⟩
        · rw [hcall] at hr
          cases hr
    rw [hkept]
    unfold Careful
    rw [hreg]
    dsimp only
    constructor
    · intro h hv
      rw [← h]
      exact UsernameRegistry.registerLocal_error hv hreg
    · intro h
      cases hv : UsernameRegistry.validateUsername U username with
      | error e'' =>
        rw [UsernameRegistry.registerLocal_invalid _ hv] at hreg
        cases hreg
        rfl
      | ok u => rw [h hv, UsernameRegistry.registerLocal_error hv hreg]
  | ok taken =>
    obtain ⟨name, disc⟩ := taken
    obtain ⟨hv, hlower, hname⟩ := UsernameRegistry.registerLocal_ok hreg
    unfold Careful
    rw [hreg]
    dsimp only
    rw [imp_iff_right hv]
    cases hp : env.provideUsername with
    | error e =>
      obtain ⟨e', hcall⟩ := registerUsername_unpublished (C := C) hreg hp
      set n' : IdentityNode := { n with registry, file := n.named C env.toFileEnv username disc }
      have hfile : n'.fileName C = n.fileName C ↔ n.FileKeeps C env.toFileEnv username disc := fileKeeps_iff hC rfl rfl
      rw [← hfile, ← hname]
      constructor
      · intro h
        obtain ⟨hreg', hfile', -⟩ := h.nothing e' (by rw [hcall])
        rw [hcall] at hreg' hfile'
        exact ⟨hreg'.symm, hfile'⟩
      · rintro ⟨hreg', hfile'⟩
        refine ⟨fun _ _ => ?_, fun r hr => ?_⟩
        · rw [hcall]
          exact ⟨hreg'.symm, hfile', rfl⟩
        · rw [hcall] at hr
          cases hr
    | ok u =>
      have hcall := registerUsername_published (C := C) hreg hp
      set n' : IdentityNode :=
        { n with
          registry
          file := n.named C env.toFileEnv username disc
          localIdentity := if env.setUsername then n.localIdentity.map fun _ => some (username, disc)
            else n.localIdentity }
      have hfile : n'.fileName C = some (some (name, disc)) ↔ n.FileTakes C env.toFileEnv username name disc :=
        fileTakes_iff hC rfl rfl
      have hset : n'.advertised = some (name, disc) ↔ n.HandlerTakes env username name disc := handlerTakes_iff
      have hreg' : n'.registryName = some (name, disc) := hname
      have hstart (h : n'.fileName C = some (some (name, disc))) :
          n'.restored C U = some (name, disc) ↔ n.StartTakes C U name disc := by
        have hnamed : n'.StartTakes C U name disc ↔ n.StartTakes C U name disc := startTakes_named hC rfl rfl rfl h
        rw [← hnamed]
        cases hr : C.readIdentity n'.file n'.identityPassphrase with
        | error e =>
          rw [fileName_of_error hr] at h
          cases h
        | ok identity =>
          rw [fileName_of_read hr, Option.some_inj] at h
          exact restored_iff hr h
      rw [← hfile, ← hset]
      constructor
      · intro h
        obtain ⟨nm, hr, hf, ha, hs⟩ := h.all _ (by rw [hcall])
        rw [hcall] at hr hf ha hs
        obtain rfl := Option.some.inj (hreg'.symm.trans hr)
        exact ⟨hf, ha, (hstart hf).1 hs⟩
      · rintro ⟨hf, ha, hs⟩
        refine ⟨fun e he => ?_, fun r _ => ⟨(name, disc), ?_⟩⟩
        · rw [hcall] at he
          cases he
        · rw [hcall]
          exact ⟨hreg', hf, ha, (hstart hf).2 hs⟩

end IdentityNode

namespace Registration
open IdentityFiles

def node : IdentityNode := ⟨"did:a", some "old", some oldFile, .new, ∅, some none⟩

/-- Nothing fails, and the file has another name than the registry; the DHT fails, and the registry has a name that was
not registered. -/
theorem cases_apart : ¬ node.AllOrNothing idealCrypto idealUnicode renv "Alice" ∧
    ¬ node.AllOrNothing idealCrypto idealUnicode { renv with provideUsername := .error "" } "alice" := by
  refine ⟨fun h => ?_, fun h => ?_⟩
  · have hok : ∃ r, (node.registerUsername idealCrypto idealUnicode renv "Alice").1 = .ok r :=
      ⟨⟨"Alice", 7, "alice", "did:a"⟩, by decide +kernel⟩
    obtain ⟨r, hr⟩ := hok
    obtain ⟨nm, hreg, -, hset, -⟩ := h.all r hr
    have hreg' : (node.registerUsername idealCrypto idealUnicode renv "Alice").2.registryName = some ("alice", 7) := by
      decide +kernel
    have hset' : (node.registerUsername idealCrypto idealUnicode renv "Alice").2.advertised = some ("Alice", 7) := by
      decide +kernel
    rw [Option.some.inj (hreg.symm.trans hreg')] at hset
    exact absurd (hset.symm.trans hset') (by decide)
  · have hreg := (h.nothing (.app "Failed to publish username to DHT: ") (by decide +kernel)).1
    exact absurd hreg (by decide +kernel)

theorem opens : idealCrypto.readIdentity node.file node.identityPassphrase = .ok identity := by
  decide +kernel

theorem name_everywhere : node.AllOrNothing idealCrypto idealUnicode renv "alice" := by
  refine (IdentityNode.allOrNothing_iff idealCrypto_lawful).2 fun _ => ?_
  have hnames : renv.Names idealCrypto identity (some "old") "alice" 7 :=
    ⟨fun _ => ⟨_, rfl, trivial⟩, ⟨_, rfl, trivial⟩⟩
  refine ⟨⟨identity, opens, ?_, fun _ => ?_, fun hn => (hn hnames).elim⟩, ?_, fun i _ => ⟨fun x hx => ?_, fun _ => ?_⟩⟩
  · rintro (⟨-, _, -, hcut⟩ | ⟨-, _, -, hcut⟩)
    · exact hcut
    · exact hcut
  · decide +kernel
  · unfold IdentityNode.HandlerTakes
    decide +kernel
  · rw [NameNode.mem_loadAllPeerNames] at hx
    simp [NameNode.peerName, node] at hx
  · decide +kernel

end Registration
end Variance
