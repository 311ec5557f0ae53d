import Variance.Proofs.RegistryBijection
import Variance.Sanity.IdealCrypto

/-! A running node keeps the passphrase it was started with. Its identity file stays as it should be just while it is
written under that passphrase, no write is cut, and what is reported has been written. -/

namespace Variance
namespace FileWorld
variable {C : IdentityCrypto} {U : Unicode} {w w' : FileWorld} {identity : IdentityFile} {bytes : Bytes}

open IdentityCrypto

/-! What the file is -/

theorem Coherent.congr (h : w.Coherent C) (hf : w'.node.file = w.node.file) (hp : w'.passphrase = w.passphrase)
    (hn : w'.name = w.name) : w'.Coherent C := by
  refine ⟨?_, ?_, ?_⟩
  · rw [hf, hp, hn]; exact h.opens
  · rw [hf, hp]; exact h.only
  · rw [hf, hp]; exact h.plain

theorem Coherent.account (h : w.Coherent C) (hr : C.readIdentity w.node.file w.passphrase = .ok identity) :
    identity.olmAccountPickle ≠ "" ∧ (identity.username, identity.discriminator) = w.name := by
  obtain ⟨identity', hr', hp, hn⟩ := h.opens
  obtain rfl := Except.ok.inj (hr'.symm.trans hr)
  exact ⟨hp, hn⟩

/-- The passphrase of the start opens the file where it can. -/
theorem Coherent.read_start (h : w.Coherent C) (ho : w.Opens)
    (hr : C.readIdentity w.node.file w.passphrase = .ok identity) :
    C.readIdentity w.node.file w.node.identityPassphrase = .ok identity := by
  rcases ho with hnone | hsame
  · obtain ⟨bytes, hfile, hplain⟩ := h.plain.2 hnone
    rw [hfile] at hr ⊢
    rw [← hr]
    exact readIdentity_plain hplain _ _
  · rw [hsame]
    exact hr

theorem Coherent.read_closed (h : w.Coherent C) (ho : ¬ w.Opens) :
    ∃ e, C.readIdentity w.node.file w.node.identityPassphrase = .error e := by
  cases hr : C.readIdentity w.node.file w.node.identityPassphrase with
  | error e => exact ⟨e, rfl⟩
  | ok identity => exact (ho (h.only _ _ hr)).elim

theorem coherent_saved (hC : C.Lawful) {draw : SealDraw}
    (hb : C.saveBytes draw identity w.passphrase = .ok bytes) (hf : w.node.file = some bytes)
    (hp : identity.olmAccountPickle ≠ "") (hn : (identity.username, identity.discriminator) = w.name) :
    w.Coherent C := by
  have hs := sealed_of_saveBytes hC hb
  refine ⟨?_, ?_, ?_⟩
  · rw [hf]
    exact ⟨identity, hs.opens, hp, hn⟩
  · rw [hf]
    exact fun q identity' hq => hs.only hq
  · rw [hf, ← hs.plain]
    exact ⟨fun ⟨_, he, hplain⟩ => Option.some.inj he ▸ hplain, fun hplain => ⟨bytes, rfl, hplain⟩⟩

theorem not_coherent_cut (hC : C.Lawful) {draw : SealDraw} {passphrase : Option String} {n : ℕ}
    (hb : C.saveBytes draw identity passphrase = .ok bytes) (hn : n < bytes.length)
    (hf : w.node.file = some (bytes.take n)) : ¬ w.Coherent C := by
  intro h
  obtain ⟨identity', hr, -⟩ := h.opens
  rw [hf] at hr
  exact saveBytes_cut hC hb hn _ hr

/-- What was saved under one passphrase has no other. -/
theorem Coherent.saved_under (h : w.Coherent C) (hC : C.Lawful) {draw : SealDraw} {passphrase : Option String}
    (hb : C.saveBytes draw identity passphrase = .ok bytes) (hf : w.node.file = some bytes) :
    passphrase = w.passphrase := by
  have hs := sealed_of_saveBytes hC hb
  have hplain := h.plain
  rw [hf] at hplain
  obtain ⟨identity', hr, -⟩ := h.opens
  rw [hf] at hr
  rcases hs.only hr with hnone | hsame
  · rw [hnone]
    exact (hplain.1 ⟨bytes, rfl, hs.plain.2 hnone⟩).symm
  · exact hsame.symm

/-! Changing the passphrase -/

variable {env : FileEnv} {currentPassphrase newPassphrase : Option String}

theorem changePassphrase_refused (env : FileEnv) (newPassphrase : Option String) (h : w.Coherent C)
    (hc : ¬ (currentPassphrase = w.node.identityPassphrase ∧ w.Opens)) :
    ∃ e, w.node.changePassphrase C env currentPassphrase newPassphrase = (.error e, w.node) := by
  unfold IdentityNode.changePassphrase
  by_cases hcur : currentPassphrase = w.node.identityPassphrase
  · obtain ⟨e, he⟩ := h.read_closed fun ho => hc ⟨hcur, ho⟩
    rw [if_neg (not_not.2 hcur), load_error he]
    exact ⟨_, rfl⟩
  · rw [if_pos hcur]
    exact ⟨_, rfl⟩

theorem changePassphrase_saves (env : FileEnv) (newPassphrase : Option String) (h : w.Coherent C)
    (hr : C.readIdentity w.node.file w.passphrase = .ok identity)
    (hc : currentPassphrase = w.node.identityPassphrase) (ho : w.Opens) :
    w.node.changePassphrase C env currentPassphrase newPassphrase =
      ((C.saveIdentity env.save w.node.file identity newPassphrase).1.mapError fun e =>
          .app ("Failed to save identity with new passphrase: " ++ e),
        { w.node with file := (C.saveIdentity env.save w.node.file identity newPassphrase).2 }) := by
  unfold IdentityNode.changePassphrase
  rw [if_neg (not_not.2 hc), load_of_read (h.read_start ho hr) (h.account hr).1]

theorem step_changed {node : IdentityNode}
    (h : w.node.changePassphrase C env currentPassphrase newPassphrase = (.ok (), node)) :
    w.step C U (.changePassphrase env currentPassphrase newPassphrase) =
        { w with node, passphrase := newPassphrase } ∧
      w.succeeds C U (.changePassphrase env currentPassphrase newPassphrase) = true := by
  constructor
  · unfold step
    dsimp only
    rw [h]
  · unfold succeeds
    dsimp only
    rw [h]
    rfl

theorem step_unchanged {node : IdentityNode} {e : AppError}
    (h : w.node.changePassphrase C env currentPassphrase newPassphrase = (.error e, node)) :
    w.step C U (.changePassphrase env currentPassphrase newPassphrase) = { w with node } ∧
      w.succeeds C U (.changePassphrase env currentPassphrase newPassphrase) = false := by
  constructor
  · unfold step
    dsimp only
    rw [h]
  · unfold succeeds
    dsimp only
    rw [h]
    rfl

/-- A change that does nothing is right just when it was not to be made. -/
theorem right_unchanged_iff (h : w.Coherent C) (hr : C.readIdentity w.node.file w.passphrase = .ok identity)
    {node : IdentityNode} {e : AppError}
    (hc : w.node.changePassphrase C env currentPassphrase newPassphrase = (.error e, node))
    (hf : node.file = w.node.file) : w.Right C U (.changePassphrase env currentPassphrase newPassphrase) ↔
      ¬ (currentPassphrase = w.passphrase ∧ env.save.Completes C identity newPassphrase) := by
  obtain ⟨hstep, hfails⟩ := step_unchanged (U := U) hc
  constructor
  · intro hright hgiven
    have hs := (hright.changes env currentPassphrase newPassphrase identity rfl hr).2 hgiven
    rw [hfails] at hs
    cases hs
  · intro hnot
    refine ⟨?_, fun env' _ _ identity' he hr' => ?_, fun _ => ?_⟩
    · rw [hstep]
      exact h.congr hf rfl rfl
    · cases he
      obtain rfl := Except.ok.inj (hr.symm.trans hr')
      rw [hfails]
      exact iff_of_false Bool.false_ne_true hnot
    · rw [hstep]
      exact hf

theorem right_change_iff (hC : C.Lawful) (h : w.Coherent C) :
    w.Right C U (.changePassphrase env currentPassphrase newPassphrase) ↔
      w.Careful C U (.changePassphrase env currentPassphrase newPassphrase) := by
  obtain ⟨identity, hr, hp, hname⟩ := h.opens
  have hcareful : w.Careful C U (.changePassphrase env currentPassphrase newPassphrase) ↔
      w.CarefulChange C env.save identity currentPassphrase newPassphrase := by
    refine ⟨fun hc => hc identity hr, fun hc identity' hr' => ?_⟩
    obtain rfl := Except.ok.inj (hr.symm.trans hr')
    exact hc
  rw [hcareful]
  unfold CarefulChange
  by_cases hc : currentPassphrase = w.node.identityPassphrase ∧ w.Opens
  · have hsaves := changePassphrase_saves env newPassphrase h hr hc.1 hc.2
    by_cases hdone : env.save.Completes C identity newPassphrase
    · obtain ⟨bytes, hb, hsave⟩ := saveIdentity_completes w.node.file hdone
      rw [hsave] at hsaves
      obtain ⟨hstep, hok⟩ := step_changed (U := U) hsaves
      constructor
      · intro hright
        have hgiven := (hright.changes env currentPassphrase newPassphrase identity rfl hr).1 hok
        exact ⟨fun _ _ => not_cuts hdone, fun _ _ => hc.1.symm.trans hgiven.1⟩
      · rintro ⟨-, hsame⟩
        refine ⟨?_, fun env' _ _ identity' he hr' => ?_, fun hfails => ?_⟩
        · rw [hstep]
          exact coherent_saved hC hb rfl hp hname
        · cases he
          obtain rfl := Except.ok.inj (hr.symm.trans hr')
          exact iff_of_true hok ⟨hc.1.trans (hsame (Or.inr hc) hdone), hdone⟩
        · rw [hok] at hfails
          cases hfails
    · by_cases hcut : env.save.Cuts C identity newPassphrase
      · obtain ⟨bytes, n, e, hb, hn, hsave⟩ := saveIdentity_cuts w.node.file hcut
        rw [hsave] at hsaves
        obtain ⟨hstep, -⟩ := step_unchanged (U := U) hsaves
        refine iff_of_false (fun hright => ?_) fun hcareful => hcareful.1 hc.1 hc.2 hcut
        have hnext := hright.coherent
        rw [hstep] at hnext
        exact not_coherent_cut hC hb hn rfl hnext
      · obtain ⟨e, hsave⟩ := saveIdentity_refused w.node.file hdone hcut
        rw [hsave] at hsaves
        rw [right_unchanged_iff h hr hsaves rfl]
        exact iff_of_true (fun hgiven => hdone hgiven.2) ⟨fun _ _ => hcut, fun _ hd => (hdone hd).elim⟩
  · obtain ⟨e, hrefused⟩ := changePassphrase_refused env newPassphrase h hc
    rw [right_unchanged_iff h hr hrefused rfl]
    constructor
    · intro hnot
      refine ⟨fun hcur ho => (hc ⟨hcur, ho⟩).elim, fun hgiven hd => ?_⟩
      rcases hgiven with hgiven | hgiven
      · exact (hnot ⟨hgiven, hd⟩).elim
      · exact (hc hgiven).elim
    · rintro ⟨-, hsame⟩ ⟨hgiven, hd⟩
      have hstart := hsame (Or.inl hgiven) hd
      exact hc ⟨hgiven.trans hstart.symm, Or.inr hstart⟩

/-! Registering a name -/

section Register
variable {renv : RegisterEnv} {username name : String} {discriminator : UInt32} {registry : UsernameRegistry}

/-- The file after a name was taken. -/
def fileNamed (C : IdentityCrypto) (w : FileWorld) (env : FileEnv) (registry : UsernameRegistry) (username : String)
    (discriminator : UInt32) : Option Bytes :=
  (IdentityNode.persistUsernameToIdentity C { w.node with registry } env username discriminator).2

theorem fileNamed_opens (h : w.Coherent C) (hr : C.readIdentity w.node.file w.passphrase = .ok identity)
    (ho : w.Opens) : w.fileNamed C env registry username discriminator =
      (C.saveIdentity env.save w.node.file
        { identity with username := some username, discriminator := some discriminator }
        w.node.identityPassphrase).2 := by
  unfold fileNamed IdentityNode.persistUsernameToIdentity
  dsimp only
  rw [load_of_read (h.read_start ho hr) (h.account hr).1]

theorem fileNamed_closed (h : w.Coherent C) (ho : ¬ w.Opens) :
    w.fileNamed C env registry username discriminator = w.node.file := by
  obtain ⟨e, he⟩ := h.read_closed ho
  unfold fileNamed IdentityNode.persistUsernameToIdentity
  dsimp only
  rw [load_error he]

/-- A name that the registry does not take leaves the file alone. -/
theorem right_refused (h : w.Coherent C) {e : IdentityError}
    (hreg : w.node.registry.registerLocal U username w.node.localDid renv.draws = (.error e, registry)) :
    w.Right C U (.registerUsername renv username) := by
  have hcall : ∃ (e' : AppError) (node : IdentityNode),
      w.node.registerUsername C U renv username = (.error e', node) ∧ node.file = w.node.file := by
    unfold IdentityNode.registerUsername
    split
    · exact ⟨_, _, rfl, rfl⟩
    · rw [hreg]
      exact ⟨_, _, rfl, rfl⟩
  obtain ⟨e', node, hcall, hf⟩ := hcall
  have hstep : w.step C U (.registerUsername renv username) = { w with node } := by
    unfold step
    dsimp only
    rw [hcall]
  refine ⟨?_, fun _ _ _ _ he => (by cases he), fun _ => ?_⟩
  · rw [hstep]
    exact h.congr hf rfl rfl
  · rw [hstep]
    exact hf

theorem registerUsername_taken
    (hreg : w.node.registry.registerLocal U username w.node.localDid renv.draws =
      (.ok (name, discriminator), registry)) : ∃ node : IdentityNode,
      node.file = w.fileNamed C renv.toFileEnv registry username discriminator ∧
      (∀ e, renv.provideUsername = .error e →
        ∃ e', w.node.registerUsername C U renv username = (.error e', node)) ∧
      (renv.provideUsername = .ok () → w.node.registerUsername C U renv username =
        (.ok ⟨username, discriminator, name, w.node.localDid⟩, node)) := by
  unfold IdentityNode.registerUsername
  rw [(UsernameRegistry.registerLocal_ok hreg).1]
  dsimp only
  rw [hreg]
  dsimp only
  cases hp : renv.provideUsername with
  | error e => exact ⟨_, rfl, fun _ _ => ⟨_, rfl⟩, fun h => (by cases h)⟩
  | ok u =>
    refine ⟨_, ?_, fun e h => (by cases h), fun _ => rfl⟩
    split_ifs <;> rfl

theorem right_published_iff (hp : renv.provideUsername = .ok ())
    (hreg : w.node.registry.registerLocal U username w.node.localDid renv.draws =
      (.ok (name, discriminator), registry)) : ∃ next : FileWorld,
      next.node.file = w.fileNamed C renv.toFileEnv registry username discriminator ∧
      next.passphrase = w.passphrase ∧ next.name = (some username, some discriminator) ∧
      (w.Right C U (.registerUsername renv username) ↔ next.Coherent C) := by
  obtain ⟨node, hf, -, hcall⟩ := registerUsername_taken (C := C) hreg
  have hstep : w.step C U (.registerUsername renv username) =
      { w with node, name := (some username, some discriminator) } := by
    unfold step
    dsimp only
    rw [hcall hp]
  have hok : w.succeeds C U (.registerUsername renv username) = true := by
    unfold succeeds
    dsimp only
    rw [hcall hp]
    rfl
  refine ⟨{ w with node, name := (some username, some discriminator) }, hf, rfl, rfl, fun hright => ?_, fun hnext => ?_⟩
  · rw [← hstep]
    exact hright.coherent
  refine ⟨hstep.symm ▸ hnext, fun _ _ _ _ he => (by cases he), fun hfails => ?_⟩
  rw [hok] at hfails
  cases hfails

theorem right_unpublished_iff (h : w.Coherent C) {e : String} (hp : renv.provideUsername = .error e)
    (hreg : w.node.registry.registerLocal U username w.node.localDid renv.draws =
      (.ok (name, discriminator), registry)) :
    w.Right C U (.registerUsername renv username) ↔
      w.fileNamed C renv.toFileEnv registry username discriminator = w.node.file := by
  obtain ⟨node, hf, hcall, -⟩ := registerUsername_taken (C := C) hreg
  obtain ⟨e', hcall⟩ := hcall e hp
  have hstep : w.step C U (.registerUsername renv username) = { w with node } := by
    unfold step
    dsimp only
    rw [hcall]
  have hfails : w.succeeds C U (.registerUsername renv username) = false := by
    unfold succeeds
    dsimp only
    rw [hcall]
    rfl
  constructor
  · intro hright
    have hsame := hright.unchanged hfails
    rw [hstep] at hsame
    exact hf.symm.trans hsame
  · intro hsame
    refine ⟨?_, fun _ _ _ _ he => (by cases he), fun _ => ?_⟩
    · rw [hstep]
      exact h.congr (hf.trans hsame) rfl rfl
    · rw [hstep]
      exact hf.trans hsame

/-- A file that is as it was has the name that it had. -/
theorem Coherent.same_file_iff (h : w.Coherent C) (hf : w'.node.file = w.node.file)
    (hp : w'.passphrase = w.passphrase) : w'.Coherent C ↔ w'.name = w.name := by
  refine ⟨fun h' => ?_, h.congr hf hp⟩
  obtain ⟨identity, hr, -, hn⟩ := h.opens
  rw [← hf, ← hp] at hr
  rw [← hn, (h'.account hr).2]

theorem right_taken_iff (hC : C.Lawful) (h : w.Coherent C)
    (hr : C.readIdentity w.node.file w.passphrase = .ok identity)
    (hreg : w.node.registry.registerLocal U username w.node.localDid renv.draws =
      (.ok (name, discriminator), registry)) :
    w.Right C U (.registerUsername renv username) ↔ w.CarefulName C renv identity username discriminator := by
  have hp := (h.account hr).1
  by_cases hkept : w.Opens ∧ (renv.save.Completes C
      { identity with username := some username, discriminator := some discriminator } w.node.identityPassphrase ∨
    renv.save.Cuts C
      { identity with username := some username, discriminator := some discriminator } w.node.identityPassphrase)
  · obtain ⟨ho, hdone | hcut⟩ := hkept
    · -- written
      obtain ⟨bytes, hb, hsave⟩ := saveIdentity_completes w.node.file hdone
      have hfile : w.fileNamed C renv.toFileEnv registry username discriminator = some bytes := by
        rw [fileNamed_opens h hr ho, hsave]
      cases hpub : renv.provideUsername with
      | ok u =>
        obtain ⟨next, hf, hpass, hname, hright⟩ := right_published_iff (C := C) hpub hreg
        rw [hfile] at hf
        rw [hright, CarefulName, hpub]
        constructor
        · intro hnext
          exact ⟨fun _ => not_cuts hdone, Or.inl ⟨(hnext.saved_under hC hb hf).trans hpass, hdone⟩⟩
        · rintro ⟨-, ⟨hsame, -⟩ | ⟨hnot, -⟩⟩
          · rw [hsame, ← hpass] at hb
            exact coherent_saved hC hb hf hp hname.symm
          · exact (hnot ⟨ho, hdone⟩).elim
      | error e =>
        rw [right_unpublished_iff h hpub hreg, hfile, CarefulName, hpub]
        constructor
        · intro hsame
          refine ⟨fun _ => not_cuts hdone, fun _ bytes' hb' _ => ?_⟩
          rw [← hsame, Except.ok.inj (hb.symm.trans hb')]
        · rintro ⟨-, hsame⟩
          obtain ⟨bytes', hb', hfate⟩ := hdone
          rw [hsame ho bytes' hb' hfate, Except.ok.inj (hb.symm.trans hb')]
    · -- cut
      obtain ⟨bytes, n, e, hb, hn, hsave⟩ := saveIdentity_cuts w.node.file hcut
      have hfile : w.fileNamed C renv.toFileEnv registry username discriminator = some (bytes.take n) := by
        rw [fileNamed_opens h hr ho, hsave]
      refine iff_of_false (fun hright => ?_) fun hc => hc.1 ho hcut
      cases hpub : renv.provideUsername with
      | ok u =>
        obtain ⟨next, hf, -, -, hright'⟩ := right_published_iff (C := C) hpub hreg
        exact not_coherent_cut hC hb hn (hf.trans hfile) (hright'.1 hright)
      | error e' =>
        have hsame := (right_unpublished_iff h hpub hreg).1 hright
        exact not_coherent_cut hC hb hn (hsame.symm.trans hfile) h
  · -- left alone
    have hsame : w.fileNamed C renv.toFileEnv registry username discriminator = w.node.file := by
      by_cases ho : w.Opens
      · obtain ⟨e, he⟩ := saveIdentity_refused w.node.file (fun hd => hkept ⟨ho, Or.inl hd⟩)
          fun hc => hkept ⟨ho, Or.inr hc⟩
        rw [fileNamed_opens h hr ho, he]
      · exact fileNamed_closed h ho
    have hcut (ho : w.Opens) := fun hc => hkept ⟨ho, Or.inr hc⟩
    cases hpub : renv.provideUsername with
    | ok u =>
      obtain ⟨next, hf, hpass, hname, hright⟩ := right_published_iff (C := C) hpub hreg
      rw [hright, h.same_file_iff (hf.trans hsame) hpass, hname, CarefulName, hpub]
      constructor
      · intro hthere
        exact ⟨hcut, Or.inr ⟨fun hd => hkept ⟨hd.1, Or.inl hd.2⟩, hthere.symm⟩⟩
      · rintro ⟨-, ⟨hstart, hd⟩ | ⟨-, hthere⟩⟩
        · exact (hkept ⟨Or.inr hstart, Or.inl hd⟩).elim
        · exact hthere.symm
    | error e =>
      rw [right_unpublished_iff h hpub hreg, CarefulName, hpub]
      refine iff_of_true hsame ⟨hcut, fun ho bytes hb hfate => ?_⟩
      exact (hkept ⟨ho, Or.inl ⟨bytes, hb, hfate⟩⟩).elim

theorem right_register_iff (hC : C.Lawful) (h : w.Coherent C) :
    w.Right C U (.registerUsername renv username) ↔ w.Careful C U (.registerUsername renv username) := by
  obtain ⟨identity, hr, -, -⟩ := h.opens
  cases hreg : w.node.registry.registerLocal U username w.node.localDid renv.draws with
  | mk result registry =>
  cases result with
  | error e =>
    refine iff_of_true (right_refused h hreg) fun _ _ _ _ _ hreg' => ?_
    cases hreg.symm.trans hreg'
  | ok taken =>
    obtain ⟨name, discriminator⟩ := taken
    rw [right_taken_iff hC h hr hreg]
    refine ⟨fun hc identity' hr' _ _ _ hreg' => ?_, fun hc => hc identity hr _ _ _ hreg⟩
    obtain rfl := Except.ok.inj (hr.symm.trans hr')
    cases hreg.symm.trans hreg'
    exact hc

end Register

/-- The steps of a run are all right just when each is careful. -/
theorem coherent_iff (hC : C.Lawful) (hw : (fileSys C U).init w) (es : List FileEvent) :
    StepSystem.Guarded (fileSys C U) (Right C U) w es ↔ StepSystem.Guarded (fileSys C U) (Careful C U) w es := by
  have hstep (w : FileWorld) (e : FileEvent) (h : w.Coherent C) : w.Right C U e ↔ w.Careful C U e := by
    cases e with
    | changePassphrase env currentPassphrase newPassphrase => exact right_change_iff hC h
    | registerUsername env username => exact right_register_iff hC h
  exact StepSystem.guarded_iff (I := Coherent C) hstep (fun w e h hc => ((hstep w e h).2 hc).coherent) hw es

/-- A start that gets its write done leaves the file whole. -/
theorem coherent_started (hC : C.Lawful) {load save : SaveEnv} {fresh : String} {update : IdentityFile → IdentityFile}
    {file : Option Bytes} {passphrase : Option String}
    (hl : (IdentityNode.startFile C load save fresh update file passphrase).1 = .ok identity)
    (hd : save.Completes C identity passphrase) (hp : identity.olmAccountPickle ≠ "") (hpass : w.passphrase = passphrase)
    (hf : w.node.file = (IdentityNode.startFile C load save fresh update file passphrase).2)
    (hn : w.name = (identity.username, identity.discriminator)) : w.Coherent C := by
  unfold IdentityNode.startFile at hl hf
  split at hl
  · cases hl
  · rename_i loaded file' hload
    rw [hload] at hf
    obtain rfl := Except.ok.inj hl
    obtain ⟨bytes, hb, hsave⟩ := saveIdentity_completes file' hd
    rw [← hpass] at hb
    dsimp only at hf
    rw [hsave] at hf
    exact coherent_saved hC hb hf hp hn.symm

end FileWorld

namespace IdentityFiles

def draw : SealDraw := ⟨"salt", List.replicate 12 0, by decide +kernel, by decide⟩

def save : SaveEnv := ⟨draw, .done⟩

def env : FileEnv := ⟨"pickle", save, save⟩

def renv : RegisterEnv := { env with draws := [7], provideUsername := .ok (), setUsername := true }

def identity : IdentityFile := ⟨"did:a", "", "", "", "pickle", none, none, "", none⟩

def oldFile : Bytes :=
  IdentityCrypto.header draw ++ IdealCrypto.keyed.enc (utf8Bytes "old", utf8Bytes (IdealCrypto.toStringPretty identity))

/-- A node that was started with the passphrase "old". -/
def start : FileWorld := ⟨⟨"did:a", some "old", some oldFile, .new, ∅, some none⟩, some "old", none, none⟩

theorem coherent_start : start.Coherent idealCrypto :=
  FileWorld.coherent_saved idealCrypto_lawful (show idealCrypto.saveBytes draw identity (some "old") = _ from rfl) rfl
    (by decide) rfl

def run (es : List FileEvent) : FileWorld := es.foldl (fileSys idealCrypto idealUnicode).step start

/-- A name after the passphrase was changed. -/
def changeThenName (newPassphrase : Option String) : List FileEvent :=
  [.changePassphrase env (some "old") newPassphrase, .registerUsername renv "alice"]

/-- The passphrase is removed, and the next name brings it back; or it is replaced, and the next name is lost. Both
calls report a success. -/
theorem old_passphrase_kept : start.Coherent idealCrypto ∧
    ¬ StepSystem.Guarded (fileSys idealCrypto idealUnicode) (FileWorld.Right idealCrypto idealUnicode) start
      (changeThenName none) ∧
    ¬ StepSystem.Guarded (fileSys idealCrypto idealUnicode) (FileWorld.Right idealCrypto idealUnicode) start
      (changeThenName (some "new")) := by
  refine ⟨coherent_start, fun h => ?_, fun h => ?_⟩
  · have hc : (run (changeThenName none)).Coherent idealCrypto := h.2.1.coherent
    have hencrypted : (run (changeThenName none)).node.file.map isEncrypted = some true := by decide +kernel
    obtain ⟨bytes, hfile, hplain⟩ := hc.plain.2 (by decide +kernel)
    rw [hfile] at hencrypted
    exact absurd (hplain.symm.trans (Option.some.inj hencrypted)) (by decide)
  · have hc : (run (changeThenName (some "new"))).Coherent idealCrypto := h.2.1.coherent
    have hunnamed : ((idealCrypto.readIdentity (run (changeThenName (some "new"))).node.file
        (some "new")).toOption.map fun i => i.username) = some none := by decide +kernel
    have hnew : (run (changeThenName (some "new"))).passphrase = some "new" := by decide +kernel
    have halice : (run (changeThenName (some "new"))).name = (some "alice", some 7) := by decide +kernel
    obtain ⟨i, hread, -, hname⟩ := hc.opens
    rw [hnew] at hread
    rw [hread] at hunnamed
    rw [halice] at hname
    exact absurd ((Option.some.inj hunnamed).symm.trans (Prod.mk.inj hname).1) (by decide)

theorem named_and_changed : StepSystem.Guarded (fileSys idealCrypto idealUnicode)
    (FileWorld.Right idealCrypto idealUnicode) start
    [.registerUsername renv "alice", .changePassphrase env (some "old") (some "new")] := by
  refine (FileWorld.coherent_iff idealCrypto_lawful coherent_start _).2
    ⟨fun i _ _ _ _ _ => ⟨fun _ => ?_, Or.inl ⟨rfl, _, rfl, trivial⟩⟩, fun i _ => ⟨fun _ _ => ?_, fun _ _ => ?_⟩, trivial⟩
  · rintro ⟨_, -, hcut⟩
    exact hcut
  · rintro ⟨_, -, hcut⟩
    exact hcut
  · decide +kernel

end IdentityFiles
end Variance
