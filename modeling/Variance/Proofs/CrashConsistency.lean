import Variance.Sanity.IdealRatchet
import Variance.Sanity.IdealWire
import Variance.Sanity.Ratchets

/-! What a crash of the process does to our MLS groups. A message goes out at once, and the state that sealed it is
written half a second after the last change; a process that dies in between starts from the state before. -/

namespace Variance
namespace CrashWorld
variable {M : OpenMls} {L : RatchetLaws M} {W : Wire} {blank : M.Provider} {w w' : CrashWorld M} {gid : String}
  {env : Env}

/-! What is restored -/

/-- The groups listed and loaded, over what there was. -/
theorem restore_get (s : M.Provider) (ids : List String) (t : SledTree M.Group) :
    (ids.foldl (fun t gid =>
      match M.loadGroup gid s with
      | .ok (some g) => t.insert gid g
      | _ => t) t)[gid]? =
      match M.loadGroup gid s with
      | .ok (some g) => if gid ∈ ids then some g else t[gid]?
      | _ => t[gid]? := by
  induction ids generalizing t with
  | nil => cases M.loadGroup gid s with
    | error e => rfl
    | ok r => cases r <;> rfl
  | cons id ids ih =>
    rw [List.foldl_cons, ih]
    by_cases hid : id = gid
    · subst hid
      rcases M.loadGroup id s with e | _ | g
      · rfl
      · rfl
      · simp
    · have hsame : (match M.loadGroup id s with
          | .ok (some g) => t.insert id g
          | _ => t)[gid]? = t[gid]? := by
        rcases M.loadGroup id s with e | _ | g
        · rfl
        · rfl
        · dsimp only
          rw [get_insert, if_neg hid]
      rw [hsame]
      simp [Ne.symm hid]

theorem restored_get : (w.restored blank).groups[gid]? = w.stored gid := by
  unfold restored stored
  cases w.snapshot with
  | none => simp
  | some s =>
    refine (restore_get s.storage s.groupIds ∅).trans ?_
    dsimp only
    rcases M.loadGroup gid s.storage with e | _ | g
    · simp
    · simp
    · split_ifs <;> simp

theorem resubscribe_spec (n : Node M) : ∃ es, resubscribe n = { n with effects := n.effects ++ es } ∧
    ∀ x ∈ es, ∃ topic, x = .subscribe topic := by
  unfold resubscribe
  generalize n.mls.groups.toList.map (·.1) = ids
  induction ids generalizing n with
  | nil => exact ⟨[], by simp, by simp⟩
  | cons id ids ih =>
    obtain ⟨es, hn, hall⟩ := ih (n.emit (.subscribe (groupTopic id)))
    refine ⟨.subscribe (groupTopic id) :: es, ?_, fun x hx => ?_⟩
    · rw [List.foldl_cons, hn]
      simp [Node.emit]
    · rcases List.mem_cons.1 hx with rfl | hx
      · exact ⟨_, rfl⟩
      · exact hall x hx

/-- After a crash there are the groups of the snapshot, the stores as they were, and topics subscribed to. -/
theorem crash_spec (w : CrashWorld M) (blank : M.Provider) (env : Env) :
    (∀ gid, (w.crash blank env).node.mls.groups[gid]? = w.stored gid) ∧
      (w.crash blank env).node.storage = w.node.storage ∧
      ∃ es, (w.crash blank env).node.effects = w.node.effects ++ es ∧ ∀ x ∈ es, ∃ topic, x = .subscribe topic := by
  obtain ⟨es, hn, hall⟩ := resubscribe_spec { w.node with mls := w.restored blank }
  have hgroups (gid : String) (rng : ℕ) :
      ((resubscribe { w.node with mls := w.restored blank }).mls.generateKeyPackage rng).2.groups[gid]? =
        w.stored gid := by
    rw [hn]
    exact restored_get
  have hstores (rng : ℕ) :
      { resubscribe { w.node with mls := w.restored blank } with
        mls := ((resubscribe { w.node with mls := w.restored blank }).mls.generateKeyPackage rng).2 } =
      ({ w.node with
          mls := ((resubscribe { w.node with mls := w.restored blank }).mls.generateKeyPackage rng).2
          effects := w.node.effects ++ es } : Node M) := by
    rw [hn]
  have hnode : (w.crash blank env).node = { resubscribe { w.node with mls := w.restored blank } with
      mls := ((resubscribe { w.node with mls := w.restored blank }).mls.generateKeyPackage env.rng).2 } := by
    unfold crash
    dsimp only
    split
    · rename_i heq
      rw [heq]
    · rename_i heq
      rw [heq]
      split
      · rfl
      · split_ifs
        · rfl
        · rfl
  rw [hnode]
  refine ⟨fun gid => hgroups gid env.rng, ?_, es, ?_, hall⟩
  · rw [hstores]
  · rw [hstores]

/-! The invariant -/

/-- Nothing was sealed twice, and every group is past all that was sealed in it. -/
structure Sound (L : RatchetLaws M) (w : CrashWorld M) : Prop where
  unrepeated : w.Unrepeated L.toRatchet
  past : ∀ gid g, w.node.mls.groups[gid]? = some g → ∀ s ∈ L.spent gid w.node.effects, s < L.pos g
  unsealed : Node.Unsealed L w.node

theorem sound_of_fresh (h : w.Fresh) : w.Sound L where
  unrepeated gid := by simp [h.effects, Ratchet.spent]
  past gid g hg := by simp [h.node.groups] at hg
  unsealed k e he := by simp [h.node.storage, LocalMessageStorage.empty] at he

/-- What goes on from where the groups stand does not come to what was before. -/
theorem Sound.spends {n : Node M} (h : w.Sound L) (hn : ∀ gid, Node.Spends L gid w.node n)
    (hu : Node.Unsealed L n) (hw : w'.node = n) : w'.Sound L := by
  subst hw
  refine ⟨fun gid => ?_, fun gid g' hg' s hs => ?_, hu⟩
  · obtain ⟨es, hes, hnodup, hlow, -⟩ := hn gid
    rw [hes, Ratchet.spent_append]
    refine List.nodup_append.2 ⟨h.unrepeated gid, hnodup, fun s hs s' hs' => ?_⟩
    obtain ⟨g, hg, hle⟩ := hlow s' hs'
    exact ((h.past gid g hg s hs).trans_le hle).ne
  · obtain ⟨es, hes, -, -, hhigh⟩ := hn gid
    obtain ⟨hlt, g, hg, hle⟩ := hhigh g' hg'
    rw [hes, Ratchet.spent_append] at hs
    rcases List.mem_append.1 hs with hs | hs
    · exact (h.past gid g hg s hs).trans_le hle
    · exact hlt s hs

/-- A step that brings groups in publishes nothing, and brings them in past all that was sealed. -/
theorem Sound.founds {e : Event} (h : w.Sound L) (he : Node.Founding (.event e))
    (hs : w.Settled L.toRatchet W (.serve (.event e))) (hw : w'.node = w.node.react W e) : w'.Sound L := by
  have hmute (gid : String) : L.spent gid w'.node.effects = L.spent gid w.node.effects := by
    obtain ⟨es, hes, hnil⟩ : Node.Mute L gid w.node (w.node.react W e) := Node.mute_react he
    rw [hw, hes, Ratchet.spent_append, hnil, List.append_nil]
  refine ⟨fun gid => ?_, fun gid g' hg' s hin => ?_, ?_⟩
  · rw [hmute]
    exact h.unrepeated gid
  · rw [hmute] at hin
    rw [hw] at hg'
    rcases (Node.calls_react w.node W e).moves L hg' with ⟨g, hg, hle⟩ | ⟨x, hx, hle⟩
    · exact (h.past gid g hg s hin).trans_le hle
    · exact (hs gid x hx s hin).trans_le hle
  · rw [hw]
    exact h.unsealed.serve (.event e)

theorem Sound.serve {e : ClientEvent} (h : w.Sound L) (hs : w.Settled L.toRatchet W (.serve e)) :
    (w.serve W e).Sound L := by
  by_cases he : Node.Founding e
  · cases e with
    | event e => exact h.founds he hs rfl
    | _ => exact he.elim
  · exact h.spends (fun gid => Node.spends_serve h.unsealed he) (h.unsealed.serve e) rfl

theorem spent_of_not_spoke (h : ¬ w.Spoke W gid) : L.spent gid w.node.effects = [] := by
  refine List.filterMap_eq_nil_iff.2 fun x hx => ?_
  cases x with
  | publish topic m =>
    have hne : m.groupId ≠ gid := fun heq => h (Or.inl ⟨topic, m, hx, heq⟩)
    simp [Ratchet.stamp, hne]
  | _ => rfl

theorem stored_standing (hs : w.Settled L.toRatchet W (.crash env)) (hw : w.Spoke W gid) {g : M.Group}
    (hg : w.stored gid = some g) : ∃ g', w.node.mls.groups[gid]? = some g' ∧ L.standing g' = L.standing g := by
  have hsame := hs gid hw
  rw [hg] at hsame
  exact Option.map_eq_some_iff.1 hsame.symm

theorem Sound.crash (h : w.Sound L) (hs : w.Settled L.toRatchet W (.crash env)) : (w.crash blank env).Sound L := by
  obtain ⟨hgroups, hstorage, es, hes, hall⟩ := crash_spec w blank env
  have hmute (gid : String) : L.spent gid (w.crash blank env).node.effects = L.spent gid w.node.effects := by
    have hnil : L.spent gid es = [] := List.filterMap_eq_nil_iff.2 fun x hx => by
      obtain ⟨topic, rfl⟩ := hall x hx
      rfl
    rw [hes, Ratchet.spent_append, hnil, List.append_nil]
  refine ⟨fun gid => ?_, fun gid g hg s hin => ?_, h.unsealed.congr (by rw [hstorage])⟩
  · rw [hmute]
    exact h.unrepeated gid
  · rw [hmute] at hin
    by_cases hw : w.Spoke W gid
    · rw [hgroups] at hg
      obtain ⟨g', hg', hstanding⟩ := stored_standing hs hw hg
      have hpos : L.pos g' = L.pos g := congrArg (·.1) hstanding
      exact hpos ▸ h.past gid g' hg' s hin
    · rw [spent_of_not_spoke hw] at hin
      cases hin

theorem Sound.step {e : CrashEvent} (h : w.Sound L) (hs : w.Settled L.toRatchet W e) : (w.step W blank e).Sound L := by
  cases e with
  | serve e => exact h.serve hs
  | roundOver => exact ⟨h.unrepeated, h.past, h.unsealed⟩
  | persist env =>
    have hnode : (w.persist env).node = w.node := by
      unfold CrashWorld.persist
      split_ifs
      · rfl
      · rfl
      · rfl
    change (w.persist env).Sound L
    exact ⟨fun gid => hnode ▸ h.unrepeated gid, hnode ▸ h.past, hnode ▸ h.unsealed⟩
  | crash env => exact h.crash hs

theorem sound_reached (h : StepSystem.Reach (crashSys M W blank) (fun w e => w.Settled L.toRatchet W e) w) :
    w.Sound L :=
  h.invariant (I := fun w => w.Sound L) (fun _ => sound_of_fresh) fun _ _ hw hs => hw.step hs

/-- The condition is what the persister makes: openmls has in its key store the groups that it has in memory, and once
they are written a crash undoes nothing. -/
theorem settled_persist {env' : Env} (hs : w.scheduled = true) (hf : env.faults "mls_state" w.node.localDid = false)
    (hk : ∀ gid g, w.node.mls.groups[gid]? = some g → M.loadGroup gid w.node.mls.provider = .ok (some g)) :
    (w.persist env).Settled L.toRatchet W (.crash env') := by
  have hw : w.persist env = { w with scheduled := false, snapshot := some w.node.mls.exportState } := by
    simp [persist, hs, hf]
  rw [hw]
  intro gid _
  have hids : gid ∈ w.node.mls.exportState.groupIds ↔ gid ∈ w.node.mls.groups := by
    simp [MlsGroupHandler.exportState]
  have hstored : stored { w with scheduled := false, snapshot := some w.node.mls.exportState } gid =
      w.node.mls.groups[gid]? := by
    unfold stored
    dsimp only
    cases hg : w.node.mls.groups[gid]? with
    | none => rw [if_neg (by simp [hids, Std.ExtTreeMap.mem_iff_isSome_getElem?, hg])]
    | some g =>
      rw [if_pos (by simp [hids, Std.ExtTreeMap.mem_iff_isSome_getElem?, hg])]
      have hload : M.loadGroup gid w.node.mls.exportState.storage = .ok (some g) := hk gid g hg
      rw [hload]
  rw [hstored]

/-! What is remembered -/

theorem spoke_of_gaveOut {k : M.Commit} (h : w.GaveOut L.toRatchet W gid k) : w.Spoke W gid := by
  rcases h with ⟨topic, m, hin, hgid, -⟩ | ⟨d, i, hin, hgid, -⟩
  · exact Or.inl ⟨topic, m, hin, hgid⟩
  · exact Or.inr ⟨d, i, hin, hgid⟩

theorem remembers_crash {k : M.Commit} (hs : w.Settled L.toRatchet W (.crash env)) :
    ¬ w.Forgets L.toRatchet W (w.crash blank env) gid k := by
  rintro ⟨hgave, ⟨g, hg, hhas⟩, hlost⟩
  obtain ⟨hgroups, -⟩ := crash_spec w blank env
  have hsame := hs gid (spoke_of_gaveOut hgave)
  rw [hg, Option.map_some] at hsame
  obtain ⟨g', hg', hstanding⟩ := Option.map_eq_some_iff.1 hsame
  refine hlost ⟨g', (hgroups gid).trans hg', ?_⟩
  have happlied : L.applied g' = L.applied g := congrArg (·.2.2) hstanding
  have hpending : M.pendingCommit g' = M.pendingCommit g := congrArg (·.2.1) hstanding
  unfold Ratchet.Has
  rw [happlied, hpending]
  exact hhas

/-- In every run whose crashes and newcomers meet the condition, nothing is sealed twice and no commit is forgotten. -/
theorem crash_consistent {e : CrashEvent}
    (h : StepSystem.Reach (crashSys M W blank) (fun w e => w.Settled L.toRatchet W e) w)
    (hs : w.Settled L.toRatchet W e) : w.Consistent L.toRatchet W blank e where
  unrepeated := ((sound_reached h).step hs).unrepeated
  remembers := by
    rintro env rfl gid k
    exact remembers_crash hs

end CrashWorld

/-! A group of one, and a process that dies -/

namespace CrashConsistency
open IdealRatchet

def env (n : ℕ) : Env := { now := 0, rng := n, ulid := "g", faults := noFaults, dmOk := true }

def started : CrashWorld ratchetMls :=
  ⟨{ localDid := "did:a", mls := ⟨"did:a", [], ∅, ∅⟩, storage := .empty, effects := [] }, none, false⟩

def creates : CrashEvent := .serve (.event (.op (.create (env 0) "G")))

def sends (n : ℕ) (text : String) : CrashEvent := .serve (.event (.op (.send (env n) "g" text none ∅)))

def updates (n : ℕ) : CrashEvent := .serve (.event (.selfUpdate (env n) "g"))

def run (es : List CrashEvent) : CrashWorld ratchetMls := es.foldl (CrashWorld.step idealWire []) started

theorem fresh_started : started.Fresh := ⟨⟨rfl, rfl⟩, rfl, rfl⟩

theorem reachable_run (es : List CrashEvent) :
    StepSystem.Reachable (crashSys ratchetMls idealWire []) (run es) :=
  StepSystem.reachable_foldl (M := crashSys ratchetMls idealWire []) (.init fresh_started) es

def published (k : ratchetMls.Commit) : Effect → Bool
  | .publish _ m => m.groupId = "g" &&
      (ratchetMls.deserializeMessage m.mlsCiphertext).toOption.bind ratchet.commitOf = some k
  | _ => false

theorem gaveOut_of_published {w : CrashWorld ratchetMls} {k : ratchetMls.Commit}
    (h : w.node.effects.any (published k) = true) : w.GaveOut ratchet idealWire "g" k := by
  obtain ⟨x, hx, hk⟩ := List.any_eq_true.1 h
  cases x with
  | publish topic m =>
    simp only [published, Bool.and_eq_true, decide_eq_true_eq] at hk
    refine Or.inl ⟨topic, m, hx, hk.1, ?_⟩
    cases hm : ratchetMls.deserializeMessage m.mlsCiphertext with
    | error e => simp [hm, Except.toOption] at hk
    | ok msg => exact ⟨msg, hm, by simpa [hm, Except.toOption] using hk.2⟩
  | _ => cases hk

def rotated : ratchetMls.Commit := (⟨"did:a", 2, 0⟩ : Commit)

/-- Two messages with one generation, and a commit that its author no longer knows of: each time the process dies
before the persister gets to it. -/
theorem crash_repeats_and_forgets :
    (∃ w, StepSystem.Reachable (crashSys ratchetMls idealWire []) w ∧ ¬ w.Unrepeated ratchet) ∧
    ∃ w k, StepSystem.Reachable (crashSys ratchetMls idealWire []) w ∧
      w.Forgets ratchet idealWire (w.step idealWire [] (.crash (env 3))) "g" k := by
  constructor
  · refine ⟨_, reachable_run [creates, .persist (env 1), sends 2 "one", .crash (env 3), sends 4 "two"], fun h => ?_⟩
    have hspent : ratchet.spent "g" (run [creates, .persist (env 1), sends 2 "one", .crash (env 3),
        sends 4 "two"]).node.effects = [toLex (0, 0), toLex (0, 0)] := by decide +kernel
    have hnodup := h "g"
    rw [hspent] at hnodup
    simp at hnodup
  · refine ⟨_, rotated, reachable_run [creates, .persist (env 1), updates 2], ?_, ?_, ?_⟩
    · exact gaveOut_of_published (by decide +kernel)
    · have hknows : ((run [creates, .persist (env 1), updates 2]).node.mls.groups["g"]?).map ratchet.applied =
          some [rotated] := by decide +kernel
      obtain ⟨g, hg, ha⟩ := Option.map_eq_some_iff.1 hknows
      exact ⟨g, hg, Or.inl (by rw [ha]; exact List.mem_singleton.2 rfl)⟩
    · rintro ⟨g, hg, hhas⟩
      have hlost : (((run [creates, .persist (env 1), updates 2]).step idealWire [] (.crash (env 3))).node.mls.groups[
          "g"]?).map (fun g => (ratchet.applied g, ratchetMls.pendingCommit g)) = some ([], none) := by
        decide +kernel
      rw [hg, Option.map_some] at hlost
      obtain ⟨happlied, hpending⟩ := Prod.mk.inj (Option.some.inj hlost)
      unfold Ratchet.Has at hhas
      rw [happlied, hpending] at hhas
      simp at hhas

def saved : CrashWorld ratchetMls := run [creates, .persist (env 1), sends 2 "one", .persist (env 3)]

theorem settled_saved : saved.Settled ratchet idealWire (.crash (env 4)) := by
  intro gid hspoke
  have hgid : gid = "g" := by
    have hall : saved.node.effects.all (fun
      | .publish _ m => m.groupId = "g"
      | .sendDm .. => false
      | _ => true) = true := by decide +kernel
    rcases hspoke with ⟨topic, m, hin, rfl⟩ | ⟨d, i, hin, -⟩
    · simpa using List.all_eq_true.1 hall _ hin
    · simpa using List.all_eq_true.1 hall _ hin
  subst hgid
  decide +kernel

/-- A process that dies once the persister has run goes on with the next generation. -/
theorem saved_crashes : saved.Consistent ratchet idealWire [] (.crash (env 4)) := by
  refine CrashWorld.crash_consistent (L := ratchetLaws) ?_ settled_saved
  have hstarted : StepSystem.Reach (crashSys ratchetMls idealWire [])
      (fun w e => w.Settled ratchetLaws.toRatchet idealWire e) started := .init fresh_started
  have hcreates : started.Settled ratchetLaws.toRatchet idealWire creates := by
    intro gid x _ s hs
    cases hs
  have hguarded : StepSystem.Guarded (crashSys ratchetMls idealWire [])
      (fun w e => w.Settled ratchetLaws.toRatchet idealWire e) started
      [creates, .persist (env 1), sends 2 "one", .persist (env 3)] :=
    ⟨hcreates, trivial, fun _ _ hx => False.elim hx, trivial, trivial⟩
  exact StepSystem.reach_foldl hstarted hguarded

end CrashConsistency
end Variance
