import Variance.Sanity.IdealMls
import Variance.Sanity.IdealWire
import Variance.Sanity.Silent

/-! When the user is told of a desync. The counter of a group is the run of failures that its record begins with, and
its flag is set once the record has a run as long as the threshold; only the live listener looks at the answer. -/

namespace Variance

open StepSystem Streak

namespace DesyncWorld
variable {M : OpenMls} {W : Wire} {w : DesyncWorld M} {n n₁ : Node M} {g gid : String}

/-- What the counter of a group is after these outcomes. -/
def tally (l : List Decryption) : DesyncCounter :=
  ⟨streak .failure l, decide (HasRun .failure MlsGroupHandler.desyncThreshold l)⟩

theorem tally_success (l : List Decryption) : tally (.success :: l) = { tally l with consecutiveFailures := 0 } := by
  have hne : Decryption.success ≠ .failure := by decide
  simp only [tally, streak_cons_of_ne hne, hasRun_cons_of_ne (k := MlsGroupHandler.desyncThreshold) (by decide) hne]

structure Inv (w : DesyncWorld M) : Prop where
  counter : ∀ g, w.node.mls.desyncCounter g = tally (w.outcomes g)
  notices : ∀ g, w.notices g = if w.Failing g then 1 else 0
  cleared : ∀ g, w.cleared g ≤ w.node.effects.length

theorem Inv.announced (h : Inv w) : w.Announced := by
  intro g
  refine ⟨h.notices g, fun hflag => ?_⟩
  rw [MlsGroupHandler.isDesynced_eq, h.counter g] at hflag
  rw [h.notices g, if_pos (show w.Failing g from of_decide_eq_true hflag)]
  exact Nat.one_pos

theorem inv_fresh (h : w.Fresh) : Inv w := by
  obtain ⟨hcounters, heffects, houtcomes, hcleared⟩ := h
  have hrun : ¬ HasRun Decryption.failure MlsGroupHandler.desyncThreshold [] := hasRun_nil (by decide)
  refine ⟨fun g => ?_, fun g => ?_, fun g => ?_⟩
  · simp [MlsGroupHandler.desyncCounter, hcounters, houtcomes, tally, hrun]
  · simp [DesyncWorld.notices, heffects, Failing, houtcomes, hrun]
  · simp [hcleared]

@[simp] theorem report_node (w : DesyncWorld M) (n : Node M) (gid : String) (o : Option Decryption) :
    (w.report n gid o).node = n := rfl

@[simp] theorem report_cleared (w : DesyncWorld M) (n : Node M) (gid : String) (o : Option Decryption) :
    (w.report n gid o).cleared = w.cleared := rfl

@[simp] theorem report_outcomes_self (w : DesyncWorld M) (n : Node M) (gid : String) (o : Decryption) :
    (w.report n gid (some o)).outcomes gid = o :: w.outcomes gid := by
  simp [report]

theorem report_outcomes_of_ne (w : DesyncWorld M) (n : Node M) (hne : gid ≠ g) (o : Option Decryption) :
    (w.report n gid o).outcomes g = w.outcomes g := Function.update_of_ne (Ne.symm hne) _ _

theorem report_none (w : DesyncWorld M) (gid : String) : w.report w.node gid none = w := by
  simp [report]

theorem failing_success : (w.report n gid (some .success)).Failing g ↔ w.Failing g := by
  unfold Failing
  by_cases hg : gid = g
  · subst hg
    rw [report_outcomes_self]
    exact hasRun_cons_of_ne (by decide) (by decide)
  · rw [report_outcomes_of_ne w n hg]

/-- The outcome that would complete a run. -/
def Completes (w : DesyncWorld M) (gid : String) : Prop :=
  MlsGroupHandler.desyncThreshold ≤ streak .failure (.failure :: w.outcomes gid)

theorem failing_failure :
    (w.report n gid (some .failure)).Failing g ↔ gid = g ∧ w.Completes gid ∨ w.Failing g := by
  unfold Failing
  by_cases hg : gid = g
  · subst hg
    rw [report_outcomes_self, hasRun_cons_iff]
    simp [Completes]
  · rw [report_outcomes_of_ne w n hg]
    simp [hg]

/-- What is broadcast comes after what was broadcast when the period began. -/
theorem notices_report {es : List Effect} (h : Inv w) (he : n.effects = w.node.effects ++ es) (o : Option Decryption)
    (g : String) : (w.report n gid o).notices g = w.notices g + es.count (.ws (.groupDesyncDetected g)) := by
  unfold DesyncWorld.notices
  rw [report_node, report_cleared, he, List.drop_append_of_le_length (h.cleared g), List.count_append]

theorem counter_silent (h : Inv w) (hn : Node.Silent w.node n₁) (g : String) :
    n₁.mls.desyncCounter g = tally (w.outcomes g) := by
  rw [MlsGroupHandler.desyncCounter_congr hn.counters, h.counter g]

/-- A failure crosses the threshold when it completes the period's first run. -/
theorem crosses_iff (h : Inv w) (hn : Node.Silent w.node n₁) :
    n₁.mls.crosses gid = true ↔ w.Completes gid ∧ ¬ w.Failing gid := by
  unfold MlsGroupHandler.crosses Completes
  rw [counter_silent h hn, Bool.and_eq_true, decide_eq_true_iff, Bool.not_eq_true', streak_cons_self]
  exact and_congr_right fun _ => decide_eq_false_iff_not

theorem Inv.success (h : Inv w) (hn : Node.Succeeds gid w.node n) : Inv (w.report n gid (some .success)) := by
  obtain ⟨n₁, h₁, h₂⟩ := hn
  obtain ⟨es₁, he₁, hes₁⟩ := h₁.effects
  obtain ⟨es₂, he₂, hes₂⟩ := h₂.effects
  have he : n.effects = w.node.effects ++ (es₁ ++ es₂) := by
    rw [he₂, ← List.append_assoc, ← he₁]
  refine ⟨fun g => ?_, fun g => ?_, fun g => ?_⟩
  · rw [report_node, MlsGroupHandler.desyncCounter_congr h₂.counters, MlsGroupHandler.desyncCounter_success,
      counter_silent h h₁]
    split_ifs with hg
    · subst hg
      rw [report_outcomes_self, tally_success]
    · rw [report_outcomes_of_ne w n hg]
  · have hnone : (es₁ ++ es₂).count (.ws (.groupDesyncDetected g)) = 0 := by
      refine List.count_eq_zero_of_not_mem fun hmem => ?_
      rcases List.mem_append.1 hmem with hmem | hmem
      · exact hes₁ g hmem
      · exact hes₂ g hmem
    rw [notices_report h he, hnone, h.notices g]
    simp only [failing_success, Nat.add_zero]
  · have hle := h.cleared g
    rw [report_node, report_cleared, he, List.length_append]
    omega

/-- A failure is counted whoever reports it; the notice has to follow when it crosses the threshold. -/
theorem Inv.failure {es : List Effect} (h : Inv w) (h₁ : Node.Silent w.node n₁)
    (hm : n.mls = (n₁.mls.recordProcessingFailure gid).2) (hn : n.effects = n₁.effects ++ es)
    (hes : ∀ g, es.count (.ws (.groupDesyncDetected g)) = if gid = g ∧ n₁.mls.crosses gid = true then 1 else 0) :
    Inv (w.report n gid (some .failure)) := by
  obtain ⟨es₁, he₁, hes₁⟩ := h₁.effects
  have he : n.effects = w.node.effects ++ (es₁ ++ es) := by
    rw [hn, ← List.append_assoc, ← he₁]
  have hcross : n₁.mls.crosses gid = true ↔ w.Completes gid ∧ ¬ w.Failing gid := crosses_iff h h₁
  refine ⟨fun g => ?_, fun g => ?_, fun g => ?_⟩
  · rw [report_node, hm, MlsGroupHandler.desyncCounter_failure, counter_silent h h₁]
    split_ifs with hg
    · subst hg
      have hflag : (decide (w.Failing gid) || n₁.mls.crosses gid) =
          decide ((w.report n gid (some .failure)).Failing gid) := by
        rw [Bool.eq_iff_iff, Bool.or_eq_true, decide_eq_true_iff, decide_eq_true_iff, hcross, failing_failure]
        tauto
      unfold tally
      rw [report_outcomes_self, streak_cons_self, DesyncCounter.mk.injEq]
      refine ⟨rfl, hflag.trans (decide_eq_decide.2 ?_)⟩
      unfold Failing
      rw [report_outcomes_self]
    · rw [report_outcomes_of_ne w n hg]
  · rw [notices_report h he, List.count_append, List.count_eq_zero_of_not_mem (hes₁ g), hes g, h.notices g]
    have hrun : (w.report n gid (some .failure)).Failing g ↔ gid = g ∧ w.Completes gid ∨ w.Failing g := failing_failure
    by_cases hg : gid = g
    · subst hg
      by_cases hf : w.Failing gid
      · rw [if_pos hf, if_neg fun hc => (hcross.1 hc.2).2 hf, if_pos (hrun.2 (Or.inr hf))]
      · by_cases hc : w.Completes gid
        · rw [if_neg hf, if_pos ⟨rfl, hcross.2 ⟨hc, hf⟩⟩, if_pos (hrun.2 (Or.inl ⟨rfl, hc⟩))]
        · rw [if_neg hf, if_neg fun h => hc (hcross.1 h.2).1, if_neg fun h => (hrun.1 h).elim (fun h => hc h.2) hf]
    · have hsame : (w.report n gid (some .failure)).Failing g ↔ w.Failing g :=
        hrun.trans (or_iff_right fun h => hg h.1)
      simp only [hsame, hg, false_and, if_false, Nat.add_zero]
  · have hle := h.cleared g
    rw [report_node, report_cleared, he, List.length_append]
    omega

theorem Inv.clear (h : Inv w) : Inv (w.step W (.clear gid)) := by
  have hrun : ¬ HasRun Decryption.failure MlsGroupHandler.desyncThreshold [] := hasRun_nil (by decide)
  refine ⟨fun g => ?_, fun g => ?_, fun g => ?_⟩
  · simp only [step, MlsGroupHandler.desyncCounter_clear]
    split_ifs with hg
    · subst hg
      simp [tally, hrun]
    · rw [Function.update_of_ne (Ne.symm hg), h.counter g]
  · by_cases hg : gid = g
    · subst hg
      simp [step, DesyncWorld.notices, Failing, hrun]
    · have hf : (w.step W (.clear gid)).Failing g ↔ w.Failing g := by
        simp [step, Failing, Function.update_of_ne (Ne.symm hg)]
      have hn : (w.step W (.clear gid)).notices g = w.notices g := by
        simp [step, DesyncWorld.notices, Function.update_of_ne (Ne.symm hg)]
      simp only [hf, hn, h.notices g]
  · by_cases hg : gid = g
    · subst hg
      simp [step]
    · simpa [step, Function.update_of_ne (Ne.symm hg)] using h.cleared g

/-- The live listener's notice goes out with the failure that is due it. -/
theorem count_recordLiveFailure (n : Node M) (gid : String) : ∃ es, (n.recordLiveFailure gid).effects = n.effects ++ es ∧
    (n.recordLiveFailure gid).mls = (n.mls.recordProcessingFailure gid).2 ∧
    ∀ g, es.count (.ws (.groupDesyncDetected g)) = if gid = g ∧ n.mls.crosses gid = true then 1 else 0 := by
  have hfst := n.mls.recordProcessingFailure_fst gid
  unfold Node.recordLiveFailure
  split
  all_goals
    rename_i heq
    rw [heq] at hfst
    rw [← hfst]
  · refine ⟨_, rfl, congrArg Prod.snd heq.symm, fun g => ?_⟩
    by_cases hg : gid = g <;> simp [hg]
  · exact ⟨[], (List.append_nil _).symm, congrArg Prod.snd heq.symm, fun g => by simp⟩

theorem Inv.step (h : Inv w) {e : DesyncEvent M} (hg : w.Heard e) : Inv (w.step W e) := by
  cases e with
  | live env m =>
    show Inv (w.report (w.node.handleGroupMessage W env m) m.groupId (w.node.liveOutcome m))
    match ho : w.node.liveOutcome m with
    | none => rwa [Node.handleGroupMessage_none ho, report_none]
    | some .success => exact h.success (Node.handleGroupMessage_success ho)
    | some .failure =>
      obtain ⟨n₁, h₁, hn⟩ := Node.handleGroupMessage_failure W env ho
      obtain ⟨es, he, hm, hes⟩ := count_recordLiveFailure n₁ m.groupId
      rw [hn]
      exact h.failure h₁ hm he hes
  | synced env g m =>
    show Inv (w.report (w.node.handleSyncedMessage W env g m).2 g (w.node.syncedOutcome g m))
    match ho : w.node.syncedOutcome g m with
    | none => rwa [Node.handleSyncedMessage_none ho, report_none]
    | some .success => exact h.success (Node.handleSyncedMessage_success ho)
    | some .failure =>
      obtain ⟨n₁, h₁, hn⟩ := Node.handleSyncedMessage_failure W env ho
      rw [hn]
      -- nobody is told, and nobody was to be
      have hquiet : ¬ n₁.mls.crosses g = true := fun hc =>
        ((crosses_iff h h₁).1 hc).2 (hg ho ((crosses_iff h h₁).1 hc).1)
      have hnone : ∀ g', ([] : List Effect).count (.ws (.groupDesyncDetected g')) =
          if g = g' ∧ n₁.mls.crosses g = true then 1 else 0 := fun g' => by simp [hquiet]
      exact h.failure h₁ rfl (List.append_nil _).symm hnone
  | clear g => exact h.clear
  | other provider groups storage => exact ⟨h.counter, h.notices, h.cleared⟩

/-- The failure that completes the first run, reported by the sync listener, sets the flag and is not announced. -/
theorem not_announced (h : Inv w) {e : DesyncEvent M} (hg : ¬ w.Heard e) : ¬ (w.step W e).Announced := by
  cases e with
  | synced env g m =>
    unfold Heard at hg
    push Not at hg
    obtain ⟨ho, hcompletes, hfailing⟩ := hg
    intro ha
    obtain ⟨n₁, h₁, hn⟩ := Node.handleSyncedMessage_failure W env ho
    obtain ⟨es₁, he₁, hes₁⟩ := h₁.effects
    have hnotices : (w.report (w.node.handleSyncedMessage W env g m).2 g (w.node.syncedOutcome g m)).notices g =
      if (w.report (w.node.handleSyncedMessage W env g m).2 g (w.node.syncedOutcome g m)).Failing g then 1 else 0 :=
      (ha g).1
    rw [ho, if_pos (failing_failure.2 (Or.inl ⟨rfl, hcompletes⟩)), notices_report h ((congrArg Node.effects hn).trans he₁),
      List.count_eq_zero_of_not_mem (hes₁ g), h.notices g, if_neg hfailing] at hnotices
    omega
  | live env m => exact absurd trivial hg
  | clear g => exact absurd trivial hg
  | other provider groups storage => exact absurd trivial hg

/-- Along every run from the start, whatever listener reports what: in every state reached the user has been notified
once in the period if it has a run of failures as long as the threshold and else not, and of every flagged group, if
and only if no failure reported by the sync listener completes the first such run of a period. -/
theorem announced_iff (W : Wire) (w : DesyncWorld M) (h : w.Fresh) (es : List (DesyncEvent M)) :
    Guarded (desyncSys M W) (fun w e => (w.step W e).Announced) w es ↔ Guarded (desyncSys M W) Heard w es := by
  refine guarded_iff (I := Inv) (fun w e hw => ?_) (fun w e hw hg => hw.step hg) (inv_fresh h) es
  refine ⟨fun ha => ?_, fun hg => (hw.step hg).announced⟩
  by_contra hg
  exact not_announced hw hg ha

end DesyncWorld
namespace DesyncNotice

/-- A member of a group at its second epoch, just started. -/
def world : DesyncWorld idealMls where
  node :=
    { localDid := "did:a"
      mls :=
        { localDid := "did:a"
          provider := ⟨[], []⟩
          groups := (∅ : SledTree IdealMls.GroupState).insert "g" ⟨"g", "did:a", 2, ["did:a", "did:b"], [], none, []⟩
          desyncCounters := ∅ }
      storage := LocalMessageStorage.empty
      effects := [] }
  outcomes := fun _ => []
  cleared := fun _ => 0

def env : Env := { now := 0, rng := 0, ulid := "", faults := noFaults, dmOk := true }

/-- A commit of an epoch that the group has left behind. -/
def stale (id : String) : GroupMessage :=
  { id, senderDid := "did:b", groupId := "g", timestamp := 0, type := 0, replyTo := none
    mlsCiphertext := IdealMls.messageCodec.enc (.commit "g" ⟨"did:b", 0, 1, [], []⟩) }

theorem fresh_world : world.Fresh := ⟨rfl, rfl, rfl, rfl⟩

/-- A synced batch of three such commits flags the group, and nobody is told. -/
theorem batch_unannounced : ¬ ∀ w : DesyncWorld idealMls, w.Fresh → ∀ es,
    StepSystem.Guarded (desyncSys idealMls idealWire) (fun w e => (w.step idealWire e).Announced) w es := by
  intro h
  have hg := h world fresh_world [.synced env "g" (stale "1"), .synced env "g" (stale "2"), .synced env "g" (stale "3")]
  have hflag := (hg.2.2.1 "g").2
  revert hflag
  decide +kernel

/-- The same three come in live. -/
theorem live_announced : StepSystem.Guarded (desyncSys idealMls idealWire) (fun w e => (w.step idealWire e).Announced)
    world [.live env (stale "1"), .live env (stale "2"), .live env (stale "3")] :=
  (DesyncWorld.announced_iff idealWire world fresh_world _).2 ⟨trivial, trivial, trivial, trivial⟩

end DesyncNotice
end Variance
