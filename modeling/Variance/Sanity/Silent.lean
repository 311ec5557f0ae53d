import Variance.Spec.Desync

/-! What the two group listeners do to the desync counters and say of them: nothing, a success, or a failure, as the
outcome of a message has it. -/

namespace Variance

section Handler
variable {M : OpenMls} {h : MlsGroupHandler M} {gid g : String}

namespace MlsGroupHandler

def desyncCounter (h : MlsGroupHandler M) (g : String) : DesyncCounter := (h.desyncCounters[g]?).getD ⟨0, false⟩

theorem desyncCounter_congr {h' : MlsGroupHandler M} (hc : h'.desyncCounters = h.desyncCounters) (g : String) :
    h'.desyncCounter g = h.desyncCounter g := by
  rw [desyncCounter, hc, desyncCounter]

theorem isDesynced_eq (h : MlsGroupHandler M) (g : String) : h.isDesynced g = (h.desyncCounter g).flagged := by
  unfold isDesynced desyncCounter
  cases h.desyncCounters[g]? <;> rfl

theorem desyncCounter_success (h : MlsGroupHandler M) (gid g : String) :
    (h.recordProcessingSuccess gid).desyncCounter g =
      if gid = g then { h.desyncCounter g with consecutiveFailures := 0 } else h.desyncCounter g := by
  unfold recordProcessingSuccess
  split
  · rename_i hnone
    split_ifs with heq
    · subst heq
      simp [desyncCounter, hnone]
    · rfl
  · rename_i c hsome
    split_ifs with heq
    · subst heq
      simp [desyncCounter, hsome]
    · simp [desyncCounter, Std.ExtTreeMap.getElem?_insert, heq]

theorem desyncCounter_clear (h : MlsGroupHandler M) (gid g : String) :
    (h.clearDesync gid).desyncCounter g = if gid = g then ⟨0, false⟩ else h.desyncCounter g := by
  unfold clearDesync
  split
  · rename_i hnone
    split_ifs with heq
    · subst heq
      simp [desyncCounter, hnone]
    · rfl
  · split_ifs with heq
    · subst heq
      simp [desyncCounter]
    · simp [desyncCounter, Std.ExtTreeMap.getElem?_insert, heq]

/-- This failure brings the count to the threshold, and no notice is out. -/
def crosses (h : MlsGroupHandler M) (gid : String) : Bool :=
  decide (desyncThreshold ≤ (h.desyncCounter gid).consecutiveFailures + 1) && !(h.desyncCounter gid).flagged

theorem recordProcessingFailure_fst (h : MlsGroupHandler M) (gid : String) :
    (h.recordProcessingFailure gid).1 = h.crosses gid := rfl

theorem desyncCounter_failure (h : MlsGroupHandler M) (gid g : String) :
    (h.recordProcessingFailure gid).2.desyncCounter g =
      if gid = g then ⟨(h.desyncCounter g).consecutiveFailures + 1, (h.desyncCounter g).flagged || h.crosses g⟩
      else h.desyncCounter g := by
  unfold recordProcessingFailure
  split_ifs with heq
  · subst heq
    simp only [desyncCounter, Std.ExtTreeMap.getElem?_insert_self, Option.getD_some]
    rfl
  · simp [desyncCounter, Std.ExtTreeMap.getElem?_insert, heq]

theorem desyncCounters_withGroup {α : Type} (h : MlsGroupHandler M) (gid : String) (wrap : String → MsgError)
    (op : M.GroupOp α) : (h.withGroup gid wrap op).2.desyncCounters = h.desyncCounters := by
  unfold withGroup
  split <;> rfl

theorem desyncCounters_processMessage (h : MlsGroupHandler M) (gid : String) (m : M.Message) :
    (h.processMessage gid m).2.desyncCounters = h.desyncCounters := by
  unfold processMessage
  split
  · rfl
  split
  · rfl
  rename_i pm _
  have hproc := desyncCounters_withGroup h gid (fun e => .decryption ("MLS process_message failed: " ++ e))
    (M.processMessage pm)
  split
  all_goals
    rename_i heq
    rw [heq] at hproc
  · exact hproc
  · exact hproc
  · exact (desyncCounters_withGroup _ _ _ _).trans hproc
  · exact (desyncCounters_withGroup _ _ _ _).trans hproc
  · exact hproc

theorem decryption_failure {m : M.Message} (hd : h.decryption gid m = .failure) :
    ∃ e mls, h.processMessage gid m = (.error e, mls) ∧ mls.desyncCounters = h.desyncCounters := by
  have hc := h.desyncCounters_processMessage gid m
  unfold decryption at hd
  generalize h.processMessage gid m = r at hd hc
  obtain ⟨res, mls⟩ := r
  cases res with
  | error e => exact ⟨e, mls, rfl, hc⟩
  | ok d => cases hd

theorem decryption_success {m : M.Message} (hd : h.decryption gid m = .success) :
    ∃ d mls, h.processMessage gid m = (.ok d, mls) ∧ mls.desyncCounters = h.desyncCounters := by
  have hc := h.desyncCounters_processMessage gid m
  unfold decryption at hd
  generalize h.processMessage gid m = r at hd hc
  obtain ⟨res, mls⟩ := r
  cases res with
  | error e => cases hd
  | ok d => exact ⟨d, mls, rfl, hc⟩

theorem desyncCounters_commitPendingProposals (h : MlsGroupHandler M) (gid : String) (rng : ℕ) :
    (h.commitPendingProposals gid rng).2.desyncCounters = h.desyncCounters := by
  unfold commitPendingProposals
  split
  · rfl
  split_ifs
  · rfl
  have hcommit := desyncCounters_withGroup h gid (fun e => .mlsCommit ("Failed to commit pending proposals: " ++ e))
    (M.commitToPendingProposals h.localDid rng)
  split
  all_goals
    rename_i heq
    rw [heq] at hcommit
  · exact hcommit
  · exact (desyncCounters_withGroup _ _ _ _).trans hcommit

theorem desyncCounters_removeGroup (h : MlsGroupHandler M) (gid : String) :
    (h.removeGroup gid).desyncCounters = h.desyncCounters := by
  unfold removeGroup
  split <;> rfl

end MlsGroupHandler
end Handler

namespace Node
variable {M : OpenMls} {W : Wire} {env : Env} {n n₁ n₂ : Node M}

/-- What happens without a word about desyncs. -/
structure Silent (n n' : Node M) : Prop where
  counters : n'.mls.desyncCounters = n.mls.desyncCounters
  effects : ∃ es, n'.effects = n.effects ++ es ∧ ∀ g, Effect.ws (.groupDesyncDetected g) ∉ es

namespace Silent

theorem refl (n : Node M) : Silent n n := ⟨rfl, [], by simp, by simp⟩

theorem trans (h₁ : Silent n n₁) (h₂ : Silent n₁ n₂) : Silent n n₂ := by
  obtain ⟨es₁, he₁, hes₁⟩ := h₁.effects
  obtain ⟨es₂, he₂, hes₂⟩ := h₂.effects
  refine ⟨h₂.counters.trans h₁.counters, es₁ ++ es₂, ?_, fun g hg => ?_⟩
  · rw [he₂, he₁, List.append_assoc]
  · rcases List.mem_append.1 hg with hg | hg
    · exact hes₁ g hg
    · exact hes₂ g hg

theorem mls (h₁ : Silent n n₁) {mls : MlsGroupHandler M} (hc : mls.desyncCounters = n₁.mls.desyncCounters) :
    Silent n { n₁ with mls } := ⟨hc.trans h₁.counters, h₁.effects⟩

theorem storage (h₁ : Silent n n₁) (s : LocalMessageStorage) : Silent n { n₁ with storage := s } :=
  ⟨h₁.counters, h₁.effects⟩

theorem store (h₁ : Silent n n₁) (op : LocalMessageStorage → Except MsgError Unit × LocalMessageStorage) :
    Silent n (n₁.store op) := h₁.storage _

theorem emit (h₁ : Silent n n₁) {e : Effect} (he : ∀ g, e ≠ .ws (.groupDesyncDetected g)) : Silent n (n₁.emit e) := by
  refine h₁.trans ⟨rfl, [e], rfl, fun g hg => ?_⟩
  exact he g (List.mem_singleton.1 hg).symm

theorem refreshKeyPackage (h₁ : Silent n n₁) (persist : Bool) : Silent n (n₁.refreshKeyPackage env persist) := by
  unfold Node.refreshKeyPackage
  split
  all_goals
    rename_i heq
    have hc := congrArg (·.2.desyncCounters) heq
  · exact h₁.mls hc.symm
  · have h₂ := h₁.mls hc.symm
    dsimp only
    split
    · exact h₂
    · split_ifs
      · exact (h₂.emit fun _ => Effect.noConfusion).emit fun _ => Effect.noConfusion
      · exact h₂.emit fun _ => Effect.noConfusion

theorem publishGroupReceipt (h₁ : Silent n n₁) (gid : String) (r : GroupReadReceipt) :
    Silent n (n₁.publishGroupReceiptFromEventRouter W env gid r) := by
  unfold publishGroupReceiptFromEventRouter
  split
  all_goals
    rename_i heq
    have hc := congrArg (·.2.desyncCounters) heq
    have h₂ := h₁.mls (hc.symm.trans (MlsGroupHandler.desyncCounters_withGroup _ _ _ _))
  · exact h₂
  · dsimp only
    split
    · exact h₂
    · exact (h₂.emit fun _ => Effect.noConfusion).emit fun _ => Effect.noConfusion

theorem storeGroupContent (h₁ : Silent n n₁) (m : GroupMessage) (c : MessageContent) :
    Silent n (n₁.storeGroupContent W env m c) := by
  have h₂ := ((h₁.store fun s => s.storeGroup env.faults m).store fun s => s.storeGroupPlaintext env.faults m.id c).emit
    (e := .ws (.groupMessageReceived m.groupId m.senderDid m.id m.timestamp)) fun _ h => by cases h
  unfold Node.storeGroupContent
  dsimp only
  split_ifs
  · exact h₂
  · split
    all_goals
      rename_i heq
      obtain rfl := congrArg Prod.snd heq
    · exact h₂.storage _
    · exact (h₂.storage _).publishGroupReceipt _ _

theorem freezeGroup (h₁ : Silent n n₁) (gid : String) (admin : Option Did) :
    Silent n (n₁.freezeGroup env gid admin) := by
  unfold Node.freezeGroup
  split
  · exact h₁
  · exact h₁.store _

theorem handleGroupMessageContent (h₁ : Silent n n₁) (m : GroupMessage) (c : MessageContent) :
    Silent n (n₁.handleGroupMessageContent W env m c) := by
  unfold Node.handleGroupMessageContent
  split
  · exact (h₁.freezeGroup _ _).emit fun _ h => by cases h
  · split
    · exact (h₁.storage _).emit fun _ h => by cases h
    · exact h₁
  · exact h₁.storeGroupContent _ _

theorem handleGroupReceipt (h₁ : Silent n n₁) (gid : String) (r : GroupReadReceipt) :
    Silent n (n₁.handleGroupReceipt env gid r) := by
  unfold Node.handleGroupReceipt
  split
  · exact h₁
  · split
    · exact h₁
    · refine (h₁.storage _).emit fun _ h => ?_
      split_ifs at h <;> cases h

theorem handleGroupPlaintext (h₁ : Silent n n₁) (m : GroupMessage) (b : Bytes) :
    Silent n (n₁.handleGroupPlaintext W env m b) := by
  unfold Node.handleGroupPlaintext
  split
  · exact h₁.handleGroupReceipt _ _
  · exact h₁.handleGroupMessageContent _ _
  · split
    · exact h₁.handleGroupMessageContent _ _
    · exact h₁

theorem autoCommitProposals (h₁ : Silent n n₁) (gid : String) (ds : List Did) :
    Silent n (n₁.autoCommitProposals env gid ds).2 := by
  unfold Node.autoCommitProposals
  split
  all_goals
    rename_i heq
    have hc := congrArg (·.2.desyncCounters) heq
    have h₂ := h₁.mls (hc.symm.trans (MlsGroupHandler.desyncCounters_commitPendingProposals _ _ _))
  · exact h₂
  · exact h₂
  · dsimp only
    split
    · exact h₂.emit fun _ => Effect.noConfusion
    · exact (h₂.emit fun _ => Effect.noConfusion).emit fun _ => Effect.noConfusion

theorem cleanUpAfterRemoval (h₁ : Silent n n₁) (gid : String) : Silent n (n₁.cleanUpAfterRemoval env gid) := by
  have h₂ := h₁.emit (e := .unsubscribe (groupTopic gid)) fun _ => Effect.noConfusion
  have h₃ := (h₂.mls (MlsGroupHandler.desyncCounters_removeGroup _ gid)).emit (e := .schedulePersist)
    fun _ => Effect.noConfusion
  unfold Node.cleanUpAfterRemoval
  exact ((h₃.storage _).emit (e := .ws (.mlsGroupRemoved gid "kicked")) fun _ h => by cases h).refreshKeyPackage true

theorem settleMembers (h₁ : Silent n n₁) (gid : String) (before after : List Did) :
    Silent n (n₁.settleMembers env gid before after) := by
  unfold Node.settleMembers
  split_ifs
  · rename_i hin
    clear hin
    induction before.filter fun m => m ∉ after generalizing n₁ with
    | nil => exact h₁
    | cons d ds ih => exact ih (h₁.emit (e := .ws (.groupMemberRemoved gid d)) fun _ h => by cases h)
  · exact h₁.cleanUpAfterRemoval _

theorem afterHandshake (h₁ : Silent n n₁) (gid : String) (before : List Did) :
    Silent n (n₁.afterHandshake env gid before) := by
  have h₂ := h₁.emit (e := .schedulePersist) fun _ => Effect.noConfusion
  unfold Node.afterHandshake
  dsimp only
  split_ifs
  · exact (h₂.autoCommitProposals _ _).settleMembers _ _ _
  · exact h₂.settleMembers _ _ _

end Silent

/-- A report of a success, and what follows it. -/
def Succeeds (gid : String) (n n' : Node M) : Prop :=
  ∃ n₁, Silent n n₁ ∧ Silent { n₁ with mls := n₁.mls.recordProcessingSuccess gid } n'

theorem handleGroupMessage_none {m : GroupMessage} (ho : n.liveOutcome m = none) :
    n.handleGroupMessage W env m = n := by
  unfold liveOutcome at ho
  unfold handleGroupMessage
  split_ifs at ho ⊢
  · rfl
  · split at ho <;> cases ho

/-- The live listener after a failure: reported, with the notice when it is due. -/
theorem handleGroupMessage_failure (W : Wire) (env : Env) {m : GroupMessage} (ho : n.liveOutcome m = some .failure) :
    ∃ n₁, Silent n n₁ ∧ n.handleGroupMessage W env m = n₁.recordLiveFailure m.groupId := by
  unfold liveOutcome at ho
  unfold handleGroupMessage
  split_ifs at ho ⊢
  cases hd : M.deserializeMessage m.mlsCiphertext with
  | error e => exact ⟨n, .refl n, rfl⟩
  | ok mlsMsg =>
    rw [hd] at ho
    obtain ⟨e, mls, hp, hc⟩ := MlsGroupHandler.decryption_failure (Option.some.inj ho)
    dsimp only
    rw [hp]
    exact ⟨_, (Silent.refl n).mls hc, rfl⟩

theorem handleGroupMessage_success {m : GroupMessage} (ho : n.liveOutcome m = some .success) :
    Succeeds m.groupId n (n.handleGroupMessage W env m) := by
  unfold liveOutcome at ho
  unfold handleGroupMessage
  split_ifs at ho ⊢
  cases hd : M.deserializeMessage m.mlsCiphertext with
  | error e =>
    rw [hd] at ho
    cases ho
  | ok mlsMsg =>
    rw [hd] at ho
    obtain ⟨d, mls, hp, hc⟩ := MlsGroupHandler.decryption_success (Option.some.inj ho)
    dsimp only
    rw [hp]
    refine ⟨_, (Silent.refl n).mls hc, ?_⟩
    cases d with
    | none => exact (Silent.refl _).afterHandshake _ _
    | some d => exact ((Silent.refl _).handleGroupPlaintext _ _).emit fun _ => Effect.noConfusion

theorem handleSyncedMessage_none {gid : String} {m : GroupMessage} (ho : n.syncedOutcome gid m = none) :
    (n.handleSyncedMessage W env gid m).2 = n := by
  unfold syncedOutcome at ho
  unfold handleSyncedMessage
  split_ifs at ho ⊢
  · rfl
  · rfl
  · cases hd : M.deserializeMessage m.mlsCiphertext with
    | error e => rfl
    | ok mlsMsg =>
      rw [hd] at ho
      cases ho

/-- The sync listener after a failure: reported, and the answer dropped. -/
theorem handleSyncedMessage_failure (W : Wire) (env : Env) {gid : String} {m : GroupMessage}
    (ho : n.syncedOutcome gid m = some .failure) :
    ∃ n₁, Silent n n₁ ∧
      (n.handleSyncedMessage W env gid m).2 = { n₁ with mls := (n₁.mls.recordProcessingFailure gid).2 } := by
  unfold syncedOutcome at ho
  unfold handleSyncedMessage
  split_ifs at ho ⊢
  cases hd : M.deserializeMessage m.mlsCiphertext with
  | error e =>
    rw [hd] at ho
    cases ho
  | ok mlsMsg =>
    rw [hd] at ho
    obtain ⟨e, mls, hp, hc⟩ := MlsGroupHandler.decryption_failure (Option.some.inj ho)
    dsimp only
    rw [hp]
    exact ⟨_, (Silent.refl n).mls hc, rfl⟩

theorem handleSyncedMessage_success {gid : String} {m : GroupMessage} (ho : n.syncedOutcome gid m = some .success) :
    Succeeds gid n (n.handleSyncedMessage W env gid m).2 := by
  unfold syncedOutcome at ho
  unfold handleSyncedMessage
  split_ifs at ho ⊢
  cases hd : M.deserializeMessage m.mlsCiphertext with
  | error e =>
    rw [hd] at ho
    cases ho
  | ok mlsMsg =>
    rw [hd] at ho
    obtain ⟨d, mls, hp, hc⟩ := MlsGroupHandler.decryption_success (Option.some.inj ho)
    dsimp only
    rw [hp]
    refine ⟨_, (Silent.refl n).mls hc, ?_⟩
    cases d with
    | none => exact .refl _
    | some d =>
      refine Silent.emit ?_ fun _ h => by cases h
      split
      · exact ((Silent.refl _).store _).store _
      · exact (Silent.refl _).store _

end Node

end Variance
