import Variance.Sanity.Handshakes
import Variance.Sanity.Since

/-! What taking in a synced message does: it is stored under its own key if it is new and readable, and passed over
for good if it is not. -/

namespace Variance
namespace MlsGroupHandler
variable {M : OpenMls} {h : MlsGroupHandler M} {groupId : String} {b : Bytes}

theorem recordProcessingSuccess_same : (h.recordProcessingSuccess groupId).groups = h.groups ∧
    (h.recordProcessingSuccess groupId).provider = h.provider := by
  unfold recordProcessingSuccess
  split
  · exact ⟨rfl, rfl⟩
  · exact ⟨rfl, rfl⟩

theorem openGroupMessage_eq_some {msg : M.Message} {d : DecryptedMessage} (hd : M.deserializeMessage b = .ok msg)
    (hp : (h.processMessage groupId msg).1 = .ok (some d)) :
    h.openGroupMessage groupId b = some ((h.processMessage groupId msg).2.recordProcessingSuccess groupId) := by
  unfold openGroupMessage
  rw [hd]
  dsimp only
  split
  · rename_i heq
    rw [heq]
  · rename_i hne
    exact (hne d _ (Prod.ext hp rfl)).elim

theorem openGroupMessage_some {h' : MlsGroupHandler M} (ho : h.openGroupMessage groupId b = some h') :
    ∃ msg d, M.deserializeMessage b = .ok msg ∧ (h.processMessage groupId msg).1 = .ok (some d) := by
  unfold openGroupMessage at ho
  cases hd : M.deserializeMessage b with
  | error e =>
    rw [hd] at ho
    cases ho
  | ok msg =>
    rw [hd] at ho
    dsimp only at ho
    split at ho
    · rename_i d _ heq
      exact ⟨msg, d, rfl, by rw [heq]⟩
    · cases ho

/-- The handler reads what its group opens. -/
theorem openGroupMessage_iff : (∃ h', h.openGroupMessage groupId b = some h') ↔
    ∃ g, h.groups[groupId]? = some g ∧ M.Opens b h.provider g := by
  constructor
  · rintro ⟨h', ho⟩
    obtain ⟨msg, d, hd, hp⟩ := openGroupMessage_some ho
    by_cases hr : ∃ g pm, h.groups[groupId]? = some g ∧ M.tryIntoProtocolMessage msg = .ok pm
    · obtain ⟨g, pm, hg, ht⟩ := hr
      have hres := (processMessage_received hg ht).2.2
      rw [hp] at hres
      exact ⟨g, hg, pm, d, ⟨msg, hd, ht⟩, hres.symm⟩
    · obtain ⟨e, he⟩ := processMessage_refused hr
      rw [he] at hp
      cases hp
  · rintro ⟨g, hg, pm, d, ⟨msg, hd, ht⟩, hres⟩
    rw [← (processMessage_received hg ht).2.2] at hres
    have hp : (h.processMessage groupId msg).1 = .ok (some d) := by
      cases hr : (h.processMessage groupId msg).1 with
      | error e =>
        rw [hr] at hres
        cases hres
      | ok r =>
        rw [hr] at hres
        exact congrArg Except.ok (Option.some.inj hres)
    exact ⟨_, openGroupMessage_eq_some hd hp⟩

end MlsGroupHandler

namespace Node
variable {M : OpenMls} {W : Wire} {env : Env} {groupId : String} {n : Node M} {m x : GroupMessage}

/-- The message is new and readable. -/
def Taken (n : Node M) (groupId : String) (m : GroupMessage) : Prop :=
  n.storage.hasGroupMessage groupId m.id = false ∧ m.mlsCiphertext ≠ [] ∧
    ∃ h', n.mls.openGroupMessage groupId m.mlsCiphertext = some h'

/-- Stored under its key, with the group one message on. -/
theorem synced_taken (hf : env.faults = noFaults) (h : n.Taken groupId m) :
    (n.handleSyncedMessage W env groupId m).2.storage.groupMessages = n.storage.groupMessages.insert m.key m ∧
      n.mls.openGroupMessage groupId m.mlsCiphertext = some (n.handleSyncedMessage W env groupId m).2.mls := by
  obtain ⟨hnew, hne, h', ho⟩ := h
  obtain ⟨msg, d, hd, hp⟩ := MlsGroupHandler.openGroupMessage_some ho
  rw [MlsGroupHandler.openGroupMessage_eq_some hd hp]
  unfold handleSyncedMessage
  rw [if_neg (by simp [hnew]), if_neg hne, hd]
  dsimp only
  rcases hr : n.mls.processMessage groupId msg with ⟨r, mls⟩
  rw [hr] at hp
  dsimp only at hp
  subst hp
  have hstore (s : LocalMessageStorage) :
      (s.storeGroup env.faults m).2.groupMessages = s.groupMessages.insert m.key m := by
    rw [hf]
    rfl
  dsimp only
  split
  · exact ⟨by simpa [persistGroupPlaintext, LocalMessageStorage.storeGroupPlaintext] using hstore _, rfl⟩
  · exact ⟨by simpa using hstore _, rfl⟩

/-- Nothing stored, whatever became of the group. -/
theorem synced_passed (h : ¬ n.Taken groupId m) :
    (n.handleSyncedMessage W env groupId m).2.storage.groupMessages = n.storage.groupMessages := by
  unfold handleSyncedMessage
  by_cases hhas : n.storage.hasGroupMessage groupId m.id = true
  · rw [if_pos hhas]
  rw [if_neg hhas]
  by_cases hnil : m.mlsCiphertext = []
  · rw [if_pos hnil]
  rw [if_neg hnil]
  cases hd : M.deserializeMessage m.mlsCiphertext with
  | error e => rfl
  | ok msg =>
    dsimp only
    rcases hr : n.mls.processMessage groupId msg with ⟨⟨e⟩ | ⟨_ | d⟩, mls⟩
    · rfl
    · rfl
    · exact (h ⟨by simpa using hhas, hnil, _, MlsGroupHandler.openGroupMessage_eq_some hd (by rw [hr])⟩).elim

/-- The group is as it was, or has processed the message. -/
theorem synced_group (n : Node M) (W : Wire) (env : Env) (groupId : String) (m : GroupMessage) :
    ((n.handleSyncedMessage W env groupId m).2.mls.groups = n.mls.groups ∧
      (n.handleSyncedMessage W env groupId m).2.mls.provider = n.mls.provider) ∨
    ∃ pm g, M.Reads m.mlsCiphertext pm ∧ n.mls.groups[groupId]? = some g ∧
      (n.handleSyncedMessage W env groupId m).2.mls.groups[groupId]? = some (M.receive pm n.mls.provider g).2 ∧
      (n.handleSyncedMessage W env groupId m).2.mls.provider = (M.receive pm n.mls.provider g).1 := by
  unfold handleSyncedMessage
  by_cases hhas : n.storage.hasGroupMessage groupId m.id = true
  · rw [if_pos hhas]
    exact Or.inl ⟨rfl, rfl⟩
  rw [if_neg hhas]
  by_cases hnil : m.mlsCiphertext = []
  · rw [if_pos hnil]
    exact Or.inl ⟨rfl, rfl⟩
  rw [if_neg hnil]
  cases hd : M.deserializeMessage m.mlsCiphertext with
  | error e => exact Or.inl ⟨rfl, rfl⟩
  | ok msg =>
    dsimp only
    by_cases hr : ∃ g pm, n.mls.groups[groupId]? = some g ∧ M.tryIntoProtocolMessage msg = .ok pm
    · obtain ⟨g, pm, hg, ht⟩ := hr
      have hgs := (MlsGroupHandler.processMessage_received hg ht).2.1
      have hpr := MlsGroupHandler.processMessage_provider hg ht
      refine Or.inr ⟨pm, g, ⟨msg, hd, ht⟩, hg, ?_⟩
      rcases hp : n.mls.processMessage groupId msg with ⟨⟨e⟩ | d, mls⟩
      · rw [hp] at hgs hpr
        dsimp only at hgs hpr
        exact ⟨by simp [MlsGroupHandler.recordProcessingFailure, hgs], hpr⟩
      · rw [hp] at hgs hpr
        have hsame : (mls.recordProcessingSuccess groupId).groups = mls.groups ∧
            (mls.recordProcessingSuccess groupId).provider = mls.provider :=
          MlsGroupHandler.recordProcessingSuccess_same
        have hget : (mls.recordProcessingSuccess groupId).groups[groupId]? =
            some (M.receive pm n.mls.provider g).2 := by
          rw [hsame.1]
          dsimp only at hgs
          rw [hgs]
          simp
        cases d with
        | none => exact ⟨hget, hsame.2.trans hpr⟩
        | some d =>
          dsimp only
          split
          · exact ⟨hget, hsame.2.trans hpr⟩
          · exact ⟨hget, hsame.2.trans hpr⟩
    · obtain ⟨e, he⟩ := MlsGroupHandler.processMessage_refused hr
      rw [he]
      exact Or.inl ⟨rfl, rfl⟩

end Node
end Variance
