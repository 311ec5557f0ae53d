import Variance.Sanity.Writes
import Variance.Spec.Mls
import Variance.Spec.Reinit

/-! The parts of a recovery request: what it does when it stops early, what the handler's result is made into,
the metadata that is copied and the Welcomes that are sent. -/

namespace Variance
namespace Node
variable {M : OpenMls} {n : Node M} {W : Wire} {env : Env} {net : ReinitNet} {id : String}

/-- The metadata kept under the new id once the old is copied there. -/
def metadataAfter (n : Node M) (env : Env) (id newId : String) : Option Group :=
  match n.storage.fetchGroupMetadata id with
  | none => n.storage.fetchGroupMetadata newId
  | some m =>
    if env.faults "group_metadata" newId then n.storage.fetchGroupMetadata newId else some { m with id := newId }

/-- A request that does not get to the reinitialisation changes nothing. -/
theorem mlsReinitializeGroup_early (env : Env) (h : ∀ kps, ¬ n.Collects W net id kps) :
    ∃ e, n.mlsReinitializeGroup W env net id = (.error e, n) := by
  unfold mlsReinitializeGroup
  cases hr : n.requireRole id "admin" with
  | error e => exact ⟨e, rfl⟩
  | ok u =>
    dsimp only
    split_ifs
    · exact ⟨_, rfl⟩
    · cases hm : n.mls.listMembers id with
      | error e => exact ⟨_, rfl⟩
      | ok members =>
        dsimp only
        cases hc : collectKeyPackages M W net n.localDid members ∅ with
        | error e => exact ⟨e, rfl⟩
        | ok kps => exact (h kps ⟨hr, members, hm, hc⟩).elim

/-- One that does goes by what the handler makes of it. -/
theorem mlsReinitializeGroup_late (env : Env) {kps : SledTree M.KeyPackage} (hc : n.Collects W net id kps) :
    n.mlsReinitializeGroup W env net id =
      match n.mls.reinitializeGroup id kps env.rng with
      | (.error e, mls) => (.error (.wrap "Failed to reinitialize group" e), { n with mls })
      | (.ok result, mls) =>
        match sendWelcomes W env net id result.newGroupId result.welcomes
            ((emit { n with mls } (.subscribe (groupTopic result.newGroupId))).copyMetadata env id
              result.newGroupId) with
        | (.error e, n) => (.error e, n)
        | (.ok reinvited, n) =>
          (.ok ⟨result.newGroupId, reinvited, result.members.length⟩,
            (n.emit .schedulePersist).emit (.ws (.groupReinitialized id result.newGroupId))) := by
  obtain ⟨hr, members, hm, hk⟩ := hc
  have hin : (n.mls.groups[id]?).isNone = false := by
    unfold MlsGroupHandler.listMembers at hm
    cases hg : n.mls.groups[id]? with
    | none => simp [hg] at hm
    | some g => rfl
  unfold mlsReinitializeGroup
  simp only [hr, hin, hm, hk]
  rfl

theorem listMembers_eq {h : MlsGroupHandler M} {g : M.Group} (hg : h.groups[id]? = some g) :
    h.listMembers id = .ok (M.dids g) ∧ h.membersOrDefault id = M.dids g := by
  have hl : h.listMembers id = .ok (M.dids g) := by
    unfold MlsGroupHandler.listMembers
    rw [hg]
    rfl
  refine ⟨hl, ?_⟩
  unfold MlsGroupHandler.membersOrDefault
  rw [hl]

theorem copyMetadata_spec (n : Node M) (env : Env) (id newId : String) :
    (n.copyMetadata env id newId).mls = n.mls ∧ (n.copyMetadata env id newId).effects = n.effects ∧
      (n.copyMetadata env id newId).storage.fetchGroupMetadata newId = n.metadataAfter env id newId := by
  unfold copyMetadata metadataAfter
  cases n.storage.fetchGroupMetadata id with
  | none => exact ⟨rfl, rfl, rfl⟩
  | some m =>
    refine ⟨rfl, rfl, ?_⟩
    simp only [store_storage, LocalMessageStorage.fetchGroupMetadata, LocalMessageStorage.storeGroupMetadata,
      get_treeInsert]
    cases env.faults "group_metadata" newId <;> simp

theorem collects_unique {kps kps' : SledTree M.KeyPackage} (h : n.Collects W net id kps)
    (h' : n.Collects W net id kps') : kps' = kps := by
  obtain ⟨-, members, hm, hk⟩ := h
  obtain ⟨-, members', hm', hk'⟩ := h'
  obtain rfl := Except.ok.inj (hm.symm.trans hm')
  exact Except.ok.inj (hk'.symm.trans hk)

/-- The Welcomes on their way: a message for each member that can be reached, and nothing but such messages. -/
theorem sendWelcomes_spec (W : Wire) (env : Env) (net : ReinitNet) (id newId : String)
    (ts : List (Did × M.Message)) (n : Node M) :
    ∃ es, (sendWelcomes W env net id newId ts n).2 = { n with effects := n.effects ++ es } ∧
      (∀ e ∈ es, ∃ d c, e = .sendDm d c ∧ net.dmOk d = true) ∧
      ((∃ l, (sendWelcomes W env net id newId ts n).1 = .ok l) ↔ ∀ x ∈ ts, ∃ b, M.serializeMessage x.2 = .ok b) ∧
      ((∃ l, (sendWelcomes W env net id newId ts n).1 = .ok l) → ∀ x ∈ ts, net.dmOk x.1 = true →
        ∃ i, M.serializeMessage x.2 = .ok i.mlsWelcome ∧ Effect.sendDm x.1 (invitationContent W i) ∈ es) := by
  induction ts generalizing n with
  | nil => exact ⟨[], by simp [sendWelcomes], by simp, by simp [sendWelcomes], by simp⟩
  | cons x ts ih =>
    obtain ⟨d, w⟩ := x
    unfold sendWelcomes
    cases hs : M.serializeMessage w with
    | error e =>
      refine ⟨[], by simp, by simp, ?_, ?_⟩
      · simp [hs]
      · simp
    | ok b =>
      dsimp only
      split_ifs with hd
      · obtain ⟨es, hn, hall, hok, hin⟩ :=
          ih (n.emit (.sendDm d (invitationContent W (n.reinitInvitation env id newId d b))))
        have hmap : (∃ l, ((sendWelcomes W env net id newId ts
            (n.emit (.sendDm d (invitationContent W (n.reinitInvitation env id newId d b))))).1.map (d :: ·)) = .ok l) ↔
            ∃ l, (sendWelcomes W env net id newId ts
              (n.emit (.sendDm d (invitationContent W (n.reinitInvitation env id newId d b))))).1 = .ok l := by
          cases (sendWelcomes W env net id newId ts
            (n.emit (.sendDm d (invitationContent W (n.reinitInvitation env id newId d b))))).1 <;> simp [Except.map]
        refine ⟨.sendDm d (invitationContent W (n.reinitInvitation env id newId d b)) :: es, ?_, ?_, ?_, ?_⟩
        · rw [hn]
          simp [emit]
        · intro e he
          rcases List.mem_cons.1 he with rfl | he
          · exact ⟨_, _, rfl, hd⟩
          · exact hall e he
        · rw [hmap, hok]
          simp [hs]
        · intro hl x hx hdm
          rcases List.mem_cons.1 hx with rfl | hx
          · exact ⟨n.reinitInvitation env id newId d b, hs, by simp⟩
          · obtain ⟨i, hi, hmem⟩ := hin (hmap.1 hl) x hx hdm
            exact ⟨i, hi, by simp [hmem]⟩
      · obtain ⟨es, hn, hall, hok, hin⟩ := ih n
        refine ⟨es, hn, hall, ?_, ?_⟩
        · rw [hok]
          simp [hs]
        · intro hl x hx hdm
          rcases List.mem_cons.1 hx with rfl | hx
          · exact (hd hdm).elim
          · exact hin hl x hx hdm

theorem sendWelcomes_mls (W : Wire) (env : Env) (net : ReinitNet) (id newId : String) (ts : List (Did × M.Message))
    (n : Node M) :
    (sendWelcomes W env net id newId ts n).2.mls = n.mls := by
  obtain ⟨es, h, -⟩ := sendWelcomes_spec W env net id newId ts n
  rw [h]

end Node
end Variance
