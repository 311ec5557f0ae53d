import Variance.Sanity.IdealMls
import Variance.Spec.MlsState

/-! The ideal MLS keeps what it writes: its key store is bytes and back, and every group is loaded as it was saved. -/

namespace Variance
namespace IdealMls

def groupCodec : Codec GroupState :=
  (Codec.prod .string (.prod .string (.prod .nat (.prod (.list .string) (.prod (.list commitCodec)
    (.prod (.option commitCodec) (.list .string))))))).map
    (fun g => (g.id, g.localDid, g.epoch, g.members, g.applied, g.pending, g.proposals))
    (fun p => ⟨p.1, p.2.1, p.2.2.1, p.2.2.2.1, p.2.2.2.2.1, p.2.2.2.2.2.1, p.2.2.2.2.2.2⟩) fun _ => rfl

def providerCodec : Codec Provider :=
  (Codec.prod (.list keyPackageCodec) (.list groupCodec)).map (fun p => (p.privates, p.groups)) (fun p => ⟨p.1, p.2⟩)
    fun _ => rfl

/-- All of it under one key. A keypair takes no room. -/
def keyStore : MlsKeyStore idealMls where
  default := (⟨[], []⟩ : Provider)
  values p := (∅ : KeyValues).insert [] (providerCodec.enc p)
  withValues _ t := ((t[([] : Bytes)]?).bind providerCodec.decode).getD (⟨[], []⟩ : Provider)
  storeKeypair _ p := .ok p
  idBytes g := utf8Bytes (idealMls.groupId g)

def snapshotCodec : Codec StateSnapshot :=
  (Codec.prod (.list .string) (.list (.prod .string .string))).map (fun s => (s.groupIds, s.storageEntries))
    (fun p => ⟨p.1, p.2⟩) fun _ => rfl

def stateCodec : StateCodec where
  toVec s := .ok (snapshotCodec.enc s)
  fromSlice b := (snapshotCodec.decode b).elim (.error "EOF while parsing a value") .ok
  hexError _ := "Invalid string length"

theorem stateCodec_lawful : stateCodec.Lawful := fun s => ⟨snapshotCodec.enc s, rfl, by simp [stateCodec]⟩

section
variable {p : Provider} {g : GroupState} {id : String}

theorem find_save : (p.save g).groups.find? (fun x => x.id = g.id) = some g := by
  simp [Provider.save]

theorem find_forget_of_ne (h : id ≠ g.id) :
    (p.forget g.id).groups.find? (fun x => x.id = id) = p.groups.find? fun x => x.id = id := by
  unfold Provider.forget
  rw [List.find?_filter]
  refine congrArg (List.find? · p.groups) (funext fun x => ?_)
  by_cases hx : x.id = id
  · simp [hx, h]
  · simp [hx]

theorem find_save_of_ne (h : id ≠ g.id) :
    (p.save g).groups.find? (fun x => x.id = id) = p.groups.find? fun x => x.id = id := by
  refine Eq.trans ?_ (find_forget_of_ne h)
  simp [Provider.save, Provider.forget, Ne.symm h]

theorem holds_iff : keyStore.Holds p g ↔ p.groups.find? (fun x => x.id = g.id) = some g := by
  refine ⟨fun h => by simpa [idealMls] using h.2, fun h => ⟨rfl, ?_⟩⟩
  simpa [idealMls] using h

theorem holds_save : keyStore.Holds (p.save g) g := holds_iff.2 find_save

theorem spares_save : keyStore.Spares p (p.save g) {g.id} :=
  ⟨fun _ hid => congrArg Except.ok (find_save_of_ne hid), fun _ _ => rfl⟩

theorem spares_forget : keyStore.Spares p (p.forget g.id) {g.id} :=
  ⟨fun _ hid => congrArg Except.ok (find_forget_of_ne hid), fun _ _ => rfl⟩

/-- The stored groups are the same. -/
theorem spares_of_groups {p' : Provider} {but : Set String} (h : p'.groups = p.groups) : keyStore.Spares p p' but :=
  ⟨fun id _ => by simp only [idealMls, h], fun _ _ => rfl⟩

/-- A call leaves all as it is, or saves the group under its id. -/
theorem durable_of {α : Type} {op : idealMls.GroupOp α}
    (h : ∀ (p : Provider) (g : GroupState), (op p g).2 = (p, g) ∨
      ∃ g' : GroupState, g'.id = g.id ∧ (op p g).2 = (p.save g', g')) : keyStore.Durable op := by
  intro p g hg
  rcases h p g with hsame | ⟨g', hid, hsave⟩
  · rw [hsame]
    exact ⟨rfl, hg, spares_of_groups rfl⟩
  · rw [hsave]
    have hspares : keyStore.Spares p (p.save g') {g'.id} := spares_save
    rw [hid] at hspares
    exact ⟨hid, holds_save, hspares⟩

theorem propose_saves {α : Type} (c : Commit) (a : α) : (propose p g c a).2 = (p, g) ∨
    ∃ g' : GroupState, g'.id = g.id ∧ (propose p g c a).2 = (p.save g', g') := by
  unfold propose
  split_ifs
  · exact Or.inl rfl
  · exact Or.inr ⟨{ g with pending := some c }, rfl, rfl⟩

end

theorem keyStore_lawful : keyStore.Lawful where
  withValues_values p p' := by
    have hback := providerCodec.decode_enc p'
    simp only [keyStore, Std.ExtTreeMap.getElem?_insert_self, Option.bind_some, hback]
    rfl
  storeKeypair _ p := ⟨p, rfl, rfl, fun _ => rfl⟩
  buildKeyPackage _ _ _ := spares_of_groups rfl
  create := by
    intro did id rng p g p' h
    simp only [idealMls] at h
    split_ifs at h
    · cases h
    · cases h
      exact ⟨rfl, holds_save, spares_save⟩
  create_error := by
    intro did id rng p e p' h
    simp only [idealMls] at h
    split_ifs at h
    · cases h
      exact spares_of_groups rfl
    · cases h
  stage := by
    intro w p
    simp only [idealMls]
    split
    · exact spares_of_groups rfl
    · exact spares_of_groups rfl
  join := by
    intro s p g p' h
    simp only [idealMls] at h
    split_ifs at h
    · cases h
    · cases h
      exact ⟨fun _ => holds_save, spares_save⟩
    · cases h
  join_error := by
    intro s p e p' h
    simp only [idealMls] at h
    split_ifs at h
    · cases h
      exact spares_of_groups rfl
    · cases h
    · cases h
      exact spares_of_groups rfl
  delete _ _ _ := spares_forget
  addMembers did rng kps := durable_of fun p g => by
    simp only [idealMls]
    split_ifs
    · exact propose_saves _ _
    · exact Or.inl rfl
  removeMembers _ _ _ := durable_of fun p g => propose_saves _ _
  mergePendingCommit := durable_of fun p g => by
    simp only [idealMls]
    split
    · exact Or.inl rfl
    · rename_i c _
      exact Or.inr ⟨GroupState.apply g c, rfl, rfl⟩
  clearPendingCommit := durable_of fun p g => Or.inr ⟨{ g with pending := none }, rfl, rfl⟩
  createMessage _ _ _ := durable_of fun p g => by
    simp only [idealMls]
    split_ifs
    · exact Or.inl rfl
    · exact Or.inl rfl
  processMessage _ := durable_of fun p g => Or.inl rfl
  storePendingProposal (d : Did) :=
    durable_of fun p g => Or.inr ⟨{ g with proposals := g.proposals ++ [d] }, rfl, rfl⟩
  mergeStagedCommit c := durable_of fun p g => Or.inr ⟨GroupState.apply g c, rfl, rfl⟩
  commitToPendingProposals _ _ := durable_of fun p g => propose_saves _ _
  leaveGroup _ _ := durable_of fun p g => Or.inl rfl
  selfUpdate _ _ := durable_of fun p g => propose_saves _ _

/-- A handler with a group of its own. -/
def founded : MlsGroupHandler idealMls :=
  MlsGroupHandler.next ⟨"did:a", (⟨[], []⟩ : Provider), ∅, ∅⟩ (.createGroup "g" 0)

theorem reach_founded : StepSystem.Reach (mlsStateSys keyStore "did:a") (MlsGroupHandler.JoinsText keyStore) founded :=
  .snoc (M := mlsStateSys keyStore "did:a") (e := .createGroup "g" 0) (.init rfl) trivial

end IdealMls
end Variance
