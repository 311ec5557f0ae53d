import Mathlib.Data.List.Permutation
import Variance.Sanity.Trees
import Variance.Spec.Groups
import Variance.Spec.Invites
import Variance.Spec.MetadataTasks

/-! Where every update stores over what it has fetched, a group's metadata is what its updates make of it one after
another. The storage does not see to that: a store overwrites whatever has come in between. -/

namespace Variance

open LocalMessageStorage

variable {M : OpenMls} {w : MetadataWorld} {u : MetadataUpdate} {groupId : String} {f : Faults}

/-! The tasks are the node's own updates, with the await in them -/

theorem Node.addToMetadata_alone {n : Node M} {env : Env} {d : Did} : (n.addToMetadata env groupId d).storage =
    (MetadataUpdate.add d env.now).alone env.faults groupId n.storage := by
  unfold Node.addToMetadata MetadataUpdate.alone
  cases n.storage.fetchGroupMetadata groupId with
  | none => rfl
  | some group =>
    dsimp only [Option.bind, MetadataUpdate.modify]
    split_ifs <;> rfl

theorem Node.removeFromMetadata_alone {n : Node M} {env : Env} {d : Did} :
    (n.removeFromMetadata env groupId d).storage =
      (MetadataUpdate.remove d).alone env.faults groupId n.storage := by
  unfold Node.removeFromMetadata MetadataUpdate.alone
  cases n.storage.fetchGroupMetadata groupId <;> rfl

theorem Node.freezeGroup_alone {n : Node M} {env : Env} {d : Option Did} : (n.freezeGroup env groupId d).storage =
    (MetadataUpdate.freeze d).alone env.faults groupId n.storage := by
  unfold Node.freezeGroup MetadataUpdate.alone
  cases n.storage.fetchGroupMetadata groupId <;> rfl

theorem updateMemberRole_alone {s : LocalMessageStorage} {d : Did} {r : GroupRole} (h : s.Keyed) :
    (s.updateMemberRole f groupId d r).2 = (MetadataUpdate.role d r).alone f groupId s := by
  unfold LocalMessageStorage.updateMemberRole MetadataUpdate.alone fetchGroupMetadata
  cases hg : s.groupMetadata[groupId]? with
  | none => rfl
  | some group =>
    obtain rfl := h.metadata _ _ hg
    dsimp only [Option.bind, MetadataUpdate.modify]
    split_ifs <;> rfl

theorem MetadataUpdate.modify_id {g g' : Group} (h : u.modify g = some g') : g'.id = g.id := by
  cases u with
  | add d now =>
    rw [modify] at h
    split_ifs at h
    exact (Option.some.inj h) ▸ rfl
  | remove d => exact (Option.some.inj h) ▸ rfl
  | freeze d => exact (Option.some.inj h) ▸ rfl
  | role d r =>
    rw [modify] at h
    split_ifs at h
    exact (Option.some.inj h) ▸ rfl

theorem MetadataUpdate.result_of_modify_none {g : Group} (h : u.modify g = none) : u.result (some g) = some g := by
  rw [result, Option.map_some, h, Option.getD_none]

theorem updateMemberRole_error {s : LocalMessageStorage} {d : Did} {r : GroupRole} {e : MsgError}
    (h : (s.updateMemberRole f groupId d r).1 = .error e) : (s.updateMemberRole f groupId d r).2 = s := by
  unfold LocalMessageStorage.updateMemberRole at h ⊢
  cases hg : s.groupMetadata[groupId]? with
  | none => rfl
  | some group =>
    rw [hg] at h
    dsimp only at h ⊢
    split_ifs at h ⊢
    by_cases hf : f "group_metadata" groupId = true
    · rw [treeInsert, if_pos hf]
    · rw [treeInsert, if_neg hf] at h
      cases h

/-- Without an error the write went through, or there was none. -/
theorem updateMemberRole_ok {s : LocalMessageStorage} {d : Did} {r : GroupRole} {b : Bool}
    (h : (s.updateMemberRole f groupId d r).1 = .ok b) : f "group_metadata" groupId = false ∨
      (s.updateMemberRole f groupId d r).2 = s ∧
        (MetadataUpdate.role d r).result (s.fetchGroupMetadata groupId) = s.fetchGroupMetadata groupId := by
  unfold LocalMessageStorage.updateMemberRole LocalMessageStorage.fetchGroupMetadata at *
  cases hg : s.groupMetadata[groupId]? with
  | none => exact Or.inr ⟨rfl, rfl⟩
  | some group =>
    rw [hg] at h
    dsimp only at h ⊢
    split_ifs at h ⊢ with hm
    · by_cases hf : f "group_metadata" groupId = true
      · rw [treeInsert, if_pos hf] at h
        cases h
      · exact Or.inl (Bool.eq_false_of_not_eq_true hf)
    · exact Or.inr ⟨rfl, MetadataUpdate.result_of_modify_none (if_neg hm)⟩

/-- A write that succeeds is the update's result, and the group's alone. -/
theorem fetch_alone {s : LocalMessageStorage} (h : s.Keyed) (hf : f "group_metadata" groupId = false) (g : String) :
    (u.alone f groupId s).fetchGroupMetadata g =
      if g = groupId then u.result (s.fetchGroupMetadata groupId) else s.fetchGroupMetadata g := by
  unfold MetadataUpdate.alone MetadataUpdate.result
  cases hg : s.fetchGroupMetadata groupId with
  | none =>
    rw [Option.bind_none, Option.map_none]
    split_ifs with heq
    · rw [heq, hg]
    · rfl
  | some group =>
    cases hm : u.modify group with
    | none =>
      simp only [Option.bind_some, hm, Option.map_some, Option.getD_none]
      split_ifs with heq
      · rw [heq, hg]
      · rfl
    | some group' =>
      have hid : group'.id = groupId := (MetadataUpdate.modify_id hm).trans (h.metadata _ _ hg)
      simp only [Option.bind_some, hm, Option.map_some, Option.getD_some]
      unfold LocalMessageStorage.storeGroupMetadata LocalMessageStorage.fetchGroupMetadata
      rw [get_treeInsert, hid]
      split_ifs with h1 h2 h2
      · rfl
      · exact absurd h1.1.symm h2
      · exact absurd ⟨h2.symm, hf⟩ h1
      · rfl

namespace MetadataWorld

/-- The condition on a step: an update stores while the metadata is still as it has fetched it. -/
def Unraced (w : MetadataWorld) : MetadataEvent → Prop
  | .fetch _ _ _ => True
  | .store i _ => ∀ t ∈ w.tasks[i]?, w.storage.fetchGroupMetadata t.groupId = some t.fetched

instance (w : MetadataWorld) (e : MetadataEvent) : Decidable (w.Unraced e) :=
  match e with
  | .fetch _ _ _ => inferInstanceAs (Decidable True)
  | .store i _ =>
    inferInstanceAs (Decidable (∀ t ∈ w.tasks[i]?, w.storage.fetchGroupMetadata t.groupId = some t.fetched))

structure Inv (w : MetadataWorld) : Prop where
  keyed : w.storage.Keyed
  serial : ∀ g, w.storage.fetchGroupMetadata g =
    (w.finished g).foldl (fun stored u => u.result stored) (w.initial g)

theorem Inv.congr {w' : MetadataWorld} (h : w.Inv) (hs : w'.storage = w.storage) (hi : w'.initial = w.initial)
    (hf : w'.finished = w.finished) : w'.Inv := by
  refine ⟨?_, ?_⟩
  · rw [hs]
    exact h.keyed
  · rw [hs, hi, hf]
    exact h.serial

/-- An update that is finished stands last in its group's order. -/
theorem Inv.finish {s : LocalMessageStorage} (h : w.Inv) (hk : s.Keyed)
    (hs : ∀ g, s.fetchGroupMetadata g =
      if g = groupId then u.result (w.storage.fetchGroupMetadata groupId) else w.storage.fetchGroupMetadata g) :
    (MetadataWorld.finish { w with storage := s } groupId u).Inv := by
  refine ⟨hk, fun g => ?_⟩
  change s.fetchGroupMetadata g = (if g = groupId then w.finished g ++ [u] else w.finished g).foldl _ (w.initial g)
  rw [hs]
  split_ifs with heq
  · subst heq
    rw [List.foldl_append, ← h.serial g]
    rfl
  · exact h.serial g

/-- The write of an update that runs alone, whether it succeeds or not. -/
theorem Inv.settle {α : Type} {written : Except MsgError α × LocalMessageStorage} (h : w.Inv)
    (hk : written.2.Keyed) (hok : ∀ a, written.1 = .ok a → ∀ g, written.2.fetchGroupMetadata g =
      if g = groupId then u.result (w.storage.fetchGroupMetadata groupId) else w.storage.fetchGroupMetadata g)
    (herr : ∀ e, written.1 = .error e → written.2 = w.storage) : (w.settle groupId u written).Inv := by
  obtain ⟨r, s⟩ := written
  cases r with
  | ok a => exact h.finish hk (hok a rfl)
  | error e => exact h.congr (herr e rfl) rfl rfl

/-- An update with nothing to store is finished where it stands. -/
theorem Inv.idle (h : w.Inv) (hu : u.result (w.storage.fetchGroupMetadata groupId) =
    w.storage.fetchGroupMetadata groupId) : (w.finish groupId u).Inv :=
  h.finish h.keyed fun g => by
    rw [hu]
    split_ifs with heq
    · rw [heq]
    · rfl

theorem Inv.role (h : w.Inv) (d : Did) (r : GroupRole) :
    (w.settle groupId (.role d r) (w.storage.updateMemberRole f groupId d r)).Inv := by
  refine h.settle h.keyed.updateMemberRole (fun a ha => ?_) fun e he => updateMemberRole_error he
  rcases updateMemberRole_ok ha with hf | ⟨hsame, hidle⟩
  · rw [updateMemberRole_alone h.keyed]
    exact fetch_alone h.keyed hf
  · intro g
    rw [hsame, hidle]
    split_ifs with heq
    · rw [heq]
    · rfl

theorem next_fetch (hu : ∀ d r, u ≠ .role d r) : w.next (.fetch groupId u f) =
    match w.storage.fetchGroupMetadata groupId with
    | none => w.finish groupId u
    | some group =>
      if (u.modify group).isSome then { w with tasks := w.tasks ++ [⟨groupId, u, group⟩] }
      else w.finish groupId u := by
  cases u with
  | role d r => exact absurd rfl (hu d r)
  | _ => rfl

theorem Inv.fetch (h : w.Inv) (hu : ∀ d r, u ≠ .role d r) : (w.next (.fetch groupId u f)).Inv := by
  rw [next_fetch hu]
  cases hg : w.storage.fetchGroupMetadata groupId with
  | none => exact h.idle (by rw [hg]; rfl)
  | some group =>
    dsimp only
    split_ifs with hm
    · exact h.congr rfl rfl rfl
    · exact h.idle (by rw [hg]; exact MetadataUpdate.result_of_modify_none (Option.not_isSome_iff_eq_none.1 hm))

theorem Inv.store {i : ℕ} (h : w.Inv) (hg : w.Unraced (.store i f)) : (w.next (.store i f)).Inv := by
  unfold next
  dsimp only
  cases hi : w.tasks[i]? with
  | none => exact h
  | some t =>
    have hfetched : w.storage.fetchGroupMetadata t.groupId = some t.fetched := hg t hi
    have hless : MetadataWorld.Inv { w with tasks := w.tasks.eraseIdx i } := h.congr rfl rfl rfl
    dsimp only
    cases hm : t.update.modify t.fetched with
    | none =>
      refine hless.idle ?_
      dsimp only
      rw [hfetched]
      exact MetadataUpdate.result_of_modify_none hm
    | some group =>
      have halone : (w.storage.storeGroupMetadata f group).2 = t.update.alone f t.groupId w.storage := by
        rw [MetadataUpdate.alone, hfetched, Option.bind_some, hm]
      have hid : group.id = t.groupId :=
        (MetadataUpdate.modify_id hm).trans (h.keyed.metadata _ _ hfetched)
      refine hless.settle h.keyed.storeGroupMetadata (fun a ha => ?_) fun e he => ?_
      · have hf : f "group_metadata" t.groupId = false := by
          unfold LocalMessageStorage.storeGroupMetadata treeInsert at ha
          rw [hid] at ha
          split_ifs at ha with hf
          exact Bool.eq_false_of_not_eq_true hf
        intro g
        rw [halone]
        exact fetch_alone h.keyed hf g
      · unfold LocalMessageStorage.storeGroupMetadata treeInsert at he ⊢
        split_ifs at he ⊢
        rfl

theorem Inv.next {e : MetadataEvent} (h : w.Inv) (hg : w.Unraced e) : (w.next e).Inv := by
  cases e with
  | store i f => exact h.store hg
  | fetch groupId u f =>
    cases u with
    | role d r => exact h.role d r
    | _ => exact h.fetch fun _ _ => by simp

theorem inv_of_init (h : metadataSys.init w) : w.Inv := by
  obtain ⟨hkeyed, -, hinitial, hfinished⟩ := h
  refine ⟨hkeyed, fun g => ?_⟩
  rw [hfinished, hinitial]
  rfl

/-- As long as nobody stores over another's update, the updates of a group come one after another. -/
theorem serial_of_reach (h : StepSystem.Reach metadataSys Unraced w) : w.Serial := fun g =>
  ⟨w.finished g, List.Perm.refl _,
    (h.invariant (I := Inv) (fun _ => inv_of_init) fun _ _ hi hg => hi.next hg).serial g⟩

end MetadataWorld

/-! A member that joins while another is removed -/

namespace MetadataSerial

def group : Group :=
  { id := "g", name := "g", adminDid := "did:a"
    members := [⟨"did:a", .admin, 0, none⟩, ⟨"did:b", .member, 0, none⟩]
    createdAt := 0, avatarCid := none, description := none, frozen := false }

def stored : LocalMessageStorage := (LocalMessageStorage.empty.storeGroupMetadata noFaults group).2

def blank : MetadataWorld := ⟨stored, [], stored.fetchGroupMetadata, fun _ => []⟩

theorem blank_init : metadataSys.init blank := ⟨Keyed.empty.storeGroupMetadata, rfl, fun _ => rfl, fun _ => rfl⟩

def joins : MetadataUpdate := .add "did:c" 1
def kicked : MetadataUpdate := .remove "did:b"

def run (es : List MetadataEvent) : MetadataWorld := es.foldl metadataSys.step blank

/-- One after the other both updates are there. -/
theorem apart_serial : (run [.fetch "g" joins noFaults, .store 0 noFaults, .fetch "g" kicked noFaults,
    .store 0 noFaults]).Serial :=
  MetadataWorld.serial_of_reach (StepSystem.reach_foldl (.init blank_init) (by decide +kernel))

/-- The removal stores over the member that has joined since its fetch. -/
def raced : MetadataWorld :=
  run [.fetch "g" joins noFaults, .fetch "g" kicked noFaults, .store 0 noFaults, .store 0 noFaults]

theorem removal_overwrites_join :
    ¬ ∀ w, StepSystem.Reachable metadataSys w → w.tasks = [] → w.Serial := by
  intro h
  obtain ⟨order, hperm, hstored⟩ := h raced (StepSystem.reachable_foldl (.init blank_init) _) (by rfl) "g"
  have hboth : raced.finished "g" = [joins, kicked] := by decide +kernel
  rw [hboth] at hperm
  -- in either order did:c is a member at the end
  rcases List.perm_pair.1 hperm with rfl | rfl
  · exact absurd hstored (by decide +kernel)
  · exact absurd hstored (by decide +kernel)

end MetadataSerial

end Variance
