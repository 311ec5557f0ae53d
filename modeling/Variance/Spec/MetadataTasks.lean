import Variance.Lib.Run
import Variance.Sanity.Trees
import Variance.Spec.GroupRouter

/-! The updates of a group's metadata as tasks that run side by side: each fetches it, changes its copy and stores
that, with an await between the two calls (`handle_invite_accepted_dm` and `handle_group_message_content` in
`event_router/messaging.rs`, `mls_remove_member` in `api/groups.rs`). A change of role is one call of the storage. -/

namespace Variance

inductive MetadataUpdate
  | add (inviteeDid : Did) (now : ℤ)
  | remove (memberDid : Did)
  | freeze (adminDid : Option Did)
  | role (memberDid : Did) (newRole : GroupRole)
deriving DecidableEq

namespace MetadataUpdate

/-- The copy as it is stored; nothing when the update has nothing to store. -/
def modify : MetadataUpdate → Group → Option Group
  | .add inviteeDid now, g =>
    if g.members.any fun m => m.did = inviteeDid then none
    else some { g with members := g.members ++
      [{ did := inviteeDid, role := GroupRole.member, joinedAt := now, nickname := none }] }
  | .remove memberDid, g => some { g with members := g.members.filter fun m => m.did ≠ memberDid }
  | .freeze adminDid, g =>
    some { g with
      frozen := true
      members := match adminDid with
        | some did => g.members.filter fun m => m.did ≠ did
        | none => g.members }
  | .role memberDid newRole, g =>
    if g.members.any fun m => m.did = memberDid then
      some { g with members := LocalMessageStorage.setRole memberDid newRole g.members }
    else none

/-- What the update makes of the metadata when it has it to itself. -/
def result (u : MetadataUpdate) (stored : Option Group) : Option Group :=
  stored.map fun g => (u.modify g).getD g

/-- The fetch, and the store right after it. -/
def alone (u : MetadataUpdate) (f : Faults) (groupId : String) (s : LocalMessageStorage) : LocalMessageStorage :=
  match (s.fetchGroupMetadata groupId).bind u.modify with
  | some group => (s.storeGroupMetadata f group).2
  | none => s

end MetadataUpdate

/-- An update between its fetch and its store, with what it has fetched. -/
structure MetadataTask where
  groupId : String
  update : MetadataUpdate
  fetched : Group

/-- The storage and the tasks; and for the record what the groups were at first, and which updates each has seen to
their end, in that order. An update whose write fails is logged and given up. -/
structure MetadataWorld where
  storage : LocalMessageStorage
  tasks : List MetadataTask
  initial : String → Option Group
  finished : String → List MetadataUpdate

inductive MetadataEvent
  /-- An update comes to its fetch. -/
  | fetch (groupId : String) (u : MetadataUpdate) (f : Faults)
  /-- The task of that index comes to its store. -/
  | store (i : ℕ) (f : Faults)

namespace MetadataWorld

def finish (w : MetadataWorld) (groupId : String) (u : MetadataUpdate) : MetadataWorld :=
  { w with finished := fun g => if g = groupId then w.finished g ++ [u] else w.finished g }

/-- A write's end. -/
def settle {α : Type} (w : MetadataWorld) (groupId : String) (u : MetadataUpdate)
    (written : Except MsgError α × LocalMessageStorage) : MetadataWorld :=
  match written with
  | (.ok _, storage) => { w with storage }.finish groupId u
  | (.error _, storage) => { w with storage }

def next (w : MetadataWorld) : MetadataEvent → MetadataWorld
  | .fetch groupId (.role memberDid newRole) f =>
    w.settle groupId (.role memberDid newRole) (w.storage.updateMemberRole f groupId memberDid newRole)
  | .fetch groupId u _ =>
    match w.storage.fetchGroupMetadata groupId with
    | none => w.finish groupId u
    | some group =>
      if (u.modify group).isSome then { w with tasks := w.tasks ++ [⟨groupId, u, group⟩] }
      else w.finish groupId u
  | .store i f =>
    match w.tasks[i]? with
    | none => w
    | some t =>
      let w := { w with tasks := w.tasks.eraseIdx i }
      match t.update.modify t.fetched with
      | none => w.finish t.groupId t.update
      | some group => w.settle t.groupId t.update (w.storage.storeGroupMetadata f group)

end MetadataWorld

def metadataSys : StepSystem.Sys MetadataWorld MetadataEvent where
  init w := w.storage.Keyed ∧ w.tasks = [] ∧ (∀ g, w.initial g = w.storage.fetchGroupMetadata g) ∧
    ∀ g, w.finished g = []
  step := MetadataWorld.next

/-- The metadata of each group is what its updates make of it one after another, in some order. -/
def MetadataWorld.Serial (w : MetadataWorld) : Prop :=
  ∀ g, ∃ order : List MetadataUpdate, order.Perm (w.finished g) ∧
    w.storage.fetchGroupMetadata g = order.foldl (fun stored u => u.result stored) (w.initial g)

end Variance
