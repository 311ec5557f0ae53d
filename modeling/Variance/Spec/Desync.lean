import Variance.Lib.Run
import Variance.Lib.Streak
import Variance.Spec.GroupRouter
import Variance.Spec.Reinit

/-! Desync detection (`mls.rs`, `event_router/messaging.rs`): the live listener and the one for synced batches both
report whether a message could be decrypted, the one that crosses the threshold is to tell the user, and a
reinitialisation clears the count. -/

namespace Variance

inductive Decryption
  | success
  | failure
deriving DecidableEq

namespace MlsGroupHandler
variable {M : OpenMls}

def isDesynced (h : MlsGroupHandler M) (groupId : String) : Bool :=
  (h.desyncCounters[groupId]?).elim false (·.flagged)

/-- How `process_message` comes out. -/
def decryption (h : MlsGroupHandler M) (groupId : String) (message : M.Message) : Decryption :=
  match (h.processMessage groupId message).1 with
  | .error _ => .failure
  | .ok _ => .success

end MlsGroupHandler

namespace Node
variable {M : OpenMls}

/-- What the live listener reports of a message; one that does not deserialize counts as a failure. -/
def liveOutcome (n : Node M) (message : GroupMessage) : Option Decryption :=
  if message.mlsCiphertext = [] then none
  else match M.deserializeMessage message.mlsCiphertext with
    | .error _ => some .failure
    | .ok mlsMsg => some (n.mls.decryption message.groupId mlsMsg)

/-- What the sync listener reports; a message we have, or that does not deserialize, it passes over. -/
def syncedOutcome (n : Node M) (groupId : String) (message : GroupMessage) : Option Decryption :=
  if n.storage.hasGroupMessage groupId message.id then none
  else if message.mlsCiphertext = [] then none
  else match M.deserializeMessage message.mlsCiphertext with
    | .error _ => none
    | .ok mlsMsg => some (n.mls.decryption groupId mlsMsg)

end Node

/-- A node with a record of each group's present period: the outcomes reported since the last clear, newest first, and
how much had been broadcast by then. -/
structure DesyncWorld (M : OpenMls) where
  node : Node M
  outcomes : String → List Decryption
  cleared : String → ℕ

inductive DesyncEvent (M : OpenMls)
  | live (env : Env) (message : GroupMessage)
  | synced (env : Env) (groupId : String) (message : GroupMessage)
  | clear (groupId : String)
  /-- What the rest of the program does to the groups, their key store and the messages. -/
  | other (provider : M.Provider) (groups : SledTree M.Group) (storage : LocalMessageStorage)

namespace DesyncWorld
variable {M : OpenMls}

open MlsGroupHandler

/-- The node goes on, with what it reported of a group. -/
def report (w : DesyncWorld M) (node : Node M) (groupId : String) (o : Option Decryption) : DesyncWorld M :=
  { w with node, outcomes := Function.update w.outcomes groupId (o.toList ++ w.outcomes groupId) }

def step (W : Wire) (w : DesyncWorld M) : DesyncEvent M → DesyncWorld M
  | .live env m => w.report (w.node.handleGroupMessage W env m) m.groupId (w.node.liveOutcome m)
  | .synced env g m => w.report (w.node.handleSyncedMessage W env g m).2 g (w.node.syncedOutcome g m)
  | .clear g =>
    { node := { w.node with mls := w.node.mls.clearDesync g }
      outcomes := Function.update w.outcomes g []
      cleared := Function.update w.cleared g w.node.effects.length }
  | .other provider groups storage =>
    { w with node := { w.node with mls := { w.node.mls with provider, groups }, storage } }

/-- How often the user has been notified in a group's present period. -/
def notices (w : DesyncWorld M) (g : String) : ℕ :=
  (w.node.effects.drop (w.cleared g)).count (.ws (.groupDesyncDetected g))

/-- The present period has a run of failures as long as the threshold. -/
def Failing (w : DesyncWorld M) (g : String) : Prop := Streak.HasRun .failure desyncThreshold (w.outcomes g)

instance (w : DesyncWorld M) (g : String) : Decidable (w.Failing g) :=
  inferInstanceAs (Decidable (Streak.HasRun _ _ _))

/-- The user has been notified once if there was such a run and else not, and of every group that is flagged. -/
def Announced (w : DesyncWorld M) : Prop :=
  ∀ g, w.notices g = (if w.Failing g then 1 else 0) ∧ (w.node.mls.isDesynced g = true → 0 < w.notices g)

/-- A failure that the sync listener reports is not the one that completes the period's first such run. -/
def Heard (w : DesyncWorld M) : DesyncEvent M → Prop
  | .synced _ g m => w.node.syncedOutcome g m = some .failure →
    desyncThreshold ≤ Streak.streak .failure (.failure :: w.outcomes g) → w.Failing g
  | _ => True

instance (w : DesyncWorld M) (e : DesyncEvent M) : Decidable (w.Heard e) := by
  cases e <;> unfold Heard <;> infer_instance

/-- A node as it starts: nothing counted, nothing broadcast. -/
def Fresh (w : DesyncWorld M) : Prop :=
  w.node.mls.desyncCounters = ∅ ∧ w.node.effects = [] ∧ w.outcomes = (fun _ => []) ∧ w.cleared = fun _ => 0

end DesyncWorld

def desyncSys (M : OpenMls) (W : Wire) : StepSystem.Sys (DesyncWorld M) (DesyncEvent M) where
  init := DesyncWorld.Fresh
  step := DesyncWorld.step W

end Variance
