import Variance.Lib.Arrivals
import Variance.Lib.Run
import Variance.Spec.CrashWorld

/-! The GossipSub topics that a process is subscribed to. The subscriptions are the swarm's and die with the process;
the handlers subscribe and unsubscribe beside what they do to the groups in memory, and nothing compares the two. -/

namespace Variance

namespace Effect

/-- The topic that a command to the swarm opens or closes. -/
def topic : Effect → Option String
  | .subscribe t => some t
  | .unsubscribe t => some t
  | _ => none

/-- An unsubscription ends the subscription to its topic. -/
def Closes : Effect → Effect → Prop
  | .unsubscribe t, .subscribe t' => t = t'
  | _, _ => False

end Effect

/-- The process that has said all of this but the first `booted` is subscribed to the topic. -/
def Node.Subscribed {M : OpenMls} (booted : ℕ) (n : Node M) (topic : String) : Prop :=
  Arrivals.InEffect Effect.Closes (n.effects.drop booted) (.subscribe topic)

structure TopicWorld (M : OpenMls) where
  world : CrashWorld M
  /-- How much had been said when the process started. -/
  booted : ℕ
  /-- The groups that a reinitialisation has taken out of this process's memory. -/
  replaced : List String

namespace TopicWorld
variable {M : OpenMls} (W : Wire) (blank : M.Provider)

def step (w : TopicWorld M) (e : CrashEvent) : TopicWorld M :=
  let after := w.world.step W blank e
  match e with
  | .crash _ => ⟨after, w.world.node.effects.length, []⟩
  | .serve (.event (.reinitializeGroup _ _ id)) =>
    if id ∈ w.world.node.mls.groups ∧ id ∉ after.node.mls.groups then ⟨after, w.booted, id :: w.replaced⟩
    else ⟨after, w.booted, w.replaced⟩
  | _ => ⟨after, w.booted, w.replaced⟩

structure Fresh (w : TopicWorld M) : Prop where
  world : w.world.Fresh
  booted : w.booted = 0
  replaced : w.replaced = []

/-- Every group in memory can be heard, and no topic is open but those of the groups in memory and of the groups that
were replaced, which a reinitialisation leaves open. -/
structure Listens (w : TopicWorld M) : Prop where
  groups : ∀ gid ∈ w.world.node.mls.groups, w.world.node.Subscribed w.booted (groupTopic gid)
  topics : ∀ t, w.world.node.Subscribed w.booted t →
    ∃ gid, t = groupTopic gid ∧ (gid ∈ w.world.node.mls.groups ∨ gid ∈ w.replaced)
  left : ∀ env net, ∀ id ∈ w.world.node.mls.groups,
    (w.step W blank (.serve (.event (.reinitializeGroup env net id)))).world.node.Subscribed w.booted (groupTopic id)

end TopicWorld

def topicSys (M : OpenMls) (W : Wire) (blank : M.Provider) : StepSystem.Sys (TopicWorld M) CrashEvent where
  init := TopicWorld.Fresh
  step w e := w.step W blank e

end Variance
