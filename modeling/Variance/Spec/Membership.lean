import Variance.Sanity.GroupInbound
import Variance.Spec.Events
import Variance.Spec.Mls

/-! The members of a group are kept twice, in the MLS group and in the stored metadata. What openmls promises of the
first, and what it takes for the second to follow it. -/

namespace Variance

/-- What a commit makes of the members of a group. -/
def Moves (brings takes ds ds' : List Did) : Prop :=
  (∀ x, x ∉ takes → (x ∈ ds' ↔ x ∈ ds ∨ x ∈ brings)) ∧ (ds.Nodup → ∀ x ∈ takes, x ∉ brings → x ∉ ds')

/-- Who comes and who goes with a commit, and which calls leave the members alone. -/
structure MemberLaws (M : OpenMls) where
  brings : M.Commit → List Did
  takes : M.Commit → List Did
  new : ∀ {d id rng p g p'}, M.newWithGroupId d id rng p = (.ok g, p') → M.dids g = [d]
  still : ∀ {p g} (c : GroupCall M), c.Still → M.dids (c.run p g).2 = M.dids g
  add : ∀ {d rng kp p g}, M.dids (M.addMembers d rng [kp] p g).2.2 = M.dids g
  remove : ∀ {d rng i p g}, M.dids (M.removeMembers d rng [i] p g).2.2 = M.dids g
  remove_ok : ∀ {d rng i x p g c p' g'}, M.removeMembers d rng [i] p g = (.ok c, p', g') →
    M.pendingProposals g = [] → (i, x) ∈ M.members g →
    ∃ k, M.pendingCommit g' = some k ∧ brings k = [] ∧ takes k = [x]
  merge : ∀ {p g k p' g'}, M.mergePendingCommit p g = (.ok (), p', g') → M.pendingCommit g = some k →
    Moves (brings k) (takes k) (M.dids g) (M.dids g')
  merge_error : ∀ {p g e p' g'}, M.mergePendingCommit p g = (.error e, p', g') → M.dids g' = M.dids g
  process : ∀ {pm p g}, M.dids (M.processMessage pm p g).2.2 = M.dids g ∧
    M.pendingProposals (M.processMessage pm p g).2.2 = M.pendingProposals g
  propose : ∀ {q p g}, M.dids (M.storePendingProposal q p g).2.2 = M.dids g
  staged : ∀ {k p g p' g'}, M.mergeStagedCommit k p g = (.ok (), p', g') →
    Moves (brings k) (takes k) (M.dids g) (M.dids g') ∧ (M.pendingProposals g = [] → M.pendingProposals g' = [])
  staged_error : ∀ {k p g e p' g'}, M.mergeStagedCommit k p g = (.error e, p', g') → M.dids g' = M.dids g

def SameMembers (ds ds' : List Did) : Prop := ∀ d, d ∈ ds ↔ d ∈ ds'

namespace Node
variable {M : OpenMls}

/-- The dids that a group's metadata lists. -/
def listed (n : Node M) (gid : String) : Option (List Did) :=
  (n.storage.fetchGroupMetadata gid).map fun group => group.members.map (·.did)

/-- The metadata of a live group lists the members of its MLS group. -/
def Mirrored (n : Node M) (gid : String) : Prop :=
  ∀ g, n.mls.groups[gid]? = some g → ∃ ds, n.listed gid = some ds ∧ SameMembers ds (M.dids g)

/-- Somebody comes into a group with a step: we do, or another into a group that we are in. -/
def ComesIn (n n' : Node M) (gid : String) (d : Did) : Prop :=
  (d = n.localDid ∨ (n.mls.groups[gid]?).isSome) ∧ (∀ g, n.mls.groups[gid]? = some g → d ∉ M.dids g) ∧
    ∃ g, n'.mls.groups[gid]? = some g ∧ d ∈ M.dids g

/-- The role that a step gives to whom it lets in: an admin makes a group, whoever joins is a member, and the others
of a group that one joins are what the invitation says. -/
def Admits (n : Node M) : Op → Did → GroupRole → Prop
  | .create .. => fun _ r => r = GroupRole.admin
  | .accept _ id => fun d r => if d = n.localDid then r = GroupRole.member
      else ∃ i, n.storage.fetchPendingInvitation id = some i ∧ ∃ m ∈ i.members, m.did = d ∧ m.role = r
  | _ => fun _ r => r = GroupRole.member

/-- Whom a step lets in has the role that it gives, and no other. -/
def AdmitsRightly (n : Node M) (W : Wire) (op : Op) : Prop :=
  ∀ gid d, n.ComesIn (n.exec W op) gid d → ∃ group, (n.exec W op).storage.fetchGroupMetadata gid = some group ∧
    ∀ m ∈ group.members, m.did = d → n.Admits op d m.role

variable (L : MemberLaws M) (W : Wire) (n : Node M)

/-- A message that the live listener can take: an application message that strikes no member of the group from the
metadata, or a commit that moves nobody, or one that we are out with. -/
def Harmless (pm : M.Message) (g : M.Group) : Prop :=
  match (M.processMessage pm n.mls.provider g).1 with
  | .error _ => True
  | .ok (_, .applicationMessage b) => ∀ content d, livePayload W b = some (.message content) →
      content.metadata["type"]? = some "admin_abandoned" → content.metadata["admin_did"]? = some d → d ∉ M.dids g
  | .ok (_, .proposalMessage _) => False
  | .ok (_, .stagedCommitMessage k) => M.pendingProposals g = [] ∧
      (L.brings k = [] ∧ L.takes k = [] ∨ (M.dids g).Nodup ∧ n.localDid ∈ L.takes k ∧ n.localDid ∉ L.brings k)
  | .ok (_, .other) => M.pendingProposals g = []

/-- The sync listener looks at no members: nothing but a commit can harm, and then also one that we are out with. -/
def HarmlessBatch (gid : String) : Node M → List (Env × GroupMessage) → Prop
  | _, [] => True
  | n, x :: xs =>
    (n.storage.hasGroupMessage gid x.2.id = false → ∀ pm g s k, M.Reads x.2.mlsCiphertext pm →
      n.mls.groups[gid]? = some g →
      (M.processMessage pm n.mls.provider g).1 = .ok (s, .stagedCommitMessage k) →
      L.brings k = [] ∧ L.takes k = []) ∧
    HarmlessBatch gid (n.handleSyncedMessage W x.1 gid x.2).2 xs

end Node

/-- The condition under which the metadata follows the MLS group. -/
def Op.Follows {M : OpenMls} (L : MemberLaws M) (W : Wire) (n : Node M) : Op → Prop
  | .create env _ => env.faults "group_metadata" env.ulid = false
  | .accept env id => ∀ i m g, n.storage.fetchPendingInvitation id = some i →
      M.deserializeMessage i.mlsWelcome = .ok m → M.Welcomes m g →
      env.faults "group_metadata" (M.groupId g) = false ∧
        (∀ x ∈ i.members, x.did = n.localDid → x.role = GroupRole.member) ∧
        SameMembers (n.localDid :: i.members.map (·.did)) (M.dids g)
  | .acceptWelcome env hex => ∀ b m g, W.hexDecode hex = some b → M.deserializeMessage b = .ok m → M.Welcomes m g →
      match n.storage.fetchGroupMetadata (M.groupId g) with
      | some kept => SameMembers (kept.members.map (·.did)) (M.dids g) ∧
          ∀ x ∈ kept.members, x.did = n.localDid → x.role = GroupRole.member
      | none => env.faults "group_metadata" (M.groupId g) = false ∧ SameMembers [n.localDid] (M.dids g)
  | .removeMember env id _ => env.faults "group_metadata" id = false ∧
      ∀ g, n.mls.groups[id]? = some g → (M.dids g).Nodup ∧ M.pendingProposals g = []
  | .direct env d _ _ content => ∀ gid g k, content.metadata["type"]? = some "mls_invite_accepted" →
      content.metadata["group_id"]? = some gid → n.mls.groups[gid]? = some g → M.pendingCommit g = some k →
      env.faults "group_metadata" gid = false ∧ L.brings k = [d] ∧ L.takes k = []
  | .group _ message => ∀ pm g, M.Reads message.mlsCiphertext pm → n.mls.groups[message.groupId]? = some g →
      n.Harmless L W pm g
  | .sync gid messages => Node.HarmlessBatch L W gid n messages
  | _ => True

/-- A node that starts with nothing, under the did that its MLS credential carries. -/
def memberSys (M : OpenMls) (W : Wire) : StepSystem.Sys (Node M) Op where
  init n := n.Fresh ∧ n.mls.localDid = n.localDid
  step n op := n.exec W op

end Variance

/-! The leaves of a group's tree. What openmls promises of them: it makes no two with one signature key, it brings
in nothing but what it was given, and it never looks at whose credential a leaf carries. -/

namespace Variance

structure Leaf (Key : Type) where
  did : Did
  key : Key

/-- The leaves of a group, those that a commit or a proposal adds, and the key in a did's verified document, with
which that did's own node signs. -/
structure Roster (M : OpenMls) where
  Key : Type
  keyOf : Did → Key
  leaf : M.KeyPackage → Leaf Key
  roster : M.Group → List (ℕ × Leaf Key)
  adds : M.Commit → List (Leaf Key)
  proposes : M.Proposal → List (Leaf Key)

namespace Roster
variable {M : OpenMls} (R : Roster M)

/-- The leaf a did has by right. -/
def own (d : Did) : Leaf R.Key := ⟨d, R.keyOf d⟩

/-- The group has the leaf, or has it coming. -/
def Has (g : M.Group) (l : Leaf R.Key) : Prop :=
  (∃ i, (i, l) ∈ R.roster g) ∨ (∃ k, M.pendingCommit g = some k ∧ l ∈ R.adds k) ∨
    ∃ q ∈ M.pendingProposals g, l ∈ R.proposes q

def Bound (g : M.Group) : Prop := ∀ l, R.Has g l → l = R.own l.did

/-- What can be seen of a group. -/
def view (g : M.Group) : List (ℕ × Leaf R.Key) × ℕ × Option M.Commit × List M.Proposal :=
  (R.roster g, M.epoch g, M.pendingCommit g, M.pendingProposals g)

end Roster

structure RosterLaws (M : OpenMls) extends Roster M where
  /-- The tree is one that openmls accepts. -/
  Valid : M.Group → Prop
  members : ∀ g, M.members g = (roster g).map fun x => (x.1, x.2.did)
  keys : ∀ {g}, Valid g → ((roster g).map (·.2.key)).Nodup
  new : ∀ {d id rng p g p'}, M.newWithGroupId d id rng p = (.ok g, p') →
    Valid g ∧ ∀ l, toRoster.Has g l → l = toRoster.own d
  welcomes : ∀ {m g}, M.Welcomes m g → Valid g
  valid : ∀ {p g} (c : GroupCall M), Valid g → Valid (c.run p g).2
  inner : ∀ {p g l} (c : GroupCall M), c.Inner → toRoster.Has (c.run p g).2 l → toRoster.Has g l
  add : ∀ {d rng kp p g l}, toRoster.Has (M.addMembers d rng [kp] p g).2.2 l → toRoster.Has g l ∨ l = leaf kp
  add_ok : ∀ {d rng kp p g c w p' g'}, M.addMembers d rng [kp] p g = (.ok (c, w), p', g') →
    ∃ k, M.pendingCommit g' = some k ∧
      ∀ l, l ∈ adds k ↔ l = leaf kp ∨ ∃ q ∈ M.pendingProposals g, l ∈ proposes q
  add_error : ∀ {d rng kp p g e p' g'}, M.addMembers d rng [kp] p g = (.error e, p', g') →
    toRoster.view g' = toRoster.view g
  process : ∀ {pm p g l}, toRoster.Has (M.processMessage pm p g).2.2 l → toRoster.Has g l
  propose : ∀ {q p g l}, toRoster.Has (M.storePendingProposal q p g).2.2 l → toRoster.Has g l ∨ l ∈ proposes q
  staged : ∀ {c p g l}, toRoster.Has (M.mergeStagedCommit c p g).2.2 l → toRoster.Has g l ∨ l ∈ adds c
  /-- The leaf at a removed index goes; only a proposal committed along with it can bring one in. -/
  remove : ∀ {d rng i p g c p₁ g₁ p₂ g₂ j l}, M.removeMembers d rng [i] p g = (.ok c, p₁, g₁) →
    M.mergePendingCommit p₁ g₁ = (.ok (), p₂, g₂) → (j, l) ∈ roster g₂ →
    (∃ j', j' ≠ i ∧ (j', l) ∈ roster g) ∨ ∃ q ∈ M.pendingProposals g, l ∈ proposes q

end Variance
