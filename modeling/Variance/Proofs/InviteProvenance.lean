import Mathlib.Logic.Function.Basic
import Variance.Sanity.Handshakes
import Variance.Sanity.IdealMls
import Variance.Sanity.IdealWire
import Variance.Sanity.InviteTraffic
import Variance.Sanity.Writes
import Variance.Spec.Mls

/-! Where a pending invitation comes from. The router stores whatever invitation a direct message carries,
under the group id the invitation names; that it is the sender's own, and the Welcome one to that group, are
conditions on what comes in. -/

namespace Variance

/-- An invitee; `senders` is a ghost: who sent the invitation stored for each group. -/
structure InviteInbox (M : OpenMls) where
  node : Node M
  senders : String → Option Did

variable {M : OpenMls} {W : Wire}

namespace InviteInbox

def step (W : Wire) (w : InviteInbox M) (op : Op) : InviteInbox M :=
  { node := w.node.exec W op
    senders := match op with
      | .direct env d _ _ content =>
        match Node.inboundInvitation W content with
        | none => w.senders
        | some i =>
          if env.faults "pending_invitations" i.groupId then w.senders
          else Function.update w.senders i.groupId (some d)
      | _ => w.senders }

structure Start (w : InviteInbox M) : Prop where
  fresh : w.node.Fresh
  senders : ∀ g, w.senders g = none

/-- What is stored was sent by the inviter it names, to us. -/
structure Provenance (w : InviteInbox M) : Prop where
  stored : ∀ (g : String) (i : GroupInvitation), w.node.storage.pendingInvitations[g]? = some i →
    i.groupId = g ∧ w.senders g = some i.inviterDid ∧ i.inviteeDid = w.node.localDid

/-- An accept joins that group and no other, writes no other group's metadata, and answers the sender. -/
structure AcceptsOnly (w : InviteInbox M) (env : Env) (g : String) : Prop where
  joined : ∀ x, (w.node.acceptInvitation env g).1 = .ok x → x = g
  groups : ∀ g', g' ≠ g → (w.node.acceptInvitation env g).2.mls.groups[g']? = w.node.mls.groups[g']?
  metadata : ∀ g', g' ≠ g →
    (w.node.acceptInvitation env g).2.storage.groupMetadata[g']? = w.node.storage.groupMetadata[g']?
  answers : ∀ p ∈ sentDms w.node (w.node.acceptInvitation env g).2, w.senders g = some p.1

/-- A direct message leaves the invitations of everybody but its sender. -/
def KeepsOthers (W : Wire) (w : InviteInbox M) : Op → Prop
  | .direct env d messageId timestamp content => ∀ (g : String) (i : GroupInvitation),
      w.node.storage.pendingInvitations[g]? = some i → w.senders g ≠ some d →
      (w.node.handleDirectContent W env d messageId timestamp content).storage.pendingInvitations[g]? = some i
  | _ => True

/-- A direct message leaves an invitation in its place, or puts its own to the same group there. -/
def Overwrites (W : Wire) (w : InviteInbox M) : Op → Prop
  | .direct env d messageId timestamp content => ∀ (g : String) (i : GroupInvitation),
      w.node.storage.pendingInvitations[g]? = some i → ∃ j,
        (w.node.handleDirectContent W env d messageId timestamp content).storage.pendingInvitations[g]? = some j ∧
        (j = i ∨ Node.inboundInvitation W content = some j ∧ j.groupId = g)
  | _ => True

/-- An invitation that is going to be stored names its sender and us, and its Welcome is to the group it
names. -/
def Proper (L : WelcomeGroup M) (W : Wire) (w : InviteInbox M) : Op → Prop
  | .direct env d _ _ content => ∀ i, Node.inboundInvitation W content = some i →
      env.faults "pending_invitations" i.groupId = false →
      i.inviterDid = d ∧ i.inviteeDid = w.node.localDid ∧
      ∀ m g, M.deserializeMessage i.mlsWelcome = .ok m → L.groupOf m = some g → g = i.groupId
  | _ => True

end InviteInbox

def inboxSys (M : OpenMls) (W : Wire) : StepSystem.Sys (InviteInbox M) Op where
  init := InviteInbox.Start
  step := InviteInbox.step W

open LocalMessageStorage

/-- A write leaves a pending invitation where it is, unless it is one of the two that are about it. -/
theorem LocalMessageStorage.apply_pending {s : LocalMessageStorage} (f : Faults) {w : StoreWrite}
    (hs : ∀ i, w ≠ .pendingInvitation i) (hd : ∀ g, w ≠ .noPendingInvitation g) :
    (s.apply f w).pendingInvitations = s.pendingInvitations := by
  cases w with
  | pendingInvitation i => exact (hs i rfl).elim
  | noPendingInvitation g => exact (hd g rfl).elim
  | noGroupMessages g =>
    show (s.deleteGroupMessages f g).2.pendingInvitations = _
    unfold deleteGroupMessages
    dsimp only
    split <;> rfl
  | role g d r =>
    show (s.updateMemberRole f g d r).2.pendingInvitations = _
    unfold updateMemberRole
    split
    · rfl
    · split_ifs
      · rfl
      · rfl
  | noDirect a b ts id => exact Node.deleteDirectById_pending
  | _ => rfl

namespace Node
variable {n : Node M} {env : Env} {g : String} {d : Did} {op : Op}

/-- The operations that are not about pending invitations. -/
theorem pending_exec_other (ha : ∀ env g, op ≠ .accept env g) (hd : ∀ env g, op ≠ .decline env g)
    (hm : ∀ env d mid ts c, op ≠ .direct env d mid ts c) :
    (n.exec W op).storage.pendingInvitations = n.storage.pendingInvitations := by
  refine (acts_exec W n op).invariant (P := fun s => s.pendingInvitations = n.storage.pendingInvitations)
    (fun s f w hw hs => ?_) rfl
  rw [apply_pending f, hs]
  · rintro i rfl
    cases op with
    | accept env g => exact ha _ _ rfl
    | decline env g => exact hd _ _ rfl
    | direct env d mid ts c => exact hm _ _ _ _ _ rfl
    | _ => simp [Op.writes, PurgeWrite, OwnWrite, SettleWrite, GroupWrite, PayloadWrite, KeepWrite, SyncWrite,
        InviteWrite] at hw
  · rintro g rfl
    cases op with
    | accept env g => exact ha _ _ rfl
    | decline env g => exact hd _ _ rfl
    | direct env d mid ts c => exact hm _ _ _ _ _ rfl
    | _ => simp [Op.writes, PurgeWrite, OwnWrite, SettleWrite, GroupWrite, PayloadWrite, KeepWrite, SyncWrite,
        InviteWrite] at hw

theorem pending_handleGroupInvitationDm {hex : String} :
    (n.handleGroupInvitationDm W env hex d).2.storage.pendingInvitations =
      match (W.hexDecode hex).bind W.decodeInvitation with
      | none => n.storage.pendingInvitations
      | some i => (n.storage.storePendingInvitation env.faults i).2.pendingInvitations := by
  unfold handleGroupInvitationDm
  cases W.hexDecode hex with
  | none => rfl
  | some b =>
    show _ = match W.decodeInvitation b with | none => _ | some i => _
    dsimp only
    cases W.decodeInvitation b with
    | none => rfl
    | some i =>
      dsimp only
      by_cases hf : env.faults "pending_invitations" i.groupId = true
      · simp [storePendingInvitation, treeInsert, hf]
      · simp [storePendingInvitation, treeInsert, hf]

/-- A direct message's only write to the pending invitations. -/
theorem pending_direct (n : Node M) (W : Wire) (env : Env) (d : Did) (mid : String) (ts : ℤ)
    (content : MessageContent) :
    (n.handleDirectContent W env d mid ts content).storage.pendingInvitations =
      match inboundInvitation W content with
      | none => n.storage.pendingInvitations
      | some i => (n.storage.storePendingInvitation env.faults i).2.pendingInvitations := by
  have hnone (h : content.metadata["type"]? ≠ some "mls_group_invitation") : inboundInvitation W content = none :=
    if_neg h
  unfold handleDirectContent
  dsimp only
  split
  · rename_i ht
    rw [store_storage, deleteDirectById_pending, inboundInvitation, if_pos ht]
    cases content.metadata["invitation"]? with
    | none => rfl
    | some hex => exact pending_handleGroupInvitationDm
  · rename_i ht
    rw [store_storage, deleteDirectById_pending, hnone (by simp [ht])]
    split
    · exact pending_handleInviteAcceptedDm
    · rfl
  · rename_i ht
    rw [store_storage, deleteDirectById_pending, hnone (by simp [ht])]
    split
    · rfl
    · rfl
  · rename_i ht _ _
    rw [hnone ht]
    rfl

theorem inbound_invitationContent {i : GroupInvitation}
    (hW : (W.hexDecode (W.hexEncode (W.encodeInvitation i))).bind W.decodeInvitation = some i) :
    inboundInvitation W (invitationContent W i) = some i := by
  rw [inboundInvitation, if_pos kind_invitationContent, hex_invitationContent]
  exact hW

theorem joinGroup_groups (L : WelcomeGroup M) {h : MlsGroupHandler M} {m : M.Message} :
    (∃ e, (h.joinGroupFromWelcome m).1 = .error e ∧ (h.joinGroupFromWelcome m).2.groups = h.groups) ∨
    ∃ g, (h.joinGroupFromWelcome m).1 = .ok g ∧ L.groupOf m = some g ∧
      ∀ g', g' ≠ g → (h.joinGroupFromWelcome m).2.groups[g']? = h.groups[g']? := by
  rcases h.joinGroupFromWelcome_cases m with ⟨e, mls, hj, hgs⟩ | ⟨g, mls, hw, hj, hgs⟩
  · rw [hj]
    exact Or.inl ⟨e, rfl, hgs⟩
  · obtain ⟨w, staged, h', p₁, p₂, hwelcome, hs, hi⟩ := hw
    rw [hj]
    refine Or.inr ⟨_, rfl, L.join hwelcome hs hi, fun g' hne => ?_⟩
    rw [hgs, get_insert, if_neg (Ne.symm hne)]

end Node

namespace InviteInbox
variable {w : InviteInbox M} {L : WelcomeGroup M} {env : Env} {g : String}

/-- What holds of an inbox whose invitations were all proper. -/
structure Sound (L : WelcomeGroup M) (w : InviteInbox M) : Prop extends w.Provenance where
  welcome : ∀ (g : String) (i : GroupInvitation), w.node.storage.pendingInvitations[g]? = some i →
    ∀ m g', M.deserializeMessage i.mlsWelcome = .ok m → L.groupOf m = some g' → g' = g

/-- Fewer invitations, all of them as before. -/
theorem Sound.fewer (hw : Sound L w) {n : Node M} (hl : n.localDid = w.node.localDid)
    (hp : ∀ (g : String) (i : GroupInvitation), n.storage.pendingInvitations[g]? = some i →
      w.node.storage.pendingInvitations[g]? = some i) : Sound L { w with node := n } := by
  refine ⟨⟨fun g i hi => ?_⟩, fun g i hi => hw.welcome g i (hp g i hi)⟩
  obtain ⟨h₁, h₂, h₃⟩ := hw.stored g i (hp g i hi)
  exact ⟨h₁, h₂, by rw [h₃, hl]⟩

theorem reach_step {G : InviteInbox M → Op → Prop} {op : Op} (h : StepSystem.Reach (inboxSys M W) G w)
    (hg : G w op) : StepSystem.Reach (inboxSys M W) G (w.step W op) := .snoc h hg

theorem step_direct (w : InviteInbox M) (W : Wire) (env : Env) (d : Did) (mid : String) (ts : ℤ)
    {content : MessageContent} {i : GroupInvitation} (hi : Node.inboundInvitation W content = some i)
    (hg : i.groupId = g) (hf : env.faults "pending_invitations" g = false) :
    (w.step W (.direct env d mid ts content)).senders g = some d ∧
    (w.step W (.direct env d mid ts content)).node.storage.pendingInvitations[g]? = some i := by
  subst hg
  refine ⟨by simp [step, hi, hf], ?_⟩
  show (w.node.handleDirectContent W env d mid ts content).storage.pendingInvitations[i.groupId]? = some i
  rw [Node.pending_direct, hi]
  show (treeInsert env.faults "pending_invitations" i.groupId i _).2[i.groupId]? = _
  rw [get_treeInsert, if_pos ⟨rfl, hf⟩]

theorem Sound.direct (hw : Sound L w) {d : Did} {mid : String} {ts : ℤ} {content : MessageContent}
    (hg : Proper L W w (.direct env d mid ts content)) : Sound L (w.step W (.direct env d mid ts content)) := by
  have hl := (Node.acts_handleDirectContent w.node W env d mid ts content).localDid
  have hpend := Node.pending_direct w.node W env d mid ts content
  unfold step
  dsimp only [Node.exec]
  cases hi : Node.inboundInvitation W content with
  | none =>
    rw [hi] at hpend
    exact hw.fewer hl fun g i h => by rwa [hpend] at h
  | some i =>
    rw [hi] at hpend
    dsimp only at hpend ⊢
    by_cases hf : env.faults "pending_invitations" i.groupId = true
    · rw [if_pos hf]
      refine hw.fewer hl fun g j h => ?_
      rw [hpend] at h
      simpa [storePendingInvitation, treeInsert, hf] using h
    rw [if_neg hf]
    obtain ⟨hd, hme, hwel⟩ := hg i hi (by simpa using hf)
    refine ⟨⟨fun g j hj => ?_⟩, fun g j hj => ?_⟩
    · rw [hpend] at hj
      dsimp only
      by_cases hgi : i.groupId = g
      · subst hgi
        obtain rfl : i = j := by
          simpa [storePendingInvitation, treeInsert, hf] using hj
        exact ⟨rfl, by rw [Function.update_self, hd], by rw [hl, hme]⟩
      · have hold : w.node.storage.pendingInvitations[g]? = some j := by
          simpa [storePendingInvitation, treeInsert, hf, hgi] using hj
        obtain ⟨h₁, h₂, h₃⟩ := hw.stored g j hold
        exact ⟨h₁, by rw [Function.update_of_ne (Ne.symm hgi), h₂], by rw [hl, h₃]⟩
    · rw [hpend] at hj
      rcases get_treeInsert_some hj with ⟨rfl, rfl⟩ | hold
      · exact fun m g' hm hg' => hwel m g' hm hg'
      · exact hw.welcome g j hold

theorem Sound.quiet (hw : Sound L w) {op : Op} (hs : (w.step W op).senders = w.senders)
    (hp : ∀ (g : String) (i : GroupInvitation), (w.node.exec W op).storage.pendingInvitations[g]? = some i →
      w.node.storage.pendingInvitations[g]? = some i) : Sound L (w.step W op) := by
  have hkeep := hw.fewer (Node.acts_exec W w.node op).localDid hp
  rw [← hs] at hkeep
  exact hkeep

theorem Sound.step (hw : Sound L w) {op : Op} (hg : Proper L W w op) : Sound L (w.step W op) := by
  cases op with
  | direct env d mid ts content => exact hw.direct hg
  | accept env g =>
    exact hw.quiet rfl fun _ _ h => Node.pending_acceptInvitation h
  | decline env g =>
    exact hw.quiet rfl fun _ _ h => Node.pending_declineInvitation h
  | _ =>
    refine hw.quiet rfl fun g i h => ?_
    rwa [Node.pending_exec_other (by simp) (by simp) (by simp)] at h

theorem Sound.acceptsOnly (hw : Sound L w) (env : Env) (g : String) : AcceptsOnly w env g := by
  have hanswers : ∀ p ∈ sentDms w.node (w.node.acceptInvitation env g).2, w.senders g = some p.1 := by
    intro p hp
    obtain ⟨-, i, hi, hr⟩ := Node.mem_sentDms Node.sends_acceptInvitation hp
    rw [hr]
    exact (hw.stored g i hi).2.1
  have hsame {n : Node M} {r : Except AppError String} (h : w.node.acceptInvitation env g = (r, n))
      (he : ∀ x, r ≠ .ok x) (hm : n.mls.groups = w.node.mls.groups) (hs : n.storage = w.node.storage) :
      AcceptsOnly w env g := by
    refine ⟨fun x hx => ?_, fun g' _ => ?_, fun g' _ => ?_, hanswers⟩
    · rw [h] at hx
      exact (he x hx).elim
    · rw [h, hm]
    · rw [h, hs]
  rcases hacc : w.node.acceptInvitation env g with ⟨r, n'⟩
  have hrun := hacc
  unfold Node.acceptInvitation at hrun
  split at hrun
  · cases hrun
    exact hsame hacc (by simp) rfl rfl
  rename_i i hi
  split at hrun
  · cases hrun
    exact hsame hacc (by simp) rfl rfl
  rename_i m hm
  obtain ⟨e, he, hgroups⟩ | ⟨x, hx, hof, hgroups⟩ := Node.joinGroup_groups L (h := w.node.mls) (m := m)
  · rcases hj : w.node.mls.joinGroupFromWelcome m with ⟨rj, mls⟩
    rw [hj] at he hgroups hrun
    cases he
    cases hrun
    exact hsame hacc (by simp) hgroups rfl
  -- the Welcome is to the group of the invitation, and so is everything that follows
  obtain rfl : x = g := hw.welcome g i hi m x hm hof
  rcases hj : w.node.mls.joinGroupFromWelcome m with ⟨rj, mls⟩
  rw [hj] at hx hgroups hrun
  cases hx
  dsimp only at hrun
  obtain ⟨rfl, rfl⟩ := Prod.mk.inj hrun
  refine ⟨fun y hy => ?_, fun g' hne => ?_, fun g' hne => ?_, hanswers⟩
  · rw [hacc] at hy
    exact (Except.ok.inj hy).symm
  · rw [hacc, ← hgroups g' hne]
    have hfin : (Node.finishAccept { w.node with mls := mls } env i x x).mls.groups = mls.groups := by
      unfold Node.finishAccept Node.answerInvitation
      dsimp only
      split_ifs
      · exact Node.refreshKeyPackage_groups
      · exact Node.refreshKeyPackage_groups
    rw [hfin]
  · rw [hacc]
    have hfin : (Node.finishAccept { w.node with mls := mls } env i x x).storage.groupMetadata =
        (w.node.storage.storeGroupMetadata env.faults (w.node.joinedMetadata env i x)).2.groupMetadata := by
      unfold Node.finishAccept Node.answerInvitation
      dsimp only
      split_ifs
      · show ((Node.enterGroup _ env i x).refreshKeyPackage env false).storage.groupMetadata = _
        rw [Node.refreshKeyPackage_storage]
        rfl
      · show ((Node.enterGroup _ env i x).refreshKeyPackage env false).storage.groupMetadata = _
        rw [Node.refreshKeyPackage_storage]
        rfl
    rw [hfin]
    show (treeInsert env.faults "group_metadata" x _ _).2[g']? = _
    rw [get_treeInsert, if_neg fun h => hne h.1.symm]

theorem overwrites (w : InviteInbox M) (W : Wire) (op : Op) : Overwrites W w op := by
  cases op with
  | direct env d mid ts content =>
    intro g i hi
    rw [Node.pending_direct]
    cases hin : Node.inboundInvitation W content with
    | none => exact ⟨i, hi, Or.inl rfl⟩
    | some j =>
      dsimp only
      show ∃ j', (treeInsert env.faults "pending_invitations" j.groupId j _).2[g]? = some j' ∧ _
      rw [get_treeInsert]
      split_ifs with h
      · exact ⟨j, rfl, Or.inr ⟨rfl, h.1⟩⟩
      · exact ⟨i, hi, Or.inl rfl⟩
  | _ => trivial

/-- When every invitation that comes in is proper, what is pending was sent by the inviter it names, an accept
keeps to that group and that inviter, and a pending invitation gives way only to a newer one to its group. -/
theorem proper_runs_keep_provenance (L : WelcomeGroup M) (W : Wire) (w : InviteInbox M)
    (h : StepSystem.Reach (inboxSys M W) (Proper L W) w) :
    w.Provenance ∧ (∀ env g, w.AcceptsOnly env g) ∧ ∀ op, w.Overwrites W op := by
  have hsound : Sound L w := by
    refine h.invariant (I := Sound L) (fun w hw => ?_) fun w op hw hg => hw.step hg
    have hnone (g : String) : w.node.storage.pendingInvitations[g]? = none := by
      rw [hw.fresh.storage]
      simp [LocalMessageStorage.empty]
    exact ⟨⟨fun g i hi => by simp [hnone] at hi⟩, fun g i hi => by simp [hnone] at hi⟩
  exact ⟨hsound.toProvenance, hsound.acceptsOnly, w.overwrites W⟩

end InviteInbox

/-! `did:b` is invited to the group `g` -/

namespace InviteProvenance
open IdealMls

/-- A Welcome of the ideal MLS names its group. -/
def welcomeGroup : WelcomeGroup idealMls where
  groupOf
    | .welcome w => some w.groupId
    | _ => none
  join := by
    intro m w p staged p₁ group p₂ hm hs hi
    cases m with
    | welcome w' =>
      obtain rfl : w' = w := Option.some.inj hm
      simp only [idealMls] at hs hi
      split at hs
      · cases hs
      · cases hs
        split_ifs at hi
        · cases hi
        · cases hi
          rfl
        · cases hi
    | _ => cases hm

def env : Env := { now := 0, rng := 1, ulid := "u", faults := noFaults, dmOk := true }

def bob : InviteInbox idealMls where
  node := { localDid := "did:b", mls := ⟨"did:b", ⟨[⟨"did:b", 7⟩], []⟩, ∅, ∅⟩, storage := .empty, effects := [] }
  senders _ := none

def welcome (d : Did) : Welcome := ⟨"g", ⟨d, 0, 0, ["did:b"], []⟩, [⟨"did:b", 7⟩], [d, "did:b"]⟩

/-- The invitation that names `d` as the inviter. -/
def invitation (d : Did) : GroupInvitation :=
  { groupId := "g", groupName := "G", inviterDid := d, inviteeDid := "did:b", timestamp := 0, members := []
    mlsWelcome := messageCodec.enc (.welcome (welcome d))
    mlsCommit := [] }

theorem start_bob : bob.Start := ⟨⟨rfl, rfl⟩, fun _ => rfl⟩

/-- `d`'s message that carries the invitation of `d'`. -/
def dm (d d' : Did) : Op := .direct env d "m" 0 (Node.invitationContent idealWire (invitation d'))

theorem inbound_dm (d : Did) : Node.inboundInvitation idealWire (Node.invitationContent idealWire (invitation d)) =
    some (invitation d) := Node.inbound_invitationContent (idealWire_invitation _)

theorem step_dm (w : InviteInbox idealMls) (d d' : Did) : (w.step idealWire (dm d d')).senders "g" = some d ∧
    (w.step idealWire (dm d d')).node.storage.pendingInvitations["g"]? = some (invitation d') := by
  unfold dm
  exact w.step_direct idealWire env d "m" 0 (inbound_dm d') rfl rfl

/-- An invitation of `did:a` that somebody else sent is stored like any other, and one of `did:a`'s gives way to
one of `did:c`'s. -/
theorem strangers_invite :
    ¬ (∀ w : InviteInbox idealMls, StepSystem.Reachable (inboxSys idealMls idealWire) w → w.Provenance) ∧
    ¬ ∀ w : InviteInbox idealMls, StepSystem.Reachable (inboxSys idealMls idealWire) w →
      ∀ op, w.KeepsOthers idealWire op := by
  refine ⟨fun h => ?_, fun h => ?_⟩
  · obtain ⟨hs, hp⟩ := step_dm bob "did:m" "did:a"
    have hsender := ((h _ (InviteInbox.reach_step (.init start_bob) trivial)).stored "g" _ hp).2.1
    rw [hs] at hsender
    exact absurd hsender (by decide)
  · obtain ⟨hs, hp⟩ := step_dm bob "did:a" "did:a"
    have hkept := h _ (InviteInbox.reach_step (.init start_bob) trivial) (dm "did:c" "did:c") "g" _ hp
      (by rw [hs]; decide)
    have hafter := (step_dm (bob.step idealWire (dm "did:a" "did:a")) "did:c" "did:c").2
    have hsame := Option.some.inj (hafter.symm.trans hkept)
    exact absurd (congrArg GroupInvitation.inviterDid hsame) (by decide)

theorem inviter_invites : (bob.step idealWire (dm "did:a" "did:a")).Provenance ∧
    (bob.step idealWire (dm "did:a" "did:a")).AcceptsOnly env "g" := by
  have hreach : StepSystem.Reach (inboxSys idealMls idealWire) (InviteInbox.Proper welcomeGroup idealWire)
      (bob.step idealWire (dm "did:a" "did:a")) := by
    refine InviteInbox.reach_step (.init start_bob) fun i hi _ => ?_
    rw [inbound_dm] at hi
    cases hi
    refine ⟨rfl, rfl, fun m g hm hg => ?_⟩
    obtain rfl : m = .welcome (welcome "did:a") := Except.ok.inj (hm.symm.trans (deserialize_serialize rfl))
    exact (Option.some.inj hg).symm
  have hall := InviteInbox.proper_runs_keep_provenance welcomeGroup idealWire _ hreach
  exact ⟨hall.1, hall.2.1 env "g"⟩

end InviteProvenance
end Variance
