import Variance.Sanity.IdealMls
import Variance.Sanity.IdealWire
import Variance.Sanity.InviteSteps

/-! Who can answer an invitation. The router acts on the MLS group before it consults the invite
store, so a response changes a group it was never invited to exactly when a commit is pending
there; a decline also deletes whatever record its key spells. -/

namespace Variance
namespace Node
variable {M : OpenMls} {W : Wire} {n n' : Node M} {env : Env} {g : String} {d : Did}

open LocalMessageStorage MlsGroupHandler

/-- An outbound-invite record for `(g, d)` exists. -/
def HasInvite (n : Node M) (g : String) (d : Did) : Prop :=
  ∃ (k : String) (e : OutboundInvite), n.storage.outboundInvites[k]? = some e ∧
    e.invitation.groupId = g ∧ e.invitation.inviteeDid = d

/-- The MLS group, the metadata and every outbound-invite record of `g` are exactly as before. -/
structure SameGroup (n n' : Node M) (g : String) : Prop where
  mls : n'.mls.groups[g]? = n.mls.groups[g]?
  metadata : n'.storage.groupMetadata[g]? = n.storage.groupMetadata[g]?
  invites : ∀ (k : String) (e : OutboundInvite), e.invitation.groupId = g →
    (n'.storage.outboundInvites[k]? = some e ↔ n.storage.outboundInvites[k]? = some e)

/-- A message from `d` touches a group only where a record for that group and `d` exists. -/
def OnlyInvited (n n' : Node M) (d : Did) : Prop := ∀ g, ¬ n.HasInvite g d → SameGroup n n' g

theorem SameGroup.of_eq (hm : n'.mls = n.mls)
    (hi : n'.storage.outboundInvites = n.storage.outboundInvites)
    (hg : n'.storage.groupMetadata = n.storage.groupMetadata) : SameGroup n n' g :=
  ⟨by rw [hm], by rw [hg], fun _ _ _ => by rw [hi]⟩

/-- Only the three things matter: a step may write other trees afterwards. -/
theorem onlyInvited_congr {n₁ n₂ : Node M} (hm : n₁.mls = n₂.mls)
    (hi : n₁.storage.outboundInvites = n₂.storage.outboundInvites)
    (hg : n₁.storage.groupMetadata = n₂.storage.groupMetadata) :
    OnlyInvited n n₁ d ↔ OnlyInvited n n₂ d := by
  constructor
  · intro h g hno
    exact ⟨hm ▸ (h g hno).mls, hg ▸ (h g hno).metadata, hi ▸ (h g hno).invites⟩
  · intro h g hno
    exact ⟨hm ▸ (h g hno).mls, hg ▸ (h g hno).metadata, hi ▸ (h g hno).invites⟩

/-- The record of `(g, d)`, if there is one, is the one under its key. -/
theorem HasInvite.record (hk : n.storage.Keyed) (h : n.HasInvite g d) :
    ∃ e, n.storage.outboundInvites[inviteKey g d]? = some e ∧ e.invitation.groupId = g ∧
      e.invitation.inviteeDid = d := by
  obtain ⟨k, e, hke, hg, hd⟩ := h
  refine ⟨e, ?_, hg, hd⟩
  have := hk.invite _ _ hke
  rw [← hg, ← hd, ← this]
  exact hke

theorem onlyInvited_accepted (S : CommitSlot M) (hk : n.storage.Keyed) :
    OnlyInvited n (n.handleInviteAcceptedDm env g d) d ↔ n.mls.slot g = none ∨ n.HasInvite g d := by
  cases hs : n.mls.slot g with
  | none =>
    rw [handleInviteAcceptedDm_none hs]
    exact ⟨fun _ => Or.inl rfl, fun _ _ _ => .of_eq rfl rfl rfl⟩
  | some k =>
    obtain ⟨hmls, hinv⟩ := handleInviteAcceptedDm_some env d S hs
    obtain ⟨x, hx, hxk⟩ := slot_eq_some.1 hs
    obtain ⟨p', x', he, hx', -⟩ := confirmAddMember_some S hx hxk
    simp only [reduceCtorEq, false_or]
    constructor
    · -- were there no record, the merged group would have to be the group before
      intro h
      by_contra hno
      have hsame := (h g hno).mls
      rw [hmls, he] at hsame
      obtain rfl : x' = x := by simpa [hx] using hsame
      simp [hx'] at hxk
    · intro hrec g' hno
      have hne : g' ≠ g := fun h => hno (h ▸ hrec)
      obtain ⟨e₀, he₀, hg₀, -⟩ := hrec.record hk
      refine ⟨?_, handleInviteAcceptedDm_metadata hk hne, fun k e heg => ?_⟩
      · rw [hmls, confirmAddMember_other hne]
      · rw [hinv, get_treeRemove]
        split_ifs with hkey
        · obtain ⟨rfl, -⟩ := hkey
          simp only [he₀, Option.some.injEq, false_iff]
          rintro rfl
          exact hne (heg ▸ hg₀)
        · rfl

theorem onlyInvited_declined (S : CommitSlot M) :
    OnlyInvited n (n.handleInviteDeclinedDm env g d) d ↔
      (n.mls.slot g = none ∨ n.HasInvite g d) ∧
      ∀ e, n.storage.outboundInvites[inviteKey g d]? = some e →
        env.faults "outbound_invites" (inviteKey g d) = false → n.HasInvite e.invitation.groupId d := by
  constructor
  · intro h
    refine ⟨?_, fun e he hf => ?_⟩
    · cases hs : n.mls.slot g with
      | none => exact Or.inl rfl
      | some k =>
        refine Or.inr ?_
        by_contra hno
        obtain ⟨x, hx, hxk⟩ := slot_eq_some.1 hs
        obtain ⟨p', x', hc, hx', -⟩ := cancelAddMember_some S hx hxk
        have hsame := (h g hno).mls
        rw [handleInviteDeclinedDm_mls, hc] at hsame
        obtain rfl : x' = x := by simpa [hx] using hsame
        simp [hx'] at hxk
    · by_contra hno
      have hsame := ((h _ hno).invites (inviteKey g d) e rfl).2 he
      rw [handleInviteDeclinedDm_invites, get_treeRemove, if_pos ⟨rfl, hf⟩] at hsame
      simp at hsame
  · rintro ⟨hslot, hrec⟩ g' hno
    refine ⟨?_, by rw [handleInviteDeclinedDm_metadata], fun k e heg => ?_⟩
    · by_cases hne : g' = g
      · subst hne
        obtain hs | hi := hslot
        · obtain ⟨e, he⟩ := cancelAddMember_none hs
          rw [handleInviteDeclinedDm_mls, he]
        · exact absurd hi hno
      · rw [handleInviteDeclinedDm_mls, cancelAddMember_other hne]
    · rw [handleInviteDeclinedDm_invites, get_treeRemove]
      split_ifs with hkey
      · obtain ⟨rfl, hf⟩ := hkey
        simp only [false_iff]
        intro he
        exact hno (heg ▸ hrec e he hf)
      · rfl

/-- The condition: no commit is pending for the group the response names, or the sender was
invited there; and a decline's key spells no record of a group the sender was not invited to. -/
def ResponseOwned (n : Node M) (env : Env) (d : Did) (content : MessageContent) : Prop :=
  match content.metadata["type"]?, content.metadata["group_id"]? with
  | some "mls_invite_accepted", some g => n.mls.slot g = none ∨ n.HasInvite g d
  | some "mls_invite_declined", some g =>
    (n.mls.slot g = none ∨ n.HasInvite g d) ∧
      ∀ e, n.storage.outboundInvites[inviteKey g d]? = some e →
        env.faults "outbound_invites" (inviteKey g d) = false → n.HasInvite e.invitation.groupId d
  | _, _ => True

/-- In every reachable state a direct message leaves the groups its sender was not invited to
alone exactly when the response it carries, if any, is owned. -/
theorem direct_onlyInvited_iff (S : CommitSlot M)
    (h : StepSystem.Reachable (nodeSys M W) n) (env : Env) (d : Did) (messageId : String)
    (timestamp : ℤ) (content : MessageContent) :
    OnlyInvited n (n.handleDirectContent W env d messageId timestamp content) d ↔
      ResponseOwned n env d content := by
  have hk := keyed_reachable h
  have hid {n' : Node M} (hm : n'.mls = n.mls)
      (hi : n'.storage.outboundInvites = n.storage.outboundInvites)
      (hg : n'.storage.groupMetadata = n.storage.groupMetadata) : OnlyInvited n n' d :=
    fun _ _ => .of_eq hm hi hg
  have hforget {n' : Node M} {x : Did} : OnlyInvited n
      (n'.store fun s => s.deleteDirectById env.faults d x timestamp messageId) d ↔ OnlyInvited n n' d :=
    onlyInvited_congr rfl deleteDirectById_invites deleteDirectById_metadata
  unfold handleDirectContent ResponseOwned
  dsimp only
  split
  · rename_i ht
    rw [hforget, ht]
    refine iff_of_true ?_ trivial
    split
    · exact hid handleGroupInvitationDm_mls handleGroupInvitationDm_storage.1
        handleGroupInvitationDm_storage.2
    · exact hid rfl rfl rfl
  · rename_i ht
    rw [hforget, ht]
    cases content.metadata["group_id"]? with
    | none => exact iff_of_true (hid rfl rfl rfl) trivial
    | some g => exact onlyInvited_accepted S hk
  · rename_i ht
    rw [hforget, ht]
    cases content.metadata["group_id"]? with
    | none => exact iff_of_true (hid rfl rfl rfl) trivial
    | some g => exact onlyInvited_declined S
  · rename_i hinv hacc hdec
    refine iff_of_true (hid rfl rfl rfl) ?_
    split
    · rename_i ht _; exact (hacc ht).elim
    · rename_i ht _; exact (hdec ht).elim
    · trivial

end Node

/-! A group of `did:a` with an invitation out to `did:b`, and an acceptance from `did:m` -/

namespace InviteAuthority
open IdealMls

def alice : Node idealMls :=
  { localDid := "did:a", mls := ⟨"did:a", ⟨[], []⟩, ∅, ∅⟩, storage := .empty, effects := [] }

def env : Env := { now := 0, rng := 1, ulid := "g", faults := noFaults, dmOk := true }

/-- Every did resolves to a key package of `did:b`. -/
def net : InviteNet := ⟨.ok, fun _ => .ok (some (keyPackageCodec.enc ⟨"did:b", 7⟩))⟩

def invited : Node idealMls :=
  [Op.create env "G", Op.invite env net "g" "did:b"].foldl (fun n op => n.exec idealWire op) alice

theorem reachable_invited : StepSystem.Reachable (nodeSys idealMls idealWire) invited :=
  StepSystem.reachable_foldl (M := nodeSys idealMls idealWire) (.init ⟨rfl, rfl⟩) _

theorem not_hasInvite : ¬ invited.HasInvite "g" "did:m" := by
  rintro ⟨k, e, he, -, hd⟩
  have hall : ∀ x ∈ invited.storage.outboundInvites.toList, x.2.invitation.inviteeDid ≠ "did:m" := by
    decide +kernel
  exact hall (k, e) ((mem_iter _).2 he) hd

/-- An acceptance by somebody never invited merges the commit that waits for another's answer. -/
theorem stranger_confirms : ¬ ∀ n : Node idealMls, StepSystem.Reachable (nodeSys idealMls idealWire) n →
    ∀ env d messageId timestamp content,
      n.OnlyInvited (n.handleDirectContent idealWire env d messageId timestamp content) d := by
  intro h
  have hsame := (h invited reachable_invited env "did:m" "m" 0 (Node.acceptedContent "g") "g"
    not_hasInvite).mls
  have hbefore : ((invited.mls.groups["g"]?).bind idealMls.pendingCommit).isSome = true := by
    decide +kernel
  have hafter : (((invited.handleDirectContent idealWire env "did:m" "m" 0
      (Node.acceptedContent "g")).mls.groups["g"]?).bind idealMls.pendingCommit).isSome = false := by
    decide +kernel
  rw [hsame, hbefore] at hafter
  cases hafter

/-- The invitee's own acceptance is owned, and touches nothing it should not. -/
theorem invitee_confirms : invited.OnlyInvited
    (invited.handleDirectContent idealWire env "did:b" "m" 0 (Node.acceptedContent "g")) "did:b" := by
  refine (Node.direct_onlyInvited_iff slots reachable_invited env "did:b" "m" 0 _).2 ?_
  have htype : (Node.acceptedContent "g").metadata["type"]? = some "mls_invite_accepted" := by
    decide +kernel
  have hgroup : (Node.acceptedContent "g").metadata["group_id"]? = some "g" := by decide +kernel
  rw [Node.ResponseOwned, htype, hgroup]
  refine Or.inr ?_
  have hrec : ∃ x ∈ invited.storage.outboundInvites.toList,
      x.2.invitation.groupId = "g" ∧ x.2.invitation.inviteeDid = "did:b" := by decide +kernel
  obtain ⟨x, hx, hg, hd⟩ := hrec
  exact ⟨x.1, x.2, (mem_iter _).1 hx, hg, hd⟩

end InviteAuthority
end Variance
