import Mathlib.Data.List.Nodup
import Variance.Sanity.Handshakes
import Variance.Sanity.IdealGroup
import Variance.Sanity.IdealRoster
import Variance.Spec.Membership

/-! Whose leaf an invitation adds. The key package in an identity response is checked by itself, and nothing ties
it to the did it was asked for; where every package is its did's own, each did has one leaf and goes with it. -/

namespace Variance

open MlsGroupHandler

namespace Node
variable {M : OpenMls}

/-- Neither the groups, as far as they can be seen, nor the metadata, nor the outbound invites differ. -/
structure Unchanged (R : Roster M) (n n' : Node M) : Prop where
  groups : ∀ gid : String, (n'.mls.groups[gid]?).map R.view = (n.mls.groups[gid]?).map R.view
  metadata : n'.storage.groupMetadata = n.storage.groupMetadata
  invites : n'.storage.outboundInvites = n.storage.outboundInvites

/-- An invite adds the leaf that the invitee has by right, and no other but what was proposed before; or it fails
and changes nothing. -/
def InviteBinds (R : Roster M) (n : Node M) (W : Wire) (env : Env) (net : InviteNet) (id invitee : String) : Prop :=
  (∃ d g k, resolveInviteeDid net invitee = .ok d ∧ n.mls.groups[id]? = some g ∧
    (n.mlsInviteToGroup W env net id invitee).2.mls.slot id = some k ∧ R.own d ∈ R.adds k ∧
    ∀ l ∈ R.adds k, l = R.own d ∨ ∃ q ∈ M.pendingProposals g, l ∈ R.proposes q) ∨
  (∃ e, (n.mlsInviteToGroup W env net id invitee).1 = .error e) ∧
    Unchanged R n (n.mlsInviteToGroup W env net id invitee).2

/-- A recovery adds the leaves that the old members have by right, and no others. -/
def ReinitBinds (R : Roster M) (n : Node M) (W : Wire) (env : Env) (net : ReinitNet) (id : String) : Prop :=
  (∀ (gid : String) g l, (n.mlsReinitializeGroup W env net id).2.mls.groups[gid]? = some g → R.Has g l →
    (∃ g₀, n.mls.groups[gid]? = some g₀ ∧ R.Has g₀ l) ∨
      ∃ d, (d = n.mls.localDid ∨ d ∈ n.mls.membersOrDefault id) ∧ l = R.own d) ∨
  (∃ e, (n.mlsReinitializeGroup W env net id).1 = .error e) ∧
    Unchanged R n (n.mlsReinitializeGroup W env net id).2

/-- Who was removed is gone. -/
def RemovalHolds (n : Node M) (env : Env) (id : String) (d : Did) : Prop :=
  (n.mlsRemoveMember env id d).1 = .ok () →
    ∀ g, (n.mlsRemoveMember env id d).2.mls.groups[id]? = some g → d ∉ M.dids g

/-- What a step owes to the dids it deals with. -/
def Binds (R : Roster M) (n : Node M) (W : Wire) : Event → Prop
  | .op (.invite env net id invitee) => n.InviteBinds R W env net id invitee
  | .reinitializeGroup env net id => n.ReinitBinds R W env net id
  | .op (.removeMember env id d) => n.RemovalHolds env id d
  | _ => True

/-- Where the group could take a key package, openmls refuses this one. -/
def Refuses (n : Node M) (env : Env) (id : String) (kp : M.KeyPackage) : Prop :=
  ∀ g, n.mls.groups[id]? = some g → M.pendingCommit g = none →
    ∃ e, (M.addMembers n.mls.localDid env.rng [kp] n.mls.provider g).1 = .error e

end Node

namespace Roster
variable {M : OpenMls}

/-- Whatever the message makes of a group, it brings in no leaf that is not its did's own. -/
def Carries (R : Roster M) (pm : M.Message) : Prop :=
  ∀ p g d p' g', (∀ c, M.processMessage pm p g = (.ok (d, .stagedCommitMessage c), p', g') →
      ∀ l ∈ R.adds c, l = R.own l.did) ∧
    ∀ q, M.processMessage pm p g = (.ok (d, .proposalMessage q), p', g') → ∀ l ∈ R.proposes q, l = R.own l.did

end Roster

/-- The condition: every key package that openmls takes is the own one of the did it is taken for, commits,
proposals and Welcomes that come in bring in no others, and nobody proposed to add whom a step removes. -/
def Event.Bound {M : OpenMls} (R : Roster M) (W : Wire) (n : Node M) : Event → Prop
  | .op (.invite env net id invitee) => ∀ d kp, n.inviteKeyPackage net id invitee = .ok (d, kp) →
      R.leaf kp = R.own d ∨ n.Refuses env id kp
  | .reinitializeGroup _ net id => ∀ kps d kp, n.Collects W net id kps → d ∈ n.mls.membersOrDefault id →
      d ≠ n.mls.localDid → kps[d]? = some kp → R.leaf kp = R.own d
  | .op (.accept _ id) => ∀ i m g, n.storage.fetchPendingInvitation id = some i →
      M.deserializeMessage i.mlsWelcome = .ok m → M.Welcomes m g → R.Bound g
  | .op (.acceptWelcome _ hex) => ∀ b m g, W.hexDecode hex = some b → M.deserializeMessage b = .ok m →
      M.Welcomes m g → R.Bound g
  | .op (.group _ message) => ∀ pm, M.Reads message.mlsCiphertext pm → R.Carries pm
  | .op (.sync _ messages) => ∀ x ∈ messages, ∀ pm, M.Reads x.2.mlsCiphertext pm → R.Carries pm
  | .op (.removeMember _ id d) => ∀ g, n.mls.groups[id]? = some g →
      ∀ q ∈ M.pendingProposals g, ∀ l ∈ R.proposes q, l.did ≠ d
  | _ => True

namespace RosterLaws
variable {M : OpenMls} (L : RosterLaws M) {p : M.Provider} {g : M.Group} {l : Leaf L.Key}

theorem has_of_view {g' : M.Group} (h : L.view g' = L.view g) : L.Has g' l ↔ L.Has g l := by
  obtain ⟨hr, -, hp, hq⟩ : L.roster g' = L.roster g ∧ M.epoch g' = M.epoch g ∧
      M.pendingCommit g' = M.pendingCommit g ∧ M.pendingProposals g' = M.pendingProposals g := by
    simpa [Roster.view] using h
  unfold Roster.Has
  rw [hr, hp, hq]

/-- A message brings in what its commit or its proposal adds. -/
theorem receive_bound {pm : M.Message} (hc : L.Carries pm) (hb : L.Bound g) : L.Bound (M.receive pm p g).2 := by
  intro l hl
  have hproc : ∀ l, L.Has (M.processMessage pm p g).2.2 l → L.Has g l := fun l => L.process
  unfold OpenMls.receive at hl
  rcases hp : M.processMessage pm p g with ⟨⟨e⟩ | ⟨d, content⟩, p', g'⟩
  · rw [hp] at hl hproc
    exact hb l (hproc l hl)
  rw [hp] at hl hproc
  cases content with
  | applicationMessage b => exact hb l (hproc l hl)
  | other => exact hb l (hproc l hl)
  | proposalMessage q =>
    rcases L.propose hl with h | h
    · exact hb l (hproc l h)
    · exact (hc p g d p' g').2 q hp l h
  | stagedCommitMessage c =>
    rcases L.staged hl with h | h
    · exact hb l (hproc l h)
    · exact (hc p g d p' g').1 c hp l h

theorem dids_eq : M.dids g = (L.roster g).map (·.2.did) := by
  simp [OpenMls.dids, L.members, Function.comp_def]

/-- Bound leaves with distinct keys are leaves of distinct dids. -/
theorem dids_nodup (hv : L.Valid g) (hb : L.Bound g) : (M.dids g).Nodup := by
  have hkeys := L.keys hv
  have hmap : (L.roster g).map (·.2.key) = ((L.roster g).map (·.2.did)).map L.keyOf := by
    rw [List.map_map]
    refine List.map_congr_left fun x hx => ?_
    exact congrArg Leaf.key (hb x.2 (Or.inl ⟨x.1, hx⟩))
  rw [hmap] at hkeys
  rw [L.dids_eq]
  exact hkeys.of_map _

end RosterLaws

namespace Node
variable {M : OpenMls} {L : RosterLaws M} {n : Node M} {W : Wire} {env : Env} {id : String} {d : Did}

/-- Every group is one that openmls accepts, with bound leaves only. -/
def Sound (L : RosterLaws M) (n : Node M) : Prop :=
  ∀ (gid : String) g, n.mls.groups[gid]? = some g → L.Valid g ∧ L.Bound g

/-- The invite's call, if it gets that far. -/
theorem addMemberDeferred_cases (h : MlsGroupHandler M) (id : String) (kp : M.KeyPackage) (rng : ℕ) :
    (∃ e, h.addMemberDeferred id kp rng = (.error e, h)) ∨
    ∃ g, h.groups[id]? = some g ∧ M.pendingCommit g = none ∧ ∃ r p' g',
      M.addMembers h.localDid rng [kp] h.provider g = (r, p', g') ∧ h.addMemberDeferred id kp rng =
        ((r.mapError fun e => .mlsCommit ("Failed to add member (deferred): " ++ e)).map fun p => ⟨p.1, p.2⟩,
          { h with provider := p', groups := h.groups.insert id g' }) := by
  unfold addMemberDeferred
  cases hg : h.groups[id]? with
  | none => exact Or.inl ⟨_, rfl⟩
  | some g =>
    dsimp only
    split_ifs with hp
    · exact Or.inl ⟨_, rfl⟩
    · rw [withGroup_some hg]
      exact Or.inr ⟨g, rfl, by simpa using hp, _, _, _, rfl, rfl⟩

theorem sendInvitation_mls {r : AddMemberResult M} : (n.sendInvitation W env id d r).2.mls = n.mls := by
  unfold sendInvitation
  split
  · rfl
  · split
    · rfl
    · dsimp only
      split_ifs <;> rfl

/-- What an invite makes of the groups. -/
theorem mlsInviteToGroup_cases (n : Node M) (W : Wire) (env : Env) (net : InviteNet) (id invitee : String) :
    (∃ e, n.mlsInviteToGroup W env net id invitee = (.error e, n)) ∨
    ∃ d kp g, n.inviteKeyPackage net id invitee = .ok (d, kp) ∧ n.mls.groups[id]? = some g ∧
      M.pendingCommit g = none ∧ ∃ r p' g', M.addMembers n.mls.localDid env.rng [kp] n.mls.provider g = (r, p', g') ∧
        (n.mlsInviteToGroup W env net id invitee).2.mls =
          { n.mls with provider := p', groups := n.mls.groups.insert id g' } ∧
        ∀ e, r = .error e → ∃ e', n.mlsInviteToGroup W env net id invitee = (.error e',
          { n with mls := { n.mls with provider := p', groups := n.mls.groups.insert id g' } }) := by
  unfold mlsInviteToGroup
  cases hk : n.inviteKeyPackage net id invitee with
  | error e => exact Or.inl ⟨e, rfl⟩
  | ok x =>
    obtain ⟨d, kp⟩ := x
    dsimp only
    rcases addMemberDeferred_cases n.mls id kp env.rng with ⟨e, he⟩ | ⟨g, hg, hp, r, p', g', hadd, heq⟩
    · rw [he]
      exact Or.inl ⟨_, rfl⟩
    · rw [heq]
      refine Or.inr ⟨d, kp, g, rfl, hg, hp, r, p', g', hadd, ?_, ?_⟩
      · cases r with
        | error e => rfl
        | ok cw => exact sendInvitation_mls
      · intro e he
        subst he
        exact ⟨_, rfl⟩

theorem resolve_inviteKeyPackage {net : InviteNet} {invitee : String} {kp : M.KeyPackage}
    (h : n.inviteKeyPackage net id invitee = .ok (d, kp)) : resolveInviteeDid net invitee = .ok d := by
  unfold inviteKeyPackage at h
  dsimp only at h
  split at h
  · cases h
  obtain ⟨-, -, h⟩ := of_bind_ok h
  obtain ⟨-, -, h⟩ := of_bind_ok h
  split at h
  · cases h
  obtain ⟨x, hx, h⟩ := of_bind_ok h
  obtain ⟨found, -, h⟩ := of_bind_ok h
  split at h
  · obtain ⟨kpIn, -, h⟩ := of_bind_ok h
    obtain ⟨k, -, h⟩ := of_bind_ok h
    obtain ⟨k', -, h⟩ := of_bind_ok h
    cases h
    exact hx
  · cases h

theorem inviteBinds (L : RosterLaws M) {net : InviteNet} {invitee : String}
    (hb : ∀ d kp, n.inviteKeyPackage net id invitee = .ok (d, kp) → L.leaf kp = L.own d ∨ n.Refuses env id kp) :
    n.InviteBinds L.toRoster W env net id invitee := by
  rcases mlsInviteToGroup_cases n W env net id invitee with
    ⟨e, he⟩ | ⟨d, kp, g, hk, hg, hp, r, p', g', hadd, hmls, herr⟩
  · unfold InviteBinds
    rw [he]
    exact Or.inr ⟨⟨e, rfl⟩, fun _ => rfl, rfl, rfl⟩
  · cases r with
    | error e =>
      obtain ⟨e', he'⟩ := herr e rfl
      unfold InviteBinds
      rw [he']
      refine Or.inr ⟨⟨e', rfl⟩, fun gid => ?_, rfl, rfl⟩
      by_cases hgid : id = gid
      · subst hgid
        simp [hg, L.add_error hadd]
      · simp [hgid]
    | ok cw =>
      obtain ⟨k, hk', hadds⟩ := L.add_ok (c := cw.1) (w := cw.2) hadd
      have hleaf : L.leaf kp = L.own d := by
        rcases hb d kp hk with h | h
        · exact h
        · obtain ⟨e, he⟩ := h g hg hp
          rw [hadd] at he
          cases he
      refine Or.inl ⟨d, g, k, resolve_inviteKeyPackage hk, hg, ?_, ?_, ?_⟩
      · rw [hmls]
        simp [slot, hk']
      · exact (hadds _).2 (Or.inl hleaf.symm)
      · intro l hl
        rw [← hleaf]
        exact (hadds l).1 hl

/-- An invite with a bound package keeps the groups sound. -/
theorem Sound.invite {L : RosterLaws M} (hn : n.Sound L) {net : InviteNet} {invitee : String}
    (hb : ∀ d kp, n.inviteKeyPackage net id invitee = .ok (d, kp) → L.leaf kp = L.own d ∨ n.Refuses env id kp) :
    (n.mlsInviteToGroup W env net id invitee).2.Sound L := by
  rcases mlsInviteToGroup_cases n W env net id invitee with
    ⟨e, he⟩ | ⟨d, kp, g, hk, hg, hp, r, p', g', hadd, hmls, herr⟩
  · rw [he]
    exact hn
  intro gid x hx
  rw [hmls, Std.ExtTreeMap.getElem?_insert] at hx
  split_ifs at hx with hgid
  · obtain rfl := Option.some.inj hx
    obtain ⟨hv, hbound⟩ := hn id g hg
    refine ⟨?_, fun l hl => ?_⟩
    · have hvalid := L.valid (p := n.mls.provider) (.addMembers n.mls.localDid env.rng kp) hv
      simpa only [GroupCall.run, hadd] using hvalid
    · cases r with
      | error e => exact hbound l ((L.has_of_view (L.add_error hadd)).1 hl)
      | ok cw =>
        have hl' : L.Has (M.addMembers n.mls.localDid env.rng [kp] n.mls.provider g).2.2 l := by
          rw [hadd]
          exact hl
        rcases L.add hl' with h | rfl
        · exact hbound l h
        · rcases hb d kp hk with h | h
          · rw [h]
            rfl
          · obtain ⟨e, he⟩ := h g hg hp
            rw [hadd] at he
            cases he
  · exact hn gid x hx

/-- Every other step keeps the groups sound. -/
theorem Sound.react {L : RosterLaws M} (hn : n.Sound L) (e : Event) (hb : e.Bound L.toRoster W n) :
    (n.react W e).Sound L := by
  by_cases hinvite : ∃ env net id invitee, e = .op (.invite env net id invitee)
  · obtain ⟨env, net, id, invitee, rfl⟩ := hinvite
    exact hn.invite hb
  refine (calls_react n W e).invariant (P := fun _ g => L.Valid g ∧ L.Bound g) ?_ ?_ hn
  · intro gid c p g hc hg
    refine ⟨L.valid c hg.1, ?_⟩
    cases hc with
    | still hs => exact fun l hl => hg.2 l (L.inner c hs.inner hl)
    | commit hi _ => exact fun l hl => hg.2 l (L.inner c hi hl)
    | @add d' rng d kp ha =>
      intro l hl
      have hleaf : L.leaf kp = L.own d := by
        cases e with
        | op o =>
          cases o with
          | invite env net id invitee => exact (hinvite ⟨env, net, id, invitee, rfl⟩).elim
          | _ => exact ha.elim
        | reinitializeGroup env net id =>
          obtain ⟨-, kps, hcol, hd, hne, hk⟩ := ha
          exact hb kps d kp hcol hd hne hk
        | selfUpdate env id => exact ha.elim
      rcases L.add hl with h | rfl
      · exact hg.2 l h
      · rw [hleaf]
        rfl
    | @receive pm hr =>
      have hcarries : L.Carries pm := by
        cases e with
        | op o =>
          cases o with
          | group env m => exact hb pm hr.2
          | sync id ms =>
            obtain ⟨-, x, hx, hr⟩ := hr
            exact hb x hx pm hr
          | _ => exact hr.elim
        | reinitializeGroup env net id => exact hr.elim
        | selfUpdate env id => exact hr.elim
      exact L.receive_bound hcarries hg.2
  · intro gid g hf
    have hnew : ∀ {d id rng p p'}, M.newWithGroupId d id rng p = (.ok g, p') → L.Valid g ∧ L.Bound g := by
      intro d id rng p p' heq
      obtain ⟨hv, hown⟩ := L.new heq
      refine ⟨hv, fun l hl => ?_⟩
      rw [hown l hl]
      rfl
    cases e with
    | op o =>
      cases o with
      | create env name =>
        obtain ⟨-, p, p', heq⟩ := hf
        exact hnew heq
      | accept env id =>
        obtain ⟨-, i, m, hi, hm, hw⟩ := hf
        exact ⟨L.welcomes hw, hb i m g hi hm hw⟩
      | acceptWelcome env hex =>
        obtain ⟨-, b, m, hx, hm, hw⟩ := hf
        exact ⟨L.welcomes hw, hb b m g hx hm hw⟩
      | _ => exact hf.elim
    | reinitializeGroup env net id =>
      obtain ⟨-, rng, p, p', heq⟩ := hf
      exact hnew heq
    | selfUpdate env id => exact hf.elim

/-- A recovery with bound packages. -/
theorem reinitBinds (L : RosterLaws M) {net : ReinitNet}
    (hb : ∀ kps d kp, n.Collects W net id kps → d ∈ n.mls.membersOrDefault id → d ≠ n.mls.localDid →
      kps[d]? = some kp → L.leaf kp = L.own d) : n.ReinitBinds L.toRoster W env net id := by
  refine Or.inl ?_
  have hcalls := calls_react n W (.reinitializeGroup env net id)
  have hinv := hcalls.invariant (P := fun gid g => ∀ l, L.Has g l →
    (∃ g₀, n.mls.groups[gid]? = some g₀ ∧ L.Has g₀ l) ∨
      ∃ d, (d = n.mls.localDid ∨ d ∈ n.mls.membersOrDefault id) ∧ l = L.own d) ?_ ?_ ?_
  · exact fun gid g l hg hl => hinv gid g hg l hl
  · intro gid c p g hc hg l hl
    cases hc with
    | still hs => exact hg l (L.inner c hs.inner hl)
    | commit hi _ => exact hg l (L.inner c hi hl)
    | @add d' rng d kp ha =>
      obtain ⟨-, kps, hcol, hd, hne, hk⟩ := ha
      rcases L.add hl with h | rfl
      · exact hg l h
      · exact Or.inr ⟨d, Or.inr hd, hb kps d kp hcol hd hne hk⟩
    | receive hr => exact hr.elim
  · intro gid g hf l hl
    obtain ⟨-, rng, p, p', heq⟩ := hf
    exact Or.inr ⟨_, Or.inl rfl, (L.new heq).2 l hl⟩
  · intro gid g hg l hl
    exact Or.inl ⟨g, hg, hl⟩

theorem removeMember_ok {h h' : MlsGroupHandler M} {i rng : ℕ} {c : M.Message}
    (hr : h.removeMember id i rng = (.ok c, h')) : ∃ g c' p₁ g₁ p₂ g₂, h.groups[id]? = some g ∧
      M.removeMembers h.localDid rng [i] h.provider g = (.ok c', p₁, g₁) ∧
      M.mergePendingCommit p₁ g₁ = (.ok (), p₂, g₂) ∧ h'.groups[id]? = some g₂ := by
  unfold removeMember at hr
  cases hg : h.groups[id]? with
  | none => simp [withGroup, hg] at hr
  | some g =>
    rw [withGroup_some hg] at hr
    rcases hm : M.removeMembers h.localDid rng [i] h.provider g with ⟨⟨e⟩ | ⟨c'⟩, p₁, g₁⟩
    · rw [hm] at hr
      cases hr
    · rw [hm] at hr
      simp only [Except.mapError] at hr
      have hg₁ : ({ h with provider := p₁, groups := h.groups.insert id g₁ } : MlsGroupHandler M).groups[id]? =
          some g₁ := by simp
      rw [withGroup_some hg₁] at hr
      rcases hp : M.mergePendingCommit p₁ g₁ with ⟨⟨e⟩ | ⟨u⟩, p₂, g₂⟩
      · simp only [hp] at hr
        cases hr
      · simp only [hp] at hr
        refine ⟨g, c', p₁, g₁, p₂, g₂, rfl, hm, hp, ?_⟩
        rw [← (Prod.mk.inj hr).2]
        simp

/-- A removal takes the only leaf of the did. -/
theorem removalHolds {L : RosterLaws M} (hn : n.Sound L) (hq : ∀ g, n.mls.groups[id]? = some g →
    ∀ q ∈ M.pendingProposals g, ∀ l ∈ L.proposes q, l.did ≠ d) : n.RemovalHolds env id d := by
  intro hok g₂ hg₂ hd
  unfold mlsRemoveMember at hok hg₂
  cases hi : n.removalIndex id d with
  | error e =>
    rw [hi] at hok
    cases hok
  | ok i =>
    rw [hi] at hok hg₂
    dsimp only at hok hg₂
    rcases hr : n.mls.removeMember id i env.rng with ⟨⟨e⟩ | ⟨c⟩, mls⟩
    · rw [hr] at hok
      cases hok
    · rw [hr] at hok hg₂
      dsimp only at hok hg₂
      have hgroups : mls.groups[id]? = some g₂ := by
        have hmeta : ∀ n' : Node M, (n'.removeFromMetadata env id d).mls = n'.mls := by
          intro n'
          unfold removeFromMetadata
          split <;> rfl
        cases hs : M.serializeMessage c with
        | error e =>
          rw [hs] at hok
          cases hok
        | ok b =>
          rw [hs] at hg₂
          rw [emit_mls, hmeta] at hg₂
          exact hg₂
      obtain ⟨g, c', p₁, g₁, p₂, g₂', hg, hremove, hmerge, hlast⟩ := removeMember_ok hr
      obtain rfl := Option.some.inj (hgroups.symm.trans hlast)
      obtain ⟨g', hg', hmem⟩ := member_of_removalIndex hi
      obtain rfl := Option.some.inj (hg.symm.trans hg')
      -- the leaf with the did that is left is another one, and so the did had two
      rw [L.dids_eq] at hd
      obtain ⟨x, hx, rfl⟩ := List.mem_map.1 hd
      rw [L.members] at hmem
      obtain ⟨y, hy, hyx⟩ := List.mem_map.1 hmem
      rcases L.remove hremove hmerge (show (x.1, x.2) ∈ L.roster g₂ from hx) with ⟨j, hne, hj⟩ | ⟨q, hqm, hl⟩
      · have hnodup := L.dids_nodup (hn id g hg).1 (hn id g hg).2
        rw [L.dids_eq] at hnodup
        have hsame := List.inj_on_of_nodup_map hnodup hy hj (Prod.mk.inj hyx).2
        have hij : y.1 = j := congrArg Prod.fst hsame
        exact hne (hij.symm.trans (Prod.mk.inj hyx).1)
      · exact hq g hg q hqm x.2 hl rfl

theorem Sound.binds {L : RosterLaws M} (hn : n.Sound L) (e : Event) (hb : e.Bound L.toRoster W n) :
    n.Binds L.toRoster W e := by
  cases e with
  | op o =>
    cases o with
    | invite env net id invitee => exact inviteBinds L hb
    | removeMember env id d => exact removalHolds hn hb
    | _ => exact trivial
  | reinitializeGroup env net id => exact reinitBinds L hb
  | selfUpdate env id => exact trivial

/-- Along a run of bound steps each did has at most one leaf in any group, and each step does right by the dids
it deals with. -/
theorem bound_runs_bind (L : RosterLaws M) (W : Wire) (n : Node M)
    (h : StepSystem.Reach (groupSys M W) (fun n e => e.Bound L.toRoster W n) n) :
    (∀ (gid : String) g, n.mls.groups[gid]? = some g → (M.dids g).Nodup) ∧
      ∀ e : Event, e.Bound L.toRoster W n → n.Binds L.toRoster W e := by
  have hn : n.Sound L := by
    refine h.invariant (I := fun n => n.Sound L) ?_ fun n e hn hb => hn.react e hb
    intro n hf gid g hg
    rw [hf.groups] at hg
    simp at hg
  exact ⟨fun gid g hg => L.dids_nodup (hn gid g hg).1 (hn gid g hg).2, fun e hb => hn.binds e hb⟩

end Node

namespace KeyPackageBinding
open IdealMls IdealGroup

/-- Asked for anybody's key package, the network answers with one of `did:m`. -/
def forged : InviteNet := ⟨.ok, fun _ => .ok (some (keyPackageCodec.enc ⟨"did:m", 7⟩))⟩

def opened : Node idealMls := alice.exec idealWire (.create (env 0) "G")

def invited : Node idealMls := opened.exec idealWire (.invite (env 1) forged "g" "did:b")

theorem reachable_opened : StepSystem.Reachable (groupSys idealMls idealWire) opened :=
  StepSystem.reachable_foldl (M := groupSys idealMls idealWire) (s := alice) (.init ⟨rfl, rfl⟩)
    [.op (.create (env 0) "G")]

/-- `did:b` is invited, and the leaf that is added is one of `did:m`. -/
theorem stranger_added : ¬ ∀ n : Node idealMls, StepSystem.Reachable (groupSys idealMls idealWire) n →
    ∀ e : Event, n.Binds roster idealWire e := by
  intro h
  have hb : opened.InviteBinds roster idealWire (env 1) forged "g" "did:b" :=
    h opened reachable_opened (.op (.invite (env 1) forged "g" "did:b"))
  have hok : (opened.mlsInviteToGroup idealWire (env 1) forged "g" "did:b").1.toBool = true := by decide +kernel
  have hslot : invited.mls.slot "g" = some ⟨"did:a", 1, 0, ["did:m"], []⟩ := by decide +kernel
  rcases hb with ⟨d, g, k, hd, -, hk, hown, -⟩ | ⟨⟨e, he⟩, -⟩
  · have hresolved : Node.resolveInviteeDid forged "did:b" = .ok "did:b" := rfl
    obtain rfl := Except.ok.inj (hresolved.symm.trans hd)
    obtain rfl := Option.some.inj (hslot.symm.trans hk)
    have hsame : ownLeaf "did:b" = ownLeaf "did:m" := List.mem_singleton.1 hown
    have : "did:b" = "did:m" := congrArg Leaf.did hsame
    revert this
    decide
  · rw [he] at hok
    simp [Except.toBool] at hok

/-! Packages as they should be -/

def joins : List Event :=
  [.op (.create (env 0) "G"), .op (.invite (env 1) IdealGroup.net "g" "did:b"),
    .op (.direct (env 2) "did:b" "m" 0 (Node.acceptedContent "g"))]

def joined : Node idealMls := joins.foldl (fun n e => n.react idealWire e) alice

def ownPackage (d : Did) : idealMls.KeyPackage := (⟨d, 7⟩ : KeyPackage)

theorem bound_invite {n : Node idealMls} {rng : ℕ} {d : Did}
    (h : (n.inviteKeyPackage IdealGroup.net "g" d).toOption = some (d, ownPackage d)) :
    Event.Bound roster idealWire n (.op (.invite (env rng) IdealGroup.net "g" d)) := by
  intro d' kp hk
  rw [hk] at h
  obtain ⟨rfl, rfl⟩ := Prod.mk.inj (Option.some.inj h)
  exact Or.inl rfl

theorem guarded_joins : StepSystem.Guarded (groupSys idealMls idealWire) (fun n e => e.Bound roster idealWire n)
    alice joins := ⟨trivial, bound_invite (by decide +kernel), trivial, trivial⟩

/-- A member with a package of its own is removed, and is gone. -/
theorem member_removed : ∃ g, (joined.mlsRemoveMember (env 3) "g" "did:b").2.mls.groups["g"]? = some g ∧
    "did:b" ∉ idealMls.dids g := by
  have hreach := StepSystem.reach_foldl (M := groupSys idealMls idealWire)
    (G := fun n e => e.Bound roster idealWire n) (.init ⟨rfl, rfl⟩) guarded_joins
  have hok : (joined.mlsRemoveMember (env 3) "g" "did:b").1.toBool = true := by decide +kernel
  have hbound : Event.Bound roster idealWire joined (.op (.removeMember (env 3) "g" "did:b")) :=
    fun _ _ _ _ _ hl => by cases hl
  have hheld : (joined.mlsRemoveMember (env 3) "g" "did:b").2.mls.groups["g"]?.isSome := by decide +kernel
  obtain ⟨g, hg⟩ := Option.isSome_iff_exists.1 hheld
  refine ⟨g, hg, (Node.bound_runs_bind rosterLaws idealWire joined hreach).2 _ hbound ?_ g hg⟩
  cases h : (joined.mlsRemoveMember (env 3) "g" "did:b").1 with
  | error e => simp [h, Except.toBool] at hok
  | ok u => rfl

end KeyPackageBinding
end Variance
