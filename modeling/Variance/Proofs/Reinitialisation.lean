import Variance.Sanity.IdealGroup
import Variance.Sanity.Recovery
import Variance.Spec.Mls

/-! A group founded again. Each add moves the new group on, and nobody is told; so whoever was added before the
last is left behind, and the metadata goes on listing whom nobody added. -/

namespace Variance

variable {M : OpenMls}

/-- The packages that openmls takes into a group one after another, each add merged at once, and the Welcomes. -/
def taken (M : OpenMls) (d : Did) (kps : SledTree M.KeyPackage) :
    List Did → ℕ → M.Provider → M.Group → List (Did × M.Message)
  | [], _, _, _ => []
  | x :: xs, rng, p, g =>
    if x = d then taken M d kps xs (rng + 1) p g
    else match kps[x]? with
      | none => taken M d kps xs (rng + 1) p g
      | some kp =>
        match M.addMembers d rng [kp] p g with
        | (.error _, p', g') => taken M d kps xs (rng + 1) p' g'
        | (.ok (_, w), p', g') =>
          match M.mergePendingCommit p' g' with
          | (.error _, p'', g'') => taken M d kps xs (rng + 1) p'' g''
          | (.ok _, p'', g'') => (x, w) :: taken M d kps xs (rng + 1) p'' g''

namespace MlsGroupHandler
variable {h : MlsGroupHandler M} {gid : String} {g : M.Group} {kps : SledTree M.KeyPackage} {ds : List Did}
  {rng : ℕ}

theorem addMember_error {kp : M.KeyPackage} {e : String} {p' : M.Provider} {g' : M.Group}
    (hg : h.groups[gid]? = some g) (ha : M.addMembers h.localDid rng [kp] h.provider g = (.error e, p', g')) :
    ∃ e', h.addMember gid kp rng = (.error e', { h with provider := p', groups := h.groups.insert gid g' }) := by
  refine ⟨.mlsCommit ("Failed to add member: " ++ e), ?_⟩
  unfold addMember
  rw [withGroup_some hg, ha]
  rfl

theorem addMember_ok {kp : M.KeyPackage} {c w : M.Message} {p₁ p₂ : M.Provider} {g₁ g₂ : M.Group}
    (hg : h.groups[gid]? = some g) (ha : M.addMembers h.localDid rng [kp] h.provider g = (.ok (c, w), p₁, g₁))
    (hm : M.mergePendingCommit p₁ g₁ = (.ok (), p₂, g₂)) : h.addMember gid kp rng =
      (.ok ⟨c, w⟩, { h with provider := p₂, groups := (h.groups.insert gid g₁).insert gid g₂ }) := by
  have hg₁ : ({ h with provider := p₁, groups := h.groups.insert gid g₁ } : MlsGroupHandler M).groups[gid]? =
      some g₁ := by simp
  unfold addMember
  rw [withGroup_some hg, ha]
  simp only [Except.mapError]
  rw [withGroup_some hg₁, hm]
  rfl

end MlsGroupHandler

/-- What a run of adds makes of a group: an epoch for each Welcome, their packages' dids more, and the first
Welcome leads into the first epoch. -/
structure Grown (L : GroupEpochs M) (kps : SledTree M.KeyPackage) (g g' : M.Group) (ts : List (Did × M.Message)) :
    Prop where
  epoch : M.epoch g' = M.epoch g + ts.length
  dids : ∀ x, x ∈ M.dids g' ↔ x ∈ M.dids g ∨ ∃ y ∈ ts, ∃ kp, kps[y.1]? = some kp ∧ x = L.credential kp
  first : ∀ y ∈ ts.head?, ∃ gy kp, L.leads y.2 gy ∧ M.epoch gy = M.epoch g + 1 ∧ kps[y.1]? = some kp ∧
    ∀ x, x ∈ M.dids gy ↔ x ∈ M.dids g ∨ x = L.credential kp

namespace Grown
variable {L : GroupEpochs M} {kps : SledTree M.KeyPackage} {g g₁ g' : M.Group} {ts : List (Did × M.Message)}

theorem refl (g : M.Group) : Grown L kps g g [] := ⟨by simp, by simp, by simp⟩

/-- An add that failed leaves things as they were. -/
theorem skip (h : Grown L kps g₁ g' ts) (he : M.epoch g₁ = M.epoch g) (hd : M.dids g₁ = M.dids g) :
    Grown L kps g g' ts := by
  refine ⟨he ▸ h.epoch, hd ▸ h.dids, ?_⟩
  rw [← he, ← hd]
  exact h.first

theorem cons {d : Did} {w : M.Message} {kp : M.KeyPackage} (h : Grown L kps g₁ g' ts) (hk : kps[d]? = some kp)
    (he : M.epoch g₁ = M.epoch g + 1) (hd : ∀ x, x ∈ M.dids g₁ ↔ x ∈ M.dids g ∨ x = L.credential kp)
    (hl : L.leads w g₁) : Grown L kps g g' ((d, w) :: ts) := by
  refine ⟨?_, fun x => ?_, fun y hy => ?_⟩
  · rw [h.epoch, he, List.length_cons]
    omega
  · rw [h.dids, hd]
    constructor
    · rintro ((hx | rfl) | ⟨y, hy, hkp⟩)
      · exact Or.inl hx
      · exact Or.inr ⟨(d, w), by simp, kp, hk, rfl⟩
      · exact Or.inr ⟨y, by simp [hy], hkp⟩
    · rintro (hx | ⟨y, hy, kp', hkp', rfl⟩)
      · exact Or.inl (Or.inl hx)
      · rcases List.mem_cons.1 hy with rfl | hy
        · obtain rfl := Option.some.inj (hk.symm.trans hkp')
          exact Or.inl (Or.inr rfl)
        · exact Or.inr ⟨y, hy, kp', hkp', rfl⟩
  · obtain rfl : (d, w) = y := by simpa using hy
    exact ⟨g₁, kp, hl, he, hk, hd⟩

end Grown

namespace MlsGroupHandler
variable {h : MlsGroupHandler M} {gid : String} {g : M.Group} {kps : SledTree M.KeyPackage} {ds : List Did}
  {rng : ℕ}

/-- The loop of `reinitialize_group`: its Welcomes are those of the packages taken, and only its group changes. -/
theorem addAll_grown (L : GroupEpochs M) (kps : SledTree M.KeyPackage) (ds : List Did) (rng : ℕ)
    (hg : h.groups[gid]? = some g) (hp : M.pendingProposals g = []) :
    (addAll gid kps ds rng h).1 = taken M h.localDid kps ds rng h.provider g ∧
    (∀ k, k ≠ gid → (addAll gid kps ds rng h).2.groups[k]? = h.groups[k]?) ∧
    ∃ g', (addAll gid kps ds rng h).2.groups[gid]? = some g' ∧
      Grown L kps g g' (taken M h.localDid kps ds rng h.provider g) := by
  induction ds generalizing h g rng with
  | nil => exact ⟨rfl, fun _ _ => rfl, g, hg, .refl g⟩
  | cons d ds ih =>
    unfold addAll taken
    split_ifs with hd
    · exact ih _ hg hp
    cases hk : kps[d]? with
    | none => exact ih _ hg hp
    | some kp =>
      rcases ha : M.addMembers h.localDid rng [kp] h.provider g with ⟨r, p₁, g₁⟩
      cases r with
      | error e =>
        obtain ⟨he, hdid, hpp⟩ := L.add_error ha
        obtain ⟨e', heq⟩ := addMember_error hg ha
        dsimp only
        rw [heq, ha]
        have hg₁ : ({ h with provider := p₁, groups := h.groups.insert gid g₁ } : MlsGroupHandler M).groups[gid]? =
            some g₁ := by simp
        obtain ⟨hw, hother, g', hg', hgrown⟩ := ih (rng + 1) hg₁ (hpp.trans hp)
        refine ⟨hw, fun k hk => (hother k hk).trans ?_, g', hg', hgrown.skip he hdid⟩
        simp [Ne.symm hk]
      | ok cw =>
        obtain ⟨c, w⟩ := cw
        obtain ⟨p₂, g₂, hm, he, hdid, hpp, hl⟩ := L.add ha hp
        dsimp only
        rw [addMember_ok hg ha hm, ha]
        dsimp only
        rw [hm]
        have hg₂ : ({ h with provider := p₂, groups := (h.groups.insert gid g₁).insert gid g₂ } :
            MlsGroupHandler M).groups[gid]? = some g₂ := by simp
        obtain ⟨hw, hother, g', hg', hgrown⟩ := ih (rng + 1) hg₂ hpp
        refine ⟨congrArg ((d, w) :: ·) hw, fun k hk => (hother k hk).trans ?_, g', hg', hgrown.cons hk he hdid hl⟩
        simp [Ne.symm hk]

theorem reinitId_ne (h : MlsGroupHandler M) (id : String) : h.reinitId id ≠ id := by
  intro heq
  have hlen := congrArg (fun s => s.toList.length) heq
  simp only [reinitId, String.toList_append, List.length_append] at hlen
  have : "-reinit-".toList.length = 8 := by decide
  omega

/-- The group is gone whatever comes of the rest. -/
theorem removeGroup_clearDesync {id : String} (hg : h.groups[id]? = some g) :
    ((h.removeGroup id).clearDesync id).localDid = h.localDid ∧
    ((h.removeGroup id).clearDesync id).provider = M.deleteGroup g h.provider ∧
    ((h.removeGroup id).clearDesync id).groups = h.groups.erase id := by
  unfold removeGroup
  rw [hg]
  unfold clearDesync
  dsimp only
  split <;> exact ⟨rfl, rfl, rfl⟩

theorem reinitializeGroup_error (kps : SledTree M.KeyPackage) {id e : String} {p' : M.Provider}
    (hg : h.groups[id]? = some g)
    (hn : M.newWithGroupId h.localDid (h.reinitId id) rng (M.deleteGroup g h.provider) = (.error e, p')) :
    (∃ e', (h.reinitializeGroup id kps rng).1 = .error e') ∧
      (h.reinitializeGroup id kps rng).2.groups[id]? = none := by
  obtain ⟨hl, hp, hgs⟩ := removeGroup_clearDesync hg
  unfold reinitializeGroup createGroup
  dsimp only
  rw [hl, hp, hn]
  exact ⟨⟨_, rfl⟩, by simp [hgs]⟩

theorem reinitializeGroup_ok (L : GroupEpochs M) (kps : SledTree M.KeyPackage) {id : String} {g₀ : M.Group}
    {p' : M.Provider} (hg : h.groups[id]? = some g)
    (hn : M.newWithGroupId h.localDid (h.reinitId id) rng (M.deleteGroup g h.provider) = (.ok g₀, p')) :
    (h.reinitializeGroup id kps rng).1 = .ok ⟨h.reinitId id,
      taken M h.localDid kps (h.membersOrDefault id) (rng + 1) p' g₀,
      h.localDid :: (taken M h.localDid kps (h.membersOrDefault id) (rng + 1) p' g₀).map (·.1)⟩ ∧
    (h.reinitializeGroup id kps rng).2.groups[id]? = none ∧
    ∃ g', (h.reinitializeGroup id kps rng).2.groups[h.reinitId id]? = some g' ∧
      Grown L kps g₀ g' (taken M h.localDid kps (h.membersOrDefault id) (rng + 1) p' g₀) := by
  obtain ⟨hl, hp, hgs⟩ := removeGroup_clearDesync hg
  have hcreate : ((h.removeGroup id).clearDesync id).createGroup (h.reinitId id) rng =
      (.ok (), { (h.removeGroup id).clearDesync id with
        provider := p', groups := (h.groups.erase id).insert (h.reinitId id) g₀ }) := by
    simp only [createGroup, hl, hp, hn, hgs]
  have hnew : ({ (h.removeGroup id).clearDesync id with
      provider := p', groups := (h.groups.erase id).insert (h.reinitId id) g₀ } :
        MlsGroupHandler M).groups[h.reinitId id]? = some g₀ := by simp
  obtain ⟨hw, hother, g', hg', hgrown⟩ := addAll_grown L kps (h.membersOrDefault id) (rng + 1)
    hnew (L.new hn).2.2
  rw [show ({ (h.removeGroup id).clearDesync id with
      provider := p', groups := (h.groups.erase id).insert (h.reinitId id) g₀ } : MlsGroupHandler M).localDid =
        h.localDid from hl] at hw hgrown
  unfold reinitializeGroup
  dsimp only
  rw [hcreate]
  dsimp only
  rw [hw]
  refine ⟨rfl, (hother id (reinitId_ne h id).symm).trans ?_, g', hg', hgrown⟩
  simp [reinitId_ne h id]

end MlsGroupHandler

namespace Node
variable {n : Node M} {W : Wire} {env : Env} {net : ReinitNet} {id : String}

/-- What is published on a group's topic in a step. -/
def transmitted (gid : String) (n n' : Node M) : List GroupMessage :=
  (n'.effects.drop n.effects.length).filterMap fun e =>
    match e with
    | .publish topic m => if topic = groupTopic gid then some m else none
    | _ => none

end Node

/-- A member's handler reads messages of a group one after another. -/
def MlsGroupHandler.catchUp (h : MlsGroupHandler M) (gid : String) (ms : List GroupMessage) : MlsGroupHandler M :=
  ms.foldl (fun h m =>
    match M.deserializeMessage m.mlsCiphertext with
    | .ok message => (h.processMessage gid message).2
    | .error _ => h) h

namespace Node
variable {n : Node M} {W : Wire} {env : Env} {net : ReinitNet} {id : String}

/-- Whoever joins with its Welcome and reads what is transmitted is where the admin is; each Welcome is on its
way; the new metadata lists the members of the new group. -/
structure Recovered (W : Wire) (newId : String) (welcomes : List (Did × M.Message)) (n n' : Node M) : Prop where
  joins : ∀ x ∈ welcomes, ∀ (h h' : MlsGroupHandler M) gid j g, h.joinGroupFromWelcome x.2 = (.ok gid, h') →
    (h'.catchUp gid (transmitted newId n n')).groups[gid]? = some j → n'.mls.groups[newId]? = some g →
    M.epoch j = M.epoch g ∧ ∀ d, d ∈ M.dids j ↔ d ∈ M.dids g
  sent : ∀ x ∈ welcomes, ∃ i : GroupInvitation, M.serializeMessage x.2 = .ok i.mlsWelcome ∧
    Effect.sendDm x.1 (invitationContent W i) ∈ n'.effects.drop n.effects.length
  metadata : ∃ m g, n'.storage.fetchGroupMetadata newId = some m ∧ n'.mls.groups[newId]? = some g ∧
    ∀ d, d ∈ m.members.map (·.did) ↔ d ∈ M.dids g

/-- A group is recovered, or left as it was. -/
def Reinitialises (n : Node M) (W : Wire) (env : Env) (net : ReinitNet) (id : String) : Prop :=
  match n.mlsReinitializeGroup W env net id with
  | (.error _, n') => n'.mls.groups[id]? = n.mls.groups[id]? ∧
      n'.storage.fetchGroupMetadata id = n.storage.fetchGroupMetadata id
  | (.ok _, n') => ∀ kps result, n.Collects W net id kps →
      (n.mls.reinitializeGroup id kps env.rng).1 = .ok result → Recovered W result.newGroupId result.welcomes n n'

/-- The condition. The new id is free; at most one package is taken, its Welcome serializes and its member can be
reached; and the metadata lists that member, the admin and nobody else. -/
def Recoverable (L : GroupEpochs M) (n : Node M) (W : Wire) (env : Env) (net : ReinitNet) (id : String) : Prop :=
  ∀ kps g, n.Collects W net id kps → n.mls.groups[id]? = some g →
    ∃ g₀ p', M.newWithGroupId n.mls.localDid (n.mls.reinitId id) env.rng (M.deleteGroup g n.mls.provider) =
        (.ok g₀, p') ∧
      (taken M n.mls.localDid kps (M.dids g) (env.rng + 1) p' g₀).length ≤ 1 ∧
      (∀ x ∈ taken M n.mls.localDid kps (M.dids g) (env.rng + 1) p' g₀,
        net.dmOk x.1 = true ∧ ∃ b, M.serializeMessage x.2 = .ok b) ∧
      ∃ m, n.metadataAfter env id (n.mls.reinitId id) = some m ∧ ∀ d, d ∈ m.members.map (·.did) ↔
        d = n.mls.localDid ∨ ∃ x ∈ taken M n.mls.localDid kps (M.dids g) (env.rng + 1) p' g₀,
          ∃ kp, kps[x.1]? = some kp ∧ d = L.credential kp

/-- Nothing goes out on the topic. -/
theorem transmitted_nil {n' : Node M} {es : List Effect} {newId old : String}
    (he : n'.effects = n.effects ++ (.subscribe (groupTopic newId) :: es ++
      [.schedulePersist, .ws (.groupReinitialized old newId)]))
    (hes : ∀ e ∈ es, ∃ d c, e = .sendDm d c ∧ net.dmOk d = true) : transmitted newId n n' = [] := by
  unfold transmitted
  rw [he, List.drop_left]
  refine List.filterMap_eq_nil_iff.2 fun e hmem => ?_
  simp only [List.cons_append, List.mem_cons, List.mem_append, List.not_mem_nil, or_false] at hmem
  rcases hmem with rfl | hmem | rfl | rfl
  · rfl
  · obtain ⟨d, c, rfl, -⟩ := hes e hmem
    rfl
  · rfl
  · rfl

theorem join_cases {h h' : MlsGroupHandler M} {m : M.Message} {gid : String}
    (hj : h.joinGroupFromWelcome m = (.ok gid, h')) : ∃ w staged p₁ j p₂, M.extractWelcome m = some w ∧
      M.newFromWelcome w h.provider = (.ok staged, p₁) ∧ M.intoGroup staged p₁ = (.ok j, p₂) ∧
      h'.groups[gid]? = some j := by
  unfold MlsGroupHandler.joinGroupFromWelcome at hj
  split at hj
  · cases hj
  rename_i w hw
  split at hj
  · cases hj
  rename_i staged p₁ hs
  split at hj
  · cases hj
  rename_i j p₂ hi
  cases hj
  exact ⟨w, staged, p₁, j, p₂, hw, hs, hi, by simp⟩

/-- Everybody who is added ends up where the admin is just when nobody is added after another. -/
theorem joins_iff (L : GroupEpochs M) {kps : SledTree M.KeyPackage} {ts : List (Did × M.Message)}
    {g₀ g' : M.Group} (hg : Grown L kps g₀ g' ts) :
    (∀ x ∈ ts, ∀ (h h' : MlsGroupHandler M) gid j, h.joinGroupFromWelcome x.2 = (.ok gid, h') →
      h'.groups[gid]? = some j → M.epoch j = M.epoch g' ∧ ∀ d, d ∈ M.dids j ↔ d ∈ M.dids g') ↔
      ts.length ≤ 1 := by
  constructor
  · intro h
    by_contra hlen
    rcases ts with _ | ⟨x, _ | ⟨y, rest⟩⟩
    · simp at hlen
    · simp at hlen
    obtain ⟨gy, kp, hl, he, -, -⟩ := hg.first x (by simp)
    obtain ⟨w, p, staged, p₁, j, p₂, hw, hs, hi⟩ := L.joins hl
    let start : MlsGroupHandler M := ⟨"", p, ∅, ∅⟩
    have hjoin : start.joinGroupFromWelcome x.2 =
        (.ok (M.groupId j), { start with provider := p₂, groups := start.groups.insert (M.groupId j) j }) := by
      simp only [MlsGroupHandler.joinGroupFromWelcome, start, hw, hs, hi]
    have hsame := (h x (by simp) _ _ _ j hjoin (by simp)).1
    rw [(L.join hl hw hs hi).1, he, hg.epoch, List.length_cons, List.length_cons] at hsame
    omega
  · intro hlen x hx h h' gid j hj hgj
    obtain rfl : ts = [x] := by
      rcases ts with _ | ⟨y, _ | ⟨z, rest⟩⟩
      · simp at hx
      · rw [List.mem_singleton.1 hx]
      · simp at hlen
    obtain ⟨gy, kp, hl, he, hkp, hd⟩ := hg.first x (by simp)
    obtain ⟨w, staged, p₁, j', p₂, hw, hs, hi, hgj'⟩ := join_cases hj
    obtain rfl := Option.some.inj (hgj.symm.trans hgj')
    obtain ⟨hje, hjd⟩ := L.join hl hw hs hi
    refine ⟨?_, fun d => ?_⟩
    · rw [hje, he, hg.epoch]
      rfl
    · rw [hjd, hd, hg.dids]
      simp [hkp]

/-- The group is founded again: what that comes to. -/
theorem recovered_iff (L : GroupEpochs M) {kps : SledTree M.KeyPackage} {newId old : String} {n' : Node M}
    {ts : List (Did × M.Message)} {g₀ g' : M.Group} {es : List Effect} {d₀ : Did}
    (hg : Grown L kps g₀ g' ts) (h₀ : M.dids g₀ = [d₀]) (hg' : n'.mls.groups[newId]? = some g')
    (hmeta : n'.storage.fetchGroupMetadata newId = n.metadataAfter env id newId)
    (he : n'.effects = n.effects ++ (.subscribe (groupTopic newId) :: es ++
      [.schedulePersist, .ws (.groupReinitialized old newId)]))
    (hes : ∀ e ∈ es, ∃ d c, e = .sendDm d c ∧ net.dmOk d = true)
    (hsent : ∀ x ∈ ts, net.dmOk x.1 = true → ∃ i, M.serializeMessage x.2 = .ok i.mlsWelcome ∧
      Effect.sendDm x.1 (invitationContent W i) ∈ es) :
    Recovered W newId ts n n' ↔ ts.length ≤ 1 ∧ (∀ x ∈ ts, net.dmOk x.1 = true) ∧
      ∃ m, n.metadataAfter env id newId = some m ∧ ∀ d, d ∈ m.members.map (·.did) ↔
        d = d₀ ∨ ∃ x ∈ ts, ∃ kp, kps[x.1]? = some kp ∧ d = L.credential kp := by
  have hdrop : n'.effects.drop n.effects.length = .subscribe (groupTopic newId) :: es ++
      [.schedulePersist, .ws (.groupReinitialized old newId)] := by
    rw [he, List.drop_left]
  have hdids : ∀ d, d ∈ M.dids g' ↔ d = d₀ ∨ ∃ x ∈ ts, ∃ kp, kps[x.1]? = some kp ∧ d = L.credential kp := by
    intro d
    rw [hg.dids, h₀, List.mem_singleton]
  constructor
  · intro hr
    refine ⟨(joins_iff L hg).1 ?_, fun x hx => ?_, ?_⟩
    · intro x hx h h' gid j hj hgj
      refine hr.joins x hx h h' gid j g' hj ?_ hg'
      rw [transmitted_nil he hes]
      exact hgj
    · obtain ⟨i, -, hmem⟩ := hr.sent x hx
      rw [hdrop] at hmem
      simp only [List.cons_append, List.mem_cons, reduceCtorEq, List.mem_append, List.not_mem_nil, or_false,
        false_or] at hmem
      obtain ⟨d, c, heq, hd⟩ := hes _ hmem
      cases heq
      exact hd
    · obtain ⟨m, g, hm, hgn, hall⟩ := hr.metadata
      obtain rfl := Option.some.inj (hg'.symm.trans hgn)
      exact ⟨m, hmeta ▸ hm, fun d => (hall d).trans (hdids d)⟩
  · rintro ⟨hlen, hdm, m, hm, hall⟩
    refine ⟨?_, fun x hx => ?_, m, g', hmeta.trans hm, hg', fun d => (hall d).trans (hdids d).symm⟩
    · intro x hx h h' gid j g hj hgj hgn
      obtain rfl := Option.some.inj (hg'.symm.trans hgn)
      rw [transmitted_nil he hes] at hgj
      exact (joins_iff L hg).2 hlen x hx h h' gid j hj hgj
    · obtain ⟨i, hi, hmem⟩ := hsent x hx (hdm x hx)
      exact ⟨i, hi, by rw [hdrop]; simp [hmem]⟩

end Node

namespace Reinitialisation
open IdealMls IdealGroup Node

def packageOf (d : Did) : Bytes := keyPackageCodec.enc ⟨d, 9⟩

/-- Everybody sends a key package when asked for one and can be reached. -/
def everybody : ReinitNet := ⟨none, fun d => .ok (some (packageOf d)), fun _ => true⟩

def packages (ds : List Did) : SledTree idealMls.KeyPackage :=
  match collectKeyPackages idealMls idealWire everybody "did:a" ds ∅ with
  | .ok kps => kps
  | .error _ => ∅

theorem collects {n : Node idealMls} {ds : List Did} (hl : n.localDid = "did:a")
    (hg : (n.mls.groups["g"]?).map idealMls.dids = some ds) (hr : (n.requireRole "g" "admin").toBool = true)
    (hok : (collectKeyPackages idealMls idealWire everybody "did:a" ds ∅).toBool = true) :
    n.Collects idealWire everybody "g" (packages ds) := by
  obtain ⟨g, hin, rfl⟩ := Option.map_eq_some_iff.1 hg
  have hrole : n.requireRole "g" "admin" = .ok () := by
    cases h : n.requireRole "g" "admin" with
    | error e => simp [h, Except.toBool] at hr
    | ok u => rfl
  refine ⟨hrole, _, (listMembers_eq hin).1, ?_⟩
  rw [hl]
  unfold packages
  cases h : collectKeyPackages idealMls idealWire everybody "did:a" (idealMls.dids g) ∅ with
  | error e => simp [h, Except.toBool] at hok
  | ok kps => rfl

/-- `did:b` is added first; `did:c` follows, and the admin moves on. -/
def firstWelcome : idealMls.Message :=
  .welcome ⟨"g-reinit-2", ⟨"did:a", 8, 0, ["did:b"], []⟩, [⟨"did:b", 9⟩], ["did:a", "did:b"]⟩

def invitee : MlsGroupHandler idealMls := ⟨"did:b", ⟨[⟨"did:b", 9⟩], []⟩, ∅, ∅⟩

def reinitialised (net : ReinitNet) : Node idealMls := (group.mlsReinitializeGroup idealWire (env 6) net "g").2

/-- Before `did:c` was invited. -/
def pair : Node idealMls :=
  [Op.create (env 0) "G", Op.invite (env 1) IdealGroup.net "g" "did:b",
    Op.direct (env 2) "did:b" "m" 0 (Node.acceptedContent "g")].foldl (fun n op => n.exec idealWire op) alice

def pairGroup : idealMls.Group :=
  let noGroup : GroupState := ⟨"", "", 0, [], [], none, []⟩
  (pair.mls.groups["g"]?).getD noGroup

def refounded : Except String IdealMls.GroupState × IdealMls.Provider :=
  idealMls.newWithGroupId "did:a" "g-reinit-1" 3 (idealMls.deleteGroup pairGroup pair.mls.provider)

def founded : IdealMls.GroupState := ⟨"g-reinit-1", "did:a", 0, ["did:a"], [], none, []⟩

def again : List (Did × IdealMls.Message) :=
  taken idealMls "did:a" (packages ["did:a", "did:b"]) ["did:a", "did:b"] 4 refounded.2 founded

def secondWelcome : IdealMls.Message :=
  .welcome ⟨"g-reinit-1", ⟨"did:a", 5, 0, ["did:b"], []⟩, [⟨"did:b", 9⟩], ["did:a", "did:b"]⟩

theorem again_eq : again = [("did:b", secondWelcome)] := by decide +kernel

end Reinitialisation

end Variance
