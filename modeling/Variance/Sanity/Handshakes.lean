import Variance.Sanity.Calls

/-! What the two group listeners make of a message, by what openmls makes of it. -/

namespace Variance

namespace MlsGroupHandler
variable {M : OpenMls} {h : MlsGroupHandler M} {gid : String} {m pm : M.Message} {g : M.Group}

theorem toOption_map_mapError {α β : Type} (r : Except String α) (wrap : String → MsgError) (f : α → β) :
    ((r.mapError wrap).map f).toOption = r.toOption.map f := by
  cases r <;> rfl

/-- The handler's processing is openmls's. -/
theorem processMessage_received (hg : h.groups[gid]? = some g) (ht : M.tryIntoProtocolMessage m = .ok pm) :
    (h.processMessage gid m).2.localDid = h.localDid ∧
      (h.processMessage gid m).2.groups = h.groups.insert gid (M.receive pm h.provider g).2 ∧
      (h.processMessage gid m).1.toOption = M.received pm h.provider g := by
  unfold processMessage
  simp only [hg, ht]
  rw [withGroup_some hg]
  rcases hp : M.processMessage pm h.provider g with ⟨⟨e⟩ | ⟨s, content⟩, p₁, g₁⟩
  · simp [OpenMls.receive, OpenMls.received, hp, Except.mapError, Except.toOption]
  have hg₁ : ({ h with provider := p₁, groups := h.groups.insert gid g₁ } : MlsGroupHandler M).groups[gid]? =
      some g₁ := by simp
  cases content with
  | applicationMessage b => simp [OpenMls.receive, OpenMls.received, hp, Except.mapError, Except.toOption]
  | other => simp [OpenMls.receive, OpenMls.received, hp, Except.mapError, Except.toOption]
  | proposalMessage q =>
    simp only [OpenMls.receive, OpenMls.received, hp, Except.mapError]
    rw [withGroup_some hg₁]
    exact ⟨rfl, insert_insert _ _ _ _, toOption_map_mapError _ _ _⟩
  | stagedCommitMessage c =>
    simp only [OpenMls.receive, OpenMls.received, hp, Except.mapError]
    rw [withGroup_some hg₁]
    exact ⟨rfl, insert_insert _ _ _ _, toOption_map_mapError _ _ _⟩

theorem processMessage_provider (hg : h.groups[gid]? = some g) (ht : M.tryIntoProtocolMessage m = .ok pm) :
    (h.processMessage gid m).2.provider = (M.receive pm h.provider g).1 := by
  unfold processMessage
  simp only [hg, ht]
  rw [withGroup_some hg]
  rcases hp : M.processMessage pm h.provider g with ⟨⟨e⟩ | ⟨s, content⟩, p₁, g₁⟩
  · simp [OpenMls.receive, hp, Except.mapError]
  have hg₁ : ({ h with provider := p₁, groups := h.groups.insert gid g₁ } : MlsGroupHandler M).groups[gid]? =
      some g₁ := by simp
  cases content with
  | applicationMessage b => simp [OpenMls.receive, hp, Except.mapError]
  | other => simp [OpenMls.receive, hp, Except.mapError]
  | proposalMessage q =>
    simp only [OpenMls.receive, hp, Except.mapError]
    rw [withGroup_some hg₁]
  | stagedCommitMessage c =>
    simp only [OpenMls.receive, hp, Except.mapError]
    rw [withGroup_some hg₁]

/-- What cannot be given to openmls is refused with nothing changed. -/
theorem processMessage_refused (hr : ¬ ∃ g pm, h.groups[gid]? = some g ∧ M.tryIntoProtocolMessage m = .ok pm) :
    ∃ e, h.processMessage gid m = (.error e, h) := by
  unfold processMessage
  cases hg : h.groups[gid]? with
  | none => exact ⟨_, rfl⟩
  | some g =>
    cases ht : M.tryIntoProtocolMessage m with
    | error e => exact ⟨_, rfl⟩
    | ok pm => exact (hr ⟨g, pm, hg, ht⟩).elim

/-- A Welcome that leads nowhere changes no group; another brings its group in. -/
theorem joinGroupFromWelcome_cases (h : MlsGroupHandler M) (m : M.Message) :
    (∃ e mls, h.joinGroupFromWelcome m = (.error e, mls) ∧ mls.groups = h.groups) ∨
      ∃ g mls, M.Welcomes m g ∧ h.joinGroupFromWelcome m = (.ok (M.groupId g), mls) ∧
        mls.groups = h.groups.insert (M.groupId g) g := by
  unfold joinGroupFromWelcome
  split
  · exact Or.inl ⟨_, _, rfl, rfl⟩
  rename_i w hw
  split
  · exact Or.inl ⟨_, _, rfl, rfl⟩
  rename_i staged p₁ hs
  split
  · exact Or.inl ⟨_, _, rfl, rfl⟩
  · rename_i g p₂ hg
    exact Or.inr ⟨g, _, ⟨w, staged, _, p₁, p₂, hw, hs, hg⟩, rfl, rfl⟩

/-- A removal that cannot be committed, one whose commit does not merge, and one that goes through. -/
theorem removeMember_cases (i rng : ℕ) (hg : h.groups[gid]? = some g) : ∃ g',
    (h.removeMember gid i rng).2.groups = h.groups.insert gid g' ∧
    ((∃ e e' p₁, (h.removeMember gid i rng).1 = .error e ∧
        M.removeMembers h.localDid rng [i] h.provider g = (.error e', p₁, g')) ∨
      ∃ c p₁ g₁, M.removeMembers h.localDid rng [i] h.provider g = (.ok c, p₁, g₁) ∧
        ((∃ e e' p₂, (h.removeMember gid i rng).1 = .error e ∧ M.mergePendingCommit p₁ g₁ = (.error e', p₂, g')) ∨
          ∃ p₂, (h.removeMember gid i rng).1 = .ok c ∧ M.mergePendingCommit p₁ g₁ = (.ok (), p₂, g'))) := by
  unfold removeMember
  rw [withGroup_some hg]
  rcases M.removeMembers h.localDid rng [i] h.provider g with ⟨⟨e⟩ | ⟨c⟩, p₁, g₁⟩
  · exact ⟨g₁, rfl, Or.inl ⟨_, e, p₁, rfl, rfl⟩⟩
  · have hg₁ : ({ h with provider := p₁, groups := h.groups.insert gid g₁ } : MlsGroupHandler M).groups[gid]? =
        some g₁ := by simp
    simp only [Except.mapError]
    rw [withGroup_some hg₁]
    rcases hp : M.mergePendingCommit p₁ g₁ with ⟨⟨e⟩ | ⟨u⟩, p₂, g₂⟩
    · exact ⟨g₂, insert_insert _ _ _ _, Or.inr ⟨c, p₁, g₁, rfl, Or.inl ⟨_, e, p₂, rfl, hp⟩⟩⟩
    · exact ⟨g₂, insert_insert _ _ _ _, Or.inr ⟨c, p₁, g₁, rfl, Or.inr ⟨p₂, rfl, hp⟩⟩⟩

/-- A confirmation without a pending commit, and one that calls for the merge. -/
theorem confirmAddMember_cases (h : MlsGroupHandler M) (gid : String) :
    (∃ e, h.confirmAddMember gid = (.error e, h)) ∨ ∃ g k r p' g', h.groups[gid]? = some g ∧
      M.pendingCommit g = some k ∧ M.mergePendingCommit h.provider g = (r, p', g') ∧
      (h.confirmAddMember gid).2.groups = h.groups.insert gid g' ∧
      ((∃ e e', r = .error e ∧ (h.confirmAddMember gid).1 = .error e') ∨
        r = .ok () ∧ (h.confirmAddMember gid).1 = .ok ()) := by
  unfold confirmAddMember
  cases hg : h.groups[gid]? with
  | none => exact Or.inl ⟨_, rfl⟩
  | some g =>
    dsimp only
    cases hk : M.pendingCommit g with
    | none => exact Or.inl ⟨_, rfl⟩
    | some k =>
      rcases hm : M.mergePendingCommit h.provider g with ⟨⟨e⟩ | ⟨u⟩, p', g'⟩
      · refine Or.inr ⟨g, k, _, p', g', rfl, hk, hm, ?_,
          Or.inl ⟨e, .mlsCommit ("Failed to merge pending commit: " ++ e), rfl, ?_⟩⟩
        · simp [withGroup_some hg, hm]
        · simp [withGroup_some hg, hm, Except.mapError]
      · refine Or.inr ⟨g, k, _, p', g', rfl, hk, hm, ?_, Or.inr ⟨rfl, ?_⟩⟩
        · simp [withGroup_some hg, hm]
        · simp [withGroup_some hg, hm, Except.mapError]

theorem removeGroup_gone : (h.removeGroup gid).groups[gid]? = none := by
  unfold removeGroup
  split
  · assumption
  · simp

end MlsGroupHandler

open MlsGroupHandler

namespace Node
variable {M : OpenMls} {n n' : Node M} {W : Wire} {env : Env} {gid id : String} {d : Did} {m : GroupMessage}

/-- A departure that fails has written nothing. -/
theorem departGroup_stored : (n.departGroup env gid).2.storage = n.storage ∨
    (n.departGroup env gid).2.mls.groups[gid]? = none := by
  unfold departGroup
  split
  · exact Or.inl rfl
  · dsimp only
    split
    · exact Or.inl rfl
    · refine Or.inr ?_
      rw [refreshKeyPackage_groups]
      exact removeGroup_gone

/-- Nothing that lasts is different. -/
def Idle (n n' : Node M) : Prop :=
  n'.localDid = n.localDid ∧ n'.storage = n.storage ∧ n'.mls.localDid = n.mls.localDid ∧ n'.mls.groups = n.mls.groups

theorem Idle.refl (n : Node M) : n.Idle n := ⟨rfl, rfl, rfl, rfl⟩

theorem idle_recordLiveFailure : n.Idle (n.recordLiveFailure gid) := by
  unfold recordLiveFailure MlsGroupHandler.recordProcessingFailure
  dsimp only
  split
  · rename_i heq
    obtain ⟨-, rfl⟩ := Prod.mk.inj heq
    exact .refl _
  · rename_i heq
    obtain ⟨-, rfl⟩ := Prod.mk.inj heq
    exact .refl _

@[simp] theorem recordProcessingSuccess_groups (h : MlsGroupHandler M) :
    (h.recordProcessingSuccess gid).groups = h.groups := by
  unfold MlsGroupHandler.recordProcessingSuccess
  split
  · rfl
  · rfl

@[simp] theorem recordProcessingSuccess_localDid (h : MlsGroupHandler M) :
    (h.recordProcessingSuccess gid).localDid = h.localDid := by
  unfold MlsGroupHandler.recordProcessingSuccess
  split
  · rfl
  · rfl

/-- The live listener: a message that openmls cannot be given changes nothing; of any other, what openmls makes of it
says what comes next. -/
theorem handleGroupMessage_cases (n : Node M) (W : Wire) (env : Env) (m : GroupMessage) :
    n.Idle (n.handleGroupMessage W env m) ∨ ∃ pm g mls, M.Reads m.mlsCiphertext pm ∧
      n.mls.groups[m.groupId]? = some g ∧ mls.localDid = n.mls.localDid ∧
      mls.groups = n.mls.groups.insert m.groupId (M.receive pm n.mls.provider g).2 ∧
      match M.received pm n.mls.provider g with
      | none => Idle { n with mls := mls } (n.handleGroupMessage W env m)
      | some (some d) => n.handleGroupMessage W env m =
          (handleGroupPlaintext { n with mls := mls } W env m d.plaintext).emit .schedulePersist
      | some none => n.handleGroupMessage W env m =
          afterHandshake { n with mls := mls } env m.groupId (n.mls.membersOrDefault m.groupId) := by
  unfold handleGroupMessage
  by_cases hnil : m.mlsCiphertext = []
  · rw [if_pos hnil]
    exact Or.inl (.refl n)
  rw [if_neg hnil]
  cases hd : M.deserializeMessage m.mlsCiphertext with
  | error e => exact Or.inl idle_recordLiveFailure
  | ok msg =>
    dsimp only
    by_cases hr : ∃ g pm, n.mls.groups[m.groupId]? = some g ∧ M.tryIntoProtocolMessage msg = .ok pm
    · obtain ⟨g, pm, hg, ht⟩ := hr
      obtain ⟨hl, hgs, hres⟩ := MlsGroupHandler.processMessage_received hg ht
      refine Or.inr ⟨pm, g, ?_⟩
      rcases hp : n.mls.processMessage m.groupId msg with ⟨e | d, mls⟩
      · rw [hp] at hl hgs hres
        refine ⟨mls, ⟨msg, hd, ht⟩, hg, hl, hgs, ?_⟩
        rw [← hres]
        exact idle_recordLiveFailure
      · rw [hp] at hl hgs hres
        refine ⟨mls.recordProcessingSuccess m.groupId, ⟨msg, hd, ht⟩, hg, by simpa using hl, by simpa using hgs, ?_⟩
        rw [← hres]
        cases d with
        | none => rfl
        | some d => rfl
    · obtain ⟨e, he⟩ := MlsGroupHandler.processMessage_refused hr
      rw [he]
      exact Or.inl idle_recordLiveFailure

/-- The sync listener, as far as the groups go. -/
theorem handleSyncedMessage_cases (n : Node M) (W : Wire) (env : Env) (gid : String) (m : GroupMessage) :
    (n.handleSyncedMessage W env gid m).2.mls.groups = n.mls.groups ∨
      n.storage.hasGroupMessage gid m.id = false ∧ ∃ pm g, M.Reads m.mlsCiphertext pm ∧ n.mls.groups[gid]? = some g ∧
        (n.handleSyncedMessage W env gid m).2.mls.groups =
          n.mls.groups.insert gid (M.receive pm n.mls.provider g).2 := by
  unfold handleSyncedMessage
  by_cases hhas : n.storage.hasGroupMessage gid m.id = true
  · rw [if_pos hhas]
    exact Or.inl rfl
  rw [if_neg hhas]
  by_cases hnil : m.mlsCiphertext = []
  · rw [if_pos hnil]
    exact Or.inl rfl
  rw [if_neg hnil]
  cases hd : M.deserializeMessage m.mlsCiphertext with
  | error e => exact Or.inl rfl
  | ok msg =>
    dsimp only
    by_cases hr : ∃ g pm, n.mls.groups[gid]? = some g ∧ M.tryIntoProtocolMessage msg = .ok pm
    · obtain ⟨g, pm, hg, ht⟩ := hr
      obtain ⟨-, hgs, -⟩ := MlsGroupHandler.processMessage_received hg ht
      refine Or.inr ⟨by simpa using hhas, pm, g, ⟨msg, hd, ht⟩, hg, ?_⟩
      rcases hp : n.mls.processMessage gid msg with ⟨e | d, mls⟩
      · rw [hp] at hgs
        exact hgs
      · rw [hp] at hgs
        cases d with
        | none => simpa using hgs
        | some d =>
          dsimp only
          split
          · simpa [persistGroupPlaintext] using hgs
          · simpa using hgs
    · obtain ⟨e, he⟩ := MlsGroupHandler.processMessage_refused hr
      rw [he]
      exact Or.inl rfl

theorem of_bind_ok {ε α β : Type} {x : Except ε α} {f : α → Except ε β} {b : β} (h : (x >>= f) = .ok b) :
    ∃ a, x = .ok a ∧ f a = .ok b := by
  cases x with
  | error e => cases h
  | ok a => exact ⟨a, rfl, h⟩

/-- The leaf that is removed is one of the did. -/
theorem member_of_removalIndex {i : ℕ} (h : n.removalIndex id d = .ok i) :
    ∃ g, n.mls.groups[id]? = some g ∧ (i, d) ∈ M.members g := by
  unfold removalIndex at h
  obtain ⟨-, -, h⟩ := of_bind_ok h
  obtain ⟨-, -, h⟩ := of_bind_ok h
  dsimp only at h
  split at h
  · cases h
  obtain ⟨found, hf, h⟩ := of_bind_ok h
  cases hg : n.mls.groups[id]? with
  | none => simp [findMemberIndex, hg, Except.mapError] at hf
  | some g =>
    simp only [findMemberIndex, hg, Except.mapError] at hf
    obtain rfl := Except.ok.inj hf
    cases hfind : (M.members g).find? fun m => m.2 = d with
    | none =>
      rw [hfind] at h
      cases h
    | some x =>
      rw [hfind] at h
      obtain rfl := Except.ok.inj h
      have hx : x.2 = d := by simpa using List.find?_some hfind
      subst hx
      exact ⟨g, rfl, List.mem_of_find?_eq_some hfind⟩

theorem membersOrDefault_some {g : M.Group} (hg : n.mls.groups[gid]? = some g) :
    n.mls.membersOrDefault gid = M.dids g := by
  simp [membersOrDefault, listMembers, hg, OpenMls.dids]

/-- Frontend notices while we are in the group. -/
theorem settleMembers_in (n : Node M) (env : Env) (gid : String) {before after : List Did}
    (h : n.localDid ∈ after) : (n.settleMembers env gid before after).storage = n.storage ∧
      (n.settleMembers env gid before after).mls = n.mls := by
  have hfold (ds : List Did) (n' : Node M) :
      (ds.foldl (fun n did => n.emit (.ws (.groupMemberRemoved gid did))) n').storage = n'.storage ∧
        (ds.foldl (fun n did => n.emit (.ws (.groupMemberRemoved gid did))) n').mls = n'.mls := by
    induction ds generalizing n' with
    | nil => exact ⟨rfl, rfl⟩
    | cons d ds ih => exact ih _
  unfold settleMembers
  rw [if_pos h]
  exact hfold _ n

/-- Its end once we are out. -/
theorem settleMembers_out (n : Node M) (env : Env) (gid : String) {before after : List Did}
    (h : n.localDid ∉ after) : (n.settleMembers env gid before after).mls.groups[gid]? = none := by
  unfold settleMembers cleanUpAfterRemoval
  rw [if_neg h, refreshKeyPackage_groups]
  exact removeGroup_gone

theorem settleMembers_cases (n : Node M) (env : Env) (gid : String) (before after : List Did) :
    n.localDid ∈ after ∧ (n.settleMembers env gid before after).storage = n.storage ∧
        (n.settleMembers env gid before after).mls = n.mls ∨
      (n.settleMembers env gid before after).mls.groups[gid]? = none := by
  by_cases h : n.localDid ∈ after
  · exact Or.inl ⟨h, n.settleMembers_in env gid h⟩
  · exact Or.inr (n.settleMembers_out env gid h)

theorem autoCommitProposals_storage {ms : List Did} : (n.autoCommitProposals env gid ms).2.storage = n.storage := by
  unfold autoCommitProposals
  split
  · rfl
  · rfl
  · dsimp only
    split
    · rfl
    · rfl

/-- A handshake touches no store but where it takes us out of the group. -/
theorem afterHandshake_stored (n : Node M) (env : Env) (gid : String) (before : List Did) :
    (n.afterHandshake env gid before).storage = n.storage ∨
      (n.afterHandshake env gid before).mls.groups[gid]? = none := by
  unfold afterHandshake
  dsimp only
  split_ifs
  · rcases settleMembers_cases ((n.emit .schedulePersist).autoCommitProposals env gid
        ((n.emit .schedulePersist).mls.membersOrDefault gid)).2 env gid before _ with ⟨-, hs, -⟩ | hgone
    · exact Or.inl (hs.trans autoCommitProposals_storage)
    · exact Or.inr hgone
  · rcases settleMembers_cases (n.emit .schedulePersist) env gid before _ with ⟨-, hs, -⟩ | hgone
    · exact Or.inl hs
    · exact Or.inr hgone

end Node
end Variance
