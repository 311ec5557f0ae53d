import Variance.Sanity.GroupInbound
import Variance.Sanity.InviteSteps
import Variance.Sanity.Recovery
import Variance.Sanity.Slot
import Variance.Spec.Events

/-! Which openmls calls each step of a node makes on its live groups. Whatever a step does to them is a list of
such calls, of groups newly made and of groups forgotten; a fact about the groups is then one about those. -/

namespace Variance

namespace MlsGroupHandler
variable {M : OpenMls} {A A' : String → GroupCall M → Prop} {B B' : String → M.Group → Prop}
  {h h' h'' : MlsGroupHandler M} {gid : String} {rng : ℕ}

/-- From `h` on only calls of `A` were made, and only groups of `B` came in. -/
inductive Calls (A : String → GroupCall M → Prop) (B : String → M.Group → Prop) (h : MlsGroupHandler M) :
    MlsGroupHandler M → Prop
  | same {h' : MlsGroupHandler M} (hl : h'.localDid = h.localDid) (hg : h'.groups = h.groups) : Calls A B h h'
  | call {h' h'' : MlsGroupHandler M} {gid : String} {g : M.Group} {p : M.Provider} (hc : Calls A B h h')
      (c : GroupCall M) (ha : A gid c) (hg : h'.groups[gid]? = some g) (hl : h''.localDid = h'.localDid)
      (hgs : h''.groups = h'.groups.insert gid (c.run p g).2) : Calls A B h h''
  | found {h' h'' : MlsGroupHandler M} {gid : String} {g : M.Group} (hc : Calls A B h h') (hb : B gid g)
      (hl : h''.localDid = h'.localDid) (hgs : h''.groups = h'.groups.insert gid g) : Calls A B h h''
  | forget {h' h'' : MlsGroupHandler M} {gid : String} (hc : Calls A B h h') (hl : h''.localDid = h'.localDid)
      (hgs : h''.groups = h'.groups.erase gid) : Calls A B h h''

namespace Calls

theorem refl (A : String → GroupCall M → Prop) (B : String → M.Group → Prop) (h : MlsGroupHandler M) :
    Calls A B h h := .same rfl rfl

theorem quiet (h₁ : Calls A B h h') (hl : h''.localDid = h'.localDid) (hg : h''.groups = h'.groups) :
    Calls A B h h'' := by
  cases h₁ with
  | same hl' hg' => exact .same (hl.trans hl') (hg.trans hg')
  | call hc c ha hg' hl' hgs => exact .call hc c ha hg' (hl.trans hl') (hg.trans hgs)
  | found hc hb hl' hgs => exact .found hc hb (hl.trans hl') (hg.trans hgs)
  | forget hc hl' hgs => exact .forget hc (hl.trans hl') (hg.trans hgs)

/-- The handler that a match binds. -/
theorem bound {α : Type} {r : Except MsgError α × MlsGroupHandler M} {a : Except MsgError α} (h₁ : Calls A B h r.2)
    (heq : r = (a, h')) : Calls A B h h' := by
  rwa [heq] at h₁

theorem localDid (h₁ : Calls A B h h') : h'.localDid = h.localDid := by
  induction h₁ with
  | same hl _ => exact hl
  | call _ _ _ _ hl _ ih => exact hl.trans ih
  | found _ _ hl _ ih => exact hl.trans ih
  | forget _ hl _ ih => exact hl.trans ih

/-- What every group has, every new group has and every call keeps. -/
theorem invariant {P : String → M.Group → Prop} (h₁ : Calls A B h h')
    (hA : ∀ gid c p g, A gid c → P gid g → P gid (c.run p g).2) (hB : ∀ gid g, B gid g → P gid g)
    (h₀ : ∀ gid g, h.groups[gid]? = some g → P gid g) : ∀ gid g, h'.groups[gid]? = some g → P gid g := by
  induction h₁ with
  | same _ hg =>
    rw [hg]
    exact h₀
  | @call h' h'' k x p _ c ha hx _ hgs ih =>
    intro gid g hg
    rw [hgs, Std.ExtTreeMap.getElem?_insert] at hg
    split_ifs at hg with heq
    · obtain rfl : k = gid := by simpa using heq
      obtain rfl := Option.some.inj hg
      exact hA k c p x ha (ih k x hx)
    · exact ih gid g hg
  | @found h' h'' k x _ hb _ hgs ih =>
    intro gid g hg
    rw [hgs, Std.ExtTreeMap.getElem?_insert] at hg
    split_ifs at hg with heq
    · obtain rfl : k = gid := by simpa using heq
      obtain rfl := Option.some.inj hg
      exact hB k x hb
    · exact ih gid g hg
  | @forget h' h'' k _ _ hgs ih =>
    intro gid g hg
    rw [hgs, Std.ExtTreeMap.getElem?_erase] at hg
    split_ifs at hg
    exact ih gid g hg

theorem withGroup {α : Type} (h₁ : Calls A B h h') (wrap : String → MsgError) (op : M.GroupOp α)
    (c : GroupCall M) (ha : A gid c) (hop : ∀ p g, (op p g).2 = c.run p g) :
    Calls A B h (h'.withGroup gid wrap op).2 := by
  cases hg : h'.groups[gid]? with
  | none => exact h₁.quiet (by simp [MlsGroupHandler.withGroup, hg]) (by simp [MlsGroupHandler.withGroup, hg])
  | some g =>
    rw [withGroup_some hg, hop]
    exact .call h₁ c ha hg rfl rfl

end Calls

/-! The handler's operations -/

theorem calls_createGroup (gid : String) (rng : ℕ)
    (hb : ∀ p g p', M.newWithGroupId h'.localDid gid rng p = (.ok g, p') → B gid g)
    (h₁ : Calls A B h h') : Calls A B h (h'.createGroup gid rng).2 := by
  unfold createGroup
  split
  · exact h₁.quiet rfl rfl
  · rename_i g p' heq
    exact .found h₁ (hb _ _ _ heq) rfl rfl

theorem calls_addMemberDeferred (gid : String) (rng : ℕ) {kp : M.KeyPackage}
    (ha : A gid (.addMembers h'.localDid rng kp))
    (h₁ : Calls A B h h') : Calls A B h (h'.addMemberDeferred gid kp rng).2 := by
  unfold addMemberDeferred
  split
  · exact h₁
  · split_ifs
    · exact h₁
    · exact h₁.withGroup _ (M.addMembers h'.localDid rng [kp]) _ ha fun _ _ => rfl

theorem calls_addMember (gid : String) (rng : ℕ) {kp : M.KeyPackage} (ha : A gid (.addMembers h'.localDid rng kp))
    (hm : A gid .mergePendingCommit) (h₁ : Calls A B h h') : Calls A B h (h'.addMember gid kp rng).2 := by
  unfold addMember
  have hadd := h₁.withGroup (fun e => .mlsCommit ("Failed to add member: " ++ e))
    (M.addMembers h'.localDid rng [kp]) _ ha fun _ _ => rfl
  split
  · exact hadd.bound ‹_›
  · exact (hadd.bound ‹_›).withGroup _ _ _ hm fun _ _ => rfl

theorem calls_confirmAddMember (gid : String) (hm : A gid .mergePendingCommit) (h₁ : Calls A B h h') :
    Calls A B h (h'.confirmAddMember gid).2 := by
  unfold confirmAddMember
  split
  · exact h₁
  · split_ifs
    · exact h₁
    · exact h₁.withGroup _ _ _ hm fun _ _ => rfl

theorem calls_cancelAddMember (gid : String) (hm : A gid .clearPendingCommit) (h₁ : Calls A B h h') :
    Calls A B h (h'.cancelAddMember gid).2 := by
  unfold cancelAddMember
  split
  · exact h₁
  · split_ifs
    · exact h₁
    · exact h₁.withGroup _ _ _ hm fun _ _ => rfl

theorem calls_encryptMessage (gid : String) (rng : ℕ) (b : Bytes) (ha : A gid (.createMessage h'.localDid rng b))
    (h₁ : Calls A B h h') :
    Calls A B h (h'.encryptMessage gid b rng).2 := h₁.withGroup _ _ _ ha fun _ _ => rfl

theorem calls_leaveGroup (gid : String) (rng : ℕ) (ha : A gid (.leaveGroup h'.localDid rng)) (h₁ : Calls A B h h') :
    Calls A B h (h'.leaveGroup gid rng).2 := h₁.withGroup _ _ _ ha fun _ _ => rfl

theorem calls_removeMember (gid : String) (rng i : ℕ) (ha : A gid (.removeMembers h'.localDid rng i))
    (hm : A gid .mergePendingCommit) (h₁ : Calls A B h h') : Calls A B h (h'.removeMember gid i rng).2 := by
  unfold removeMember
  have hremove := h₁.withGroup (fun e => .mlsCommit ("Failed to remove member: " ++ e))
    (M.removeMembers h'.localDid rng [i]) _ ha fun _ _ => rfl
  split
  · exact hremove.bound ‹_›
  · exact (hremove.bound ‹_›).withGroup _ _ _ hm fun _ _ => rfl

theorem calls_selfUpdate (gid : String) (rng : ℕ) (ha : A gid (.selfUpdate h'.localDid rng))
    (hm : A gid .mergePendingCommit)
    (h₁ : Calls A B h h') : Calls A B h (h'.selfUpdate gid rng).2 := by
  unfold selfUpdate
  have hupdate := h₁.withGroup (fun e => .mlsGroup ("Failed to self-update group: " ++ e))
    (M.selfUpdate h'.localDid rng) _ ha fun _ _ => rfl
  split
  · exact hupdate.bound ‹_›
  · exact (hupdate.bound ‹_›).withGroup _ _ _ hm fun _ _ => rfl

theorem calls_commitPendingProposals (gid : String) (rng : ℕ) (ha : A gid (.commitToPendingProposals h'.localDid rng))
    (hm : A gid .mergePendingCommit) (h₁ : Calls A B h h') :
    Calls A B h (h'.commitPendingProposals gid rng).2 := by
  unfold commitPendingProposals
  split
  · exact h₁
  · split_ifs
    · exact h₁
    · have hcommit := h₁.withGroup (fun e => .mlsCommit ("Failed to commit pending proposals: " ++ e))
        (M.commitToPendingProposals h'.localDid rng) _ ha fun _ _ => rfl
      split
      · exact hcommit.bound ‹_›
      · exact (hcommit.bound ‹_›).withGroup _ _ _ hm fun _ _ => rfl

theorem insert_insert {β : Type} (t : SledTree β) (k : String) (x y : β) :
    (t.insert k x).insert k y = t.insert k y := by
  refine Std.ExtTreeMap.ext_getElem? fun k' => ?_
  simp only [Std.ExtTreeMap.getElem?_insert]
  split_ifs <;> rfl

/-- What the handler makes of a message is one call. -/
theorem processMessage_groups (h : MlsGroupHandler M) (gid : String) (m : M.Message) :
    (h.processMessage gid m).2.localDid = h.localDid ∧
    ((h.processMessage gid m).2.groups = h.groups ∨ ∃ g pm, M.tryIntoProtocolMessage m = .ok pm ∧
      h.groups[gid]? = some g ∧
      (h.processMessage gid m).2.groups = h.groups.insert gid (M.receive pm h.provider g).2) := by
  unfold processMessage
  cases hg : h.groups[gid]? with
  | none => exact ⟨rfl, Or.inl rfl⟩
  | some g =>
    dsimp only
    cases ht : M.tryIntoProtocolMessage m with
    | error e => exact ⟨rfl, Or.inl rfl⟩
    | ok pm =>
      dsimp only
      rw [withGroup_some hg]
      rcases hp : M.processMessage pm h.provider g with ⟨⟨e⟩ | ⟨d, content⟩, p₁, g₁⟩
      · exact ⟨rfl, Or.inr ⟨g, pm, rfl, rfl, by simp [OpenMls.receive, hp, Except.mapError]⟩⟩
      have hg₁ : ({ h with provider := p₁, groups := h.groups.insert gid g₁ } : MlsGroupHandler M).groups[gid]? =
          some g₁ := by simp
      cases content with
      | applicationMessage b => exact ⟨rfl, Or.inr ⟨g, pm, rfl, rfl, by simp [OpenMls.receive, hp, Except.mapError]⟩⟩
      | other => exact ⟨rfl, Or.inr ⟨g, pm, rfl, rfl, by simp [OpenMls.receive, hp, Except.mapError]⟩⟩
      | proposalMessage q =>
        simp only [Except.mapError]
        rw [withGroup_some hg₁]
        refine ⟨rfl, Or.inr ⟨g, pm, rfl, rfl, ?_⟩⟩
        simp only [OpenMls.receive, hp]
        exact insert_insert _ _ _ _
      | stagedCommitMessage c =>
        simp only [Except.mapError]
        rw [withGroup_some hg₁]
        refine ⟨rfl, Or.inr ⟨g, pm, rfl, rfl, ?_⟩⟩
        simp only [OpenMls.receive, hp]
        exact insert_insert _ _ _ _

theorem calls_processMessage (gid : String) (m : M.Message)
    (ha : ∀ pm, M.tryIntoProtocolMessage m = .ok pm → A gid (.receive pm))
    (h₁ : Calls A B h h') : Calls A B h (h'.processMessage gid m).2 := by
  obtain ⟨hl, hsame | ⟨g, pm, ht, hg, hgs⟩⟩ := h'.processMessage_groups gid m
  · exact h₁.quiet hl hsame
  · exact .call h₁ (.receive pm) (ha pm ht) hg hl hgs

theorem calls_joinGroupFromWelcome {m : M.Message} (hb : ∀ w staged p p₁ p₂ g, M.extractWelcome m = some w →
      M.newFromWelcome w p = (.ok staged, p₁) → M.intoGroup staged p₁ = (.ok g, p₂) → B (M.groupId g) g)
    (h₁ : Calls A B h h') : Calls A B h (h'.joinGroupFromWelcome m).2 := by
  unfold joinGroupFromWelcome
  split
  · exact h₁
  rename_i w hw
  split
  · exact h₁.quiet rfl rfl
  rename_i staged p₁ hs
  split
  · exact h₁.quiet rfl rfl
  rename_i g p₂ hi
  exact .found h₁ (hb w staged _ p₁ p₂ g hw hs hi) rfl rfl

theorem calls_removeGroup (h₁ : Calls A B h h') : Calls A B h (h'.removeGroup gid) := by
  unfold removeGroup
  split
  · exact h₁
  · exact .forget h₁ rfl rfl

theorem calls_generateKeyPackage (rng : ℕ) (h₁ : Calls A B h h') : Calls A B h (h'.generateKeyPackage rng).2 :=
  h₁.quiet rfl rfl

theorem calls_recordProcessingSuccess (h₁ : Calls A B h h') : Calls A B h (h'.recordProcessingSuccess gid) := by
  unfold recordProcessingSuccess
  split
  · exact h₁
  · exact h₁.quiet rfl rfl

theorem calls_addAll {kps : SledTree M.KeyPackage} {ds : List Did}
    (ha : ∀ d ∈ ds, ∀ rng kp, d ≠ h.localDid → kps[d]? = some kp → A gid (.addMembers h.localDid rng kp))
    (hm : A gid .mergePendingCommit) (h₁ : Calls A B h h') : Calls A B h (addAll gid kps ds rng h').2 := by
  induction ds generalizing h' rng with
  | nil => exact h₁
  | cons d ds ih =>
    have hrest := fun x hx => ha x (List.mem_cons_of_mem d hx)
    unfold addAll
    split_ifs with hd
    · exact ih hrest h₁
    cases hk : kps[d]? with
    | none => exact ih hrest h₁
    | some kp =>
      have hne : d ≠ h.localDid := fun heq => hd (heq.trans h₁.localDid.symm)
      have hadd := calls_addMember gid rng (h₁.localDid ▸ ha d (List.mem_cons_self ..) rng kp hne hk) hm h₁
      dsimp only
      split
      · exact ih hrest (hadd.bound ‹_›)
      · exact ih hrest (hadd.bound ‹_›)

theorem calls_reinitializeGroup (rng : ℕ) {kps : SledTree M.KeyPackage} {id : String}
    (hb : ∀ rng p g p', M.newWithGroupId h.localDid (h.reinitId id) rng p = (.ok g, p') → B (h.reinitId id) g)
    (ha : ∀ d ∈ h.membersOrDefault id, ∀ rng kp, d ≠ h.localDid → kps[d]? = some kp →
      A (h.reinitId id) (.addMembers h.localDid rng kp))
    (hm : A (h.reinitId id) .mergePendingCommit) : Calls A B h (h.reinitializeGroup id kps rng).2 := by
  have hremoved : Calls A B h ((h.removeGroup id).clearDesync id) := by
    unfold clearDesync
    split
    · exact calls_removeGroup (.refl A B h)
    · exact (calls_removeGroup (.refl A B h)).quiet rfl rfl
  have hcreated :=
    calls_createGroup (h.reinitId id) rng (fun p g p' heq => hb rng p g p' (hremoved.localDid ▸ heq)) hremoved
  unfold reinitializeGroup
  dsimp only
  split
  · exact hcreated.bound ‹_›
  · exact calls_addAll ha hm (hcreated.bound ‹_›)

end MlsGroupHandler

namespace Node
variable {M : OpenMls} {A : String → GroupCall M → Prop} {B : String → M.Group → Prop} {h : MlsGroupHandler M}
  {n : Node M} {W : Wire} {env : Env} {g : String} {d : Did}

open MlsGroupHandler

theorem calls_refreshKeyPackage {b : Bool} (hc : Calls A B h n.mls) : Calls A B h (n.refreshKeyPackage env b).mls := by
  have hk := calls_generateKeyPackage env.rng hc
  unfold refreshKeyPackage
  split
  · exact hk.bound ‹_›
  · replace hk := hk.bound ‹_›
    dsimp only
    split
    · exact hk
    · split_ifs
      · exact hk
      · exact hk

theorem calls_departGroup (hs : ∀ gid c, GroupCall.Still c → A gid c) (hc : Calls A B h n.mls) :
    Calls A B h (n.departGroup env g).2.mls := by
  have hl := calls_leaveGroup g env.rng (hs _ _ trivial) hc
  unfold departGroup
  split
  · exact hl.bound ‹_›
  · replace hl := hl.bound ‹_›
    dsimp only
    split
    · exact hl
    · exact calls_refreshKeyPackage (calls_removeGroup hl)

theorem calls_announceLeave (hs : ∀ gid c, GroupCall.Still c → A gid c) (hc : Calls A B h n.mls) :
    Calls A B h (n.announceLeave env g).mls := by
  have hl := calls_leaveGroup g env.rng (hs _ _ trivial) hc
  unfold announceLeave
  split
  · exact hl.bound ‹_›
  · replace hl := hl.bound ‹_›
    dsimp only
    split
    · exact hl
    · exact hl

theorem calls_sendGroupContent {c : MessageContent} {b : Bool} (hs : ∀ gid c, GroupCall.Still c → A gid c)
    (hc : Calls A B h n.mls) : Calls A B h (n.sendGroupContent W env g c b).2.mls := by
  have he := calls_encryptMessage g env.rng (W.encodeGroupPayload (.message c)) (hs _ _ trivial) hc
  unfold sendGroupContent
  split
  · exact he.bound ‹_›
  · replace he := he.bound ‹_›
    dsimp only
    split
    · exact he
    · split_ifs
      · exact he
      · exact he

theorem calls_publishGroupReceipt {r : GroupReadReceipt} (hs : ∀ gid c, GroupCall.Still c → A gid c)
    (hc : Calls A B h n.mls) : Calls A B h (n.publishGroupReceiptFromEventRouter W env g r).mls := by
  have he := calls_encryptMessage g env.rng (W.encodeGroupPayload (.receipt r)) (hs _ _ trivial) hc
  unfold publishGroupReceiptFromEventRouter
  split
  · exact he.bound ‹_›
  · replace he := he.bound ‹_›
    dsimp only
    split
    · exact he
    · exact he

theorem calls_handleGroupPlaintext {m : GroupMessage} {b : Bytes}
    (hs : ∀ gid c, GroupCall.Still c → A gid c) (hc : Calls A B h n.mls) :
    Calls A B h (n.handleGroupPlaintext W env m b).mls := by
  rw [handleGroupPlaintext_eq]
  split
  · unfold handleGroupReceipt
    split
    · exact hc
    · split
      · exact hc
      · exact hc
  · unfold handleGroupMessageContent
    split
    · unfold freezeGroup
      split
      · exact hc
      · exact hc
    · split
      · exact hc
      · exact hc
    · unfold storeGroupContent
      dsimp only
      split_ifs
      · exact hc
      · unfold sendGroupDelivered
        split
        · rename_i heq
          rw [← (Prod.mk.inj heq).2]
          exact hc
        · rename_i heq
          rw [← (Prod.mk.inj heq).2]
          exact calls_publishGroupReceipt (n := { (((n.store fun s => s.storeGroup env.faults m).persistGroupPlaintext
            env m.id _).emit _) with storage := _ }) hs hc
  · exact hc

theorem calls_cleanUpAfterRemoval (hc : Calls A B h n.mls) : Calls A B h (n.cleanUpAfterRemoval env g).mls :=
  calls_refreshKeyPackage (calls_removeGroup hc)

theorem calls_settleMembers {before after : List Did} (hc : Calls A B h n.mls) :
    Calls A B h (n.settleMembers env g before after).mls := by
  have hfold : ∀ ds : List Did, Calls A B h
      (ds.foldl (fun n did => n.emit (.ws (.groupMemberRemoved g did))) n).mls := by
    intro ds
    induction ds generalizing n with
    | nil => exact hc
    | cons d ds ih => exact ih hc
  unfold settleMembers
  split_ifs
  · exact hfold _
  · exact calls_cleanUpAfterRemoval hc

theorem calls_afterHandshake {before : List Did} (hi : ∀ c, GroupCall.Inner c → A g c)
    (hc : Calls A B h n.mls) : Calls A B h (n.afterHandshake env g before).mls := by
  unfold afterHandshake
  dsimp only
  split_ifs
  · refine calls_settleMembers ?_
    have hp := calls_commitPendingProposals g env.rng (hi _ trivial) (hi _ trivial) hc
    unfold autoCommitProposals
    split
    · rename_i heq
      rw [show (n.emit .schedulePersist).mls = n.mls from rfl] at heq
      rw [heq] at hp
      exact hp
    · rename_i heq
      rw [show (n.emit .schedulePersist).mls = n.mls from rfl] at heq
      rw [heq] at hp
      exact hp
    · rename_i heq
      rw [show (n.emit .schedulePersist).mls = n.mls from rfl] at heq
      rw [heq] at hp
      dsimp only
      split
      · exact hp
      · exact hp
  · exact calls_settleMembers hc

theorem calls_recordLiveFailure (hc : Calls A B h n.mls) : Calls A B h (n.recordLiveFailure g).mls := by
  unfold recordLiveFailure MlsGroupHandler.recordProcessingFailure
  split
  · rename_i heq
    exact hc.quiet (by rw [← (Prod.mk.inj heq).2]; rfl) (by rw [← (Prod.mk.inj heq).2]; rfl)
  · rename_i heq
    exact hc.quiet (by rw [← (Prod.mk.inj heq).2]) (by rw [← (Prod.mk.inj heq).2])

theorem calls_handleGroupMessage {m : GroupMessage} (hs : ∀ gid c, GroupCall.Still c → A gid c)
    (hi : ∀ c, GroupCall.Inner c → A m.groupId c)
    (hr : ∀ pm, M.Reads m.mlsCiphertext pm → A m.groupId (.receive pm)) (hc : Calls A B h n.mls) :
    Calls A B h (n.handleGroupMessage W env m).mls := by
  unfold handleGroupMessage
  split
  · exact hc
  dsimp only
  cases hd : M.deserializeMessage m.mlsCiphertext with
  | error e => exact calls_recordLiveFailure hc
  | ok msg =>
    have hp := calls_processMessage m.groupId msg (fun pm ht => hr pm ⟨msg, hd, ht⟩) hc
    dsimp only
    split
    · exact calls_recordLiveFailure (n := { n with mls := _ }) (hp.bound ‹_›)
    · exact calls_handleGroupPlaintext (n := { n with mls := _ }) hs (calls_recordProcessingSuccess (hp.bound ‹_›))
    · exact calls_afterHandshake (n := { n with mls := _ }) hi (calls_recordProcessingSuccess (hp.bound ‹_›))

theorem calls_handleSyncedMessage (env : Env) {m : GroupMessage}
    (hr : ∀ pm, M.Reads m.mlsCiphertext pm → A g (.receive pm))
    (hc : Calls A B h n.mls) : Calls A B h (n.handleSyncedMessage W env g m).2.mls := by
  unfold handleSyncedMessage
  split
  · exact hc
  split
  · exact hc
  cases hd : M.deserializeMessage m.mlsCiphertext with
  | error e => exact hc
  | ok msg =>
    have hp := calls_processMessage g msg (fun pm ht => hr pm ⟨msg, hd, ht⟩) hc
    dsimp only
    split
    · replace hp := hp.bound ‹_›
      exact hp.quiet rfl rfl
    · exact calls_recordProcessingSuccess (hp.bound ‹_›)
    · replace hp := hp.bound ‹_›
      dsimp only
      split
      · exact calls_recordProcessingSuccess hp
      · exact calls_recordProcessingSuccess hp

theorem calls_handleSyncReceived {ms : List (Env × GroupMessage)}
    (hr : ∀ x ∈ ms, ∀ pm, M.Reads x.2.mlsCiphertext pm → A g (.receive pm)) (hc : Calls A B h n.mls) :
    Calls A B h (n.handleSyncReceived W g ms).mls := by
  have hfold : ∀ k, Calls A B h (ms.foldl (fun acc x =>
      let r := acc.2.handleSyncedMessage W x.1 g x.2
      (if r.1 then acc.1 + 1 else acc.1, r.2)) (k, n)).2.mls := by
    induction ms generalizing n with
    | nil => exact fun _ => hc
    | cons x ms ih =>
      intro k
      have hx := calls_handleSyncedMessage (W := W) x.1 (hr x (List.mem_cons_self ..)) hc
      exact ih (fun y hy => hr y (List.mem_cons_of_mem x hy)) hx _
  unfold handleSyncReceived
  dsimp only
  split_ifs
  · exact hfold 0
  · exact hfold 0

theorem calls_handleDirectContent {ts : ℤ} {mid : String} {c : MessageContent}
    (hs : ∀ gid c, GroupCall.Still c → A gid c)
    (hm : ∀ gid, c.metadata["type"]? = some "mls_invite_accepted" → c.metadata["group_id"]? = some gid →
      A gid .mergePendingCommit) (hc : Calls A B h n.mls) :
    Calls A B h (n.handleDirectContent W env d mid ts c).mls := by
  unfold handleDirectContent
  dsimp only
  split
  · split
    · rw [store_mls, handleGroupInvitationDm_mls]
      exact hc
    · exact hc
  · rename_i hkind
    split
    · rename_i gid hgid
      have hm := calls_confirmAddMember gid (hm gid hkind hgid) hc
      unfold handleInviteAcceptedDm
      split
      · exact hm.bound ‹_›
      · rename_i heq
        rw [heq] at hm
        simpa using hm
    · exact hc
  · split
    · exact calls_cancelAddMember _ (hs _ _ trivial) hc
    · exact hc
  · exact hc

theorem calls_sweepExpiredInvites (hs : ∀ gid c, GroupCall.Still c → A gid c) (hc : Calls A B h n.mls) :
    Calls A B h (n.sweepExpiredInvites env).mls := by
  have hfold : ∀ l : List (String × Did × GroupInvitation), Calls A B h (l.foldl (expireInvite env) n).mls := by
    intro l
    induction l generalizing n with
    | nil => exact hc
    | cons x l ih => exact ih (calls_cancelAddMember _ (hs _ _ trivial) hc)
  unfold sweepExpiredInvites
  dsimp only
  split_ifs
  · exact hfold _
  · exact hfold _

theorem calls_mlsInviteToGroup {net : InviteNet} {id invitee : String}
    (ha : ∀ d kp, n.inviteKeyPackage net id invitee = .ok (d, kp) →
      A id (.addMembers n.mls.localDid env.rng kp)) (hc : Calls A B h n.mls) :
    Calls A B h (n.mlsInviteToGroup W env net id invitee).2.mls := by
  unfold mlsInviteToGroup
  split
  · exact hc
  · rename_i d kp hkp
    have hadd := calls_addMemberDeferred id env.rng (ha d kp hkp) hc
    split
    · exact hadd.bound ‹_›
    · rename_i heq
      rw [heq] at hadd
      unfold sendInvitation
      split
      · exact hadd
      · split
        · exact hadd
        · dsimp only
          split_ifs
          · exact hadd
          · exact hadd

theorem calls_mlsReinitializeGroup {net : ReinitNet} {id : String} (hm : A (n.mls.reinitId id) .mergePendingCommit)
    (hb : ∀ rng p g p', M.newWithGroupId n.mls.localDid (n.mls.reinitId id) rng p = (.ok g, p') →
      B (n.mls.reinitId id) g)
    (ha : ∀ kps, n.Collects W net id kps → ∀ d ∈ n.mls.membersOrDefault id, ∀ rng kp, d ≠ n.mls.localDid →
      kps[d]? = some kp → A (n.mls.reinitId id) (.addMembers n.mls.localDid rng kp)) :
    Calls A B n.mls (n.mlsReinitializeGroup W env net id).2.mls := by
  by_cases hcol : ∃ kps, n.Collects W net id kps
  · obtain ⟨kps, hcol⟩ := hcol
    have hre := calls_reinitializeGroup (h := n.mls) env.rng hb (ha kps hcol) hm
    rw [mlsReinitializeGroup_late env hcol]
    split
    · exact hre.bound ‹_›
    · rename_i result mls heq
      rw [heq] at hre
      have hmls := (sendWelcomes_mls W env net id result.newGroupId result.welcomes
        ((emit { n with mls := mls } (.subscribe (groupTopic result.newGroupId))).copyMetadata env id
          result.newGroupId)).trans (copyMetadata_spec _ env id result.newGroupId).1
      split
      · rename_i heq'
        rw [heq'] at hmls
        exact hre.quiet (congrArg (·.localDid) hmls) (congrArg (·.groups) hmls)
      · rename_i heq'
        rw [heq'] at hmls
        exact hre.quiet (congrArg (·.localDid) hmls) (congrArg (·.groups) hmls)
  · obtain ⟨e, he⟩ := mlsReinitializeGroup_early env fun kps h => hcol ⟨kps, h⟩
    rw [he]
    exact .refl A B n.mls

theorem calls_acceptInvitation {id : String} (hb : ∀ i m x, n.storage.fetchPendingInvitation id = some i →
      M.deserializeMessage i.mlsWelcome = .ok m → M.Welcomes m x → B (M.groupId x) x)
    (hc : Calls A B h n.mls) : Calls A B h (n.acceptInvitation env id).2.mls := by
  unfold acceptInvitation
  split
  · exact hc
  rename_i i hi
  split
  · exact hc
  rename_i m hm
  have hj := calls_joinGroupFromWelcome (m := m) (fun w staged p p₁ p₂ x hw hs hx =>
    hb i m x hi hm ⟨w, staged, p, p₁, p₂, hw, hs, hx⟩) hc
  split
  · exact hj.bound ‹_›
  · rename_i joined mls heq
    rw [heq] at hj
    have hr : Calls A B h ((enterGroup { n with mls := mls } env i joined).refreshKeyPackage env false).mls :=
      calls_refreshKeyPackage (n := enterGroup { n with mls := mls } env i joined) hj
    unfold finishAccept answerInvitation
    dsimp only
    rw [store_mls]
    split_ifs
    · exact hr
    · exact hr

theorem calls_mlsAcceptWelcome {hex : String} (hb : ∀ b m x, W.hexDecode hex = some b →
      M.deserializeMessage b = .ok m → M.Welcomes m x → B (M.groupId x) x)
    (hc : Calls A B h n.mls) : Calls A B h (n.mlsAcceptWelcome W env hex).2.mls := by
  unfold mlsAcceptWelcome
  split
  · exact hc
  rename_i b hb'
  split
  · exact hc
  rename_i m hm
  have hj := calls_joinGroupFromWelcome (m := m) (fun w staged p p₁ p₂ x hw hs hx =>
    hb b m x hb' hm ⟨w, staged, p, p₁, p₂, hw, hs, hx⟩) hc
  split
  · exact hj.bound ‹_›
  · replace hj := hj.bound ‹_›
    dsimp only
    split
    · exact hj
    · exact hj

theorem calls_mlsCreateGroup {name : String} (hb : ∀ p x p', M.newWithGroupId n.mls.localDid env.ulid env.rng p =
      (.ok x, p') → B env.ulid x) (hc : Calls A B h n.mls) : Calls A B h (n.mlsCreateGroup env name).2.mls := by
  unfold mlsCreateGroup
  dsimp only
  split_ifs
  · exact hc
  · have hnew := calls_createGroup env.ulid env.rng hb hc
    split
    · exact hnew.bound ‹_›
    · exact hnew.bound ‹_›

theorem calls_mlsRemoveMember {id : String} (hi : ∀ c, GroupCall.Inner c → A id c) (hc : Calls A B h n.mls) :
    Calls A B h (n.mlsRemoveMember env id d).2.mls := by
  unfold mlsRemoveMember
  split
  · exact hc
  rename_i i _
  have hr := calls_removeMember id env.rng i (hi _ trivial) (hi _ trivial) hc
  split
  · exact hr.bound ‹_›
  · rename_i mls heq
    rw [heq] at hr
    have hmeta : Calls A B h ((emit { n with mls := mls } .schedulePersist).removeFromMetadata env id d).mls := by
      unfold removeFromMetadata
      split
      · exact hr
      · exact hr
    dsimp only
    split
    · exact hmeta
    · exact hmeta

theorem calls_mlsAbandonGroup {id : String} (hs : ∀ gid c, GroupCall.Still c → A gid c) (hc : Calls A B h n.mls) :
    Calls A B h (n.mlsAbandonGroup W env id).2.mls := by
  unfold mlsAbandonGroup
  split
  · exact hc
  · exact calls_departGroup hs (calls_sendGroupContent hs hc)

theorem calls_mlsDeleteGroup {id : String} (hs : ∀ gid c, GroupCall.Still c → A gid c) (hc : Calls A B h n.mls) :
    Calls A B h (n.mlsDeleteGroup env id).2.mls := by
  unfold mlsDeleteGroup
  split
  · exact hc
  · exact calls_removeGroup (calls_announceLeave hs hc)

theorem calls_mlsChangeMemberRole {id r : String} (hs : ∀ gid c, GroupCall.Still c → A gid c)
    (hc : Calls A B h n.mls) : Calls A B h (n.mlsChangeMemberRole W env id d r).2.mls := by
  unfold mlsChangeMemberRole
  split
  · exact hc
  · split
    · exact hc
    · exact hc
    · exact calls_sendGroupContent (n := { n with storage := _ }) hs hc

theorem calls_mlsSendGroupMessage {id text : String} {r : Option String} {t : SledTree String}
    (hs : ∀ gid c, GroupCall.Still c → A gid c) (hc : Calls A B h n.mls) :
    Calls A B h (n.mlsSendGroupMessage W env id text r t).2.mls := by
  unfold mlsSendGroupMessage
  split
  · exact hc
  · split
    · exact hc
    · exact calls_sendGroupContent hs hc

/-- What a step makes of the groups. -/
theorem calls_react (n : Node M) (W : Wire) (e : Event) :
    Calls (e.Makes n W) (e.Founds n W) n.mls (n.react W e).mls := by
  have hs : ∀ gid c, GroupCall.Still c → e.Makes n W gid c := fun _ _ h => .still h
  have hc : Calls (e.Makes n W) (e.Founds n W) n.mls n.mls := .refl _ _ _
  cases e with
  | op o =>
    cases o with
    | create env name => exact calls_mlsCreateGroup (fun p x p' heq => ⟨rfl, p, p', heq⟩) hc
    | invite env net id invitee => exact calls_mlsInviteToGroup (fun d kp heq => .add ⟨rfl, heq⟩) hc
    | accept env id => exact calls_acceptInvitation (fun i m x hi hm hw => ⟨rfl, i, m, hi, hm, hw⟩) hc
    | decline env id =>
      change Calls _ _ n.mls (n.declineInvitation env id).2.mls
      unfold declineInvitation
      split
      · exact hc
      · dsimp only
        split_ifs
        · exact hc
        · exact hc
    | acceptWelcome env hex => exact calls_mlsAcceptWelcome (fun b m x hb hm hw => ⟨rfl, b, m, hb, hm, hw⟩) hc
    | leave env id =>
      change Calls _ _ n.mls (n.mlsLeaveGroup env id).2.mls
      unfold mlsLeaveGroup
      split_ifs
      · exact hc
      · exact calls_departGroup hs hc
    | abandon env id => exact calls_mlsAbandonGroup hs hc
    | delete env id => exact calls_mlsDeleteGroup hs hc
    | removeMember env id d => exact calls_mlsRemoveMember (fun _ hi => .commit hi rfl) hc
    | changeRole env id d r => exact calls_mlsChangeMemberRole hs hc
    | send env id text r t => exact calls_mlsSendGroupMessage hs hc
    | direct env d mid ts c => exact calls_handleDirectContent hs (fun gid hk hg => .commit trivial ⟨hk, hg⟩) hc
    | group env m =>
      exact calls_handleGroupMessage hs (fun _ hi => .commit hi rfl) (fun pm hr => .receive ⟨rfl, hr⟩) hc
    | sync g ms => exact calls_handleSyncReceived (fun x hx pm hr => .receive ⟨rfl, x, hx, hr⟩) hc
    | sweep env => exact calls_sweepExpiredInvites hs hc
  | reinitializeGroup env net id =>
    refine calls_mlsReinitializeGroup (.commit trivial rfl) ?_ ?_
    · intro rng p g p' heq
      exact ⟨rfl, rng, p, p', heq⟩
    · intro kps hcol d hd rng kp hne hk
      exact .add ⟨rfl, kps, hcol, hd, hne, hk⟩
  | selfUpdate env gid =>
    have hu := calls_selfUpdate gid env.rng (.commit (e := .selfUpdate env gid) trivial rfl)
      (.commit (e := .selfUpdate env gid) trivial rfl) hc
    change Calls _ _ n.mls (n.selfUpdateGroup env gid).mls
    unfold selfUpdateGroup
    split
    · exact hu.bound ‹_›
    · replace hu := hu.bound ‹_›
      dsimp only
      split
      · exact hu
      · exact hu

end Node
end Variance
