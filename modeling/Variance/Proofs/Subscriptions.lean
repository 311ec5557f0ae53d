import Variance.Proofs.CrashConsistency
import Variance.Sanity.Handshakes
import Variance.Sanity.Holding
import Variance.Spec.Subscriptions

/-! Subscriptions follow the groups: a handler changes which groups are in memory only beside a command to the swarm, a
reinitialisation apart, and a new process asks for the topics of the groups that it restores. -/

namespace Variance

namespace MlsGroupHandler
variable {M : OpenMls} {h h' h'' : MlsGroupHandler M} {gid : String} {rng : ℕ}

/-- The same groups are in memory, in whatever state. -/
def SameIds (h h' : MlsGroupHandler M) : Prop := ∀ gid, gid ∈ h'.groups ↔ gid ∈ h.groups

/-- A group in memory was there before, or was founded. -/
theorem Calls.old_or_founded {A : String → GroupCall M → Prop} {B : String → M.Group → Prop} (hc : Calls A B h h')
    (hg : gid ∈ h'.groups) : gid ∈ h.groups ∨ ∃ g, B gid g := by
  have hmem := hc.invariant (P := fun gid _ => gid ∈ h.groups ∨ ∃ g, B gid g) (fun _ _ _ _ _ hold => hold)
    (fun _ g hb => Or.inr ⟨g, hb⟩) fun _ _ hget => Or.inl (Std.ExtTreeMap.mem_iff_isSome_getElem?.2 (by simp [hget]))
  obtain ⟨g, hget⟩ := Option.isSome_iff_exists.1 (Std.ExtTreeMap.mem_iff_isSome_getElem?.1 hg)
  exact hmem gid g hget

namespace SameIds

theorem refl (h : MlsGroupHandler M) : SameIds h h := fun _ => Iff.rfl

theorem trans (h₁ : SameIds h h') (h₂ : SameIds h' h'') : SameIds h h'' := fun gid => (h₂ gid).trans (h₁ gid)

theorem of_eq (hg : h'.groups = h.groups) : SameIds h h' := fun gid => by rw [hg]

/-- Nothing is lost and nothing founded. -/
theorem of_calls (hk : Keeps h h') (hc : Calls (fun _ _ => True) (fun _ _ => False) h h') : SameIds h h' := by
  refine fun gid => ⟨fun hg => ?_, hk gid⟩
  exact hc.old_or_founded hg |>.resolve_right fun hb => hb.choose_spec

/-- The handler that a match binds. -/
theorem bound {α : Type} {r : Except MsgError α × MlsGroupHandler M} {a : Except MsgError α} (hk : SameIds h r.2)
    (heq : r = (a, h')) : SameIds h h' := by
  rwa [heq] at hk

end SameIds

theorem mem_insert_iff {x : M.Group} (hg : h'.groups = h.groups.insert gid x) (id : String) :
    id ∈ h'.groups ↔ id = gid ∨ id ∈ h.groups := by
  rw [hg, Std.ExtTreeMap.mem_insert, compare_eq_iff_eq, eq_comm]

theorem same_withGroup {α : Type} (wrap : String → MsgError) (op : M.GroupOp α) :
    SameIds h (h.withGroup gid wrap op).2 := by
  cases hg : h.groups[gid]? with
  | none => exact .of_eq (by simp [withGroup, hg])
  | some g =>
    rw [withGroup_some hg]
    have hin : gid ∈ h.groups := Std.ExtTreeMap.mem_iff_isSome_getElem?.2 (by simp [hg])
    exact fun id => (mem_insert_iff rfl id).trans (or_iff_right_of_imp fun heq => heq ▸ hin)

theorem same_addMemberDeferred {kp : M.KeyPackage} : SameIds h (h.addMemberDeferred gid kp rng).2 :=
  .of_calls keeps_addMemberDeferred (calls_addMemberDeferred gid rng trivial (.refl ..))

theorem same_confirmAddMember : SameIds h (h.confirmAddMember gid).2 :=
  .of_calls keeps_confirmAddMember (calls_confirmAddMember gid trivial (.refl ..))

theorem same_cancelAddMember : SameIds h (h.cancelAddMember gid).2 :=
  .of_calls keeps_cancelAddMember (calls_cancelAddMember gid trivial (.refl ..))

theorem same_removeMember {i : ℕ} : SameIds h (h.removeMember gid i rng).2 :=
  .of_calls keeps_removeMember (calls_removeMember gid rng i trivial trivial (.refl ..))

theorem same_selfUpdate : SameIds h (h.selfUpdate gid rng).2 :=
  .of_calls keeps_selfUpdate (calls_selfUpdate gid rng trivial trivial (.refl ..))

theorem same_commitPendingProposals : SameIds h (h.commitPendingProposals gid rng).2 :=
  .of_calls keeps_commitPendingProposals (calls_commitPendingProposals gid rng trivial trivial (.refl ..))

theorem same_processMessage (gid : String) (m : M.Message) : SameIds h (h.processMessage gid m).2 :=
  .of_calls (keeps_processMessage gid m) (calls_processMessage gid m (fun _ _ => trivial) (.refl ..))

theorem same_recordProcessingSuccess (gid : String) : SameIds h (h.recordProcessingSuccess gid) :=
  .of_calls (keeps_recordProcessingSuccess gid) (calls_recordProcessingSuccess (.refl ..))

theorem same_addAll {kps : SledTree M.KeyPackage} (ds : List Did) : SameIds h (addAll gid kps ds rng h).2 :=
  .of_calls (keeps_addAll ds) (calls_addAll (fun _ _ _ _ _ _ => trivial) trivial (.refl ..))

theorem created_ids {u : Unit} (heq : h.createGroup gid rng = (.ok u, h')) (id : String) :
    id ∈ h'.groups ↔ id = gid ∨ id ∈ h.groups := by
  unfold createGroup at heq
  split at heq
  · simp at heq
  · obtain ⟨-, rfl⟩ := Prod.mk.inj heq
    exact mem_insert_iff rfl id

theorem same_createGroup {e : MsgError} (heq : h.createGroup gid rng = (.error e, h')) : SameIds h h' := by
  unfold createGroup at heq
  split at heq
  · obtain ⟨-, rfl⟩ := Prod.mk.inj heq
    exact .of_eq rfl
  · simp at heq

theorem joined_ids {m : M.Message} (heq : h.joinGroupFromWelcome m = (.ok gid, h')) (id : String) :
    id ∈ h'.groups ↔ id = gid ∨ id ∈ h.groups := by
  unfold joinGroupFromWelcome at heq
  split at heq
  · simp at heq
  split at heq
  · simp at heq
  split at heq
  · simp at heq
  · obtain ⟨hid, rfl⟩ := Prod.mk.inj heq
    obtain rfl := Except.ok.inj hid
    exact mem_insert_iff rfl id

theorem same_joinGroupFromWelcome {m : M.Message} {e : MsgError} (heq : h.joinGroupFromWelcome m = (.error e, h')) :
    SameIds h h' := by
  unfold joinGroupFromWelcome at heq
  split at heq
  · obtain ⟨-, rfl⟩ := Prod.mk.inj heq
    exact .refl h
  split at heq
  · obtain ⟨-, rfl⟩ := Prod.mk.inj heq
    exact .of_eq rfl
  split at heq
  · obtain ⟨-, rfl⟩ := Prod.mk.inj heq
    exact .of_eq rfl
  · simp at heq

theorem mem_removeGroup {id : String} : id ∈ (h.removeGroup gid).groups ↔ id ≠ gid ∧ id ∈ h.groups := by
  by_cases heq : id = gid
  · subst heq
    rw [Std.ExtTreeMap.mem_iff_isSome_getElem?, removeGroup_gone]
    simp
  · rw [Std.ExtTreeMap.mem_iff_isSome_getElem?, Std.ExtTreeMap.mem_iff_isSome_getElem?, removeGroup_other heq]
    simp [heq]

theorem same_clearDesync : SameIds h (h.clearDesync gid) := by
  unfold clearDesync
  split
  · exact .refl h
  · exact .of_eq rfl

/-- A reinitialisation that fails has dropped the group. -/
theorem dropped_ids {kps : SledTree M.KeyPackage} {e : MsgError}
    (heq : h.reinitializeGroup gid kps rng = (.error e, h')) : SameIds (h.removeGroup gid) h' := by
  unfold reinitializeGroup at heq
  dsimp only at heq
  split at heq
  · obtain ⟨-, rfl⟩ := Prod.mk.inj heq
    exact same_clearDesync.trans (same_createGroup ‹_›)
  · simp at heq

theorem replaced_ids {kps : SledTree M.KeyPackage} {r : ReinitResult M}
    (heq : h.reinitializeGroup gid kps rng = (.ok r, h')) (id : String) :
    id ∈ h'.groups ↔ id = r.newGroupId ∨ id ∈ (h.removeGroup gid).groups := by
  unfold reinitializeGroup at heq
  dsimp only at heq
  split at heq
  · simp at heq
  · obtain ⟨hr, rfl⟩ := Prod.mk.inj heq
    obtain rfl := Except.ok.inj hr
    rw [same_addAll _ id, created_ids ‹_› id, same_clearDesync id]

end MlsGroupHandler

namespace Node
variable {M : OpenMls} {n n' : Node M} {W : Wire} {env : Env} {g t : String} {d : Did} {k : ℕ} {X Y : String → Prop}

open Arrivals MlsGroupHandler

theorem groupTopic_inj {a b : String} (h : groupTopic a = groupTopic b) : a = b := Text.append_right_inj.1 h

theorem subscribed_emit (hk : k ≤ n.effects.length) {x : Effect} :
    (n.emit x).Subscribed k t ↔ .subscribe t = x ∨ n.Subscribed k t ∧ ¬ x.Closes (.subscribe t) := by
  unfold Subscribed
  rw [emit_effects, List.drop_append_of_le_length hk, inEffect_concat]

/-- What says nothing of a topic leaves the subscriptions as they are. -/
theorem quiet_append {as l : List Effect} (hk : k ≤ as.length) (hl : ∀ x ∈ l, x.topic = none) :
    InEffect Effect.Closes ((as ++ l).drop k) (.subscribe t) ↔ InEffect Effect.Closes (as.drop k) (.subscribe t) := by
  induction l using List.reverseRecOn with
  | nil => rw [List.append_nil]
  | append_singleton l x ih =>
    have hk' : k ≤ (as ++ l).length := by simpa using Nat.le_add_right_of_le hk
    have hx : x.topic = none := hl x (by simp)
    rw [← List.append_assoc, List.drop_append_of_le_length hk', inEffect_concat,
      ih fun y hy => hl y (List.mem_append_left _ hy)]
    cases x <;> simp_all [Effect.topic, Effect.Closes]

/-- The groups in memory, and the topics that the process is subscribed to since `k`; to those of `X` it may be
subscribed without the group. -/
structure Tracked (k : ℕ) (X : String → Prop) (n : Node M) : Prop where
  since : k ≤ n.effects.length
  heard : ∀ gid ∈ n.mls.groups, n.Subscribed k (groupTopic gid)
  held : ∀ t, n.Subscribed k t → ∃ gid, t = groupTopic gid ∧ (gid ∈ n.mls.groups ∨ X gid)

namespace Tracked

theorem mono (h : Tracked k X n) (hXY : ∀ gid, X gid → Y gid) : Tracked k Y n := by
  refine ⟨h.since, h.heard, fun t ht => ?_⟩
  obtain ⟨gid, rfl, hgid⟩ := h.held t ht
  exact ⟨gid, rfl, hgid.imp_right (hXY gid)⟩

/-- Nothing was said of a topic, and the same groups are in memory. -/
theorem quiet (h : Tracked k X n) {l : List Effect} (he : n'.effects = n.effects ++ l) (hl : ∀ x ∈ l, x.topic = none)
    (hg : SameIds n.mls n'.mls) : Tracked k X n' := by
  have hsub (t : String) : n'.Subscribed k t ↔ n.Subscribed k t := by
    unfold Subscribed
    rw [he]
    exact quiet_append h.since hl
  refine ⟨?_, fun gid hgid => (hsub _).2 (h.heard gid ((hg gid).1 hgid)), fun t ht => ?_⟩
  · rw [he, List.length_append]
    exact Nat.le_add_right_of_le h.since
  · obtain ⟨gid, rfl, hgid⟩ := h.held t ((hsub t).1 ht)
    exact ⟨gid, rfl, hgid.imp_left (hg gid).2⟩

theorem congr (h : Tracked k X n) (he : n'.effects = n.effects) (hg : SameIds n.mls n'.mls) : Tracked k X n' :=
  h.quiet (l := []) (by simpa using he) (by simp) hg

theorem emit (h : Tracked k X n) {x : Effect} (hx : x.topic = none) : Tracked k X (n.emit x) :=
  h.quiet (emit_effects n x) (by simpa using hx) (.refl _)

theorem mls (h : Tracked k X n) {mls : MlsGroupHandler M} (hk : SameIds n.mls mls) :
    Tracked k X { n with mls := mls } := h.congr rfl hk

theorem stored (h : Tracked k X n) (s : LocalMessageStorage) : Tracked k X { n with storage := s } :=
  h.congr rfl (.refl _)

theorem store (h : Tracked k X n) {op : LocalMessageStorage → Except MsgError Unit × LocalMessageStorage} :
    Tracked k X (n.store op) := h.congr rfl (.refl _)

/-- The unsubscription, then the group. -/
theorem leave (h : Tracked k X n) (g : String) :
    Tracked k X { (n.emit (.unsubscribe (groupTopic g))) with mls := n.mls.removeGroup g } := by
  have hsub (t : String) : (n.emit (.unsubscribe (groupTopic g))).Subscribed k t ↔
      n.Subscribed k t ∧ groupTopic g ≠ t := by
    rw [subscribed_emit h.since]
    simp [Effect.Closes]
  refine ⟨by simpa using Nat.le_succ_of_le h.since, fun gid hgid => (hsub _).2 ?_, fun t ht => ?_⟩
  · obtain ⟨hne, hin⟩ := mem_removeGroup.1 hgid
    exact ⟨h.heard gid hin, fun heq => hne (groupTopic_inj heq).symm⟩
  · obtain ⟨hold, hne⟩ := (hsub t).1 ht
    obtain ⟨gid, rfl, hgid⟩ := h.held t hold
    refine ⟨gid, rfl, hgid.imp_left fun hin => mem_removeGroup.2 ⟨fun heq => hne (by rw [heq]), hin⟩⟩

/-- The group alone, its topic left open. -/
theorem drop (h : Tracked k X n) (g : String) :
    Tracked k (fun gid => X gid ∨ gid = g ∧ g ∈ n.mls.groups) { n with mls := n.mls.removeGroup g } := by
  refine ⟨h.since, fun gid hgid => h.heard gid (mem_removeGroup.1 hgid).2, fun t ht => ?_⟩
  obtain ⟨gid, rfl, hgid⟩ := h.held t ht
  refine ⟨gid, rfl, hgid.elim (fun hin => ?_) fun hx => Or.inr (Or.inl hx)⟩
  by_cases heq : gid = g
  · exact Or.inr (Or.inr ⟨heq, heq ▸ hin⟩)
  · exact Or.inl (mem_removeGroup.2 ⟨heq, hin⟩)

/-- A group that is new in memory, then the subscription. -/
theorem join (h : Tracked k X n) {l : List Effect} (he : n'.effects = n.effects ++ l ++ [.subscribe (groupTopic g)])
    (hl : ∀ x ∈ l, x.topic = none) (hg : ∀ gid, gid ∈ n'.mls.groups ↔ gid = g ∨ gid ∈ n.mls.groups) :
    Tracked k X n' := by
  have hk : k ≤ (n.effects ++ l).length := by simpa using Nat.le_add_right_of_le h.since
  have hsub (t : String) : n'.Subscribed k t ↔ t = groupTopic g ∨ n.Subscribed k t := by
    unfold Subscribed
    rw [he, List.drop_append_of_le_length hk, inEffect_concat, quiet_append h.since hl]
    simp [Effect.Closes]
  refine ⟨?_, fun gid hgid => (hsub _).2 ?_, fun t ht => ?_⟩
  · rw [he, List.length_append]
    exact Nat.le_add_right_of_le hk
  · exact ((hg gid).1 hgid).imp (congrArg groupTopic) (h.heard gid)
  · rcases (hsub t).1 ht with rfl | hold
    · exact ⟨g, rfl, Or.inl ((hg g).2 (Or.inl rfl))⟩
    · obtain ⟨gid, rfl, hgid⟩ := h.held t hold
      exact ⟨gid, rfl, hgid.imp_left fun hin => (hg gid).2 (Or.inr hin)⟩

theorem refreshKeyPackage (h : Tracked k X n) {b : Bool} : Tracked k X (n.refreshKeyPackage env b) := by
  have hk : SameIds n.mls (n.mls.generateKeyPackage env.rng).2 := .of_eq rfl
  unfold Node.refreshKeyPackage
  split
  · exact h.mls (hk.bound ‹_›)
  · have hmls := h.mls (hk.bound ‹_›)
    dsimp only
    split
    · exact hmls
    · split_ifs
      · exact (hmls.emit rfl).emit rfl
      · exact hmls.emit rfl

theorem purgeGroup (h : Tracked k X n) : Tracked k X (n.purgeGroup env g) := h.store.store.store.store

theorem departGroup (h : Tracked k X n) : Tracked k X (n.departGroup env g).2 := by
  unfold Node.departGroup
  split
  · exact h.mls ((same_withGroup _ _).bound ‹_›)
  · have hmls := h.mls ((same_withGroup _ _).bound ‹_›)
    dsimp only
    split
    · exact hmls
    · exact ((((hmls.emit rfl).leave g).emit rfl).purgeGroup).refreshKeyPackage

theorem sendGroupContent (h : Tracked k X n) {content : MessageContent} {keep : Bool} :
    Tracked k X (n.sendGroupContent W env g content keep).2 := by
  unfold Node.sendGroupContent
  split
  · exact h.mls ((same_withGroup _ _).bound ‹_›)
  · have hmls := h.mls ((same_withGroup _ _).bound ‹_›)
    dsimp only
    split
    · exact hmls
    · split_ifs
      · exact ((hmls.emit rfl).store.store).emit rfl
      · exact (hmls.emit rfl).emit rfl

theorem mlsSendGroupMessage (h : Tracked k X n) {text : String} {replyTo : Option String} {md : SledTree String} :
    Tracked k X (n.mlsSendGroupMessage W env g text replyTo md).2 := by
  unfold Node.mlsSendGroupMessage
  split_ifs
  · exact h
  · split
    · exact h
    · exact h.sendGroupContent

theorem wsSendGroupMessage (h : Tracked k X n) {text : String} {replyTo : Option String} :
    Tracked k X (n.wsSendGroupMessage W env g text replyTo) := by
  unfold Node.wsSendGroupMessage
  dsimp only
  split
  · exact h.mls ((same_withGroup _ _).bound ‹_›)
  · have hmls := h.mls ((same_withGroup _ _).bound ‹_›)
    split
    · exact hmls
    · exact ((hmls.emit rfl).store.store).emit rfl

theorem mlsLeaveGroup (h : Tracked k X n) : Tracked k X (n.mlsLeaveGroup env g).2 := by
  unfold Node.mlsLeaveGroup
  split_ifs
  · exact h
  · exact h.departGroup

theorem mlsAbandonGroup (h : Tracked k X n) : Tracked k X (n.mlsAbandonGroup W env g).2 := by
  unfold Node.mlsAbandonGroup
  split
  · exact h
  · exact h.sendGroupContent.departGroup

theorem announceLeave (h : Tracked k X n) : Tracked k X (n.announceLeave env g) := by
  unfold Node.announceLeave
  split
  · exact h.mls ((same_withGroup _ _).bound ‹_›)
  · have hmls := h.mls ((same_withGroup _ _).bound ‹_›)
    dsimp only
    split
    · exact hmls
    · exact hmls.emit rfl

theorem mlsDeleteGroup (h : Tracked k X n) : Tracked k X (n.mlsDeleteGroup env g).2 := by
  unfold Node.mlsDeleteGroup
  split
  · exact h
  · exact ((h.announceLeave.leave g).emit rfl).purgeGroup

theorem mlsCreateGroup (h : Tracked k X n) {name : String} : Tracked k X (n.mlsCreateGroup env name).2 := by
  unfold Node.mlsCreateGroup
  dsimp only
  split_ifs
  · exact h
  · split
    · exact h.mls (same_createGroup ‹_›)
    · exact h.join (g := env.ulid) (l := [.schedulePersist]) (by simp) (by simp [Effect.topic]) (created_ids ‹_›)

theorem mlsInviteToGroup (h : Tracked k X n) {net : InviteNet} {invitee : String} :
    Tracked k X (n.mlsInviteToGroup W env net g invitee).2 := by
  unfold Node.mlsInviteToGroup
  split
  · exact h
  · split
    · exact h.mls (same_addMemberDeferred.bound ‹_›)
    · have hmls := (h.mls (same_addMemberDeferred.bound ‹_›)).emit (x := .schedulePersist) rfl
      unfold Node.sendInvitation
      split
      · exact hmls
      · split
        · exact hmls
        · dsimp only
          split_ifs
          · exact hmls.store.emit rfl
          · exact hmls.store

theorem answerInvitation (h : Tracked k X n) {i : GroupInvitation} {joined : String} :
    Tracked k X (n.answerInvitation env i g joined) := by
  unfold Node.answerInvitation
  refine Tracked.store ?_
  split_ifs
  · exact h.emit rfl
  · exact h

theorem acceptInvitation (h : Tracked k X n) : Tracked k X (n.acceptInvitation env g).2 := by
  unfold Node.acceptInvitation
  split
  · exact h
  · split
    · exact h
    · split
      · exact h.mls (same_joinGroupFromWelcome ‹_›)
      · rename_i invitation _ _ _ _ _ joined mls heq
        have hin : Tracked k X (Node.enterGroup { n with mls := mls } env invitation joined) := by
          refine h.join (l := [.schedulePersist]) ?_ (by simp [Effect.topic]) (joined_ids heq)
          simp [Node.enterGroup]
        exact hin.refreshKeyPackage.answerInvitation

theorem declineInvitation (h : Tracked k X n) : Tracked k X (n.declineInvitation env g).2 := by
  unfold Node.declineInvitation
  split
  · exact h
  · dsimp only
    split_ifs
    · exact (h.emit rfl).store
    · exact h.store

theorem mlsAcceptWelcome (h : Tracked k X n) {hex : String} : Tracked k X (n.mlsAcceptWelcome W env hex).2 := by
  unfold Node.mlsAcceptWelcome
  split
  · exact h
  · split
    · exact h
    · split
      · exact h.mls (same_joinGroupFromWelcome ‹_›)
      · rename_i joined _ heq
        dsimp only
        split
        · exact h.join (g := joined) (l := [.schedulePersist]) (by simp) (by simp [Effect.topic]) (joined_ids heq)
        · exact h.join (g := joined) (l := [.schedulePersist]) (by simp) (by simp [Effect.topic]) (joined_ids heq)

theorem removeFromMetadata (h : Tracked k X n) (env : Env) (g : String) (d : Did) :
    Tracked k X (n.removeFromMetadata env g d) := by
  unfold Node.removeFromMetadata
  split
  · exact h
  · exact h.store

theorem mlsRemoveMember (h : Tracked k X n) : Tracked k X (n.mlsRemoveMember env g d).2 := by
  unfold Node.mlsRemoveMember
  split
  · exact h
  · split
    · exact h.mls (same_removeMember.bound ‹_›)
    · have hmls := ((h.mls (same_removeMember.bound ‹_›)).emit (x := .schedulePersist) rfl).removeFromMetadata env g d
      dsimp only
      split
      · exact hmls
      · exact hmls.emit rfl

theorem mlsChangeMemberRole (h : Tracked k X n) {role : String} :
    Tracked k X (n.mlsChangeMemberRole W env g d role).2 := by
  unfold Node.mlsChangeMemberRole
  split
  · exact h
  · split
    · exact h.stored _
    · exact h.stored _
    · exact (h.stored _).sendGroupContent

theorem publishGroupReceipt (h : Tracked k X n) {r : GroupReadReceipt} :
    Tracked k X (n.publishGroupReceiptFromEventRouter W env g r) := by
  unfold Node.publishGroupReceiptFromEventRouter
  split
  · exact h.mls ((same_withGroup _ _).bound ‹_›)
  · have hmls := h.mls ((same_withGroup _ _).bound ‹_›)
    dsimp only
    split
    · exact hmls
    · exact (hmls.emit rfl).emit rfl

/-! Direct messages about a group -/

theorem publishInviteCommit (h : Tracked k X n) : Tracked k X (n.publishInviteCommit env g d) := by
  unfold Node.publishInviteCommit
  split
  · exact h
  · split_ifs
    · exact h
    · exact h.emit rfl

theorem addToMetadata (h : Tracked k X n) : Tracked k X (n.addToMetadata env g d) := by
  unfold Node.addToMetadata
  split
  · exact h
  · split_ifs
    · exact h
    · exact h.store

theorem handleInviteAcceptedDm (h : Tracked k X n) : Tracked k X (n.handleInviteAcceptedDm env g d) := by
  unfold Node.handleInviteAcceptedDm
  split
  · exact h.mls (same_confirmAddMember.bound ‹_›)
  · have hmls := (h.mls (same_confirmAddMember.bound ‹_›)).emit (x := .schedulePersist) rfl
    exact hmls.publishInviteCommit.addToMetadata.store.emit rfl

theorem cancelAddMember (h : Tracked k X n) : Tracked k X { n with mls := (n.mls.cancelAddMember g).2 } :=
  h.mls same_cancelAddMember

theorem handleInviteDeclinedDm (h : Tracked k X n) : Tracked k X (n.handleInviteDeclinedDm env g d) :=
  ((h.cancelAddMember.emit rfl).store).emit rfl

theorem handleGroupInvitationDm (h : Tracked k X n) {hex : String} :
    Tracked k X (n.handleGroupInvitationDm W env hex d).2 := by
  unfold Node.handleGroupInvitationDm
  split
  · exact h
  · split
    · exact h
    · split
      · exact h
      · exact (h.stored _).emit rfl

theorem handleDirectContent (h : Tracked k X n) {messageId : String} {timestamp : ℤ} {content : MessageContent} :
    Tracked k X (n.handleDirectContent W env d messageId timestamp content) := by
  unfold Node.handleDirectContent
  dsimp only
  split
  · refine Tracked.store ?_
    split
    · exact h.handleGroupInvitationDm
    · exact h
  · refine Tracked.store ?_
    split
    · exact h.handleInviteAcceptedDm
    · exact h
  · refine Tracked.store ?_
    split
    · exact h.handleInviteDeclinedDm
    · exact h
  · exact (h.emit rfl).emit rfl

theorem sweepExpiredInvites (h : Tracked k X n) : Tracked k X (n.sweepExpiredInvites env) := by
  have hfold (l : List (String × Did × GroupInvitation)) : Tracked k X (l.foldl (expireInvite env) n) := by
    induction l generalizing n with
    | nil => exact h
    | cons x l ih => exact ih (h.cancelAddMember.store.emit rfl)
  unfold Node.sweepExpiredInvites
  dsimp only
  split_ifs
  · exact hfold _
  · exact (hfold _).emit rfl

/-! Messages of the group -/

theorem storeGroupContent (h : Tracked k X n) {m : GroupMessage} {content : MessageContent} :
    Tracked k X (n.storeGroupContent W env m content) := by
  unfold Node.storeGroupContent
  dsimp only
  have hstored : Tracked k X (((n.store fun s => s.storeGroup env.faults m).store fun s =>
      s.storeGroupPlaintext env.faults m.id content).emit
        (.ws (.groupMessageReceived m.groupId m.senderDid m.id m.timestamp))) := h.store.store.emit rfl
  split_ifs
  · exact hstored
  · unfold sendGroupDelivered
    dsimp only
    split
    · rename_i heq
      rw [← (Prod.mk.inj heq).2]
      exact hstored.stored _
    · rename_i heq
      rw [← (Prod.mk.inj heq).2]
      exact (hstored.stored _).publishGroupReceipt

theorem freezeGroup (h : Tracked k X n) {adminDid : Option Did} : Tracked k X (n.freezeGroup env g adminDid) := by
  unfold Node.freezeGroup
  split
  · exact h
  · exact h.store

theorem handleGroupPlaintext (h : Tracked k X n) {m : GroupMessage} {b : Bytes} :
    Tracked k X (n.handleGroupPlaintext W env m b) := by
  rw [handleGroupPlaintext_eq]
  split
  · unfold Node.handleGroupReceipt
    split
    · exact h
    · split
      · exact h
      · exact (h.stored _).emit rfl
  · unfold Node.handleGroupMessageContent
    split
    · exact h.freezeGroup.emit rfl
    · split
      · exact (h.stored _).emit rfl
      · exact h
    · exact h.storeGroupContent
  · exact h

theorem cleanUpAfterRemoval (h : Tracked k X n) : Tracked k X (n.cleanUpAfterRemoval env g) :=
  ((((h.leave g).emit rfl).store.store.store.store).emit rfl).refreshKeyPackage

theorem settleMembers (h : Tracked k X n) {before after : List Did} :
    Tracked k X (n.settleMembers env g before after) := by
  have hfold (ds : List Did) {n₁ : Node M} (h₁ : Tracked k X n₁) :
      Tracked k X (ds.foldl (fun n d => n.emit (.ws (.groupMemberRemoved g d))) n₁) := by
    induction ds generalizing n₁ with
    | nil => exact h₁
    | cons d ds ih => exact ih (h₁.emit rfl)
  unfold Node.settleMembers
  split_ifs
  · exact hfold _ h
  · exact h.cleanUpAfterRemoval

theorem autoCommitProposals (h : Tracked k X n) {ms : List Did} :
    Tracked k X (n.autoCommitProposals env g ms).2 := by
  unfold Node.autoCommitProposals
  split
  · exact h.mls (same_commitPendingProposals.bound ‹_›)
  · exact h.mls (same_commitPendingProposals.bound ‹_›)
  · have hmls := (h.mls (same_commitPendingProposals.bound ‹_›)).emit (x := .schedulePersist) rfl
    dsimp only
    split
    · exact hmls
    · exact hmls.emit rfl

theorem afterHandshake (h : Tracked k X n) {before : List Did} : Tracked k X (n.afterHandshake env g before) := by
  have hpersist := h.emit (x := .schedulePersist) rfl
  unfold Node.afterHandshake
  dsimp only
  split_ifs
  · exact hpersist.autoCommitProposals.settleMembers
  · exact hpersist.settleMembers

theorem recordLiveFailure (h : Tracked k X n) : Tracked k X (n.recordLiveFailure g) := by
  have hk : SameIds n.mls (n.mls.recordProcessingFailure g).2 := .of_eq rfl
  unfold Node.recordLiveFailure
  split
  · rename_i heq
    rw [heq] at hk
    exact (h.mls hk).emit rfl
  · rename_i heq
    rw [heq] at hk
    exact h.mls hk

theorem handleGroupMessage (h : Tracked k X n) {m : GroupMessage} : Tracked k X (n.handleGroupMessage W env m) := by
  unfold Node.handleGroupMessage
  split_ifs
  · exact h
  · dsimp only
    split
    · exact h.recordLiveFailure
    · split
      · exact (h.mls ((same_processMessage _ _).bound ‹_›)).recordLiveFailure
      · have hk := ((same_processMessage _ _).bound ‹_›).trans (same_recordProcessingSuccess m.groupId)
        exact (h.mls hk).handleGroupPlaintext.emit rfl
      · have hk := ((same_processMessage _ _).bound ‹_›).trans (same_recordProcessingSuccess m.groupId)
        exact (h.mls hk).afterHandshake

theorem handleSyncedMessage (h : Tracked k X n) (env : Env) (m : GroupMessage) :
    Tracked k X (n.handleSyncedMessage W env g m).2 := by
  unfold Node.handleSyncedMessage
  split_ifs
  · exact h
  · exact h
  · split
    · exact h
    · split
      · have hk := (same_processMessage _ _).bound ‹_›
        exact h.mls (hk.trans (.of_eq rfl))
      · exact h.mls (((same_processMessage _ _).bound ‹_›).trans (same_recordProcessingSuccess g))
      · have hmls := h.mls (((same_processMessage _ _).bound ‹_›).trans (same_recordProcessingSuccess g))
        dsimp only
        split
        · exact hmls.store.store.emit rfl
        · exact hmls.store.emit rfl

theorem handleSyncReceived (h : Tracked k X n) {xs : List (Env × GroupMessage)} :
    Tracked k X (n.handleSyncReceived W g xs) := by
  have hfold (xs : List (Env × GroupMessage)) (acc : ℕ × Node M) (h : Tracked k X acc.2) :
      Tracked k X (xs.foldl (fun acc x =>
        let r := acc.2.handleSyncedMessage W x.1 g x.2
        (if r.1 then acc.1 + 1 else acc.1, r.2)) acc).2 := by
    induction xs generalizing acc with
    | nil => exact h
    | cons x xs ih => exact ih _ (h.handleSyncedMessage _ _)
  unfold Node.handleSyncReceived
  dsimp only
  split_ifs
  · exact (hfold xs (0, n) h).emit rfl
  · exact hfold xs (0, n) h

theorem readMessages (ids : List (Env × String)) (h : Tracked k X n) :
    Tracked k X (Node.readMessages W g ids n).2 := by
  induction ids generalizing n with
  | nil => exact h
  | cons x ids ih =>
    obtain ⟨env, id⟩ := x
    have hread : Tracked k X (n.sendGroupRead W env g id).2 := h.stored _
    rw [Node.readMessages]
    rcases hr : n.sendGroupRead W env g id with ⟨e | r, n₁⟩
    · rw [hr] at hread
      exact hread
    · rw [hr] at hread
      exact ih hread.publishGroupReceipt

theorem selfUpdateGroup (h : Tracked k X n) : Tracked k X (n.selfUpdateGroup env g) := by
  unfold Node.selfUpdateGroup
  split
  · exact h.mls (same_selfUpdate.bound ‹_›)
  · have hmls := h.mls (same_selfUpdate.bound ‹_›)
    dsimp only
    split
    · exact hmls
    · exact hmls.emit rfl

theorem sendWelcomes (h : Tracked k X n) (W : Wire) (env : Env) (net : ReinitNet) (id newId : String)
    (ts : List (Did × M.Message)) : Tracked k X (Node.sendWelcomes W env net id newId ts n).2 := by
  obtain ⟨es, hsent, hes, -⟩ := sendWelcomes_spec W env net id newId ts n
  rw [hsent]
  refine h.quiet rfl (fun x hx => ?_) (.refl _)
  obtain ⟨d, c, rfl, -⟩ := hes x hx
  rfl

/-- A reinitialisation leaves the topic of the old group open. -/
theorem mlsReinitializeGroup (h : Tracked k X n) {net : ReinitNet} :
    Tracked k (fun gid => X gid ∨ gid = g ∧ g ∈ n.mls.groups) (n.mlsReinitializeGroup W env net g).2 := by
  by_cases hcol : ∃ kps, n.Collects W net g kps
  · obtain ⟨kps, hcol⟩ := hcol
    rw [mlsReinitializeGroup_late env hcol]
    split
    · exact (h.drop g).mls (dropped_ids ‹_›)
    · rename_i result mls heq
      have hjoined : Tracked k (fun gid => X gid ∨ gid = g ∧ g ∈ n.mls.groups)
          (Node.emit { n with mls := mls } (.subscribe (groupTopic result.newGroupId))) :=
        (h.drop g).join (l := []) (by simp) (by simp) (replaced_ids heq)
      have hcopied := hjoined.congr (copyMetadata_spec _ env g result.newGroupId).2.1
        (.of_eq (by rw [(copyMetadata_spec _ env g result.newGroupId).1]))
      have hsent := hcopied.sendWelcomes W env net g result.newGroupId result.welcomes
      split
      · rename_i heq'
        rw [heq'] at hsent
        exact hsent
      · rename_i heq'
        rw [heq'] at hsent
        exact (hsent.emit rfl).emit rfl
  · obtain ⟨e, he⟩ := mlsReinitializeGroup_early env fun kps hc => hcol ⟨kps, hc⟩
    rw [he]
    exact h.mono fun _ => Or.inl

theorem serve (h : Tracked k X n) {e : ClientEvent} (hne : ∀ env net id, e ≠ .event (.reinitializeGroup env net id)) :
    Tracked k X (n.serve W e) := by
  cases e with
  | event e =>
    cases e with
    | op o =>
      cases o with
      | create env name => exact h.mlsCreateGroup
      | invite env net id invitee => exact h.mlsInviteToGroup
      | accept env g => exact h.acceptInvitation
      | decline env g => exact h.declineInvitation
      | acceptWelcome env hex => exact h.mlsAcceptWelcome
      | leave env id => exact h.mlsLeaveGroup
      | abandon env id => exact h.mlsAbandonGroup
      | delete env id => exact h.mlsDeleteGroup
      | removeMember env id d => exact h.mlsRemoveMember
      | changeRole env id d role => exact h.mlsChangeMemberRole
      | send env g text replyTo md => exact h.mlsSendGroupMessage
      | direct env d mid ts c => exact h.handleDirectContent
      | group env m => exact h.handleGroupMessage
      | sync g xs => exact h.handleSyncReceived
      | sweep env => exact h.sweepExpiredInvites
    | reinitializeGroup env net id => exact absurd rfl (hne env net id)
    | selfUpdate env g => exact h.selfUpdateGroup
  | addGroupReaction env g id emoji =>
    change Tracked k X (n.addGroupReaction W env g id emoji).2
    unfold addGroupReaction
    split_ifs
    · exact h
    · exact h.sendGroupContent
  | removeGroupReaction env g id emoji => exact h.sendGroupContent
  | wsSendGroupMessage env g text replyTo => exact h.wsSendGroupMessage
  | sendGroupReadReceipts g ids =>
    change Tracked k X (n.sendGroupReadReceipts W g ids).2
    unfold sendGroupReadReceipts
    split_ifs
    · exact h
    · exact h.readMessages ids

end Tracked

theorem reinitialize_closes_nothing (n : Node M) (W : Wire) (env : Env) (net : ReinitNet) (g : String) :
    ∃ l, (n.mlsReinitializeGroup W env net g).2.effects = n.effects ++ l ∧ ∀ x ∈ l, ∀ t, ¬ x.Closes (.subscribe t) := by
  by_cases hcol : ∃ kps, n.Collects W net g kps
  · obtain ⟨kps, hcol⟩ := hcol
    rw [mlsReinitializeGroup_late env hcol]
    split
    · exact ⟨[], by simp, by simp⟩
    · rename_i result mls _
      obtain ⟨es, hsent, hes, -⟩ := sendWelcomes_spec W env net g result.newGroupId result.welcomes
        ((Node.emit { n with mls := mls } (.subscribe (groupTopic result.newGroupId))).copyMetadata env g
          result.newGroupId)
      have heff : (Node.sendWelcomes W env net g result.newGroupId result.welcomes
          ((Node.emit { n with mls := mls } (.subscribe (groupTopic result.newGroupId))).copyMetadata env g
            result.newGroupId)).2.effects = n.effects ++ .subscribe (groupTopic result.newGroupId) :: es := by
        rw [hsent]
        dsimp only
        rw [(copyMetadata_spec _ env g result.newGroupId).2.1, emit_effects, List.append_assoc, List.singleton_append]
      have hopen : ∀ x ∈ .subscribe (groupTopic result.newGroupId) :: es, ∀ t, ¬ x.Closes (.subscribe t) := by
        intro x hx t
        rcases List.mem_cons.1 hx with rfl | hx
        · exact id
        · obtain ⟨d, c, rfl, -⟩ := hes x hx
          exact id
      split
      · rename_i heq'
        rw [heq'] at heff
        exact ⟨_, heff, hopen⟩
      · rename_i heq'
        rw [heq'] at heff
        dsimp only at heff
        refine ⟨(.subscribe (groupTopic result.newGroupId) :: es) ++ [.schedulePersist,
          .ws (.groupReinitialized g result.newGroupId)], ?_, fun x hx t => ?_⟩
        · simp [heff]
        · rcases List.mem_append.1 hx with hx | hx
          · exact hopen x hx t
          · rcases List.mem_pair.1 hx with rfl | rfl
            · exact id
            · exact id
  · obtain ⟨e, he⟩ := mlsReinitializeGroup_early env fun kps hc => hcol ⟨kps, hc⟩
    exact ⟨[], by rw [he, List.append_nil], by simp⟩

/-- A new process asks for every group in memory. -/
theorem resubscribe_eq (n : Node M) : CrashWorld.resubscribe n =
    { n with effects := n.effects ++ (n.mls.groups.toList.map fun x => groupTopic x.1).map .subscribe } := by
  have hfold (ids : List String) (n : Node M) : ids.foldl (fun n gid => n.emit (.subscribe (groupTopic gid))) n =
      { n with effects := n.effects ++ (ids.map groupTopic).map .subscribe } := by
    induction ids generalizing n with
    | nil => simp
    | cons id ids ih =>
      rw [List.foldl_cons, ih]
      simp [Node.emit]
  unfold CrashWorld.resubscribe
  simp only [hfold, List.map_map, Function.comp_def]

/-- Where nothing is ever closed, all that was opened is open. -/
theorem inEffect_opened {l : List String} : InEffect Effect.Closes (l.map .subscribe) (.subscribe t) ↔ t ∈ l := by
  induction l using List.reverseRecOn with
  | nil => simpa using not_inEffect_nil
  | append_singleton l s ih =>
    rw [List.map_append, List.map_singleton, inEffect_concat, ih]
    simp [Effect.Closes, or_comm]

theorem tracked_resubscribe (n : Node M) : Tracked n.effects.length (fun _ => False) (CrashWorld.resubscribe n) := by
  have hmls : (CrashWorld.resubscribe n).mls = n.mls := by rw [resubscribe_eq]
  have hsub (t : String) : (CrashWorld.resubscribe n).Subscribed n.effects.length t ↔
      ∃ gid ∈ n.mls.groups, t = groupTopic gid := by
    rw [resubscribe_eq]
    unfold Subscribed
    rw [List.drop_left, inEffect_opened, List.mem_map]
    constructor
    · rintro ⟨⟨gid, g⟩, hin, rfl⟩
      have hget : n.mls.groups[gid]? = some g := Std.ExtTreeMap.mem_toList_iff_getElem?_eq_some.1 hin
      exact ⟨gid, Std.ExtTreeMap.mem_iff_isSome_getElem?.2 (by simp [hget]), rfl⟩
    · rintro ⟨gid, hgid, rfl⟩
      obtain ⟨g, hget⟩ := Option.isSome_iff_exists.1 (Std.ExtTreeMap.mem_iff_isSome_getElem?.1 hgid)
      exact ⟨(gid, g), Std.ExtTreeMap.mem_toList_iff_getElem?_eq_some.2 hget, rfl⟩
  refine ⟨?_, fun gid hgid => (hsub _).2 ⟨gid, hmls ▸ hgid, rfl⟩, fun t ht => ?_⟩
  · rw [resubscribe_eq, List.length_append]
    exact Nat.le_add_right _ _
  · obtain ⟨gid, hgid, rfl⟩ := (hsub t).1 ht
    exact ⟨gid, rfl, Or.inl (hmls ▸ hgid)⟩

end Node

namespace TopicWorld
variable {M : OpenMls} {W : Wire} {blank : M.Provider} {w : TopicWorld M}

open MlsGroupHandler Node

/-- The groups and the topics of the process that runs. -/
def Inv (w : TopicWorld M) : Prop := Tracked w.booted (· ∈ w.replaced) w.world.node

theorem tracked_crash (w : CrashWorld M) (blank : M.Provider) (env : Env) :
    Tracked w.node.effects.length (fun _ => False) (w.crash blank env).node := by
  have hstart := tracked_resubscribe { w.node with mls := w.restored blank }
  have hk : SameIds (CrashWorld.resubscribe { w.node with mls := w.restored blank }).mls
    ((CrashWorld.resubscribe { w.node with mls := w.restored blank }).mls.generateKeyPackage env.rng).2 := .of_eq rfl
  unfold CrashWorld.crash
  dsimp only
  split
  · exact hstart.mls (hk.bound ‹_›)
  · have hmls := hstart.mls (hk.bound ‹_›)
    split
    · exact hmls
    · split_ifs
      · exact hmls
      · exact hmls

theorem Inv.reinitializeGroup (h : w.Inv) (env : Env) (net : ReinitNet) (id : String) :
    (w.step W blank (.serve (.event (.reinitializeGroup env net id)))).Inv := by
  have hafter : Tracked w.booted (fun gid => gid ∈ w.replaced ∨ gid = id ∧ id ∈ w.world.node.mls.groups)
      (w.world.step W blank (.serve (.event (.reinitializeGroup env net id)))).node :=
    Tracked.mlsReinitializeGroup h
  unfold TopicWorld.step Inv
  dsimp only
  split_ifs with hlost
  · refine hafter.mono fun gid hgid => hgid.elim (List.mem_cons_of_mem id) fun hin => ?_
    rw [hin.1]
    exact List.mem_cons_self
  · refine ⟨hafter.since, hafter.heard, fun t ht => ?_⟩
    obtain ⟨gid, rfl, hgid⟩ := hafter.held t ht
    refine ⟨gid, rfl, hgid.elim Or.inl fun hx => hx.elim Or.inr ?_⟩
    rintro ⟨rfl, hin⟩
    exact Or.inl (by_contra fun hout => hlost ⟨hin, hout⟩)

theorem step_serve {e : ClientEvent} (hne : ∀ env net id, e ≠ .event (.reinitializeGroup env net id)) :
    w.step W blank (.serve e) = ⟨w.world.step W blank (.serve e), w.booted, w.replaced⟩ := by
  cases e with
  | event e =>
    cases e with
    | reinitializeGroup env net id => exact absurd rfl (hne env net id)
    | op o => rfl
    | selfUpdate env id => rfl
  | _ => rfl

theorem Inv.step (h : w.Inv) (e : CrashEvent) : (w.step W blank e).Inv := by
  cases e with
  | serve e =>
    by_cases hre : ∃ env net id, e = .event (.reinitializeGroup env net id)
    · obtain ⟨env, net, id, rfl⟩ := hre
      exact h.reinitializeGroup env net id
    · have hafter : Tracked w.booted (· ∈ w.replaced) (w.world.step W blank (.serve e)).node :=
        Tracked.serve h fun env net id heq => hre ⟨env, net, id, heq⟩
      rw [step_serve fun env net id heq => hre ⟨env, net, id, heq⟩]
      exact hafter
  | roundOver => exact h
  | persist env =>
    have hsame : (w.world.persist env).node = w.world.node := by
      unfold CrashWorld.persist
      split_ifs <;> rfl
    unfold Inv TopicWorld.step CrashWorld.step
    rw [hsame]
    exact h
  | crash env => exact (tracked_crash w.world blank env).mono fun _ => False.elim

theorem Fresh.inv (h : w.Fresh) : w.Inv := by
  have hnone (t : String) : ¬ w.world.node.Subscribed w.booted t := by
    unfold Subscribed
    rw [h.world.effects, List.drop_nil]
    exact Arrivals.not_inEffect_nil
  refine ⟨?_, fun gid hgid => ?_, fun t ht => absurd ht (hnone t)⟩
  · rw [h.booted]
    exact Nat.zero_le _
  · rw [h.world.node.groups] at hgid
    simp at hgid

theorem Inv.left (h : w.Inv) (env : Env) (net : ReinitNet) {id : String} (hid : id ∈ w.world.node.mls.groups) :
    (w.world.node.mlsReinitializeGroup W env net id).2.Subscribed w.booted (groupTopic id) := by
  obtain ⟨l, he, hl⟩ := reinitialize_closes_nothing w.world.node W env net id
  unfold Subscribed
  rw [he, List.drop_append_of_le_length h.since]
  exact (h.heard id hid).append fun x hx => hl x hx _

/-- In every run, across crashes, the process that runs is subscribed to the topic of every group in its memory, and to
no other but those of the groups that it has replaced in a reinitialisation, which closes nothing. -/
theorem subscribed_to_groups (W : Wire) (blank : M.Provider) (hr : StepSystem.Reachable (topicSys M W blank) w) :
    w.Listens W blank := by
  have hinv : w.Inv := hr.invariant (I := Inv) (fun _ h => Fresh.inv h) fun _ e h _ => Inv.step h e
  refine ⟨hinv.heard, hinv.held, fun env net id hid => ?_⟩
  have hnode : (w.step W blank (.serve (.event (.reinitializeGroup env net id)))).world.node =
      (w.world.node.mlsReinitializeGroup W env net id).2 := by
    unfold TopicWorld.step
    dsimp only
    split_ifs <;> rfl
  rw [hnode]
  exact hinv.left env net hid

end TopicWorld

/-! A group of one, whose process dies and comes back -/

namespace Subscriptions
open IdealRatchet

def started : TopicWorld ratchetMls := ⟨CrashConsistency.started, 0, []⟩

theorem fresh_started : started.Fresh := ⟨CrashConsistency.fresh_started, rfl, rfl⟩

def run (es : List CrashEvent) : TopicWorld ratchetMls := es.foldl (TopicWorld.step idealWire []) started

theorem reachable_run (es : List CrashEvent) : StepSystem.Reachable (topicSys ratchetMls idealWire []) (run es) :=
  StepSystem.reachable_foldl (M := topicSys ratchetMls idealWire []) (.init fresh_started) es

theorem subscribed_to_groups_restarted :
    (run [CrashConsistency.creates, .persist (CrashConsistency.env 1),
      .crash (CrashConsistency.env 3)]).Listens idealWire [] :=
  TopicWorld.subscribed_to_groups (M := ratchetMls) idealWire [] (reachable_run _)

end Subscriptions
end Variance
