import Mathlib.Data.List.Nodup
import Variance.Sanity.Clients
import Variance.Spec.CrashWorld

/-! What a step publishes under our own ratchets: each application message uses up the next generation, and no group
goes back. -/

namespace Variance

namespace MlsGroupHandler
variable {M : OpenMls} {A : String → GroupCall M → Prop} {B : String → M.Group → Prop} {h h' : MlsGroupHandler M}
  {gid : String} {g g' : M.Group}

/-- A group that is there was there, no further on, or came in. -/
theorem Calls.moves (L : RatchetLaws M) (hc : Calls A B h h') (hg : h'.groups[gid]? = some g') :
    (∃ g, h.groups[gid]? = some g ∧ L.pos g ≤ L.pos g') ∨ ∃ x, B gid x ∧ L.pos x ≤ L.pos g' := by
  refine hc.invariant (P := fun k g' => (∃ g, h.groups[k]? = some g ∧ L.pos g ≤ L.pos g') ∨
    ∃ x, B k x ∧ L.pos x ≤ L.pos g') ?_ (fun k x hx => Or.inr ⟨x, hx, le_rfl⟩)
    (fun k x hx => Or.inl ⟨x, hx, le_rfl⟩) gid g' hg
  rintro k c p x - (⟨y, hy, hle⟩ | ⟨y, hy, hle⟩)
  · exact Or.inl ⟨y, hy, hle.trans (L.run c p x)⟩
  · exact Or.inr ⟨y, hy, hle.trans (L.run c p x)⟩

/-- Nothing comes in from outside. -/
abbrev Stays (h h' : MlsGroupHandler M) : Prop := Calls (fun _ _ => True) (fun _ _ => False) h h'

theorem Stays.moves (L : RatchetLaws M) (hc : Stays h h') (hg : h'.groups[gid]? = some g') :
    ∃ g, h.groups[gid]? = some g ∧ L.pos g ≤ L.pos g' := by
  rcases Calls.moves L hc hg with hold | ⟨x, hx, -⟩
  · exact hold
  · exact hx.elim

/-- What a group operation answers is openmls's answer. -/
theorem withGroup_ok {α : Type} {wrap : String → MsgError} {op : M.GroupOp α} {a : α}
    (ha : (h.withGroup gid wrap op).1 = .ok a) :
    ∃ g p' g', h.groups[gid]? = some g ∧ op h.provider g = (.ok a, p', g') ∧
      (h.withGroup gid wrap op).2.groups = h.groups.insert gid g' := by
  cases hg : h.groups[gid]? with
  | none => simp [withGroup, hg] at ha
  | some g =>
    rw [withGroup_some hg] at ha ⊢
    rcases hop : op h.provider g with ⟨e | b, p', g'⟩
    · simp [hop, Except.mapError] at ha
    · simp only [hop, Except.mapError] at ha
      cases ha
      exact ⟨g, p', g', rfl, hop, rfl⟩

variable {rng i : ℕ} {m c : M.Message}

/-- The messages of the handshakes are sealed with no generation. -/
theorem unsealed_leaveGroup (L : RatchetLaws M) (hm : (h.leaveGroup gid rng).1 = .ok m) : L.sealedAt m = none := by
  obtain ⟨g, p', g', -, hop, -⟩ := withGroup_ok hm
  exact L.leave hop

theorem unsealed_addMemberDeferred (L : RatchetLaws M) {kp : M.KeyPackage} {r : AddMemberResult M}
    (hr : (h.addMemberDeferred gid kp rng).1 = .ok r) : L.sealedAt r.commit = none := by
  unfold addMemberDeferred at hr
  split at hr
  · cases hr
  · split_ifs at hr
    · cases hw : (h.withGroup gid (fun e => .mlsCommit ("Failed to add member (deferred): " ++ e))
        (M.addMembers h.localDid rng [kp])).1 with
      | error e => simp [hw, Except.map] at hr
      | ok x =>
        simp only [hw, Except.map, Except.ok.injEq] at hr
        obtain ⟨g, p', g', -, hop, -⟩ := withGroup_ok hw
        subst hr
        exact L.add hop

/-- A commit made and merged is answered as it was made. -/
theorem merged_ok {wrap wrap' : String → MsgError} {op : M.GroupOp M.Message} {α : Type} {f : M.Message → α} {a : α}
    (ha : (match h.withGroup gid wrap op with
      | (.error e, h') => (.error e, h')
      | (.ok c, h') =>
        let w := h'.withGroup gid wrap' M.mergePendingCommit
        (w.1.map fun _ => f c, w.2) : Except MsgError α × MlsGroupHandler M).1 = .ok a) :
    ∃ c g p' g', op h.provider g = (.ok c, p', g') ∧ f c = a := by
  rcases hw : h.withGroup gid wrap op with ⟨e | c, h'⟩
  · rw [hw] at ha
    cases ha
  · rw [hw] at ha
    obtain ⟨g, p', g', -, hop, -⟩ := withGroup_ok (show (h.withGroup gid wrap op).1 = .ok c by rw [hw])
    dsimp only at ha
    cases hm : (h'.withGroup gid wrap' M.mergePendingCommit).1 with
    | error e => simp [hm, Except.map] at ha
    | ok u =>
      simp only [hm, Except.map, Except.ok.injEq] at ha
      exact ⟨c, g, p', g', hop, ha⟩

theorem unsealed_removeMember (L : RatchetLaws M) (hc : (h.removeMember gid i rng).1 = .ok c) : L.sealedAt c = none := by
  obtain ⟨c', g, p', g', hop, rfl⟩ := merged_ok (f := fun c => c) hc
  exact L.remove hop

theorem unsealed_selfUpdate (L : RatchetLaws M) (hc : (h.selfUpdate gid rng).1 = .ok c) : L.sealedAt c = none := by
  obtain ⟨c', g, p', g', hop, rfl⟩ := merged_ok (f := fun c => c) hc
  exact L.update hop

theorem unsealed_commitPendingProposals (L : RatchetLaws M)
    (hc : (h.commitPendingProposals gid rng).1 = .ok (some c)) : L.sealedAt c = none := by
  unfold commitPendingProposals at hc
  split at hc
  · cases hc
  · split_ifs at hc
    · cases hc
    · obtain ⟨c', g, p', g', hop, hcc⟩ := merged_ok (f := some) hc
      cases hcc
      exact L.proposals hop

end MlsGroupHandler

namespace Ratchet
variable {M : OpenMls} {R : Ratchet M} {gid : String} {es es' : List Effect} {x : Effect}

@[simp] theorem spent_append : R.spent gid (es ++ es') = R.spent gid es ++ R.spent gid es' := List.filterMap_append ..

theorem spent_mute (hx : R.stamp gid x = none) : R.spent gid [x] = [] := by simp [spent, hx]

theorem spent_stamp {s : ℕ ×ₗ ℕ} (hx : R.stamp gid x = some s) : R.spent gid [x] = [s] := by simp [spent, hx]

end Ratchet

open MlsGroupHandler

namespace RatchetLaws
variable {M : OpenMls} (L : RatchetLaws M) {gid : String} {m : M.Message} {b : Bytes}

theorem sealOf_serialized (hb : M.serializeMessage m = .ok b) : L.sealOf b = L.sealedAt m := by
  simp [Ratchet.sealOf, L.message hb, Except.toOption]

theorem stamp_unsealed (hb : M.serializeMessage m = .ok b) (hm : L.sealedAt m = none) {topic : String}
    {gm : GroupMessage} (hgm : gm.mlsCiphertext = b) : L.stamp gid (.publish topic gm) = none := by
  simp [Ratchet.stamp, hgm, L.sealOf_serialized hb, hm]

end RatchetLaws

namespace Node
variable {M : OpenMls} {L : RatchetLaws M} {n n' n'' : Node M} {W : Wire} {env : Env} {gid g : String} {d : Did}

open LocalMessageStorage

/-- What was published in the group goes on from where the group stood, each time with a new generation, and the group
is past all of it. -/
def Spends (L : RatchetLaws M) (gid : String) (n n' : Node M) : Prop :=
  ∃ es, n'.effects = n.effects ++ es ∧ (L.spent gid es).Nodup ∧
    (∀ s ∈ L.spent gid es, ∃ g, n.mls.groups[gid]? = some g ∧ L.pos g ≤ s) ∧
    ∀ g', n'.mls.groups[gid]? = some g' → (∀ s ∈ L.spent gid es, s < L.pos g') ∧
      ∃ g, n.mls.groups[gid]? = some g ∧ L.pos g ≤ L.pos g'

namespace Spends

theorem refl (L : RatchetLaws M) (gid : String) (n : Node M) : Spends L gid n n :=
  ⟨[], by simp, by simp [Ratchet.spent], by simp [Ratchet.spent], fun g' hg' =>
    ⟨by simp [Ratchet.spent], g', hg', le_rfl⟩⟩

theorem congr (h : Spends L gid n n') (he : n''.effects = n'.effects) (hg : n''.mls.groups = n'.mls.groups) :
    Spends L gid n n'' := by
  obtain ⟨es, hes, hrest⟩ := h
  refine ⟨es, he.trans hes, ?_⟩
  rw [hg]
  exact hrest

theorem mls (h : Spends L gid n n') {mls : MlsGroupHandler M} (hc : Stays n'.mls mls) :
    Spends L gid n { n' with mls := mls } := by
  obtain ⟨es, hes, hnodup, hlow, hhigh⟩ := h
  refine ⟨es, hes, hnodup, hlow, fun g'' hg'' => ?_⟩
  obtain ⟨g', hg', hle⟩ := Stays.moves L hc hg''
  obtain ⟨hlt, g, hg, hle'⟩ := hhigh g' hg'
  exact ⟨fun s hs => (hlt s hs).trans_le hle, g, hg, hle'.trans hle⟩

theorem emit (h : Spends L gid n n') {x : Effect} (hx : L.stamp gid x = none) : Spends L gid n (n'.emit x) := by
  obtain ⟨es, hes, hrest⟩ := h
  refine ⟨es ++ [x], by rw [emit_effects, hes, List.append_assoc], ?_⟩
  rw [Ratchet.spent_append, Ratchet.spent_mute hx, List.append_nil]
  exact hrest

theorem store (h : Spends L gid n n') {op : LocalMessageStorage → Except MsgError Unit × LocalMessageStorage} :
    Spends L gid n (n'.store op) := h.congr rfl rfl

/-- A handshake message. -/
theorem publish (h : Spends L gid n n') {m : M.Message} {b : Bytes} (hb : M.serializeMessage m = .ok b)
    (hm : L.sealedAt m = none) (topic : String) (gm : GroupMessage) (hgm : gm.mlsCiphertext = b) :
    Spends L gid n (n'.emit (.publish topic gm)) := h.emit (L.stamp_unsealed hb hm hgm)

/-- An application message is sealed where its group stands, and the group goes on. -/
theorem say (h : Spends L gid n n') {b bytes : Bytes} {rng : ℕ} {m : M.Message} {mls : MlsGroupHandler M}
    (he : n'.mls.encryptMessage g b rng = (.ok m, mls)) (hb : M.serializeMessage m = .ok bytes) (topic : String)
    {gm : GroupMessage} (hgid : gm.groupId = g) (hgm : gm.mlsCiphertext = bytes) :
    Spends L gid n (Node.emit { n' with mls := mls } (.publish topic gm)) := by
  by_cases hg : g = gid
  · subst hg
    obtain ⟨x, p', x', hx, hop, hgs⟩ := withGroup_ok (show (n'.mls.encryptMessage g b rng).1 = .ok m by rw [he])
    change (n'.mls.encryptMessage g b rng).2.groups = _ at hgs
    rw [he] at hgs
    obtain ⟨hseal, hlt⟩ := L.create hop
    have hstamp : L.stamp g (.publish topic gm) = some (L.pos x) := by
      simp [Ratchet.stamp, hgid, hgm, L.sealOf_serialized hb, hseal]
    obtain ⟨es, hes, hnodup, hlow, hhigh⟩ := h
    obtain ⟨hpast, y, hy, hyx⟩ := hhigh x hx
    refine ⟨es ++ [.publish topic gm], ?_, ?_, ?_, fun g' hg' => ?_⟩
    · change n'.effects ++ [_] = _
      rw [hes, List.append_assoc]
    · rw [Ratchet.spent_append, Ratchet.spent_stamp hstamp]
      refine List.nodup_append.2 ⟨hnodup, List.nodup_singleton _, fun s hs s' hs' => ?_⟩
      exact List.mem_singleton.1 hs' ▸ (hpast s hs).ne
    · intro s hs
      rw [Ratchet.spent_append, Ratchet.spent_stamp hstamp] at hs
      rcases List.mem_append.1 hs with hs | hs
      · exact hlow s hs
      · exact ⟨y, hy, List.mem_singleton.1 hs ▸ hyx⟩
    · change mls.groups[g]? = some g' at hg'
      rw [hgs, Std.ExtTreeMap.getElem?_insert_self] at hg'
      obtain rfl := Option.some.inj hg'
      refine ⟨fun s hs => ?_, y, hy, hyx.trans hlt.le⟩
      rw [Ratchet.spent_append, Ratchet.spent_stamp hstamp] at hs
      rcases List.mem_append.1 hs with hs | hs
      · exact (hpast s hs).trans hlt
      · exact List.mem_singleton.1 hs ▸ hlt
  · have hc : Stays n'.mls mls := by
      have hcalls := calls_encryptMessage (A := fun _ _ => True) (B := fun _ _ => False) g rng b trivial (.refl _ _ n'.mls)
      rwa [he] at hcalls
    refine (h.mls hc).emit ?_
    simp [Ratchet.stamp, hgid, hg]

theorem generateKeyPackage (h : Spends L gid n n') {r : Except MsgError M.KeyPackage} {mls : MlsGroupHandler M}
    (hk : n'.mls.generateKeyPackage env.rng = (r, mls)) : Spends L gid n { n' with mls := mls } := by
  have hc : Stays n'.mls (n'.mls.generateKeyPackage env.rng).2 := calls_generateKeyPackage _ (.refl _ _ _)
  rw [hk] at hc
  exact h.mls hc

theorem refreshKeyPackage (h : Spends L gid n n') {b : Bool} : Spends L gid n (n'.refreshKeyPackage env b) := by
  unfold Node.refreshKeyPackage
  split
  · rename_i hk
    exact h.generateKeyPackage hk
  · rename_i mls hk
    have hmls := h.generateKeyPackage hk
    dsimp only
    split
    · exact hmls
    · split_ifs
      · exact (hmls.emit rfl).emit rfl
      · exact hmls.emit rfl

theorem removeGroup (h : Spends L gid n n') : Spends L gid n { n' with mls := n'.mls.removeGroup g } :=
  h.mls (calls_removeGroup (.refl _ _ _))

theorem purgeGroup (h : Spends L gid n n') : Spends L gid n (n'.purgeGroup env g) := h.store.store.store.store

/-- The leave proposal, and whether it can be published. -/
theorem leaveGroup (h : Spends L gid n n') {r : Except MsgError M.Message} {mls : MlsGroupHandler M}
    (hl : n'.mls.leaveGroup g env.rng = (r, mls)) : Spends L gid n { n' with mls := mls } := by
  have hc : Stays n'.mls (n'.mls.leaveGroup g env.rng).2 := calls_leaveGroup g _ trivial (.refl _ _ _)
  rw [hl] at hc
  exact h.mls hc

theorem departGroup (h : Spends L gid n n') : Spends L gid n (n'.departGroup env g).2 := by
  unfold Node.departGroup
  split
  · rename_i hl
    exact h.leaveGroup hl
  · rename_i m mls hl
    have hm : L.sealedAt m = none := unsealed_leaveGroup L (show (n'.mls.leaveGroup g env.rng).1 = .ok m by rw [hl])
    have hmls := h.leaveGroup hl
    dsimp only
    split
    · exact hmls
    · rename_i b hb
      have hsaid := (hmls.publish hb hm (groupTopic g) (Node.leaveProto { n' with mls := mls } env g b) rfl).emit
        (x := .unsubscribe (groupTopic g)) rfl
      exact ((hsaid.removeGroup (g := g)).emit rfl).purgeGroup.refreshKeyPackage

theorem announceLeave (h : Spends L gid n n') : Spends L gid n (n'.announceLeave env g) := by
  unfold Node.announceLeave
  split
  · rename_i hl
    exact h.leaveGroup hl
  · rename_i m mls hl
    have hm : L.sealedAt m = none := unsealed_leaveGroup L (show (n'.mls.leaveGroup g env.rng).1 = .ok m by rw [hl])
    have hmls := h.leaveGroup hl
    dsimp only
    split
    · exact hmls
    · rename_i b hb
      exact hmls.publish hb hm _ _ rfl

theorem sendGroupContent (h : Spends L gid n n') {content : MessageContent} {keep : Bool} :
    Spends L gid n (n'.sendGroupContent W env g content keep).2 := by
  have hc : Stays n'.mls (n'.mls.encryptMessage g (W.encodeGroupPayload (.message content)) env.rng).2 :=
    calls_encryptMessage g _ _ trivial (.refl _ _ _)
  unfold Node.sendGroupContent
  split
  · exact h.mls (hc.bound ‹_›)
  · rename_i m mls he
    rw [he] at hc
    dsimp only
    split
    · exact h.mls hc
    · rename_i b hb
      refine Spends.emit ?_ rfl
      split_ifs
      · exact (h.say he hb _ rfl rfl).store.store
      · exact h.say he hb _ rfl rfl

theorem wsSendGroupMessage (h : Spends L gid n n') {text : String} {replyTo : Option String} :
    Spends L gid n (n'.wsSendGroupMessage W env g text replyTo) := by
  have hc : Stays n'.mls (n'.mls.encryptMessage g (W.encodeMessageContent
      { text, attachments := [], mentions := [], replyTo, metadata := ∅ }) env.rng).2 :=
    calls_encryptMessage g _ _ trivial (.refl _ _ _)
  unfold Node.wsSendGroupMessage
  dsimp only
  split
  · exact h.mls (hc.bound ‹_›)
  · rename_i m mls he
    rw [he] at hc
    split
    · exact h.mls hc
    · rename_i b hb
      exact (h.say he hb _ rfl rfl).store.store.emit rfl

theorem publishGroupReceipt (h : Spends L gid n n') {r : GroupReadReceipt} :
    Spends L gid n (n'.publishGroupReceiptFromEventRouter W env g r) := by
  have hc : Stays n'.mls (n'.mls.encryptMessage g (W.encodeGroupPayload (.receipt r)) env.rng).2 :=
    calls_encryptMessage g _ _ trivial (.refl _ _ _)
  unfold publishGroupReceiptFromEventRouter
  split
  · exact h.mls (hc.bound ‹_›)
  · rename_i m mls he
    rw [he] at hc
    dsimp only
    split
    · exact h.mls hc
    · rename_i b hb
      exact (h.say he hb _ rfl rfl).emit rfl

theorem sendInvitation (h : Spends L gid n n') {r : AddMemberResult M} :
    Spends L gid n (Node.sendInvitation n' W env g d r).2 := by
  unfold Node.sendInvitation
  split
  · exact h
  · split
    · exact h
    · dsimp only
      split_ifs
      · exact h.store.emit rfl
      · exact h.store

theorem mlsInviteToGroup (h : Spends L gid n n') {net : InviteNet} {invitee : String} :
    Spends L gid n (n'.mlsInviteToGroup W env net g invitee).2 := by
  unfold Node.mlsInviteToGroup
  split
  · exact h
  · rename_i kp _
    have hc : Stays n'.mls (n'.mls.addMemberDeferred g kp env.rng).2 :=
      calls_addMemberDeferred g _ trivial (.refl _ _ _)
    split
    · exact h.mls (hc.bound ‹_›)
    · exact ((h.mls (hc.bound ‹_›)).emit rfl).sendInvitation

theorem declineInvitation (h : Spends L gid n n') : Spends L gid n (n'.declineInvitation env g).2 := by
  unfold Node.declineInvitation
  split
  · exact h
  · dsimp only
    refine Spends.store ?_
    split_ifs
    · exact h.emit rfl
    · exact h

theorem publishInviteCommit (h : Spends L gid n n')
    (hu : ∀ i t, n'.storage.fetchOutboundInvite g d = some (i, t) → L.sealOf i.mlsCommit = none) :
    Spends L gid n (n'.publishInviteCommit env g d) := by
  unfold Node.publishInviteCommit
  split
  · exact h
  · rename_i i t hi
    split_ifs
    · exact h
    · refine h.emit ?_
      simp [Ratchet.stamp, hu i t hi]

theorem addToMetadata (h : Spends L gid n n') : Spends L gid n (n'.addToMetadata env g d) := by
  unfold Node.addToMetadata
  split
  · exact h
  · split_ifs
    · exact h
    · exact h.store

theorem handleInviteAcceptedDm (h : Spends L gid n n')
    (hu : ∀ i t, n'.storage.fetchOutboundInvite g d = some (i, t) → L.sealOf i.mlsCommit = none) :
    Spends L gid n (n'.handleInviteAcceptedDm env g d) := by
  have hc : Stays n'.mls (n'.mls.confirmAddMember g).2 := calls_confirmAddMember g trivial (.refl _ _ _)
  unfold Node.handleInviteAcceptedDm
  split
  · exact h.mls (hc.bound ‹_›)
  · exact (((h.mls (hc.bound ‹_›)).emit rfl).publishInviteCommit hu).addToMetadata.store.emit rfl

theorem cancelAddMember (h : Spends L gid n n') : Spends L gid n { n' with mls := (n'.mls.cancelAddMember g).2 } :=
  h.mls (calls_cancelAddMember g trivial (.refl _ _ _))

theorem handleInviteDeclinedDm (h : Spends L gid n n') : Spends L gid n (n'.handleInviteDeclinedDm env g d) :=
  ((h.cancelAddMember (g := g)).emit rfl).store.emit rfl

theorem sweepExpiredInvites (h : Spends L gid n n') : Spends L gid n (n'.sweepExpiredInvites env) := by
  have hfold (xs : List (String × Did × GroupInvitation)) {n₁ : Node M} (h₁ : Spends L gid n n₁) :
      Spends L gid n (xs.foldl (expireInvite env) n₁) := by
    induction xs generalizing n₁ with
    | nil => exact h₁
    | cons x xs ih => exact ih ((h₁.cancelAddMember (g := x.1)).store.emit rfl)
  unfold Node.sweepExpiredInvites
  dsimp only
  split_ifs
  · exact hfold _ h
  · exact (hfold _ h).emit rfl

theorem handleGroupInvitationDm (h : Spends L gid n n') {hex : String} :
    Spends L gid n (n'.handleGroupInvitationDm W env hex d).2 := by
  unfold Node.handleGroupInvitationDm
  split
  · exact h
  · split
    · exact h
    · split
      · exact h
      · exact Spends.emit (h.congr rfl rfl) rfl

theorem handleDirectContent (h : Spends L gid n n') {messageId : String} {timestamp : ℤ} {content : MessageContent}
    (hu : ∀ g i t, n'.storage.fetchOutboundInvite g d = some (i, t) → L.sealOf i.mlsCommit = none) :
    Spends L gid n (n'.handleDirectContent W env d messageId timestamp content) := by
  unfold Node.handleDirectContent
  dsimp only
  split
  · split
    · exact h.handleGroupInvitationDm.store
    · exact h.store
  · split
    · exact (h.handleInviteAcceptedDm (hu _)).store
    · exact h.store
  · split
    · exact h.handleInviteDeclinedDm.store
    · exact h.store
  · exact (h.emit rfl).emit rfl

theorem mlsLeaveGroup (h : Spends L gid n n') : Spends L gid n (n'.mlsLeaveGroup env g).2 := by
  unfold Node.mlsLeaveGroup
  split_ifs
  · exact h
  · exact h.departGroup

theorem mlsAbandonGroup (h : Spends L gid n n') : Spends L gid n (n'.mlsAbandonGroup W env g).2 := by
  unfold Node.mlsAbandonGroup
  split
  · exact h
  · exact h.sendGroupContent.departGroup

theorem mlsDeleteGroup (h : Spends L gid n n') : Spends L gid n (n'.mlsDeleteGroup env g).2 := by
  unfold Node.mlsDeleteGroup
  split
  · exact h
  · have hsaid : Spends L gid n ((n'.announceLeave env g).emit (.unsubscribe (groupTopic g))) :=
      h.announceLeave.emit rfl
    exact ((hsaid.removeGroup (g := g)).emit rfl).purgeGroup

theorem mlsRemoveMember (h : Spends L gid n n') : Spends L gid n (n'.mlsRemoveMember env g d).2 := by
  unfold Node.mlsRemoveMember
  split
  · exact h
  · rename_i i _
    have hc : Stays n'.mls (n'.mls.removeMember g i env.rng).2 :=
      calls_removeMember g _ _ trivial trivial (.refl _ _ _)
    split
    · exact h.mls (hc.bound ‹_›)
    · rename_i c mls heq
      have hunsealed : L.sealedAt c = none :=
        unsealed_removeMember L (show (n'.mls.removeMember g i env.rng).1 = .ok c by rw [heq])
      rw [heq] at hc
      have hstruck :
          Spends L gid n ((Node.emit { n' with mls := mls } .schedulePersist).removeFromMetadata env g d) := by
        unfold Node.removeFromMetadata
        split
        · exact (h.mls hc).emit rfl
        · exact ((h.mls hc).emit rfl).store
      dsimp only
      split
      · exact hstruck
      · rename_i b hb
        exact hstruck.publish hb hunsealed _ _ rfl

theorem mlsChangeMemberRole (h : Spends L gid n n') {role : String} :
    Spends L gid n (n'.mlsChangeMemberRole W env g d role).2 := by
  unfold Node.mlsChangeMemberRole
  split
  · exact h
  · split
    · exact h.congr rfl rfl
    · exact h.congr rfl rfl
    · rename_i storage _
      have hset : Spends L gid n { n' with storage := storage } := h.congr rfl rfl
      exact hset.sendGroupContent

theorem mlsSendGroupMessage (h : Spends L gid n n') {text : String} {replyTo : Option String} {md : SledTree String} :
    Spends L gid n (n'.mlsSendGroupMessage W env g text replyTo md).2 := by
  unfold Node.mlsSendGroupMessage
  split_ifs
  · exact h
  · split
    · exact h
    · exact h.sendGroupContent

theorem selfUpdateGroup (h : Spends L gid n n') : Spends L gid n (n'.selfUpdateGroup env g) := by
  have hc : Stays n'.mls (n'.mls.selfUpdate g env.rng).2 := calls_selfUpdate g _ trivial trivial (.refl _ _ _)
  unfold Node.selfUpdateGroup
  split
  · exact h.mls (hc.bound ‹_›)
  · rename_i c mls heq
    have hunsealed : L.sealedAt c = none :=
      unsealed_selfUpdate L (show (n'.mls.selfUpdate g env.rng).1 = .ok c by rw [heq])
    rw [heq] at hc
    dsimp only
    split
    · exact h.mls hc
    · rename_i b hb
      exact (h.mls hc).publish hb hunsealed _ _ rfl

theorem storeGroupContent (h : Spends L gid n n') {m : GroupMessage} {content : MessageContent} :
    Spends L gid n (n'.storeGroupContent W env m content) := by
  have hstored : Spends L gid n (((n'.store fun s => s.storeGroup env.faults m).persistGroupPlaintext env m.id
      content).emit (.ws (.groupMessageReceived m.groupId m.senderDid m.id m.timestamp))) := h.store.store.emit rfl
  unfold Node.storeGroupContent
  dsimp only
  split_ifs
  · exact hstored
  · unfold sendGroupDelivered
    split
    · rename_i heq
      rw [← (Prod.mk.inj heq).2]
      exact hstored.congr rfl rfl
    · rename_i heq
      refine publishGroupReceipt (hstored.congr ?_ ?_)
      · rw [← (Prod.mk.inj heq).2]
      · rw [← (Prod.mk.inj heq).2]

theorem freezeGroup (h : Spends L gid n n') {adminDid : Option Did} :
    Spends L gid n (n'.freezeGroup env g adminDid) := by
  unfold Node.freezeGroup
  split
  · exact h
  · exact h.store

theorem handleGroupReceipt (h : Spends L gid n n') {r : GroupReadReceipt} :
    Spends L gid n (n'.handleGroupReceipt env g r) := by
  unfold Node.handleGroupReceipt
  by_cases hr : r.readerDid = n'.localDid
  · rw [if_pos hr]
    exact h
  · rw [if_neg hr]
    split
    · exact h
    · exact Spends.emit (h.congr rfl rfl) rfl

theorem handleGroupPlaintext (h : Spends L gid n n') {m : GroupMessage} {b : Bytes} :
    Spends L gid n (n'.handleGroupPlaintext W env m b) := by
  rw [handleGroupPlaintext_eq]
  split
  · exact h.handleGroupReceipt
  · unfold handleGroupMessageContent
    split
    · exact h.freezeGroup.emit rfl
    · split
      · exact Spends.emit (h.congr rfl rfl) rfl
      · exact h
    · exact h.storeGroupContent
  · exact h

theorem cleanUpAfterRemoval (h : Spends L gid n n') : Spends L gid n (n'.cleanUpAfterRemoval env g) := by
  have hout : Spends L gid n (n'.emit (.unsubscribe (groupTopic g))) := h.emit rfl
  have hgone := (hout.removeGroup (g := g)).emit (x := .schedulePersist) rfl
  exact (hgone.store.store.store.store.emit rfl).refreshKeyPackage

theorem settleMembers (h : Spends L gid n n') {before after : List Did} :
    Spends L gid n (n'.settleMembers env g before after) := by
  have hfold (ds : List Did) {n₁ : Node M} (h₁ : Spends L gid n n₁) :
      Spends L gid n (ds.foldl (fun n d => n.emit (.ws (.groupMemberRemoved g d))) n₁) := by
    induction ds generalizing n₁ with
    | nil => exact h₁
    | cons d ds ih => exact ih (h₁.emit rfl)
  unfold Node.settleMembers
  split_ifs
  · exact hfold _ h
  · exact h.cleanUpAfterRemoval

theorem autoCommitProposals (h : Spends L gid n n') {ms : List Did} :
    Spends L gid n (n'.autoCommitProposals env g ms).2 := by
  have hc : Stays n'.mls (n'.mls.commitPendingProposals g env.rng).2 :=
    calls_commitPendingProposals g _ trivial trivial (.refl _ _ _)
  unfold Node.autoCommitProposals
  split
  · exact h.mls (hc.bound ‹_›)
  · exact h.mls (hc.bound ‹_›)
  · rename_i c mls heq
    have hunsealed : L.sealedAt c = none := unsealed_commitPendingProposals L
      (show (n'.mls.commitPendingProposals g env.rng).1 = .ok (some c) by rw [heq])
    rw [heq] at hc
    dsimp only
    split
    · exact (h.mls hc).emit rfl
    · rename_i b hb
      exact ((h.mls hc).emit rfl).publish hb hunsealed _ _ rfl

theorem afterHandshake (h : Spends L gid n n') {before : List Did} :
    Spends L gid n (n'.afterHandshake env g before) := by
  unfold Node.afterHandshake
  dsimp only
  split_ifs
  · exact (h.emit rfl).autoCommitProposals.settleMembers
  · exact (h.emit rfl).settleMembers

theorem recordLiveFailure (h : Spends L gid n n') : Spends L gid n (n'.recordLiveFailure g) := by
  unfold Node.recordLiveFailure MlsGroupHandler.recordProcessingFailure
  dsimp only
  split
  · rename_i heq
    rw [← (Prod.mk.inj heq).2]
    exact Spends.emit (h.congr rfl rfl) rfl
  · rename_i heq
    rw [← (Prod.mk.inj heq).2]
    exact h.congr rfl rfl

theorem processMessage (h : Spends L gid n n') {m : M.Message} :
    Spends L gid n { n' with mls := (n'.mls.processMessage g m).2 } :=
  h.mls (calls_processMessage g m (fun _ _ => trivial) (.refl _ _ _))

theorem handleGroupMessage (h : Spends L gid n n') {m : GroupMessage} :
    Spends L gid n (n'.handleGroupMessage W env m) := by
  unfold Node.handleGroupMessage
  split_ifs
  · exact h
  · dsimp only
    split
    · exact h.recordLiveFailure
    · rename_i msg _
      have hp : Spends L gid n { n' with mls := (n'.mls.processMessage m.groupId msg).2 } := h.processMessage
      split
      · rename_i heq
        rw [heq] at hp
        exact hp.recordLiveFailure
      · rename_i mls heq
        rw [heq] at hp
        have hok : Spends L gid n { n' with mls := mls.recordProcessingSuccess m.groupId } :=
          hp.congr rfl (recordProcessingSuccess_groups mls)
        exact hok.handleGroupPlaintext.emit rfl
      · rename_i mls heq
        rw [heq] at hp
        have hok : Spends L gid n { n' with mls := mls.recordProcessingSuccess m.groupId } :=
          hp.congr rfl (recordProcessingSuccess_groups mls)
        exact hok.afterHandshake

theorem handleSyncedMessage (h : Spends L gid n n') {m : GroupMessage} :
    Spends L gid n (n'.handleSyncedMessage W env g m).2 := by
  unfold Node.handleSyncedMessage
  split_ifs
  · exact h
  · exact h
  · split
    · exact h
    · rename_i msg _
      have hp : Spends L gid n { n' with mls := (n'.mls.processMessage g msg).2 } := h.processMessage
      split
      · rename_i heq
        rw [heq] at hp
        exact hp.congr rfl rfl
      · rename_i mls heq
        rw [heq] at hp
        exact hp.congr rfl (recordProcessingSuccess_groups mls)
      · rename_i mls heq
        rw [heq] at hp
        have hok : Spends L gid n { n' with mls := mls.recordProcessingSuccess g } :=
          hp.congr rfl (recordProcessingSuccess_groups mls)
        dsimp only
        refine Spends.emit ?_ rfl
        split
        · exact hok.store.store
        · exact hok.store

theorem handleSyncReceived (h : Spends L gid n n') {xs : List (Env × GroupMessage)} :
    Spends L gid n (n'.handleSyncReceived W g xs) := by
  have hfold (xs : List (Env × GroupMessage)) (acc : ℕ × Node M) (h : Spends L gid n acc.2) :
      Spends L gid n (xs.foldl (fun acc x =>
        let r := acc.2.handleSyncedMessage W x.1 g x.2
        (if r.1 then acc.1 + 1 else acc.1, r.2)) acc).2 := by
    induction xs generalizing acc with
    | nil => exact h
    | cons x xs ih => exact ih _ h.handleSyncedMessage
  unfold Node.handleSyncReceived
  dsimp only
  split_ifs
  · exact (hfold xs (0, n') h).emit rfl
  · exact hfold xs (0, n') h

theorem readMessages (ids : List (Env × String)) (h : Spends L gid n n') :
    Spends L gid n (Node.readMessages W g ids n').2 := by
  induction ids generalizing n' with
  | nil => exact h
  | cons x ids ih =>
    obtain ⟨env, id⟩ := x
    have hread : Spends L gid n (n'.sendGroupRead W env g id).2 := h.congr rfl rfl
    rw [Node.readMessages]
    rcases hr : n'.sendGroupRead W env g id with ⟨e | r, n₁⟩
    · rw [hr] at hread
      exact hread
    · rw [hr] at hread
      exact ih hread.publishGroupReceipt

end Spends

/-! Steps that bring a group in -/

/-- Nothing was published in the group. -/
def Mute (L : RatchetLaws M) (gid : String) (n n' : Node M) : Prop :=
  ∃ es, n'.effects = n.effects ++ es ∧ L.spent gid es = []

namespace Mute

theorem refl (L : RatchetLaws M) (gid : String) (n : Node M) : Mute L gid n n := ⟨[], by simp, rfl⟩

theorem congr (h : Mute L gid n n') (he : n''.effects = n'.effects) : Mute L gid n n'' := by
  obtain ⟨es, hes, hs⟩ := h
  exact ⟨es, he.trans hes, hs⟩

theorem emit (h : Mute L gid n n') {x : Effect} (hx : L.stamp gid x = none) : Mute L gid n (n'.emit x) := by
  obtain ⟨es, hes, hs⟩ := h
  refine ⟨es ++ [x], by rw [emit_effects, hes, List.append_assoc], ?_⟩
  rw [Ratchet.spent_append, hs, Ratchet.spent_mute hx]
  rfl

theorem store (h : Mute L gid n n') {op : LocalMessageStorage → Except MsgError Unit × LocalMessageStorage} :
    Mute L gid n (n'.store op) := h.congr rfl

theorem refreshKeyPackage (h : Mute L gid n n') {b : Bool} : Mute L gid n (n'.refreshKeyPackage env b) := by
  unfold Node.refreshKeyPackage
  split
  · exact h.congr rfl
  · rename_i mls _
    have hmls : Mute L gid n { n' with mls := mls } := h.congr rfl
    dsimp only
    split
    · exact hmls
    · split_ifs
      · exact (hmls.emit rfl).emit rfl
      · exact hmls.emit rfl

theorem mlsCreateGroup (h : Mute L gid n n') {name : String} : Mute L gid n (n'.mlsCreateGroup env name).2 := by
  unfold Node.mlsCreateGroup
  dsimp only
  split_ifs
  · exact h
  · split
    · exact h.congr rfl
    · rename_i mls _
      have hmls : Mute L gid n { n' with mls := mls } := h.congr rfl
      exact (hmls.emit rfl).store.emit rfl

theorem acceptInvitation (h : Mute L gid n n') : Mute L gid n (n'.acceptInvitation env g).2 := by
  unfold Node.acceptInvitation
  split
  · exact h
  rename_i i _
  split
  · exact h
  split
  · exact h.congr rfl
  · rename_i joined mls _
    have hmls : Mute L gid n { n' with mls := mls } := h.congr rfl
    have hentered : Mute L gid n (Node.enterGroup { n' with mls := mls } env i joined) :=
      (hmls.emit rfl).store.emit rfl
    unfold finishAccept answerInvitation
    refine Mute.store ?_
    split_ifs
    · exact hentered.refreshKeyPackage.emit rfl
    · exact hentered.refreshKeyPackage

theorem mlsAcceptWelcome (h : Mute L gid n n') {hex : String} : Mute L gid n (n'.mlsAcceptWelcome W env hex).2 := by
  unfold Node.mlsAcceptWelcome
  split
  · exact h
  split
  · exact h
  split
  · exact h.congr rfl
  · rename_i mls _
    have hmls : Mute L gid n { n' with mls := mls } := h.congr rfl
    dsimp only
    refine Mute.emit ?_ rfl
    split
    · exact hmls.emit rfl
    · exact (hmls.emit rfl).store

theorem sendWelcomes (h : Mute L gid n n') {net : ReinitNet} {id newId : String} {ts : List (Did × M.Message)} :
    Mute L gid n (Node.sendWelcomes W env net id newId ts n').2 := by
  obtain ⟨es', hn, hall, -⟩ := sendWelcomes_spec W env net id newId ts n'
  obtain ⟨es, hes, hs⟩ := h
  have hspent : L.spent gid es' = [] := List.filterMap_eq_nil_iff.2 fun x hx => by
    obtain ⟨d, c, rfl, -⟩ := hall x hx
    rfl
  refine ⟨es ++ es', by rw [hn, hes, List.append_assoc], ?_⟩
  rw [Ratchet.spent_append, hs, hspent]
  rfl

theorem mlsReinitializeGroup (h : Mute L gid n n') {net : ReinitNet} {id : String} :
    Mute L gid n (n'.mlsReinitializeGroup W env net id).2 := by
  by_cases hk : ∃ kps, n'.Collects W net id kps
  · obtain ⟨kps, hk⟩ := hk
    rw [mlsReinitializeGroup_late env hk]
    split
    · exact h.congr rfl
    · rename_i result mls _
      have hmls : Mute L gid n { n' with mls := mls } := h.congr rfl
      have hcopied : Mute L gid n ((Node.emit { n' with mls := mls } (.subscribe
          (groupTopic result.newGroupId))).copyMetadata env id result.newGroupId) :=
        (hmls.emit (x := .subscribe (groupTopic result.newGroupId)) rfl).congr (copyMetadata_spec _ env id _).2.1
      have hsent : Mute L gid n (Node.sendWelcomes W env net id result.newGroupId result.welcomes
          ((Node.emit { n' with mls := mls } (.subscribe (groupTopic result.newGroupId))).copyMetadata env id
            result.newGroupId)).2 := hcopied.sendWelcomes
      split
      · rename_i heq
        rw [heq] at hsent
        exact hsent
      · rename_i heq
        rw [heq] at hsent
        exact (hsent.emit rfl).emit rfl
  · obtain ⟨e, he⟩ := mlsReinitializeGroup_early env fun kps hkps => hk ⟨kps, hkps⟩
    rw [he]
    exact h

end Mute

/-! The commits kept with the invites -/

/-- The commit kept with an outbound invite is no application message. -/
def Unsealed (L : RatchetLaws M) (n : Node M) : Prop :=
  ∀ (k : String) (e : OutboundInvite), n.storage.outboundInvites[k]? = some e → L.sealOf e.invitation.mlsCommit = none

theorem Unsealed.fetch (h : Unsealed L n) {i : GroupInvitation} {t : ℤ}
    (hi : n.storage.fetchOutboundInvite g d = some (i, t)) : L.sealOf i.mlsCommit = none := by
  obtain ⟨e, he, hei⟩ := Option.map_eq_some_iff.1 hi
  obtain ⟨rfl, -⟩ := Prod.mk.inj hei
  exact h _ e he

theorem Unsealed.congr (h : Unsealed L n) (hs : n'.storage.outboundInvites = n.storage.outboundInvites) :
    Unsealed L n' := by
  unfold Unsealed
  rw [hs]
  exact h

/-- Only an invitation adds an invite. -/
theorem invites_apply {s : LocalMessageStorage} {f : Faults} {w : StoreWrite}
    (hw : ∀ g d i now, w ≠ .outboundInvite g d i now) {k : String} {e : OutboundInvite}
    (he : (s.apply f w).outboundInvites[k]? = some e) : s.outboundInvites[k]? = some e := by
  cases w with
  | outboundInvite g d i now => exact (hw g d i now rfl).elim
  | noOutboundInvite g d => exact get_treeRemove_some he
  | noOutboundInvites g => exact get_treeRemoveAll_some he
  | noGroupMessages g => rwa [apply, deleteGroupMessages_invites] at he
  | noDirect a b ts id => rwa [apply, deleteDirectById_invites] at he
  | role g d r =>
    change (s.updateMemberRole f g d r).2.outboundInvites[k]? = some e at he
    unfold updateMemberRole at he
    split at he
    · exact he
    · split_ifs at he
      · exact he
      · exact he
  | _ => exact he

theorem Unsealed.acts (h : Unsealed L n) {A : StoreWrite → Prop} (ha : Acts A n n')
    (hA : ∀ w, A w → ∀ g d i now, w ≠ .outboundInvite g d i now) : Unsealed L n' := by
  refine ha.invariant (P := fun s => ∀ (k : String) (e : OutboundInvite), s.outboundInvites[k]? = some e →
    L.sealOf e.invitation.mlsCommit = none) (fun s f w hw hs k e he => ?_) h
  exact hs k e (invites_apply (hA w hw) he)

theorem Unsealed.mlsInviteToGroup (h : Unsealed L n) {net : InviteNet} {invitee : String} :
    Unsealed L (n.mlsInviteToGroup W env net g invitee).2 := by
  unfold Node.mlsInviteToGroup
  split
  · exact h
  · rename_i kp _
    split
    · exact h
    · rename_i r mls heq
      have hunsealed : L.sealedAt r.commit = none :=
        unsealed_addMemberDeferred L (show (n.mls.addMemberDeferred g kp env.rng).1 = .ok r by rw [heq])
      unfold Node.sendInvitation
      split
      · exact h
      · split
        · exact h
        · rename_i b hb
          intro k e he
          have hinserted := get_treeInsert_some (show (treeInsert env.faults "outbound_invites" _ _
            n.storage.outboundInvites).2[k]? = some e by
              dsimp only at he
              split_ifs at he
              · exact he
              · exact he)
          rcases hinserted with ⟨-, rfl⟩ | hold
          · exact (L.sealOf_serialized hb).trans hunsealed
          · exact h k e hold

theorem reinitialized_invites {net : ReinitNet} {id : String} :
    (n.mlsReinitializeGroup W env net id).2.storage.outboundInvites = n.storage.outboundInvites := by
  have hcopy (n : Node M) (newId : String) :
      (n.copyMetadata env id newId).storage.outboundInvites = n.storage.outboundInvites := by
    unfold copyMetadata
    split
    · rfl
    · rfl
  by_cases hk : ∃ kps, n.Collects W net id kps
  · obtain ⟨kps, hk⟩ := hk
    rw [mlsReinitializeGroup_late env hk]
    split
    · rfl
    · rename_i result mls _
      obtain ⟨es, hn, -⟩ := sendWelcomes_spec W env net id result.newGroupId result.welcomes
        ((Node.emit { n with mls := mls } (.subscribe (groupTopic result.newGroupId))).copyMetadata env id
          result.newGroupId)
      have hsent : (Node.sendWelcomes W env net id result.newGroupId result.welcomes
          ((Node.emit { n with mls := mls } (.subscribe (groupTopic result.newGroupId))).copyMetadata env id
            result.newGroupId)).2.storage.outboundInvites = n.storage.outboundInvites := by
        rw [hn]
        exact hcopy _ _
      split
      · rename_i heq
        rw [heq] at hsent
        exact hsent
      · rename_i heq
        rw [heq] at hsent
        exact hsent
  · obtain ⟨e, he⟩ := mlsReinitializeGroup_early env fun kps hkps => hk ⟨kps, hkps⟩
    rw [he]

theorem Unsealed.exec (h : Unsealed L n) (o : Op) : Unsealed L (n.exec W o) := by
  by_cases hi : ∃ env net id invitee, o = .invite env net id invitee
  · obtain ⟨env, net, id, invitee, rfl⟩ := hi
    exact h.mlsInviteToGroup
  · refine h.acts (acts_exec W n o) fun w hw g d i now hwi => ?_
    subst hwi
    cases o with
    | invite env net id invitee => exact hi ⟨env, net, id, invitee, rfl⟩
    | _ => simp [Op.writes, AnswerWrite, PurgeWrite, OwnWrite, DirectWrite, SettleWrite, GroupWrite, PayloadWrite,
        KeepWrite, SyncWrite] at hw

theorem Unsealed.serve (h : Unsealed L n) (e : ClientEvent) : Unsealed L (n.serve W e) := by
  have hsend (env : Env) (g : String) (content : MessageContent) :
      Unsealed L (n.sendGroupContent W env g content true).2 := by
    refine h.acts (acts_sendGroupContent n W env g content true) fun w hw _ _ _ _ hwi => ?_
    subst hwi
    simp [OwnWrite] at hw
  cases e with
  | event e =>
    cases e with
    | op o => exact h.exec o
    | reinitializeGroup env net id => exact h.congr reinitialized_invites
    | selfUpdate env id =>
      change Unsealed L (n.selfUpdateGroup env id)
      unfold selfUpdateGroup
      split
      · exact h
      · dsimp only
        split
        · exact h
        · exact h
  | addGroupReaction env g id emoji =>
    change Unsealed L (n.addGroupReaction W env g id emoji).2
    unfold addGroupReaction
    split_ifs
    · exact h
    · exact hsend env g _
  | removeGroupReaction env g id emoji => exact hsend env g _
  | wsSendGroupMessage env g text replyTo =>
    change Unsealed L (n.wsSendGroupMessage W env g text replyTo)
    unfold wsSendGroupMessage
    dsimp only
    split
    · exact h
    · split
      · exact h
      · exact h.congr rfl
  | sendGroupReadReceipts g ids =>
    change Unsealed L (n.sendGroupReadReceipts W g ids).2
    unfold sendGroupReadReceipts
    split_ifs
    · exact h
    · exact h.congr (readMessages_stores ids n).1

/-! A whole step -/

/-- The events that bring no group in. -/
def Founding : ClientEvent → Prop
  | .event (.op (.create ..)) | .event (.op (.accept ..)) | .event (.op (.acceptWelcome ..)) |
    .event (.reinitializeGroup ..) => True
  | _ => False

theorem spends_serve (hu : Unsealed L n) {e : ClientEvent} (he : ¬ Founding e) : Spends L gid n (n.serve W e) := by
  have hr := Spends.refl L gid n
  cases e with
  | event e =>
    cases e with
    | op o =>
      cases o with
      | create => exact (he trivial).elim
      | accept => exact (he trivial).elim
      | acceptWelcome => exact (he trivial).elim
      | invite env net id invitee => exact hr.mlsInviteToGroup
      | decline env g => exact hr.declineInvitation
      | leave env g => exact hr.mlsLeaveGroup
      | abandon env g => exact hr.mlsAbandonGroup
      | delete env g => exact hr.mlsDeleteGroup
      | removeMember env g d => exact hr.mlsRemoveMember
      | changeRole env g d role => exact hr.mlsChangeMemberRole
      | send env g text replyTo md => exact hr.mlsSendGroupMessage
      | direct env d id ts content => exact hr.handleDirectContent fun g i t => hu.fetch
      | group env m => exact hr.handleGroupMessage
      | sync g xs => exact hr.handleSyncReceived
      | sweep env => exact hr.sweepExpiredInvites
    | reinitializeGroup => exact (he trivial).elim
    | selfUpdate env g => exact hr.selfUpdateGroup
  | addGroupReaction env g id emoji =>
    change Spends L gid n (n.addGroupReaction W env g id emoji).2
    unfold addGroupReaction
    split_ifs
    · exact hr
    · exact hr.sendGroupContent
  | removeGroupReaction env g id emoji => exact hr.sendGroupContent
  | wsSendGroupMessage env g text replyTo => exact hr.wsSendGroupMessage
  | sendGroupReadReceipts g ids =>
    change Spends L gid n (n.sendGroupReadReceipts W g ids).2
    unfold sendGroupReadReceipts
    split_ifs
    · exact hr
    · exact hr.readMessages ids

theorem mute_react {e : Event} (he : Founding (.event e)) : Mute L gid n (n.react W e) := by
  have hr := Mute.refl L gid n
  cases e with
  | op o =>
    cases o with
    | create env name => exact hr.mlsCreateGroup
    | accept env g => exact hr.acceptInvitation
    | acceptWelcome env hex => exact hr.mlsAcceptWelcome
    | _ => exact he.elim
  | reinitializeGroup env net id => exact hr.mlsReinitializeGroup
  | selfUpdate => exact he.elim

end Node
end Variance
