import Variance.Lib.Run
import Variance.Sanity.Trees
import Variance.Spec.Groups

/-! Which writes each operation of a node makes to its stores. Every operation is a list of writes of the
storage layer, each of which may fail; a frame fact about an operation is then one about those writes. -/

namespace Variance

/-- The writes of `LocalMessageStorage` that the node's operations use. -/
inductive StoreWrite
  | pendingInvitation (invitation : GroupInvitation)
  | noPendingInvitation (groupId : String)
  | outboundInvite (groupId : String) (inviteeDid : Did) (invitation : GroupInvitation) (createdAtMs : ℤ)
  | noOutboundInvite (groupId : String) (inviteeDid : Did)
  | noOutboundInvites (groupId : String)
  | group (message : GroupMessage)
  | noGroupMessages (groupId : String)
  | metadata (group : Group)
  | noMetadata (groupId : String)
  | role (groupId : String) (memberDid : Did) (newRole : GroupRole)
  | groupPlaintext (messageId : String) (content : MessageContent)
  | groupReceipt (receipt : GroupReadReceipt)
  | noGroupLastRead (ourDid : Did) (groupId : String)
  | noDirect (senderDid recipientDid : Did) (timestamp : ℤ) (messageId : String)

namespace LocalMessageStorage

def apply (s : LocalMessageStorage) (f : Faults) : StoreWrite → LocalMessageStorage
  | .pendingInvitation i => (s.storePendingInvitation f i).2
  | .noPendingInvitation g => (s.deletePendingInvitation f g).2
  | .outboundInvite g d i now => (s.storeOutboundInvite f g d i now).2
  | .noOutboundInvite g d => (s.deleteOutboundInvite f g d).2
  | .noOutboundInvites g => (s.deleteAllOutboundInvitesForGroup f g).2
  | .group m => (s.storeGroup f m).2
  | .noGroupMessages g => (s.deleteGroupMessages f g).2
  | .metadata group => (s.storeGroupMetadata f group).2
  | .noMetadata g => (s.deleteGroupMetadata f g).2
  | .role g d r => (s.updateMemberRole f g d r).2
  | .groupPlaintext id c => (s.storeGroupPlaintext f id c).2
  | .groupReceipt r => (s.storeGroupReceipt f r).2
  | .noGroupLastRead d g => (s.deleteGroupLastReadAt f d g).2
  | .noDirect a b ts id => (s.deleteDirectById f a b ts id).2

end LocalMessageStorage

namespace Node
variable {M : OpenMls} {W : Wire} {n n' n'' : Node M} {env : Env} {A B : StoreWrite → Prop} {g : String} {d : Did}

/-- The node is the same one, and its stores have seen writes of `A` only. -/
inductive Acts (A : StoreWrite → Prop) (n : Node M) : Node M → Prop
  | same {n' : Node M} (hl : n'.localDid = n.localDid) (hs : n'.storage = n.storage) : Acts A n n'
  | write {n' n'' : Node M} (h : Acts A n n') (f : Faults) (w : StoreWrite) (hw : A w)
    (hl : n''.localDid = n'.localDid) (hs : n''.storage = n'.storage.apply f w) : Acts A n n''

namespace Acts

theorem refl (A : StoreWrite → Prop) (n : Node M) : Acts A n n := .same rfl rfl

theorem mono (h : Acts A n n') (hAB : ∀ w, A w → B w) : Acts B n n' := by
  induction h with
  | same hl hs => exact .same hl hs
  | write _ f w hw hl hs ih => exact .write ih f w (hAB w hw) hl hs

theorem trans (h : Acts A n n') (h' : Acts A n' n'') : Acts A n n'' := by
  induction h' with
  | same hl hs =>
    cases h with
    | same hl' hs' => exact .same (hl.trans hl') (hs.trans hs')
    | write h f w hw hl' hs' => exact .write h f w hw (hl.trans hl') (hs.trans hs')
  | write _ f w hw hl hs ih => exact .write ih f w hw hl hs

theorem mls (A : StoreWrite → Prop) (n : Node M) (mls : MlsGroupHandler M) : Acts A n { n with mls := mls } :=
  .same rfl rfl

/-- What does not touch the stores. -/
theorem quiet (h : Acts A n n') (hl : n''.localDid = n'.localDid) (hs : n''.storage = n'.storage) :
    Acts A n n'' := h.trans (.same hl hs)

theorem store (h : Acts A n n') (f : Faults) (w : StoreWrite) (hw : A w)
    {op : LocalMessageStorage → Except MsgError Unit × LocalMessageStorage}
    (hop : ∀ s, (op s).2 = s.apply f w) : Acts A n (n'.store op) := .write h f w hw rfl (hop _)

theorem emit (h : Acts A n n') (e : Effect) : Acts A n (n'.emit e) := h.quiet rfl rfl

theorem localDid (h : Acts A n n') : n'.localDid = n.localDid := by
  induction h with
  | same hl _ => exact hl
  | write _ _ _ _ hl _ ih => exact hl.trans ih

/-- A property of the stores that every write of `A` keeps. -/
theorem invariant {P : LocalMessageStorage → Prop} (h : Acts A n n')
    (hP : ∀ s f w, A w → P s → P (s.apply f w)) (hn : P n.storage) : P n'.storage := by
  induction h with
  | same _ hs =>
    rw [hs]
    exact hn
  | write _ f w hw _ hs ih =>
    rw [hs]
    exact hP _ f w hw ih

end Acts

theorem acts_refreshKeyPackage (A : StoreWrite → Prop) (n : Node M) (env : Env) (b : Bool) :
    Acts A n (n.refreshKeyPackage env b) := by
  unfold refreshKeyPackage
  split
  · exact .same rfl rfl
  · dsimp only
    split
    · exact .same rfl rfl
    · split_ifs
      · exact .same rfl rfl
      · exact .same rfl rfl

/-- What goes when a group goes. -/
def PurgeWrite (g : String) (w : StoreWrite) : Prop :=
  w = .noGroupMessages g ∨ w = .noMetadata g ∨ (∃ d, w = .noGroupLastRead d g) ∨ w = .noOutboundInvites g

theorem acts_purgeGroup (n : Node M) (env : Env) (g : String) : Acts (PurgeWrite g) n (n.purgeGroup env g) := by
  unfold purgeGroup
  refine Acts.store (Acts.store (Acts.store (Acts.store (.refl _ n) env.faults (.noGroupMessages g) ?_ ?_)
    env.faults (.noMetadata g) ?_ ?_) env.faults (.noGroupLastRead n.localDid g) ?_ ?_) env.faults
    (.noOutboundInvites g) ?_ ?_
  · exact Or.inl rfl
  · exact fun _ => rfl
  · exact Or.inr (Or.inl rfl)
  · exact fun _ => rfl
  · exact Or.inr (Or.inr (Or.inl ⟨_, rfl⟩))
  · exact fun _ => rfl
  · exact Or.inr (Or.inr (Or.inr rfl))
  · exact fun _ => rfl

theorem acts_departGroup (n : Node M) (env : Env) (g : String) :
    Acts (PurgeWrite g) n (n.departGroup env g).2 := by
  unfold departGroup
  split
  · exact .same rfl rfl
  · dsimp only
    split
    · exact .same rfl rfl
    · refine Acts.trans (Acts.trans ?_ (acts_purgeGroup _ _ _)) (acts_refreshKeyPackage _ _ _ _)
      exact .same rfl rfl

theorem acts_mlsLeaveGroup (n : Node M) (env : Env) (g : String) :
    Acts (PurgeWrite g) n (n.mlsLeaveGroup env g).2 := by
  unfold mlsLeaveGroup
  split_ifs
  · exact .refl _ _
  · exact acts_departGroup _ _ _

theorem acts_mlsDeleteGroup (n : Node M) (env : Env) (g : String) :
    Acts (PurgeWrite g) n (n.mlsDeleteGroup env g).2 := by
  unfold mlsDeleteGroup
  split
  · exact .refl _ _
  · refine Acts.trans ?_ (acts_purgeGroup _ _ _)
    unfold announceLeave
    split
    · exact .same rfl rfl
    · dsimp only
      split
      · exact .same rfl rfl
      · exact .same rfl rfl

/-- The record of an invitation, under its own group and invitee. -/
def InviteWrite (g : String) (w : StoreWrite) : Prop :=
  ∃ d i now, w = .outboundInvite g d i now ∧ i.groupId = g ∧ i.inviteeDid = d

theorem acts_mlsInviteToGroup (n : Node M) (W : Wire) (env : Env) (net : InviteNet) (id invitee : String) :
    Acts (InviteWrite id) n (n.mlsInviteToGroup W env net id invitee).2 := by
  unfold mlsInviteToGroup
  split
  · exact .refl _ _
  · split
    · exact .same rfl rfl
    · unfold sendInvitation
      split
      · exact .same rfl rfl
      · split
        · exact .same rfl rfl
        · dsimp only
          split_ifs
          all_goals
            refine Acts.write (.refl _ n) env.faults (.outboundInvite id _ _ env.now) ?_ rfl rfl
            exact ⟨_, _, _, rfl, rfl, rfl⟩

/-- The invitee's accept and decline. -/
def AnswerWrite (g : String) (w : StoreWrite) : Prop :=
  (∃ group, w = .metadata group) ∨ w = .noPendingInvitation g

theorem acts_answerInvitation (n : Node M) (env : Env) (i : GroupInvitation) (g joined : String) :
    Acts (AnswerWrite g) n (n.answerInvitation env i g joined) := by
  unfold answerInvitation
  refine Acts.store ?_ env.faults (.noPendingInvitation g) (Or.inr rfl) fun _ => rfl
  split_ifs
  · exact (Acts.refl _ _).emit _
  · exact .refl _ _

theorem acts_enterGroup (n : Node M) (env : Env) (i : GroupInvitation) (joined : String) :
    Acts (fun w => w = .metadata (n.joinedMetadata env i joined)) n (n.enterGroup env i joined) := by
  have hstart : Acts (fun w => w = .metadata (n.joinedMetadata env i joined)) n (n.emit .schedulePersist) :=
    (Acts.refl _ n).emit _
  exact (hstart.store env.faults (.metadata (n.joinedMetadata env i joined)) rfl fun _ => rfl).emit
    (.subscribe (groupTopic joined))

theorem acts_acceptInvitation (n : Node M) (env : Env) (g : String) :
    Acts (AnswerWrite g) n (n.acceptInvitation env g).2 := by
  unfold acceptInvitation
  split
  · exact .refl _ _
  split
  · exact .refl _ _
  split
  · exact .same rfl rfl
  · rename_i i _ _ _ _ _ joined mls _
    have hmls : Acts (AnswerWrite g) n { n with mls := mls } := .same rfl rfl
    have henter := (acts_enterGroup { n with mls := mls } env i joined).mono (B := AnswerWrite g) fun w hw =>
      Or.inl ⟨_, hw⟩
    exact ((hmls.trans henter).trans (acts_refreshKeyPackage _ _ _ _)).trans (acts_answerInvitation _ _ _ _ _)

theorem acts_declineInvitation (n : Node M) (env : Env) (g : String) :
    Acts (AnswerWrite g) n (n.declineInvitation env g).2 := by
  unfold declineInvitation
  split
  · exact .refl _ _
  · refine Acts.store ?_ env.faults (.noPendingInvitation g) (Or.inr rfl) fun _ => rfl
    split_ifs
    · exact (Acts.refl _ _).emit _
    · exact .refl _ _

/-- The inviter's reaction to an answer, and to an expiry. -/
def SettleWrite (w : StoreWrite) : Prop := (∃ group, w = .metadata group) ∨ ∃ g d, w = .noOutboundInvite g d

theorem acts_addToMetadata (n : Node M) (env : Env) (g : String) (d : Did) :
    Acts SettleWrite n (n.addToMetadata env g d) := by
  unfold addToMetadata
  split
  · exact .refl _ _
  · split_ifs
    · exact .refl _ _
    · exact (Acts.refl _ n).store env.faults (.metadata _) (Or.inl ⟨_, rfl⟩) fun _ => rfl

theorem acts_publishInviteCommit (A : StoreWrite → Prop) (n : Node M) (env : Env) (g : String) (d : Did) :
    Acts A n (n.publishInviteCommit env g d) := by
  unfold publishInviteCommit
  split
  · exact .refl _ _
  · split_ifs
    · exact .refl _ _
    · exact (Acts.refl _ _).emit _

theorem acts_handleInviteAcceptedDm (n : Node M) (env : Env) (g : String) (d : Did) :
    Acts SettleWrite n (n.handleInviteAcceptedDm env g d) := by
  unfold handleInviteAcceptedDm
  split
  · exact .same rfl rfl
  · refine ((Acts.trans (Acts.trans ?_ (acts_publishInviteCommit _ _ _ _ _)) (acts_addToMetadata _ _ _ _)).store
      env.faults (.noOutboundInvite g d) (Or.inr ⟨_, _, rfl⟩) fun _ => rfl).emit _
    exact .same rfl rfl

theorem acts_handleInviteDeclinedDm (n : Node M) (env : Env) (g : String) (d : Did) :
    Acts SettleWrite n (n.handleInviteDeclinedDm env g d) := by
  unfold handleInviteDeclinedDm
  refine (Acts.store ?_ env.faults (.noOutboundInvite g d) (Or.inr ⟨_, _, rfl⟩) fun _ => rfl).emit _
  exact .same rfl rfl

theorem acts_sweepExpiredInvites (n : Node M) (env : Env) : Acts SettleWrite n (n.sweepExpiredInvites env) := by
  have hfold (xs : List (String × Did × GroupInvitation)) (n' : Node M) (h : Acts SettleWrite n n') :
      Acts SettleWrite n (xs.foldl (expireInvite env) n') := by
    induction xs generalizing n' with
    | nil => exact h
    | cons x xs ih =>
      refine ih _ ((Acts.store ?_ env.faults (.noOutboundInvite x.1 x.2.1) (Or.inr ⟨_, _, rfl⟩)
        fun _ => rfl).emit _)
      exact h.quiet rfl rfl
  unfold sweepExpiredInvites
  dsimp only
  split_ifs
  · exact hfold _ _ (.refl _ _)
  · exact (hfold _ _ (.refl _ _)).emit _

/-- The invitation a control message carries. -/
def inboundInvitation (W : Wire) (content : MessageContent) : Option GroupInvitation :=
  if content.metadata["type"]? = some "mls_group_invitation" then
    content.metadata["invitation"]?.bind fun hex => (W.hexDecode hex).bind W.decodeInvitation
  else none

/-- A control message of `d`: what it asks for, and its own message gone. -/
def DirectWrite (W : Wire) (d : Did) (content : MessageContent) (w : StoreWrite) : Prop :=
  SettleWrite w ∨ (∃ i, inboundInvitation W content = some i ∧ w = .pendingInvitation i) ∨
    ∃ me ts id, w = .noDirect d me ts id

theorem acts_handleGroupInvitationDm (n : Node M) (W : Wire) (env : Env) (hex : String) (d : Did) :
    Acts (fun w => ∃ i, (W.hexDecode hex).bind W.decodeInvitation = some i ∧ w = .pendingInvitation i) n
      (n.handleGroupInvitationDm W env hex d).2 := by
  unfold handleGroupInvitationDm
  split
  · exact .refl _ _
  rename_i b hb
  split
  · exact .refl _ _
  rename_i i hi
  split
  · exact .refl _ _
  rename_i st heq
  have hst : st = n.storage.apply env.faults (.pendingInvitation i) := by
    show st = (n.storage.storePendingInvitation env.faults i).2
    rw [heq]
  refine Acts.write (.refl _ n) env.faults (.pendingInvitation i) ⟨i, ?_, rfl⟩ rfl hst
  rw [hb]
  exact hi

theorem acts_handleDirectContent (n : Node M) (W : Wire) (env : Env) (d : Did) (mid : String) (ts : ℤ)
    (content : MessageContent) : Acts (DirectWrite W d content) n (n.handleDirectContent W env d mid ts content) := by
  have hforget {n' : Node M} (h : Acts (DirectWrite W d content) n n') : Acts (DirectWrite W d content) n
      (n'.store fun s => s.deleteDirectById env.faults d n'.localDid ts mid) :=
    h.store env.faults (.noDirect d n'.localDid ts mid) (Or.inr (Or.inr ⟨_, _, _, rfl⟩)) fun _ => rfl
  unfold handleDirectContent
  dsimp only
  split
  · rename_i ht
    refine hforget ?_
    split
    · rename_i hex hhex
      refine (acts_handleGroupInvitationDm n W env hex d).mono ?_
      rintro w ⟨i, hi, rfl⟩
      exact Or.inr (Or.inl ⟨i, by simp [inboundInvitation, ht, hhex, hi], rfl⟩)
    · exact .refl _ _
  · refine hforget ?_
    split
    · exact (acts_handleInviteAcceptedDm _ _ _ _).mono fun _ => Or.inl
    · exact .refl _ _
  · refine hforget ?_
    split
    · exact (acts_handleInviteDeclinedDm _ _ _ _).mono fun _ => Or.inl
    · exact .refl _ _
  · exact ((Acts.refl _ _).emit _).emit _

theorem acts_publishGroupReceipt (A : StoreWrite → Prop) (n : Node M) (W : Wire) (env : Env) (g : String)
    (r : GroupReadReceipt) : Acts A n (n.publishGroupReceiptFromEventRouter W env g r) := by
  unfold publishGroupReceiptFromEventRouter
  split
  · exact .same rfl rfl
  · dsimp only
    split
    · exact .same rfl rfl
    · exact .same rfl rfl

/-- A message that is kept: itself, its plaintext, our own DELIVERED. -/
def KeepWrite (me : Did) (m : GroupMessage) (content : MessageContent) (w : StoreWrite) : Prop :=
  w = .group m ∨ w = .groupPlaintext m.id content ∨ ∃ r, r.readerDid = me ∧ w = .groupReceipt r

theorem acts_storeGroupContent (n : Node M) (W : Wire) (env : Env) (m : GroupMessage) (content : MessageContent) :
    Acts (KeepWrite n.localDid m content) n (n.storeGroupContent W env m content) := by
  have hkept : Acts (KeepWrite n.localDid m content) n
      (((n.store fun s => s.storeGroup env.faults m).persistGroupPlaintext env m.id content).emit
        (.ws (.groupMessageReceived m.groupId m.senderDid m.id m.timestamp))) :=
    (((Acts.refl _ n).store env.faults (.group m) (Or.inl rfl) fun _ => rfl).store env.faults
      (.groupPlaintext m.id content) (Or.inr (Or.inl rfl)) fun _ => rfl).emit _
  unfold storeGroupContent
  dsimp only
  split_ifs
  · exact hkept
  · unfold sendGroupDelivered
    split
    all_goals
      rename_i heq
      have hreceipt := (Prod.mk.inj heq).2
    · rw [← hreceipt]
      exact hkept.write env.faults (.groupReceipt _) (Or.inr (Or.inr ⟨_, rfl, rfl⟩)) rfl rfl
    · refine Acts.trans ?_ (acts_publishGroupReceipt _ _ _ _ _ _)
      rw [← hreceipt]
      exact hkept.write env.faults (.groupReceipt _) (Or.inr (Or.inr ⟨_, rfl, rfl⟩)) rfl rfl

/-- What a payload does: it freezes, changes a role, is kept, or is a receipt. -/
def PayloadWrite (me : Did) (m : GroupMessage) (w : StoreWrite) : Prop :=
  (∃ group, w = .metadata group) ∨ (∃ d r, w = .role m.groupId d r) ∨ (∃ c, KeepWrite me m c w) ∨
    ∃ r, w = .groupReceipt r

theorem acts_handleGroupMessageContent (n : Node M) (W : Wire) (env : Env) (m : GroupMessage)
    (content : MessageContent) :
    Acts (PayloadWrite n.localDid m) n (n.handleGroupMessageContent W env m content) := by
  unfold handleGroupMessageContent
  split
  · refine Acts.emit ?_ _
    unfold freezeGroup
    split
    · exact .refl _ _
    · exact (Acts.refl _ n).store env.faults (.metadata _) (Or.inl ⟨_, rfl⟩) fun _ => rfl
  · split
    · rename_i d role _ _
      exact (Acts.write (.refl _ n) env.faults (.role m.groupId d (roleOfLabel role))
        (Or.inr (Or.inl ⟨_, _, rfl⟩)) rfl rfl)
    · exact .refl _ _
  · exact (acts_storeGroupContent _ _ _ _ _).mono fun _ hw => Or.inr (Or.inr (Or.inl ⟨_, hw⟩))

theorem acts_handleGroupReceipt (n : Node M) (env : Env) (g : String) (r : GroupReadReceipt) :
    Acts (fun w => w = .groupReceipt r) n (n.handleGroupReceipt env g r) := by
  unfold handleGroupReceipt
  by_cases hr : r.readerDid = n.localDid
  · rw [if_pos hr]
    exact .refl _ _
  · rw [if_neg hr]
    split
    · exact .refl _ _
    · rename_i st heq
      have hst : st = n.storage.apply env.faults (.groupReceipt r) := by
        show st = (n.storage.storeGroupReceipt env.faults r).2
        rw [heq]
      exact .write (.refl _ n) env.faults (.groupReceipt r) rfl rfl hst

theorem acts_handleGroupPlaintext (n : Node M) (W : Wire) (env : Env) (m : GroupMessage) (b : Bytes) :
    Acts (PayloadWrite n.localDid m) n (n.handleGroupPlaintext W env m b) := by
  unfold handleGroupPlaintext
  split
  · exact (acts_handleGroupReceipt _ _ _ _).mono fun _ hw => Or.inr (Or.inr (Or.inr ⟨_, hw⟩))
  · exact acts_handleGroupMessageContent _ _ _ _ _
  · split
    · exact acts_handleGroupMessageContent _ _ _ _ _
    · exact .refl _ _

theorem acts_autoCommitProposals (A : StoreWrite → Prop) (n : Node M) (env : Env) (g : String) (ms : List Did) :
    Acts A n (n.autoCommitProposals env g ms).2 := by
  unfold autoCommitProposals
  split
  · exact .same rfl rfl
  · exact .same rfl rfl
  · dsimp only
    split
    · exact .same rfl rfl
    · exact .same rfl rfl

theorem acts_cleanUpAfterRemoval (n : Node M) (env : Env) (g : String) :
    Acts (PurgeWrite g) n (n.cleanUpAfterRemoval env g) := by
  have hstart : Acts (PurgeWrite g) n (emit { (n.emit (.unsubscribe (groupTopic g))) with
      mls := n.mls.removeGroup g } .schedulePersist) := .same rfl rfl
  refine Acts.trans ?_ (acts_refreshKeyPackage _ _ _ _)
  refine Acts.emit (Acts.store (Acts.store (Acts.store (hstart.store env.faults (.noMetadata g) ?_ ?_) env.faults
    (.noGroupMessages g) ?_ ?_) env.faults (.noGroupLastRead n.localDid g) ?_ ?_) env.faults
    (.noOutboundInvites g) ?_ ?_) _
  · exact Or.inr (Or.inl rfl)
  · exact fun _ => rfl
  · exact Or.inl rfl
  · exact fun _ => rfl
  · exact Or.inr (Or.inr (Or.inl ⟨_, rfl⟩))
  · exact fun _ => rfl
  · exact Or.inr (Or.inr (Or.inr rfl))
  · exact fun _ => rfl

theorem acts_settleMembers (n : Node M) (env : Env) (g : String) (before after : List Did) :
    Acts (PurgeWrite g) n (n.settleMembers env g before after) := by
  unfold settleMembers
  split_ifs
  · have hfold (ds : List Did) (n' : Node M) (h : Acts (PurgeWrite g) n n') :
        Acts (PurgeWrite g) n (ds.foldl (fun n did => n.emit (.ws (.groupMemberRemoved g did))) n') := by
      induction ds generalizing n' with
      | nil => exact h
      | cons d ds ih => exact ih _ (h.emit _)
    exact hfold _ _ (.refl _ _)
  · exact acts_cleanUpAfterRemoval _ _ _

theorem acts_afterHandshake (n : Node M) (env : Env) (g : String) (before : List Did) :
    Acts (PurgeWrite g) n (n.afterHandshake env g before) := by
  unfold afterHandshake
  dsimp only
  split_ifs
  · refine Acts.trans (Acts.trans ?_ (acts_autoCommitProposals _ _ _ _ _)) (acts_settleMembers _ _ _ _ _)
    exact (Acts.refl _ _).emit _
  · exact ((Acts.refl _ _).emit _).trans (acts_settleMembers _ _ _ _ _)

theorem acts_recordLiveFailure (A : StoreWrite → Prop) (n : Node M) (g : String) :
    Acts A n (n.recordLiveFailure g) := by
  unfold recordLiveFailure
  split
  · exact .same rfl rfl
  · exact .same rfl rfl

/-- A group message: what its payload does, or the end of the group for us. -/
def GroupWrite (me : Did) (m : GroupMessage) (w : StoreWrite) : Prop :=
  PayloadWrite me m w ∨ PurgeWrite m.groupId w

theorem acts_handleGroupMessage (n : Node M) (W : Wire) (env : Env) (m : GroupMessage) :
    Acts (GroupWrite n.localDid m) n (n.handleGroupMessage W env m) := by
  unfold handleGroupMessage
  split_ifs
  · exact .refl _ _
  · dsimp only
    split
    · exact acts_recordLiveFailure _ _ _
    · split
      · exact (Acts.mls _ n _).trans (acts_recordLiveFailure _ _ _)
      · rename_i d mls _
        refine ((Acts.mls _ n (mls.recordProcessingSuccess m.groupId)).trans ?_).emit _
        exact (acts_handleGroupPlaintext _ W env m d.plaintext).mono fun _ => Or.inl
      · rename_i mls _
        refine (Acts.mls _ n (mls.recordProcessingSuccess m.groupId)).trans ?_
        exact (acts_afterHandshake _ _ _ _).mono fun _ => Or.inr

/-- A synced message is stored, and its plaintext when it is a bare content. -/
def SyncWrite (m : GroupMessage) (w : StoreWrite) : Prop := w = .group m ∨ ∃ c, w = .groupPlaintext m.id c

theorem acts_handleSyncedMessage (n : Node M) (W : Wire) (env : Env) (g : String) (m : GroupMessage) :
    Acts (SyncWrite m) n (n.handleSyncedMessage W env g m).2 := by
  unfold handleSyncedMessage
  split_ifs
  · exact .refl _ _
  · exact .refl _ _
  · split
    · exact .refl _ _
    · split
      · exact .same rfl rfl
      · exact .same rfl rfl
      · rename_i mls _
        dsimp only
        have hstored : Acts (SyncWrite m) n (store { n with mls := mls.recordProcessingSuccess g }
            fun s => s.storeGroup env.faults m) :=
          (Acts.mls _ n (mls.recordProcessingSuccess g)).store env.faults (.group m) (Or.inl rfl) fun _ => rfl
        refine Acts.emit ?_ _
        split
        · exact hstored.store env.faults (.groupPlaintext m.id _) (Or.inr ⟨_, rfl⟩) fun _ => rfl
        · exact hstored

theorem acts_handleSyncReceived (n : Node M) (W : Wire) (g : String) (xs : List (Env × GroupMessage)) :
    Acts (fun w => ∃ x ∈ xs, SyncWrite x.2 w) n (n.handleSyncReceived W g xs) := by
  have hfold (ys : List (Env × GroupMessage)) (hys : ∀ y ∈ ys, y ∈ xs) (acc : ℕ × Node M)
      (h : Acts (fun w => ∃ x ∈ xs, SyncWrite x.2 w) n acc.2) :
      Acts (fun w => ∃ x ∈ xs, SyncWrite x.2 w) n (ys.foldl (fun acc x =>
        let r := acc.2.handleSyncedMessage W x.1 g x.2
        (if r.1 then acc.1 + 1 else acc.1, r.2)) acc).2 := by
    induction ys generalizing acc with
    | nil => exact h
    | cons y ys ih =>
      refine ih (fun z hz => hys z (List.mem_cons_of_mem _ hz)) _ (h.trans ?_)
      exact (acts_handleSyncedMessage _ _ _ _ _).mono fun w hw => ⟨y, hys y List.mem_cons_self, hw⟩
  unfold handleSyncReceived
  dsimp only
  split_ifs
  · exact (hfold xs (fun _ h => h) (0, n) (.refl _ _)).emit _
  · exact hfold xs (fun _ h => h) (0, n) (.refl _ _)

theorem acts_mlsCreateGroup (n : Node M) (env : Env) (name : String) :
    Acts (fun w => ∃ group, group.id = env.ulid ∧ w = .metadata group) n (n.mlsCreateGroup env name).2 := by
  unfold mlsCreateGroup
  dsimp only
  split
  · exact .refl _ _
  · split
    · exact .same rfl rfl
    · rename_i mls _
      exact ((((Acts.mls _ n mls).emit .schedulePersist).store env.faults (.metadata _) ⟨_, rfl, rfl⟩
        fun _ => rfl)).emit _

/-- A message of our own that is kept. -/
def OwnWrite (me : Did) (g : String) (w : StoreWrite) : Prop :=
  (∃ m, m.senderDid = me ∧ m.groupId = g ∧ w = .group m) ∨ ∃ id c, w = .groupPlaintext id c

theorem acts_sendGroupContent (n : Node M) (W : Wire) (env : Env) (g : String) (content : MessageContent)
    (keep : Bool) : Acts (OwnWrite n.localDid g) n (n.sendGroupContent W env g content keep).2 := by
  unfold sendGroupContent
  split
  · exact .same rfl rfl
  · rename_i mls _
    dsimp only
    split
    · exact .same rfl rfl
    · have hmls : Acts (OwnWrite n.localDid g) n { n with mls := mls } := .same rfl rfl
      refine Acts.emit ?_ _
      split_ifs
      · exact ((hmls.emit _).store env.faults (.group _) (Or.inl ⟨_, rfl, rfl, rfl⟩) fun _ => rfl).store env.faults
          (.groupPlaintext _ _) (Or.inr ⟨_, _, rfl⟩) fun _ => rfl
      · exact hmls.emit _

theorem acts_sendGroupContent_quiet (A : StoreWrite → Prop) (n : Node M) (W : Wire) (env : Env) (g : String)
    (content : MessageContent) : Acts A n (n.sendGroupContent W env g content false).2 := by
  unfold sendGroupContent
  split
  · exact .same rfl rfl
  · dsimp only
    split
    · exact .same rfl rfl
    · exact .same rfl rfl

theorem acts_mlsSendGroupMessage (n : Node M) (W : Wire) (env : Env) (g text : String) (r : Option String)
    (md : SledTree String) : Acts (OwnWrite n.localDid g) n (n.mlsSendGroupMessage W env g text r md).2 := by
  unfold mlsSendGroupMessage
  split
  · exact .refl _ _
  · split
    · exact .refl _ _
    · exact acts_sendGroupContent _ _ _ _ _ _

theorem acts_mlsAbandonGroup (n : Node M) (W : Wire) (env : Env) (g : String) :
    Acts (PurgeWrite g) n (n.mlsAbandonGroup W env g).2 := by
  unfold mlsAbandonGroup
  split
  · exact .refl _ _
  · exact (acts_sendGroupContent_quiet _ _ _ _ _ _).trans (acts_departGroup _ _ _)

theorem acts_removeFromMetadata (n : Node M) (env : Env) (g : String) (d : Did) :
    Acts (fun w => ∃ group, w = .metadata group) n (n.removeFromMetadata env g d) := by
  unfold removeFromMetadata
  split
  · exact .refl _ _
  · exact (Acts.refl _ n).store env.faults (.metadata _) ⟨_, rfl⟩ fun _ => rfl

theorem acts_mlsRemoveMember (n : Node M) (env : Env) (g : String) (d : Did) :
    Acts (fun w => ∃ group, w = .metadata group) n (n.mlsRemoveMember env g d).2 := by
  unfold mlsRemoveMember
  split
  · exact .refl _ _
  · split
    · exact .same rfl rfl
    · rename_i mls _
      have hmeta : Acts (fun w => ∃ group, w = .metadata group) n
          (removeFromMetadata (emit { n with mls := mls } .schedulePersist) env g d) :=
        ((Acts.mls _ n mls).emit .schedulePersist).trans (acts_removeFromMetadata _ env g d)
      dsimp only
      split
      · exact hmeta
      · exact hmeta.emit _

theorem acts_mlsChangeMemberRole (n : Node M) (W : Wire) (env : Env) (g : String) (d : Did) (role : String) :
    Acts (fun w => w = .role g d (roleOfLabel role)) n (n.mlsChangeMemberRole W env g d role).2 := by
  have hrole {st : LocalMessageStorage} {r : Except MsgError Bool}
      (h : n.storage.updateMemberRole env.faults g d (roleOfLabel role) = (r, st)) :
      Acts (fun w => w = .role g d (roleOfLabel role)) n { n with storage := st } := by
    refine Acts.write (.refl _ n) env.faults (.role g d (roleOfLabel role)) rfl rfl ?_
    show st = (n.storage.updateMemberRole env.faults g d (roleOfLabel role)).2
    rw [h]
  unfold mlsChangeMemberRole
  split
  · exact .refl _ _
  · split
    all_goals
      rename_i heq
    · exact hrole heq
    · exact hrole heq
    · exact (hrole heq).trans (acts_sendGroupContent_quiet _ _ _ _ _ _)

theorem acts_mlsAcceptWelcome (n : Node M) (W : Wire) (env : Env) (hex : String) :
    Acts (fun w => ∃ group, w = .metadata group) n (n.mlsAcceptWelcome W env hex).2 := by
  unfold mlsAcceptWelcome
  split
  · exact .refl _ _
  · split
    · exact .refl _ _
    · split
      · exact .same rfl rfl
      · rename_i mls _
        dsimp only
        refine Acts.emit ?_ _
        split
        · exact (Acts.mls _ n mls).emit _
        · exact ((Acts.mls _ n mls).emit .schedulePersist).store env.faults (.metadata _) ⟨_, rfl⟩ fun _ => rfl

end Node

/-- The writes an operation of a node with that did may make. -/
def Op.writes (W : Wire) (me : Did) : Op → StoreWrite → Prop
  | .create .. | .acceptWelcome .. | .removeMember .. => fun w => ∃ group, w = .metadata group
  | .invite _ _ id _ => Node.InviteWrite id
  | .accept _ g | .decline _ g => Node.AnswerWrite g
  | .leave _ id | .abandon _ id | .delete _ id => Node.PurgeWrite id
  | .changeRole _ id d role => fun w => w = .role id d (Node.roleOfLabel role)
  | .send _ g _ _ _ => Node.OwnWrite me g
  | .direct _ d _ _ content => Node.DirectWrite W d content
  | .group _ m => Node.GroupWrite me m
  | .sync _ xs => fun w => ∃ x ∈ xs, Node.SyncWrite x.2 w
  | .sweep _ => Node.SettleWrite

theorem Node.acts_exec {M : OpenMls} (W : Wire) (n : Node M) (op : Op) :
    Node.Acts (op.writes W n.localDid) n (n.exec W op) := by
  cases op with
  | create env name => exact (acts_mlsCreateGroup n env name).mono fun w ⟨group, _, hw⟩ => ⟨group, hw⟩
  | invite env net id invitee => exact acts_mlsInviteToGroup n W env net id invitee
  | accept env g => exact acts_acceptInvitation n env g
  | decline env g => exact acts_declineInvitation n env g
  | acceptWelcome env hex => exact acts_mlsAcceptWelcome n W env hex
  | leave env id => exact acts_mlsLeaveGroup n env id
  | abandon env id => exact acts_mlsAbandonGroup n W env id
  | delete env id => exact acts_mlsDeleteGroup n env id
  | removeMember env id d => exact acts_mlsRemoveMember n env id d
  | changeRole env id d role => exact acts_mlsChangeMemberRole n W env id d role
  | send env g text r md => exact acts_mlsSendGroupMessage n W env g text r md
  | direct env d mid ts content => exact acts_handleDirectContent n W env d mid ts content
  | group env m => exact acts_handleGroupMessage n W env m
  | sync g xs => exact acts_handleSyncReceived n W g xs
  | sweep env => exact acts_sweepExpiredInvites n env

/-! A node's stores stay keyed: whatever a node is asked to do, each outbound invite
lies under the key of its own group and invitee, and group metadata under its own id. -/

/-- The record of an outbound invite names the group and the invitee it is kept under. -/
def StoreWrite.KeyedWrite : StoreWrite → Prop
  | .outboundInvite g d i _ => i.groupId = g ∧ i.inviteeDid = d
  | _ => True

theorem LocalMessageStorage.Keyed.apply {s : LocalMessageStorage} (h : s.Keyed) (f : Faults) {w : StoreWrite}
    (hw : w.KeyedWrite) : (s.apply f w).Keyed := by
  cases w with
  | pendingInvitation i => exact h.congr rfl rfl
  | noPendingInvitation g => exact h.congr rfl rfl
  | outboundInvite g d i now => exact h.storeOutboundInvite hw.1 hw.2
  | noOutboundInvite g d => exact h.deleteOutboundInvite
  | noOutboundInvites g => exact h.deleteAllOutboundInvitesForGroup
  | group m => exact h.congr rfl rfl
  | noGroupMessages g => exact h.congr deleteGroupMessages_invites deleteGroupMessages_metadata
  | metadata group => exact h.storeGroupMetadata
  | noMetadata g => exact h.deleteGroupMetadata
  | role g d r => exact h.updateMemberRole
  | groupPlaintext id c => exact h.congr rfl rfl
  | groupReceipt r => exact h.congr rfl rfl
  | noGroupLastRead d g => exact h.congr rfl rfl
  | noDirect a b ts id => exact h.congr deleteDirectById_invites deleteDirectById_metadata

theorem Op.writes_keyed {W : Wire} {me : Did} {op : Op} {w : StoreWrite} (h : op.writes W me w) :
    w.KeyedWrite := by
  cases w with
  | outboundInvite g d i now =>
    cases op with
    | invite env net id invitee =>
      obtain ⟨d', i', now', heq, hg, hd⟩ := h
      cases heq
      exact ⟨hg, hd⟩
    | _ => simp [Op.writes, Node.AnswerWrite, Node.PurgeWrite, Node.OwnWrite, Node.DirectWrite, Node.SettleWrite,
        Node.GroupWrite, Node.PayloadWrite, Node.KeepWrite, Node.SyncWrite] at h
  | _ => trivial

namespace Node
variable {M : OpenMls} {n : Node M} {W : Wire} {env : Env}

@[simp] theorem refreshKeyPackage_storage {b : Bool} :
    (n.refreshKeyPackage env b).storage = n.storage := by
  unfold refreshKeyPackage
  split
  · rfl
  · dsimp only
    split
    · rfl
    · split_ifs <;> rfl

/-- Every operation keeps the stores keyed. -/
theorem keyed_exec (op : Op) (h : n.storage.Keyed) : (n.exec W op).storage.Keyed :=
  (acts_exec W n op).invariant (fun _ f _ hw hs => hs.apply f (Op.writes_keyed hw)) h

end Node

/-- A node on its own, started fresh. -/
def nodeSys (M : OpenMls) (W : Wire) : StepSystem.Sys (Node M) Op where
  init n := n.Fresh
  step n op := n.exec W op

theorem keyed_reachable {M : OpenMls} {W : Wire} {n : Node M}
    (h : StepSystem.Reachable (nodeSys M W) n) : n.storage.Keyed := by
  refine h.invariant (I := fun n => n.storage.Keyed) (fun n hn => ?_) fun n op hn _ => Node.keyed_exec op hn
  rw [hn.storage]
  exact .empty

end Variance
