import Variance.Sanity.IdealGroup
import Variance.Sanity.Synced

/-! Sync rounds bring a member all that another holds exactly when nothing lies behind its cursor, no full batch ends
between two messages of one timestamp, and each message can be taken when it comes. -/

namespace Variance

open LocalMessageStorage

/-! One message -/

namespace LocalMessageStorage
variable {s s' : LocalMessageStorage} {groupId : String} {m x : GroupMessage}

/-- The message is stored, as it is, under its own key. -/
def Stored (s : LocalMessageStorage) (m : GroupMessage) : Prop := s.groupMessages[m.key]? = some m

theorem hasGroupMessage_iff {id : String} : s.hasGroupMessage groupId id = true ↔
    ∃ (k : String) (m : GroupMessage), s.groupMessages[k]? = some m ∧ Text.HasPrefix (groupId ++ ":") k ∧
      Text.HasSuffix (":" ++ id) k := by
  simp [hasGroupMessage, mem_scanPrefix, and_assoc]

theorem prefix_key (hg : m.groupId = groupId) : Text.HasPrefix (groupId ++ ":") m.key := by
  rw [GroupMessage.key, hg]
  exact prefix_groupKey _ _

theorem suffix_key (m : GroupMessage) : Text.HasSuffix (":" ++ m.id) m.key := by
  rw [GroupMessage.key, groupKey_eq, Text.HasSuffix]
  simp only [String.toList_append]
  exact List.suffix_append _ _

/-- With one message more: its own id is known, and every id that its key ends in. -/
theorem hasGroupMessage_insert {id : String} (hs : s'.groupMessages = s.groupMessages.insert m.key m)
    (hg : m.groupId = groupId) : s'.hasGroupMessage groupId id = true ↔
      s.hasGroupMessage groupId id = true ∨ Text.HasSuffix (":" ++ id) m.key := by
  rw [hasGroupMessage_iff, hasGroupMessage_iff, hs]
  constructor
  · rintro ⟨k, x, hk, hpre, hsuf⟩
    rw [get_insert] at hk
    split_ifs at hk with hkey
    · exact Or.inr (hkey ▸ hsuf)
    · exact Or.inl ⟨k, x, hk, hpre, hsuf⟩
  · rintro (⟨k, x, hk, hpre, hsuf⟩ | hsuf)
    · by_cases hkey : m.key = k
      · exact ⟨k, m, by rw [get_insert, if_pos hkey], hpre, hsuf⟩
      · exact ⟨k, x, by rw [get_insert, if_neg hkey]; exact hk, hpre, hsuf⟩
    · exact ⟨m.key, m, by rw [get_insert, if_pos rfl], prefix_key hg, hsuf⟩

/-- A message of a new id is stored beside the others. -/
theorem stored_insert (hs : s'.groupMessages = s.groupMessages.insert m.key m) (hg : m.groupId = groupId)
    (hnew : s.hasGroupMessage groupId m.id = false) : s'.Stored x ↔ s.Stored x ∨ x = m := by
  unfold Stored
  rw [hs, get_insert]
  by_cases hkey : m.key = x.key
  · rw [if_pos hkey]
    refine ⟨fun h => Or.inr (Option.some.inj h).symm, ?_⟩
    rintro (hx | rfl)
    · have hhas : s.hasGroupMessage groupId m.id = true :=
        hasGroupMessage_iff.2 ⟨m.key, x, hkey ▸ hx, prefix_key hg, suffix_key m⟩
      rw [hnew] at hhas
      cases hhas
    · rfl
  · rw [if_neg hkey]
    refine ⟨Or.inl, ?_⟩
    rintro (hx | rfl)
    · exact hx
    · exact (hkey rfl).elim

theorem InOrder.insert (h : s.InOrder groupId) (hs : s'.groupMessages = s.groupMessages.insert m.key m)
    (hg : m.groupId = groupId) (ht : 0 ≤ m.timestamp ∧ m.timestamp < 2 ^ 63 - 1) : s'.InOrder groupId := by
  have hget (k : String) (x : GroupMessage) (hx : s'.groupMessages[k]? = some x) :
      (m.key = k ∧ m = x) ∨ s.groupMessages[k]? = some x := by
    rw [hs, get_insert] at hx
    split_ifs at hx with hkey
    · exact Or.inl ⟨hkey, Option.some.inj hx⟩
    · exact Or.inr hx
  refine ⟨fun k x hx => ?_, fun k x hx hp => ?_, fun k x hx hxg => ?_⟩
  · rcases hget k x hx with ⟨hk, rfl⟩ | hx
    · exact hk
    · exact h.filed k x hx
  · rcases hget k x hx with ⟨-, rfl⟩ | hx
    · exact hg
    · exact h.own k x hx hp
  · rcases hget k x hx with ⟨-, rfl⟩ | hx
    · exact ht
    · exact h.timed k x hx hxg

theorem InOrder.congr (h : s.InOrder groupId) (hs : s'.groupMessages = s.groupMessages) : s'.InOrder groupId :=
  ⟨by rw [hs]; exact h.filed, by rw [hs]; exact h.own, by rw [hs]; exact h.timed⟩

theorem InOrder.mem_log_iff (h : s.InOrder groupId) : m ∈ s.log groupId ↔ s.Stored m ∧ m.groupId = groupId := h.mem_log

theorem InOrder.nodup_log (h : s.InOrder groupId) : (s.log groupId).Nodup := by
  refine List.pairwise_map.2 (((keys_sorted s.groupMessages).filter _).imp_of_mem fun {a b} ha hb hab heq => ?_)
  have hka := h.filed a.1 a.2 (mem_scanPrefix.1 ha).1
  have hkb := h.filed b.1 b.2 (mem_scanPrefix.1 hb).1
  rw [← hka, ← hkb, heq] at hab
  exact lt_irrefl _ hab

theorem InOrder.newest_mono (h : s.InOrder groupId) (h' : s'.InOrder groupId) (hsub : ∀ x, s.Stored x → s'.Stored x) :
    s.newest groupId ≤ s'.newest groupId := by
  have hold : s.newest groupId = 0 ∨ ∃ m ∈ s.log groupId, m.timestamp = s.newest groupId := newest_zero_or_mem
  rcases hold with h0 | ⟨m, hm, ht⟩
  · rw [h0]
    exact h'.newest_bounds.1
  · obtain ⟨hst, hg⟩ := h.mem_log_iff.1 hm
    rw [← ht]
    exact h'.le_newest (h'.mem_log_iff.2 ⟨hsub m hst, hg⟩)

end LocalMessageStorage

namespace Node
variable {M : OpenMls} {W : Wire} {env : Env} {groupId : String} {n : Node M} {m x : GroupMessage}
  {ms rest : List GroupMessage} {R : LocalMessageStorage}

/-- Each message can be taken when those before it have been. -/
structure Ready (n : Node M) (groupId : String) (ms : List GroupMessage) : Prop where
  fresh : ∀ m ∈ ms, n.storage.hasGroupMessage groupId m.id = false
  distinct : ms.Pairwise fun a b => ¬ Text.HasSuffix (":" ++ b.id) a.key
  opens : n.mls.OpensAll groupId ms

theorem ready_nil : n.Ready groupId [] := ⟨by simp, List.Pairwise.nil, trivial⟩

theorem ready_cons (W : Wire) (hf : env.faults = noFaults) (hg : m.groupId = groupId) : n.Ready groupId (m :: ms) ↔
    n.Taken groupId m ∧ (n.handleSyncedMessage W env groupId m).2.Ready groupId ms := by
  constructor
  · intro h
    obtain ⟨hne, h', ho, hrest⟩ := h.opens
    have htaken : n.Taken groupId m := ⟨h.fresh m List.mem_cons_self, hne, h', ho⟩
    obtain ⟨hs, hmls⟩ := synced_taken hf htaken
    obtain ⟨hhead, htail⟩ := List.pairwise_cons.1 h.distinct
    refine ⟨htaken, fun x hx => ?_, htail, ?_⟩
    · rw [Bool.eq_false_iff, ne_eq, hasGroupMessage_insert hs hg, not_or]
      exact ⟨by rw [h.fresh x (List.mem_cons_of_mem m hx)]; decide, hhead x hx⟩
    · rw [hmls] at ho
      rw [Option.some.inj ho]
      exact hrest
  · rintro ⟨htaken, h⟩
    obtain ⟨hs, hmls⟩ := synced_taken (W := W) hf htaken
    have hfresh (x : GroupMessage) (hx : x ∈ ms) :
        ¬ (n.storage.hasGroupMessage groupId x.id = true ∨ Text.HasSuffix (":" ++ x.id) m.key) := by
      rw [← hasGroupMessage_insert hs hg, h.fresh x hx]
      decide
    refine ⟨fun x hx => ?_, List.pairwise_cons.2 ⟨fun x hx => (not_or.1 (hfresh x hx)).2, h.distinct⟩,
      htaken.2.1, _, hmls, h.opens⟩
    rcases List.mem_cons.1 hx with rfl | hx
    · exact htaken.1
    · exact Bool.eq_false_iff.2 (not_or.1 (hfresh x hx)).1

/-- The messages of a batch, one after the other. -/
def absorb (W : Wire) (env : Env) (groupId : String) (n : Node M) (ms : List GroupMessage) : Node M :=
  ms.foldl (fun n m => (n.handleSyncedMessage W env groupId m).2) n

theorem ready_append (W : Wire) (hf : env.faults = noFaults) (hg : ∀ m ∈ ms, m.groupId = groupId) :
    n.Ready groupId (ms ++ rest) ↔ n.Ready groupId ms ∧ (absorb W env groupId n ms).Ready groupId rest := by
  induction ms generalizing n with
  | nil => exact ⟨fun h => ⟨ready_nil, h⟩, fun h => h.2⟩
  | cons m ms ih =>
    have hm : m.groupId = groupId := hg m List.mem_cons_self
    rw [List.cons_append, ready_cons W hf hm, ready_cons W hf hm, and_assoc]
    exact and_congr_right fun _ => ih fun x hx => hg x (List.mem_cons_of_mem m hx)

/-- What a message of the group does to the storage, taken or not. -/
theorem synced_inOrder (hf : env.faults = noFaults) (h : n.storage.InOrder groupId) (hg : m.groupId = groupId)
    (ht : 0 ≤ m.timestamp ∧ m.timestamp < 2 ^ 63 - 1) :
    (n.handleSyncedMessage W env groupId m).2.storage.InOrder groupId ∧
      ∀ x, n.storage.Stored x → (n.handleSyncedMessage W env groupId m).2.storage.Stored x := by
  by_cases htaken : n.Taken groupId m
  · obtain ⟨hs, -⟩ := synced_taken (W := W) hf htaken
    exact ⟨h.insert hs hg ht, fun x hx => (stored_insert hs hg htaken.1).2 (Or.inl hx)⟩
  · have hs : (n.handleSyncedMessage W env groupId m).2.storage.groupMessages = n.storage.groupMessages :=
      synced_passed htaken
    exact ⟨h.congr hs, fun x hx => by rw [Stored, hs]; exact hx⟩

/-! A batch -/

/-- What a responder may send of a group. -/
def Dated (groupId : String) (ms : List GroupMessage) : Prop :=
  ∀ m ∈ ms, m.groupId = groupId ∧ 0 ≤ m.timestamp ∧ m.timestamp < 2 ^ 63 - 1

theorem Dated.cons (h : Dated groupId (m :: ms)) :
    m.groupId = groupId ∧ (0 ≤ m.timestamp ∧ m.timestamp < 2 ^ 63 - 1) ∧ Dated groupId ms :=
  ⟨(h m List.mem_cons_self).1, (h m List.mem_cons_self).2, fun x hx => h x (List.mem_cons_of_mem m hx)⟩

theorem absorb_inOrder (hf : env.faults = noFaults) (h : n.storage.InOrder groupId) (hd : Dated groupId ms) :
    (absorb W env groupId n ms).storage.InOrder groupId ∧
      ∀ x, n.storage.Stored x → (absorb W env groupId n ms).storage.Stored x := by
  induction ms generalizing n with
  | nil => exact ⟨h, fun _ hx => hx⟩
  | cons m ms ih =>
    obtain ⟨hg, ht, hd⟩ := hd.cons
    obtain ⟨h₁, hsub⟩ := synced_inOrder (W := W) hf h hg ht
    obtain ⟨h₂, hsub₂⟩ := ih h₁ hd
    exact ⟨h₂, fun x hx => hsub₂ x (hsub x hx)⟩

/-- A batch that can be taken is stored beside what there was. -/
theorem absorb_stored (hf : env.faults = noFaults) (hd : Dated groupId ms) (hr : n.Ready groupId ms) :
    (absorb W env groupId n ms).storage.Stored x ↔ n.storage.Stored x ∨ x ∈ ms := by
  induction ms generalizing n with
  | nil => simp [absorb]
  | cons m ms ih =>
    obtain ⟨hg, -, hd⟩ := hd.cons
    obtain ⟨htaken, hr⟩ := (ready_cons W hf hg).1 hr
    obtain ⟨hs, -⟩ := synced_taken (W := W) hf htaken
    show (absorb W env groupId (n.handleSyncedMessage W env groupId m).2 ms).storage.Stored x ↔ _
    rw [ih hd hr, stored_insert hs hg htaken.1, List.mem_cons, or_assoc]

/-! Passed over for good -/

/-- A message that is not stored and cannot be taken. -/
def Refused (n : Node M) (groupId : String) (m : GroupMessage) : Prop := ¬ n.storage.Stored m ∧ ¬ n.Taken groupId m

/-- Neither the storage nor the group comes to take it, by what else is served. -/
theorem Refused.synced (hf : env.faults = noFaults) {bs : List Bytes} (hT : M.ApplicationTraffic bs)
    (hm : m.mlsCiphertext ∈ bs) (hx : x.mlsCiphertext ∈ bs) (hg : x.groupId = groupId) (h : n.Refused groupId m) :
    (n.handleSyncedMessage W env groupId x).2.Refused groupId m := by
  obtain ⟨hst, hnt⟩ := h
  -- what is taken is another message, and leaves known ids known
  have hstore : ¬ (n.handleSyncedMessage W env groupId x).2.storage.Stored m ∧
      (n.storage.hasGroupMessage groupId m.id = true →
        (n.handleSyncedMessage W env groupId x).2.storage.hasGroupMessage groupId m.id = true) := by
    by_cases htaken : n.Taken groupId x
    · obtain ⟨hs, -⟩ := synced_taken (W := W) hf htaken
      refine ⟨?_, fun hhas => (hasGroupMessage_insert hs hg).2 (Or.inl hhas)⟩
      rw [stored_insert hs hg htaken.1, not_or]
      exact ⟨hst, fun hmx => hnt (hmx ▸ htaken)⟩
    · have hs : (n.handleSyncedMessage W env groupId x).2.storage.groupMessages = n.storage.groupMessages :=
        synced_passed htaken
      refine ⟨by rw [Stored, hs]; exact hst, fun hhas => ?_⟩
      rw [hasGroupMessage_iff] at hhas ⊢
      rw [hs]
      exact hhas
  have hclosed (hc : ¬ ∃ h', n.mls.openGroupMessage groupId m.mlsCiphertext = some h') :
      ¬ ∃ h', (n.handleSyncedMessage W env groupId x).2.mls.openGroupMessage groupId m.mlsCiphertext = some h' := by
    rw [MlsGroupHandler.openGroupMessage_iff] at hc ⊢
    rcases n.synced_group W env groupId x with ⟨hgs, hp⟩ | ⟨pm, g, hread, hgx, hg', hp⟩
    · rw [hgs, hp]
      exact hc
    · rintro ⟨g', hget, ho⟩
      rw [hg'] at hget
      obtain rfl := Option.some.inj hget
      rw [hp] at ho
      exact hT _ hm _ hx pm _ g hread (fun ho => hc ⟨g, hgx, ho⟩) ho
  refine ⟨hstore.1, fun ht => hnt ⟨?_, ht.2.1, ?_⟩⟩
  · by_contra hhas
    rw [Bool.not_eq_false] at hhas
    have hhas' := hstore.2 hhas
    rw [ht.1] at hhas'
    cases hhas'
  · by_contra hc
    exact hclosed hc ht.2.2

theorem Refused.absorb (hf : env.faults = noFaults) {bs : List Bytes} (hT : M.ApplicationTraffic bs)
    (hm : m.mlsCiphertext ∈ bs) (hx : ∀ x ∈ ms, x.mlsCiphertext ∈ bs) (hd : Dated groupId ms)
    (h : n.Refused groupId m) : (absorb W env groupId n ms).Refused groupId m := by
  induction ms generalizing n with
  | nil => exact h
  | cons x ms ih =>
    obtain ⟨hg, -, hd⟩ := hd.cons
    exact ih (fun y hy => hx y (List.mem_cons_of_mem x hy)) hd (h.synced hf hT hm (hx x List.mem_cons_self) hg)

/-- A batch of messages that are not stored can be taken, or one of it never is. -/
theorem ready_or_refused (hf : env.faults = noFaults) {bs : List Bytes} (hT : M.ApplicationTraffic bs)
    (hx : ∀ x ∈ ms, x.mlsCiphertext ∈ bs) (hd : Dated groupId ms) (hn : ms.Nodup)
    (hst : ∀ x ∈ ms, ¬ n.storage.Stored x) :
    n.Ready groupId ms ∨ ∃ m ∈ ms, (absorb W env groupId n ms).Refused groupId m := by
  induction ms generalizing n with
  | nil => exact Or.inl ready_nil
  | cons m ms ih =>
    obtain ⟨hg, -, hd⟩ := hd.cons
    obtain ⟨hmem, hn⟩ := List.nodup_cons.1 hn
    have hx' : ∀ x ∈ ms, x.mlsCiphertext ∈ bs := fun x hxm => hx x (List.mem_cons_of_mem m hxm)
    by_cases htaken : n.Taken groupId m
    · obtain ⟨hs, -⟩ := synced_taken (W := W) hf htaken
      have hst' : ∀ x ∈ ms, ¬ (n.handleSyncedMessage W env groupId m).2.storage.Stored x := by
        intro x hxm
        rw [stored_insert hs hg htaken.1, not_or]
        exact ⟨hst x (List.mem_cons_of_mem m hxm), fun he => hmem (he ▸ hxm)⟩
      rcases ih hx' hd hn hst' with hr | ⟨y, hy, hr⟩
      · exact Or.inl ((ready_cons W hf hg).2 ⟨htaken, hr⟩)
      · exact Or.inr ⟨y, List.mem_cons_of_mem m hy, hr⟩
    · have hrefused : n.Refused groupId m := ⟨hst m List.mem_cons_self, htaken⟩
      have hm := hx m List.mem_cons_self
      have hlater : (absorb W env groupId (n.handleSyncedMessage W env groupId m).2 ms).Refused groupId m :=
        (hrefused.synced hf hT hm hm hg).absorb hf hT hm hx' hd
      exact Or.inr ⟨m, List.mem_cons_self, hlater⟩

/-! A round -/

theorem beyondCursor_eq : n.beyondCursor R groupId =
    (R.log groupId).filter fun m => n.storage.newest groupId < m.timestamp := rfl

theorem mem_beyondCursor : m ∈ n.beyondCursor R groupId ↔
    m ∈ R.log groupId ∧ n.storage.newest groupId < m.timestamp := by
  rw [beyondCursor_eq, List.mem_filter, decide_eq_true_iff]

/-- What a round serves. -/
def batch (n : Node M) (R : LocalMessageStorage) (groupId : String) : List GroupMessage :=
  (n.beyondCursor R groupId).take 100

theorem mem_of_mem_batch (h : m ∈ n.batch R groupId) : m ∈ n.beyondCursor R groupId := List.mem_of_mem_take h

theorem dated_log (hR : R.InOrder groupId) : Dated groupId (R.log groupId) :=
  fun _ hm => ⟨(hR.mem_log.1 hm).2, hR.timed_log hm⟩

theorem dated_batch (hR : R.InOrder groupId) : Dated groupId (n.batch R groupId) :=
  fun m hm => dated_log hR m (mem_beyondCursor.1 (mem_of_mem_batch hm)).1

theorem handleSyncReceived_eq (n : Node M) (ms : List GroupMessage) :
    (n.handleSyncReceived W groupId (ms.map (env, ·))).storage = (absorb W env groupId n ms).storage ∧
      (n.handleSyncReceived W groupId (ms.map (env, ·))).mls = (absorb W env groupId n ms).mls := by
  have hfold (k : ℕ) (n : Node M) : ((ms.map (env, ·)).foldl (fun acc x =>
      let r := acc.2.handleSyncedMessage W x.1 groupId x.2
      (if r.1 then acc.1 + 1 else acc.1, r.2)) (k, n)).2 = absorb W env groupId n ms := by
    induction ms generalizing k n with
    | nil => rfl
    | cons m ms ih =>
      rw [List.map_cons, List.foldl_cons]
      exact ih _ _
  unfold handleSyncReceived
  dsimp only
  split
  · rw [emit_storage, emit_mls, hfold]
    exact ⟨rfl, rfl⟩
  · rw [hfold]
    exact ⟨rfl, rfl⟩

/-- A round takes in its batch, and says whether that was full. -/
theorem syncRound_eq (W : Wire) (env : Env) (h : n.storage.InOrder groupId) (hR : R.InOrder groupId) :
    (n.syncRound W env R groupId).1 = decide ((n.batch R groupId).length = 100) ∧
      (n.syncRound W env R groupId).2.storage = (absorb W env groupId n (n.batch R groupId)).storage ∧
      (n.syncRound W env R groupId).2.mls = (absorb W env groupId n (n.batch R groupId)).mls := by
  have hserve : R.fetchGroupSince groupId (n.storage.newest groupId) (effectiveLimit 100) = n.batch R groupId := by
    rw [fetchGroupSince_eq, hR.range_eq h.newest_bounds.1 h.newest_bounds.2]
    rfl
  have hmessages : (R.serveSync groupId (n.storage.newest groupId) 100).messages = n.batch R groupId := hserve
  have hmore : (R.serveSync groupId (n.storage.newest groupId) 100).hasMore =
      decide ((n.batch R groupId).length = 100) := by
    rw [← hserve]
    rfl
  refine ⟨hmore, ?_⟩
  have hround : (n.syncRound W env R groupId).2 = n.handleSyncReceived W
      (((n.batch R groupId).head?.map (·.groupId)).getD "") ((n.batch R groupId).map (env, ·)) := by
    rw [← hmessages]
    rfl
  rw [hround]
  cases hb : n.batch R groupId with
  | nil => exact handleSyncReceived_eq n []
  | cons m ms =>
    have hg : m.groupId = groupId := (dated_batch hR m (hb ▸ List.mem_cons_self)).1
    rw [List.head?_cons, Option.map_some, Option.getD_some, hg]
    exact handleSyncReceived_eq n (m :: ms)

theorem sorted_beyond (hR : R.InOrder groupId) :
    (n.beyondCursor R groupId).Pairwise fun a b => a.timestamp ≤ b.timestamp := hR.sorted_log.filter _

/-- What lies beyond the cursor is not stored. -/
theorem not_stored_beyond (h : n.storage.InOrder groupId) (hR : R.InOrder groupId)
    (hm : m ∈ n.beyondCursor R groupId) : ¬ n.storage.Stored m := by
  intro hst
  obtain ⟨hlog, hlt⟩ := mem_beyondCursor.1 hm
  exact not_le.2 hlt (h.le_newest (h.mem_log_iff.2 ⟨hst, (hR.mem_log.1 hlog).2⟩))

/-- After a batch the cursor is at its last message. -/
theorem newest_absorbed (hf : env.faults = noFaults) (h : n.storage.InOrder groupId) (hR : R.InOrder groupId)
    (hr : n.Ready groupId (n.batch R groupId)) {a : GroupMessage} (ha : (n.batch R groupId).getLast? = some a) :
    (absorb W env groupId n (n.batch R groupId)).storage.newest groupId = a.timestamp := by
  have hd : Dated groupId (n.batch R groupId) := dated_batch hR
  have h' := (absorb_inOrder (W := W) hf h hd).1
  have hstored (x : GroupMessage) := absorb_stored (W := W) (x := x) hf hd hr
  have hmem : a ∈ n.batch R groupId := List.mem_of_getLast? ha
  have hlow := h'.le_newest (h'.mem_log_iff.2 ⟨(hstored a).2 (Or.inr hmem), (hd a hmem).1⟩)
  have hcursor := (mem_beyondCursor.1 (mem_of_mem_batch hmem)).2
  have hnewest : (absorb W env groupId n (n.batch R groupId)).storage.newest groupId = 0 ∨
      ∃ m ∈ (absorb W env groupId n (n.batch R groupId)).storage.log groupId,
        m.timestamp = (absorb W env groupId n (n.batch R groupId)).storage.newest groupId := newest_zero_or_mem
  refine le_antisymm ?_ hlow
  rcases hnewest with h0 | ⟨x, hx, ht⟩
  · rw [h0]
    exact (hd a hmem).2.1
  · rw [← ht]
    obtain ⟨hst, hg⟩ := h'.mem_log_iff.1 hx
    rcases (hstored x).1 hst with hst | hxb
    · exact le_of_lt (lt_of_le_of_lt (h.le_newest (h.mem_log_iff.2 ⟨hst, hg⟩)) hcursor)
    · obtain ⟨init, hinit⟩ := List.getLast?_eq_some_iff.1 ha
      have hsorted : (n.batch R groupId).Pairwise fun a b => a.timestamp ≤ b.timestamp :=
        (sorted_beyond hR).sublist (List.take_sublist _ _)
      rw [hinit] at hsorted hxb
      rcases List.mem_append.1 hxb with hxb | hxb
      · exact (List.pairwise_append.1 hsorted).2.2 x hxb a (List.mem_singleton_self a)
      · rw [List.mem_singleton.1 hxb]

/-- What a batch left over lies beyond the next cursor, if the batch did not end between two messages of one
timestamp. -/
theorem beyond_absorbed (hf : env.faults = noFaults) (h : n.storage.InOrder groupId) (hR : R.InOrder groupId)
    (hr : n.Ready groupId (n.batch R groupId)) {a : GroupMessage} (ha : (n.batch R groupId).getLast? = some a)
    (hcut : ∀ b ∈ (n.beyondCursor R groupId).drop 100, a.timestamp < b.timestamp) :
    (absorb W env groupId n (n.batch R groupId)).beyondCursor R groupId = (n.beyondCursor R groupId).drop 100 := by
  have hcursor := (mem_beyondCursor.1 (mem_of_mem_batch (List.mem_of_getLast? ha))).2
  have hnarrow : (R.log groupId).filter (fun m => a.timestamp < m.timestamp) =
      (n.beyondCursor R groupId).filter fun m => a.timestamp < m.timestamp := by
    rw [beyondCursor_eq, List.filter_filter]
    refine List.filter_congr fun m _ => ?_
    by_cases hm : a.timestamp < m.timestamp
    · simp [hm, lt_trans hcursor hm]
    · simp [hm]
  have hsplit : n.beyondCursor R groupId = n.batch R groupId ++ (n.beyondCursor R groupId).drop 100 :=
    (List.take_append_drop 100 _).symm
  have hbatch : (n.batch R groupId).filter (fun m => a.timestamp < m.timestamp) = [] := by
    rw [List.filter_eq_nil_iff]
    intro m hm
    obtain ⟨init, hinit⟩ := List.getLast?_eq_some_iff.1 ha
    have hsorted : (n.batch R groupId).Pairwise fun a b => a.timestamp ≤ b.timestamp :=
      (sorted_beyond hR).sublist (List.take_sublist _ _)
    rw [hinit] at hsorted hm
    rw [decide_eq_true_iff, not_lt]
    rcases List.mem_append.1 hm with hm | hm
    · exact (List.pairwise_append.1 hsorted).2.2 m hm a (List.mem_singleton_self a)
    · rw [List.mem_singleton.1 hm]
  have hrest : ((n.beyondCursor R groupId).drop 100).filter (fun m => a.timestamp < m.timestamp) =
      (n.beyondCursor R groupId).drop 100 :=
    List.filter_eq_self.2 fun b hb => decide_eq_true (hcut b hb)
  rw [beyondCursor_eq, newest_absorbed hf h hR hr ha, hnarrow, hsplit, List.filter_append, hbatch, ← hsplit, hrest,
    List.nil_append]

/-! All rounds -/

/-- No full batch of the reading ends between two messages of one timestamp. -/
def Parted (ms : List GroupMessage) : Prop :=
  ∀ k a b, ms[100 * (k + 1) - 1]? = some a → ms[100 * (k + 1)]? = some b → a.timestamp < b.timestamp

theorem parted_iff : Parted ms ↔
    (∀ a b, ms[99]? = some a → ms[100]? = some b → a.timestamp < b.timestamp) ∧ Parted (ms.drop 100) := by
  have hshift (k : ℕ) : (ms.drop 100)[100 * (k + 1) - 1]? = ms[100 * (k + 1 + 1) - 1]? ∧
      (ms.drop 100)[100 * (k + 1)]? = ms[100 * (k + 1 + 1)]? := by
    rw [List.getElem?_drop, List.getElem?_drop]
    exact ⟨congrArg (ms[·]?) (by omega), congrArg (ms[·]?) (by omega)⟩
  constructor
  · intro h
    refine ⟨h 0, fun k a b ha hb => h (k + 1) a b ?_ ?_⟩
    · rw [← (hshift k).1]
      exact ha
    · rw [← (hshift k).2]
      exact hb
  · rintro ⟨h0, h⟩ k a b ha hb
    cases k with
    | zero => exact h0 a b ha hb
    | succ k => exact h k a b (by rw [(hshift k).1]; exact ha) (by rw [(hshift k).2]; exact hb)

/-- The end of a full batch. -/
theorem last_of_full (hl : 100 ≤ ms.length) : ∃ a, (ms.take 100).getLast? = some a ∧ ms[99]? = some a := by
  have hlt : 99 < ms.length := by omega
  refine ⟨ms[99], ?_, List.getElem?_eq_getElem hlt⟩
  rw [List.getLast?_take, if_neg (by decide), List.getElem?_eq_getElem hlt]
  rfl

/-- Where the batch ends and a later message stands, the times go up. -/
theorem cut_of_parted (hs : ms.Pairwise fun a b => a.timestamp ≤ b.timestamp) (hp : Parted ms) {a : GroupMessage}
    (ha : ms[99]? = some a) : ∀ b ∈ ms.drop 100, a.timestamp < b.timestamp := by
  intro b hb
  cases hd : ms.drop 100 with
  | nil =>
    rw [hd] at hb
    cases hb
  | cons c rest =>
    have hc : ms[100]? = some c := by
      have hhead : (ms.drop 100)[0]? = some c := by rw [hd]; rfl
      rwa [List.getElem?_drop] at hhead
    have hac := (parted_iff.1 hp).1 a c ha hc
    have hsorted : (c :: rest).Pairwise fun a b => a.timestamp ≤ b.timestamp := hd ▸ hs.sublist (List.drop_sublist _ _)
    rw [hd] at hb
    rcases List.mem_cons.1 hb with rfl | hb
    · exact hac
    · exact lt_of_lt_of_le hac ((List.pairwise_cons.1 hsorted).1 b hb)

/-- The storage and the groups are all that the rest of the rounds reads. -/
theorem Ready.congr {n' : Node M} (h : n.Ready groupId ms) (hs : n'.storage = n.storage) (hm : n'.mls = n.mls) :
    n'.Ready groupId ms :=
  ⟨by rw [hs]; exact h.fresh, h.distinct, by rw [hm]; exact h.opens⟩

theorem beyondCursor_congr {n' : Node M} (hs : n'.storage = n.storage) :
    n'.beyondCursor R groupId = n.beyondCursor R groupId := by
  rw [beyondCursor, beyondCursor, hs]

/-- What holds is stored by the end. -/
theorem complete_of_ready (hf : env.faults = noFaults) (hR : R.InOrder groupId) (h : n.storage.InOrder groupId)
    (hheld : ∀ m ∈ R.log groupId, m.timestamp ≤ n.storage.newest groupId → n.storage.Stored m)
    (hp : Parted (n.beyondCursor R groupId)) (hr : n.Ready groupId (n.beyondCursor R groupId)) :
    ∃ fuel n', syncRounds W env R groupId fuel n = some n' ∧ ∀ m ∈ R.log groupId, n'.storage.Stored m := by
  -- what lies beyond the cursor shrinks by a batch at a time
  induction hn : (n.beyondCursor R groupId).length using Nat.strongRecOn generalizing n with
  | ind l ih =>
    obtain ⟨hmore, hstorage, hmls⟩ := syncRound_eq W env h hR
    have hsplit : n.beyondCursor R groupId = n.batch R groupId ++ (n.beyondCursor R groupId).drop 100 :=
      (List.take_append_drop 100 _).symm
    have hd : Dated groupId (n.batch R groupId) := dated_batch hR
    have hready := hr
    rw [hsplit, ready_append W hf fun m hm => (hd m hm).1] at hready
    obtain ⟨hbatch, hrest⟩ := hready
    obtain ⟨h', hsub⟩ := absorb_inOrder (W := W) hf h hd
    have hstored (x : GroupMessage) := absorb_stored (W := W) (x := x) hf hd hbatch
    by_cases hl : 100 ≤ (n.beyondCursor R groupId).length
    · obtain ⟨a, ha, ha99⟩ := last_of_full hl
      have hcut := cut_of_parted (sorted_beyond hR) hp ha99
      have hbeyond := beyond_absorbed (W := W) hf h hR hbatch ha hcut
      have hbeyond' : (n.syncRound W env R groupId).2.beyondCursor R groupId =
          (n.beyondCursor R groupId).drop 100 := by rw [beyondCursor_congr hstorage, hbeyond]
      have hfull : (n.syncRound W env R groupId).1 = true := by
        rw [hmore, batch, List.length_take, min_eq_left hl]
        decide
      obtain ⟨fuel, n', hrun, hall⟩ := ih ((n.beyondCursor R groupId).drop 100).length
        (by rw [List.length_drop]; omega) (n := (n.syncRound W env R groupId).2) (hstorage ▸ h')
        (fun m hm hle => by
          rw [hstorage] at hle ⊢
          rw [newest_absorbed hf h hR hbatch ha] at hle
          rw [hstored]
          by_cases hcursor : m.timestamp ≤ n.storage.newest groupId
          · exact Or.inl (hheld m hm hcursor)
          · have hmb : m ∈ n.beyondCursor R groupId := mem_beyondCursor.2 ⟨hm, not_le.1 hcursor⟩
            rw [hsplit] at hmb
            rcases List.mem_append.1 hmb with hmb | hmb
            · exact Or.inr hmb
            · exact absurd (hcut m hmb) (not_lt.2 hle))
        (by rw [hbeyond']; exact (parted_iff.1 hp).2)
        (by rw [hbeyond']; exact hrest.congr hstorage hmls)
        (by rw [hbeyond'])
      refine ⟨fuel + 1, n', ?_, hall⟩
      rw [syncRounds, if_pos hfull]
      exact hrun
    · have hlast : (n.syncRound W env R groupId).1 = false := by
        rw [hmore, batch, List.length_take, decide_eq_false_iff_not]
        omega
      refine ⟨1, (n.syncRound W env R groupId).2, ?_, fun m hm => ?_⟩
      · rw [syncRounds, if_neg (by rw [hlast]; decide)]
      · rw [hstorage, hstored]
        by_cases hcursor : m.timestamp ≤ n.storage.newest groupId
        · exact Or.inl (hheld m hm hcursor)
        · have hmb : m ∈ n.beyondCursor R groupId := mem_beyondCursor.2 ⟨hm, not_le.1 hcursor⟩
          rw [batch, List.take_of_length_le (by omega)]
          exact Or.inr hmb

/-! What is passed over stays behind -/

theorem syncRounds_succ {fuel : ℕ} {n' : Node M} (h : syncRounds W env R groupId (fuel + 1) n = some n') :
    ((n.syncRound W env R groupId).1 = false ∧ (n.syncRound W env R groupId).2 = n') ∨
      ((n.syncRound W env R groupId).1 = true ∧
        syncRounds W env R groupId fuel (n.syncRound W env R groupId).2 = some n') := by
  rw [syncRounds] at h
  split_ifs at h with hmore
  · exact Or.inr ⟨hmore, h⟩
  · exact Or.inl ⟨Bool.eq_false_iff.2 hmore, Option.some.inj h⟩

/-- What a round keeps, all rounds keep. -/
theorem syncRounds_keep {P : Node M → Prop} (hstep : ∀ n, P n → P (n.syncRound W env R groupId).2) {fuel : ℕ}
    {n' : Node M} (h : P n) (hrun : syncRounds W env R groupId fuel n = some n') : P n' := by
  induction fuel generalizing n with
  | zero => cases hrun
  | succ fuel ih =>
    rcases syncRounds_succ hrun with ⟨-, rfl⟩ | ⟨-, hrun⟩
    · exact hstep n h
    · exact ih (hstep n h) hrun

/-- Nothing is stored that was not served. -/
theorem absorb_sub (hf : env.faults = noFaults) (hd : Dated groupId ms)
    (hx : (absorb W env groupId n ms).storage.Stored x) : n.storage.Stored x ∨ x ∈ ms := by
  induction ms generalizing n with
  | nil => exact Or.inl hx
  | cons m ms ih =>
    obtain ⟨hg, -, hd⟩ := hd.cons
    rcases ih hd hx with hst | hxm
    · by_cases htaken : n.Taken groupId m
      · obtain ⟨hs, -⟩ := synced_taken (W := W) hf htaken
        rcases (stored_insert hs hg htaken.1).1 hst with hst | rfl
        · exact Or.inl hst
        · exact Or.inr List.mem_cons_self
      · have hs : (n.handleSyncedMessage W env groupId m).2.storage.groupMessages = n.storage.groupMessages :=
          synced_passed htaken
        rw [Stored, hs] at hst
        exact Or.inl hst
    · exact Or.inr (List.mem_cons_of_mem m hxm)

/-- What lies behind the cursor is never served. -/
theorem missed_behind (hf : env.faults = noFaults) (hR : R.InOrder groupId) (h : n.storage.InOrder groupId)
    (hle : m.timestamp ≤ n.storage.newest groupId) (hst : ¬ n.storage.Stored m) {fuel : ℕ} {n' : Node M}
    (hrun : syncRounds W env R groupId fuel n = some n') : ¬ n'.storage.Stored m := by
  refine (syncRounds_keep (P := fun n : Node M => n.storage.InOrder groupId ∧
    m.timestamp ≤ n.storage.newest groupId ∧ ¬ n.storage.Stored m) ?_ ⟨h, hle, hst⟩ hrun).2.2
  rintro n ⟨h, hle, hst⟩
  have hd : Dated groupId (n.batch R groupId) := dated_batch hR
  obtain ⟨h', hsub⟩ := absorb_inOrder (W := W) hf h hd
  rw [(syncRound_eq W env h hR).2.1]
  refine ⟨h', le_trans hle (h.newest_mono h' hsub), fun hst' => ?_⟩
  rcases absorb_sub hf hd hst' with hst' | hmb
  · exact hst hst'
  · exact not_lt.2 hle (mem_beyondCursor.1 (mem_of_mem_batch hmb)).2

theorem Refused.rounds (hf : env.faults = noFaults) (hR : R.InOrder groupId) (h : n.storage.InOrder groupId)
    (hT : M.ApplicationTraffic ((R.log groupId).map (·.mlsCiphertext))) (hm : m ∈ R.log groupId)
    (hr : n.Refused groupId m) {fuel : ℕ} {n' : Node M} (hrun : syncRounds W env R groupId fuel n = some n') :
    n'.Refused groupId m := by
  refine (syncRounds_keep (P := fun n : Node M => n.storage.InOrder groupId ∧ n.Refused groupId m) ?_ ⟨h, hr⟩ hrun).2
  rintro n ⟨h, hr⟩
  have hd : Dated groupId (n.batch R groupId) := dated_batch hR
  obtain ⟨-, hstorage, hmls⟩ := syncRound_eq W env h hR
  have hserved : ∀ x ∈ n.batch R groupId, x.mlsCiphertext ∈ (R.log groupId).map (·.mlsCiphertext) :=
    fun x hx => List.mem_map_of_mem (mem_beyondCursor.1 (mem_of_mem_batch hx)).1
  have hr' := hr.absorb (W := W) hf hT (List.mem_map_of_mem hm) hserved hd
  refine ⟨hstorage ▸ (absorb_inOrder hf h hd).1, ?_⟩
  rw [Refused, Taken, hstorage, hmls]
  exact hr'

/-- Where everything is stored by the end, everything could be taken, and no batch parted a timestamp. -/
theorem ready_of_complete (hf : env.faults = noFaults) (hR : R.InOrder groupId) (h : n.storage.InOrder groupId)
    (hT : M.ApplicationTraffic ((R.log groupId).map (·.mlsCiphertext))) {fuel : ℕ} {n' : Node M}
    (hrun : syncRounds W env R groupId fuel n = some n') (hall : ∀ m ∈ R.log groupId, n'.storage.Stored m) :
    Parted (n.beyondCursor R groupId) ∧ n.Ready groupId (n.beyondCursor R groupId) := by
  induction fuel generalizing n with
  | zero => cases hrun
  | succ fuel ih =>
    obtain ⟨hmore, hstorage, hmls⟩ := syncRound_eq W env h hR
    have hd : Dated groupId (n.batch R groupId) := dated_batch hR
    have hlog (m : GroupMessage) (hm : m ∈ n.batch R groupId) : m ∈ R.log groupId :=
      (mem_beyondCursor.1 (mem_of_mem_batch hm)).1
    have h' : (n.syncRound W env R groupId).2.storage.InOrder groupId := hstorage ▸ (absorb_inOrder hf h hd).1
    have hnodup : (n.beyondCursor R groupId).Nodup := hR.nodup_log.filter _
    have hsplit : n.beyondCursor R groupId = n.batch R groupId ++ (n.beyondCursor R groupId).drop 100 :=
      (List.take_append_drop 100 _).symm
    have hbatch : n.Ready groupId (n.batch R groupId) := by
      rcases ready_or_refused (W := W) hf hT (fun x hx => List.mem_map_of_mem (hlog x hx)) hd
          (hnodup.sublist (List.take_sublist _ _))
          (fun x hx => not_stored_beyond h hR (mem_of_mem_batch hx)) with hr | ⟨m, hm, hr⟩
      · exact hr
      · -- refused after this round, and so at the end
        have hr' : (n.syncRound W env R groupId).2.Refused groupId m := by
          rw [Refused, Taken, hstorage, hmls]
          exact hr
        rcases syncRounds_succ hrun with ⟨-, rfl⟩ | ⟨-, hrun⟩
        · exact (hr'.1 (hall m (hlog m hm))).elim
        · exact ((hr'.rounds hf hR h' hT (hlog m hm) hrun).1 (hall m (hlog m hm))).elim
    rcases syncRounds_succ hrun with ⟨hlast, -⟩ | ⟨hfull, hrun⟩
    · have hl : (n.beyondCursor R groupId).length < 100 := by
        rw [hmore, batch, List.length_take, decide_eq_false_iff_not] at hlast
        omega
      refine ⟨fun k a b _ hb => ?_, ?_⟩
      · obtain ⟨hlt, -⟩ := List.getElem?_eq_some_iff.1 hb
        omega
      · rwa [batch, List.take_of_length_le (by omega)] at hbatch
    · have hl : 100 ≤ (n.beyondCursor R groupId).length := by
        rw [hmore, batch, List.length_take, decide_eq_true_iff] at hfull
        omega
      obtain ⟨a, ha, ha99⟩ := last_of_full hl
      have hnewest : (n.syncRound W env R groupId).2.storage.newest groupId = a.timestamp := by
        rw [hstorage]
        exact newest_absorbed hf h hR hbatch ha
      have hcut : ∀ b ∈ (n.beyondCursor R groupId).drop 100, a.timestamp < b.timestamp := by
        intro b hb
        have hbn : b ∈ n.beyondCursor R groupId := List.mem_of_mem_drop hb
        by_contra hle
        refine missed_behind hf hR h' (hnewest ▸ not_lt.1 hle) (fun hst => ?_) hrun
          (hall b (mem_beyondCursor.1 hbn).1)
        rw [hstorage, absorb_stored hf hd hbatch] at hst
        rcases hst with hst | hbb
        · exact not_stored_beyond h hR hbn hst
        · rw [hsplit] at hnodup
          exact (List.nodup_append.1 hnodup).2.2 b hbb b hb rfl
      have hbeyond : (n.syncRound W env R groupId).2.beyondCursor R groupId =
          (n.beyondCursor R groupId).drop 100 := by
        rw [beyondCursor_congr hstorage]
        exact beyond_absorbed hf h hR hbatch ha hcut
      obtain ⟨hparted, hready⟩ := ih h' hrun
      rw [hbeyond] at hparted hready
      refine ⟨parted_iff.2 ⟨fun c b hc hb => ?_, hparted⟩, ?_⟩
      · rw [ha99] at hc
        obtain rfl := Option.some.inj hc
        refine hcut b (List.mem_of_getElem? (i := 0) ?_)
        rw [List.getElem?_drop]
        exact hb
      · rw [hsplit, ready_append W hf fun m hm => (hd m hm).1]
        exact ⟨hbatch, hready.congr hstorage.symm hmls.symm⟩

/-- For every requester and responder: the rounds end with everything held exactly when nothing is missing behind the
cursor, no full batch ends between two messages of one timestamp, and each message beyond the cursor is new and
readable when it comes. -/
theorem syncComplete_iff (n : Node M) (W : Wire) (env : Env) (responder : LocalMessageStorage) (groupId : String)
    (hf : env.faults = noFaults) (h : n.storage.InOrder groupId) (hR : responder.InOrder groupId)
    (hT : M.ApplicationTraffic ((responder.groupHistory groupId).map (·.mlsCiphertext))) :
    n.SyncComplete W env responder groupId ↔ n.Syncable responder groupId := by
  have hT' : M.ApplicationTraffic ((responder.log groupId).map (·.mlsCiphertext)) := by
    have hsub : ∀ b ∈ (responder.log groupId).map (·.mlsCiphertext),
        b ∈ (responder.groupHistory groupId).map (·.mlsCiphertext) := by
      intro b hb
      obtain ⟨m, hm, rfl⟩ := List.mem_map.1 hb
      exact List.mem_map_of_mem (hR.mem_groupHistory.2 hm)
    exact fun b hb b' hb' => hT b (hsub b hb) b' (hsub b' hb')
  constructor
  · rintro ⟨fuel, n', hrun, hall⟩
    have hall' : ∀ m ∈ responder.log groupId, n'.storage.Stored m := fun m hm => hall m (hR.mem_groupHistory.2 hm)
    obtain ⟨hparted, hready⟩ := ready_of_complete hf hR h hT' hrun hall'
    refine ⟨fun m hm hle => ?_, hparted, hready.fresh, hready.distinct, hready.opens⟩
    by_contra hst
    exact missed_behind hf hR h hle hst hrun (hall m hm)
  · intro hs
    obtain ⟨fuel, n', hrun, hall⟩ := complete_of_ready (W := W) hf hR h
      (fun m hm hle => hs.held m (hR.mem_groupHistory.2 hm) hle) hs.parted ⟨hs.fresh, hs.distinct, hs.opens⟩
    exact ⟨fuel, n', hrun, fun m hm => hall m (hR.mem_groupHistory.1 hm)⟩

end Node
namespace SyncRounds
open IdealMls

/-- On the ideal MLS application messages change nothing. -/
theorem applicationTraffic {bs : List Bytes}
    (h : ∀ b ∈ bs, ∃ id s plaintext, b = messageCodec.enc (.app id s plaintext)) : idealMls.ApplicationTraffic bs := by
  intro b _ b' hb' pm p g hread ho
  obtain ⟨id, s, plaintext, rfl⟩ := h b' hb'
  obtain ⟨msg, hd, ht⟩ := hread
  have hmsg : (.app id s plaintext : Message) = msg := Except.ok.inj ((deserialize_serialize rfl).symm.trans hd)
  subst hmsg
  obtain rfl : (.app id s plaintext : Message) = pm := Except.ok.inj ht
  have hsame : idealMls.receive (.app id s plaintext) p g = (p, g) := by
    unfold OpenMls.receive
    by_cases hin : id = g.id ∧ s ∈ g.members
    · simp [idealMls, hin]
    · simp [idealMls, hin]
  rw [hsame]
  exact ho

def message (id : String) (ts : ℤ) : GroupMessage :=
  { id := id, senderDid := "did:b", groupId := "g", timestamp := ts, type := 0, replyTo := none
    mlsCiphertext := messageCodec.enc (.app "g" "did:b" [1]) }

def store (ms : List GroupMessage) : LocalMessageStorage :=
  ms.foldl (fun s m => (s.storeGroup noFaults m).2) .empty

theorem inOrder_store {ms : List GroupMessage} (h : Node.Dated "g" ms) : (store ms).InOrder "g" := by
  have hfold (s : LocalMessageStorage) (hs : s.InOrder "g") :
      (ms.foldl (fun s m => (s.storeGroup noFaults m).2) s).InOrder "g" := by
    induction ms generalizing s with
    | nil => exact hs
    | cons m ms ih =>
      obtain ⟨hg, ht, h⟩ := h.cons
      exact ih h _ (hs.insert rfl hg ht)
  have hempty (k : String) (m : GroupMessage) : ¬ LocalMessageStorage.empty.groupMessages[k]? = some m := by
    simp [LocalMessageStorage.empty]
  exact hfold .empty ⟨fun k m hm => (hempty k m hm).elim, fun k m hm => (hempty k m hm).elim,
    fun k m hm => (hempty k m hm).elim⟩

theorem dated_message {ms : List GroupMessage} (h : ∀ m ∈ ms, m = message "x" 1 ∨ m = message "y" 2) :
    Node.Dated "g" ms := by
  intro m hm
  rcases h m hm with rfl | rfl
  · exact ⟨rfl, by decide⟩
  · exact ⟨rfl, by decide⟩

/-- `did:a`, in a group with `did:b`, with some of its messages. -/
def requester (ms : List GroupMessage) : Node idealMls :=
  { localDid := "did:a"
    mls := ⟨"did:a", ⟨[], []⟩,
      (∅ : SledTree GroupState).insert "g" ⟨"g", "did:a", 1, ["did:a", "did:b"], [], none, []⟩, ∅⟩
    storage := store ms
    effects := [] }

theorem traffic_message (s : LocalMessageStorage) (h : s.groupHistory "g" = [message "x" 1]) :
    idealMls.ApplicationTraffic ((s.groupHistory "g").map (·.mlsCiphertext)) := by
  rw [h]
  refine applicationTraffic fun b hb => ?_
  rw [List.mem_singleton.1 hb]
  exact ⟨"g", "did:b", [1], rfl⟩

/-- A live message came before the sync: what was missed before it is never asked for. -/
theorem gap_stays : ¬ ∀ (n : Node idealMls) (W : Wire) (env : Env) (responder : LocalMessageStorage)
    (groupId : String),
    env.faults = noFaults → n.storage.InOrder groupId → responder.InOrder groupId →
    idealMls.ApplicationTraffic ((responder.groupHistory groupId).map (·.mlsCiphertext)) →
    n.SyncComplete W env responder groupId := by
  intro h
  have hin : (requester [message "y" 2]).storage.InOrder "g" := inOrder_store (dated_message (by simp))
  have hR : (store [message "x" 1]).InOrder "g" := inOrder_store (dated_message (by simp))
  have hrun : (store [message "x" 1]).groupHistory "g" = [message "x" 1] ∧
      (requester [message "y" 2]).storage.newest "g" = 2 ∧
      (requester [message "y" 2]).storage.groupMessages[(message "x" 1).key]? = none := by decide +kernel
  obtain ⟨hhistory, hnewest, hnone⟩ := hrun
  obtain ⟨fuel, n', hrounds, hall⟩ := h (requester [message "y" 2]) idealWire (IdealGroup.env 0)
    (store [message "x" 1]) "g" rfl hin hR (traffic_message _ hhistory)
  have hst : ¬ (requester [message "y" 2]).storage.Stored (message "x" 1) := by
    rw [Stored, hnone]
    exact fun h => by cases h
  exact Node.missed_behind rfl hR hin (by rw [hnewest]; decide) hst hrounds
    (hall (message "x" 1) (by rw [hhistory]; exact List.mem_singleton_self _))

/-- With nothing of the group yet, the message is served and kept. -/
theorem empty_filled : (requester []).SyncComplete idealWire (IdealGroup.env 0) (store [message "x" 1]) "g" := by
  have hin : (requester []).storage.InOrder "g" := inOrder_store (dated_message (by simp))
  have hR : (store [message "x" 1]).InOrder "g" := inOrder_store (dated_message (by simp))
  have hrun : (store [message "x" 1]).groupHistory "g" = [message "x" 1] ∧
      ((requester []).storage.latestGroupTimestamp "g").getD 0 = 0 ∧
      (requester []).beyondCursor (store [message "x" 1]) "g" = [message "x" 1] ∧
      (requester []).storage.hasGroupMessage "g" "x" = false ∧ (message "x" 1).mlsCiphertext ≠ [] ∧
      ((requester []).mls.openGroupMessage "g" (message "x" 1).mlsCiphertext).isSome = true := by decide +kernel
  obtain ⟨hhistory, hnewest, hbeyond, hnew, hne, hopen⟩ := hrun
  obtain ⟨h', ho⟩ := Option.isSome_iff_exists.1 hopen
  refine (Node.syncComplete_iff (requester []) idealWire (IdealGroup.env 0) (store [message "x" 1]) "g" rfl hin hR
    (traffic_message _ hhistory)).2 ⟨?_, ?_, ?_, ?_, ?_⟩
  · intro m hm hle
    rw [hhistory] at hm
    rw [List.mem_singleton.1 hm, hnewest] at hle
    exact absurd hle (by decide)
  · intro k a b _ hb
    rw [hbeyond] at hb
    obtain ⟨hlt, -⟩ := List.getElem?_eq_some_iff.1 hb
    rw [List.length_singleton] at hlt
    omega
  · intro m hm
    rw [hbeyond] at hm
    rw [List.mem_singleton.1 hm]
    exact hnew
  · rw [hbeyond]
    exact List.pairwise_singleton _ _
  · rw [hbeyond]
    exact ⟨hne, h', ho, trivial⟩

end SyncRounds
end Variance
