import Variance.Proofs.Conversations
import Variance.Spec.Conversations

/-! A conversation is reported unread by the latest of its timestamps, which others set, so that the flags are right just
where those agree with the order in which messages are received and conversations opened. -/

namespace Variance

open Text

theorem IsDid.beginning {d : Did} (h : IsDid d) : HasPrefix "did:" d := by
  obtain ⟨method, id, rfl, -, -⟩ := h
  exact ((hasPrefix_append _ _).append _).append _

namespace LocalMessageStorage
variable {s : LocalMessageStorage} {f : Faults} {a b : Did} {g key : String} {now : ℤ}

/-! The last read times -/

theorem lastReadKey_inj : lastReadKey a b = lastReadKey a g ↔ b = g := append_right_inj

theorem groupLastReadKey_inj : groupLastReadKey a g = groupLastReadKey a key ↔ g = key := append_right_inj

/-- A group's last read time lies where that of a peer would whose DID is none. -/
theorem lastReadKey_eq_group : lastReadKey a b = groupLastReadKey a g ↔ b = "group::" ++ g := by
  have hsplit : groupLastReadKey a g = lastReadKey a ("group::" ++ g) := by
    rw [← String.toList_inj]
    simp [groupLastReadKey, lastReadKey, String.toList_append]
  rw [hsplit, lastReadKey_inj]

theorem lastRead_storeLastReadAt : (s.storeLastReadAt f a b now).2.lastRead a g =
    if b = g ∧ f "last_read_at" (lastReadKey a b) = false then now else s.lastRead a g := by
  unfold lastRead fetchLastReadAt storeLastReadAt
  dsimp only
  rw [get_treeInsert]
  simp only [lastReadKey_inj]
  split_ifs
  · rfl
  · rfl

theorem groupLastRead_storeGroupLastReadAt : (s.storeGroupLastReadAt f a g now).2.groupLastRead a key =
    if g = key ∧ f "last_read_at" (groupLastReadKey a g) = false then now else s.groupLastRead a key := by
  unfold groupLastRead fetchGroupLastReadAt storeGroupLastReadAt
  dsimp only
  rw [get_treeInsert]
  simp only [groupLastReadKey_inj]
  split_ifs
  · rfl
  · rfl

/-- Two texts do not begin with each of two that differ in their fourth character. -/
theorem not_group_of_did (h : HasPrefix "did:" b) : b ≠ "group::" ++ g := by
  rintro rfl
  obtain ⟨rest, hrest⟩ := h
  rw [String.toList_append] at hrest
  cases hrest

theorem groupLastRead_storeLastReadAt (h : HasPrefix "did:" b) :
    (s.storeLastReadAt f a b now).2.groupLastRead a g = s.groupLastRead a g := by
  unfold groupLastRead fetchGroupLastReadAt storeLastReadAt
  dsimp only
  rw [get_treeInsert, if_neg]
  rintro ⟨hkey, -⟩
  exact not_group_of_did h (lastReadKey_eq_group.1 hkey)

theorem lastRead_storeGroupLastReadAt (h : HasPrefix "did:" b) :
    (s.storeGroupLastReadAt f a g now).2.lastRead a b = s.lastRead a b := by
  unfold lastRead fetchLastReadAt storeGroupLastReadAt
  dsimp only
  rw [get_treeInsert, if_neg]
  rintro ⟨hkey, -⟩
  exact not_group_of_did h (lastReadKey_eq_group.1 hkey.symm)

theorem parseDirectKey_beginning {p : String × ℤ} (h : parseDirectKey key = some p) : HasPrefix p.1 key := by
  unfold parseDirectKey at h
  split at h
  · cases h
  · rename_i beforeId id hid
    obtain ⟨q, hq, hp⟩ := Option.bind_eq_some_iff.1 h
    obtain ⟨t, -, rfl⟩ := Option.map_eq_some_iff.1 hp
    rw [(rsplitOnce_some hid).1, (rsplitOnce_some hq).1]
    exact ((((hasPrefix_append _ _).append _).append _).append _)

/-- Of two beginnings, the one with more colons is the longer. -/
theorem did_of_colons {x y : String} (hx : HasPrefix x y) (hy : HasPrefix "did:" y) (h : 2 ≤ colons x) :
    HasPrefix "did:" x := by
  rcases List.prefix_or_prefix_of_prefix hy hx with hp | hp
  · exact hp
  · have hle : colons x ≤ colons "did:" := hp.sublist.count_le ':'
    have hone : colons "did:" = 1 := rfl
    omega

/-- Whoever a key names is called as DIDs are. -/
theorem beginning_of_named {m : DirectMessage} (hs : IsDid m.senderDid) (hr : IsDid m.recipientDid) (ha : IsDid a)
    {x : Did × ℤ} (h : namedByKey a m.key = some x) : HasPrefix "did:" x.1 := by
  obtain ⟨p, hp, hpeer, -⟩ := namedByKey_some.1 h
  have hcount : 2 ≤ colons x.1 := by
    have hkey := (parseDirectKey_some hp).1
    have hcolon : colons ":" = 1 := rfl
    rw [DirectMessage.key, directKey, colons_append, colons_append, colons_append, colons_append, colons_conversationId,
      colons_peerDid hpeer, colons_of_notMem (colon_notMem_pad20 _), hs.colons, hr.colons, ha.colons] at hkey
    omega
  obtain ⟨u, v, hu, hv, htail⟩ : ∃ u v, IsDid u ∧ IsDid v ∧
      m.key = u ++ ":" ++ (v ++ (":" ++ pad20 m.timestamp ++ ":" ++ m.id)) := by
    rcases conversationId_cases m.senderDid m.recipientDid with hc | hc
    · exact ⟨_, _, hs, hr, by simp only [DirectMessage.key, directKey, hc, String.append_assoc]⟩
    · exact ⟨_, _, hr, hs, by simp only [DirectMessage.key, directKey, hc, String.append_assoc]⟩
  have hbegin := parseDirectKey_beginning hp
  rcases peerDid_some hpeer with hx | hx
  · -- the local DID is the first of the two, and the rest begins with the second
    rw [hx, htail] at hbegin
    have hau : a = u := beginning_unique (ha.colons.trans hu.colons.symm) ((hasPrefix_append _ x.1).trans hbegin)
      (hasPrefix_append _ _)
    subst hau
    unfold HasPrefix at hbegin
    rw [String.toList_append, String.toList_append (s := a ++ ":"), List.prefix_append_right_inj] at hbegin
    exact did_of_colons hbegin (hv.beginning.append _) hcount
  · rw [hx, htail] at hbegin
    refine did_of_colons (((hasPrefix_append _ _).append _).trans hbegin) ?_ hcount
    exact (hu.beginning.append _).append _

/-! The latest message of a group -/

theorem storeGroup_groupMessages {m : GroupMessage} : (s.storeGroup f m).2.groupMessages =
    (treeInsert f "group_messages" m.key m s.groupMessages).2 := rfl

theorem fetchGroupLatest_last {m : GroupMessage} (hf : f "group_messages" m.key = false)
    (hpre : HasPrefix (g ++ ":") m.key) (hlast : ∀ e ∈ scanPrefix (g ++ ":") s.groupMessages, e.1 ≤ m.key) :
    (s.storeGroup f m).2.fetchGroupLatest g = some m := by
  unfold fetchGroupLatest
  rw [storeGroup_groupMessages, treeInsert_ok hf]
  have hget : (scanPrefix (g ++ ":") (s.groupMessages.insert m.key m)).getLast? = some (m.key, m) := by
    rw [getLast_scanPrefix_iff]
    refine ⟨mem_scanPrefix.2 ⟨by simp, hpre⟩, fun e he => ?_⟩
    obtain ⟨hget, hp⟩ := mem_scanPrefix.1 he
    rw [get_insert] at hget
    split_ifs at hget with hk
    · exact le_of_eq hk.symm
    · exact hlast e (mem_scanPrefix.2 ⟨hget, hp⟩)
  dsimp only
  rw [hget]
  rfl

theorem fetchGroupLatest_other {m : GroupMessage}
    (h : HasPrefix (g ++ ":") m.key → ∃ e ∈ scanPrefix (g ++ ":") s.groupMessages, m.key < e.1) :
    (s.storeGroup f m).2.fetchGroupLatest g = s.fetchGroupLatest g := by
  unfold fetchGroupLatest
  rw [storeGroup_groupMessages]
  by_cases hf : f "group_messages" m.key = true
  · rw [treeInsert_error hf]
  · rw [treeInsert_ok (Bool.eq_false_iff.2 hf)]
    dsimp only
    by_cases hpre : HasPrefix (g ++ ":") m.key
    · obtain ⟨e, he, hlt⟩ := h hpre
      obtain ⟨last, hlast⟩ : ∃ last, (scanPrefix (g ++ ":") s.groupMessages).getLast? = some last :=
        Option.ne_none_iff_exists'.1 fun hnone => by
          rw [List.getLast?_eq_none_iff.1 hnone] at he
          cases he
      obtain ⟨hmem, hle⟩ := getLast_scanPrefix_iff.1 hlast
      have hkey : m.key < last.1 := lt_of_lt_of_le hlt (hle e he)
      have hafter : (scanPrefix (g ++ ":") (s.groupMessages.insert m.key m)).getLast? = some last := by
        rw [getLast_scanPrefix_iff]
        obtain ⟨hget, hp⟩ := mem_scanPrefix.1 hmem
        refine ⟨mem_scanPrefix.2 ⟨by rw [get_insert, if_neg hkey.ne, hget], hp⟩, fun e' he' => ?_⟩
        obtain ⟨hget', hp'⟩ := mem_scanPrefix.1 he'
        rw [get_insert] at hget'
        split_ifs at hget' with hk
        · exact hk ▸ hkey.le
        · exact hle e' (mem_scanPrefix.2 ⟨hget', hp'⟩)
      rw [hafter, hlast]
    · rw [scanPrefix_insert_of_not hpre]

end LocalMessageStorage

namespace UnreadWorld
open LocalMessageStorage
variable {w : UnreadWorld} {f : Faults} {peer : Did} {g key : String}

/-! What is reported -/

/-- The key of a message of another's tells of a time after the conversation was last read. -/
def Unread (w : UnreadWorld) (peer : Did) : Prop :=
  ∃ (k : String) (m : DirectMessage), w.storage.directMessages[k]? = some m ∧ m.senderDid ≠ w.localDid ∧ w.TellsUnread peer k

/-- The latest message of the group is of a time after it was last read. -/
def GroupUnread (w : UnreadWorld) (g : String) : Prop :=
  ∃ m, w.storage.fetchGroupLatest g = some m ∧ w.storage.groupLastRead w.localDid g < m.timestamp

theorem unread_iff_named : w.Unread peer ↔
    ∃ t ∈ namedTimes w.localDid peer (byOthers w.localDid w.storage.directMessages.toList),
      w.storage.lastRead w.localDid peer < t := by
  constructor
  · rintro ⟨k, m, hm, hothers, t, hname, hlt⟩
    refine ⟨t, mem_namedTimes.2 ⟨(k, m), List.mem_filter.2 ⟨(mem_iter _).2 hm, decide_eq_true hothers⟩, hname⟩, hlt⟩
  · rintro ⟨t, ht, hlt⟩
    obtain ⟨e, he, hname⟩ := mem_namedTimes.1 ht
    obtain ⟨he, hothers⟩ := List.mem_filter.1 he
    exact ⟨e.1, e.2, (mem_iter _).1 he, of_decide_eq_true hothers, t, hname, hlt⟩

variable {iterated : List (Did × ℤ × Option ℤ) → List (Did × ℤ × Option ℤ)}

theorem reported_iff (hiter : ∀ l, (iterated l).Perm l) :
    (∃ c ∈ w.storage.listConversations iterated w.localDid, c.peerDid = peer ∧ c.hasUnread = true) ↔ w.Unread peer := by
  rw [unread_iff_named, ← Maxima.lt_max?_iff]
  constructor
  · rintro ⟨c, hc, rfl, hunread⟩
    obtain ⟨⟨p, latest, others⟩, hmem, rfl⟩ := List.mem_map.1 hc
    obtain ⟨-, hothers⟩ := summary_some.1 ((mem_listDirectConversations hiter).1 hmem)
    cases others with
    | none => cases hunread
    | some ts => exact ⟨ts, hothers, of_decide_eq_true hunread⟩
  · rintro ⟨ts, hts, hlt⟩
    have hlisted : ∃ latest, (namedTimes w.localDid peer w.storage.directMessages.toList).max? = some latest := by
      refine Option.ne_none_iff_exists'.1 fun hnone => ?_
      rw [namedTimes_byOthers (List.max?_eq_none_iff.1 hnone)] at hts
      cases hts
    obtain ⟨latest, hlatest⟩ := hlisted
    have hmem : (peer, latest, some ts) ∈ w.storage.listDirectConversations iterated w.localDid :=
      (mem_listDirectConversations hiter).2 (summary_some.2 ⟨hlatest, hts⟩)
    exact ⟨_, List.mem_map.2 ⟨_, hmem, rfl⟩, rfl, decide_eq_true hlt⟩

theorem groupHasUnread_iff : w.storage.groupHasUnread w.localDid g = true ↔ w.GroupUnread g := by
  unfold groupHasUnread GroupUnread
  cases w.storage.fetchGroupLatest g with
  | none => simp
  | some m => simp

theorem flagged_iff : w.Flagged ↔
    (∀ peer, w.Unread peer ↔ w.fresh peer = true) ∧ ∀ g ∈ w.groupIds, (w.GroupUnread g ↔ w.groupFresh g = true) := by
  constructor
  · intro h
    refine ⟨fun peer => ?_, fun g hg => ?_⟩
    · have hsame : ∀ l : List (Did × ℤ × Option ℤ), (id l).Perm l := fun l => List.Perm.refl l
      exact (reported_iff hsame).symm.trans (h.direct id hsame peer)
    · rw [← groupHasUnread_iff, h.group g hg]
  · rintro ⟨hd, hgroup⟩
    refine ⟨fun iterated hiter peer => (reported_iff hiter).trans (hd peer), fun g hg => ?_⟩
    rw [Bool.eq_iff_iff, groupHasUnread_iff]
    exact hgroup g hg

/-! What every run keeps -/

/-- The direct messages are between DIDs and lie under their keys, and what is fresh is a DID's. -/
structure Sane (w : UnreadWorld) : Prop where
  did : IsDid w.localDid
  stored : ∀ (k : String) (m : DirectMessage), w.storage.directMessages[k]? = some m →
    m.key = k ∧ IsI64 m.timestamp ∧ IsDid m.senderDid ∧ IsDid m.recipientDid
  fresh : ∀ peer, w.fresh peer = true → IsDid peer

theorem isDid_of_chat {m : DirectMessage} (hs : IsDid m.senderDid) (hr : IsDid m.recipientDid)
    (h : m.chat = .direct s(w.localDid, peer)) : IsDid peer := by
  rcases Sym2.eq_iff.1 (Chat.direct.inj h) with ⟨-, rfl⟩ | ⟨rfl, -⟩
  · exact hr
  · exact hs

theorem Sane.next (h : w.Sane) {e : UnreadStep} (ht : e.Typed) : (w.next e).Sane := by
  cases e with
  | direct f m =>
    refine ⟨h.did, fun k m' hm' => ?_, fun peer hp => ?_⟩
    · rcases get_treeInsert_some hm' with ⟨hk, rfl⟩ | hm'
      · exact ⟨hk, ht.1, ht.2⟩
      · exact h.stored k m' hm'
    · rcases Bool.or_eq_true_iff.1 hp with hp | hp
      · exact h.fresh peer hp
      · exact isDid_of_chat ht.2.1 ht.2.2 (of_decide_eq_true hp).2
  | group f m => exact ⟨h.did, h.stored, h.fresh⟩
  | sendGroupWs f m => exact ⟨h.did, h.stored, h.fresh⟩
  | openDirect f p now =>
    refine ⟨h.did, h.stored, fun peer hp => h.fresh peer ?_⟩
    have hp : Function.update w.fresh p false peer = true := hp
    rw [Function.update_apply] at hp
    split_ifs at hp
    exact hp
  | openGroup f g now => exact ⟨h.did, h.stored, h.fresh⟩

/-- Only those called as DIDs are told of. -/
theorem Sane.tells (h : w.Sane) {k : String} {m : DirectMessage} (hm : w.storage.directMessages[k]? = some m)
    (ht : w.TellsUnread peer k) : HasPrefix "did:" peer := by
  obtain ⟨t, hname, -⟩ := ht
  obtain ⟨rfl, -, hs, hr⟩ := h.stored k m hm
  exact beginning_of_named hs hr h.did hname

/-- A change of what else is stored, the last read times of DIDs apart. -/
theorem Sane.unread_congr (h : w.Sane) (w' : UnreadWorld) (hl : w'.localDid = w.localDid)
    (hd : w'.storage.directMessages = w.storage.directMessages)
    (hr : ∀ p, HasPrefix "did:" p → w'.storage.lastRead w.localDid p = w.storage.lastRead w.localDid p) :
    w'.Unread peer ↔ w.Unread peer := by
  have htells (p : Did) (hp : HasPrefix "did:" p) (k : String) : w'.TellsUnread p k ↔ w.TellsUnread p k := by
    unfold TellsUnread
    rw [hl, hr p hp]
  have hnamed {k : String} {m : DirectMessage} (hm : w.storage.directMessages[k]? = some m)
      (ht : w'.TellsUnread peer k) : HasPrefix "did:" peer := by
    obtain ⟨t, hname, -⟩ := ht
    obtain ⟨rfl, -, hs, hr⟩ := h.stored k m hm
    rw [hl] at hname
    exact beginning_of_named hs hr h.did hname
  unfold Unread
  rw [hd, hl]
  constructor
  · rintro ⟨k, m, hm, hothers, ht⟩
    exact ⟨k, m, hm, hothers, (htells peer (hnamed hm ht) k).1 ht⟩
  · rintro ⟨k, m, hm, hothers, ht⟩
    exact ⟨k, m, hm, hothers, (htells peer (h.tells hm ht) k).2 ht⟩

/-! A direct message -/

theorem UnreadBut.unread (h : w.UnreadBut key peer) : w.Unread peer := by
  obtain ⟨k, m, hm, -, hothers, ht⟩ := h
  exact ⟨k, m, hm, hothers, ht⟩

theorem Unread.cases (h : w.Unread peer) (key : String) : w.UnreadBut key peer ∨ w.TellsUnread peer key := by
  obtain ⟨k, m, hm, hothers, ht⟩ := h
  by_cases hk : k = key
  · exact Or.inr (hk ▸ ht)
  · exact Or.inl ⟨k, m, hm, hk, hothers, ht⟩

theorem next_direct_failing {m : DirectMessage} (hf : f "direct_messages" m.key = true) : w.next (.direct f m) = w := by
  have hkey : directKey m.senderDid m.recipientDid m.timestamp m.id = m.key := rfl
  unfold next storeDirect
  dsimp only
  rw [hkey, treeInsert_error hf]
  simp [hf]

theorem unread_direct {m : DirectMessage} (hf : f "direct_messages" m.key = false) :
    (w.next (.direct f m)).Unread peer ↔
      w.UnreadBut m.key peer ∨ m.senderDid ≠ w.localDid ∧ w.TellsUnread peer m.key := by
  have htree : (w.next (.direct f m)).storage.directMessages = w.storage.directMessages.insert m.key m := by
    have hinsert : (w.next (.direct f m)).storage.directMessages =
        (treeInsert f "direct_messages" m.key m w.storage.directMessages).2 := rfl
    rw [hinsert, treeInsert_ok hf]
  unfold Unread
  rw [htree]
  constructor
  · rintro ⟨k, m', hm', hothers, ht⟩
    rw [get_insert] at hm'
    split_ifs at hm' with hk
    · cases hm'
      exact Or.inr ⟨hothers, hk ▸ ht⟩
    · exact Or.inl ⟨k, m', hm', Ne.symm hk, hothers, ht⟩
  · rintro (⟨k, m', hm', hk, hothers, ht⟩ | ⟨hothers, ht⟩)
    · exact ⟨k, m', by rw [get_insert, if_neg (Ne.symm hk), hm'], hothers, ht⟩
    · exact ⟨m.key, m, by rw [get_insert, if_pos rfl], hothers, ht⟩

/-- Of DIDs, a key names its own conversation's only. -/
theorem chat_of_tells (h : IsDid w.localDid) {m : DirectMessage} (hi : IsI64 m.timestamp) (hs : IsDid m.senderDid)
    (hr : IsDid m.recipientDid) (hp : IsDid peer) (ht : w.TellsUnread peer m.key) :
    m.chat = .direct s(w.localDid, peer) := by
  obtain ⟨t, hname, -⟩ := ht
  by_cases hid : ':' ∈ m.id.toList
  · exact (namedByKey_colon hs hr h hid hname hp).elim
  · exact ((namedByKey_plain hs hr h hi hid).1 hname).1

theorem flagged_direct (h : w.Sane) (hf : w.Flagged) {m : DirectMessage} (ht : (UnreadStep.direct f m).Typed) :
    (w.next (.direct f m)).Flagged ↔ w.Careful (.direct f m) := by
  obtain ⟨hi, hs, hr⟩ := ht
  obtain ⟨hdirect, hgroup⟩ := flagged_iff.1 hf
  by_cases hfail : f "direct_messages" m.key = true
  · rw [next_direct_failing hfail]
    unfold Careful
    simp [hfail, hf]
  · have hok : f "direct_messages" m.key = false := Bool.eq_false_iff.2 hfail
    have hfresh (peer : Did) : (w.next (.direct f m)).fresh peer = true ↔
        w.fresh peer = true ∨ m.senderDid ≠ w.localDid ∧ m.chat = .direct s(w.localDid, peer) := by
      unfold next
      simp [hok]
    have hflags : (w.next (.direct f m)).Flagged ↔ ∀ peer,
        (w.UnreadBut m.key peer ∨ m.senderDid ≠ w.localDid ∧ w.TellsUnread peer m.key ↔
          w.fresh peer = true ∨ m.senderDid ≠ w.localDid ∧ m.chat = .direct s(w.localDid, peer)) := by
      rw [flagged_iff]
      constructor
      · intro hafter peer
        rw [← unread_direct hok, ← hfresh]
        exact hafter.1 peer
      · intro hafter
        refine ⟨fun peer => ?_, hgroup⟩
        rw [unread_direct hok, hfresh]
        exact hafter peer
    rw [hflags]
    unfold Careful CarefulDirect
    dsimp only
    split_ifs with hown
    · -- one of the local user's: nothing gets fresh, and at most a message is replaced
      constructor
      · intro hafter _ peer hp
        rcases (hafter peer).2 (Or.inl hp) with hbut | ⟨hne, -⟩
        · exact hbut
        · exact (hne hown).elim
      · intro hcareful peer
        constructor
        · rintro (hbut | ⟨hne, -⟩)
          · exact Or.inl ((hdirect peer).1 hbut.unread)
          · exact (hne hown).elim
        · rintro (hp | ⟨hne, -⟩)
          · exact Or.inl (hcareful hok peer hp)
          · exact (hne hown).elim
    · constructor
      · intro hafter _
        refine ⟨fun peer hchat => ?_, fun peer htells => ?_⟩
        · rcases (hafter peer).2 (Or.inr ⟨hown, hchat⟩) with hbut | ⟨-, htells⟩
          · exact Or.inl hbut
          · exact Or.inr htells
        · rcases (hafter peer).1 (Or.inr ⟨hown, htells⟩) with hp | ⟨-, hchat⟩
          · exact chat_of_tells h.did hi hs hr (h.fresh peer hp) htells
          · exact hchat
      · intro hcareful peer
        obtain ⟨hown', hothers⟩ := hcareful hok
        constructor
        · rintro (hbut | ⟨-, htells⟩)
          · exact Or.inl ((hdirect peer).1 hbut.unread)
          · exact Or.inr ⟨hown, hothers peer htells⟩
        · rintro (hp | ⟨-, hchat⟩)
          · exact (((hdirect peer).2 hp).cases m.key).imp id fun htells => ⟨hown, htells⟩
          · exact (hown' peer hchat).imp id fun htells => ⟨hown, htells⟩

/-! A message of a group -/

theorem latest_stored {m : GroupMessage} (hf : f "group_messages" m.key = false) (h : w.ComesLast g m.key) :
    (w.storage.storeGroup f m).2.fetchGroupLatest g = some m := fetchGroupLatest_last hf h.1 h.2

theorem latest_kept {m : GroupMessage} (h : ¬ (f "group_messages" m.key = false ∧ w.ComesLast g m.key)) :
    (w.storage.storeGroup f m).2.fetchGroupLatest g = w.storage.fetchGroupLatest g := by
  by_cases hf : f "group_messages" m.key = true
  · have hsame : (w.storage.storeGroup f m).2 = w.storage := by
      have hkey : groupKey m.groupId m.timestamp m.id = m.key := rfl
      unfold storeGroup
      dsimp only
      rw [hkey, treeInsert_error hf]
    rw [hsame]
  · refine fetchGroupLatest_other fun hpre => ?_
    by_contra hnone
    push Not at hnone
    exact h ⟨Bool.eq_false_iff.2 hf, hpre, hnone⟩

/-- What the flag of a group is after a message is stored, the last read time left. -/
theorem groupUnread_stored (s' : LocalMessageStorage) {m : GroupMessage}
    (hlatest : s'.fetchGroupLatest g = (w.storage.storeGroup f m).2.fetchGroupLatest g)
    (hread : s'.groupLastRead w.localDid g = w.storage.groupLastRead w.localDid g) :
    (f "group_messages" m.key = false ∧ w.ComesLast g m.key →
      (GroupUnread { w with storage := s' } g ↔ w.storage.groupLastRead w.localDid g < m.timestamp)) ∧
    (¬ (f "group_messages" m.key = false ∧ w.ComesLast g m.key) →
      (GroupUnread { w with storage := s' } g ↔ w.GroupUnread g)) := by
  unfold GroupUnread
  dsimp only
  rw [hlatest, hread]
  constructor
  · rintro ⟨hf, hlast⟩
    rw [latest_stored hf hlast]
    simp
  · intro h
    rw [latest_kept h]

theorem flagged_group (hf : w.Flagged) {m : GroupMessage} :
    (w.next (.group f m)).Flagged ↔ w.Careful (.group f m) := by
  obtain ⟨hdirect, hgroup⟩ := flagged_iff.1 hf
  have hfresh (g : String) : (w.next (.group f m)).groupFresh g = true ↔ w.groupFresh g = true ∨
      (f "group_messages" m.key = false ∧ m.senderDid ≠ w.localDid) ∧ g = m.groupId := by
    unfold next
    simp
  have hunread (g : String) := groupUnread_stored (w := w) (f := f) (g := g) (m := m) (w.storage.storeGroup f m).2 rfl rfl
  have hflags : (w.next (.group f m)).Flagged ↔ ∀ g ∈ w.groupIds,
      (GroupUnread { w with storage := (w.storage.storeGroup f m).2 } g ↔ w.groupFresh g = true ∨
        (f "group_messages" m.key = false ∧ m.senderDid ≠ w.localDid) ∧ g = m.groupId) := by
    rw [flagged_iff]
    constructor
    · intro hafter g hg
      rw [← hfresh]
      exact hafter.2 g hg
    · intro hafter
      refine ⟨hdirect, fun g hg => ?_⟩
      rw [hfresh]
      exact hafter g hg
  rw [hflags]
  unfold Careful CarefulLast
  constructor
  · intro hafter hok
    refine ⟨fun g hg hlast => ?_, fun hg hothers hlast => ?_⟩
    · rw [← (hunread g).1 ⟨hok, hlast⟩, hafter g hg]
      simp [hok]
    · rw [← hgroup _ hg, ← (hunread m.groupId).2 fun hc => hlast hc.2]
      exact (hafter m.groupId hg).2 (Or.inr ⟨⟨hok, hothers⟩, rfl⟩)
  · intro hcareful g hg
    by_cases hlast : f "group_messages" m.key = false ∧ w.ComesLast g m.key
    · rw [(hunread g).1 hlast, (hcareful hlast.1).1 g hg hlast.2]
      simp [hlast.1]
    · rw [(hunread g).2 hlast, hgroup g hg]
      refine ⟨Or.inl, ?_⟩
      rintro (hfresh | ⟨⟨hok, hothers⟩, rfl⟩)
      · exact hfresh
      · exact (hcareful hok).2 hg hothers fun hc => hlast ⟨hok, hc⟩

/-- A message over the WebSocket: stored as another, and the group read up to its time. -/
theorem flagged_sendGroupWs (h : w.Sane) (hf : w.Flagged) {m : GroupMessage} :
    (w.next (.sendGroupWs f m)).Flagged ↔ w.Careful (.sendGroupWs f m) := by
  obtain ⟨hdirect, hgroup⟩ := flagged_iff.1 hf
  have hread (g : String) : (w.next (.sendGroupWs f m)).storage.groupLastRead w.localDid g =
      if m.groupId = g ∧ f "last_read_at" (groupLastReadKey w.localDid m.groupId) = false then m.timestamp
      else w.storage.groupLastRead w.localDid g := groupLastRead_storeGroupLastReadAt
  have hlatest (g : String) : (w.next (.sendGroupWs f m)).storage.fetchGroupLatest g =
      (w.storage.storeGroup f m).2.fetchGroupLatest g := rfl
  have hflags : (w.next (.sendGroupWs f m)).Flagged ↔ ∀ g ∈ w.groupIds,
      ((w.next (.sendGroupWs f m)).GroupUnread g ↔ w.groupFresh g = true) := by
    rw [flagged_iff]
    refine ⟨fun hafter => hafter.2, fun hafter => ⟨fun peer => ?_, hafter⟩⟩
    rw [h.unread_congr (w.next (.sendGroupWs f m)) rfl rfl fun p hp => lastRead_storeGroupLastReadAt hp]
    exact hdirect peer
  -- the group itself, when it is marked
  have hmarked (hm : f "last_read_at" (groupLastReadKey w.localDid m.groupId) = false) :
      (f "group_messages" m.key = false ∧ w.ComesLast m.groupId m.key →
        ¬ (w.next (.sendGroupWs f m)).GroupUnread m.groupId) ∧
      (¬ (f "group_messages" m.key = false ∧ w.ComesLast m.groupId m.key) →
        ((w.next (.sendGroupWs f m)).GroupUnread m.groupId ↔
          ∃ x, w.storage.fetchGroupLatest m.groupId = some x ∧ m.timestamp < x.timestamp)) := by
    have hnow : (w.next (.sendGroupWs f m)).storage.groupLastRead w.localDid m.groupId = m.timestamp := by
      rw [hread, if_pos ⟨rfl, hm⟩]
    unfold GroupUnread
    constructor
    · rintro ⟨hok, hlast⟩ ⟨x, hx, hlt⟩
      rw [hlatest, latest_stored hok hlast] at hx
      cases hx
      exact lt_irrefl _ (hnow ▸ hlt)
    · intro hnot
      rw [hlatest, latest_kept hnot]
      exact exists_congr fun x => and_congr_right fun _ => by rw [← hnow]; rfl
  have hother (g : String) (hg : g = m.groupId → ¬ f "last_read_at" (groupLastReadKey w.localDid m.groupId) = false) :=
    groupUnread_stored (w := w) (f := f) (g := g) (m := m) (w.next (.sendGroupWs f m)).storage (hlatest g)
      ((hread g).trans (if_neg fun hc => hg hc.1.symm hc.2))
  rw [hflags]
  unfold Careful CarefulLast
  dsimp only
  constructor
  · intro hafter
    refine ⟨fun hok g hg hin hlast => ?_, fun hin hm => ⟨fun hlast => ?_, fun hnot => ?_⟩⟩
    · rw [← (hother g hg).1 ⟨hok, hlast⟩]
      exact (hafter g hin).trans (by simp)
    · rw [← Bool.not_eq_true, ← hafter _ hin]
      exact (hmarked hm).1 hlast
    · rw [← hafter _ hin]
      exact (hmarked hm).2 hnot
  · rintro ⟨hstored, hmark⟩ g hin
    by_cases hg : g = m.groupId → ¬ f "last_read_at" (groupLastReadKey w.localDid m.groupId) = false
    · by_cases hlast : f "group_messages" m.key = false ∧ w.ComesLast g m.key
      · exact ((hother g hg).1 hlast).trans ((hstored hlast.1 g hg hin hlast.2).trans (by simp))
      · exact ((hother g hg).2 hlast).trans (hgroup g hin)
    · push Not at hg
      obtain ⟨rfl, hm⟩ := hg
      by_cases hlast : f "group_messages" m.key = false ∧ w.ComesLast m.groupId m.key
      · have hnone := (hmarked hm).1 hlast
        have hfresh := (hmark hin hm).1 hlast
        simp [hnone, hfresh]
      · exact ((hmarked hm).2 hlast).trans ((hmark hin hm).2 hlast).symm

/-! Opening -/

theorem flagged_openDirect (hf : w.Flagged) (hp : IsDid peer) {now : ℤ} :
    (w.next (.openDirect f peer now)).Flagged ↔ w.Careful (.openDirect f peer now) := by
  obtain ⟨hdirect, hgroup⟩ := flagged_iff.1 hf
  have hread (q : Did) : (w.next (.openDirect f peer now)).storage.lastRead w.localDid q =
      if peer = q ∧ f "last_read_at" (lastReadKey w.localDid peer) = false then now
      else w.storage.lastRead w.localDid q := lastRead_storeLastReadAt
  have hothers (q : Did) (hq : peer = q → ¬ f "last_read_at" (lastReadKey w.localDid peer) = false) :
      (w.next (.openDirect f peer now)).Unread q ↔ w.Unread q := by
    have hsame : (w.next (.openDirect f peer now)).storage.lastRead w.localDid q = w.storage.lastRead w.localDid q :=
      (hread q).trans (if_neg fun hc => hq hc.1 hc.2)
    refine exists₂_congr fun k m => and_congr_right fun _ => and_congr_right fun _ => exists_congr fun t =>
      and_congr_right fun _ => ?_
    exact iff_of_eq (congrArg (· < t) hsame)
  have hflags : (w.next (.openDirect f peer now)).Flagged ↔ ¬ (w.next (.openDirect f peer now)).Unread peer := by
    have hfresh (q : Did) : (w.next (.openDirect f peer now)).fresh q = if q = peer then false else w.fresh q :=
      Function.update_apply _ _ _ _
    rw [flagged_iff]
    constructor
    · intro hafter
      rw [hafter.1 peer, hfresh, if_pos rfl]
      exact Bool.false_ne_true
    · intro hafter
      refine ⟨fun q => ?_, fun g hg => ?_⟩
      · rw [hfresh]
        split_ifs with hq
        · subst hq
          simp [hafter]
        · exact (hothers q fun hc => (hq hc.symm).elim).trans (hdirect q)
      · have hsame : (w.next (.openDirect f peer now)).storage.groupLastRead w.localDid g =
            w.storage.groupLastRead w.localDid g := groupLastRead_storeLastReadAt hp.beginning
        refine Iff.trans (exists_congr fun m => and_congr_right fun _ => ?_) (hgroup g hg)
        exact iff_of_eq (congrArg (· < m.timestamp) hsame)
  rw [hflags]
  unfold Careful
  dsimp only
  split_ifs with hfail
  · rw [hothers peer fun _ => by simp [hfail], hdirect, Bool.not_eq_true]
  · have hnow : (w.next (.openDirect f peer now)).storage.lastRead w.localDid peer = now :=
      (hread peer).trans (if_pos ⟨rfl, Bool.eq_false_iff.2 hfail⟩)
    constructor
    · intro hnone k m hm hne t hname
      by_contra hlt
      exact hnone ⟨k, m, hm, hne, t, hname, lt_of_eq_of_lt hnow (not_le.1 hlt)⟩
    · rintro hall ⟨k, m, hm, hne, t, hname, hlt⟩
      exact absurd (hall k m hm hne t hname) (not_le.2 (lt_of_eq_of_lt hnow.symm hlt))

theorem flagged_openGroup (h : w.Sane) (hf : w.Flagged) {now : ℤ} :
    (w.next (.openGroup f g now)).Flagged ↔ w.Careful (.openGroup f g now) := by
  obtain ⟨hdirect, hgroup⟩ := flagged_iff.1 hf
  have hread (g' : String) : (w.next (.openGroup f g now)).storage.groupLastRead w.localDid g' =
      if g = g' ∧ f "last_read_at" (groupLastReadKey w.localDid g) = false then now
      else w.storage.groupLastRead w.localDid g' := groupLastRead_storeGroupLastReadAt
  have hothers (g' : String) (hg : g = g' → ¬ f "last_read_at" (groupLastReadKey w.localDid g) = false) :
      (w.next (.openGroup f g now)).GroupUnread g' ↔ w.GroupUnread g' := by
    have hsame : (w.next (.openGroup f g now)).storage.groupLastRead w.localDid g' =
        w.storage.groupLastRead w.localDid g' := (hread g').trans (if_neg fun hc => hg hc.1 hc.2)
    refine exists_congr fun m => and_congr_right fun _ => ?_
    exact iff_of_eq (congrArg (· < m.timestamp) hsame)
  have hflags : (w.next (.openGroup f g now)).Flagged ↔
      (g ∈ w.groupIds → ¬ (w.next (.openGroup f g now)).GroupUnread g) := by
    have hfresh (g' : String) : (w.next (.openGroup f g now)).groupFresh g' = if g' = g then false else w.groupFresh g' :=
      Function.update_apply _ _ _ _
    rw [flagged_iff]
    constructor
    · intro hafter hin
      rw [hafter.2 g hin, hfresh, if_pos rfl]
      exact Bool.false_ne_true
    · intro hafter
      refine ⟨fun peer => ?_, fun g' hin => ?_⟩
      · rw [h.unread_congr (w.next (.openGroup f g now)) rfl rfl fun p hp => lastRead_storeGroupLastReadAt hp]
        exact hdirect peer
      · rw [hfresh]
        split_ifs with hg
        · subst hg
          simp [hafter hin]
        · exact (hothers g' fun hc => (hg hc.symm).elim).trans (hgroup g' hin)
  rw [hflags]
  refine imp_congr_right fun hin => ?_
  split_ifs with hfail
  · rw [hothers g fun _ => by simp [hfail], hgroup g hin, Bool.not_eq_true]
  · have hnow : (w.next (.openGroup f g now)).storage.groupLastRead w.localDid g = now :=
      (hread g).trans (if_pos ⟨rfl, Bool.eq_false_iff.2 hfail⟩)
    constructor
    · intro hnone m hm
      by_contra hlt
      exact hnone ⟨m, hm, lt_of_eq_of_lt hnow (not_le.1 hlt)⟩
    · rintro hall ⟨m, hm, hlt⟩
      exact absurd (hall m hm) (not_le.2 (lt_of_eq_of_lt hnow.symm hlt))

/-! Runs -/

theorem flagged_next (h : w.Sane) (hf : w.Flagged) {e : UnreadStep} (ht : e.Typed) :
    (w.next e).Flagged ↔ w.Careful e := by
  cases e with
  | direct f m => exact flagged_direct h hf ht
  | group f m => exact flagged_group hf
  | sendGroupWs f m => exact flagged_sendGroupWs h hf
  | openDirect f peer now => exact flagged_openDirect hf ht
  | openGroup f g now => exact flagged_openGroup h hf

/-- In every run the flags are right after each step if and only if each step meets the condition. -/
theorem unread_right_iff {w : UnreadWorld} (hw : unreadSys.init w) (es : List UnreadStep) (ht : ∀ e ∈ es, e.Typed) :
    StepSystem.Guarded unreadSys (fun w e => (w.next e).Flagged) w es ↔ StepSystem.Guarded unreadSys Careful w es := by
  refine StepSystem.guarded_iff_of_proper (I := fun w : UnreadWorld => w.Sane ∧ w.Flagged) (T := UnreadStep.Typed)
    (fun w e hI he => flagged_next hI.1 hI.2 he) (fun w e hI he hg => ⟨hI.1.next he, (flagged_next hI.1 hI.2 he).2 hg⟩) ?_ es ht
  obtain ⟨hs, hl, hfresh, hgroup⟩ := hw
  refine ⟨⟨hl, fun k m hm => ?_, fun peer hp => ?_⟩, flagged_iff.2 ⟨fun peer => ?_, fun g _ => ?_⟩⟩
  · rw [hs] at hm
    simp [LocalMessageStorage.empty] at hm
  · rw [hfresh] at hp
    cases hp
  · rw [hfresh]
    refine iff_of_false ?_ Bool.false_ne_true
    rintro ⟨k, m, hm, -⟩
    rw [hs] at hm
    simp [LocalMessageStorage.empty] at hm
  · rw [hgroup]
    refine iff_of_false ?_ Bool.false_ne_true
    rintro ⟨m, hm, -⟩
    rw [hs, fetchGroupLatest] at hm
    obtain ⟨e, he, -⟩ := Option.map_eq_some_iff.1 hm
    have := (mem_scanPrefix.1 (List.mem_of_getLast? he)).1
    simp [LocalMessageStorage.empty] at this

end UnreadWorld

namespace UnreadFlags
open UnreadWorld LocalMessageStorage

def start : UnreadWorld := ⟨"did:v:a", ["g"], .empty, fun _ => false, fun _ => false⟩

def fromPeer (ts : ℤ) : DirectMessage := Conversations.message "did:v:b" "did:v:a" "x" ts

def inGroup (senderDid : Did) (ts : ℤ) : GroupMessage := { KeyOrder.message "g" "x" ts with senderDid := senderDid }

/-- What is sent over HTTP is reported as unread, and so is what is opened before its time. -/
theorem own_message_unread :
    ¬ StepSystem.Guarded unreadSys (fun w e => (w.next e).Flagged) start [.group noFaults (inGroup "did:v:a" 5)] ∧
    ¬ StepSystem.Guarded unreadSys (fun w e => (w.next e).Flagged) start
      [.direct noFaults (fromPeer 100), .openDirect noFaults "did:v:b" 50] := by
  constructor
  · rintro ⟨h, -⟩
    have hflag := h.group "g" (by decide)
    revert hflag
    decide +kernel
  · rintro ⟨-, h, -⟩
    have hflag := ((flagged_iff.1 h).1 "did:v:b").1
      ⟨(fromPeer 100).key, fromPeer 100, by decide +kernel, by decide, 100, by decide +kernel, by decide +kernel⟩
    revert hflag
    decide +kernel

/-- Two messages, each later than the last time its conversation was opened. -/
def punctual : List UnreadStep :=
  [.direct noFaults (fromPeer 10), .openDirect noFaults "did:v:b" 20, .group noFaults (inGroup "did:v:b" 30),
    .openGroup noFaults "g" 40]

theorem punctual_flagged : StepSystem.Guarded unreadSys (fun w e => (w.next e).Flagged) start punctual := by
  have hname : namedByKey "did:v:a" (fromPeer 10).key = some ("did:v:b", 10) := by decide +kernel
  refine (unread_right_iff ⟨rfl, Conversations.isDid_a, rfl, rfl⟩ punctual ?_).2
    ⟨fun _ => ⟨fun peer hchat => ?_, fun peer htells => ?_⟩, fun k m hm _ t ht => ?_,
      fun _ => ⟨fun g hg _ => ?_, fun _ _ hlast => ?_⟩, fun _ m hm => ?_, trivial⟩
  · intro e he
    simp only [punctual, List.mem_cons, List.not_mem_nil, or_false] at he
    rcases he with rfl | rfl | rfl | rfl
    · exact ⟨by decide, Conversations.isDid_b, Conversations.isDid_a⟩
    · exact Conversations.isDid_b
    · trivial
    · trivial
  · rcases Sym2.eq_iff.1 (Chat.direct.inj hchat) with ⟨hb, -⟩ | ⟨rfl, -⟩
    · exact absurd hb (by decide)
    · exact Or.inr ⟨10, hname, by decide +kernel⟩
  · obtain ⟨t, ht, -⟩ := htells
    cases hname.symm.trans ht
    exact congrArg Chat.direct Sym2.eq_swap
  · have hk : (fromPeer 10).key = k := by
      rcases get_treeInsert_some hm with ⟨hk, -⟩ | hempty
      · exact hk
      · simp [start, LocalMessageStorage.empty] at hempty
    subst hk
    cases hname.symm.trans ht
    decide
  · rw [List.mem_singleton.1 hg]
    exact iff_of_true (by decide +kernel) (Or.inr ⟨by decide, rfl⟩)
  · exact (hlast ⟨by decide +kernel, by decide +kernel⟩).elim
  · have hlatest : (start.next (.group noFaults (inGroup "did:v:b" 30))).storage.fetchGroupLatest "g" =
        some (inGroup "did:v:b" 30) := by
      decide +kernel
    cases hlatest.symm.trans hm
    decide

end UnreadFlags
end Variance
