import Variance.Lib.Maxima
import Variance.Proofs.KeyOrder
import Variance.Spec.Conversations

/-! Two DIDs make an id from which either gives the other; and the list of conversations is right just where no message
whose id has a colon is read as another's, or missed. -/

namespace Variance

open Text

/-! Prefixes and suffixes -/

section
variable {p s r : String}

theorem stripPrefix_append : stripPrefix p (p ++ s) = some s := by
  unfold stripPrefix
  rw [if_pos (hasPrefix_append p s), String.toList_append]
  simp

theorem stripPrefix_some (h : stripPrefix p s = some r) : s = p ++ r := by
  unfold stripPrefix at h
  split_ifs at h with hp
  obtain ⟨rest, hrest⟩ := hp
  cases h
  rw [← String.toList_inj, String.toList_append, ← hrest]
  simp

theorem stripPrefix_none : stripPrefix p s = none ↔ ¬ HasPrefix p s := by
  unfold stripPrefix
  split_ifs with hp <;> simp [hp]

theorem stripSuffix_append : stripSuffix p (s ++ p) = some s := by
  have hsuf : HasSuffix p (s ++ p) := by
    unfold HasSuffix
    rw [String.toList_append]
    exact List.suffix_append _ _
  unfold stripSuffix
  rw [if_pos hsuf, String.toList_append]
  simp

theorem stripSuffix_some (h : stripSuffix p s = some r) : s = r ++ p := by
  unfold stripSuffix at h
  split_ifs at h with hp
  obtain ⟨rest, hrest⟩ := hp
  cases h
  rw [← String.toList_inj, String.toList_append, ← hrest]
  simp

theorem stripSuffix_none : stripSuffix p s = none ↔ ¬ HasSuffix p s := by
  unfold stripSuffix
  split_ifs with hp <;> simp [hp]

end

/-! Two DIDs are told apart by their colons -/

/-- How many colons. -/
def colons (s : String) : ℕ := s.toList.count ':'

theorem colons_append (a b : String) : colons (a ++ b) = colons a + colons b := by
  unfold colons
  rw [String.toList_append, List.count_append]

theorem colons_of_notMem {s : String} (h : ':' ∉ s.toList) : colons s = 0 := List.count_eq_zero_of_not_mem h

theorem IsDid.colons {d : Did} (h : IsDid d) : colons d = 2 := by
  obtain ⟨method, id, rfl, hm, hi⟩ := h
  rw [colons_append, colons_append, colons_append, colons_of_notMem hm, colons_of_notMem hi]
  rfl

variable {a b c d l : Did}

theorem beginning_unique {s : String} (ha : colons a = colons b) (hp : HasPrefix (a ++ ":") s) (hq : HasPrefix (b ++ ":") s) :
    a = b := by
  unfold HasPrefix at hp hq
  rw [String.toList_append] at hp hq
  exact String.toList_inj.1 (append_inj_of_count hp hq ha)

theorem ending_unique {s : String} (ha : colons a = colons b) (hp : HasSuffix (":" ++ a) s) (hq : HasSuffix (":" ++ b) s) :
    a = b := by
  unfold HasSuffix at hp hq
  rw [String.toList_append] at hp hq
  exact String.toList_inj.1 (cons_inj_of_count hp hq ha)

theorem hasSuffix_append (p s : String) : HasSuffix s (p ++ s) := by
  unfold HasSuffix
  rw [String.toList_append]
  exact List.suffix_append _ _

/-- Which two DIDs a text with a colon between is made of. -/
theorem joined_inj (ha : colons a = colons c) (hb : colons b = colons d) (h : a ++ ":" ++ b = c ++ ":" ++ d) :
    a = c ∧ b = d := by
  constructor
  · refine beginning_unique ha (hasPrefix_append _ b) ?_
    rw [h]
    exact hasPrefix_append _ _
  · refine ending_unique hb (s := a ++ ":" ++ b) ?_ ?_
    · rw [String.append_assoc]
      exact hasSuffix_append _ _
    · rw [h, String.append_assoc]
      exact hasSuffix_append _ _

namespace LocalMessageStorage

theorem conversationId_cases (a b : Did) :
    conversationId a b = a ++ ":" ++ b ∨ conversationId a b = b ++ ":" ++ a := by
  unfold conversationId
  split_ifs
  · exact Or.inl rfl
  · exact Or.inr rfl

theorem colons_conversationId (a b : Did) : colons (conversationId a b) = colons a + colons b + 1 := by
  have hcolon : colons ":" = 1 := rfl
  rcases conversationId_cases a b with h | h
  · rw [h, colons_append, colons_append]
    omega
  · rw [h, colons_append, colons_append]
    omega

theorem peerDid_some {conv peer : String} (h : peerDidFromConvId conv l = some peer) :
    conv = l ++ ":" ++ peer ∨ conv = peer ++ ":" ++ l := by
  unfold peerDidFromConvId at h
  split at h
  · rename_i rest heq
    cases h
    exact Or.inl (stripPrefix_some heq)
  · right
    rw [stripSuffix_some h, String.append_assoc]

theorem colons_peerDid {conv peer : String} (h : peerDidFromConvId conv l = some peer) :
    colons conv = colons l + colons peer + 1 := by
  have hcolon : colons ":" = 1 := rfl
  rcases peerDid_some h with rfl | rfl
  · rw [colons_append, colons_append]
    omega
  · rw [colons_append, colons_append]
    omega

/-- From the id of a conversation, either of the two gives the other. -/
theorem peerDid_conversationId (ha : IsDid a) (hb : IsDid b) : peerDidFromConvId (conversationId a b) a = some b := by
  unfold peerDidFromConvId
  rcases conversationId_cases a b with h | h
  · rw [h, stripPrefix_append]
  · rw [h]
    by_cases hab : a = b
    · rw [hab, stripPrefix_append]
    · have hnone : stripPrefix (a ++ ":") (b ++ ":" ++ a) = none := stripPrefix_none.2 fun hp =>
        hab (beginning_unique (ha.colons.trans hb.colons.symm) hp (hasPrefix_append _ _))
      rw [hnone, String.append_assoc]
      exact stripSuffix_append

/-- And nobody else gives anybody. -/
theorem peerDid_iff {peer : String} (ha : IsDid a) (hb : IsDid b) (hl : IsDid l) :
    peerDidFromConvId (conversationId a b) l = some peer ↔ s(a, b) = s(l, peer) := by
  constructor
  · intro h
    have hcount := colons_peerDid h
    rw [colons_conversationId, ha.colons, hb.colons, hl.colons] at hcount
    have hpeer : colons peer = 2 := by omega
    -- whichever of the two comes first
    have hpair {x y : Did} (hx : IsDid x) (hy : IsDid y) (hxy : conversationId a b = x ++ ":" ++ y) :
        s(x, y) = s(l, peer) := by
      rcases peerDid_some h with hlp | hlp
      · obtain ⟨rfl, rfl⟩ :=
          joined_inj (hx.colons.trans hl.colons.symm) (hy.colons.trans hpeer.symm) (hxy.symm.trans hlp)
        rfl
      · obtain ⟨rfl, rfl⟩ :=
          joined_inj (hx.colons.trans hpeer.symm) (hy.colons.trans hl.colons.symm) (hxy.symm.trans hlp)
        exact Sym2.eq_swap
    rcases conversationId_cases a b with hab | hab
    · exact hpair ha hb hab
    · exact Sym2.eq_swap.trans (hpair hb ha hab)
  · intro h
    rcases Sym2.eq_iff.1 h with ⟨rfl, rfl⟩ | ⟨rfl, rfl⟩
    · exact peerDid_conversationId ha hb
    · rw [conversationId_comm]
      exact peerDid_conversationId hb ha

theorem conversationId_inj (ha : IsDid a) (hb : IsDid b) (hc : IsDid c) (hd : IsDid d)
    (h : conversationId a b = conversationId c d) : s(a, b) = s(c, d) := by
  have hpeer := peerDid_conversationId hc hd
  rw [← h] at hpeer
  exact (peerDid_iff ha hb hc).1 hpeer

theorem conversation_ids_apart : ConversationIdsApart where
  symm := conversationId_comm
  peer _ _ ha hb := peerDid_conversationId ha hb
  injective _ _ _ _ ha hb hc hd h := conversationId_inj ha hb hc hd h
  apart a b c d t id ha hb hc hd h := by
    refine conversationId_inj ha hb hc hd (beginning_unique ?_ h ?_)
    · rw [colons_conversationId, colons_conversationId, ha.colons, hb.colons, hc.colons, hd.colons]
    · unfold directKey
      exact ((hasPrefix_append _ _).append _).append _

/-! What the keys name -/

variable {s : LocalMessageStorage} {localDid peer : Did} {entries : List (String × DirectMessage)}

theorem namedByKey_some {key : String} {x : Did × ℤ} : namedByKey localDid key = some x ↔
    ∃ p, parseDirectKey key = some p ∧ peerDidFromConvId p.1 localDid = some x.1 ∧ p.2 = x.2 := by
  unfold namedByKey
  rw [Option.bind_eq_some_iff]
  refine exists_congr fun p => and_congr_right fun _ => ?_
  rw [Option.map_eq_some_iff]
  constructor
  · rintro ⟨_, hpeer, rfl⟩
    exact ⟨hpeer, rfl⟩
  · rintro ⟨hpeer, htime⟩
    exact ⟨x.1, hpeer, by rw [htime]⟩

theorem parseDirectKey_some {key : String} {p : String × ℤ} (h : parseDirectKey key = some p) :
    colons key = colons p.1 + 2 ∧ IsI64 p.2 := by
  have hcolon : colons (String.singleton ':') = 1 := rfl
  unfold parseDirectKey at h
  split at h
  · cases h
  · rename_i beforeId id hid
    obtain ⟨q, hq, hp⟩ := Option.bind_eq_some_iff.1 h
    obtain ⟨t, ht, rfl⟩ := Option.map_eq_some_iff.1 hp
    obtain ⟨rfl, hnone⟩ := rsplitOnce_some hid
    obtain ⟨rfl, hnone'⟩ := rsplitOnce_some hq
    refine ⟨?_, parseI64_bounds ht⟩
    rw [colons_append, colons_append, colons_append, colons_append, colons_of_notMem hnone, colons_of_notMem hnone']
    dsimp only
    omega

/-- A key whose id has no colon names its message's conversation and time. -/
theorem namedByKey_plain {m : DirectMessage} (ha : IsDid m.senderDid) (hb : IsDid m.recipientDid) (hl : IsDid localDid)
    (ht : IsI64 m.timestamp) (hid : ':' ∉ m.id.toList) {x : Did × ℤ} :
    namedByKey localDid m.key = some x ↔ m.chat = .direct s(localDid, x.1) ∧ m.timestamp = x.2 := by
  rw [namedByKey_some]
  have hparse : parseDirectKey m.key = some (conversationId m.senderDid m.recipientDid, m.timestamp) :=
    parseDirectKey_directKey hid ht
  rw [hparse, DirectMessage.chat, Chat.direct.injEq, ← peerDid_iff ha hb hl]
  constructor
  · rintro ⟨p, hp, hpeer, htime⟩
    cases hp
    exact ⟨hpeer, htime⟩
  · rintro ⟨hpeer, htime⟩
    exact ⟨_, rfl, hpeer, htime⟩

/-- A key whose id has one names nobody, or somebody that is no DID. -/
theorem namedByKey_colon {m : DirectMessage} (ha : IsDid m.senderDid) (hb : IsDid m.recipientDid) (hl : IsDid localDid)
    (hid : ':' ∈ m.id.toList) {x : Did × ℤ} (h : namedByKey localDid m.key = some x) : ¬ IsDid x.1 := by
  intro hx
  obtain ⟨p, hp, hpeer, -⟩ := namedByKey_some.1 h
  have hkey := (parseDirectKey_some hp).1
  have hpos : 0 < colons m.id := List.count_pos_iff.2 hid
  have hcolon : colons ":" = 1 := rfl
  rw [DirectMessage.key, directKey, colons_append, colons_append, colons_append, colons_append, colons_conversationId,
    colons_peerDid hpeer, colons_of_notMem (colon_notMem_pad20 _), ha.colons, hb.colons, hl.colons, hx.colons] at hkey
  omega

/-! The table -/

/-- The times that the keys give of a peer. -/
def namedTimes (localDid peer : Did) (entries : List (String × DirectMessage)) : List ℤ :=
  ((entries.filterMap fun e => namedByKey localDid e.1).filter fun x => x.1 = peer).map (·.2)

def byOthers (localDid : Did) (entries : List (String × DirectMessage)) : List (String × DirectMessage) :=
  entries.filter fun e => e.2.senderDid ≠ localDid

/-- What the table says of a peer. -/
def summary (localDid peer : Did) (entries : List (String × DirectMessage)) : Option (ℤ × Option ℤ) :=
  (namedTimes localDid peer entries).max?.map fun latest => (latest, (namedTimes localDid peer (byOthers localDid entries)).max?)

theorem mem_namedTimes {t : ℤ} : t ∈ namedTimes localDid peer entries ↔
    ∃ e ∈ entries, namedByKey localDid e.1 = some (peer, t) := by
  simp [namedTimes]

theorem namedTimes_concat (e : String × DirectMessage) : namedTimes localDid peer (entries ++ [e]) =
    namedTimes localDid peer entries ++ namedTimes localDid peer [e] := by
  simp [namedTimes]

theorem namedTimes_none {e : String × DirectMessage} (h : namedByKey localDid e.1 = none) :
    namedTimes localDid peer [e] = [] := by
  simp [namedTimes, h]

theorem namedTimes_some {e : String × DirectMessage} {x : Did × ℤ} (h : namedByKey localDid e.1 = some x) :
    namedTimes localDid peer [e] = if x.1 = peer then [x.2] else [] := by
  split_ifs with hx <;> simp [namedTimes, h, hx]

theorem namedTimes_others (e : String × DirectMessage) : namedTimes localDid peer (byOthers localDid (entries ++ [e])) =
    namedTimes localDid peer (byOthers localDid entries) ++
      if e.2.senderDid ≠ localDid then namedTimes localDid peer [e] else [] := by
  have hlast : byOthers localDid [e] = if e.2.senderDid ≠ localDid then [e] else [] := by
    unfold byOthers
    split_ifs with h <;> simp [h]
  have hboth : byOthers localDid (entries ++ [e]) = byOthers localDid entries ++ byOthers localDid [e] :=
    List.filter_append _ _
  rw [hboth, hlast]
  split_ifs
  · exact namedTimes_concat e
  · simp

theorem namedTimes_byOthers (h : namedTimes localDid peer entries = []) :
    namedTimes localDid peer (byOthers localDid entries) = [] := by
  refine List.eq_nil_iff_forall_not_mem.2 fun t ht => ?_
  obtain ⟨e, he, hname⟩ := mem_namedTimes.1 ht
  have hmem := mem_namedTimes.2 ⟨e, List.mem_of_mem_filter he, hname⟩
  rw [h] at hmem
  cases hmem

/-- The entry a turn starts from. -/
theorem summary_getD : (summary localDid peer entries).getD (i64Min, none) =
    ((namedTimes localDid peer entries).max?.getD i64Min, (namedTimes localDid peer (byOthers localDid entries)).max?) := by
  unfold summary
  cases hmax : (namedTimes localDid peer entries).max? with
  | none => simp [namedTimes_byOthers (List.max?_eq_none_iff.1 hmax)]
  | some latest => rfl

theorem get_noteConversation {table : SledTree (ℤ × Option ℤ)} {e : String × DirectMessage}
    (h : table[peer]? = summary localDid peer entries) :
    (noteConversation localDid table e)[peer]? = summary localDid peer (entries ++ [e]) := by
  unfold noteConversation
  cases hname : namedByKey localDid e.1 with
  | none =>
    unfold summary
    rw [namedTimes_concat, namedTimes_others, namedTimes_none hname, List.append_nil, ite_self, List.append_nil]
    exact h
  | some x =>
    have hlow : i64Min ≤ x.2 := by
      obtain ⟨p, hp, -, htime⟩ := namedByKey_some.1 hname
      exact htime ▸ (parseDirectKey_some hp).2.1
    dsimp only
    rw [get_insert]
    by_cases hx : x.1 = peer
    · subst hx
      rw [if_pos rfl, h, summary_getD, summary, namedTimes_concat, namedTimes_others, namedTimes_some hname, if_pos rfl,
        Maxima.max?_concat hlow]
      dsimp only [Option.map_some]
      by_cases hs : e.2.senderDid = localDid
      · rw [if_neg (not_not.2 hs), if_neg (not_not.2 hs), List.append_nil]
      · rw [if_pos hs, if_pos hs, Maxima.max?_concat hlow]
    · rw [if_neg hx, h, summary, summary, namedTimes_concat, namedTimes_others, namedTimes_some hname, if_neg hx, ite_self,
        List.append_nil, List.append_nil]

/-- The table, whatever the order of the scan. -/
theorem get_conversations (entries : List (String × DirectMessage)) (peer : Did) :
    (entries.foldl (noteConversation localDid) ∅)[peer]? = summary localDid peer entries := by
  induction entries using List.reverseRecOn with
  | nil => rfl
  | append_singleton entries e ih =>
    rw [List.foldl_concat]
    exact get_noteConversation ih

/-! The list -/

variable {iterated : List (Did × ℤ × Option ℤ) → List (Did × ℤ × Option ℤ)}

theorem mem_listDirectConversations (hiter : ∀ l, (iterated l).Perm l) {c : Did × ℤ × Option ℤ} :
    c ∈ s.listDirectConversations iterated localDid ↔ summary localDid c.1 s.directMessages.toList = some c.2 := by
  rw [listDirectConversations, List.mem_mergeSort, (hiter _).mem_iff, mem_iter, get_conversations]

theorem listed_once (hiter : ∀ l, (iterated l).Perm l) :
    ((s.listDirectConversations iterated localDid).map (·.1)).Nodup := by
  have hperm := (List.mergeSort_perm (iterated (s.directMessages.toList.foldl (noteConversation localDid) ∅).toList)
    fun a b => decide (b.2.1 ≤ a.2.1)).trans (hiter _)
  refine (hperm.map (·.1)).nodup_iff.2 (List.Pairwise.map _ (fun a b hlt => ?_) (keys_sorted _))
  exact ne_of_lt hlt

theorem listed_newestFirst :
    (s.listDirectConversations iterated localDid).Pairwise fun a b => b.2.1 ≤ a.2.1 := by
  have hsorted : (s.listDirectConversations iterated localDid).Pairwise fun a b => decide (b.2.1 ≤ a.2.1) = true := by
    apply List.pairwise_mergeSort
    · intro a b c hab hbc
      simp only [decide_eq_true_eq] at hab hbc ⊢
      omega
    · intro a b
      simp only [Bool.or_eq_true, decide_eq_true_eq]
      omega
  exact hsorted.imp of_decide_eq_true

theorem summary_some {x : ℤ × Option ℤ} : summary localDid peer entries = some x ↔
    (namedTimes localDid peer entries).max? = some x.1 ∧
      (namedTimes localDid peer (byOthers localDid entries)).max? = x.2 := by
  unfold summary
  rw [Option.map_eq_some_iff]
  constructor
  · rintro ⟨latest, hlatest, rfl⟩
    exact ⟨hlatest, rfl⟩
  · rintro ⟨hlatest, hothers⟩
    exact ⟨x.1, hlatest, by rw [hothers]⟩

theorem incoming_nil (h : s.directHistory localDid peer = []) : s.incoming localDid peer = [] := by
  unfold incoming
  rw [h]
  rfl

theorem timestamps_nil {messages : List DirectMessage} : (timestamps messages).max? = none ↔ messages = [] := by
  unfold timestamps
  rw [List.max?_eq_none_iff, List.map_eq_nil_iff]

theorem mem_peers (hiter : ∀ l, (iterated l).Perm l) : peer ∈ (s.listDirectConversations iterated localDid).map (·.1) ↔
    (namedTimes localDid peer s.directMessages.toList).max? ≠ none := by
  constructor
  · intro h
    obtain ⟨c, hc, rfl⟩ := List.mem_map.1 h
    rw [(summary_some.1 ((mem_listDirectConversations hiter).1 hc)).1]
    exact Option.some_ne_none _
  · intro h
    obtain ⟨latest, hlatest⟩ := Option.ne_none_iff_exists'.1 h
    have hsum : summary localDid peer s.directMessages.toList = some (latest, _) := summary_some.2 ⟨hlatest, rfl⟩
    exact List.mem_map.2 ⟨_, (mem_listDirectConversations hiter (c := ⟨peer, _⟩)).2 hsum, rfl⟩

/-- So the list is right just if for each peer the times that the keys give are those of the messages, as far as the
greatest go. -/
theorem lists_iff (hiter : ∀ l, (iterated l).Perm l) :
    s.ListsConversations localDid (s.listDirectConversations iterated localDid) ↔ ∀ peer,
      (timestamps (s.directHistory localDid peer)).max? = (namedTimes localDid peer s.directMessages.toList).max? ∧
      (timestamps (s.incoming localDid peer)).max? =
        (namedTimes localDid peer (byOthers localDid s.directMessages.toList)).max? := by
  constructor
  · intro h peer
    cases hmax : (namedTimes localDid peer s.directMessages.toList).max? with
    | none =>
      have hnil : s.directHistory localDid peer = [] := by
        by_contra hne
        exact (mem_peers hiter).1 ((h.peers peer).2 hne) hmax
      rw [timestamps_nil, namedTimes_byOthers (List.max?_eq_none_iff.1 hmax), incoming_nil hnil]
      exact ⟨hnil, rfl⟩
    | some latest =>
      have hc : (peer, latest, (namedTimes localDid peer (byOthers localDid s.directMessages.toList)).max?) ∈
          s.listDirectConversations iterated localDid :=
        (mem_listDirectConversations hiter).2 (summary_some.2 ⟨hmax, rfl⟩)
      exact ⟨h.latest _ hc, h.incoming _ hc⟩
  · intro h
    refine ⟨listed_once hiter, fun peer => ?_, fun c hc => ?_, fun c hc => ?_, listed_newestFirst⟩
    · rw [mem_peers hiter, ← (h peer).1, ne_eq, timestamps_nil]
    · rw [(h c.1).1]
      exact (summary_some.1 ((mem_listDirectConversations hiter).1 hc)).1
    · rw [(h c.1).2]
      exact (summary_some.1 ((mem_listDirectConversations hiter).1 hc)).2

/-! The condition -/

/-- A store of messages between DIDs, each under its key. -/
structure KeptBetweenDids (s : LocalMessageStorage) : Prop extends Kept s where
  dids : ∀ (k : String) (m : DirectMessage), s.directMessages[k]? = some m → IsDid m.senderDid ∧ IsDid m.recipientDid

theorem keptBetweenDids_run {ops : List StorageOp} (h : ∀ op ∈ ops, op.Typed) (hd : ∀ op ∈ ops, op.BetweenDids) :
    KeptBetweenDids (ops.foldl perform .empty) where
  toKept := kept_run h
  dids k m hm := by
    obtain ⟨f, hop, -⟩ := stored_direct hm
    exact hd _ hop

/-- The other of a conversation with messages is a DID. -/
theorem KeptBetweenDids.isDid (h : s.KeptBetweenDids) {m : DirectMessage} (hm : m ∈ s.directHistory localDid peer) :
    IsDid peer := by
  obtain ⟨hstored, hchat⟩ := h.mem_directHistory.1 hm
  obtain ⟨ha, hb⟩ := h.dids _ _ hstored
  rcases Sym2.eq_iff.1 (Chat.direct.inj hchat) with ⟨-, rfl⟩ | ⟨rfl, -⟩
  · exact hb
  · exact ha

/-- No message whose id has a colon is read as anybody's. -/
def Unnamed (s : LocalMessageStorage) (localDid : Did) : Prop :=
  ∀ (k : String) (m : DirectMessage), s.directMessages[k]? = some m → ':' ∈ m.id.toList → namedByKey localDid m.key = none

theorem namedByKey_none {key : String} : namedByKey localDid key = none ↔ ∀ p, parseDirectKey key = some p →
    ¬ HasPrefix (localDid ++ ":") p.1 ∧ ¬ HasSuffix (":" ++ localDid) p.1 := by
  have hpeer (conv : String) : peerDidFromConvId conv localDid = none ↔
      ¬ HasPrefix (localDid ++ ":") conv ∧ ¬ HasSuffix (":" ++ localDid) conv := by
    rw [← stripPrefix_none, ← stripSuffix_none]
    unfold peerDidFromConvId
    split
    · rename_i heq
      simp [heq]
    · rename_i heq
      simp [heq]
  unfold namedByKey
  rw [Option.bind_eq_none_iff]
  refine forall_congr' fun p => imp_congr_right fun _ => ?_
  rw [Option.map_eq_none_iff, hpeer]

theorem unnamed_iff : s.Unnamed localDid ↔ ∀ (k : String) (m : DirectMessage), s.directMessages[k]? = some m →
    ':' ∈ m.id.toList → ∀ p, parseDirectKey m.key = some p →
      ¬ HasPrefix (localDid ++ ":") p.1 ∧ ¬ HasSuffix (":" ++ localDid) p.1 :=
  forall₂_congr fun _ _ => imp_congr_right fun _ => imp_congr_right fun _ => namedByKey_none

/-- Then the keys tell of the messages without a colon in their ids. -/
theorem KeptBetweenDids.named (h : s.KeptBetweenDids) (hl : IsDid localDid) (hu : s.Unnamed localDid) {k : String}
    {m : DirectMessage} (hm : s.directMessages[k]? = some m) {t : ℤ} : namedByKey localDid k = some (peer, t) ↔
      m ∈ s.directHistory localDid peer ∧ ':' ∉ m.id.toList ∧ m.timestamp = t := by
  obtain ⟨ha, hb⟩ := h.dids k m hm
  have hk := h.direct k m hm
  rw [h.mem_directHistory, hk, ← hk]
  by_cases hid : ':' ∈ m.id.toList
  · rw [hu k m hm hid]
    simp [hid]
  · rw [namedByKey_plain ha hb hl (h.direct_i64 k m hm) hid]
    simp [hid, hk, hm]

theorem KeptBetweenDids.mem_named (h : s.KeptBetweenDids) (hl : IsDid localDid) (hu : s.Unnamed localDid) {t : ℤ} :
    t ∈ namedTimes localDid peer s.directMessages.toList ↔
      ∃ m ∈ s.directHistory localDid peer, ':' ∉ m.id.toList ∧ m.timestamp = t := by
  rw [mem_namedTimes]
  constructor
  · rintro ⟨e, he, hname⟩
    exact ⟨e.2, (h.named hl hu ((mem_iter _).1 he)).1 hname⟩
  · rintro ⟨m, hm, hrest⟩
    have hstored := (h.mem_directHistory.1 hm).1
    exact ⟨(m.key, m), (mem_iter _).2 hstored, (h.named hl hu hstored).2 ⟨hm, hrest⟩⟩

theorem KeptBetweenDids.mem_named_others (h : s.KeptBetweenDids) (hl : IsDid localDid) (hu : s.Unnamed localDid) {t : ℤ} :
    t ∈ namedTimes localDid peer (byOthers localDid s.directMessages.toList) ↔
      ∃ m ∈ s.incoming localDid peer, ':' ∉ m.id.toList ∧ m.timestamp = t := by
  rw [mem_namedTimes]
  constructor
  · rintro ⟨e, he, hname⟩
    obtain ⟨he, hothers⟩ := List.mem_filter.1 he
    obtain ⟨hm, hrest⟩ := (h.named hl hu ((mem_iter _).1 he)).1 hname
    exact ⟨e.2, List.mem_filter.2 ⟨hm, hothers⟩, hrest⟩
  · rintro ⟨m, hm, hrest⟩
    obtain ⟨hm, hothers⟩ := List.mem_filter.1 hm
    have hstored := (h.mem_directHistory.1 hm).1
    exact ⟨(m.key, m), List.mem_filter.2 ⟨(mem_iter _).2 hstored, hothers⟩, (h.named hl hu hstored).2 ⟨hm, hrest⟩⟩

/-- They have the greatest time right if a message whose id has a colon is not later than all others. -/
theorem greatest_iff {times : List ℤ} {messages : List DirectMessage}
    (h : ∀ t, t ∈ times ↔ ∃ m ∈ messages, ':' ∉ m.id.toList ∧ m.timestamp = t) :
    (timestamps messages).max? = times.max? ↔ ∀ m ∈ messages, ':' ∈ m.id.toList →
      ∃ m' ∈ messages, ':' ∉ m'.id.toList ∧ m.timestamp ≤ m'.timestamp := by
  have hsub : ∀ t ∈ times, t ∈ timestamps messages := by
    intro t ht
    obtain ⟨m, hm, -, hmt⟩ := (h t).1 ht
    exact List.mem_map.2 ⟨m, hm, hmt⟩
  rw [Maxima.max?_eq_iff_dominated hsub]
  constructor
  · intro hdom m hm _
    obtain ⟨t, ht, hle⟩ := hdom m.timestamp (List.mem_map.2 ⟨m, hm, rfl⟩)
    obtain ⟨m', hm', hid, rfl⟩ := (h t).1 ht
    exact ⟨m', hm', hid, hle⟩
  · intro hdom y hy
    obtain ⟨m, hm, rfl⟩ := List.mem_map.1 hy
    by_cases hid : ':' ∈ m.id.toList
    · obtain ⟨m', hm', hid', hle⟩ := hdom m hm hid
      exact ⟨m'.timestamp, (h _).2 ⟨m', hm', hid', rfl⟩, hle⟩
    · exact ⟨m.timestamp, (h _).2 ⟨m, hm, hid, rfl⟩, le_refl _⟩

/-- A list that is right names no peer but by messages of its own. -/
theorem KeptBetweenDids.unnamed (h : s.KeptBetweenDids) (hl : IsDid localDid)
    (hlist : ∀ peer, (timestamps (s.directHistory localDid peer)).max? =
      (namedTimes localDid peer s.directMessages.toList).max?) : s.Unnamed localDid := by
  intro k m hm hid
  by_contra hne
  obtain ⟨x, hx⟩ := Option.ne_none_iff_exists'.1 hne
  obtain ⟨ha, hb⟩ := h.dids k m hm
  refine namedByKey_colon ha hb hl hid hx ?_
  have hmem : x.2 ∈ namedTimes localDid x.1 s.directMessages.toList :=
    mem_namedTimes.2 ⟨(k, m), (mem_iter _).2 hm, h.direct k m hm ▸ hx⟩
  cases hhist : s.directHistory localDid x.1 with
  | nil =>
    have hnone := hlist x.1
    rw [hhist, timestamps_nil.2 rfl] at hnone
    rw [List.max?_eq_none_iff.1 hnone.symm] at hmem
    cases hmem
  | cons m' rest =>
    have hm' : m' ∈ s.directHistory localDid x.1 := by
      rw [hhist]
      exact List.mem_cons_self
    exact h.isDid hm'

theorem harmless_iff (h : s.KeptBetweenDids) (hl : IsDid localDid) (hiter : ∀ l, (iterated l).Perm l) :
    s.ListsConversations localDid (s.listDirectConversations iterated localDid) ↔ s.ColonsHarmless localDid := by
  rw [lists_iff hiter]
  constructor
  · intro hlist
    have hu := h.unnamed hl fun peer => (hlist peer).1
    exact ⟨unnamed_iff.1 hu, fun peer => (greatest_iff fun t => h.mem_named hl hu).1 (hlist peer).1,
      fun peer => (greatest_iff fun t => h.mem_named_others hl hu).1 (hlist peer).2⟩
  · intro hh peer
    have hu := unnamed_iff.2 hh.unnamed
    exact ⟨(greatest_iff fun t => h.mem_named hl hu).2 (hh.latest peer),
      (greatest_iff fun t => h.mem_named_others hl hu).2 (hh.incoming peer)⟩

/-- The ids are symmetric, invertible and apart; and after every run of storage operations between DIDs, in whatever
order the table is iterated, the list of conversations is right if and only if the colons in ids are harmless. -/
theorem conversations_listed_iff (ops : List StorageOp) (h : ∀ op ∈ ops, op.Typed) (hd : ∀ op ∈ ops, op.BetweenDids)
    (hl : IsDid localDid) (hiter : ∀ l, (iterated l).Perm l) :
    ConversationIdsApart ∧ ((ops.foldl perform .empty).ListsConversations localDid
      ((ops.foldl perform .empty).listDirectConversations iterated localDid) ↔
        (ops.foldl perform .empty).ColonsHarmless localDid) :=
  ⟨conversation_ids_apart, harmless_iff (keptBetweenDids_run h hd) hl hiter⟩

end LocalMessageStorage
namespace Conversations
open LocalMessageStorage

def message (senderDid recipientDid : Did) (id : String) (ts : ℤ) : DirectMessage :=
  { id := id, senderDid := senderDid, recipientDid := recipientDid, ciphertext := [], olmMessageType := 1, signature := []
    timestamp := ts, type := 0, replyTo := none, senderIdentityKey := none }

/-- A store that has received some messages. -/
def received (ms : List DirectMessage) : LocalMessageStorage :=
  (ms.map (StorageOp.storeDirect noFaults)).foldl perform .empty

/-- The table as it stands. -/
def inOrder (conversations : List (Did × ℤ × Option ℤ)) : List (Did × ℤ × Option ℤ) := conversations

theorem inOrder_perm (l : List (Did × ℤ × Option ℤ)) : (inOrder l).Perm l := List.Perm.refl l

/-- A message that is not listed, and one that is listed as somebody else's and at another time. -/
theorem colons_mislead :
    ¬ (received [message "did:v:b" "did:v:a" "x:y" 1]).ListsConversations "did:v:a"
      ((received [message "did:v:b" "did:v:a" "x:y" 1]).listDirectConversations inOrder "did:v:a") ∧
    ("did:v:b:00000000000000000001", 5, some 5) ∈
      (received [message "did:v:b" "did:v:a" "5:y" 1]).listDirectConversations inOrder "did:v:a" := by
  constructor
  · intro h
    have hmem : message "did:v:b" "did:v:a" "x:y" 1 ∈
        (received [message "did:v:b" "did:v:a" "x:y" 1]).directHistory "did:v:a" "did:v:b" :=
      (filed_run [.storeDirect noFaults (message "did:v:b" "did:v:a" "x:y" 1)]).mem_directHistory.2
        ⟨by decide +kernel, congrArg Chat.direct Sym2.eq_swap⟩
    have hlisted := (mem_peers inOrder_perm).1 ((h.peers "did:v:b").2 (List.ne_nil_of_mem hmem))
    exact hlisted (by decide +kernel)
  · rw [mem_listDirectConversations inOrder_perm]
    decide +kernel

theorem isDid_a : IsDid "did:v:a" := ⟨"v", "a", by decide, by decide, by decide⟩

theorem isDid_b : IsDid "did:v:b" := ⟨"v", "b", by decide, by decide, by decide⟩

/-- One message each way. -/
def exchange : LocalMessageStorage := received [message "did:v:a" "did:v:b" "x" 1, message "did:v:b" "did:v:a" "y" 2]

theorem exchange_listed :
    exchange.ListsConversations "did:v:a" (exchange.listDirectConversations inOrder "did:v:a") := by
  have hids : ∀ x ∈ exchange.directMessages.toList, ':' ∉ x.2.id.toList := by decide +kernel
  have hhist (peer : Did) (m : DirectMessage) (hm : m ∈ exchange.directHistory "did:v:a" peer) : ':' ∉ m.id.toList := by
    obtain ⟨x, hx, rfl⟩ := List.mem_map.1 (List.mem_of_mem_filter hm)
    exact hids x hx
  refine (conversations_listed_iff [.storeDirect noFaults (message "did:v:a" "did:v:b" "x" 1),
    .storeDirect noFaults (message "did:v:b" "did:v:a" "y" 2)] ?_ ?_ isDid_a inOrder_perm).2.2 ⟨?_, ?_, ?_⟩
  · simp [StorageOp.Typed, message, IsI64]
  · simp [StorageOp.BetweenDids, message, isDid_a, isDid_b]
  · exact fun k m hm hid => (hids (k, m) ((mem_iter _).2 hm) hid).elim
  · exact fun peer m hm hid => (hhist peer m hm hid).elim
  · exact fun peer m hm hid => (hhist peer m (List.mem_of_mem_filter hm) hid).elim

end Conversations
end Variance
