import Mathlib.Data.Finset.Insert
import Variance.Spec.HistoryView

/-! The views keep of each reactor the action that stands last in the order of time. Of two at the same time it is the
one that happened to be listed last. -/

namespace Variance

variable {msgs l : List ReactionMessage} {m m' : ReactionMessage} {t e : String} {d : Did} {a : String}

/-! The action that stands last -/

/-- What a list, in its own order, leaves of a sender on an emoji. -/
def lastAction (l : List ReactionMessage) (t e : String) (d : Did) : Option String :=
  (l.filterMap fun m => m.actionOn t e d).getLast?

def ReactionTable.actionOf (byMessage : ReactionTable) (t e : String) (d : Did) : Option String :=
  ((byMessage.get t).bind fun byEmoji => byEmoji.get e).bind fun reactors => reactors.get d

theorem actionOn_eq_some_iff : m.actionOn t e d = some a ↔
    m.field "message_id" = some t ∧ m.field "emoji" = some e ∧ m.senderDid = d ∧ m.field "action" = some a := by
  unfold ReactionMessage.actionOn
  split_ifs with h
  · exact ⟨fun ha => ⟨h.1, h.2.1, h.2.2, ha⟩, fun ha => ha.2.2.2⟩
  · exact ⟨fun ha => (by cases ha), fun ha => (h ⟨ha.1, ha.2.1, ha.2.2.1⟩).elim⟩

namespace ReactionTable

theorem actionOf_set {byMessage : ReactionTable} {target emoji action : String} {sender : Did} :
    actionOf (byMessage.set target (((byMessage.get target).getD ∅).set emoji
      (((((byMessage.get target).getD ∅).get emoji).getD ∅).set sender action))) t e d =
    if target = t ∧ emoji = e ∧ sender = d then some action else byMessage.actionOf t e d := by
  unfold actionOf
  rw [InsertionMap.get_set]
  by_cases ht : target = t
  · subst ht
    rw [if_pos rfl, Option.bind_some, InsertionMap.get_set]
    have hold : ((byMessage.get target).getD ∅).get e = (byMessage.get target).bind fun byEmoji => byEmoji.get e := by
      cases byMessage.get target <;> rfl
    by_cases he : emoji = e
    · subst he
      rw [if_pos rfl, Option.bind_some, InsertionMap.get_set, hold]
      by_cases hd : sender = d
      · rw [if_pos hd, if_pos ⟨rfl, rfl, hd⟩]
      · rw [if_neg hd, if_neg fun h => hd h.2.2]
        cases (byMessage.get target).bind fun byEmoji => byEmoji.get emoji <;> rfl
    · rw [if_neg he, if_neg fun h => he h.2.1, hold]
  · rw [if_neg ht, if_neg fun h => ht h.1]

/-- A message sets what it says, and nothing else. -/
theorem actionOf_note (byMessage : ReactionTable) (m : ReactionMessage) :
    (byMessage.note m).actionOf t e d = (m.actionOn t e d).or (byMessage.actionOf t e d) := by
  unfold note
  split
  · rename_i target emoji action htarget hemoji haction
    dsimp only
    rw [actionOf_set]
    split_ifs with h
    · rw [actionOn_eq_some_iff.2 ⟨htarget.trans (congrArg some h.1), hemoji.trans (congrArg some h.2.1), h.2.2, haction⟩]
      rfl
    · have hnone : m.actionOn t e d = none := by
        refine if_neg fun hc => h ⟨?_, ?_, hc.2.2⟩
        · exact Option.some.inj (htarget.symm.trans hc.1)
        · exact Option.some.inj (hemoji.symm.trans hc.2.1)
      rw [hnone]
      rfl
  · rename_i hmissing
    have hnone : m.actionOn t e d = none := by
      rw [Option.eq_none_iff_forall_ne_some]
      intro a ha
      obtain ⟨h1, h2, -, h3⟩ := actionOn_eq_some_iff.1 ha
      exact hmissing _ _ _ h1 h2 h3
    rw [hnone]
    rfl

theorem actionOf_foldl (l : List ReactionMessage) (byMessage : ReactionTable) :
    (l.foldl note byMessage).actionOf t e d = (lastAction l t e d).or (byMessage.actionOf t e d) := by
  induction l using List.reverseRecOn with
  | nil => rfl
  | append_singleton l m ih =>
    rw [List.foldl_append, List.foldl_cons, List.foldl_nil, actionOf_note, ih, lastAction, lastAction,
      List.filterMap_append]
    cases hm : m.actionOn t e d with
    | none => simp [hm]
    | some a => simp [hm]

theorem actionOf_ofMessages (msgs : List ReactionMessage) : (ofMessages msgs).actionOf t e d =
    lastAction (msgs.mergeSort fun a b => a.timestamp ≤ b.timestamp) t e d := by
  unfold ofMessages
  rw [actionOf_foldl]
  exact Option.or_none

end ReactionTable

/-! Sorted by time -/

theorem sorted_mergeSort (msgs : List ReactionMessage) :
    (msgs.mergeSort fun a b => a.timestamp ≤ b.timestamp).Pairwise fun a b => a.timestamp ≤ b.timestamp := by
  have h : (msgs.mergeSort fun a b => a.timestamp ≤ b.timestamp).Pairwise
      fun a b => decide (a.timestamp ≤ b.timestamp) = true := by
    apply List.pairwise_mergeSort
    · intro a b c hab hbc
      rw [decide_eq_true_iff] at hab hbc ⊢
      exact le_trans hab hbc
    · intro a b
      rw [Bool.or_eq_true, decide_eq_true_iff, decide_eq_true_iff]
      exact le_total _ _
  exact h.imp fun hab => of_decide_eq_true hab

/-- The last of what is sorted is a latest one. -/
theorem latest_of_lastAction (hl : l.Pairwise fun a b => a.timestamp ≤ b.timestamp)
    (h : lastAction l t e d = some a) : Latest l t e d a := by
  induction l using List.reverseRecOn with
  | nil => cases h
  | append_singleton l m ih =>
    rw [List.pairwise_append] at hl
    rw [lastAction, List.filterMap_append] at h
    cases hm : m.actionOn t e d with
    | none =>
      have hlast : lastAction l t e d = some a := by simpa [lastAction, hm] using h
      obtain ⟨m0, hm0, ha, hlate⟩ := ih hl.1 hlast
      refine ⟨m0, List.mem_append_left _ hm0, ha, fun m' hm' hact => ?_⟩
      rcases List.mem_append.1 hm' with hold | hnew
      · exact hlate m' hold hact
      · rw [List.mem_singleton.1 hnew] at hact
        exact (hact hm).elim
    | some b =>
      have hb : b = a := by simpa [hm] using h
      refine ⟨m, by simp, hm.trans (congrArg some hb), fun m' hm' _ => ?_⟩
      rcases List.mem_append.1 hm' with hold | hnew
      · exact hl.2.2 m' hold m (List.mem_singleton_self m)
      · rw [List.mem_singleton.1 hnew]

theorem lastAction_eq_none (h : lastAction l t e d = none) (hm : m ∈ l) : m.actionOn t e d = none := by
  rw [Option.eq_none_iff_forall_ne_some]
  intro a ha
  have hnil := List.getLast?_eq_none_iff.1 h
  have hmem : a ∈ l.filterMap fun m => m.actionOn t e d := List.mem_filterMap.2 ⟨m, hm, ha⟩
  rw [hnil] at hmem
  exact List.not_mem_nil hmem

theorem Latest.congr {l' : List ReactionMessage} (h : ∀ m, m ∈ l ↔ m ∈ l') : Latest l t e d a ↔ Latest l' t e d a := by
  unfold Latest
  simp only [h]

theorem Untied.congr {l' : List ReactionMessage} (h : ∀ m, m ∈ l ↔ m ∈ l') (hu : Untied l) : Untied l' :=
  fun t e d a hadd ha => hu t e d a ((Latest.congr h).2 hadd) ((Latest.congr h).2 ha)

/-- Without ties the sort finds the latest actions. -/
theorem lastAction_add_iff (hu : Untied msgs) :
    lastAction (msgs.mergeSort fun a b => a.timestamp ≤ b.timestamp) t e d = some "add" ↔ Latest msgs t e d "add" := by
  have hmem (m : ReactionMessage) : m ∈ (msgs.mergeSort fun a b => a.timestamp ≤ b.timestamp) ↔ m ∈ msgs :=
    List.mem_mergeSort
  constructor
  · intro h
    exact (Latest.congr hmem).1 (latest_of_lastAction (sorted_mergeSort msgs) h)
  · intro h
    cases hl : lastAction (msgs.mergeSort fun a b => a.timestamp ≤ b.timestamp) t e d with
    | none =>
      obtain ⟨m, hm, ha, -⟩ := h
      rw [lastAction_eq_none hl ((hmem m).2 hm)] at ha
      cases ha
    | some a =>
      rw [hu t e d a h ((Latest.congr hmem).1 (latest_of_lastAction (sorted_mergeSort msgs) hl))]

/-! What is counted -/

/-- Who the sort leaves with an addition. -/
def lastAdders (l : List ReactionMessage) (t e : String) : Finset Did :=
  (l.map (·.senderDid)).toFinset.filter fun d => lastAction l t e d = some "add"

theorem mem_lastAdders : d ∈ lastAdders l t e ↔ lastAction l t e d = some "add" := by
  unfold lastAdders
  rw [Finset.mem_filter, List.mem_toFinset]
  refine and_iff_right_of_imp fun h => ?_
  obtain ⟨m, hm, ha⟩ := List.mem_filterMap.1 (List.mem_of_getLast? h)
  exact List.mem_map.2 ⟨m, hm, (actionOn_eq_some_iff.1 ha).2.2.1⟩

/-- The summary that is made of the reactors of an emoji. -/
def summary (safe : ℤ → ℤ) (localDid : Option Did) (emoji : String) (reactors : InsertionMap Did String) :
    Option ReactionSummary :=
  let count : ℤ := (reactors.entries.filter fun r => r.2 = "add").length
  let reactedByMe := reactors.entries.any fun r => r.2 = "add" && some r.1 = localDid
  if 0 < safe count then some ⟨emoji, safe count, reactedByMe⟩ else none

theorem summaryOf_summarise (byMessage : ReactionTable) (safe : ℤ → ℤ) (localDid : Option Did) :
    summaryOf (byMessage.summarise safe localDid) t e =
      ((byMessage.get t).bind fun byEmoji => byEmoji.get e).bind (summary safe localDid e) := by
  have hname (emoji : String) (reactors : InsertionMap Did String) (s : ReactionSummary)
      (h : summary safe localDid emoji reactors = some s) : s.emoji = emoji := by
    unfold summary at h
    dsimp only at h
    split_ifs at h
    rw [← Option.some.inj h]
  unfold summaryOf ReactionTable.summarise
  rw [InsertionMap.get_filterMap]
  cases byMessage.get t with
  | none => rfl
  | some byEmoji =>
    rw [Option.bind_some, Option.bind_some, ← InsertionMap.find?_made hname]
    dsimp only
    split_ifs with hnil
    · rw [Option.bind_none]
      exact (congrArg (List.find? fun s => s.emoji = e) hnil).symm
    · rfl

theorem length_adds {reactors : InsertionMap Did String} {S : Finset Did}
    (h : ∀ d, d ∈ S ↔ reactors.get d = some "add") :
    (reactors.entries.filter fun r => r.2 = "add").length = S.card := by
  refine InsertionMap.length_filter_eq_card (p := fun _ action => decide (action = "add")) fun d => ?_
  rw [h d]
  simp

theorem any_mine {reactors : InsertionMap Did String} {localDid : Option Did} :
    (reactors.entries.any fun r => r.2 = "add" && some r.1 = localDid) = true ↔
      ∃ d, localDid = some d ∧ reactors.get d = some "add" := by
  rw [List.any_eq_true]
  constructor
  · rintro ⟨r, hr, h⟩
    rw [Bool.and_eq_true, decide_eq_true_iff, decide_eq_true_iff] at h
    exact ⟨r.1, h.2.symm, InsertionMap.get_eq_some_iff.2 (h.1 ▸ hr)⟩
  · rintro ⟨d, rfl, hd⟩
    exact ⟨(d, "add"), InsertionMap.get_eq_some_iff.1 hd, by simp⟩

/-- A table and what is shown of it. -/
theorem shown {byMessage : ReactionTable} {safe : ℤ → ℤ} (hsafe : ∀ n : ℕ, safe n = n) {S : Finset Did}
    (h : ∀ d, d ∈ S ↔ byMessage.actionOf t e d = some "add") (localDid : Option Did) :
    countOf (byMessage.summarise safe localDid) t e = S.card ∧
      (mineOf (byMessage.summarise safe localDid) t e = true ↔ ∃ d, localDid = some d ∧ d ∈ S) := by
  unfold countOf mineOf
  rw [summaryOf_summarise]
  unfold ReactionTable.actionOf at h
  cases hr : (byMessage.get t).bind fun byEmoji => byEmoji.get e with
  | none =>
    rw [hr] at h
    have hempty : S = ∅ := Finset.eq_empty_of_forall_notMem fun d hd => by simpa using (h d).1 hd
    rw [hempty]
    simp
  | some reactors =>
    rw [hr] at h
    have hcount : (reactors.entries.filter fun r => r.2 = "add").length = S.card := length_adds h
    have hmine : (∃ d, localDid = some d ∧ d ∈ S) ↔ ∃ d, localDid = some d ∧ reactors.get d = some "add" := by
      simp only [h, Option.bind_some]
    rw [Option.bind_some, summary, hcount, hsafe, hmine]
    split_ifs with hpos
    · exact ⟨rfl, any_mine⟩
    · have hzero : S.card = 0 := by omega
      refine ⟨by simp [hzero], iff_of_false (by simp) fun hadd => ?_⟩
      obtain ⟨d, _, hd⟩ := hadd
      have hmem : d ∈ S := (h d).2 hd
      rw [Finset.card_eq_zero.1 hzero] at hmem
      exact absurd hmem (Finset.notMem_empty d)

/-- Both views count and flag those whose last action in the order of time is to add. -/
theorem aggregate_shown (msgs : List ReactionMessage) (localDid : Option Did) :
    countOf (aggregateReactions msgs localDid) t e =
        (lastAdders (msgs.mergeSort fun a b => a.timestamp ≤ b.timestamp) t e).card ∧
      (mineOf (aggregateReactions msgs localDid) t e = true ↔ ∃ d, localDid = some d ∧
        d ∈ lastAdders (msgs.mergeSort fun a b => a.timestamp ≤ b.timestamp) t e) := by
  refine shown (fun n => by omega) (fun d => ?_) localDid
  rw [mem_lastAdders, ReactionTable.actionOf_ofMessages]

theorem summarise_congr (byMessage : ReactionTable) {safe safe' : ℤ → ℤ} (h : ∀ n : ℕ, safe n = safe' n)
    (localDid : Option Did) : byMessage.summarise safe localDid = byMessage.summarise safe' localDid := by
  unfold ReactionTable.summarise
  simp only [h]

theorem aggregateGroupReactions_eq (msgs : List ReactionMessage) (localDid : Option Did) :
    aggregateGroupReactions msgs localDid = aggregateReactions msgs localDid :=
  summarise_congr _ (fun n => by simp) localDid

/-! Ties -/

/-- Two actions of one sender, put in one order or the other, make a difference of one. -/
theorem card_tied {A B : List ReactionMessage} {x y : ReactionMessage} (hx : x.actionOn t e d = some "add")
    (hy : y.actionOn t e d = some a) (ha : a ≠ "add") (hB : ∀ m ∈ B, m.actionOn t e d = none) :
    (lastAdders (A ++ [y, x] ++ B) t e).card = (lastAdders (A ++ [x, y] ++ B) t e).card + 1 := by
  have hnil : B.filterMap (fun m => m.actionOn t e d) = [] := List.filterMap_eq_nil_iff.2 hB
  have hlast : lastAction (A ++ [y, x] ++ B) t e d = some "add" := by
    simp [lastAction, hnil, hx, hy]
  have hlast' : lastAction (A ++ [x, y] ++ B) t e d = some a := by
    simp [lastAction, hnil, hx, hy]
  have hother (d' : Did) (hd : d' ≠ d) : lastAction (A ++ [y, x] ++ B) t e d' = lastAction (A ++ [x, y] ++ B) t e d' := by
    have hnone {m : ReactionMessage} {b : String} (hm : m.actionOn t e d = some b) : m.actionOn t e d' = none :=
      if_neg fun h => hd (h.2.2.symm.trans (actionOn_eq_some_iff.1 hm).2.2.1)
    simp [lastAction, hnone hx, hnone hy]
  have hinsert : lastAdders (A ++ [y, x] ++ B) t e = insert d (lastAdders (A ++ [x, y] ++ B) t e) := by
    ext d'
    rw [Finset.mem_insert, mem_lastAdders, mem_lastAdders]
    by_cases hd : d' = d
    · subst hd
      exact iff_of_true hlast (Or.inl rfl)
    · rw [hother d' hd]
      exact (or_iff_right hd).symm
  rw [hinsert, Finset.card_insert_of_notMem]
  rw [mem_lastAdders, hlast']
  exact fun h => ha (Option.some.inj h)

/-- A list that is in the order of time is sorted. -/
theorem mergeSort_sorted (h : l.Pairwise fun a b => a.timestamp ≤ b.timestamp) :
    (l.mergeSort fun a b => a.timestamp ≤ b.timestamp) = l :=
  List.mergeSort_of_pairwise (h.imp fun hab => decide_eq_true hab)

theorem exists_perm_pair (hm : m ∈ msgs) (hm' : m' ∈ msgs) (hne : m ≠ m') : ∃ rest, msgs.Perm (m :: m' :: rest) := by
  obtain ⟨s, t, rfl⟩ := List.append_of_mem hm
  have hrest : m' ∈ s ++ t := by
    rcases List.mem_append.1 hm' with h | h
    · exact List.mem_append_left _ h
    · exact List.mem_append_right _ ((List.mem_cons.1 h).resolve_left hne.symm)
  obtain ⟨u, v, hst⟩ := List.append_of_mem hrest
  refine ⟨u ++ v, List.perm_middle.trans ?_⟩
  rw [hst]
  exact List.perm_middle.cons m

/-- A tie can be listed both ways, in the order of time. -/
theorem exists_tied (h : Latest msgs t e d "add") (h' : Latest msgs t e d a) (ha : a ≠ "add") :
    ∃ A B x y, (A ++ [y, x] ++ B).Perm msgs ∧ (A ++ [x, y] ++ B).Perm msgs ∧
      (A ++ [y, x] ++ B).Pairwise (fun a b => a.timestamp ≤ b.timestamp) ∧
      (A ++ [x, y] ++ B).Pairwise (fun a b => a.timestamp ≤ b.timestamp) ∧
      x.actionOn t e d = some "add" ∧ y.actionOn t e d = some a ∧ ∀ m ∈ B, m.actionOn t e d = none := by
  obtain ⟨x, hx, hxa, hxlate⟩ := h
  obtain ⟨y, hy, hya, hylate⟩ := h'
  have htime : y.timestamp = x.timestamp :=
    le_antisymm (hxlate y hy (by simp [hya])) (hylate x hx (by simp [hxa]))
  have hne : x ≠ y := by
    rintro rfl
    exact ha (Option.some.inj (hya.symm.trans hxa))
  obtain ⟨rest, hrest⟩ := exists_perm_pair hx hy hne
  set sorted := rest.mergeSort fun a b => a.timestamp ≤ b.timestamp
  have hsorted := sorted_mergeSort rest
  set A := sorted.filter fun m => decide (m.timestamp ≤ x.timestamp)
  set B := sorted.filter fun m => !decide (m.timestamp ≤ x.timestamp)
  have hA : ∀ m ∈ A, m.timestamp ≤ x.timestamp := fun m hm => of_decide_eq_true (List.mem_filter.1 hm).2
  have hB : ∀ m ∈ B, x.timestamp < m.timestamp := fun m hm => by simpa using (List.mem_filter.1 hm).2
  have hAB : (A ++ B).Perm rest := (List.filter_append_perm _ sorted).trans (List.mergeSort_perm rest _)
  have hperm (u v : ReactionMessage) (huv : [u, v].Perm [x, y]) : (A ++ [u, v] ++ B).Perm msgs := by
    have h1 : (A ++ [u, v] ++ B).Perm ([u, v] ++ (A ++ B)) := by
      rw [← List.append_assoc]
      exact List.perm_append_comm.append_right B
    exact h1.trans ((huv.append hAB).trans hrest.symm)
  have hpairwise (u v : ReactionMessage) (hu : u.timestamp = x.timestamp) (hv : v.timestamp = x.timestamp) :
      (A ++ [u, v] ++ B).Pairwise fun a b => a.timestamp ≤ b.timestamp := by
    rw [List.pairwise_append, List.pairwise_append]
    refine ⟨⟨hsorted.filter _, ?_, ?_⟩, hsorted.filter _, ?_⟩
    · rw [List.pairwise_pair, hu, hv]
    · intro m hm w hw
      rcases List.mem_pair.1 hw with rfl | rfl
      · rw [hu]; exact hA m hm
      · rw [hv]; exact hA m hm
    · intro m hm w hw
      rcases List.mem_append.1 hm with hm | hm
      · exact (hA m hm).trans (hB w hw).le
      · rcases List.mem_pair.1 hm with rfl | rfl
        · rw [hu]; exact (hB w hw).le
        · rw [hv]; exact (hB w hw).le
  refine ⟨A, B, x, y, hperm y x (List.Perm.swap x y []), hperm x y (List.Perm.refl _), hpairwise y x htime rfl,
    hpairwise x y rfl htime, hxa, hya, fun m hm => ?_⟩
  by_contra hact
  have hmem : m ∈ msgs := hrest.mem_iff.2 (List.mem_cons_of_mem _ (List.mem_cons_of_mem _
    (hAB.mem_iff.1 (List.mem_append_right A hm))))
  exact absurd (hxlate m hmem hact) (not_le.2 (hB m hm))

/-- The counts and flags are those of the latest actions, whatever the order, just when no sender's latest action on an
emoji is tied. -/
theorem countsReactions_iff (msgs : List ReactionMessage) (localDid : Option Did) :
    CountsReactions msgs localDid ↔ Untied msgs := by
  constructor
  · intro h t e d a hadd ha
    by_contra hne
    obtain ⟨A, B, x, y, hp, hp', hsorted, hsorted', hx, hy, hB⟩ := exists_tied hadd ha hne
    have hcount := ((h.order _ hp t e).1.trans (h.order _ hp' t e).1.symm)
    rw [(aggregate_shown _ localDid).1, (aggregate_shown _ localDid).1, mergeSort_sorted hsorted,
      mergeSort_sorted hsorted', card_tied hx hy hne hB] at hcount
    omega
  · intro hu
    have hadders {l : List ReactionMessage} (hl : l.Perm msgs) (t e : String) :
        lastAdders (l.mergeSort fun a b => a.timestamp ≤ b.timestamp) t e = adders msgs t e := by
      ext d
      have hmem (m : ReactionMessage) : m ∈ l ↔ m ∈ msgs := hl.mem_iff
      rw [mem_lastAdders, lastAction_add_iff (hu.congr fun m => (hmem m).symm), Latest.congr hmem, adders,
        Finset.mem_filter, List.mem_toFinset]
      refine (and_iff_right_of_imp fun ⟨m, hm, ha, _⟩ => ?_).symm
      exact List.mem_map.2 ⟨m, hm, (actionOn_eq_some_iff.1 ha).2.2.1⟩
    have hshown {l : List ReactionMessage} (hl : l.Perm msgs) (t e : String) :
        countOf (aggregateReactions l localDid) t e = (adders msgs t e).card ∧
          (mineOf (aggregateReactions l localDid) t e = true ↔ ∃ d, localDid = some d ∧ d ∈ adders msgs t e) := by
      rw [← hadders hl]
      exact aggregate_shown l localDid
    have hself := hshown (List.Perm.refl msgs)
    refine ⟨fun l hl t e => ⟨(hshown hl t e).1.trans (hself t e).1.symm, ?_⟩, fun t e => (hself t e).1,
      fun t e => (hself t e).2, fun l _ => aggregateGroupReactions_eq l localDid⟩
    exact Bool.eq_iff_iff.2 ((hshown hl t e).2.trans (hself t e).2.symm)

namespace Reactions

/-- What did:b does with one emoji on one message, all at one time. -/
def reaction (action : String) : ReactionMessage :=
  ⟨"did:b", 1, some (((InsertionMap.set ∅ "message_id" "m").set "emoji" "+1").set "action" action)⟩

/-- Added and removed within a millisecond: it counts if the addition is listed last. -/
theorem tied_counts_apart : ¬ CountsReactions [reaction "add", reaction "remove"] none := by
  intro h
  have hcount := (h.order [reaction "remove", reaction "add"] (List.Perm.swap _ _ []) "m" "+1").1
  rw [(aggregate_shown _ none).1, (aggregate_shown _ none).1, mergeSort_sorted (by decide),
    mergeSort_sorted (by decide)] at hcount
  exact absurd hcount (by decide +kernel)

end Reactions
end Variance
