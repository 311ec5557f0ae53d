import Variance.Sanity.Trees
import Variance.Spec.HistoryView

/-! The newest page slides on when it is fetched again, and the older ones stay: the two are one stretch of the history
only while nothing falls out between them. -/

namespace Variance

variable {l : List ViewMessage} {m m' a b : ViewMessage} {t : ℤ} {n : ℕ}

/-! Messages once each -/

theorem mem_of_mem_uniqueIds (h : m ∈ uniqueIds l) : m ∈ l := by
  induction l with
  | nil => exact h
  | cons a l ih =>
    rcases List.mem_cons.1 h with rfl | h
    · exact List.mem_cons_self
    · exact List.mem_cons_of_mem _ (ih (List.mem_filter.1 h).1)

theorem nodup_uniqueIds (l : List ViewMessage) : ((uniqueIds l).map (·.id)).Nodup := by
  induction l with
  | nil => exact List.nodup_nil
  | cons a l ih =>
    rw [uniqueIds, List.map_cons, List.nodup_cons]
    refine ⟨?_, ih.sublist (List.filter_sublist.map _)⟩
    intro h
    obtain ⟨m, hm, hid⟩ := List.mem_map.1 h
    exact absurd hid (by simpa using (List.mem_filter.1 hm).2)

/-- Where an id names one message none is lost. -/
theorem mem_uniqueIds (hinj : ∀ a ∈ l, ∀ b ∈ l, a.id = b.id → a = b) : m ∈ uniqueIds l ↔ m ∈ l := by
  refine ⟨mem_of_mem_uniqueIds, fun h => ?_⟩
  induction l with
  | nil => exact h
  | cons a l ih =>
    rw [uniqueIds, List.mem_cons, List.mem_filter]
    by_cases hid : m.id = a.id
    · exact Or.inl (hinj m h a List.mem_cons_self hid)
    · right
      have hm : m ∈ l := (List.mem_cons.1 h).resolve_left fun heq => hid (congrArg _ heq)
      refine ⟨ih (fun x hx y hy => hinj x (List.mem_cons_of_mem a hx) y (List.mem_cons_of_mem a hy)) hm, ?_⟩
      simpa using hid

namespace HistoryView

variable {v : HistoryView}

/-- Of what is shown each message is shown once, whatever was fetched. -/
theorem unique_allMessages (v : HistoryView) : (v.allMessages.map (·.id)).Nodup :=
  ((List.mergeSort_perm _ _).map _).nodup_iff.2 (nodup_uniqueIds _)

theorem mem_pages_of_shown (h : m ∈ v.allMessages) : m ∈ v.olderMessages ∨ m ∈ v.messages :=
  List.mem_append.1 (mem_of_mem_uniqueIds (List.mem_mergeSort.1 h))

/-! The history -/

theorem mem_history : m ∈ v.history ↔ ∃ e ∈ scanPrefix v.pre v.store, e.2 = m := List.mem_map

theorem Filed.id_inj (h : v.Filed) (ha : a ∈ v.history) (hb : b ∈ v.history) (hid : a.id = b.id) : a = b :=
  List.inj_on_of_nodup_map h.ids ha hb hid

theorem Filed.key_inj (h : v.Filed) (ha : a ∈ v.history) (hb : b ∈ v.history) (hkey : v.keyOf a = v.keyOf b) :
    a = b := by
  obtain ⟨e, he, rfl⟩ := mem_history.1 ha
  obtain ⟨e', he', rfl⟩ := mem_history.1 hb
  have hfind := (mem_scanPrefix.1 he).1
  have hfind' := (mem_scanPrefix.1 he').1
  rw [h.key e he, hkey, ← h.key e' he', hfind'] at hfind
  exact (Option.some.inj hfind).symm

theorem Filed.sorted (h : v.Filed) : v.history.Pairwise fun a b => v.keyOf a < v.keyOf b := by
  refine List.pairwise_map.2 (List.Pairwise.imp_of_mem (fun {e e'} he he' hlt => ?_)
    ((keys_sorted v.store).filter fun e => Text.HasPrefix v.pre e.1))
  rw [← h.key e he, ← h.key e' he']
  exact hlt

/-- Of two messages one is filed before the other. -/
theorem Filed.lt_or_lt (h : v.Filed) (ha : a ∈ v.history) (hb : b ∈ v.history) (hne : a ≠ b) :
    v.keyOf a < v.keyOf b ∨ v.keyOf b < v.keyOf a :=
  lt_or_gt_of_ne fun hkey => hne (h.key_inj ha hb hkey)

/-! Pages -/

/-- The messages sent before a time. -/
def before (v : HistoryView) (t : ℤ) : List ViewMessage := v.history.filter fun m => m.timestamp < t

theorem mem_before : m ∈ v.before t ↔ m ∈ v.history ∧ m.timestamp < t := by
  simp [before]

/-- A page is the end of what there is. -/
theorem fetch_some : v.fetch n (some t) = (v.before t).drop ((v.before t).length - n) := by
  unfold fetch LocalMessageStorage.pageBefore before history
  rw [List.map_reverse, List.filter_reverse, List.take_reverse, List.reverse_reverse]

theorem newestPage_eq : v.newestPage = v.history.drop (v.history.length - v.kind.pageSize) := by
  unfold newestPage fetch LocalMessageStorage.pageBefore history
  rw [List.filter_true, List.map_reverse, List.take_reverse, List.reverse_reverse]

/-- What is later than something on a page is on it. -/
theorem mem_drop_of_lt (hl : l.Pairwise fun a b => v.keyOf a < v.keyOf b) (ha : a ∈ l.drop n) (hb : b ∈ l)
    (hlt : v.keyOf a < v.keyOf b) : b ∈ l.drop n := by
  rw [← List.take_append_drop n l] at hl hb
  rcases List.mem_append.1 hb with hb | hb
  · exact (lt_asymm hlt ((List.pairwise_append.1 hl).2.2 b hb a ha)).elim
  · exact hb

theorem Filed.fetch_upward (h : v.Filed) (ha : a ∈ v.fetch n (some t)) (hb : b ∈ v.history) (ht : b.timestamp < t)
    (hlt : v.keyOf a < v.keyOf b) : b ∈ v.fetch n (some t) := by
  rw [fetch_some] at ha ⊢
  exact mem_drop_of_lt (h.sorted.filter _) ha (mem_before.2 ⟨hb, ht⟩) hlt

theorem Filed.newestPage_upward (h : v.Filed) (ha : a ∈ v.newestPage) (hb : b ∈ v.history)
    (hlt : v.keyOf a < v.keyOf b) : b ∈ v.newestPage := by
  rw [newestPage_eq] at ha ⊢
  exact mem_drop_of_lt h.sorted ha hb hlt

theorem mem_history_of_fetch (h : m ∈ v.fetch n (some t)) : m ∈ v.history ∧ m.timestamp < t := by
  rw [fetch_some] at h
  exact mem_before.1 (List.mem_of_mem_drop h)

theorem mem_history_of_newestPage (h : m ∈ v.newestPage) : m ∈ v.history := by
  rw [newestPage_eq] at h
  exact List.mem_of_mem_drop h

/-- A page that is not full has everything. -/
theorem fetch_of_short (h : (v.fetch n (some t)).length < n) : v.fetch n (some t) = v.before t := by
  rw [fetch_some, List.length_drop] at h
  have hzero : (v.before t).length - n = 0 := by omega
  rw [fetch_some, hzero, List.drop_zero]

theorem newestPage_of_small (h : v.history.length ≤ v.kind.pageSize) : v.newestPage = v.history := by
  rw [newestPage_eq, Nat.sub_eq_zero_of_le h, List.drop_zero]

/-! What holds in a careful run -/

structure Inv (v : HistoryView) : Prop where
  filed : v.Filed
  timed : v.Timed
  passable : v.Passable
  olderStored : ∀ m ∈ v.olderMessages, m ∈ v.history
  newestStored : ∀ m ∈ v.messages, m ∈ v.history
  suffix : ∀ m ∈ v.allMessages, ∀ m' ∈ v.history, v.keyOf m < v.keyOf m' → v.Accounted m'
  complete : v.hasMore = false → v.Whole
  asked : ∀ t ∈ v.loadingOlder, ∀ m ∈ v.history, t ≤ m.timestamp → v.Accounted m
  small : v.history.length ≤ v.kind.pageSize → v.Whole

/-- Where both lists are of stored messages, both are shown in full. -/
theorem Filed.mem_allMessages (h : v.Filed) (hold : ∀ m ∈ v.olderMessages, m ∈ v.history)
    (hnew : ∀ m ∈ v.messages, m ∈ v.history) : m ∈ v.allMessages ↔ m ∈ v.olderMessages ∨ m ∈ v.messages := by
  refine ⟨mem_pages_of_shown, fun hm => ?_⟩
  have hstored : ∀ x ∈ v.olderMessages ++ v.messages, x ∈ v.history := by
    intro x hx
    rcases List.mem_append.1 hx with hx | hx
    · exact hold x hx
    · exact hnew x hx
  refine List.mem_mergeSort.2 ((mem_uniqueIds fun a ha b hb hid => ?_).2 (List.mem_append.2 hm))
  exact h.id_inj (hstored a ha) (hstored b hb) hid

theorem Inv.mem_allMessages (h : v.Inv) : m ∈ v.allMessages ↔ m ∈ v.olderMessages ∨ m ∈ v.messages :=
  h.filed.mem_allMessages h.olderStored h.newestStored

theorem Inv.stored (h : v.Inv) (hm : m ∈ v.allMessages) : m ∈ v.history := by
  rcases h.mem_allMessages.1 hm with hm | hm
  · exact h.olderStored m hm
  · exact h.newestStored m hm

/-! The newest page -/

theorem accounted_refetch (hf : v.Filed) (hold : ∀ m ∈ v.olderMessages, m ∈ v.history) :
    v.refetch.Accounted m ↔ m ∈ v.olderMessages ∨ m ∈ v.newestPage := by
  have hf' : v.refetch.Filed := ⟨hf.key, hf.ids⟩
  have hmem : m ∈ v.refetch.allMessages ↔ m ∈ v.refetch.olderMessages ∨ m ∈ v.refetch.messages :=
    hf'.mem_allMessages hold fun m hm => mem_history_of_newestPage (v := v) hm
  unfold Accounted
  rw [hmem]
  exact or_iff_left List.not_mem_nil

/-- A conversation that fits on one page. -/
theorem whole_refetch_of_small (hf : v.Filed) (hold : ∀ m ∈ v.olderMessages, m ∈ v.history)
    (hlen : v.history.length ≤ v.kind.pageSize) : v.refetch.Whole := by
  intro m hm
  rw [accounted_refetch hf hold, newestPage_of_small hlen]
  exact Or.inr hm

/-- Opened, or fetched with nothing older kept or asked for, it is what is shown. -/
theorem inv_refetch_of_none (hfit : v.refetch.Fit) (hold : v.olderMessages = []) (hmore : v.hasMore = true)
    (hload : v.loadingOlder = none) : v.refetch.Inv := by
  have hf : v.Filed := ⟨hfit.filed.key, hfit.filed.ids⟩
  have hnone : ∀ m ∈ v.olderMessages, m ∈ v.history := by
    rw [hold]
    exact fun m hm => absurd hm List.not_mem_nil
  have hacc : ∀ m, v.refetch.Accounted m ↔ m ∈ v.newestPage := by
    intro m
    rw [accounted_refetch hf hnone, hold]
    exact or_iff_right List.not_mem_nil
  refine ⟨hfit.filed, hfit.timed, hfit.passable, ?_, ?_, ?_, ?_, ?_, ?_⟩
  · exact hnone
  · exact fun m hm => mem_history_of_newestPage (v := v) hm
  · intro m hm m' hm' hlt
    exact (hacc m').2 (hf.newestPage_upward ((hacc m).1 (Or.inl hm)) hm' hlt)
  · intro hno
    rw [show v.refetch.hasMore = true from hmore] at hno
    cases hno
  · intro t ht
    rw [show v.refetch.loadingOlder = none from hload] at ht
    cases ht
  · exact fun hlen => whole_refetch_of_small hf hnone hlen

theorem Inv.refetch (h : v.Inv) (hc : v.Careful .refetch) : v.refetch.Inv := by
  obtain ⟨hslide, harrived, hpass⟩ := hc
  have hacc : ∀ m, v.refetch.Accounted m ↔ m ∈ v.olderMessages ∨ m ∈ v.newestPage := fun m =>
    accounted_refetch h.filed h.olderStored
  -- what was accounted for stays, where something older is kept or asked for and it is not before all that
  have hstays : ∀ m, v.Accounted m → (v.olderMessages ≠ [] ∨ v.hasMore = false ∨ v.loadingOlder.isSome) →
      (v.hasMore = false ∨ (∃ a ∈ v.olderMessages, v.keyOf a < v.keyOf m) ∨ ∃ t ∈ v.loadingOlder, t ≤ m.timestamp) →
      v.refetch.Accounted m := by
    intro m hm hasked hpart
    rw [hacc]
    rcases hm with hm | hm
    · rcases h.mem_allMessages.1 hm with hm | hm
      · exact Or.inl hm
      · exact hslide hasked m hm
    · exact harrived m hm hpart
  refine ⟨⟨h.filed.key, h.filed.ids⟩, h.timed, hpass, h.olderStored,
    fun m hm => mem_history_of_newestPage (v := v) hm, ?_, ?_, ?_, ?_⟩
  · intro m hm m' hm' hlt
    rcases (hacc m).1 (Or.inl hm) with hm | hm
    · refine hstays m' (h.suffix m (h.mem_allMessages.2 (Or.inl hm)) m' hm' hlt) (Or.inl (List.ne_nil_of_mem hm)) ?_
      exact Or.inr (Or.inl ⟨m, hm, hlt⟩)
    · exact (hacc m').2 (Or.inr (h.filed.newestPage_upward hm hm' hlt))
  · intro hno m hm
    exact hstays m (h.complete hno m hm) (Or.inr (Or.inl hno)) (Or.inl hno)
  · intro t ht m hm hle
    have hload : v.loadingOlder.isSome := by rw [show v.loadingOlder = some t from ht]; rfl
    exact hstays m (h.asked t ht m hm hle) (Or.inr (Or.inr hload)) (Or.inr (Or.inr ⟨t, ht, hle⟩))
  · exact fun hlen => whole_refetch_of_small h.filed h.olderStored hlen

/-! An arrival -/

theorem accounted_arrive : (v.arrive a).Accounted m ↔ v.Accounted m ∨ m = a := by
  unfold Accounted
  rw [show (v.arrive a).arrived = v.arrived ++ [a] from rfl, List.mem_append, List.mem_singleton, or_assoc]
  exact Iff.rfl

theorem hasPrefix_keyOf (v : HistoryView) (m : ViewMessage) : Text.HasPrefix v.pre (v.keyOf m) := by
  unfold keyOf
  rw [String.append_assoc, String.append_assoc]
  exact Text.hasPrefix_append _ _

theorem Filed.scan_arrive (h : v.Filed) (hnew : ∀ m' ∈ v.history, v.keyOf m' ≠ v.keyOf a) :
    (scanPrefix v.pre (v.arrive a).store).Perm ((v.keyOf a, a) :: scanPrefix v.pre v.store) := by
  have hperm := scanPrefix_insert_perm (v := a) (t := v.store) (hasPrefix_keyOf v a)
  rwa [List.filter_eq_self.2] at hperm
  intro e he
  have hne := hnew e.2 (mem_history.2 ⟨e, he, rfl⟩)
  rw [← h.key e he] at hne
  simpa using hne

theorem Filed.perm_arrive (h : v.Filed) (hnew : ∀ m' ∈ v.history, v.keyOf m' ≠ v.keyOf a) :
    (v.arrive a).history.Perm (a :: v.history) :=
  (h.scan_arrive hnew).map fun e : String × ViewMessage => e.2

theorem Filed.arrive (h : v.Filed) (hfresh : ∀ m' ∈ v.history, m'.id ≠ a.id ∧ v.keyOf m' ≠ v.keyOf a) :
    (v.arrive a).Filed := by
  have hnew := fun m' hm' => (hfresh m' hm').2
  refine ⟨fun e he => ?_, ?_⟩
  · rcases List.mem_cons.1 ((h.scan_arrive hnew).mem_iff.1 he) with rfl | he
    · rfl
    · exact h.key e he
  · refine ((h.perm_arrive hnew).map _).nodup_iff.2 ?_
    rw [List.map_cons, List.nodup_cons]
    refine ⟨fun hid => ?_, h.ids⟩
    obtain ⟨m', hm', heq⟩ := List.mem_map.1 hid
    exact (hfresh m' hm').1 heq

theorem Inv.arrive (h : v.Inv) (hc : v.Careful (.arrive a)) : (v.arrive a).Inv := by
  obtain ⟨hfresh, htimed, hpass⟩ := hc
  have hhist := h.filed.perm_arrive fun m' hm' => (hfresh m' hm').2
  have hmem : ∀ m, m ∈ (v.arrive a).history ↔ m = a ∨ m ∈ v.history := fun m => by rw [hhist.mem_iff, List.mem_cons]
  have hgrow : ∀ m, v.Accounted m → (v.arrive a).Accounted m := fun m hm => accounted_arrive.2 (Or.inl hm)
  have hself : (v.arrive a).Accounted a := accounted_arrive.2 (Or.inr rfl)
  refine ⟨h.filed.arrive hfresh, htimed, hpass, ?_, ?_, ?_, ?_, ?_, ?_⟩
  · exact fun m hm => (hmem m).2 (Or.inr (h.olderStored m hm))
  · exact fun m hm => (hmem m).2 (Or.inr (h.newestStored m hm))
  · intro m hm m' hm' hlt
    rcases (hmem m').1 hm' with rfl | hm'
    · exact hself
    · exact hgrow m' (h.suffix m hm m' hm' hlt)
  · intro hno m hm
    rcases (hmem m).1 hm with rfl | hm
    · exact hself
    · exact hgrow m (h.complete hno m hm)
  · intro t ht m hm hle
    rcases (hmem m).1 hm with rfl | hm
    · exact hself
    · exact hgrow m (h.asked t ht m hm hle)
  · intro hlen m hm
    have hlen' : (v.arrive a).history.length = v.history.length + 1 := hhist.length_eq
    rcases (hmem m).1 hm with rfl | hm
    · exact hself
    · refine hgrow m (h.small ?_ m hm)
      have hkind : (v.arrive a).kind.pageSize = v.kind.pageSize := rfl
      omega

/-! The cursor -/

theorem exists_of_cursor (h : t ∈ v.cursor) : ∃ o ∈ v.allMessages, v.kind.Ordinary o ∧ o.timestamp = t := by
  obtain ⟨o, hfind, rfl⟩ := Option.map_eq_some_iff.1 h
  exact ⟨o, List.mem_of_find?_eq_some hfind, by simpa using List.find?_some hfind, rfl⟩

/-- It is the first time of those that may give it. -/
theorem exists_cursor (hm : m ∈ v.allMessages) (hord : v.kind.Ordinary m) : ∃ t ∈ v.cursor, t ≤ m.timestamp := by
  have hsome : (v.allMessages.find? fun m => v.kind.Ordinary m).isSome :=
    List.find?_isSome.2 ⟨m, hm, decide_eq_true hord⟩
  obtain ⟨o, hfind⟩ := Option.isSome_iff_exists.1 hsome
  refine ⟨o.timestamp, by rw [cursor, hfind]; rfl, ?_⟩
  obtain ⟨_, as, bs, heq, has⟩ := List.find?_eq_some_iff_append.1 hfind
  have hsorted : v.allMessages.Pairwise fun a b => a.timestamp ≤ b.timestamp := by
    have hle : v.allMessages.Pairwise fun a b => decide (a.timestamp ≤ b.timestamp) = true :=
      List.pairwise_mergeSort (fun a b c => by simpa using le_trans)
        (fun a b => by simpa using le_total a.timestamp b.timestamp) _
    exact hle.imp fun h => of_decide_eq_true h
  rw [heq] at hm hsorted
  rcases List.mem_append.1 hm with hm | hm
  · have hnot := has m hm
    simp [hord] at hnot
  · rcases List.mem_cons.1 hm with rfl | hm
    · exact le_rfl
    · exact List.rel_of_pairwise_cons (List.pairwise_append.1 hsorted).2.1 hm

/-- From the cursor on nothing is missing. -/
theorem Inv.accounted_of_cursor (h : v.Inv) (ht : t ∈ v.cursor) (hm : m ∈ v.history) (hle : t ≤ m.timestamp) :
    v.Accounted m := by
  obtain ⟨o, ho, hord, rfl⟩ := exists_of_cursor ht
  by_cases heq : m = o
  · rw [heq]
    exact Or.inl ho
  rcases h.filed.lt_or_lt (h.stored ho) hm (Ne.symm heq) with hlt | hlt
  · exact h.suffix o ho m hm hlt
  · by_cases hlen : v.history.length ≤ v.kind.pageSize
    · exact h.small hlen m hm
    · have hearlier := (h.timed (not_le.1 hlen) m hm o (h.stored ho) hlt).2 hord
      omega

theorem Inv.loading (h : v.Inv) {asked : Option ℤ}
    (hasked : ∀ t ∈ asked, ∀ m ∈ v.history, t ≤ m.timestamp → v.Accounted m) :
    ({ v with loadingOlder := asked } : HistoryView).Inv :=
  ⟨⟨h.filed.key, h.filed.ids⟩, h.timed, h.passable, h.olderStored, h.newestStored, h.suffix, h.complete, hasked,
    h.small⟩

theorem request_eq (hload : v.loadingOlder = none) (hmore : v.hasMore = true) (ht : t ∈ v.cursor) :
    v.request = { v with loadingOlder := some t } := by
  unfold request
  rw [if_neg (by simp [hload, hmore]), show v.cursor = some t from ht]

theorem Inv.request (h : v.Inv) : v.request.Inv := by
  unfold HistoryView.request
  split
  · exact h
  · cases hcursor : v.cursor with
    | none => exact h
    | some t =>
      refine h.loading fun t' ht' m hm hle => h.accounted_of_cursor (t := t') ?_ hm hle
      rw [hcursor]
      exact ht'

/-! An answer -/

/-- The view with its older messages replaced. -/
def joined (v : HistoryView) (older : List ViewMessage) (more : Bool) : HistoryView :=
  { v with loadingOlder := none, olderMessages := older, hasMore := more }

/-- What is kept then: the page that was asked for as well. -/
structure Joins (v : HistoryView) (t : ℤ) (older : List ViewMessage) (more : Bool) : Prop where
  mem : ∀ m, m ∈ older ↔ m ∈ v.fetch v.kind.serverLimit (some t) ∨ m ∈ v.olderMessages
  more : more = false → v.hasMore = false ∨ v.fetch v.kind.serverLimit (some t) = v.before t

variable {older : List ViewMessage} {more : Bool}

theorem respond_of_page (ht : v.loadingOlder = some t) (hpage : v.fetch v.kind.serverLimit (some t) ≠ []) :
    v.respond = v.joined (uniqueIds (v.fetch v.kind.serverLimit (some t) ++ v.olderMessages))
      (v.hasMore && decide (v.kind.pageSize ≤ (v.fetch v.kind.serverLimit (some t)).length)) := by
  unfold respond
  simp only [ht, if_neg hpage]
  rfl

theorem respond_of_none (ht : v.loadingOlder = some t) (hpage : v.fetch v.kind.serverLimit (some t) = []) :
    v.respond = v.joined v.olderMessages false := by
  unfold respond
  simp only [ht, if_pos hpage]
  rfl

theorem Inv.respond_eq (h : v.Inv) (ht : v.loadingOlder = some t) :
    ∃ older more, v.respond = v.joined older more ∧ v.Joins t older more := by
  have hpos := v.kind.pageSize_pos
  have hlimit := v.kind.pageSize_le
  by_cases hpage : v.fetch v.kind.serverLimit (some t) = []
  · refine ⟨v.olderMessages, false, respond_of_none ht hpage, fun m => by simp [hpage],
      fun _ => Or.inr (fetch_of_short ?_)⟩
    rw [hpage, List.length_nil]
    omega
  · refine ⟨_, _, respond_of_page ht hpage, fun m => ?_, fun hmore => ?_⟩
    · have hstored : ∀ x ∈ v.fetch v.kind.serverLimit (some t) ++ v.olderMessages, x ∈ v.history := by
        intro x hx
        rcases List.mem_append.1 hx with hx | hx
        · exact (mem_history_of_fetch hx).1
        · exact h.olderStored x hx
      rw [mem_uniqueIds fun a ha b hb hid => h.filed.id_inj (hstored a ha) (hstored b hb) hid, List.mem_append]
    · rcases Bool.and_eq_false_iff.1 hmore with hmore | hmore
      · exact Or.inl hmore
      · have hshort := of_decide_eq_false hmore
        exact Or.inr (fetch_of_short (by omega))

theorem Inv.joined_stored (h : v.Inv) (hj : v.Joins t older more) (hm : m ∈ older) : m ∈ v.history := by
  rcases (hj.mem m).1 hm with hm | hm
  · exact (mem_history_of_fetch hm).1
  · exact h.olderStored m hm

theorem Inv.mem_allMessages_joined (h : v.Inv) (hj : v.Joins t older more) :
    m ∈ (v.joined older more).allMessages ↔ m ∈ v.fetch v.kind.serverLimit (some t) ∨ m ∈ v.allMessages := by
  have hf : (v.joined older more).Filed := ⟨h.filed.key, h.filed.ids⟩
  have hall : m ∈ (v.joined older more).allMessages ↔ m ∈ older ∨ m ∈ v.messages :=
    hf.mem_allMessages (fun x hx => h.joined_stored hj hx) h.newestStored
  rw [hall, hj.mem, h.mem_allMessages, or_assoc]

theorem Inv.accounted_joined (h : v.Inv) (hj : v.Joins t older more) :
    (v.joined older more).Accounted m ↔ m ∈ v.fetch v.kind.serverLimit (some t) ∨ v.Accounted m := by
  unfold Accounted
  rw [h.mem_allMessages_joined hj, or_assoc]
  exact Iff.rfl

theorem Inv.whole_joined (h : v.Inv) (hj : v.Joins t older more) (hw : v.Whole) : (v.joined older more).Whole :=
  fun m hm => (h.accounted_joined hj).2 (Or.inr (hw m hm))

/-- A page of all that was before the cursor leaves nothing out. -/
theorem Inv.whole_of_page (h : v.Inv) (hj : v.Joins t older more) (ht : t ∈ v.loadingOlder)
    (hpage : v.fetch v.kind.serverLimit (some t) = v.before t) : (v.joined older more).Whole := by
  intro m hm
  rw [h.accounted_joined hj, hpage]
  by_cases hlt : m.timestamp < t
  · exact Or.inl (mem_before.2 ⟨hm, hlt⟩)
  · exact Or.inr (h.asked t ht m hm (not_lt.1 hlt))

/-- In chronological order what was before a time begins with what was before an earlier one. -/
theorem filter_before_prefix {t' : ℤ} (hl : l.Pairwise fun a b => a.timestamp ≤ b.timestamp) (hle : t' ≤ t) :
    (l.filter fun m => m.timestamp < t') <+: l.filter fun m => m.timestamp < t := by
  induction l with
  | nil => exact List.prefix_refl _
  | cons a l ih =>
    obtain ⟨ha, hl⟩ := List.pairwise_cons.1 hl
    by_cases hlt : a.timestamp < t'
    · rw [List.filter_cons_of_pos (by simpa using hlt), List.filter_cons_of_pos (by simpa using hlt.trans_le hle)]
      exact (List.prefix_cons_inj a).2 (ih hl)
    · have hnil : ((a :: l).filter fun m => m.timestamp < t') = [] := by
        refine List.filter_eq_nil_iff.2 fun m hm hearly => ?_
        have hearlier : m.timestamp < t' := by simpa using hearly
        rcases List.mem_cons.1 hm with rfl | hm
        · exact hlt hearlier
        · exact hlt ((ha m hm).trans_lt hearlier)
      rw [hnil]
      exact List.nil_prefix

theorem Inv.chronological (h : v.Inv) (hlen : v.kind.pageSize < v.history.length) :
    v.history.Pairwise fun a b => a.timestamp ≤ b.timestamp :=
  h.filed.sorted.imp_of_mem fun ha hb hlt => (h.timed hlen _ ha _ hb hlt).1

/-- Behind the first cursor the next ones find no other pages. -/
theorem Inv.passable_joined (h : v.Inv) (hj : v.Joins t older more) : (v.joined older more).Passable := by
  by_cases hw : v.Whole
  · exact Or.inl (h.whole_joined hj hw)
  obtain ⟨t₀, ht₀, hrows⟩ := h.passable.resolve_left hw
  obtain ⟨o, ho, hord, rfl⟩ := exists_of_cursor ht₀
  have ho' : o ∈ (v.joined older more).allMessages := (h.mem_allMessages_joined hj).2 (Or.inr ho)
  obtain ⟨t', ht', hle⟩ := exists_cursor ho' hord
  have hlen : v.kind.pageSize < v.history.length := not_le.1 fun hlen => hw (h.small hlen)
  obtain ⟨rest, hrest⟩ := filter_before_prefix (h.chronological hlen) hle
  refine Or.inr ⟨t', ht', fun front page back heq => hrows front page (back ++ rest) ?_⟩
  have heq' : (v.history.filter fun m => m.timestamp < t') = front ++ page ++ back := heq
  rw [← hrest, heq', List.append_assoc]

theorem Inv.joined (h : v.Inv) (ht : t ∈ v.loadingOlder) (hj : v.Joins t older more) : (v.joined older more).Inv := by
  refine ⟨⟨h.filed.key, h.filed.ids⟩, h.timed, h.passable_joined hj, fun m hm => h.joined_stored hj hm, h.newestStored,
    ?_, ?_, ?_, fun hlen => h.whole_joined hj (h.small hlen)⟩
  · intro m hm m' hm' hlt
    rw [h.accounted_joined hj]
    rcases (h.mem_allMessages_joined hj).1 hm with hm | hm
    · by_cases hearly : m'.timestamp < t
      · exact Or.inl (h.filed.fetch_upward hm hm' hearly hlt)
      · exact Or.inr (h.asked t ht m' hm' (not_lt.1 hearly))
    · exact Or.inr (h.suffix m hm m' hm' hlt)
  · intro hno
    rcases hj.more hno with hno | hpage
    · exact h.whole_joined hj (h.complete hno)
    · exact h.whole_of_page hj ht hpage
  · intro t' ht'
    cases ht'

theorem Inv.respond (h : v.Inv) : v.respond.Inv := by
  cases ht : v.loadingOlder with
  | none =>
    unfold HistoryView.respond
    rw [ht]
    exact h
  | some t =>
    obtain ⟨older, more, heq, hj⟩ := h.respond_eq ht
    rw [heq]
    exact h.joined ht hj

/-! Loading on -/

theorem before_length_lt {t' : ℤ} (hm : m ∈ v.before t) (hle : t' ≤ m.timestamp) :
    (v.before t').length < (v.before t).length := by
  have hlt : m.timestamp < t := (mem_before.1 hm).2
  have heq : v.before t' = (v.before t).filter fun x => x.timestamp < t' := by
    unfold before
    rw [List.filter_filter]
    refine List.filter_congr fun x _ => ?_
    rw [Bool.eq_iff_iff, Bool.and_eq_true, decide_eq_true_eq, decide_eq_true_eq]
    omega
  rw [heq]
  refine List.length_filter_lt_length_iff_exists.2 ⟨m, hm, ?_⟩
  simpa using hle

/-- The page that is asked for is all there is, or has a message with an earlier cursor. -/
theorem Inv.page_cases (h : v.Inv) (hw : ¬ v.Whole) : ∃ t ∈ v.cursor,
    v.fetch v.kind.serverLimit (some t) = v.before t ∨
      ∃ p ∈ v.fetch v.kind.serverLimit (some t), v.kind.Ordinary p := by
  obtain ⟨t, ht, hrows⟩ := h.passable.resolve_left hw
  refine ⟨t, ht, ?_⟩
  rw [fetch_some]
  by_cases hlen : (v.before t).length ≤ v.kind.serverLimit
  · left
    rw [Nat.sub_eq_zero_of_le hlen, List.drop_zero]
  · right
    have hlen' := not_le.1 hlen
    refine hrows ((v.before t).take ((v.before t).length - v.kind.serverLimit)) _ [] ?_ ?_ ?_
    · rw [List.append_nil, List.take_append_drop]
      rfl
    · rw [List.length_drop]
      omega
    · refine List.ne_nil_of_length_pos ?_
      rw [List.length_take]
      omega

/-- One page more: it shows everything or moves the cursor on. -/
theorem Inv.loadOlder_cases (h : v.Inv) (hload : v.loadingOlder = none) (hw : ¬ v.Whole) :
    v.loadOlder.Inv ∧ v.loadOlder.loadingOlder = none ∧ (v.loadOlder.Whole ∨
      ∃ t ∈ v.cursor, ∀ t' ∈ v.loadOlder.cursor, (v.loadOlder.before t').length < (v.before t).length) := by
  obtain ⟨t, ht, hpage⟩ := h.page_cases hw
  have hmore : v.hasMore = true := by
    by_contra hno
    exact hw (h.complete (by simpa using hno))
  have hreq : v.request.Inv := h.request
  rw [request_eq hload hmore ht] at hreq
  obtain ⟨older, more, heq, hj⟩ := hreq.respond_eq rfl
  rw [loadOlder, request_eq hload hmore ht, heq]
  refine ⟨hreq.joined rfl hj, rfl, ?_⟩
  rcases hpage with hpage | ⟨p, hp, hord⟩
  · exact Or.inl (hreq.whole_of_page hj rfl hpage)
  · right
    refine ⟨t, ht, fun t' ht' => ?_⟩
    obtain ⟨t'', ht'', hle⟩ := exists_cursor ((hreq.mem_allMessages_joined hj).2 (Or.inl hp)) hord
    cases Option.mem_unique ht' ht''
    exact before_length_lt (mem_before.2 (mem_history_of_fetch hp)) hle

/-- By induction on how many messages are before the cursor. -/
theorem Inv.exists_whole (h : v.Inv) (hload : v.loadingOlder = none)
    (hn : ∀ t ∈ v.cursor, (v.before t).length < n) : ∃ k, (loadOlder^[k] v).Whole := by
  induction n using Nat.strong_induction_on generalizing v with
  | h n ih =>
    by_cases hw : v.Whole
    · exact ⟨0, hw⟩
    obtain ⟨hinv, hload', hw' | ⟨t, ht, hlt⟩⟩ := h.loadOlder_cases hload hw
    · exact ⟨1, hw'⟩
    · obtain ⟨k, hk⟩ := ih _ (hn t ht) hinv hload' hlt
      exact ⟨k + 1, hk⟩

theorem Inv.reaches (h : v.Inv) : ∃ k, (loadOlder^[k] v).Whole := by
  have hbound : ∀ w : HistoryView, ∀ t ∈ w.cursor, (w.before t).length < w.history.length + 1 := fun w t _ =>
    Nat.lt_succ_of_le (List.length_filter_le _ _)
  cases hload : v.loadingOlder with
  | none => exact h.exists_whole hload (hbound v)
  | some t =>
    -- the page that is under way comes first
    have hfirst : v.loadOlder = v.respond := by
      rw [loadOlder, HistoryView.request, if_pos (by simp [hload])]
    obtain ⟨older, more, heq, hj⟩ := h.respond_eq hload
    obtain ⟨k, hk⟩ := (h.joined hload hj).exists_whole rfl (hbound _)
    refine ⟨k + 1, ?_⟩
    rw [Function.iterate_succ_apply, hfirst, heq]
    exact hk

theorem Inv.sound (h : v.Inv) : v.Sound :=
  ⟨fun _ hm => h.stored hm, unique_allMessages v, h.suffix, h.complete, h.reaches⟩

theorem Inv.step (h : v.Inv) {e : HistoryEvent} (hc : v.Careful e) : (v.step e).Inv := by
  cases e with
  | refetch => exact h.refetch hc
  | arrive m => exact h.arrive hc
  | request => exact h.request
  | respond => exact h.respond
  | fail =>
    refine h.loading fun t ht => ?_
    cases ht

theorem inv_of_init (h : (historyViewSys Fit).init v) : v.Inv := by
  obtain ⟨⟨kind, pre, store, rfl, _⟩, hfit⟩ := h
  exact inv_refetch_of_none hfit rfl rfl rfl

def sent (n : ℕ) : ViewMessage := ⟨toString n, n, none⟩

/-- A group's view that has nothing. -/
def noneSent : HistoryView := ⟨.group, "g:", ∅, [], [], true, none, []⟩

theorem noneSent_history : noneSent.history = [] := rfl

theorem noneSent_filed : noneSent.Filed := by
  have hscan : scanPrefix noneSent.pre noneSent.store = [] := List.map_eq_nil_iff.1 noneSent_history
  refine ⟨fun e he => ?_, ?_⟩
  · rw [hscan] at he
    cases he
  · rw [noneSent_history]
    exact List.nodup_nil

/-- What arrives last is filed last. -/
theorem Filed.history_arrive (h : v.Filed) (hlast : ∀ m ∈ v.history, v.keyOf m < v.keyOf a) :
    (v.arrive a).history = v.history ++ [a] := by
  have hscan : scanPrefix v.pre (v.arrive a).store = scanPrefix v.pre v.store ++ [(v.keyOf a, a)] := by
    have hperm := (h.scan_arrive fun m hm => ne_of_lt (hlast m hm)).trans (List.perm_append_singleton _ _).symm
    have hsorted : (scanPrefix v.pre (v.arrive a).store).Pairwise fun e e' => e.1 < e'.1 := (keys_sorted _).filter _
    refine hperm.eq_of_pairwise (fun e e' _ _ hlt hgt => (lt_asymm hlt hgt).elim) hsorted ?_
    refine List.pairwise_append.2 ⟨(keys_sorted _).filter _, List.pairwise_singleton _ _, fun e he e' he' => ?_⟩
    rw [List.mem_singleton.1 he', h.key e he]
    exact hlast e.2 (mem_history.2 ⟨e, he, rfl⟩)
  unfold history
  rw [show (v.arrive a).pre = v.pre from rfl, hscan, List.map_append]
  rfl

theorem Filed.foldl_arrive {ms : List ViewMessage} (h : v.Filed)
    (hkeys : (v.history ++ ms).Pairwise fun a b => v.keyOf a < v.keyOf b)
    (hids : ((v.history ++ ms).map (·.id)).Nodup) :
    (ms.foldl HistoryView.arrive v).Filed ∧ (ms.foldl HistoryView.arrive v).history = v.history ++ ms := by
  induction ms generalizing v with
  | nil => exact ⟨h, (List.append_nil _).symm⟩
  | cons a ms ih =>
    have hlast : ∀ m ∈ v.history, v.keyOf m < v.keyOf a := fun m hm =>
      (List.pairwise_append.1 hkeys).2.2 m hm a List.mem_cons_self
    have hother : ∀ m ∈ v.history, m.id ≠ a.id := by
      intro m hm hid
      rw [List.map_append, List.map_cons] at hids
      exact List.disjoint_of_nodup_append hids (List.mem_map_of_mem hm) (hid ▸ List.mem_cons_self)
    have hhist := h.history_arrive hlast
    have happ : (v.arrive a).history ++ ms = v.history ++ a :: ms := by
      rw [hhist, List.append_assoc]
      rfl
    rw [List.foldl_cons, ← happ]
    refine ih (h.arrive fun m hm => ⟨hother m hm, ne_of_lt (hlast m hm)⟩) ?_ ?_
    · rw [happ]
      exact hkeys
    · rw [happ]
      exact hids

theorem pre_foldl_arrive (ms : List ViewMessage) (v : HistoryView) : (ms.foldl HistoryView.arrive v).pre = v.pre := by
  induction ms generalizing v with
  | nil => rfl
  | cons a ms ih => exact ih (v.arrive a)

def sents (n : ℕ) : List ViewMessage := (List.range n).map sent

/-- What there is to compute of them. -/
theorem sents_evaluated : ((sents 52).IsChain fun a b => noneSent.keyOf a < noneSent.keyOf b) ∧
    ((sents 52).map (·.id)).Nodup ∧
    (sents 51).drop ((sents 51).length - HistoryKind.group.pageSize) = (sents 51).drop 1 ∧
    sent 1 ∈ (sents 51).drop 1 ∧ (∀ m ∈ (sents 51).drop 1, 1 ≤ m.timestamp) ∧
    (sents 51).filter (fun m => m.timestamp < 1) = [sent 0] ∧ sent 1 ∈ sents 52 ∧ sent 1 ∉ [sent 0] ∧
    sent 1 ∉ (sents 52).drop ((sents 52).length - HistoryKind.group.pageSize) := by
  decide +kernel

theorem sents_keys : (sents 52).Pairwise fun a b => noneSent.keyOf a < noneSent.keyOf b :=
  List.isChain_iff_pairwise.1 sents_evaluated.1

theorem sents_ids : ((sents 52).map (·.id)).Nodup := sents_evaluated.2.1

theorem sents_succ (n : ℕ) : sents (n + 1) = sents n ++ [sent n] := by
  unfold sents
  rw [List.range_succ, List.map_append]
  rfl

/-- Opened on fifty-one messages. -/
structure FiftyOne (v : HistoryView) : Prop where
  filed : v.Filed
  history : v.history = sents 51
  kind : v.kind = .group
  pre : v.pre = "g:"
  messages : v.messages = v.newestPage
  older : v.olderMessages = []
  more : v.hasMore = true

theorem FiftyOne.opened (hf : v.Filed) (hhist : v.history = sents 51) (hpre : v.pre = "g:") :
    (opened .group "g:" v.store).FiftyOne := by
  obtain ⟨hkey, hids⟩ := hf
  unfold keyOf at hkey
  unfold HistoryView.history at hids hhist
  rw [hpre] at hkey hids hhist
  exact ⟨⟨hkey, hids⟩, hhist, rfl, rfl, rfl, rfl, rfl⟩

theorem exists_fiftyOne : ∃ store, (HistoryView.opened .group "g:" store).FiftyOne := by
  have hkeys := sents_keys
  have hids := sents_ids
  rw [sents_succ 51] at hkeys hids
  rw [List.map_append] at hids
  have hkeys' : (noneSent.history ++ sents 51).Pairwise fun a b => noneSent.keyOf a < noneSent.keyOf b := by
    rw [noneSent_history]
    exact (List.pairwise_append.1 hkeys).1
  have hids' : ((noneSent.history ++ sents 51).map (·.id)).Nodup := by
    rw [noneSent_history]
    exact hids.of_append_left
  obtain ⟨hf, hhist⟩ := noneSent_filed.foldl_arrive hkeys' hids'
  rw [noneSent_history, List.nil_append] at hhist
  exact ⟨_, FiftyOne.opened hf hhist (pre_foldl_arrive _ _)⟩

theorem FiftyOne.newest (h : v.FiftyOne) : v.messages = (sents 51).drop 1 := by
  rw [h.messages, newestPage_eq, h.history, h.kind]
  exact sents_evaluated.2.2.1

theorem FiftyOne.cursor (h : v.FiftyOne) : (1 : ℤ) ∈ v.cursor := by
  have hord : v.kind.Ordinary (sent 1) := by
    rw [h.kind]
    decide
  have hshown : sent 1 ∈ v.allMessages := by
    refine (h.filed.mem_allMessages (fun m hm => ?_) fun m hm => ?_).2 (Or.inr ?_)
    · rw [h.older] at hm
      cases hm
    · rw [h.messages] at hm
      exact mem_history_of_newestPage hm
    · rw [h.newest]
      exact sents_evaluated.2.2.2.1
  obtain ⟨t, ht, hle⟩ := exists_cursor hshown hord
  obtain ⟨o, ho, _, rfl⟩ := exists_of_cursor ht
  have hpos : ∀ m ∈ (sents 51).drop 1, 1 ≤ m.timestamp := sents_evaluated.2.2.2.2.1
  have hfirst : 1 ≤ o.timestamp := by
    rcases mem_pages_of_shown ho with ho | ho
    · rw [h.older] at ho
      cases ho
    · exact hpos o (h.newest ▸ ho)
  rwa [le_antisymm hle hfirst] at ht

/-- The page before has the first message, and is no full one. -/
theorem FiftyOne.respond (h : v.FiftyOne) (hload : v.loadingOlder = some 1) : v.respond = v.joined [sent 0] false := by
  have hbefore : v.before 1 = [sent 0] := by
    rw [before, h.history]
    exact sents_evaluated.2.2.2.2.2.1
  have hpage : v.fetch v.kind.serverLimit (some 1) = [sent 0] := by
    rw [fetch_some, hbefore, h.kind]
    rfl
  have hshort : decide (HistoryKind.group.pageSize ≤ [sent 0].length) = false := by decide
  rw [respond_of_page hload (by simp [hpage]), hpage, h.older, h.kind, hshort, Bool.and_false]
  rfl

theorem FiftyOne.loadOlder (h : v.FiftyOne) (hload : v.loadingOlder = none) : v.loadOlder = v.joined [sent 0] false := by
  have hasked : FiftyOne { v with loadingOlder := some 1 } :=
    ⟨⟨h.filed.key, h.filed.ids⟩, h.history, h.kind, h.pre, h.messages, h.older, h.more⟩
  rw [HistoryView.loadOlder, request_eq hload h.more h.cursor, hasked.respond rfl]
  rfl

/-- What is on neither page is lost. -/
theorem not_whole_refetch (hm : m ∈ v.history) (hold : m ∉ v.olderMessages) (hnew : m ∉ v.newestPage) :
    ¬ v.refetch.Whole := by
  intro h
  rcases h m hm with hm | hm
  · rcases mem_pages_of_shown hm with hm | hm
    · exact hold hm
    · exact hnew hm
  · cases hm

/-- With one message more the second falls out of the newest page. -/
theorem FiftyOne.not_whole (h : v.FiftyOne) : ¬ ((v.joined [sent 0] false).arrive (sent 51)).refetch.Whole := by
  have hf : (v.joined [sent 0] false).Filed := ⟨h.filed.key, h.filed.ids⟩
  have hhist : (v.joined [sent 0] false).history = sents 51 := h.history
  have hkeys : (sents 52).Pairwise fun a b => v.keyOf a < v.keyOf b := by
    unfold keyOf
    rw [h.pre]
    exact sents_keys
  rw [sents_succ 51] at hkeys
  have hnext : ((v.joined [sent 0] false).arrive (sent 51)).history = sents 52 := by
    rw [hf.history_arrive, hhist, ← sents_succ 51]
    rw [hhist]
    exact fun m hm => (List.pairwise_append.1 hkeys).2.2 m hm _ (List.mem_singleton.2 rfl)
  refine not_whole_refetch (m := sent 1) ?_ ?_ ?_
  · rw [hnext]
    exact sents_evaluated.2.2.2.2.2.2.1
  · exact sents_evaluated.2.2.2.2.2.2.2.1
  · rw [newestPage_eq, hnext, show ((v.joined [sent 0] false).arrive (sent 51)).kind = .group from h.kind]
    exact sents_evaluated.2.2.2.2.2.2.2.2

/-- A page back, a message, and the newest page again. -/
def pageBack (m : ViewMessage) : List HistoryEvent := [.request, .respond, .arrive m, .refetch]

theorem foldl_pageBack {P : HistoryView → Prop} (v : HistoryView) (m : ViewMessage) :
    (pageBack m).foldl (historyViewSys P).step v = (v.loadOlder.arrive m).refetch := rfl

end HistoryView
end Variance
