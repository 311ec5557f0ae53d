import Variance.Proofs.MailboxLimits
import Variance.Spec.KeyOrder

/-! A fetch gives the earliest of what a mailbox has just where the keys tell the messages' own timestamps and no two
of these are negative and differ; with a limit of nothing, just where the mailbox is empty. -/

namespace Variance

theorem isI64_of_keyTimestamp {key : String} {t : ℤ} (h : keyTimestamp key = some t) : IsI64 t := by
  unfold keyTimestamp at h
  split at h
  · cases h
  · obtain ⟨p, -, hp⟩ := Option.bind_eq_some_iff.1 h
    exact Text.parseI64_bounds hp

namespace RelayStore
variable {s : RelayStore} {mailboxToken : Bytes} {since : Option ℤ}

/-- Every envelope lies under the key of its own mailbox and time. -/
theorem key_eq {k : String} {e : OfflineMessageEnvelope} (h : s.tree[k]? = some e) :
    ∃ id, k = offlineKey e.mailboxToken e.sentAt id := by
  obtain ⟨m, hm, hk⟩ := s.filed k e h
  refine ⟨m.id, ?_⟩
  rw [← hk, OfflineMessageEnvelope.sentAt, hm]
  rfl

theorem mem_mailbox {x : String × OfflineMessageEnvelope} :
    x ∈ s.mailbox mailboxToken ↔ s.tree[x.1]? = some x.2 ∧ x.2.mailboxToken = mailboxToken := by
  rw [mailbox, mem_scanPrefix]
  refine and_congr_right fun hx => ?_
  obtain ⟨id, hk⟩ := key_eq hx
  rw [hk, hasPrefix_offlineKey_iff]
  exact eq_comm

/-- The scan of the mailbox's prefix has the mailbox's envelopes and no other's. -/
theorem waiting_eq : s.waiting mailboxToken since =
    ((s.mailbox mailboxToken).filter fun x => ∀ t ∈ since, t < x.2.sentAt).map (·.2) := by
  rw [waiting, List.filter_map, mailbox, scanPrefix, List.filter_filter]
  refine congrArg _ (List.filter_congr fun x hx => ?_)
  have hx' : x ∈ s.mailbox mailboxToken ↔ x.2.mailboxToken = mailboxToken :=
    mem_mailbox.trans (and_iff_right ((mem_iter _).1 hx))
  have hpre : Text.HasPrefix (mailboxPrefix mailboxToken) x.1 ↔ x.2.mailboxToken = mailboxToken := by
    rw [← hx', mailbox, scanPrefix, List.mem_filter, decide_eq_true_iff, and_iff_right hx]
  simp only [Function.comp_apply, hpre, Bool.decide_and]
  exact Bool.and_comm _ _

theorem waiting_none : s.waiting mailboxToken none = (s.mailbox mailboxToken).map (·.2) := by
  rw [waiting_eq, List.filter_eq_self.2 fun _ _ => by simp]

theorem laterThan_none : s.laterThan mailboxToken none = s.waiting mailboxToken none := by
  have hall : ∀ x ∈ s.mailbox mailboxToken, isLater none x.1 = true := fun _ _ => rfl
  rw [waiting_none, laterThan, List.filter_eq_self.2 hall]

/-- How many there are to fetch is what is counted. -/
theorem count_eq : s.countOfflineForMailbox mailboxToken = (s.waiting mailboxToken none).length := by
  rw [waiting_none, List.length_map]
  rfl

/-- A mailbox is in the order of its keys. -/
theorem keys_mailbox : (s.mailbox mailboxToken).Pairwise fun x y => x.1 < y.1 := (keys_sorted s.tree).filter _

/-- So its timestamps are in the order of padded ones. -/
theorem stamped_of_key_lt {x y : String × OfflineMessageEnvelope} (hx : x ∈ s.mailbox mailboxToken)
    (hy : y ∈ s.mailbox mailboxToken) (hxi : IsI64 x.2.sentAt) (hyi : IsI64 y.2.sentAt) (h : x.1 < y.1) :
    StampedBefore x.2.sentAt y.2.sentAt ∨ x.2.sentAt = y.2.sentAt := by
  obtain ⟨hxs, hxt⟩ := mem_mailbox.1 hx
  obtain ⟨hys, hyt⟩ := mem_mailbox.1 hy
  obtain ⟨i, hi⟩ := key_eq hxs
  obtain ⟨j, hj⟩ := key_eq hys
  rw [hi, hj, hxt, hyt] at h
  exact ((filedUnder_lt_iff hxi hyi).1 h).imp_right And.left

/-- Which entries a scan takes is told by which envelopes it gives. -/
theorem mem_laterThan {x : String × OfflineMessageEnvelope} (hx : x ∈ s.mailbox mailboxToken) :
    x.2 ∈ s.laterThan mailboxToken since ↔ isLater since x.1 = true := by
  rw [laterThan, List.mem_map]
  constructor
  · rintro ⟨y, hy, hyx⟩
    obtain ⟨hmem, hlater⟩ := List.mem_filter.1 hy
    have hentry : y = x := by rw [← envelopeKey_of_mem hmem, ← envelopeKey_of_mem hx, hyx]
    exact hentry ▸ hlater
  · intro hlater
    exact ⟨x, List.mem_filter.2 ⟨hx, hlater⟩, rfl⟩

theorem mem_waiting {x : String × OfflineMessageEnvelope} (hx : x ∈ s.mailbox mailboxToken) :
    x.2 ∈ s.waiting mailboxToken since ↔ ∀ t ∈ since, t < x.2.sentAt := by
  obtain ⟨hstored, htoken⟩ := mem_mailbox.1 hx
  have hvalue : x.2 ∈ s.tree.toList.map (·.2) := List.mem_map_of_mem ((mem_iter _).2 hstored)
  rw [waiting, List.mem_filter, decide_eq_true_iff, and_iff_right hvalue, and_iff_right htoken]

/-- A key that is passed over for the right times tells its time. -/
theorem keyTimestamp_of_isLater {key : String} {ts : ℤ} (hts : IsI64 ts)
    (h : ∀ t, IsI64 t → (isLater (some t) key = true ↔ t < ts)) : keyTimestamp key = some ts := by
  cases hk : keyTimestamp key with
  | none =>
    have hgreatest := h (2 ^ 63 - 1) (by decide)
    have hnever : isLater (some (2 ^ 63 - 1)) key = true := by
      unfold isLater
      rw [hk]
    have := hgreatest.1 hnever
    unfold IsI64 at hts
    omega
  | some q =>
    have hread (t : ℤ) : isLater (some t) key = true ↔ t < q := by
      rw [isLater_iff hk]
      simp
    have hq := (h q (isI64_of_keyTimestamp hk)).symm.trans (hread q)
    have hself := (h ts hts).symm.trans (hread ts)
    rw [show q = ts by omega]

/-- In a list that is sorted by a key, what holds down the list holds up the key. -/
theorem rel_of_key_lt {α : Type} {key : α → String} {R : α → α → Prop} {l : List α} {a b : α}
    (hk : l.Pairwise fun a b => key a < key b) (hr : l.Pairwise R) (ha : a ∈ l) (hb : b ∈ l) (h : key a < key b) :
    R a b := by
  induction l with
  | nil => cases ha
  | cons c l ih =>
    obtain ⟨hkc, hk⟩ := List.pairwise_cons.1 hk
    obtain ⟨hrc, hr⟩ := List.pairwise_cons.1 hr
    rcases List.mem_cons.1 hb with rfl | hbl
    · rcases List.mem_cons.1 ha with rfl | hal
      · exact absurd h (lt_irrefl _)
      · exact absurd h (lt_asymm (hkc a hal))
    · rcases List.mem_cons.1 ha with rfl | hal
      · exact hrc b hbl
      · exact ih hk hr hal hbl

/-- A mailbox whose keys tell is in the order of time. -/
theorem KeysTell.sorted (h : s.KeysTell mailboxToken) (hs : s.Typed) :
    (s.mailbox mailboxToken).Pairwise fun x y => x.2.sentAt ≤ y.2.sentAt := by
  refine keys_mailbox.imp_of_mem fun {x y} hx hy hxy => ?_
  have hxi := hs _ _ (mem_mailbox.1 hx).1
  have hyi := hs _ _ (mem_mailbox.1 hy).1
  have htimed := h.timed x.2 ((mem_waiting hx).2 (by simp)) y.2 ((mem_waiting hy).2 (by simp))
  rcases stamped_of_key_lt hx hy hxi hyi hxy with hbefore | heq
  · exact le_of_lt ((stampedBefore_iff htimed).1 hbefore)
  · exact le_of_eq heq

theorem KeysTell.serves (h : s.KeysTell mailboxToken) (hs : s.Typed) {limit : ℕ} (h0 : 0 < limit) :
    s.ServesEarliest mailboxToken limit := by
  intro since _
  have hlater : s.laterThan mailboxToken since = s.waiting mailboxToken since := by
    rw [waiting_eq, laterThan]
    refine congrArg _ (List.filter_congr fun x hx => ?_)
    obtain ⟨hstored, htoken⟩ := mem_mailbox.1 hx
    rw [Bool.eq_iff_iff, decide_eq_true_iff]
    exact isLater_iff (h.read x.1 x.2 hstored htoken)
  rw [fetchOffline_eq, hlater, Nat.max_eq_right h0]
  refine Paging.earliest_take ?_
  rw [waiting_eq]
  exact List.pairwise_map.2 ((h.sorted hs).filter _)

/-- Keys tell where no id has a colon and no timestamp is negative. -/
theorem keysTell_of_plain (hs : s.Typed) (h : ∀ (k : String) (e : OfflineMessageEnvelope), s.tree[k]? = some e →
    e.mailboxToken = mailboxToken → 0 ≤ e.sentAt ∧ ∀ m ∈ e.message, ':' ∉ m.id.toList) : s.KeysTell mailboxToken where
  read k e hk ht := by
    obtain ⟨m, hm, hkey⟩ := s.filed k e hk
    have hsent : e.sentAt = m.timestamp := by
      rw [OfflineMessageEnvelope.sentAt, hm]
      rfl
    have hi64 := hs k e hk
    rw [← hkey, hsent]
    rw [hsent] at hi64
    exact keyTimestamp_offlineKey ((h k e hk ht).2 m hm) hi64.1 hi64.2
  timed e he e' _ hneg _ := by
    rw [waiting_none] at he
    obtain ⟨x, hx, rfl⟩ := List.mem_map.1 he
    obtain ⟨hstored, htoken⟩ := mem_mailbox.1 hx
    exact absurd (h x.1 x.2 hstored htoken).1 (not_le.2 hneg)

/-- With room enough a fetch gives all that it does not pass over. -/
theorem perm_of_serves (h : ∀ limit, 0 < limit → s.ServesEarliest mailboxToken limit) (since : Option ℤ)
    (hsince : ∀ t ∈ since, IsI64 t) : (s.laterThan mailboxToken since).Perm (s.waiting mailboxToken since) ∧
      (s.laterThan mailboxToken since).Pairwise fun a b => a.sentAt ≤ b.sentAt := by
  have hserved := h ((s.laterThan mailboxToken since).length + (s.waiting mailboxToken since).length + 1)
    (Nat.succ_pos _) since hsince
  rw [fetchOffline_eq, List.take_of_length_le (by omega)] at hserved
  exact ⟨hserved.perm (by omega), hserved.sorted⟩

/-- In a mailbox that is in the order of time no two timestamps are negative and differ. -/
theorem not_lt_of_sorted (hs : s.Typed) (h : (s.mailbox mailboxToken).Pairwise fun x y => x.2.sentAt ≤ y.2.sentAt)
    {x y : String × OfflineMessageEnvelope} (hx : x ∈ s.mailbox mailboxToken) (hy : y ∈ s.mailbox mailboxToken)
    (hy0 : y.2.sentAt < 0) : ¬ x.2.sentAt < y.2.sentAt := by
  intro hlt
  have hxi := hs _ _ (mem_mailbox.1 hx).1
  have hyi := hs _ _ (mem_mailbox.1 hy).1
  rcases lt_trichotomy x.1 y.1 with hxy | heq | hyx
  · have hstamped := stamped_of_key_lt hx hy hxi hyi hxy
    unfold StampedBefore at hstamped
    omega
  · have hsame := (mem_mailbox.1 hx).1
    rw [heq, (mem_mailbox.1 hy).1] at hsame
    rw [Option.some.inj hsame] at hlt
    exact lt_irrefl _ hlt
  · have hle := rel_of_key_lt keys_mailbox h hy hx hyx
    omega

theorem keysTell_of_serves (hs : s.Typed) (h : ∀ limit, 0 < limit → s.ServesEarliest mailboxToken limit) :
    s.KeysTell mailboxToken := by
  constructor
  · intro k e hk ht
    have hx : (k, e) ∈ s.mailbox mailboxToken := mem_mailbox.2 ⟨hk, ht⟩
    refine keyTimestamp_of_isLater (hs k e hk) fun t hti => ?_
    have hperm := (perm_of_serves h (some t) (by simpa using hti)).1
    rw [← mem_laterThan hx, hperm.mem_iff, mem_waiting hx]
    simp
  · have hsorted : (s.mailbox mailboxToken).Pairwise fun x y => x.2.sentAt ≤ y.2.sentAt := by
      have hall := (perm_of_serves h none (by simp)).2
      rw [laterThan_none, waiting_none, List.pairwise_map] at hall
      exact hall
    intro e he e' he' hneg hneg'
    rw [waiting_none] at he he'
    obtain ⟨x, hx, rfl⟩ := List.mem_map.1 he
    obtain ⟨y, hy, rfl⟩ := List.mem_map.1 he'
    exact le_antisymm (not_lt.1 (not_lt_of_sorted hs hsorted hy hx hneg))
      (not_lt.1 (not_lt_of_sorted hs hsorted hx hy hneg'))

/-- The loop looks at the limit only when an envelope has been taken. -/
theorem serves_zero_iff : s.ServesEarliest mailboxToken 0 ↔ s.waiting mailboxToken none = [] := by
  constructor
  · intro h
    have hlen := (h none (by simp)).length
    rw [fetchOffline_eq, laterThan_none, List.length_take] at hlen
    exact List.length_eq_zero_iff.1 (by omega)
  · intro h since _
    rw [waiting_none, List.map_eq_nil_iff] at h
    have hwaiting : s.waiting mailboxToken since = [] := by rw [waiting_eq, h]; rfl
    have hlater : s.laterThan mailboxToken since = [] := by rw [laterThan, h]; rfl
    rw [fetchOffline_eq, hlater, hwaiting]
    exact Paging.earliest_take List.Pairwise.nil

/-- For every store and mailbox: the fetches with a limit give the earliest envelopes, from whatever time on, if and
only if the keys tell; and a fetch with a limit of nothing does if and only if there is nothing. -/
theorem fetchOffline_earliest_iff (s : RelayStore) (hs : s.Typed) (mailboxToken : Bytes) :
    ((∀ limit, 0 < limit → s.ServesEarliest mailboxToken limit) ↔ s.KeysTell mailboxToken) ∧
      (s.ServesEarliest mailboxToken 0 ↔ s.waiting mailboxToken none = []) :=
  ⟨⟨keysTell_of_serves hs, fun h _ h0 => h.serves hs h0⟩, serves_zero_iff⟩

end RelayStore
namespace MailboxOrder

open RelayPaging

/-- A relay that was given two envelopes. -/
def relay (e e' : OfflineMessageEnvelope) : RelayStore := ((RelayStore.empty.storeOffline e).2.storeOffline e').2

/-- With a colon in its id an envelope from before the time asked for is given; of two with negative timestamps the
later one is given first; and one is given where none was asked for. -/
theorem fetch_misleads :
    (¬ (relay (envelope "x" 1 1) (envelope "a:b" 2 2)).ServesEarliest [0] 10 ∧
      (relay (envelope "x" 1 1) (envelope "a:b" 2 2)).fetchOffline [0] (some 5) 10 = [envelope "a:b" 2 2]) ∧
    (relay (envelope "x" (-1) 1) (envelope "y" (-2) 2)).fetchOffline [0] none 1 = [envelope "x" (-1) 1] ∧
    (relay (envelope "x" 1 1) (envelope "y" 2 2)).fetchOffline [0] none 0 = [envelope "x" 1 1] := by
  have hstale : (relay (envelope "x" 1 1) (envelope "a:b" 2 2)).fetchOffline [0] (some 5) 10 = [envelope "a:b" 2 2] ∧
      (relay (envelope "x" 1 1) (envelope "a:b" 2 2)).waiting [0] (some 5) = [] := by decide +kernel
  refine ⟨⟨fun h => ?_, hstale.1⟩, by decide +kernel, by decide +kernel⟩
  have hlen := (h (some 5) (by decide)).length
  rw [hstale.1, hstale.2] at hlen
  cases hlen

/-- Two plain ones. -/
theorem fetchOffline_earliest_two : (relay (envelope "x" 1 1) (envelope "y" 2 2)).ServesEarliest [0] 1 := by
  have htree : (relay (envelope "x" 1 1) (envelope "y" 2 2)).tree.toList =
      [(offlineKey [0] 1 "x", envelope "x" 1 1), (offlineKey [0] 2 "y", envelope "y" 2 2)] := by decide +kernel
  have hstored (k : String) (e : OfflineMessageEnvelope)
      (h : (relay (envelope "x" 1 1) (envelope "y" 2 2)).tree[k]? = some e) :
      (k, e) = (offlineKey [0] 1 "x", envelope "x" 1 1) ∨ (k, e) = (offlineKey [0] 2 "y", envelope "y" 2 2) := by
    have hmem := (mem_iter _ (e := (k, e))).2 h
    rw [htree] at hmem
    simpa using hmem
  refine (RelayStore.fetchOffline_earliest_iff (relay (envelope "x" 1 1) (envelope "y" 2 2)) (fun k e h => ?_) [0]).1.2
    ⟨fun k e h _ => ?_, fun e he e' he' hneg hneg' => ?_⟩ 1 Nat.one_pos
  · rcases hstored k e h with heq | heq
    · cases heq
      decide
    · cases heq
      decide
  · rcases hstored k e h with heq | heq
    · cases heq
      decide +kernel
    · cases heq
      decide +kernel
  · have hwaiting : (relay (envelope "x" 1 1) (envelope "y" 2 2)).waiting [0] none =
        [envelope "x" 1 1, envelope "y" 2 2] := by decide +kernel
    rw [hwaiting] at he
    rcases List.mem_cons.1 he with rfl | he
    · exact absurd hneg (by decide)
    · rw [List.mem_singleton.1 he] at hneg
      exact absurd hneg (by decide)

end MailboxOrder
end Variance
