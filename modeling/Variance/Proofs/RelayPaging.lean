import Variance.Lib.Paging
import Variance.Sanity.Padded
import Variance.Sanity.Trees
import Variance.Spec.Relay

/-! A relay's pages give a mailbox exactly once if and only if the `stored_at` of each page's last envelope parts the
timestamps there. -/

namespace Variance

open LocalMessageStorage

namespace RelayStore
variable {s : RelayStore} {mailboxToken : Bytes} {limit : UInt32}

/-- The key gives the message's own timestamp, if no colon in its id comes in between. -/
theorem keyTimestamp_offlineKey {ts : ℤ} {id : String} (hid : ':' ∉ id.toList) (hlo : -2 ^ 63 ≤ ts)
    (hhi : ts < 2 ^ 63) : keyTimestamp (offlineKey mailboxToken ts id) = some ts := by
  rw [keyTimestamp, offlineKey, mailboxPrefix, rsplitOnce_filed hid]
  dsimp only
  rw [rsplitOnce_stamped]
  exact parseI64_pad20 hlo hhi

/-- A key that tells its time is passed over just if that is not later. -/
theorem isLater_iff {since : Option ℤ} {key : String} {ts : ℤ} (h : keyTimestamp key = some ts) :
    isLater since key = true ↔ ∀ t ∈ since, t < ts := by
  unfold isLater
  rw [h]
  cases since with
  | none => simp
  | some b => simp

/-- So later than a cursor is what was sent later. -/
theorem isLater_offlineKey {ts : ℤ} {id : String} (hid : ':' ∉ id.toList) (hlo : -2 ^ 63 ≤ ts) (hhi : ts < 2 ^ 63)
    (since : Option ℤ) : isLater since (offlineKey mailboxToken ts id) = true ↔ ∀ b, since = some b → b < ts :=
  isLater_iff (keyTimestamp_offlineKey hid hlo hhi)

/-- The loop of a fetch fills a page with the later entries. -/
theorem collectOffline_eq (since : Option ℤ) (n : ℕ) (entries : List (String × OfflineMessageEnvelope))
    (messages : List OfflineMessageEnvelope) : collectOffline since n entries messages =
      Paging.fill n ((entries.filter fun e => isLater since e.1).map (·.2)) messages := by
  induction entries generalizing messages with
  | nil => rfl
  | cons e entries ih =>
    obtain ⟨key, envelope⟩ := e
    rw [collectOffline]
    by_cases hlater : isLater since key = true
    · rewrite [if_pos hlater, List.filter_cons_of_pos (by simpa using hlater), List.map_cons, Paging.fill, ← ih]
      rfl
    · rw [if_neg hlater, List.filter_cons_of_neg (by simpa using hlater), ih]

theorem fetchOffline_eq (since : Option ℤ) (n : ℕ) :
    s.fetchOffline mailboxToken since n = (s.laterThan mailboxToken since).take (max 1 n) := by
  rw [fetchOffline, collectOffline_eq, Paging.fill_eq (by simp)]
  rfl

/-- The mailbox as a feed: the scan filters on the key, and the cursor is the `stored_at`. -/
def feed (s : RelayStore) (mailboxToken : Bytes) : Paging.Feed (String × OfflineMessageEnvelope) (Option ℤ) where
  all := s.mailbox mailboxToken
  beyond since e := isLater since e.1
  next e := some e.2.storedAt

theorem laterThan_eq (since : Option ℤ) :
    s.laterThan mailboxToken since = ((s.feed mailboxToken).after since).map (·.2) := rfl

/-- Below its greatest value the limit can be counted one past. -/
theorem toNat_limit_succ (h : limit + 1 ≠ 0) : (limit + 1).toNat = limit.toNat + 1 := by
  have hlt := limit.toNat_lt
  by_cases hsucc : limit.toNat + 1 < 2 ^ 32
  · rw [UInt32.toNat_add]
    exact Nat.mod_eq_of_lt hsucc
  · have hmax : limit.toNat + 1 = 2 ^ 32 := by omega
    refine (h (UInt32.toNat_inj.1 ?_)).elim
    rw [UInt32.toNat_add]
    show (limit.toNat + 1) % 2 ^ 32 = 0
    rw [hmax]
    rfl

/-- A page, and whether there is more: the probe is one envelope past the page. -/
theorem fetchMessages_eq (h0 : limit ≠ 0) (h1 : limit + 1 ≠ 0) (since : Option ℤ) :
    s.fetchMessages ⟨mailboxToken, since, limit⟩ = .ok
      { messages := (s.laterThan mailboxToken since).take limit.toNat
        hasMore := decide (limit.toNat < (s.laterThan mailboxToken since).length)
        nextCursor := ((s.laterThan mailboxToken since).take limit.toNat).getLast?.map (·.storedAt) } := by
  have hfetch : s.fetchOffline mailboxToken since (limit + 1).toNat =
      (s.laterThan mailboxToken since).take (limit.toNat + 1) := by
    rw [fetchOffline_eq, toNat_limit_succ h1, max_eq_right (Nat.succ_le_succ (Nat.zero_le _))]
  have hmore : decide (limit.toNat < ((s.laterThan mailboxToken since).take (limit.toNat + 1)).length) =
      decide (limit.toNat < (s.laterThan mailboxToken since).length) := by
    rw [List.length_take]
    congr 1
    exact propext ⟨fun h => by omega, fun h => by omega⟩
  have htake : (if decide (limit.toNat < (s.laterThan mailboxToken since).length) = true then
        ((s.laterThan mailboxToken since).take (limit.toNat + 1)).take limit.toNat
      else (s.laterThan mailboxToken since).take (limit.toNat + 1)) =
      (s.laterThan mailboxToken since).take limit.toNat := by
    split_ifs with hl
    · rw [List.take_take, min_eq_left (Nat.le_succ _)]
    · have hle : (s.laterThan mailboxToken since).length ≤ limit.toNat := by simpa using hl
      rw [List.take_of_length_le (Nat.le_succ_of_le hle), List.take_of_length_le hle]
  rw [fetchMessages, if_neg h0]
  simp only [hfetch, hmore, htake]

/-- The client's loop is the reading of the feed. -/
theorem fetchAll_eq_drain (h0 : limit ≠ 0) (h1 : limit + 1 ≠ 0) (fuel : ℕ) (since : Option ℤ) :
    s.fetchAll mailboxToken limit fuel since =
      ((s.feed mailboxToken).drain limit.toNat fuel since).map (List.map (·.2)) := by
  have hpos : 0 < limit.toNat := Nat.pos_of_ne_zero fun h => h0 (UInt32.toNat_inj.1 h)
  induction fuel generalizing since with
  | zero => rfl
  | succ fuel ih =>
    have hlen : (s.laterThan mailboxToken since).length = ((s.feed mailboxToken).after since).length := by
      rw [laterThan_eq, List.length_map]
    rw [fetchAll, fetchMessages_eq h0 h1, Paging.Feed.drain]
    dsimp only
    rw [hlen, laterThan_eq, ← List.map_take]
    by_cases hl : limit.toNat < ((s.feed mailboxToken).after since).length
    · obtain ⟨x, hx⟩ := Paging.Feed.getLast?_take_isSome hpos hl
      rw [if_pos (by simpa using hl), if_pos hl, hx, List.getLast?_map, hx]
      dsimp only [Option.map_some]
      rw [ih, Option.map_map, Option.map_map]
      congr 1
      funext rest
      simp
    · rw [if_neg (by simpa using hl), if_neg hl, List.take_of_length_le (not_lt.1 hl)]
      rfl

/-- Where an envelope is filed. -/
def envelopeKey (e : OfflineMessageEnvelope) : String :=
  match e.message with
  | some m => offlineKey e.mailboxToken m.timestamp m.id
  | none => ""

theorem envelopeKey_of_mem {x : String × OfflineMessageEnvelope} (h : x ∈ s.mailbox mailboxToken) :
    (envelopeKey x.2, x.2) = x := by
  obtain ⟨m, hm, hk⟩ := s.filed x.1 x.2 ((mem_iter _).1 (List.mem_filter.1 h).1)
  rw [envelopeKey, hm]
  exact Prod.ext hk rfl

/-- The entries come back from the envelopes. -/
theorem refile {xs : List (String × OfflineMessageEnvelope)} (h : ∀ x ∈ xs, x ∈ s.mailbox mailboxToken) :
    (xs.map (·.2)).map (fun e => (envelopeKey e, e)) = xs := by
  rw [List.map_map]
  exact (List.map_congr_left fun x hx => envelopeKey_of_mem (h x hx)).trans (List.map_id xs)

theorem nodup_mailbox : (s.mailbox mailboxToken).Nodup :=
  List.Nodup.filter _ (Std.ExtTreeMap.distinct_keys_toList.imp fun hab heq => hab (by simp [heq]))

theorem mem_after {since : Option ℤ} {x : String × OfflineMessageEnvelope}
    (h : x ∈ (s.feed mailboxToken).after since) : x ∈ s.mailbox mailboxToken := (List.mem_filter.1 h).1

theorem pagesExactly_iff_exact (h0 : limit ≠ 0) (h1 : limit + 1 ≠ 0) :
    s.PagesExactly mailboxToken limit ↔ (s.feed mailboxToken).Exact limit.toNat := by
  refine forall_congr' fun since => ⟨?_, ?_⟩
  · rintro ⟨fuel, received, hr, hperm⟩
    rw [fetchAll_eq_drain h0 h1] at hr
    obtain ⟨out, hout, rfl⟩ := Option.map_eq_some_iff.1 hr
    refine ⟨fuel, out, hout, ?_⟩
    have hback := hperm.map fun e => (envelopeKey e, e)
    rwa [laterThan_eq, refile (Paging.Feed.drain_subset hout), refile fun _ => mem_after] at hback
  · rintro ⟨fuel, out, hout, hperm⟩
    refine ⟨fuel, out.map (·.2), ?_, hperm.map _⟩
    rw [fetchAll_eq_drain h0 h1, hout]
    rfl

theorem cursorParts_iff_seamless (h1 : limit + 1 ≠ 0) :
    s.CursorParts mailboxToken limit ↔ (s.feed mailboxToken).Seamless limit.toNat := by
  have hsub (since : Option ℤ) (n : ℕ) : ∀ x ∈ ((s.feed mailboxToken).after since).drop n,
      x ∈ s.mailbox mailboxToken := fun x hx => mem_after (List.mem_of_mem_drop hx)
  rw [CursorParts, if_neg h1]
  refine forall_congr' fun since => ⟨?_, ?_⟩
  · intro h x hl hx
    have hvals := h x.2 (by rwa [laterThan_eq, List.length_map])
      (by rw [laterThan_eq, ← List.map_take, List.getLast?_map, hx]; rfl)
    rw [laterThan_eq, laterThan_eq, ← List.map_drop] at hvals
    have hback := congrArg (List.map fun e => (envelopeKey e, e)) hvals
    rwa [refile fun _ => mem_after, refile (hsub since _)] at hback
  · intro h last hl hlast
    rw [laterThan_eq, ← List.map_take, List.getLast?_map] at hlast
    obtain ⟨x, hx, rfl⟩ := Option.map_eq_some_iff.1 hlast
    rw [laterThan_eq, List.length_map] at hl
    have hents := congrArg (List.map (·.2)) (h x hl hx)
    rw [laterThan_eq, laterThan_eq, ← List.map_drop]
    exact hents

/-- At the greatest limit the probe wraps to zero, and the one page there is has one envelope. -/
theorem fetchMessages_wrapped (h0 : limit ≠ 0) (h1 : limit + 1 = 0) (since : Option ℤ) :
    s.fetchMessages ⟨mailboxToken, since, limit⟩ = .ok
      { messages := (s.laterThan mailboxToken since).take 1
        hasMore := false
        nextCursor := ((s.laterThan mailboxToken since).take 1).getLast?.map (·.storedAt) } := by
  have hfetch : s.fetchOffline mailboxToken since (limit + 1).toNat =
      (s.laterThan mailboxToken since).take 1 := by
    rw [fetchOffline_eq, h1]
    rfl
  have hpos : 0 < limit.toNat := Nat.pos_of_ne_zero fun h => h0 (UInt32.toNat_inj.1 h)
  have hmore : decide (limit.toNat < ((s.laterThan mailboxToken since).take 1).length) = false := by
    rw [List.length_take]
    simp
    omega
  rw [fetchMessages, if_neg h0]
  simp only [hfetch, hmore]
  rfl

theorem fetchAll_wrapped (h0 : limit ≠ 0) (h1 : limit + 1 = 0) (fuel : ℕ) (since : Option ℤ) :
    s.fetchAll mailboxToken limit (fuel + 1) since = some ((s.laterThan mailboxToken since).take 1) := by
  rw [fetchAll, fetchMessages_wrapped h0 h1]
  rfl

theorem pagesExactly_wrapped (h0 : limit ≠ 0) (h1 : limit + 1 = 0) :
    s.PagesExactly mailboxToken limit ↔ (s.mailbox mailboxToken).length ≤ 1 := by
  constructor
  · intro h
    obtain ⟨fuel, received, hr, hperm⟩ := h none
    cases fuel with
    | zero => cases hr
    | succ fuel =>
      rw [fetchAll_wrapped h0 h1] at hr
      obtain rfl := Option.some.inj hr
      have hlen := hperm.length_eq
      have hall : (s.laterThan mailboxToken none).length = (s.mailbox mailboxToken).length := by
        simp [laterThan, isLater]
      rw [List.length_take, hall] at hlen
      omega
  · intro h since
    refine ⟨1, (s.laterThan mailboxToken since).take 1, fetchAll_wrapped h0 h1 0 since, ?_⟩
    have hle : (s.laterThan mailboxToken since).length ≤ 1 := by
      rw [laterThan, List.length_map]
      exact (List.length_filter_le _ _).trans h
    rw [List.take_of_length_le hle]

end RelayStore
namespace RelayPaging

/-- An envelope that was sent at `ts` and that the relay has had since `at_`. -/
def envelope (id : String) (ts at_ : ℤ) : OfflineMessageEnvelope :=
  { mailboxToken := [0]
    message := some (.group { id := id, senderDid := "did:a", groupId := "g", timestamp := ts, type := 0,
                              replyTo := none, mlsCiphertext := [] })
    storedAt := at_
    expiresAt := 100 }

/-- A relay with two of them. -/
def relay (at₁ at₂ : ℤ) : RelayStore :=
  ((RelayStore.empty.storeOffline (envelope "x" 1 at₁)).2.storeOffline (envelope "y" 2 at₂)).2

end RelayPaging
end Variance
