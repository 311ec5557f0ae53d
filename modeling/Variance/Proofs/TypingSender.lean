import Variance.Lib.Alternation
import Variance.Proofs.MessagingStore
import Variance.Proofs.TypingStatus
import Variance.Spec.TypingSender

/-! The handler sends a start when its history asks for one; and from the composer's pauses follows when the page of the
other shows it. -/

namespace Variance

namespace TypingOutbound
variable {t : TypingOutbound} {c : TypingCall} {past : List TypingSent} {x : TypingSent} {key : String} {now time : ℕ}

/-! The history -/

theorem cooling_snoc : Cooling (past ++ [x]) key now ↔
    x.Starts key ∧ now < x.call.now + 2000 ∨ ¬ x.Stops key ∧ Cooling past key now := by
  constructor
  · rintro ⟨a, y, b, heq, hy, hnow, hb⟩
    rcases Alternation.snoc_eq_append_cons heq with ⟨-, -, rfl⟩ | ⟨l, rfl, rfl⟩
    · exact Or.inl ⟨hy, hnow⟩
    · exact Or.inr ⟨hb x (by simp), a, y, l, rfl, hy, hnow, fun z hz => hb z (by simp [hz])⟩
  · rintro (⟨hx, hnow⟩ | ⟨hx, a, y, b, rfl, hy, hnow, hb⟩)
    · exact ⟨past, x, [], rfl, hx, hnow, by simp⟩
    · refine ⟨a, y, b ++ [x], by simp, hy, hnow, fun z hz => ?_⟩
      rcases List.mem_append.1 hz with hz | hz
      · exact hb z hz
      · rw [List.mem_singleton.1 hz]
        exact hx

/-- A start that is not sent changes nothing. -/
theorem cooling_snoc_unsent (hc : c.starts = true) :
    Cooling (past ++ [⟨c, false⟩]) key now ↔ Cooling past key now := by
  rw [cooling_snoc]
  constructor
  · rintro (⟨hx, -⟩ | ⟨-, hcool⟩)
    · exact absurd hx.2.1 Bool.false_ne_true
    · exact hcool
  · exact fun hcool => Or.inr ⟨fun hstop => absurd (hstop.1.symm.trans hc) Bool.false_ne_true, hcool⟩

theorem composing_snoc : Composing (past ++ [x]) key now ↔
    Composing past key now ∨ x.Composes key ∧ x.call.now + 300 ≤ now := by
  unfold Composing
  simp only [List.mem_append, List.mem_singleton]
  constructor
  · rintro ⟨y, hy | rfl, hkey, hnow⟩
    · exact Or.inl ⟨y, hy, hkey, hnow⟩
    · exact Or.inr ⟨hkey, hnow⟩
  · rintro (⟨y, hy, hkey, hnow⟩ | ⟨hkey, hnow⟩)
    · exact ⟨y, Or.inl hy, hkey, hnow⟩
    · exact ⟨x, Or.inr rfl, hkey, hnow⟩

/-- The two maps are what the history says of a later time. -/
structure Follows (t : TypingOutbound) (past : List TypingSent) (time : ℕ) : Prop where
  cooling : ∀ key now, time ≤ now → (t.isWithinCooldown key now = true ↔ Cooling past key now)
  composing : ∀ key now, time ≤ now →
    (Composing past key now ↔ ∃ start, t.composeStart[key]? = some start ∧ start + 300 ≤ now)
  started : ∀ (key : String) start, t.composeStart[key]? = some start → start ≤ time
  sent : ∀ (key : String) last, t.lastOutboundStart[key]? = some last → last ≤ time

theorem isWithinCooldown_iff : t.isWithinCooldown key now = true ↔
    ∃ last, t.lastOutboundStart[key]? = some last ∧ now - last < 2000 := by
  unfold isWithinCooldown
  cases t.lastOutboundStart[key]? with
  | none => simp
  | some last =>
    show decide (now - last < outboundCooldownMs) = true ↔ _
    rw [decide_eq_true_iff]
    simp [outboundCooldownMs]

theorem follows_new (did : Did) (time : ℕ) : (new did).Follows [] time := by
  have hcooling : ∀ key now, ¬ Cooling [] key now := by
    rintro key now ⟨a, x, b, heq, -⟩
    simp at heq
  refine ⟨fun key now _ => ?_, fun key now _ => ?_, fun key start h => ?_, fun key last h => ?_⟩
  · rw [isWithinCooldown_iff]
    refine iff_of_false ?_ (hcooling key now)
    rintro ⟨last, h, -⟩
    simp [new] at h
  · refine iff_of_false ?_ ?_
    · rintro ⟨x, hx, -⟩
      cases hx
    · rintro ⟨start, h, -⟩
      simp [new] at h
  · simp [new] at h
  · simp [new] at h

/-! A call -/

/-- What a call does, in the four cases: a start that is sent, a start that only begins to compose, one that does
nothing, and a stop. -/
theorem call_cases (t : TypingOutbound) (c : TypingCall) :
    (c.starts = true ∧ (t.call c).1.isSome = true ∧ t.isWithinCooldown c.request.key c.now = false ∧
        (c.request.isGroup = true → c.isMember = true ∧
          ∃ start, t.composeStart[c.request.key]? = some start ∧ 300 ≤ c.now - start) ∧
        t.next c = { t with lastOutboundStart := t.lastOutboundStart.insert c.request.key c.now }) ∨
      (c.starts = true ∧ (t.call c).1.isSome = false ∧ c.request.isGroup = true ∧ c.isMember = true ∧
        t.composeStart[c.request.key]? = none ∧
        t.next c = { t with composeStart := t.composeStart.insert c.request.key c.now }) ∨
      (c.starts = true ∧ (t.call c).1.isSome = false ∧ t.next c = t ∧
        (t.isWithinCooldown c.request.key c.now = true ∨ c.request.isGroup = true ∧ (c.isMember = true →
          ∃ start, t.composeStart[c.request.key]? = some start ∧ c.now - start < 300)) ∧
        (c.request.isGroup = true → c.isMember = true →
          ∃ start, t.composeStart[c.request.key]? = some start)) ∨
      (c.starts = false ∧ t.next c = t.clearCooldown c.request.key) := by
  obtain ⟨now, starts, ⟨recipient, isGroup⟩, isMember⟩ := c
  cases starts with
  | false =>
    refine Or.inr (Or.inr (Or.inr ⟨rfl, ?_⟩))
    cases isGroup <;> rfl
  | true =>
    cases isGroup with
    | false =>
      simp only [call, next, startTyping, tryStartTypingDirect, TypingRequest.key]
      cases hcool : t.isWithinCooldown recipient now with
      | true => simp [hcool]
      | false => simp [hcool]
    | true =>
      cases isMember with
      | false => simp [call, next, startTyping]
      | true =>
        simp only [call, next, startTyping, tryStartTypingGroup, TypingRequest.key, if_true]
        cases hstart : t.composeStart[groupTypingKey recipient]? with
        | none => simp
        | some start =>
          dsimp only
          by_cases hthreshold : now - start < composeThresholdMs
          · have hlt : now - start < 300 := hthreshold
            simp [hthreshold, hlt]
          · have hle : 300 ≤ now - start := not_lt.1 hthreshold
            cases hcool : t.isWithinCooldown (groupTypingKey recipient) now with
            | true => simp [hthreshold]
            | false => simp [hthreshold, hle]

theorem next_localDid (t : TypingOutbound) (c : TypingCall) : (t.next c).localDid = t.localDid := by
  rcases call_cases t c with ⟨-, -, -, -, h⟩ | ⟨-, -, -, -, -, h⟩ | ⟨-, -, h, -⟩ | ⟨-, h⟩
  · rw [h]
  · rw [h]
  · rw [h]
  · rw [h]
    rfl

theorem tryStartTypingDirect_isTyping {recipient : Did} {i : TypingIndicator}
    (h : (t.tryStartTypingDirect recipient now).1 = some i) : i.isTyping = true := by
  unfold tryStartTypingDirect at h
  split_ifs at h
  cases h
  rfl

theorem tryStartTypingGroup_isTyping {groupId : String} {i : TypingIndicator}
    (h : (t.tryStartTypingGroup groupId now).1 = some i) : i.isTyping = true := by
  unfold tryStartTypingGroup at h
  dsimp only at h
  split at h
  · cases h
  · split_ifs at h
    cases h
    rfl

theorem call_isTyping {i : TypingIndicator} (h : (t.call c).1 = some i) : i.isTyping = c.starts := by
  unfold call at h
  split_ifs at h with hstarts
  · rw [hstarts]
    unfold startTyping at h
    split_ifs at h
    · exact tryStartTypingGroup_isTyping h
    · exact tryStartTypingDirect_isTyping h
  · rw [Bool.eq_false_iff.2 hstarts]
    unfold stopTyping at h
    split_ifs at h
    cases h
    rfl

/-- A start is sent when the maps have it so. -/
theorem sent_iff (hc : c.starts = true) : (t.call c).1.isSome = true ↔
    t.isWithinCooldown c.request.key c.now = false ∧ (c.request.isGroup = true → c.isMember = true ∧
      ∃ start, t.composeStart[c.request.key]? = some start ∧ 300 ≤ c.now - start) := by
  rcases call_cases t c with ⟨-, hsent, hcool, hgroup, -⟩ | ⟨-, hsent, hgroup, -, hnone, -⟩ |
    ⟨-, hsent, -, hwhy, -⟩ | ⟨hstop, -⟩
  · exact iff_of_true hsent ⟨hcool, hgroup⟩
  · refine iff_of_false (by rw [hsent]; exact Bool.false_ne_true) ?_
    rintro ⟨-, h⟩
    obtain ⟨-, start, hstart, -⟩ := h hgroup
    rw [hnone] at hstart
    cases hstart
  · refine iff_of_false (by rw [hsent]; exact Bool.false_ne_true) ?_
    rintro ⟨hcool, h⟩
    rcases hwhy with hwithin | ⟨hgroup, hearly⟩
    · rw [hcool] at hwithin
      cases hwithin
    · obtain ⟨hmember, start, hstart, hle⟩ := h hgroup
      obtain ⟨start', hstart', hlt⟩ := hearly hmember
      obtain rfl := Option.some.inj (hstart.symm.trans hstart')
      omega
  · rw [hc] at hstop
    cases hstop

theorem Follows.due (h : t.Follows past time) (hle : time ≤ c.now) (hc : c.starts = true) :
    (t.call c).1.isSome = true ↔ c.Due past := by
  rw [sent_iff hc]
  unfold TypingCall.Due
  rw [← h.cooling _ _ hle, Bool.not_eq_true]
  refine and_congr_right fun _ => forall_congr' fun _ => and_congr_right fun _ => ?_
  rw [h.composing _ _ hle]
  refine exists_congr fun start => and_congr_right fun hstart => ?_
  have := h.started _ _ hstart
  omega

theorem Follows.next (h : t.Follows past time) (hle : time ≤ c.now) :
    (t.next c).Follows (past ++ [⟨c, (t.call c).1.isSome⟩]) c.now := by
  rcases call_cases t c with ⟨hstarts, hsent, -, hgroup, hnext⟩ | ⟨hstarts, hsent, hgroup, hmember, hnone, hnext⟩ |
    ⟨hstarts, hsent, hnext, -, hstarted⟩ | ⟨hstop, hnext⟩
  · rw [hnext, hsent]
    refine ⟨fun key now hnow => ?_, fun key now hnow => ?_, fun key start hstart => ?_, fun key last hlast => ?_⟩
    · have hold := h.cooling key now (hle.trans hnow)
      rw [isWithinCooldown_iff] at hold ⊢
      rw [cooling_snoc, ← hold]
      dsimp only
      rw [get_insert]
      by_cases hkey : c.request.key = key
      · rw [if_pos hkey]
        constructor
        · rintro ⟨last, hlast, hlt⟩
          obtain rfl := Option.some.inj hlast
          exact Or.inl ⟨⟨hstarts, rfl, hkey⟩, by omega⟩
        · rintro (⟨-, hlt⟩ | ⟨-, last, hlast, hlt⟩)
          · exact ⟨c.now, rfl, by omega⟩
          · have := h.sent key last hlast
            exact ⟨c.now, rfl, by omega⟩
      · rw [if_neg hkey]
        constructor
        · exact fun hlast => Or.inr ⟨fun hstop => hkey hstop.2, hlast⟩
        · rintro (⟨hx, -⟩ | ⟨-, hlast⟩)
          · exact absurd hx.2.2 hkey
          · exact hlast
    · rw [composing_snoc, h.composing key now (hle.trans hnow)]
      refine or_iff_left_of_imp ?_
      rintro ⟨⟨-, hisGroup, -, rfl⟩, hthen⟩
      obtain ⟨-, start, hstart, hpassed⟩ := hgroup hisGroup
      exact ⟨start, hstart, by dsimp only at hthen; omega⟩
    · exact (h.started key start hstart).trans hle
    · dsimp only at hlast
      rw [get_insert] at hlast
      split_ifs at hlast
      · exact (Option.some.inj hlast).ge
      · exact (h.sent key last hlast).trans hle
  · rw [hnext, hsent]
    refine ⟨fun key now hnow => ?_, fun key now hnow => ?_, fun key start hstart => ?_, fun key last hlast => ?_⟩
    · rw [cooling_snoc_unsent hstarts]
      exact h.cooling key now (hle.trans hnow)
    · rw [composing_snoc, h.composing key now (hle.trans hnow)]
      dsimp only
      rw [get_insert]
      by_cases hkey : c.request.key = key
      · subst hkey
        rw [if_pos rfl, hnone]
        simp [TypingSent.Composes, hstarts, hgroup, hmember]
      · rw [if_neg hkey]
        exact or_iff_left fun hx => hkey hx.1.2.2.2
    · dsimp only at hstart
      rw [get_insert] at hstart
      split_ifs at hstart
      · exact (Option.some.inj hstart).ge
      · exact (h.started key start hstart).trans hle
    · exact (h.sent key last hlast).trans hle
  · rw [hnext, hsent]
    refine ⟨fun key now hnow => ?_, fun key now hnow => ?_, fun key start hstart => ?_, fun key last hlast => ?_⟩
    · rw [cooling_snoc_unsent hstarts]
      exact h.cooling key now (hle.trans hnow)
    · rw [composing_snoc, h.composing key now (hle.trans hnow)]
      refine or_iff_left_of_imp ?_
      rintro ⟨⟨-, hisGroup, hisMember, rfl⟩, hthen⟩
      obtain ⟨start, hstart⟩ := hstarted hisGroup hisMember
      have := h.started _ start hstart
      exact ⟨start, hstart, by dsimp only at hthen; omega⟩
    · exact (h.started key start hstart).trans hle
    · exact (h.sent key last hlast).trans hle
  · rw [hnext]
    refine ⟨fun key now hnow => ?_, fun key now hnow => ?_, fun key start hstart => ?_, fun key last hlast => ?_⟩
    · have hold := h.cooling key now (hle.trans hnow)
      rw [isWithinCooldown_iff] at hold ⊢
      rw [cooling_snoc, ← hold]
      unfold clearCooldown
      dsimp only
      rw [get_erase]
      by_cases hkey : c.request.key = key
      · rw [if_pos hkey]
        refine iff_of_false ?_ ?_
        · rintro ⟨last, hlast, -⟩
          cases hlast
        · rintro (⟨hx, -⟩ | ⟨hx, -⟩)
          · exact absurd (hstop.symm.trans hx.1) Bool.false_ne_true
          · exact hx ⟨hstop, hkey⟩
      · rw [if_neg hkey]
        constructor
        · exact fun hlast => Or.inr ⟨fun hstops => hkey hstops.2, hlast⟩
        · rintro (⟨hx, -⟩ | ⟨-, hlast⟩)
          · exact absurd hx.2.2 hkey
          · exact hlast
    · rw [composing_snoc, h.composing key now (hle.trans hnow)]
      exact or_iff_left fun hx => absurd (hstop.symm.trans hx.1.1) Bool.false_ne_true
    · exact (h.started key start hstart).trans hle
    · unfold clearCooldown at hlast
      dsimp only at hlast
      rw [get_erase] at hlast
      split_ifs at hlast
      exact (h.sent key last hlast).trans hle

/-! A run of calls -/

theorem Follows.trace (h : t.Follows past time) {calls : List TypingCall}
    (ht : Metering.Timed TypingCall.now time calls) {earlier later : List TypingSent}
    (heq : t.trace calls = earlier ++ x :: later) (hx : x.call.starts = true) :
    x.sent = true ↔ x.call.Due (past ++ earlier) := by
  induction calls generalizing t past time earlier with
  | nil => simp [TypingOutbound.trace] at heq
  | cons c cs ih =>
    unfold TypingOutbound.trace at heq
    cases earlier with
    | nil =>
      obtain ⟨rfl, -⟩ := List.cons.inj heq
      rw [List.append_nil]
      exact h.due ht.1 hx
    | cons y earlier =>
      obtain ⟨rfl, hrest⟩ := List.cons.inj heq
      have hnext := ih (h.next ht.1) ht.2 hrest
      rwa [List.append_assoc] at hnext

/-- Whatever the calls, to one recipient or to many: what is sent is what their history asks for. -/
theorem throttled (did : Did) (start : ℕ) (calls : List TypingCall) (ht : Metering.Timed TypingCall.now start calls) :
    Throttled ((new did).trace calls) := by
  have hdue : ∀ past x later, (new did).trace calls = past ++ x :: later → x.call.starts = true →
      (x.sent = true ↔ x.call.Due past) := by
    intro past x later heq hx
    have hfollows := (follows_new did start).trace ht heq hx
    rwa [List.nil_append] at hfollows
  refine ⟨hdue, fun a x b y c key heq hx hy hb => ?_⟩
  have hy' := (hdue (a ++ x :: b) y c heq hy.1).1 hy.2.1
  by_contra hlt
  refine hy'.1 ⟨a, x, b, rfl, ?_, not_le.1 hlt, ?_⟩
  · rw [hy.2.2]
    exact hx
  · rw [hy.2.2]
    exact hb

/-- Three keystrokes to did:b within a second, and one three seconds after them. -/
def keystrokes : List TypingCall :=
  [⟨0, true, ⟨"did:b", false⟩, false⟩, ⟨400, true, ⟨"did:b", false⟩, false⟩, ⟨900, true, ⟨"did:b", false⟩, false⟩,
    ⟨3900, true, ⟨"did:b", false⟩, false⟩]

theorem throttled_keystrokes : Throttled ((new "did:a").trace keystrokes) :=
  throttled "did:a" 0 keystrokes ⟨by decide, by decide, by decide, by decide, trivial⟩

end TypingOutbound

/-! The page -/

namespace MessagingStore
variable {s : MessagingStore} {p q : TypingPair} {t t' : ℕ} {isTyping : Bool}

theorem Inv.setTyping_other (h : s.Inv) (hc : s.Careful (.setTyping q isTyping)) (hne : p ≠ q) :
    (s.setTyping q isTyping).timeouts.get t = some p ↔ s.timeouts.get t = some p := by
  rw [h.setTyping_timeouts]
  constructor
  · rintro (⟨-, -, hp⟩ | ⟨ht, -⟩)
    · exact absurd hp hne
    · exact ht
  · intro ht
    exact Or.inr ⟨ht, fun hkey => hne (hc (t, p) (InsertionMap.get_eq_some_iff.1 ht) hkey)⟩

theorem Inv.setTyping_self (h : s.Inv) :
    (s.setTyping p isTyping).timeouts.get t = some p ↔ isTyping = true ∧ t = s.nextTimer := by
  rw [h.setTyping_timeouts]
  simp

theorem expire_timeouts : (s.expire t').timeouts.get t = some p ↔ s.timeouts.get t = some p ∧ t' ≠ t := by
  cases ht : s.timeouts.get t' with
  | none =>
    rw [expire_of_none ht]
    refine (and_iff_left_of_imp ?_).symm
    rintro hp rfl
    rw [ht] at hp
    cases hp
  | some q =>
    rw [expire_of_some ht]
    dsimp only
    rw [InsertionMap.get_delete]
    by_cases heq : t' = t
    · simp [heq]
    · simp [heq]

theorem Inv.setActiveConversation_kept (h : s.Inv) {c : Option ActiveConversation}
    (hc : s.Careful (.setActiveConversation c)) : (s.setActiveConversation c).timeouts.get t = some p ↔
      s.timeouts.get t = some p ∧ ∀ old ∈ s.activeConversation, p.recipient ≠ old.key := by
  rw [h.setActiveConversation_timeouts]
  exact and_congr_right fun ht => hc.left_iff ht

end MessagingStore

namespace TypingLink
variable {w : TypingLink} {earliest latest gap latency : ℕ} {t : ℕ} {m : TypingNote}

/-- The steps keep who types, and to whom. -/
@[simp] theorem pair_call (starts : Bool) : (w.call starts).pair = w.pair := by
  unfold pair call
  dsimp only
  have hdid : ∀ c, (w.outbound.call c).2.localDid = w.outbound.localDid := TypingOutbound.next_localDid w.outbound
  rw [hdid]

theorem call_unsent {starts : Bool} (h : (w.outbound.call ⟨w.now, starts, w.request, true⟩).1.isSome = false) :
    (w.call starts).wire = w.wire ∧ (w.call starts).lastStart = w.lastStart := by
  unfold call
  dsimp only
  rw [Option.isSome_eq_false_iff, Option.isNone_iff_eq_none] at h
  rw [h]
  exact ⟨rfl, by simp⟩

theorem call_sent {starts : Bool} (h : (w.outbound.call ⟨w.now, starts, w.request, true⟩).1.isSome = true) :
    (w.call starts).wire = w.wire ++ [⟨starts, w.now⟩] ∧
      (w.call starts).lastStart = if starts then some w.now else w.lastStart := by
  unfold call
  dsimp only
  obtain ⟨i, hi⟩ := Option.isSome_iff_exists.1 h
  rw [hi]
  dsimp only
  rw [TypingOutbound.call_isTyping hi]
  exact ⟨rfl, by simp⟩

/-- A call that sends nothing leaves the wire; another adds the one note. -/
theorem call_cases (w : TypingLink) (starts : Bool) :
    (w.call starts).wire = w.wire ∧ (w.call starts).lastStart = w.lastStart ∨
      (w.call starts).wire = w.wire ++ [⟨starts, w.now⟩] ∧
        (w.call starts).lastStart = if starts then some w.now else w.lastStart := by
  cases hcall : (w.outbound.call ⟨w.now, starts, w.request, true⟩).1.isSome with
  | false => exact Or.inl (call_unsent hcall)
  | true => exact Or.inr (call_sent hcall)

theorem update_late (h : w.editor.lastTypingSent + w.editor.cooldownMs ≤ w.now) :
    w.update false = TypingLink.call { w with
      editor := { w.editor with lastTypingSent := w.now, typingTimer := some (w.now + w.editor.stopDelayMs) },
      lastKey := some w.now } true := by
  simp [update, MessageEditor.onUpdate, h]

theorem update_early (h : ¬ w.editor.lastTypingSent + w.editor.cooldownMs ≤ w.now) :
    w.update false = { w with
      editor := { w.editor with typingTimer := some (w.now + w.editor.stopDelayMs) }, lastKey := some w.now } := by
  simp [update, MessageEditor.onUpdate, h]

theorem setTyping_due_old (h : w.store.Inv) (p : TypingPair) (isTyping : Bool) {q : TypingPair}
    (ht : w.store.timeouts.get t = some q) : (w.setTyping p isTyping).due t = w.due t := by
  have hfresh := h.fresh t q ht
  unfold TypingLink.setTyping
  dsimp only
  split_ifs
  · exact Function.update_of_ne (by omega) _ _
  · rfl

theorem setTyping_due_new {p : TypingPair} : (w.setTyping p true).due w.store.nextTimer = w.now + 3000 :=
  Function.update_self ..

/-! Nobody stays shown -/

/-- Whoever is shown has a timer that fires within the time that a start may take and the page's own delay. -/
structure Expires (latest : ℕ) (w : TypingLink) : Prop where
  store : w.store.Inv
  due : ∀ t p, w.store.timeouts.get t = some p → w.now ≤ w.due t
  shown : ∀ t, w.store.timeouts.get t = some w.pair → ∃ l, w.lastStart = some l ∧ w.due t ≤ l + latest + 3000
  wire : ∀ m ∈ w.wire, w.now ≤ m.sentAt + latest ∧ (m.isTyping = true → ∃ l, w.lastStart = some l ∧ m.sentAt ≤ l)
  last : ∀ l, w.lastStart = some l → l ≤ w.now

theorem Expires.call (h : w.Expires latest) (starts : Bool) : (w.call starts).Expires latest := by
  have hlast : ∀ l, w.lastStart = some l → ∃ l', (w.call starts).lastStart = some l' ∧ l ≤ l' := by
    intro l hl
    rcases call_cases w starts with ⟨-, heq⟩ | ⟨-, heq⟩
    · exact ⟨l, heq.trans hl, le_rfl⟩
    · rw [heq]
      cases starts with
      | false => exact ⟨l, hl, le_rfl⟩
      | true => exact ⟨w.now, rfl, h.last l hl⟩
  refine ⟨h.store, h.due, fun t ht => ?_, fun m hm => ?_, fun l hl => ?_⟩
  · rw [pair_call] at ht
    obtain ⟨l, hl, hdue⟩ := h.shown t ht
    obtain ⟨l', hl', hle⟩ := hlast l hl
    exact ⟨l', hl', hdue.trans (by omega)⟩
  · have hold : m ∈ w.wire → w.now ≤ m.sentAt + latest ∧
        (m.isTyping = true → ∃ l, (w.call starts).lastStart = some l ∧ m.sentAt ≤ l) := by
      intro hm
      refine ⟨(h.wire m hm).1, fun htyping => ?_⟩
      obtain ⟨l, hl, hle⟩ := (h.wire m hm).2 htyping
      obtain ⟨l', hl', hle'⟩ := hlast l hl
      exact ⟨l', hl', hle.trans hle'⟩
    rcases call_cases w starts with ⟨heq, -⟩ | ⟨heq, hstart⟩
    · exact hold (heq ▸ hm)
    · rw [heq, List.mem_append, List.mem_singleton] at hm
      rcases hm with hm | rfl
      · exact hold hm
      · refine ⟨Nat.le_add_right _ _, fun htyping => ⟨w.now, ?_, le_rfl⟩⟩
        obtain rfl : starts = true := htyping
        exact hstart
  · show l ≤ w.now
    rcases call_cases w starts with ⟨-, heq⟩ | ⟨-, heq⟩
    · exact h.last l (heq.symm.trans hl)
    · rw [heq] at hl
      split_ifs at hl
      · exact (Option.some.inj hl).ge
      · exact h.last l hl

/-- An indicator is put in or taken out on the page. -/
theorem Expires.setTyping (h : w.Expires latest) {p : TypingPair} {isTyping : Bool}
    (hc : w.store.Careful (.setTyping p isTyping))
    (hp : p = w.pair → isTyping = true → ∃ l, w.lastStart = some l ∧ w.now ≤ l + latest) :
    (w.setTyping p isTyping).Expires latest := by
  refine ⟨h.store.setTyping hc, fun t q ht => ?_, fun t ht => ?_, h.wire, h.last⟩
  · rcases h.store.setTyping_timeouts.1 ht with ⟨rfl, rfl, -⟩ | ⟨ht, -⟩
    · rw [setTyping_due_new]
      exact Nat.le_add_right _ _
    · rw [setTyping_due_old h.store _ _ ht]
      exact h.due t q ht
  · change (w.store.setTyping p isTyping).timeouts.get t = some w.pair at ht
    rcases h.store.setTyping_timeouts.1 ht with ⟨rfl, rfl, hpair⟩ | ⟨ht, -⟩
    · obtain ⟨l, hl, hle⟩ := hp hpair.symm rfl
      exact ⟨l, hl, by rw [setTyping_due_new]; omega⟩
    · rw [setTyping_due_old h.store _ _ ht]
      exact h.shown t ht

theorem Expires.step (h : w.Expires latest) {e : TypingLinkEvent} (hg : w.Timely earliest latest e) :
    (w.step e).Expires latest := by
  have hstop : w.stop.Expires latest := by
    have hedit : Expires latest { w with editor := w.editor.stop } := ⟨h.store, h.due, h.shown, h.wire, h.last⟩
    exact hedit.call false
  cases e with
  | update blank =>
    unfold TypingLink.step update
    dsimp only
    have hedit : ∀ editor lastKey, Expires latest { w with editor, lastKey } := fun editor lastKey =>
      ⟨h.store, h.due, h.shown, h.wire, h.last⟩
    split_ifs
    · exact (hedit _ _).call true
    · exact (hedit _ _).call true
    · exact hedit _ _
    · exact hedit _ _
  | fire =>
    unfold TypingLink.step
    dsimp only
    split
    · split_ifs
      · exact hstop
      · exact h
    · exact h
  | send => exact hstop
  | unmount => exact ⟨h.store, h.due, h.shown, h.wire, h.last⟩
  | deliver i =>
    unfold TypingLink.step deliver
    dsimp only
    cases hm : w.wire[i]? with
    | none => exact h
    | some m =>
      have hmem := List.mem_of_getElem? hm
      have hset : (w.setTyping w.pair m.isTyping).Expires latest := by
        refine h.setTyping hg.2 fun _ htyping => ?_
        obtain ⟨l, hl, hle⟩ := (h.wire m hmem).2 htyping
        exact ⟨l, hl, (h.wire m hmem).1.trans (by omega)⟩
      exact ⟨hset.store, hset.due, hset.shown, fun m' hm' => h.wire m' (List.mem_of_mem_eraseIdx hm'), hset.last⟩
  | lose i => exact ⟨h.store, h.due, h.shown, fun m hm => h.wire m (List.mem_of_mem_eraseIdx hm), h.last⟩
  | expire timer =>
    unfold TypingLink.step
    dsimp only
    split_ifs
    · exact ⟨h.store.expire, fun t p ht => h.due t p (MessagingStore.expire_timeouts.1 ht).1,
        fun t ht => h.shown t (MessagingStore.expire_timeouts.1 ht).1, h.wire, h.last⟩
    · exact h
  | page e =>
    cases e with
    | setTyping p isTyping => exact h.setTyping hg.1 fun hp htyping => absurd (hg.2 hp) (by rw [htyping]; decide)
    | setActiveConversation c =>
      have hkept : ∀ t p, (w.store.setActiveConversation c).timeouts.get t = some p →
          w.store.timeouts.get t = some p := fun t p ht => ((h.store.setActiveConversation_kept hg.1).1 ht).1
      exact ⟨h.store.setActiveConversation hg.1, fun t p ht => h.due t p (hkept t p ht),
        fun t ht => h.shown t (hkept t _ ht), h.wire, h.last⟩
    | expire timer => exact absurd hg.2 id
  | advance ms =>
    exact ⟨h.store, fun t p ht => hg.2.2 (t, p) (InsertionMap.get_eq_some_iff.1 ht), h.shown,
      fun m hm => ⟨hg.1 m hm, (h.wire m hm).2⟩, fun l hl => (h.last l hl).trans (Nat.le_add_right _ _)⟩

/-- Whatever is lost or comes out of order: whoever is shown as typing has sent a start no longer ago than it may take
to arrive and three seconds more. -/
theorem shown_recent {editor : MessageEditor} {isGroup : Bool}
    (h : StepSystem.Reach (typingLinkSys editor isGroup) (Timely earliest latest) w) (hs : w.store.Shows w.pair) :
    ∃ l, w.lastStart = some l ∧ w.now ≤ l + latest + 3000 := by
  have hinv : w.Expires latest := by
    refine h.invariant ?_ fun _ _ hi hg => hi.step hg
    rintro w ⟨-, -, -, -, hwire, hstore, -, hlast, -⟩
    have hnone : ∀ t, w.store.timeouts.get t = none := by
      intro t
      rw [hstore]
      rfl
    refine ⟨by rw [hstore]; exact MessagingStore.inv_new, fun t p ht => ?_, fun t ht => ?_, fun m hm => ?_,
      fun l hl => ?_⟩
    · rw [hnone] at ht
      cases ht
    · rw [hnone] at ht
      cases ht
    · rw [hwire] at hm
      cases hm
    · rw [hlast] at hl
      cases hl
  obtain ⟨t, ht⟩ := (hinv.store.shown w.pair).1 hs
  obtain ⟨l, hl, hdue⟩ := hinv.shown t ht
  exact ⟨l, hl, (hinv.due t _ ht).trans hdue⟩

/-! A group is told often enough -/

/-- The composer and the node: the last call came with a keystroke less than half a second before the last one, and the
last start less than two seconds before the last call. -/
structure Writes (gap : ℕ) (w : TypingLink) : Prop where
  isGroup : w.request.isGroup = true
  cooldownMs : w.editor.cooldownMs = 500
  stopDelayMs : w.editor.stopDelayMs = 1500
  clock : 500 ≤ w.now
  idle : w.lastKey = none → w.editor.typingTimer = none ∧ w.editor.lastTypingSent = 0 ∧
    w.outbound.composeStart[w.request.key]? = none
  key : ∀ k, w.lastKey = some k → w.now ≤ k + gap ∧ k ≤ w.now ∧ w.editor.typingTimer = some (k + 1500) ∧
    w.editor.lastTypingSent ≤ k ∧ k < w.editor.lastTypingSent + 500 ∧
    ∃ c, w.outbound.composeStart[w.request.key]? = some c ∧ c ≤ w.editor.lastTypingSent
  started : ∀ l, w.lastStart = some l → w.lastKey ≠ none ∧ w.outbound.lastOutboundStart[w.request.key]? = some l ∧
    l ≤ w.editor.lastTypingSent ∧ w.editor.lastTypingSent < l + 2000
  unstarted : w.lastStart = none → w.outbound.lastOutboundStart[w.request.key]? = none

theorem Writes.kept (h : w.Writes gap) {wire : List TypingNote} {store : MessagingStore} {due : ℕ → ℕ}
    {arrived : Option ℕ} : Writes gap { w with wire, store, due, arrived } :=
  ⟨h.isGroup, h.cooldownMs, h.stopDelayMs, h.clock, h.idle, h.key, h.started, h.unstarted⟩

/-- So the last start is not long ago. -/
theorem Writes.recent (h : w.Writes gap) {l : ℕ} (hl : w.lastStart = some l) : w.now ≤ l + 2498 + gap := by
  obtain ⟨hkey, -, -, hlt⟩ := h.started l hl
  obtain ⟨k, hk⟩ := Option.ne_none_iff_exists'.1 hkey
  obtain ⟨hnow, -, -, -, hsent, -⟩ := h.key k hk
  omega

/-- A keystroke less than half a second after the last call makes none. -/
theorem Writes.early (h : w.Writes gap) (hlate : ¬ w.editor.lastTypingSent + 500 ≤ w.now) :
    Writes gap { w with
      editor := { w.editor with typingTimer := some (w.now + w.editor.stopDelayMs) }, lastKey := some w.now } := by
  cases hkey : w.lastKey with
  | none =>
    have := h.clock
    rw [(h.idle hkey).2.1] at hlate
    omega
  | some k =>
    obtain ⟨-, hk, -, hsent, -, hstart⟩ := h.key k hkey
    refine ⟨h.isGroup, h.cooldownMs, h.stopDelayMs, h.clock, fun hk => (by cases hk), fun k' hk' => ?_, fun l hl => ?_,
      h.unstarted⟩
    · obtain rfl := Option.some.inj hk'
      exact ⟨Nat.le_add_right _ _, le_rfl, by rw [h.stopDelayMs], hsent.trans hk, not_le.1 hlate, hstart⟩
    · exact ⟨fun hk => (by cases hk), (h.started l hl).2⟩

/-- What a call of typing/start does here. -/
theorem Writes.call (h : w.Writes gap) (hlate : w.editor.lastTypingSent + 500 ≤ w.now) :
    let w' := { w with
      editor := { w.editor with lastTypingSent := w.now, typingTimer := some (w.now + w.editor.stopDelayMs) },
      lastKey := some w.now }
    (w'.call true).Writes gap ∧
      ((w'.call true).wire = w.wire ∧ (w'.call true).lastStart = w.lastStart ∨
        (w'.call true).wire = w.wire ++ [⟨true, w.now⟩] ∧ (w'.call true).lastStart = some w.now ∧
          ∀ l, w.lastStart = some l → l + 2000 ≤ w.now) := by
  intro w'
  set c : TypingCall := ⟨w.now, true, w.request, true⟩ with hcdef
  have hcompose : w.lastKey = none ∧ w.outbound.composeStart[w.request.key]? = none ∨
      ∃ start, w.outbound.composeStart[w.request.key]? = some start ∧ start + 500 ≤ w.now := by
    cases hkey : w.lastKey with
    | none => exact Or.inl ⟨rfl, (h.idle hkey).2.2⟩
    | some k =>
      obtain ⟨-, -, -, -, -, start, hstart, hle⟩ := h.key k hkey
      exact Or.inr ⟨start, hstart, by omega⟩
  have hunstarted : w.outbound.composeStart[w.request.key]? = none → w.lastStart = none := by
    intro hnone
    cases hl : w.lastStart with
    | none => rfl
    | some l =>
      obtain ⟨hkey, -⟩ := h.started l hl
      obtain ⟨k, hk⟩ := Option.ne_none_iff_exists'.1 hkey
      obtain ⟨-, -, -, -, -, start, hstart, -⟩ := h.key k hk
      rw [hnone] at hstart
      cases hstart
  have hwhole : (∃ start, (w.outbound.next c).composeStart[w.request.key]? = some start ∧ start ≤ w.now) →
      (∀ l, (w'.call true).lastStart = some l →
        (w.outbound.next c).lastOutboundStart[w.request.key]? = some l ∧ l ≤ w.now ∧ w.now < l + 2000) →
      ((w'.call true).lastStart = none → (w.outbound.next c).lastOutboundStart[w.request.key]? = none) →
      (w'.call true).Writes gap := by
    intro hstart hstarted hnone
    refine ⟨h.isGroup, h.cooldownMs, h.stopDelayMs, h.clock, fun hk => (by cases hk), fun k hk => ?_, fun l hl => ?_,
      hnone⟩
    · obtain rfl := Option.some.inj hk
      exact ⟨Nat.le_add_right _ _, le_rfl, congrArg (fun ms => some (w.now + ms)) h.stopDelayMs, le_rfl,
        Nat.lt_add_of_pos_right (by decide), hstart⟩
    · obtain ⟨hout, hle, hlt⟩ := hstarted l hl
      exact ⟨fun hk => (by cases hk), hout, hle, hlt⟩
  have hkept : ∀ l, w.lastStart = some l → w.outbound.lastOutboundStart[w.request.key]? = some l ∧ l ≤ w.now := by
    intro l hl
    obtain ⟨-, hout, hle, -⟩ := h.started l hl
    exact ⟨hout, by omega⟩
  rcases TypingOutbound.call_cases w.outbound c with ⟨-, hsent, hcool, hgroup, hnext⟩ |
    ⟨-, hsent, -, -, hnone, hnext⟩ | ⟨-, hsent, hnext, hwhy, hstarted⟩ | ⟨hstop, -⟩
  · obtain ⟨hwire, hlast⟩ := call_sent (w := w') hsent
    obtain ⟨-, start, hstart, hthreshold⟩ := hgroup h.isGroup
    refine ⟨hwhole ?_ ?_ ?_, Or.inr ⟨hwire, hlast, fun l hl => ?_⟩⟩
    · rw [hnext]
      exact ⟨start, hstart, by change 300 ≤ w.now - start at hthreshold; omega⟩
    · intro l hl
      obtain rfl := Option.some.inj (hlast.symm.trans hl)
      rw [hnext]
      exact ⟨(get_insert ..).trans (if_pos rfl), le_rfl, Nat.lt_add_of_pos_right (by decide)⟩
    · intro hl
      rw [hlast] at hl
      cases hl
    · by_contra hlt
      refine Bool.false_ne_true (hcool.symm.trans (TypingOutbound.isWithinCooldown_iff.2 ⟨l, (hkept l hl).1, ?_⟩))
      change w.now - l < 2000
      omega
  · obtain ⟨hwire, hlast⟩ := call_unsent (w := w') hsent
    have hl : w.lastStart = none := hunstarted hnone
    refine ⟨hwhole ?_ ?_ ?_, Or.inl ⟨hwire, hlast⟩⟩
    · rw [hnext]
      exact ⟨w.now, (get_insert ..).trans (if_pos rfl), le_rfl⟩
    · intro l hl'
      rw [hlast] at hl'
      cases hl.symm.trans hl'
    · intro _
      rw [hnext]
      exact h.unstarted hl
  · obtain ⟨hwire, hlast⟩ := call_unsent (w := w') hsent
    obtain ⟨start, hstart⟩ := hstarted h.isGroup rfl
    rcases hcompose with ⟨-, hnone⟩ | ⟨start', hstart', hle⟩
    · cases hnone.symm.trans hstart
    rcases hwhy with hwithin | ⟨-, hearly⟩
    · obtain ⟨l, hout, hlt⟩ := TypingOutbound.isWithinCooldown_iff.1 hwithin
      refine ⟨hwhole ?_ ?_ ?_, Or.inl ⟨hwire, hlast⟩⟩
      · rw [hnext]
        exact ⟨start', hstart', by omega⟩
      · intro l' hl'
        have hl := hlast.symm.trans hl'
        obtain ⟨hout', hle'⟩ := hkept l' hl
        obtain rfl := Option.some.inj (hout.symm.trans hout')
        rw [hnext]
        exact ⟨hout, hle', by change w.now - l < 2000 at hlt; omega⟩
      · intro hl'
        cases hout.symm.trans (h.unstarted (hlast.symm.trans hl'))
    · obtain ⟨start'', hstart'', hlt⟩ := hearly rfl
      obtain rfl := Option.some.inj (hstart'.symm.trans hstart'')
      change w.now - start' < 300 at hlt
      omega
  · cases hstop

/-- The notes under way and the page: what has arrived holds a timer, and until that fires the next start is there. -/
structure Lands (earliest latest gap : ℕ) (w : TypingLink) : Prop where
  writes : w.Writes gap
  store : w.store.Inv
  wire : ∀ m ∈ w.wire, m.isTyping = true ∧ w.now ≤ m.sentAt + latest ∧ ∃ l, w.lastStart = some l ∧ m.sentAt ≤ l
  arrived : ∀ M, w.arrived = some M → M + earliest ≤ w.now ∧ (∃ l, w.lastStart = some l ∧ M ≤ l) ∧
    ∃ t, w.store.timeouts.get t = some w.pair ∧ M + earliest + 3000 ≤ w.due t
  chain : ∀ m, (w.arrived = some m ∨ ∃ x ∈ w.wire, x.sentAt = m) → (∀ M, w.arrived = some M → M ≤ m) →
    w.lastStart = some m ∨ ∃ x ∈ w.wire, m < x.sentAt ∧ x.sentAt ≤ m + 2498 + gap

/-- The timer of the one who is shown does not fire. -/
theorem Lands.pending (h : w.Lands earliest latest gap) (hgap : gap + latest ≤ earliest + 501) {M : ℕ}
    (hM : w.arrived = some M) : w.now < M + earliest + 3000 := by
  rcases h.chain M (Or.inl hM) fun M' hM' => (Option.some.inj (hM'.symm.trans hM)).le with hlast | ⟨x, hx, -, hle⟩
  · have := h.writes.recent hlast
    omega
  · have := (h.wire x hx).2.1
    omega

theorem Lands.call (h : w.Lands earliest latest gap) (hlate : w.editor.lastTypingSent + 500 ≤ w.now) :
    (({ w with
      editor := { w.editor with lastTypingSent := w.now, typingTimer := some (w.now + w.editor.stopDelayMs) },
      lastKey := some w.now } : TypingLink).call true).Lands earliest latest gap := by
  obtain ⟨hwrites, hsent⟩ := h.writes.call hlate
  have hpair := pair_call (w := { w with
      editor := { w.editor with lastTypingSent := w.now, typingTimer := some (w.now + w.editor.stopDelayMs) },
      lastKey := some w.now }) true
  rcases hsent with ⟨hwire, hlast⟩ | ⟨hwire, hlast, hspaced⟩
  · refine ⟨hwrites, h.store, ?_, ?_, ?_⟩
    · rw [hwire, hlast]
      exact h.wire
    · rw [hlast, hpair]
      exact h.arrived
    · rw [hwire, hlast]
      exact h.chain
  · have hlater : ∀ {l}, w.lastStart = some l → l + 2000 ≤ w.now ∧ w.now ≤ l + 2498 + gap := fun hl =>
      ⟨hspaced _ hl, h.writes.recent hl⟩
    refine ⟨hwrites, h.store, fun m hm => ?_, fun M hM => ?_, fun m hm hle => ?_⟩
    · rw [hwire, List.mem_append, List.mem_singleton] at hm
      rcases hm with hm | rfl
      · obtain ⟨htyping, hnow, l, hl, hml⟩ := h.wire m hm
        exact ⟨htyping, hnow, w.now, hlast, by have := hlater hl; omega⟩
      · exact ⟨rfl, Nat.le_add_right _ _, w.now, hlast, le_rfl⟩
    · rw [hpair]
      obtain ⟨hnow, ⟨l, hl, hMl⟩, ht⟩ := h.arrived M hM
      exact ⟨hnow, ⟨w.now, hlast, by have := hlater hl; omega⟩, ht⟩
    · have hold : w.arrived = some m ∨ (∃ x ∈ w.wire, x.sentAt = m) →
          ∃ x ∈ (w.wire ++ [⟨true, w.now⟩] : List TypingNote), m < x.sentAt ∧ x.sentAt ≤ m + 2498 + gap := by
        intro hm
        rcases h.chain m hm hle with hl | ⟨x, hx, hlt⟩
        · exact ⟨⟨true, w.now⟩, by simp, by have := hlater hl; dsimp only; omega⟩
        · exact ⟨x, List.mem_append_left _ hx, hlt⟩
      rw [hwire, hlast]
      rcases hm with hm | ⟨x, hx, rfl⟩
      · exact Or.inr (hold (Or.inl hm))
      · rw [hwire, List.mem_append, List.mem_singleton] at hx
        rcases hx with hx | rfl
        · exact Or.inr (hold (Or.inr ⟨x, hx, rfl⟩))
        · exact Or.inl rfl

/-- Something else happens on the page. -/
theorem Lands.page (h : w.Lands earliest latest gap) {store : MessagingStore} {due : ℕ → ℕ} (hs : store.Inv)
    (ht : ∀ t, w.store.timeouts.get t = some w.pair → w.now < w.due t →
      store.timeouts.get t = some w.pair ∧ w.due t ≤ due t) (hgap : gap + latest ≤ earliest + 501) :
    Lands earliest latest gap { w with store, due } := by
  refine ⟨h.writes.kept, hs, h.wire, fun M hM => ?_, h.chain⟩
  obtain ⟨hnow, hl, t, hpair, hdue⟩ := h.arrived M hM
  obtain ⟨hpair', hdue'⟩ := ht t hpair ((h.pending hgap hM).trans_le hdue)
  exact ⟨hnow, hl, t, hpair', hdue.trans hdue'⟩

theorem Lands.deliver (h : w.Lands earliest latest gap) {i : ℕ} (hg : w.Timely earliest latest (.deliver i)) :
    (w.deliver i).Lands earliest latest gap := by
  unfold TypingLink.deliver
  cases hm : w.wire[i]? with
  | none => exact h
  | some m =>
    have hmem := List.mem_of_getElem? hm
    obtain ⟨htyping, hnow, l, hl, hml⟩ := h.wire m hmem
    have hearly := hg.1 m hm
    dsimp only
    rw [htyping, if_pos rfl]
    have harrived : ∀ M, w.arrived = some M → M ≤ max m.sentAt (w.arrived.getD 0) := by
      intro M hM
      rw [hM]
      exact le_max_right _ _
    have hsent : m.sentAt ≤ max m.sentAt (w.arrived.getD 0) := le_max_left _ _
    have hlatest : max m.sentAt (w.arrived.getD 0) = m.sentAt ∨
        w.arrived = some (max m.sentAt (w.arrived.getD 0)) := by
      cases hM : w.arrived with
      | none => exact Or.inl (max_eq_left (Nat.zero_le _))
      | some M =>
        rcases max_choice m.sentAt M with heq | heq
        · exact Or.inl heq
        · exact Or.inr (by rw [Option.getD_some, heq])
    generalize max m.sentAt (w.arrived.getD 0) = latestStart at harrived hsent hlatest
    refine ⟨h.writes.kept, h.store.setTyping hg.2, fun m' hm' => h.wire m' (List.mem_of_mem_eraseIdx hm'),
      fun M hM => ?_, fun m' hm' hle => ?_⟩
    · obtain rfl := Option.some.inj hM
      have hthere : latestStart + earliest ≤ w.now ∧ ∃ l, w.lastStart = some l ∧ latestStart ≤ l := by
        rcases hlatest with rfl | hold
        · exact ⟨hearly, l, hl, hml⟩
        · exact ⟨(h.arrived _ hold).1, (h.arrived _ hold).2.1⟩
      refine ⟨hthere.1, hthere.2, w.store.nextTimer, h.store.setTyping_self.2 ⟨rfl, rfl⟩, ?_⟩
      rw [show TypingLink.due _ w.store.nextTimer = _ from setTyping_due_new]
      exact Nat.add_le_add_right hthere.1 _
    · have hkept : ∀ x ∈ w.wire, latestStart < x.sentAt → x ∈ w.wire.eraseIdx i := by
        intro x hx hlt
        refine StepSystem.mem_eraseIdx_of_ne hm hx ?_
        rintro rfl
        exact absurd hsent (not_le.2 hlt)
      have hbefore : w.arrived = some m' ∨ ∃ x ∈ w.wire, x.sentAt = m' := by
        rcases hm' with hm' | ⟨x, hx, rfl⟩
        · obtain rfl := Option.some.inj hm'
          rcases hlatest with rfl | hold
          · exact Or.inr ⟨m, hmem, rfl⟩
          · exact Or.inl hold
        · exact Or.inr ⟨x, List.mem_of_mem_eraseIdx hx, rfl⟩
      have hlatest' : latestStart ≤ m' := hle latestStart rfl
      rcases h.chain m' hbefore fun M hM => (harrived M hM).trans hlatest' with hlast | ⟨x, hx, hlt, hnext⟩
      · exact Or.inl hlast
      · exact Or.inr ⟨x, hkept x hx (hlatest'.trans_lt hlt), hlt, hnext⟩

theorem Lands.step (h : w.Lands earliest latest gap) (hgap : gap < 1500) (htime : gap + latest ≤ earliest + 501)
    {e : TypingLinkEvent} (hg : w.Steady earliest latest gap e) : (w.step e).Lands earliest latest gap := by
  cases e with
  | update blank =>
    show (w.update blank).Lands earliest latest gap
    cases blank with
    | true => exact h
    | false =>
      by_cases hlate : w.editor.lastTypingSent + w.editor.cooldownMs ≤ w.now
      · rw [update_late hlate]
        rw [h.writes.cooldownMs] at hlate
        exact h.call hlate
      · rw [update_early hlate]
        rw [h.writes.cooldownMs] at hlate
        exact ⟨h.writes.early hlate, h.store, h.wire, h.arrived, h.chain⟩
  | fire =>
    unfold TypingLink.step
    dsimp only
    cases hkey : w.lastKey with
    | none =>
      rw [(h.writes.idle hkey).1]
      exact h
    | some k =>
      obtain ⟨hnow, -, htimer, -⟩ := h.writes.key k hkey
      rw [htimer]
      dsimp only
      rw [if_neg (by omega)]
      exact h
  | send => exact absurd hg.2 id
  | unmount => exact absurd hg.2 id
  | deliver i => exact h.deliver hg.1
  | lose i => exact absurd hg.2 id
  | expire timer =>
    unfold TypingLink.step
    dsimp only
    split_ifs with hdue
    · refine h.page h.store.expire (fun t ht hlt => ⟨MessagingStore.expire_timeouts.2 ⟨ht, ?_⟩, le_rfl⟩) htime
      rintro rfl
      exact absurd hdue (not_le.2 hlt)
    · exact h
  | page e =>
    cases e with
    | setTyping p isTyping =>
      refine h.page (h.store.setTyping hg.1.1) (fun t ht hlt => ⟨?_, ?_⟩) htime
      · exact (h.store.setTyping_other hg.1.1 (Ne.symm hg.2)).2 ht
      · exact (setTyping_due_old h.store p isTyping ht).ge
    | setActiveConversation c =>
      refine h.page (h.store.setActiveConversation hg.1.1) (fun t ht hlt => ⟨?_, le_rfl⟩) htime
      exact (h.store.setActiveConversation_kept hg.1.1).2 ⟨ht, fun old hold => (hg.2 old hold).symm⟩
    | expire timer => exact absurd hg.1.2 id
  | advance ms =>
    refine ⟨?_, h.store, fun m hm => ?_, fun M hM => ?_, h.chain⟩
    · refine ⟨h.writes.isGroup, h.writes.cooldownMs, h.writes.stopDelayMs, h.writes.clock.trans (Nat.le_add_right _ _),
        h.writes.idle, fun k hk => ?_, h.writes.started, h.writes.unstarted⟩
      obtain ⟨-, hle, hrest⟩ := h.writes.key k hk
      exact ⟨hg.2 k hk, hle.trans (Nat.le_add_right _ _), hrest⟩
    · obtain ⟨htyping, -, hl⟩ := h.wire m hm
      exact ⟨htyping, hg.1.1 m hm, hl⟩
    · obtain ⟨hnow, hrest⟩ := h.arrived M hM
      exact ⟨hnow.trans (Nat.le_add_right _ _), hrest⟩

/-- For as long as a member goes on writing, whoever has been told once sees it all the time, if no pause and no two
ways of a start differ by more than the half second by which the page's timers outlast the composer's calls. -/
theorem shown_while_writing {w : TypingLink} {earliest latest gap : ℕ} (hle : earliest ≤ latest)
    (htime : gap + latest ≤ earliest + 501)
    (h : StepSystem.Reach (typingLinkSys .groupView true) (Steady earliest latest gap) w) (ha : w.arrived ≠ none) :
    w.store.Shows w.pair := by
  have hinv : w.Lands earliest latest gap := by
    refine h.invariant ?_ fun _ _ hi hg => hi.step (by omega) htime hg
    rintro w ⟨heditor, hisGroup, hclock, ⟨did, houtbound⟩, hwire, hstore, hkey, hlast, harrived⟩
    refine ⟨⟨hisGroup, by rw [heditor]; rfl, by rw [heditor]; rfl, hclock, fun _ => ?_, fun k hk => ?_, fun l hl => ?_,
      fun _ => ?_⟩, ?_, fun m hm => ?_, fun M hM => ?_, fun m hm _ => ?_⟩
    · rw [heditor, houtbound]
      exact ⟨rfl, rfl, rfl⟩
    · cases hkey.symm.trans hk
    · cases hlast.symm.trans hl
    · rw [houtbound]
      rfl
    · rw [hstore]
      exact MessagingStore.inv_new
    · rw [hwire] at hm
      cases hm
    · cases harrived.symm.trans hM
    · rcases hm with hm | ⟨x, hx, -⟩
      · cases harrived.symm.trans hm
      · rw [hwire] at hx
        cases hx
  obtain ⟨M, hM⟩ := Option.ne_none_iff_exists'.1 ha
  obtain ⟨-, -, t, ht, -⟩ := hinv.arrived M hM
  exact (hinv.store.shown w.pair).2 ⟨t, ht⟩

/-- A member of g1 who types on every 400 ms; a start takes 120 ms. -/
def writing : List TypingLinkEvent :=
  let pause ms : List TypingLinkEvent := [.advance ms, .update false]
  [.update false] ++ pause 400 ++ pause 400 ++ [.advance 120, .deliver 0] ++ pause 280 ++ pause 400 ++ pause 400 ++
    pause 400 ++ pause 400 ++ pause 400 ++ [.advance 120, .deliver 0] ++ pause 280 ++ pause 400

def blank : TypingLink := ⟨1000, .groupView, .new "did:a", ⟨"g1", true⟩, [], .new, fun _ => 0, none, none, none⟩

def wrote : TypingLink := writing.foldl (typingLinkSys .groupView true).step blank

theorem wrote_reach : StepSystem.Reach (typingLinkSys .groupView true) (Steady 100 150 400) wrote := by
  have hblank : (typingLinkSys .groupView true).init blank :=
    ⟨rfl, rfl, by decide, ⟨"did:a", rfl⟩, rfl, rfl, rfl, rfl, rfl⟩
  have hg : StepSystem.Guarded (typingLinkSys .groupView true) (Steady 100 150 400) blank writing := by decide
  exact StepSystem.reach_foldl (.init hblank) hg

/-- The second start of theirs has arrived. -/
theorem shown_while_writing_wrote : wrote.arrived = some 4200 ∧ wrote.store.Shows wrote.pair :=
  ⟨by decide, shown_while_writing (by decide) (by decide) wrote_reach (by decide)⟩

theorem shown_recent_wrote : ∃ l, wrote.lastStart = some l ∧ wrote.now ≤ l + 150 + 3000 := by
  have hshown : wrote.store.Shows wrote.pair := by
    show _ ∈ _
    decide
  exact shown_recent (wrote_reach.mono fun _ _ h => h.1) hshown

/-! A direct conversation is not -/

/-- The starts come three seconds apart, and the timer of the one who is shown is not younger than that. -/
structure Apart (latency : ℕ) (w : TypingLink) : Prop where
  isGroup : w.request.isGroup = false
  cooldownMs : w.editor.cooldownMs = 3000
  clock : 3000 ≤ w.now
  store : w.store.Inv
  stopped : w.editor.lastTypingSent = 0 → w.outbound.lastOutboundStart[w.request.key]? = none
  sent : w.editor.lastTypingSent ≠ 0 →
    w.outbound.lastOutboundStart[w.request.key]? = some w.editor.lastTypingSent
  wire : ∀ m ∈ w.wire, w.now ≤ m.sentAt + latency
  chain : w.wire.IsChain fun a b => a.isTyping = true → b.isTyping = true → a.sentAt + 3000 ≤ b.sentAt
  last : ∀ m ∈ w.wire.getLast?, m.isTyping = true →
    w.editor.lastTypingSent ≠ 0 ∧ m.sentAt ≤ w.editor.lastTypingSent
  due : ∀ t, w.store.timeouts.get t = some w.pair → ∃ sentAt, w.due t = sentAt + latency + 3000 ∧
    (∀ m ∈ w.wire.head?, m.isTyping = true → sentAt + 3000 ≤ m.sentAt) ∧
    (w.wire = [] → w.editor.lastTypingSent ≠ 0 ∧ sentAt ≤ w.editor.lastTypingSent)

/-- The wire gets a note and the composer a time. -/
theorem Apart.push (h : w.Apart latency) {editor : MessageEditor} {outbound : TypingOutbound} {starts : Bool}
    {lastKey lastStart : Option ℕ} (hcooldown : editor.cooldownMs = w.editor.cooldownMs)
    (hdid : outbound.localDid = w.outbound.localDid)
    (hstopped : editor.lastTypingSent = 0 → outbound.lastOutboundStart[w.request.key]? = none)
    (hsent : editor.lastTypingSent ≠ 0 → outbound.lastOutboundStart[w.request.key]? = some editor.lastTypingSent)
    (hstart : starts = true → editor.lastTypingSent = w.now ∧ w.editor.lastTypingSent + 3000 ≤ w.now) :
    Apart latency { w with editor, outbound, lastKey, lastStart, wire := w.wire ++ [⟨starts, w.now⟩] } := by
  have hpair : TypingLink.pair
      { w with editor, outbound, lastKey, lastStart, wire := w.wire ++ [⟨starts, w.now⟩] } = w.pair := by
    unfold TypingLink.pair
    dsimp only
    rw [hdid]
  have hclock := h.clock
  refine ⟨h.isGroup, hcooldown.trans h.cooldownMs, h.clock, h.store, hstopped, hsent, fun m hm => ?_, ?_,
    fun m hm htyping => ?_, fun t ht => ?_⟩
  · rcases List.mem_append.1 hm with hm | hm
    · exact h.wire m hm
    · rw [List.mem_singleton.1 hm]
      exact Nat.le_add_right _ _
  · refine List.isChain_append.2 ⟨h.chain, List.isChain_singleton _, fun a ha b hb hatyping hbtyping => ?_⟩
    obtain rfl : _ = b := Option.some.inj hb
    have := (h.last a ha hatyping).2
    have := (hstart hbtyping).2
    dsimp only
    omega
  · rw [List.getLast?_concat, Option.mem_some_iff] at hm
    obtain rfl := hm
    have := hstart htyping
    dsimp only
    omega
  · rw [hpair] at ht
    obtain ⟨sentAt, hdue, hhead, hempty⟩ := h.due t ht
    refine ⟨sentAt, hdue, fun m hm htyping => ?_, fun heq => absurd heq (by simp)⟩
    cases hw : w.wire with
    | nil =>
      simp only [hw, List.nil_append, List.head?_cons, Option.mem_some_iff] at hm
      obtain rfl := hm
      have := hstart htyping
      have := (hempty hw).2
      dsimp only
      omega
    | cons m' rest =>
      simp only [hw, List.cons_append, List.head?_cons] at hm
      exact hhead m (by rw [hw]; exact hm) htyping

theorem Apart.call (h : w.Apart latency) (hlate : w.editor.lastTypingSent + 3000 ≤ w.now) :
    (({ w with
      editor := { w.editor with lastTypingSent := w.now, typingTimer := some (w.now + w.editor.stopDelayMs) },
      lastKey := some w.now } : TypingLink).call true).Apart latency := by
  set w' : TypingLink := { w with
    editor := { w.editor with lastTypingSent := w.now, typingTimer := some (w.now + w.editor.stopDelayMs) },
    lastKey := some w.now }
  set c : TypingCall := ⟨w.now, true, w.request, true⟩
  have hwhole : w'.call true =
      { w' with
        outbound := w.outbound.next c, wire := (w'.call true).wire, lastStart := (w'.call true).lastStart } := rfl
  have hclock := h.clock
  rcases TypingOutbound.call_cases w.outbound c with ⟨-, hsent, -, -, hnext⟩ | ⟨-, -, hisGroup, -⟩ |
    ⟨-, -, -, hwithin | ⟨hisGroup, -⟩, -⟩ | ⟨hstop, -⟩
  · obtain ⟨hwire, -⟩ := call_sent (w := w') hsent
    rw [hwhole, hwire]
    refine h.push rfl (by rw [TypingOutbound.next_localDid]) (fun hzero => ?_) (fun _ => ?_) fun _ => ⟨rfl, hlate⟩
    · change w.now = 0 at hzero
      omega
    · rw [hnext]
      exact (get_insert ..).trans (if_pos rfl)
  · cases h.isGroup.symm.trans hisGroup
  · obtain ⟨l, hout, hlt⟩ := TypingOutbound.isWithinCooldown_iff.1 hwithin
    change w.outbound.lastOutboundStart[w.request.key]? = some l at hout
    change w.now - l < 2000 at hlt
    by_cases hzero : w.editor.lastTypingSent = 0
    · cases (h.stopped hzero).symm.trans hout
    · obtain rfl := Option.some.inj ((h.sent hzero).symm.trans hout)
      omega
  · cases h.isGroup.symm.trans hisGroup
  · cases hstop

theorem Apart.stop (h : w.Apart latency) : w.stop.Apart latency := by
  set w' : TypingLink := { w with editor := w.editor.stop }
  set c : TypingCall := ⟨w.now, false, w.request, true⟩
  have hwhole : w'.call false =
      { w' with
        outbound := w.outbound.next c, wire := (w'.call false).wire, lastStart := (w'.call false).lastStart } := rfl
  have hsent : (w.outbound.call c).1.isSome = true := by
    show (w.outbound.stopTyping w.request w.now).1.isSome = true
    unfold TypingOutbound.stopTyping
    rw [if_neg (by rw [h.isGroup]; exact Bool.false_ne_true)]
    rfl
  obtain ⟨hwire, -⟩ := call_sent (w := w') hsent
  show (w'.call false).Apart latency
  rw [hwhole, hwire]
  refine h.push rfl (by rw [TypingOutbound.next_localDid]) (fun _ => ?_) (fun hne => absurd rfl hne)
    fun hf => (by cases hf)
  rcases TypingOutbound.call_cases w.outbound c with ⟨hf, -⟩ | ⟨hf, -⟩ | ⟨hf, -⟩ | ⟨-, hnext⟩
  · cases hf
  · cases hf
  · cases hf
  · rw [hnext]
    exact (get_erase ..).trans (if_pos rfl)

/-- Something else happens on the page. -/
theorem Apart.page (h : w.Apart latency) {store : MessagingStore} {due : ℕ → ℕ} (hs : store.Inv)
    (ht : ∀ t, store.timeouts.get t = some w.pair → w.store.timeouts.get t = some w.pair ∧ due t = w.due t) :
    Apart latency { w with store, due } := by
  refine ⟨h.isGroup, h.cooldownMs, h.clock, hs, h.stopped, h.sent, h.wire, h.chain, h.last, fun t htimer => ?_⟩
  obtain ⟨hold, hdue⟩ := ht t htimer
  obtain ⟨sentAt, heq, hrest⟩ := h.due t hold
  exact ⟨sentAt, hdue.trans heq, hrest⟩

theorem Apart.deliver (h : w.Apart latency) (hg : w.Timely latency latency (.deliver 0)) :
    (w.deliver 0).Apart latency := by
  unfold TypingLink.deliver
  cases hw : w.wire with
  | nil => exact h
  | cons m rest =>
    have hnow : w.now = m.sentAt + latency :=
      (h.wire m (by simp [hw])).antisymm (hg.1 m (by simp [hw]))
    have hchain := h.chain
    rw [hw] at hchain
    dsimp only [List.getElem?_cons_zero, List.eraseIdx_cons_zero]
    refine ⟨h.isGroup, h.cooldownMs, h.clock, h.store.setTyping ?_, h.stopped, h.sent, fun m' hm' => ?_, hchain.tail,
      fun m' hm' => ?_, fun t ht => ?_⟩
    · exact hg.2
    · exact h.wire m' (by rw [hw]; exact List.mem_cons_of_mem _ hm')
    · refine h.last m' ?_
      rw [hw]
      cases rest with
      | nil => cases hm'
      | cons m'' rest => exact hm'
    · obtain ⟨htyping, rfl⟩ := h.store.setTyping_self.1 ht
      refine ⟨m.sentAt, ?_, fun m' hm' htyping' => ?_, fun hempty => ?_⟩
      · rw [htyping]
        show (w.setTyping w.pair true).due w.store.nextTimer = _
        rw [setTyping_due_new, hnow]
      · cases rest with
        | nil => cases hm'
        | cons m'' rest =>
          obtain rfl := Option.some.inj hm'
          exact (List.isChain_cons_cons.1 hchain).1 htyping htyping'
      · change rest = [] at hempty
        exact h.last m (by simp [hw, hempty]) htyping

theorem Apart.step (h : w.Apart latency) {e : TypingLinkEvent} (hg : w.Prompt latency e) :
    (w.step e).Apart latency := by
  have hedit : ∀ typingTimer lastKey,
      Apart latency { w with editor := { w.editor with typingTimer }, lastKey } := fun typingTimer lastKey =>
    ⟨h.isGroup, h.cooldownMs, h.clock, h.store, h.stopped, h.sent, h.wire, h.chain, h.last, h.due⟩
  cases e with
  | update blank =>
    show (w.update blank).Apart latency
    cases blank with
    | true => exact h
    | false =>
      by_cases hlate : w.editor.lastTypingSent + w.editor.cooldownMs ≤ w.now
      · rw [update_late hlate]
        rw [h.cooldownMs] at hlate
        exact h.call hlate
      · rw [update_early hlate]
        exact hedit _ _
  | fire =>
    unfold TypingLink.step
    dsimp only
    split
    · split_ifs
      · exact h.stop
      · exact h
    · exact h
  | send => exact h.stop
  | unmount => exact absurd hg.2 id
  | deliver i =>
    obtain rfl : i = 0 := hg.2
    exact h.deliver hg.1
  | lose i => exact absurd hg.2 id
  | expire timer =>
    unfold TypingLink.step
    dsimp only
    split_ifs
    · exact h.page h.store.expire fun t ht => ⟨(MessagingStore.expire_timeouts.1 ht).1, rfl⟩
    · exact h
  | page e =>
    cases e with
    | setTyping p isTyping =>
      refine h.page (h.store.setTyping hg.1.1) fun t ht => ?_
      rcases h.store.setTyping_timeouts.1 ht with ⟨htyping, -, hp⟩ | ⟨hold, -⟩
      · cases htyping.symm.trans (hg.1.2 hp.symm)
      · exact ⟨hold, setTyping_due_old h.store p isTyping hold⟩
    | setActiveConversation c =>
      exact h.page (h.store.setActiveConversation hg.1.1) fun t ht =>
        ⟨((h.store.setActiveConversation_kept hg.1.1).1 ht).1, rfl⟩
    | expire timer => exact absurd hg.1.2 id
  | advance ms =>
    exact ⟨h.isGroup, h.cooldownMs, h.clock.trans (Nat.le_add_right _ _), h.store, h.stopped, h.sent, hg.1.1, h.chain,
      h.last, h.due⟩

/-- In a direct conversation the start that should renew the indicator never comes in time: whoever is still shown then
goes at that very moment. -/
theorem never_renewed {w : TypingLink} {latency : ℕ}
    (h : StepSystem.Reach (typingLinkSys .messageInput false) (Prompt latency) w) {m : TypingNote}
    {rest : List TypingNote} (hw : w.wire = m :: rest) (hm : m.isTyping = true) {t : ℕ}
    (ht : w.store.timeouts.get t = some w.pair) : w.due t ≤ m.sentAt + latency := by
  have hinv : w.Apart latency := by
    refine h.invariant ?_ fun _ _ hi hg => hi.step hg
    rintro w ⟨heditor, hisGroup, hclock, ⟨did, houtbound⟩, hwire, hstore, -, -, -⟩
    refine ⟨hisGroup, by rw [heditor]; rfl, hclock, ?_, fun _ => ?_, fun hne => ?_, fun m hm => ?_, ?_, fun m hm => ?_,
      fun t ht => ?_⟩
    · rw [hstore]
      exact MessagingStore.inv_new
    · rw [houtbound]
      rfl
    · rw [heditor] at hne
      exact absurd rfl hne
    · rw [hwire] at hm
      cases hm
    · rw [hwire]
      exact List.isChain_nil
    · rw [hwire] at hm
      cases hm
    · rw [hstore] at ht
      cases ht
  obtain ⟨sentAt, hdue, hhead, -⟩ := hinv.due t ht
  have := hhead m (by simp [hw]) hm
  omega

/-- To did:b, with a keystroke each second; a start takes 100 ms, and the second has just been sent. -/
def chatting : List TypingLinkEvent :=
  [.update false, .advance 100, .deliver 0, .advance 900, .update false, .advance 1000, .update false, .advance 1000,
    .update false]

def silent : TypingLink :=
  ⟨3000, .messageInput, .new "did:a", ⟨"did:b", false⟩, [], .new, fun _ => 0, none, none, none⟩

def chatted : TypingLink := chatting.foldl (typingLinkSys .messageInput false).step silent

theorem never_renewed_chatted : chatted.wire = [⟨true, 6000⟩] ∧ chatted.store.Shows chatted.pair ∧
    chatted.due 1 ≤ 6000 + 100 := by
  have hg : StepSystem.Guarded (typingLinkSys .messageInput false) (Prompt 100) silent chatting := by decide
  have hinit : (typingLinkSys .messageInput false).init silent :=
    ⟨rfl, rfl, by decide, ⟨"did:a", rfl⟩, rfl, rfl, rfl, rfl, rfl⟩
  have hreach : StepSystem.Reach (typingLinkSys .messageInput false) (Prompt 100) chatted :=
    StepSystem.reach_foldl (.init hinit) hg
  have hwire : chatted.wire = [⟨true, 6000⟩] := rfl
  have hshown : chatted.store.Shows chatted.pair := by
    show _ ∈ _
    decide
  exact ⟨hwire, hshown, never_renewed hreach hwire rfl (t := 1) rfl⟩

end TypingLink
end Variance
