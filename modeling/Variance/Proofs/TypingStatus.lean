import Variance.Spec.Typing

/-! Whoever types to the local user is entered under the local user's own DID, and asked for under the peer's. -/

namespace Variance

@[simp] theorem groupOfRecipient_key (g : String) : groupOfRecipient (groupTypingKey g) = some g := by
  unfold groupOfRecipient groupTypingKey
  rw [if_pos (Text.hasPrefix_append _ _), String.toList_append]
  simp

theorem groupOfRecipient_none {r : String} (h : ¬ Text.HasPrefix "group:" r) : groupOfRecipient r = none := if_neg h

theorem groupOfRecipient_some {r g : String} (h : groupOfRecipient r = some g) : r = groupTypingKey g := by
  unfold groupOfRecipient at h
  split_ifs at h with hp
  obtain ⟨rest, hrest⟩ := hp
  cases h
  rw [← String.toList_inj, groupTypingKey, String.toList_append, ← hrest]
  simp

namespace TypingHandler
variable {t : TypingHandler} {key k : String} {now : ℤ} {entry : List (Did × ℤ)} {x : Did × ℤ}

/-- Who is entered under a key. -/
def entries (t : TypingHandler) (key : String) : List (Did × ℤ) := t.typingStates[key]?.getD []

theorem entries_putEntry : (t.putEntry key entry).entries k = if key = k then entry else t.entries k := by
  unfold entries putEntry
  dsimp only
  split_ifs with he hk hk
  · rw [get_erase, if_pos hk, he]
    rfl
  · rw [get_erase, if_neg hk]
  · rw [get_insert, if_pos hk]
    rfl
  · rw [get_insert, if_neg hk]

theorem entries_cleanupExpired : (t.cleanupExpired key now).entries k =
    if key = k then (t.entries key).filter fun x => now - x.2 < t.timeoutMs else t.entries k := by
  unfold cleanupExpired
  cases he : t.typingStates[key]? with
  | none =>
    split_ifs with hk
    · subst hk
      simp [entries, he]
    · rfl
  | some entry =>
    dsimp only
    rw [entries_putEntry]
    simp [entries, he]

@[simp] theorem cleanupExpired_timeoutMs : (t.cleanupExpired key now).timeoutMs = t.timeoutMs := by
  unfold cleanupExpired
  split <;> rfl

@[simp] theorem cleanupExpired_localDid : (t.cleanupExpired key now).localDid = t.localDid := by
  unfold cleanupExpired
  split <;> rfl

/-- `t'` is `t` without some of what has expired. -/
structure Trims (now : ℤ) (t t' : TypingHandler) : Prop where
  localDid : t'.localDid = t.localDid
  timeoutMs : t'.timeoutMs = t.timeoutMs
  old : ∀ k, ∀ x ∈ t'.entries k, x ∈ t.entries k
  live : ∀ k, ∀ x ∈ t.entries k, now - x.2 < t.timeoutMs → x ∈ t'.entries k

theorem Trims.refl (now : ℤ) (t : TypingHandler) : Trims now t t := ⟨rfl, rfl, fun _ _ h => h, fun _ _ h _ => h⟩

theorem Trims.trans {t' t'' : TypingHandler} (h : Trims now t t') (h' : Trims now t' t'') : Trims now t t'' := by
  refine ⟨h'.localDid.trans h.localDid, h'.timeoutMs.trans h.timeoutMs, ?_, ?_⟩
  · intro k x hx
    exact h.old k x (h'.old k x hx)
  · intro k x hx hlive
    exact h'.live k x (h.live k x hx hlive) (by rw [h.timeoutMs]; exact hlive)

theorem trims_cleanupExpired : Trims now t (t.cleanupExpired key now) := by
  refine ⟨cleanupExpired_localDid, cleanupExpired_timeoutMs, ?_, ?_⟩
  · intro k x hx
    rw [entries_cleanupExpired] at hx
    split_ifs at hx with hk
    · exact hk ▸ List.mem_of_mem_filter hx
    · exact hx
  · intro k x hx hlive
    rw [entries_cleanupExpired]
    split_ifs with hk
    · exact List.mem_filter.2 ⟨hk ▸ hx, by simpa using hlive⟩
    · exact hx

theorem trims_cleanupAllExpired : Trims now t (t.cleanupAllExpired now) := by
  unfold cleanupAllExpired
  generalize t.typingStates.keys = keys
  induction keys generalizing t with
  | nil => exact .refl _ _
  | cons key keys ih => exact trims_cleanupExpired.trans ih

/-- The two getters of the endpoint are one, under the recipient itself. -/
theorem getTypingUsers_eq (r : String) : t.getTypingUsers r now = t.getTypingUsersAt r now := by
  unfold getTypingUsers
  cases hg : groupOfRecipient r with
  | none => rfl
  | some g =>
    rw [groupOfRecipient_some hg]
    rfl

theorem mem_getTypingUsersAt {d : Did} : d ∈ (t.getTypingUsersAt key now).1 ↔
    ∃ time, (d, time) ∈ t.entries key ∧ now - time < t.timeoutMs := by
  have hlist : (t.getTypingUsersAt key now).1 = ((t.cleanupExpired key now).entries key).map (·.1) := by
    unfold getTypingUsersAt entries
    dsimp only
    cases (t.cleanupExpired key now).typingStates[key]? <;> rfl
  rw [hlist, entries_cleanupExpired, if_pos rfl]
  simp

/-- What a start or a stop leaves under its key. -/
theorem mem_receiveIndicator {sender : Did} {isTyping : Bool} {time : ℤ} {recipient : TypingRecipient} :
    x ∈ (t.receiveIndicator ⟨sender, some recipient, isTyping, time⟩ now).entries k ↔
      if recipient.key = k then (x ∈ t.entries k ∧ x.1 ≠ sender ∨ isTyping = true ∧ x = (sender, time)) ∧
        now - x.2 < t.timeoutMs
      else x ∈ t.entries k := by
  have hstep : ∀ t' : TypingHandler, t'.timeoutMs = t.timeoutMs →
      (∀ k, t'.entries k = if recipient.key = k then
        (t.entries k).filter (fun x => x.1 ≠ sender) ++ (if isTyping then [(sender, time)] else [])
      else t.entries k) →
      (x ∈ (t'.cleanupExpired recipient.key now).entries k ↔
        if recipient.key = k then (x ∈ t.entries k ∧ x.1 ≠ sender ∨ isTyping = true ∧ x = (sender, time)) ∧
          now - x.2 < t.timeoutMs
        else x ∈ t.entries k) := by
    intro t' htime hentries
    rw [entries_cleanupExpired, hentries, hentries, if_pos rfl, htime]
    split_ifs with hk htyping
    · subst hk
      simp [htyping]
      tauto
    · subst hk
      simp [htyping]
      tauto
    · rfl
  unfold receiveIndicator
  dsimp only
  cases isTyping with
  | true =>
    refine hstep _ rfl fun k => ?_
    rw [if_pos rfl, if_pos rfl, entries, get_insert]
    split_ifs with hk
    · subst hk
      rfl
    · rfl
  | false =>
    refine hstep _ ?_ fun k => ?_
    · rw [if_neg Bool.false_ne_true]
      split <;> rfl
    · rw [if_neg Bool.false_ne_true, if_neg Bool.false_ne_true, List.append_nil]
      cases he : t.typingStates[recipient.key]? with
      | none =>
        split_ifs with hk
        · subst hk
          simp [entries, he]
        · rfl
      | some entry =>
        dsimp only
        rw [entries_putEntry]
        split_ifs with hk
        · subst hk
          simp [entries, he]
        · rfl

theorem receiveIndicator_fixed (t : TypingHandler) (now : ℤ) (i : TypingIndicator) :
    (t.receiveIndicator i now).localDid = t.localDid ∧ (t.receiveIndicator i now).timeoutMs = t.timeoutMs := by
  unfold receiveIndicator
  cases i.recipient with
  | none => exact ⟨rfl, rfl⟩
  | some recipient =>
    dsimp only
    rw [cleanupExpired_localDid, cleanupExpired_timeoutMs]
    split
    · exact ⟨rfl, rfl⟩
    · split <;> exact ⟨rfl, rfl⟩

end TypingHandler

namespace TypingWorld
variable {w : TypingWorld} {a : TypingAddress} {d : Did} {t : TypingHandler}

def key (w : TypingWorld) (a : TypingAddress) : String := (w.recipient a).key

/-- Under an address's key lie the starts that were the last from their senders and not dropped; one within the timeout
is there. -/
structure Inv (w : TypingWorld) : Prop where
  own : ¬ Text.HasPrefix "group:" w.handler.localDid
  sound : ∀ a d time, (d, time) ∈ w.handler.entries (w.key a) → w.taken a d = some ⟨true, time⟩
  complete : ∀ a d time, w.taken a d = some ⟨true, time⟩ → w.now - time < w.handler.timeoutMs →
    (d, time) ∈ w.handler.entries (w.key a)
  other : ∀ k x, x ∈ w.handler.entries k → ∃ a, w.key a = k
  direct : ∀ d, w.taken .direct d = w.last .direct d

theorem groupTypingKey_inj {g g' : String} (h : groupTypingKey g = groupTypingKey g') : g = g' :=
  Text.append_right_inj.1 h

/-- Different addresses have different keys. -/
theorem Inv.key_inj (h : w.Inv) {a a' : TypingAddress} (hk : w.key a = w.key a') : a = a' := by
  have hown : ∀ g, w.handler.localDid ≠ groupTypingKey g := by
    intro g heq
    exact h.own (heq ▸ Text.hasPrefix_append _ _)
  cases a with
  | direct =>
    cases a' with
    | direct => rfl
    | group g => exact (hown g hk).elim
  | group g =>
    cases a' with
    | direct => exact (hown g hk.symm).elim
    | group g' => rw [groupTypingKey_inj hk]

/-- Who the endpoint names: whose last start was not dropped and has not expired. -/
theorem Inv.mem_users (h : w.Inv) : d ∈ w.users (w.key a) ↔ w.Live (w.taken a d) := by
  unfold users
  rw [TypingHandler.getTypingUsers_eq, TypingHandler.mem_getTypingUsersAt]
  constructor
  · rintro ⟨time, hmem, hlive⟩
    exact ⟨⟨true, time⟩, h.sound a d time hmem, rfl, hlive⟩
  · rintro ⟨⟨isTyping, time⟩, htaken, rfl, hlive⟩
    exact ⟨time, h.complete a d time htaken hlive, hlive⟩

/-- Under any other key there is nobody. -/
theorem Inv.users_other (h : w.Inv) {r : String} (hr : ∀ a, w.key a ≠ r) : d ∉ w.users r := by
  unfold users
  rw [TypingHandler.getTypingUsers_eq, TypingHandler.mem_getTypingUsersAt]
  rintro ⟨time, hmem, -⟩
  obtain ⟨a, ha⟩ := h.other r _ hmem
  exact hr a ha

/-! The steps -/

theorem Inv.trims (h : w.Inv) (ht : TypingHandler.Trims w.now w.handler t) : Inv { w with handler := t } := by
  have hkey : ∀ a, key { w with handler := t } a = w.key a := by
    intro a
    cases a with
    | direct => exact ht.localDid
    | group g => rfl
  refine ⟨by rw [ht.localDid]; exact h.own, ?_, ?_, ?_, h.direct⟩
  · intro a d time hmem
    rw [hkey] at hmem
    exact h.sound a d time (ht.old _ _ hmem)
  · intro a d time htaken hlive
    rw [hkey]
    dsimp only at hlive
    rw [ht.timeoutMs] at hlive
    exact ht.live _ _ (h.complete a d time htaken hlive) hlive
  · intro k x hx
    obtain ⟨a, ha⟩ := h.other k x (ht.old k x hx)
    exact ⟨a, (hkey a).trans ha⟩

theorem Inv.advance (h : w.Inv) (elapsed : ℕ) : Inv { w with now := w.now + elapsed } := by
  refine ⟨h.own, h.sound, ?_, h.other, h.direct⟩
  intro a d time htaken hlive
  exact h.complete a d time htaken (by dsimp only at hlive; omega)

/-- The listener, on an indicator to the local user or to a group. -/
theorem routeTyping_received (h : w.Inv) (sender : Did) (isTyping : Bool) (timestamp : ℤ) :
    w.handler.routeTyping w.members
      (TypingIndicator.received ⟨sender, some (w.recipient a), isTyping, timestamp⟩) w.now =
    if w.Drops sender a then w.handler
    else w.handler.receiveIndicator ⟨sender, some (w.recipient a), isTyping, w.now⟩ w.now := by
  unfold TypingHandler.routeTyping TypingIndicator.received
  dsimp only
  cases a with
  | direct =>
    rw [show (w.recipient .direct).key = w.handler.localDid from rfl, groupOfRecipient_none h.own]
    rfl
  | group g =>
    rw [show (w.recipient (.group g)).key = groupTypingKey g from rfl, groupOfRecipient_key]
    dsimp only
    by_cases hd : w.Drops sender (.group g)
    · rw [if_pos hd, if_neg (show sender ∉ w.members g from hd)]
    · rw [if_neg hd, if_pos (show sender ∈ w.members g from not_not.1 hd)]
      rfl

theorem note_apply {last : TypingAddress → Did → Option LastTyping} {a' : TypingAddress} {d' : Did} {x : LastTyping} :
    note last a d x a' d' = if a' = a ∧ d' = d then some x else last a' d' := rfl

theorem key_update {last taken : TypingAddress → Did → Option LastTyping} (ht : t.localDid = w.handler.localDid)
    (a : TypingAddress) : key { w with handler := t, last := last, taken := taken } a = w.key a := by
  cases a with
  | direct => exact ht
  | group g => rfl

/-- An indicator that is not dropped. -/
theorem Inv.receive (h : w.Inv) (sender : Did) (isTyping : Bool) {last : TypingAddress → Did → Option LastTyping}
    (hlast : ∀ d, note w.taken a sender ⟨isTyping, w.now⟩ .direct d = last .direct d) :
    Inv { w with
      handler := w.handler.receiveIndicator ⟨sender, some (w.recipient a), isTyping, w.now⟩ w.now
      last := last
      taken := note w.taken a sender ⟨isTyping, w.now⟩ } := by
  obtain ⟨hown, htime⟩ := TypingHandler.receiveIndicator_fixed w.handler w.now
    ⟨sender, some (w.recipient a), isTyping, w.now⟩
  refine ⟨by rw [hown]; exact h.own, ?_, ?_, ?_, hlast⟩
  · intro a' d time hmem
    rw [key_update hown, TypingHandler.mem_receiveIndicator] at hmem
    dsimp only
    rw [note_apply]
    split_ifs at hmem with hk
    · obtain rfl := h.key_inj hk
      obtain ⟨⟨hmem, hne⟩ | ⟨htyping, heq⟩, -⟩ := hmem
      · rw [if_neg fun hc => hne hc.2]
        exact h.sound _ d time hmem
      · cases heq
        rw [if_pos ⟨rfl, rfl⟩, htyping]
    · rw [if_neg fun hc => hk (by rw [hc.1]; rfl)]
      exact h.sound a' d time hmem
  · intro a' d time htaken hlive
    rw [key_update hown, TypingHandler.mem_receiveIndicator]
    dsimp only at htaken hlive
    rw [note_apply] at htaken
    rw [htime] at hlive
    split_ifs with hk
    · obtain rfl := h.key_inj hk
      refine ⟨?_, hlive⟩
      split_ifs at htaken with hd
      · cases htaken
        exact Or.inr ⟨rfl, by rw [hd.2]⟩
      · exact Or.inl ⟨h.complete _ d time htaken hlive, fun hds => hd ⟨rfl, hds⟩⟩
    · rw [if_neg fun hc => hk (by rw [hc.1]; rfl)] at htaken
      exact h.complete a' d time htaken hlive
  · intro k x hx
    rw [TypingHandler.mem_receiveIndicator] at hx
    split_ifs at hx with hk
    · exact ⟨a, (key_update hown a).trans hk⟩
    · obtain ⟨a', ha'⟩ := h.other k x hx
      exact ⟨a', (key_update hown a').trans ha'⟩

theorem Inv.indicator (h : w.Inv) (sender : Did) (a : TypingAddress) (isTyping : Bool) (timestamp : ℤ) :
    (w.next (.indicator sender a isTyping timestamp)).Inv := by
  unfold next
  dsimp only
  rw [routeTyping_received h]
  by_cases hd : w.Drops sender a
  · rw [if_pos hd, if_pos hd]
    refine ⟨h.own, h.sound, h.complete, h.other, fun d => ?_⟩
    dsimp only
    rw [note_apply, if_neg]
    · exact h.direct d
    · rintro ⟨rfl, -⟩
      exact hd
  · rw [if_neg hd, if_neg hd]
    refine h.receive sender isTyping fun d => ?_
    rw [note_apply, note_apply, h.direct]

theorem Inv.next (h : w.Inv) (e : TypingStep) : (w.next e).Inv := by
  cases e with
  | indicator sender a isTyping timestamp => exact h.indicator sender a isTyping timestamp
  | query r =>
    refine h.trims ?_
    rw [TypingHandler.getTypingUsers_eq]
    exact TypingHandler.trims_cleanupExpired
  | cleanupAllExpired => exact h.trims TypingHandler.trims_cleanupAllExpired
  | members g dids => exact ⟨h.own, h.sound, h.complete, h.other, h.direct⟩
  | advance elapsed => exact h.advance elapsed

theorem typing_inv (h : StepSystem.Reachable typingSys w) : w.Inv := by
  refine h.invariant ?_ fun _ e hi _ => hi.next e
  rintro w ⟨hs, hown, hlast, htaken⟩
  have hempty : ∀ k, w.handler.entries k = [] := by
    intro k
    simp [TypingHandler.entries, hs]
  refine ⟨hown, ?_, ?_, ?_, fun d => by rw [hlast, htaken]⟩
  · intro a d time hmem
    rw [hempty] at hmem
    cases hmem
  · intro a d time ht _
    rw [htaken] at ht
    cases ht
  · intro k x hx
    rw [hempty] at hx
    cases hx

/-- The endpoint is right about everybody just when it has nothing to say of the local user's peers, and what it says of
the groups still holds. -/
theorem typing_right_iff (h : StepSystem.Reachable typingSys w) : w.TypingRight ↔ w.NobodyTypes := by
  have hi := typing_inv h
  have hkey : w.key .direct = w.handler.localDid := rfl
  constructor
  · intro hr
    refine ⟨fun d hlive => ?_, fun g d => ?_⟩
    · rw [← hi.direct, ← hi.mem_users, hkey] at hlive
      exact (hr.direct w.handler.localDid hi.own).2 d hlive
    · rw [← hi.mem_users]
      exact hr.group g d
  · intro hn
    refine ⟨fun peer hpeer => ?_, fun g d => ?_⟩
    · by_cases hown : peer = w.handler.localDid
      · subst hown
        rw [← hkey, hi.mem_users, hi.direct]
        refine ⟨Iff.rfl, fun d hd => ?_⟩
        rw [hi.mem_users, hi.direct] at hd
        exact hn.direct d hd
      · have hnot : ∀ a, w.key a ≠ peer := by
          rintro (_ | g) heq
          · exact hown heq.symm
          · exact hpeer (heq ▸ Text.hasPrefix_append _ _)
        refine ⟨iff_of_false (hi.users_other hnot) fun hlive => hown (hn.direct peer hlive), fun d hd => ?_⟩
        exact (hi.users_other hnot hd).elim
    · rw [← hn.group, ← hi.mem_users]
      rfl

end TypingWorld

namespace TypingStatus

def idle : TypingWorld :=
  ⟨.new "did:a", 0, fun _ => [], fun _ _ => none, fun _ _ => none⟩

def run (es : List TypingStep) : TypingWorld := es.foldl typingSys.step idle

theorem idle_init : typingSys.init idle := ⟨rfl, by decide, rfl, rfl⟩

theorem reachable_run (es : List TypingStep) : StepSystem.Reachable typingSys (run es) :=
  StepSystem.reachable_foldl (.init idle_init) es

/-- A peer starts to type to us, and is not said to. -/
theorem typing_unseen : ¬ ∀ w, StepSystem.Reachable typingSys w → w.TypingRight := by
  intro h
  have hr := h _ (reachable_run [.indicator "did:b" .direct true 0])
  have hlive : (run [.indicator "did:b" .direct true 0]).Live
      ((run [.indicator "did:b" .direct true 0]).last .direct "did:b") := ⟨⟨true, 0⟩, rfl, rfl, by decide⟩
  have hmem := ((hr.direct "did:b" (by decide)).1).2 hlive
  exact absurd hmem (by decide +kernel)

/-- A member of a group starts to type there, and is. -/
theorem group_typing_right : (run [.members "g" ["did:b"], .indicator "did:b" (.group "g") true 0]).TypingRight := by
  refine (TypingWorld.typing_right_iff (reachable_run _)).2 ⟨fun d hd => ?_, fun g d => ?_⟩
  · obtain ⟨l, hl, -⟩ := hd
    cases hl
  · have hsame : (run [.members "g" ["did:b"], .indicator "did:b" (.group "g") true 0]).taken =
        (run [.members "g" ["did:b"], .indicator "did:b" (.group "g") true 0]).last := rfl
    rw [hsame]
    refine ⟨fun hlive => ⟨?_, hlive⟩, fun h => h.2⟩
    obtain ⟨l, hl, -⟩ := hlive
    change (if TypingAddress.group g = .group "g" ∧ d = "did:b" then some _ else none) = some l at hl
    split_ifs at hl with hc
    obtain ⟨hg, rfl⟩ := hc
    cases hg
    decide

end TypingStatus
end Variance
