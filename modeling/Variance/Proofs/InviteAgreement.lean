import Variance.Proofs.InviteOwnership
import Variance.Sanity.InviteTraffic

/-! Agreement of inviter and invitee on the commit. The inviter's slots are the history its log
records, so an acceptance merges the commit of the add issued last, and a commit that somebody joined
from is still pending or was the next to leave its slot. It need not have been merged: the expiry, a
decline or another member's commit may have come first. -/

namespace Variance
namespace InviteWorld
variable {M : OpenMls} {S : CommitSlot M} {W : Wire} {w : InviteWorld M}

open SlotLog LocalMessageStorage MlsGroupHandler Node

/-- An invitation for a group that the key reads as `g` had expired. -/
def ExpiredFor (log : List (InviteEvent M)) (g : String) (now : ℤ) : Prop :=
  ∃ y d, .issued y ∈ log ∧ splitInviteKey (inviteKey y.groupId y.inviteeDid) = some (g, d) ∧
    y.issuedAt + inviteTimeoutMs < now

/-- The message is an invitation that was issued, or the answer of the invitee of one that was. -/
structure Genuine (W : Wire) (log : List (InviteEvent M)) (dm : Dm) : Prop where
  invitation : dm.kind = some "mls_group_invitation" → ∃ x i, .issued x ∈ log ∧ x.invitation = some i ∧
    dm.to_ = x.inviteeDid ∧ dm.content = invitationContent W i
  answers : ∀ i, dm.answers = some i → ∃ x, .issued x ∈ log ∧ x.invitation = some i ∧
    dm.from_ = x.inviteeDid

/-- The steps that may take a commit of `g` out of its slot, and which of them merge it. -/
def Caused (W : Wire) (log : List (InviteEvent M)) (g : String) (merged : Bool) : Cause → Prop
  | .invite => False
  | .direct dm => Genuine W log dm ∧ dm.groupId = some g ∧
      (dm.kind = some "mls_invite_accepted" ∧ merged = true ∨ dm.kind = some "mls_invite_declined")
  | .sweep now => ExpiredFor log g now
  | .group message => message.groupId = g

structure Sound (S : CommitSlot M) (W : Wire) (w : InviteWorld M) : Prop where
  slots : ∀ g, w.inviter.mls.slot g = held slotAct g w.log
  faithful : Faithful slotAct w.log
  caused : ∀ g c m k, .settled g c m k ∈ w.log → Caused W w.log g m k
  records : ∀ (k : String) (e : OutboundInvite), w.inviter.storage.outboundInvites[k]? = some e →
    ∃ x, .issued x ∈ w.log ∧ k = inviteKey x.groupId x.inviteeDid ∧ e.createdAtMs = x.issuedAt
  issued : ∀ x i, .issued x ∈ w.log → x.invitation = some i →
    i.inviteeDid = x.inviteeDid ∧ WelcomeOf S i x.commit
  net : ∀ dm ∈ w.net, Genuine W w.log dm
  pending : ∀ d (k : String) (i : GroupInvitation),
    (w.invitees d).storage.pendingInvitations[k]? = some i →
      ∃ x, .issued x ∈ w.log ∧ x.invitation = some i ∧ x.inviteeDid = d
  joined : ∀ d i g, .joined d i g ∈ w.log →
    ∃ x, .issued x ∈ w.log ∧ x.invitation = some i ∧ x.inviteeDid = d

theorem Genuine.mono {log log' : List (InviteEvent M)} (hsub : log ⊆ log') {dm : Dm}
    (h : Genuine W log dm) : Genuine W log' dm := by
  refine ⟨fun hk => ?_, fun i hi => ?_⟩
  · obtain ⟨x, i, hx, h⟩ := h.invitation hk
    exact ⟨x, i, hsub hx, h⟩
  · obtain ⟨x, hx, h⟩ := h.answers i hi
    exact ⟨x, hsub hx, h⟩

theorem Caused.mono {log log' : List (InviteEvent M)} (hsub : log ⊆ log') {g : String} {m : Bool}
    {k : Cause} (h : Caused W log g m k) : Caused W log' g m k := by
  cases k with
  | sweep now =>
    obtain ⟨y, d, hy, h⟩ := h
    exact ⟨y, d, hsub hy, h⟩
  | direct dm => exact ⟨h.1.mono hsub, h.2⟩
  | _ => exact h

/-! The invitees act -/

/-- An invitee's step: what it holds was held before or was just delivered to it, it joins and answers
only what it held. -/
theorem Sound.invitee (h : Sound S W w) (env : Env) (d : Did) (n' : Node M) (es : List (InviteEvent M))
    (a : Option GroupInvitation) (dms : List (Did × MessageContent))
    (hp : ∀ (k : String) (i : GroupInvitation), n'.storage.pendingInvitations[k]? = some i →
      ∃ x, .issued x ∈ w.log ∧ x.invitation = some i ∧ x.inviteeDid = d)
    (he : es = [] ∨ ∃ i g, es = [.joined d i g] ∧ a = some i)
    (ha : ∀ i, a = some i → ∃ x, .issued x ∈ w.log ∧ x.invitation = some i ∧ x.inviteeDid = d)
    (hd : ∀ p ∈ dms, IsAnswer p.2) :
    Sound S W (((w.setInvitee d n').record es).send env d a dms) := by
  have hsub : w.log ⊆ es ++ w.log := List.subset_append_right _ _
  have hother (e : InviteEvent M) (hne : ∀ d i g, e ≠ .joined d i g) : e ∈ es ++ w.log ↔ e ∈ w.log := by
    rw [List.mem_append, or_iff_right]
    rcases he with rfl | ⟨i, g, rfl, -⟩
    · simp
    · simpa using hne d i g
  have hheld (g : String) : held slotAct g (es ++ w.log) = held slotAct g w.log := by
    rcases he with rfl | ⟨i, g, rfl, -⟩ <;> rfl
  refine ⟨fun g => (h.slots g).trans (hheld g).symm, ?_, fun g c m k hm => ?_, fun k e hk => ?_,
    fun x i hx => ?_, fun dm hdm => ?_, fun d' k i hi => ?_, fun d' i g hj => ?_⟩
  · show Faithful slotAct (es ++ w.log)
    rcases he with rfl | ⟨i, g, rfl, -⟩
    · exact h.faithful
    · exact ⟨h.faithful, trivial⟩
  · exact (h.caused g c m k ((hother _ (by simp)).1 hm)).mono hsub
  · obtain ⟨x, hx, hk⟩ := h.records k e hk
    exact ⟨x, hsub hx, hk⟩
  · exact h.issued x i ((hother _ (by simp)).1 hx)
  · rcases List.mem_append.1 hdm with hdm | hdm
    · exact (h.net dm hdm).mono hsub
    · obtain ⟨p, hp, rfl⟩ := List.mem_map.1 hdm
      refine ⟨fun hk => (hd p hp hk).elim, fun i hi => ?_⟩
      obtain ⟨x, hx, hxi, hxd⟩ := ha i hi
      exact ⟨x, hsub hx, hxi, hxd.symm⟩
  · have hor : ∃ x, .issued x ∈ w.log ∧ x.invitation = some i ∧ x.inviteeDid = d' := by
      by_cases hd' : d' = d
      · subst hd'
        exact hp k i (by simpa [send, InviteWorld.record, setInvitee] using hi)
      · exact h.pending d' k i (by simpa [send, InviteWorld.record, setInvitee, hd'] using hi)
    obtain ⟨x, hx, hk⟩ := hor
    exact ⟨x, hsub hx, hk⟩
  · have hor : ∃ x, .issued x ∈ w.log ∧ x.invitation = some i ∧ x.inviteeDid = d' := by
      rcases List.mem_append.1 hj with hj | hj
      · rcases he with rfl | ⟨i', g', rfl, hai⟩
        · simp at hj
        · cases List.mem_singleton.1 hj
          exact ha i hai
      · exact h.joined d' i g hj
    obtain ⟨x, hx, hk⟩ := hor
    exact ⟨x, hsub hx, hk⟩

/-! The inviter acts -/

variable [DecidableEq M.Commit]

theorem mem_settlements {n n' : Node M} {k : Cause} {e : InviteEvent M} :
    e ∈ settlements S n n' k ↔ ∃ g c, n.mls.slot g = some c ∧ n'.mls.slot g = none ∧
      ∃ x, n.mls.groups[g]? = some x ∧ e = .settled g c
        (decide ((n'.mls.groups[g]?).map S.applied = some (S.applied x ++ [c]))) k := by
  unfold settlements
  rw [List.mem_filterMap]
  constructor
  · rintro ⟨⟨g, x⟩, hmem, he⟩
    have hx : n.mls.groups[g]? = some x := (mem_iter _).1 hmem
    split at he
    · rename_i c hc hs
      exact ⟨g, c, by simpa [slot, hx] using hc, hs, x, hx, (Option.some.inj he).symm⟩
    · cases he
  · rintro ⟨g, c, hc, hs, x, hx, rfl⟩
    refine ⟨(g, x), (mem_iter _).2 hx, ?_⟩
    have hc' : M.pendingCommit x = some c := by simpa [slot, hx] using hc
    simp [hc', hs]

theorem settlements_distinct {n n' : Node M} {k : Cause} : (settlements S n n' k).Pairwise
    fun e e' => ∀ g, touches slotAct g e → touches slotAct g e' = false := by
  unfold settlements
  refine List.Pairwise.filterMap _ ?_ n.mls.groups.distinct_keys_toList
  rintro ⟨g, x⟩ ⟨g', x'⟩ hne e he e' he' a ha
  have hgg : g ≠ g' := by simpa using hne
  dsimp only at he he'
  split at he
  swap
  · cases he
  split at he'
  swap
  · cases he'
  obtain rfl := Option.some.inj he
  obtain rfl := Option.some.inj he'
  obtain rfl : g = a := by simpa [touches, slotAct] using ha
  simpa [touches, slotAct] using hgg.symm

/-- A step that only frees, and for a cause the log knows. -/
theorem Sound.act (h : Sound S W w) {P : String → Prop} {n' : Node M} {k : Cause}
    (hf : Frees P w.inviter n')
    (hc : ∀ g c x, P g → w.inviter.mls.groups[g]? = some x → M.pendingCommit x = some c →
      n'.mls.slot g = none →
      Caused W w.log g (decide ((n'.mls.groups[g]?).map S.applied = some (S.applied x ++ [c]))) k) :
    Sound S W (w.act S k n') := by
  have hsub : w.log ⊆ settlements S w.inviter n' k ++ w.log := List.subset_append_right _ _
  have hissued (x : Issue M) : InviteEvent.issued x ∈ settlements S w.inviter n' k ++ w.log ↔
      .issued x ∈ w.log := by
    rw [List.mem_append, or_iff_right]
    rw [mem_settlements]
    rintro ⟨g, c, -, -, x, -, hx⟩
    cases hx
  have htake : ∀ e ∈ settlements S w.inviter n' k, ∃ g c, slotAct e = .take g c ∧
      held slotAct g w.log = some c := by
    intro e he
    obtain ⟨g, c, hs, -, x, -, rfl⟩ := mem_settlements.1 he
    exact ⟨g, c, rfl, (h.slots g).symm.trans hs⟩
  refine ⟨fun g => ?_, ?_, fun g c m k' hm => ?_, fun k' e he => ?_, fun x i hx => ?_, fun dm hdm => ?_,
    fun d k' i hi => ?_, fun d i g hj => ?_⟩
  · show n'.mls.slot g = held slotAct g (settlements S w.inviter n' k ++ w.log)
    rcases held_takes g w.log fun e he => (htake e he).imp fun _ h => h.imp fun _ h => h.1 with
      ⟨hnone, e, he, ht⟩ | ⟨hsame, hun⟩
    · obtain ⟨g', c, -, hs', x, -, rfl⟩ := mem_settlements.1 he
      obtain rfl : g' = g := by simpa [touches, slotAct] using ht
      exact hs'.trans hnone.symm
    · rw [hsame, ← h.slots g]
      rcases hf.slot g with hs | ⟨-, hs⟩
      · exact hs
      rw [hs]
      cases hold : w.inviter.mls.slot g with
      | none => rfl
      | some c =>
        obtain ⟨x, hx, -⟩ := slot_eq_some.1 hold
        have := hun _ (mem_settlements.2 ⟨g, c, hold, hs, x, hx, rfl⟩)
        simp [touches, slotAct] at this
  · exact h.faithful.takes htake settlements_distinct
  · refine Caused.mono hsub ?_
    rcases List.mem_append.1 hm with hm | hm
    · obtain ⟨g', c', hs, hs', x, hx, heq⟩ := mem_settlements.1 hm
      cases heq
      rcases hf.slot g with hsame | ⟨hp, -⟩
      · rw [hsame, hs] at hs'
        cases hs'
      · exact hc g c x hp hx (by simpa [slot, hx] using hs) hs'
    · exact h.caused g c m k' hm
  · obtain ⟨x, hx, hk⟩ := h.records k' e (hf.invites k' e he)
    exact ⟨x, hsub hx, hk⟩
  · exact h.issued x i ((hissued x).1 hx)
  · exact (h.net dm hdm).mono hsub
  · obtain ⟨x, hx, hk⟩ := h.pending d k' i hi
    exact ⟨x, hsub hx, hk⟩
  · have hj' : InviteEvent.joined d i g ∈ w.log := by
      refine (List.mem_append.1 hj).resolve_left fun hj => ?_
      obtain ⟨g, c, -, -, x, -, hx⟩ := mem_settlements.1 hj
      cases hx
    obtain ⟨x, hx, hk⟩ := h.joined d i g hj'
    exact ⟨x, hsub hx, hk⟩

/-- An add that was issued, with its messages on the way. -/
theorem Sound.invite (h : Sound S W w) {n' : Node M} {x : Issue M} (env : Env) (from_ : Did)
    (hx : Issued S W w.inviter n' x) :
    Sound S W (((w.act S .invite n').record [.issued x]).send env from_ none (sentDms w.inviter n')) := by
  have hnone : settlements S w.inviter n' .invite = [] := by
    refine List.eq_nil_iff_forall_not_mem.2 fun e he => ?_
    obtain ⟨g, c, hs, hs', -⟩ := mem_settlements.1 he
    by_cases hg : g = x.groupId
    · rw [hg, hx.free] at hs
      cases hs
    · rw [hx.other g hg, hs] at hs'
      cases hs'
  have hlog : (((w.act S .invite n').record [.issued x]).send env from_ none
      (sentDms w.inviter n')).log = .issued x :: w.log := by
    show [InviteEvent.issued x] ++ (settlements S w.inviter n' .invite ++ w.log) = _
    rw [hnone]
    rfl
  have hsub : w.log ⊆ .issued x :: w.log := List.subset_cons_self _ _
  refine ⟨?_, ?_, ?_, ?_, ?_, ?_, ?_, ?_⟩ <;> rw [hlog]
  · intro g
    show n'.mls.slot g = _
    by_cases hg : x.groupId = g
    · simp [held, slotAct, hg, ← hx.filled]
    · simp [held, slotAct, hg, hx.other g (Ne.symm hg), h.slots g]
  · refine ⟨h.faithful, ?_⟩
    show held slotAct x.groupId w.log = none
    rw [← h.slots, hx.free]
  · intro g c m k hm
    exact (h.caused g c m k (by simpa using hm)).mono hsub
  · intro k e he
    rcases hx.records k e he with hold | ⟨hk, ht⟩
    · obtain ⟨y, hy, hk⟩ := h.records k e hold
      exact ⟨y, hsub hy, hk⟩
    · exact ⟨x, by simp, hk, ht⟩
  · intro y i hy hi
    rcases List.mem_cons.1 hy with hy | hy
    · cases hy
      exact hx.invitation i hi
    · exact h.issued y i hy hi
  · intro dm hdm
    rcases List.mem_append.1 hdm with hdm | hdm
    · exact (h.net dm hdm).mono hsub
    · obtain ⟨p, hp, rfl⟩ := List.mem_map.1 hdm
      obtain ⟨i, hi, rfl⟩ := hx.sent p hp
      exact ⟨fun _ => ⟨x, i, by simp, hi, rfl, rfl⟩, by simp⟩
  · intro d k i hi
    obtain ⟨y, hy, hk⟩ := h.pending d k i hi
    exact ⟨y, hsub hy, hk⟩
  · intro d i g hj
    obtain ⟨y, hy, hk⟩ := h.joined d i g (by simpa using hj)
    exact ⟨y, hsub hy, hk⟩

/-- What the inviter makes of a direct message. -/
theorem Sound.receive (h : Sound S W w) (env : Env) {dm : Dm} (hdm : dm ∈ w.net) :
    Sound S W (w.act S (.direct dm)
      (w.inviter.handleDirectContent W env dm.from_ dm.messageId dm.timestamp dm.content)) := by
  refine h.act (frees_handleDirectContent S) ?_
  rintro g c x ⟨hg, hk⟩ hx hc -
  refine ⟨h.net dm hdm, hg, ?_⟩
  rcases hk with hk | hk
  · refine Or.inl ⟨hk, ?_⟩
    have happ := applied_accepted S env dm.from_ hx hc
    rw [decide_eq_true_eq, ← happ]
    unfold handleDirectContent
    rw [hk, hg]
    rfl
  · exact Or.inr hk

theorem Sound.step (h : Sound S W w)
    (hW : ∀ i, (W.hexDecode (W.hexEncode (W.encodeInvitation i))).bind W.decodeInvitation = some i)
    (hM : ∀ m b, M.serializeMessage m = .ok b → M.deserializeMessage b = .ok m) (e : InviteMove) :
    Sound S W (w.step S W e) := by
  cases e with
  | invite env net id invitee =>
    rcases invite_cases w.inviter W env net id invitee S hM with ⟨hx, hs, hst, hsent⟩ | ⟨x, hx, hissued⟩
    · have hf : Frees (fun _ => False) w.inviter (w.inviter.mlsInviteToGroup W env net id invitee).2 :=
        .of_eq hs (by rw [hst])
      simpa [InviteWorld.step, hx, hsent, InviteWorld.record, send] using
        h.act (k := .invite) hf fun g c x hp => hp.elim
    · simpa [InviteWorld.step, hx] using h.invite env w.inviter.localDid hissued
  | deliver env k =>
    unfold InviteWorld.step
    dsimp only
    split
    · exact h
    rename_i dm hdm
    have hmem : dm ∈ w.net := List.mem_of_getElem? hdm
    split_ifs
    · exact h.receive env hmem
    · have hkept := h.invitee env dm.to_
        ((w.invitees dm.to_).handleDirectContent W env dm.from_ dm.messageId dm.timestamp dm.content)
        [] none [] (fun k i hi => ?_) (Or.inl rfl) (by simp) (by simp)
      · simpa [send, InviteWorld.record] using hkept
      · rcases pending_handleDirectContent hi with hold | ⟨hk, hex, hhex, hi⟩
        · exact h.pending dm.to_ k i hold
        · obtain ⟨x, j, hx, hxj, hto, hcont⟩ := (h.net dm hmem).invitation hk
          rw [hcont, hex_invitationContent] at hhex
          obtain rfl := Option.some.inj hhex
          obtain rfl : j = i := by simpa [hW] using hi
          exact ⟨x, hx, hxj, hto.symm⟩
  | accept env d g =>
    unfold InviteWorld.step
    dsimp only
    refine h.invitee env d _ _ _ _ (fun k i hi => h.pending d k i (pending_acceptInvitation hi)) ?_
      (fun i hi => h.pending d g i hi) fun p hp => (mem_sentDms sends_acceptInvitation hp).1
    split
    · rename_i i j hi _
      exact Or.inr ⟨i, j, rfl, hi⟩
    · exact Or.inl rfl
  | decline env d g =>
    exact h.invitee env d ((w.invitees d).declineInvitation env g).2 [] _ _
      (fun k i hi => h.pending d k i (pending_declineInvitation hi)) (Or.inl rfl)
      (fun i hi => h.pending d g i hi) fun p hp => mem_sentDms sends_declineInvitation hp
  | sweep env =>
    refine h.act (frees_sweep S) ?_
    rintro g c x ⟨⟨g', d, i⟩, hmem, rfl⟩ - - -
    obtain ⟨⟨k, e⟩, he, ht⟩ := List.mem_filterMap.1 hmem
    split_ifs at ht with hexp
    obtain ⟨⟨a, b⟩, hsplit, heq⟩ := Option.map_eq_some_iff.1 ht
    cases heq
    obtain ⟨y, hy, hk, hat⟩ := h.records k e ((mem_iter _).1 he)
    exact ⟨y, _, hy, hk ▸ hsplit, by rw [← hat]; exact hexp⟩
  | group env message =>
    refine h.act (frees_handleGroupMessage S) ?_
    rintro g c x rfl - - -
    rfl

/-- The add for `g` that was issued last. -/
def lastIssued (g : String) (log : List (InviteEvent M)) : Option (InviteEvent M) :=
  log.find? (fills slotAct g)

/-- The commit is still pending, or what took it out of its slot merged it, or was a decline for the
group, the expiry of one of its invitations, or a message of the group. -/
def Fate (w : InviteWorld M) (x : Issue M) (later : List (InviteEvent M)) : Prop :=
  w.inviter.mls.slot x.groupId = some x.commit ∨
  ∃ p m k q, later = p ++ .settled x.groupId x.commit m k :: q ∧
    (∀ y ∈ q, touches slotAct x.groupId y = false) ∧
    (m = true ∨ match k with
      | .invite => False
      | .direct dm => dm.kind = some "mls_invite_declined" ∧ dm.groupId = some x.groupId
      | .sweep now => ExpiredFor w.log x.groupId now
      | .group message => message.groupId = x.groupId)

/-- In every reachable state: an acceptance of the invitation issued last for a group merges the very
commit whose Welcome that invitation carried; and the commit whose Welcome somebody joined from met
its fate. -/
theorem agreement (S : CommitSlot M) (W : Wire)
    (hW : ∀ i, (W.hexDecode (W.hexEncode (W.encodeInvitation i))).bind W.decodeInvitation = some i)
    (hM : ∀ m b, M.serializeMessage m = .ok b → M.deserializeMessage b = .ok m)
    (w : InviteWorld M) (h : StepSystem.Reachable (inviteWorld S W) w) :
    (∀ later g c m dm earlier x i, w.log = later ++ .settled g c m (.direct dm) :: earlier →
      dm.kind = some "mls_invite_accepted" → dm.answers = some i →
      lastIssued g earlier = some (.issued x) → x.invitation = some i →
      m = true ∧ c = x.commit ∧ dm.from_ = i.inviteeDid ∧ WelcomeOf S i c) ∧
    ∀ d i g, .joined d i g ∈ w.log →
      (∃ x, .issued x ∈ w.log ∧ x.invitation = some i ∧ x.inviteeDid = d) ∧
      ∀ later x earlier, w.log = later ++ .issued x :: earlier → x.invitation = some i →
        WelcomeOf S i x.commit ∧ w.Fate x later := by
  have hs : Sound S W w := by
    refine h.invariant (I := Sound S W) (fun w h0 => ?_) fun w e hw _ => hw.step hW hM e
    exact ⟨fun g => by rw [h0.slots, h0.log]; rfl, by rw [h0.log]; trivial, by simp [h0.log],
      by simp [h0.invites], by simp [h0.log], by simp [h0.net], by simp [h0.pending], by simp [h0.log]⟩
  refine ⟨fun later g c m dm earlier x i hlog hk ha hx hi => ?_, fun d i g hj => ⟨hs.joined d i g hj, ?_⟩⟩
  · have hheld : held slotAct g earlier = some c := (hlog ▸ hs.faithful).drop.2
    obtain ⟨e, he, hput⟩ := held_last hheld
    obtain rfl := Option.some.inj (he.symm.trans hx)
    obtain ⟨-, rfl⟩ : x.groupId = g ∧ x.commit = c := by simpa [slotAct] using hput
    have hin : .issued x ∈ w.log := by
      rw [hlog]
      exact List.mem_append_right _ (List.mem_cons_of_mem _ (List.mem_of_find?_eq_some hx))
    obtain ⟨hdid, hwel⟩ := hs.issued x i hin hi
    obtain ⟨hgen, -, hm⟩ := hs.caused g x.commit m (.direct dm) (by simp [hlog])
    obtain ⟨y, hy, hyi, hfrom⟩ := hgen.answers i ha
    refine ⟨?_, rfl, hfrom.trans (hs.issued y i hy hyi).1.symm, hwel⟩
    rcases hm with ⟨-, hm⟩ | hm
    · exact hm
    · simp [hk] at hm
  · intro later x earlier hlog hi
    refine ⟨(hs.issued x i (by simp [hlog]) hi).2, ?_⟩
    rcases (hlog ▸ hs.faithful).fate (k := x.groupId) (v := x.commit) rfl with
      ⟨hheld, -⟩ | ⟨p, e, q, hlater, he, hq⟩
    · exact Or.inl (by rw [hs.slots, hlog, hheld])
    · obtain ⟨m, k, rfl⟩ : ∃ m k, e = .settled x.groupId x.commit m k := by
        cases e with
        | settled g' c' m k =>
          obtain ⟨rfl, rfl⟩ : g' = x.groupId ∧ c' = x.commit := by simpa [slotAct] using he
          exact ⟨m, k, rfl⟩
        | _ => cases he
      refine Or.inr ⟨p, m, k, q, hlater, hq, ?_⟩
      have hk := hs.caused x.groupId x.commit m k (by simp [hlog, hlater])
      cases k with
      | direct dm =>
        obtain ⟨-, hg, ⟨-, hm⟩ | hk⟩ := hk
        · exact Or.inl hm
        · exact Or.inr ⟨hk, hg⟩
      | _ => exact Or.inr hk

/-- What agreement would be without the amendments: whoever accepts gets the commit he was invited
with merged, and a commit somebody joined from is never dropped. -/
structure Agreement (S : CommitSlot M) (w : InviteWorld M) : Prop where
  accepted : ∀ g c m dm i, .settled g c m (.direct dm) ∈ w.log → dm.kind = some "mls_invite_accepted" →
    dm.answers = some i → WelcomeOf S i c
  joined : ∀ d i g later x earlier, .joined d i g ∈ w.log → w.log = later ++ .issued x :: earlier →
    x.invitation = some i → ∀ p c m k q, later = p ++ .settled x.groupId c m k :: q →
      (∀ y ∈ q, touches slotAct x.groupId y = false) → c = x.commit ∧ m = true

end InviteWorld

/-! An invitation to `did:b` that expires after `did:b` has joined, and one that is confirmed -/

namespace InviteAgreement
open IdealMls InviteAuthority InviteOwnership

/-- An invitee with the private part of the key package everybody resolves to. -/
def invitee (d : Did) : Node idealMls :=
  { localDid := d, mls := ⟨d, ⟨[⟨"did:b", 7⟩], []⟩, ∅, ∅⟩, storage := .empty, effects := [] }

def start : InviteWorld idealMls := ⟨created, invitee, [], []⟩

theorem start_ok : start.Start := ⟨quiet_created.slots, quiet_created.invites, fun _ => rfl, rfl, rfl⟩

def offered : InviteWorld idealMls := start.step slots idealWire (.invite env net "g" "did:b")

def offer : Option GroupInvitation :=
  (offered.inviter.storage.outboundInvites["g:did:b"]?).map (·.invitation)

theorem offer_isSome : offer.isSome = true := by decide +kernel

/-- The invitation has arrived at `did:b`. -/
def delivered : InviteWorld idealMls := offered.setInvitee "did:b"
  (((invitee "did:b").keepInvitation env (offer.get offer_isSome) "did:a").store fun s =>
    s.deleteDirectById env.faults "did:a" "did:b" 0 "g")

theorem step_deliver : offered.step slots idealWire (.deliver env 0) = delivered := by
  have hdm : offered.net[0]? = some ⟨"did:a", "did:b", "g", 0,
      Node.invitationContent idealWire (offer.get offer_isSome), none⟩ := rfl
  have hlocal : offered.inviter.localDid = "did:a" := rfl
  simp only [InviteWorld.step, hdm, hlocal]
  rw [if_neg (by decide), Node.handleDirectContent_invitation (idealWire_invitation _)]
  rfl

def run (es : List InviteMove) : InviteWorld idealMls :=
  es.foldl (InviteWorld.step slots idealWire) delivered

theorem reachable_run (es : List InviteMove) :
    StepSystem.Reachable (inviteWorld slots idealWire) (run es) := by
  refine StepSystem.reachable_foldl (M := inviteWorld slots idealWire) ?_ es
  have hoffered : StepSystem.Reachable (inviteWorld slots idealWire) offered :=
    .snoc (M := inviteWorld slots idealWire) (e := .invite env net "g" "did:b") (.init start_ok) trivial
  rw [← step_deliver]
  exact .snoc (M := inviteWorld slots idealWire) (e := .deliver env 0) hoffered trivial

def expired : InviteWorld idealMls := run [.accept env "did:b" "g", .sweep later]

def confirmed : InviteWorld idealMls := run [.accept env "did:b" "g", .deliver env 1]

/-- The log tells of one add, the join from its Welcome, and the step that settled it. -/
def settledAs (merged : Bool) (by_ : Cause → GroupInvitation → Bool) : List (InviteEvent idealMls) → Bool
  | [.settled g _ m k, .joined _ i _, .issued x] =>
    g = x.groupId ∧ m = merged ∧ x.invitation = some i ∧ by_ k i
  | _ => false

def anyCause (_ : Cause) (_ : GroupInvitation) : Bool := true

def byAnswer : Cause → GroupInvitation → Bool
  | .direct dm, i => dm.kind = some "mls_invite_accepted" ∧ dm.answers = some i
  | _, _ => false

theorem of_settledAs {m : Bool} {by_ : Cause → GroupInvitation → Bool} {log : List (InviteEvent idealMls)}
    (h : settledAs m by_ log = true) : ∃ c k d i g x,
      log = [.settled x.groupId c m k, .joined d i g, .issued x] ∧ x.invitation = some i ∧
        by_ k i = true := by
  unfold settledAs at h
  split at h
  · rename_i g c m' k d i g' x
    obtain ⟨rfl, rfl, hi, hk⟩ : g = x.groupId ∧ m' = m ∧ x.invitation = some i ∧ by_ k i = true := by
      simpa using h
    exact ⟨c, k, d, i, g', x, rfl, hi, hk⟩
  · cases h

/-- `did:b` has joined, and the sweep drops the commit it joined from. -/
theorem expiry_drops : ¬ ∀ w : InviteWorld idealMls,
    StepSystem.Reachable (inviteWorld slots idealWire) w → w.Agreement slots := by
  intro h
  have hlog : settledAs false anyCause expired.log = true := by decide +kernel
  obtain ⟨c, k, d, i, g, x, hlog, hi, -⟩ := of_settledAs hlog
  have hagree := (h expired (reachable_run _)).joined d i g [.settled x.groupId c false k, .joined d i g] x []
    (by simp [hlog]) hlog hi [] c false k [.joined d i g] rfl (by simp [SlotLog.touches, slotAct])
  cases hagree.2

/-- Answered in time, the commit that is merged is the one `did:b` joined from. -/
theorem answer_confirms : ∃ c dm d i g x,
    confirmed.log = [.settled x.groupId c true (.direct dm), .joined d i g, .issued x] ∧
      c = x.commit ∧ dm.from_ = i.inviteeDid ∧ Node.WelcomeOf slots i c := by
  have hlog : settledAs true byAnswer confirmed.log = true := by decide +kernel
  obtain ⟨c, k, d, i, g, x, hlog, hi, hk⟩ := of_settledAs hlog
  unfold byAnswer at hk
  split at hk
  swap
  · cases hk
  rename_i k dm
  obtain ⟨hkind, ha⟩ : dm.kind = some "mls_invite_accepted" ∧ dm.answers = some i := by simpa using hk
  have hlast : InviteWorld.lastIssued x.groupId [.joined d i g, .issued x] = some (.issued x) := by
    simp [InviteWorld.lastIssued, SlotLog.fills, slotAct]
  have hmain := (InviteWorld.agreement slots idealWire idealWire_invitation
    (fun _ _ h => deserialize_serialize h) confirmed (reachable_run _)).1 [] x.groupId c true dm
    [.joined d i g, .issued x] x i hlog hkind ha hlast hi
  exact ⟨c, dm, d, i, g, x, hlog, hmain.2⟩

end InviteAgreement
end Variance
