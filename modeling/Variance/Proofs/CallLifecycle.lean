import Variance.Spec.CallTable

/-! The life of every call is in order, in every interleaving, exactly as long as no step is careless of the call that
it finds. -/

namespace Variance
namespace CallTable

variable {t t' : CallTable} {callId : String} {c c' : Call}

/-- What holds between any two orderly steps. -/
structure Kept (t : CallTable) : Prop where
  keyed : ∀ (callId : String) (c : Call), t.calls[callId]? = some c → c.id = callId
  timed : ∀ (callId : String) (c : Call), t.calls[callId]? = some c → (c.endedAt.isSome ↔ c.status.Over)
  known : ∀ (callId : String) (c : Call), t.calls[callId]? = some c → c.status ≠ .unspecified
  listed : ∀ (callId : String) (c : Call), t.calls[callId]? = some c → c.status.Over → ∃ k ∈ t.closing, k.call = c
  /-- A call that is being taken out is over. -/
  leaving : ∀ k ∈ t.closing, ∀ c : Call, t.calls[k.call.id]? = some c →
    c.peerConnection = k.call.peerConnection → c.status.Over
  entries : ∀ (callId : String) (c : Call), t.calls[callId]? = some c → c.peerConnection < t.nextConnection
  tasks : ∀ k ∈ t.closing, k.call.peerConnection < t.nextConnection

theorem Status.Next.known {s s' : Status} (h : s.Next s') : s' ≠ .unspecified := by
  rintro rfl
  cases h with
  | finish _ hover => exact hover

theorem Status.Next.not_over {s s' : Status} (h : s.Next s') : ¬ s.Over := by
  cases h with
  | accept => exact id
  | activate => exact id
  | finish hs _ => rcases hs with rfl | rfl | rfl <;> exact id

/-- A call that goes on may end. -/
theorem Status.next_of_over {s s' : Status} (hs : s ≠ .unspecified) (hgo : ¬ s.Over) (hover : s'.Over) : s.Next s' := by
  refine .finish ?_ hover
  cases s with
  | unspecified => exact absurd rfl hs
  | ringing => exact Or.inl rfl
  | connecting => exact Or.inr (Or.inl rfl)
  | active => exact Or.inr (Or.inr rfl)
  | ended => exact absurd trivial hgo
  | failed => exact absurd trivial hgo

theorem mem_listActiveCalls : c ∈ t.listActiveCalls ↔ ∃ callId : String, t.calls[callId]? = some c := by
  unfold listActiveCalls
  rw [List.mem_map]
  constructor
  · rintro ⟨e, he, rfl⟩
    exact ⟨e.1, (mem_iter _).1 he⟩
  · rintro ⟨callId, hid⟩
    exact ⟨(callId, c), (mem_iter _).2 hid, rfl⟩

/-! A step that leaves the map -/

theorem Kept.orderly_same (h : t.Kept) (hcalls : t'.calls = t.calls)
    (hclosing : ∀ (callId : String) (c : Call), t.calls[callId]? = some c → c.status.Over → ∃ k ∈ t'.closing, k.call = c) :
    t.Orderly t' := by
  have heq : ∀ (callId : String) (c c' : Call), t.calls[callId]? = some c → t'.calls[callId]? = some c' → c' = c := by
    intro callId c c' hc hc'
    rw [hcalls, hc] at hc'
    exact (Option.some.inj hc').symm
  refine ⟨fun callId c c' hc hc' => Or.inl (by rw [heq callId c c' hc hc']), fun c hc => ?_,
    fun callId c c' at' hc hc' ht => ?_, fun callId c c' hc hc' => by rw [heq callId c c' hc hc'], fun c hc hover => ?_⟩
  · obtain ⟨callId, hid⟩ := mem_listActiveCalls.1 hc
    rw [hcalls] at hid
    exact h.timed callId c hid
  · rw [heq callId c c' hc hc', ht]
  · obtain ⟨callId, hid⟩ := mem_listActiveCalls.1 hc
    rw [hcalls] at hid
    exact hclosing callId c hid hover

/-! A write of a call that is there -/

/-- What a write must keep of the call. -/
structure Moves (c c' : Call) (closing : List Closing) : Prop where
  status : c'.status = c.status ∨ c.status.Next c'.status
  timed : c'.endedAt.isSome ↔ c'.status.Over
  once : ∀ ended, c.endedAt = some ended → c'.endedAt = some ended
  listed : c'.status.Over → ∃ k ∈ closing, k.call = c'

section
variable {closing : List Closing} (hc : t.calls[callId]? = some c) (hid : c'.id = c.id)
  (hpc : c'.peerConnection = c.peerConnection) (hold : ∀ k ∈ t.closing, k ∈ closing)
include hc hpc hold

theorem Kept.orderly_write (h : t.Kept) :
    t.Orderly { t.write callId c' with closing } ↔ Moves c c' closing := by
  have hget : ({ t.write callId c' with closing } : CallTable).calls[callId]? = some c' := by simp [write]
  have hother : ∀ id' : String, callId ≠ id' →
      ({ t.write callId c' with closing } : CallTable).calls[id']? = t.calls[id']? := by
    intro id' hne
    simp [write, hne]
  constructor
  · intro ho
    exact ⟨ho.status callId c c' hc hget, ho.timed c' (mem_listActiveCalls.2 ⟨callId, hget⟩),
      fun ended he => ho.once callId c c' ended hc hget he, ho.listed c' (mem_listActiveCalls.2 ⟨callId, hget⟩)⟩
  · intro hm
    have hcase : ∀ (id' : String) (d d' : Call), t.calls[id']? = some d →
        ({ t.write callId c' with closing } : CallTable).calls[id']? = some d' → d' = d ∨ d = c ∧ d' = c' := by
      intro id' d d' hd hd'
      by_cases hne : callId = id'
      · subst hne
        exact Or.inr ⟨Option.some.inj (hd.symm.trans hc), Option.some.inj (hd'.symm.trans hget)⟩
      · rw [hother id' hne, hd] at hd'
        exact Or.inl (Option.some.inj hd').symm
    have hmem : ∀ d ∈ ({ t.write callId c' with closing } : CallTable).listActiveCalls,
        d = c' ∨ ∃ id' : String, t.calls[id']? = some d := by
      intro d hd
      obtain ⟨id', hd'⟩ := mem_listActiveCalls.1 hd
      by_cases hne : callId = id'
      · subst hne
        exact Or.inl (Option.some.inj (hd'.symm.trans hget))
      · rw [hother id' hne] at hd'
        exact Or.inr ⟨id', hd'⟩
    refine ⟨fun id' d d' hd hd' => ?_, fun d hd => ?_, fun id' d d' ended hd hd' he => ?_, fun id' d d' hd hd' => ?_,
      fun d hd hover => ?_⟩
    · rcases hcase id' d d' hd hd' with rfl | ⟨rfl, rfl⟩
      · exact Or.inl rfl
      · exact hm.status
    · rcases hmem d hd with rfl | ⟨id', hd'⟩
      · exact hm.timed
      · exact h.timed id' d hd'
    · rcases hcase id' d d' hd hd' with rfl | ⟨rfl, rfl⟩
      · exact he
      · exact hm.once ended he
    · rcases hcase id' d d' hd hd' with rfl | ⟨rfl, rfl⟩
      · rfl
      · exact hpc
    · rcases hmem d hd with rfl | ⟨id', hd'⟩
      · exact hm.listed hover
      · obtain ⟨k, hk, hkd⟩ := h.listed id' d hd' hover
        exact ⟨k, hold k hk, hkd⟩

include hid in
theorem Kept.write (h : t.Kept) (hm : Moves c c' closing)
    (hnew : ∀ k ∈ closing, k ∈ t.closing ∨ k.call = c' ∧ c'.status.Over) : Kept { t.write callId c' with closing } := by
  have hget : ∀ (id' : String) (d : Call), ({ t.write callId c' with closing } : CallTable).calls[id']? = some d →
      id' = callId ∧ d = c' ∨ id' ≠ callId ∧ t.calls[id']? = some d := by
    intro id' d hd
    have hd' : (t.calls.insert callId c')[id']? = some d := hd
    rw [get_insert] at hd'
    split_ifs at hd' with heq
    · exact Or.inl ⟨heq.symm, (Option.some.inj hd').symm⟩
    · exact Or.inr ⟨fun he => heq he.symm, hd'⟩
  have hknown : c'.status ≠ .unspecified := by
    rcases hm.status with heq | hnext
    · rw [heq]
      exact h.known callId c hc
    · exact hnext.known
  have hstill : c.status.Over → c'.status.Over := by
    intro hover
    rcases hm.status with heq | hnext
    · rwa [heq]
    · exact absurd hover hnext.not_over
  have hkey : c'.id = callId := hid.trans (h.keyed callId c hc)
  refine ⟨fun id' d hd => ?_, fun id' d hd => ?_, fun id' d hd => ?_, fun id' d hd hover => ?_, fun k hk d hd hpcd => ?_,
    fun id' d hd => ?_, fun k hk => ?_⟩
  · rcases hget id' d hd with ⟨rfl, rfl⟩ | ⟨-, hd⟩
    · exact hkey
    · exact h.keyed id' d hd
  · rcases hget id' d hd with ⟨-, rfl⟩ | ⟨-, hd⟩
    · exact hm.timed
    · exact h.timed id' d hd
  · rcases hget id' d hd with ⟨-, rfl⟩ | ⟨-, hd⟩
    · exact hknown
    · exact h.known id' d hd
  · rcases hget id' d hd with ⟨-, rfl⟩ | ⟨-, hd⟩
    · exact hm.listed hover
    · obtain ⟨k, hk, hkd⟩ := h.listed id' d hd hover
      exact ⟨k, hold k hk, hkd⟩
  · rcases hget _ d hd with ⟨hkid, rfl⟩ | ⟨hne, hd⟩
    · rcases hnew k hk with hkold | ⟨-, hover⟩
      · exact hstill (h.leaving k hkold c (by rw [hkid]; exact hc) (hpc.symm.trans hpcd))
      · exact hover
    · rcases hnew k hk with hkold | ⟨hkc, -⟩
      · exact h.leaving k hkold d hd hpcd
      · exact absurd (by rw [hkc, hkey]) hne
  · rcases hget id' d hd with ⟨-, rfl⟩ | ⟨-, hd⟩
    · rw [hpc]
      exact h.entries callId c hc
    · exact h.entries id' d hd
  · rcases hnew k hk with hkold | ⟨hkc, -⟩
    · exact h.tasks k hkold
    · rw [hkc, hpc]
      exact h.entries callId c hc

end

/-- A write by an operation that does not take the call out. -/
theorem Kept.orderly_update (h : t.Kept) (hc : t.calls[callId]? = some c) (hpc : c'.peerConnection = c.peerConnection) :
    t.Orderly (t.write callId c') ↔ Moves c c' t.closing :=
  h.orderly_write hc hpc fun _ => id

theorem Kept.update (h : t.Kept) (hc : t.calls[callId]? = some c) (hid : c'.id = c.id)
    (hpc : c'.peerConnection = c.peerConnection) (ho : t.Orderly (t.write callId c')) : (t.write callId c').Kept :=
  h.write hc hid hpc (fun _ => id) ((h.orderly_update hc hpc).1 ho) fun _ hk => Or.inl hk

/-! The operations -/

theorem Kept.advance (h : t.Kept) {expected status : Status} (hn : expected.Next status) (hover : ¬ status.Over)
    (callId : String) : t.Orderly (t.advance callId expected status).2 ∧ (t.advance callId expected status).2.Kept := by
  have hsame : t.Orderly t := h.orderly_same rfl h.listed
  unfold CallTable.advance
  cases hc : t.calls[callId]? with
  | none => exact ⟨hsame, h⟩
  | some call =>
    dsimp only
    split_ifs with hexp
    · exact ⟨hsame, h⟩
    · have hst : call.status = expected := not_not.1 hexp
      have hgo : ¬ call.status.Over := by
        rw [hst]
        exact hn.not_over
      have hnone : ¬ call.endedAt.isSome := fun hs => hgo ((h.timed callId call hc).1 hs)
      have hm : Moves call { call with status } t.closing :=
        ⟨Or.inr (by rw [hst]; exact hn), iff_of_false hnone hover, fun _ => id, fun ho => absurd ho hover⟩
      have hpc : ({ call with status } : Call).peerConnection = call.peerConnection := rfl
      have ho := (h.orderly_update hc hpc).2 hm
      exact ⟨ho, h.update hc rfl hpc ho⟩

/-- Marking a call keeps the order just when it goes on, or is marked so already. -/
theorem Kept.orderly_close (h : t.Kept) (hc : t.calls[callId]? = some c) (op : Closer) {status : Status}
    (hover : status.Over) (now : ℤ) : t.Orderly (t.close op callId c status now) ↔
      (c.status.Over → c.status = status ∧ c.endedAt = some now) := by
  have hw : t.Orderly (t.close op callId c status now) ↔ Moves c { c with status, endedAt := some now } _ :=
    h.orderly_write hc rfl fun k hk => List.mem_append_left _ hk
  refine hw.trans ⟨fun hm ho => ?_, fun hcond => ?_⟩
  · have hst : status = c.status := hm.status.resolve_right fun hn => hn.not_over ho
    obtain ⟨ended, hended⟩ := Option.isSome_iff_exists.1 ((h.timed callId c hc).2 ho)
    have hnow : some now = some ended := hm.once ended hended
    exact ⟨hst.symm, hended.trans hnow.symm⟩
  · refine ⟨?_, iff_of_true rfl hover, fun ended he => ?_, fun _ => ⟨_, List.mem_append_right _ List.mem_cons_self, rfl⟩⟩
    · by_cases ho : c.status.Over
      · exact Or.inl (hcond ho).1.symm
      · exact Or.inr (Status.next_of_over (h.known callId c hc) ho hover)
    · have ho := (h.timed callId c hc).1 (by rw [he]; rfl)
      exact (hcond ho).2.symm.trans he

theorem Kept.close (h : t.Kept) (hc : t.calls[callId]? = some c) (op : Closer) {status : Status} (hover : status.Over)
    {now : ℤ} (ho : t.Orderly (t.close op callId c status now)) : (t.close op callId c status now).Kept := by
  have hold : ∀ k ∈ t.closing, k ∈ t.closing ++ [⟨op, { c with status, endedAt := some now }⟩] :=
    fun k hk => List.mem_append_left _ hk
  have hw : t.Orderly (t.close op callId c status now) ↔ Moves c { c with status, endedAt := some now } _ :=
    h.orderly_write hc rfl hold
  refine h.write hc rfl rfl hold (hw.1 ho) fun k hk => ?_
  rcases List.mem_append.1 hk with hkold | hknew
  · exact Or.inl hkold
  · rw [List.mem_singleton.1 hknew]
    exact Or.inr ⟨rfl, hover⟩

theorem Kept.orderly_insert (h : t.Kept) (callId : String) (participants : List Did) (callType now : ℤ) :
    t.Orderly (t.insertCall callId participants callType now).2 ↔ t.calls[callId]? = none := by
  constructor
  · intro ho
    refine Option.eq_none_iff_forall_not_mem.2 fun c hc => ?_
    have hc' : t.calls[callId]? = some c := hc
    have hsame := ho.same callId c _ hc' (show (t.calls.insert callId _)[callId]? = some _ by rw [get_insert, if_pos rfl])
    have hlt := h.entries callId c hc'
    dsimp only at hsame
    omega
  · intro hfree
    have hget : ∀ (id' : String) (d : Call), (t.insertCall callId participants callType now).2.calls[id']? = some d →
        id' = callId ∧ d.status = .ringing ∧ d.endedAt = none ∨ t.calls[id']? = some d := by
      intro id' d hd
      have hd' : (t.calls.insert callId _)[id']? = some d := hd
      rw [get_insert] at hd'
      split_ifs at hd' with heq
      · obtain rfl := Option.some.inj hd'
        exact Or.inl ⟨heq.symm, rfl, rfl⟩
      · exact Or.inr hd'
    have heq : ∀ (id' : String) (c c' : Call), t.calls[id']? = some c →
        (t.insertCall callId participants callType now).2.calls[id']? = some c' → c' = c := by
      intro id' c c' hc hc'
      rcases hget id' c' hc' with ⟨rfl, -⟩ | hold
      · rw [hfree] at hc
        cases hc
      · exact Option.some.inj (hold.symm.trans hc)
    refine ⟨fun id' c c' hc hc' => Or.inl (by rw [heq id' c c' hc hc']), fun c hc => ?_,
      fun id' c c' ended hc hc' he => by rw [heq id' c c' hc hc', he],
      fun id' c c' hc hc' => by rw [heq id' c c' hc hc'], fun c hc hover => ?_⟩
    · obtain ⟨id', hc'⟩ := mem_listActiveCalls.1 hc
      rcases hget id' c hc' with ⟨-, hst, hend⟩ | hold
      · rw [hst, hend]
        exact iff_of_false (by simp) id
      · exact h.timed id' c hold
    · obtain ⟨id', hc'⟩ := mem_listActiveCalls.1 hc
      rcases hget id' c hc' with ⟨-, hst, -⟩ | hold
      · rw [hst] at hover
        exact absurd hover id
      · exact h.listed id' c hold hover

theorem Kept.insert (h : t.Kept) (hfree : t.calls[callId]? = none) (participants : List Did) (callType now : ℤ) :
    (t.insertCall callId participants callType now).2.Kept := by
  have hget : ∀ (id' : String) (d : Call), (t.insertCall callId participants callType now).2.calls[id']? = some d →
      d = (t.insertCall callId participants callType now).1 ∧ id' = callId ∨ t.calls[id']? = some d := by
    intro id' d hd
    have hd' : (t.calls.insert callId _)[id']? = some d := hd
    rw [get_insert] at hd'
    split_ifs at hd' with heq
    · exact Or.inl ⟨(Option.some.inj hd').symm, heq.symm⟩
    · exact Or.inr hd'
  refine ⟨fun id' d hd => ?_, fun id' d hd => ?_, fun id' d hd => ?_, fun id' d hd hover => ?_, fun k hk d hd hpcd => ?_,
    fun id' d hd => ?_, fun k hk => Nat.lt_succ_of_lt (h.tasks k hk)⟩
  · rcases hget id' d hd with ⟨rfl, rfl⟩ | hold
    · rfl
    · exact h.keyed id' d hold
  · rcases hget id' d hd with ⟨rfl, -⟩ | hold
    · exact iff_of_false (by simp [insertCall]) id
    · exact h.timed id' d hold
  · rcases hget id' d hd with ⟨rfl, -⟩ | hold
    · exact Status.noConfusion
    · exact h.known id' d hold
  · rcases hget id' d hd with ⟨rfl, -⟩ | hold
    · exact absurd hover id
    · exact h.listed id' d hold hover
  · rcases hget _ d hd with ⟨rfl, -⟩ | hold
    · have hlt := h.tasks k hk
      rw [← hpcd] at hlt
      exact absurd hlt (lt_irrefl _)
    · exact h.leaving k hk d hold hpcd
  · rcases hget id' d hd with ⟨rfl, -⟩ | hold
    · exact Nat.lt_succ_self _
    · exact Nat.lt_succ_of_lt (h.entries id' d hold)

/-! The callbacks -/

theorem eq_active_of_newStatus {state : PeerState} {status : Status} (hn : newStatus state = some status)
    (hgo : ¬ status.Over) : status = .active := by
  cases state with
  | connected => exact (Option.some.inj hn).symm
  | failed => exact absurd (Option.some.inj hn ▸ trivial) hgo
  | disconnected => exact absurd (Option.some.inj hn ▸ trivial) hgo
  | closed => exact absurd (Option.some.inj hn ▸ trivial) hgo
  | unspecified => cases hn
  | new => cases hn
  | connecting => cases hn

/-- A callback may say that a call is over only when it is, since when the callback says. -/
theorem Kept.moves_over (h : t.Kept) (hc : t.calls[callId]? = some c) {status : Status} (hover : status.Over) (now : ℤ) :
    Moves c { c with status, endedAt := some now } t.closing ↔ c.status = status ∧ c.endedAt = some now := by
  constructor
  · intro hm
    -- some operation will return the call as the callback leaves it, so it takes this call out
    obtain ⟨k, hk, hkc⟩ := hm.listed hover
    have hid : k.call.id = callId := by
      rw [hkc]
      exact h.keyed callId c hc
    have ho : c.status.Over := h.leaving k hk c (by rw [hid, hc]) (by rw [hkc])
    obtain ⟨ended, hended⟩ := Option.isSome_iff_exists.1 ((h.timed callId c hc).2 ho)
    exact ⟨(hm.status.resolve_right fun hnext => hnext.not_over ho).symm, hended.trans (hm.once ended hended).symm⟩
  · rintro ⟨hst, hend⟩
    have hcall : ({ c with status, endedAt := some now } : Call) = c := by rw [← hst, ← hend]
    rw [hcall]
    exact ⟨Or.inl rfl, h.timed callId c hc, fun _ => id, h.listed callId c hc⟩

/-- It may say that a call is active when it is, or is connecting. -/
theorem Kept.moves_active (h : t.Kept) (hc : t.calls[callId]? = some c) :
    Moves c { c with status := .active } t.closing ↔ c.status = .connecting ∨ c.status = .active := by
  constructor
  · intro hm
    rcases hm.status with heq | hnext
    · exact Or.inr heq.symm
    · left
      revert hnext
      generalize c.status = s
      intro hnext
      cases hnext with
      | activate => rfl
      | finish _ ho => exact ho.elim
  · intro hst
    have hgo : ¬ c.status.Over := by
      rcases hst with hst | hst
      · rw [hst]
        exact id
      · rw [hst]
        exact id
    have hnone : ¬ c.endedAt.isSome := fun hs => hgo ((h.timed callId c hc).1 hs)
    refine ⟨?_, iff_of_false hnone id, fun _ => id, fun ho => ho.elim⟩
    rcases hst with hst | hst
    · exact Or.inr (by rw [hst]; exact .activate)
    · exact Or.inl hst.symm

theorem Kept.onStateChange (h : t.Kept) (callId : String) (state : PeerState) (now : ℤ) :
    (t.Orderly (t.onStateChange callId state now) ↔ t.Careful (.onStateChange callId state now)) ∧
      (t.Orderly (t.onStateChange callId state now) → (t.onStateChange callId state now).Kept) := by
  have hsame : t.Orderly t := h.orderly_same rfl h.listed
  unfold CallTable.onStateChange Careful
  cases hn : newStatus state with
  | none =>
    refine ⟨iff_of_true hsame fun c status _ he => ?_, fun _ => h⟩
    rw [hn] at he
    cases he
  | some status =>
    cases hc : t.calls[callId]? with
    | none =>
      refine ⟨iff_of_true hsame fun c status he => ?_, fun _ => h⟩
      rw [hc] at he
      cases he
    | some call =>
      have hpc : ({ call with status, endedAt := if status.Over then some now else call.endedAt } : Call).peerConnection =
        call.peerConnection := rfl
      refine ⟨(h.orderly_update hc hpc).trans ?_, fun ho => h.update hc rfl hpc ho⟩
      have hmoves : Moves call { call with status, endedAt := if status.Over then some now else call.endedAt } t.closing ↔
          if status.Over then call.status = status ∧ call.endedAt = some now
          else call.status = .connecting ∨ call.status = .active := by
        split_ifs with hover
        · exact h.moves_over hc hover now
        · obtain rfl := eq_active_of_newStatus hn hover
          exact h.moves_active hc
      refine hmoves.trans ⟨fun hcond c st hc' hst => ?_, fun hcond => hcond call status hc hn⟩
      obtain rfl := Option.some.inj (hc.symm.trans hc')
      obtain rfl := Option.some.inj (hn.symm.trans hst)
      exact hcond

/-! The end of an operation that takes a call out -/

/-- The operation is over, and the call is where it was. -/
theorem Kept.left (h : t.Kept) {i : ℕ} {k : Closing} (hk : t.closing[i]? = some k) :
    (t.Orderly { t with closing := t.closing.eraseIdx i } ↔
      ∀ c, t.calls[k.call.id]? = some c → c.status.Over → ∃ k' ∈ t.closing.eraseIdx i, k'.call = c) ∧
    (t.Orderly { t with closing := t.closing.eraseIdx i } → Kept { t with closing := t.closing.eraseIdx i }) := by
  have hlisted : t.Orderly { t with closing := t.closing.eraseIdx i } →
      ∀ (callId : String) (c : Call), t.calls[callId]? = some c → c.status.Over →
        ∃ k' ∈ t.closing.eraseIdx i, k'.call = c :=
    fun ho callId c hc hover => ho.listed c (mem_listActiveCalls.2 ⟨callId, hc⟩) hover
  refine ⟨⟨fun ho c hc => hlisted ho _ c hc, fun hcond => h.orderly_same rfl fun callId c hc hover => ?_⟩, fun ho => ?_⟩
  · obtain ⟨k', hk', rfl⟩ := h.listed callId c hc hover
    by_cases heq : k' = k
    · subst heq
      rw [← h.keyed callId _ hc] at hc
      exact hcond k'.call hc hover
    · exact ⟨k', StepSystem.mem_eraseIdx_of_ne hk hk' heq, rfl⟩
  · exact ⟨h.keyed, h.timed, h.known, hlisted ho, fun k' hk' => h.leaving k' (List.mem_of_mem_eraseIdx hk'), h.entries,
      fun k' hk' => h.tasks k' (List.mem_of_mem_eraseIdx hk')⟩

/-- The call is gone. -/
theorem Kept.removed (h : t.Kept) {i : ℕ} {k : Closing} (hk : t.closing[i]? = some k) :
    t.Orderly { t with closing := t.closing.eraseIdx i, calls := t.calls.erase k.call.id } ∧
      Kept { t with closing := t.closing.eraseIdx i, calls := t.calls.erase k.call.id } := by
  have hget : ∀ (callId : String) (c : Call), (t.calls.erase k.call.id)[callId]? = some c →
      t.calls[callId]? = some c ∧ c.id ≠ k.call.id := by
    intro callId c hc
    rw [get_erase] at hc
    split_ifs at hc with hne
    refine ⟨hc, ?_⟩
    rw [h.keyed callId c hc]
    exact Ne.symm hne
  have hlisted : ∀ (callId : String) (c : Call), (t.calls.erase k.call.id)[callId]? = some c → c.status.Over →
      ∃ k' ∈ t.closing.eraseIdx i, k'.call = c := by
    intro callId c hc hover
    obtain ⟨hc, hne⟩ := hget callId c hc
    obtain ⟨k', hk', rfl⟩ := h.listed callId c hc hover
    exact ⟨k', StepSystem.mem_eraseIdx_of_ne hk hk' fun heq => hne (by rw [heq]), rfl⟩
  have heq : ∀ (callId : String) (c c' : Call), t.calls[callId]? = some c →
      (t.calls.erase k.call.id)[callId]? = some c' → c' = c := by
    intro callId c c' hc hc'
    exact Option.some.inj ((hget callId c' hc').1.symm.trans hc)
  constructor
  · refine ⟨fun callId c c' hc hc' => Or.inl (by rw [heq callId c c' hc hc']), fun c hc => ?_,
      fun callId c c' ended hc hc' he => by rw [heq callId c c' hc hc', he],
      fun callId c c' hc hc' => by rw [heq callId c c' hc hc'], fun c hc hover => ?_⟩
    · obtain ⟨callId, hc⟩ := mem_listActiveCalls.1 hc
      exact h.timed callId c (hget callId c hc).1
    · obtain ⟨callId, hc⟩ := mem_listActiveCalls.1 hc
      exact hlisted callId c hc hover
  · exact ⟨fun callId c hc => h.keyed callId c (hget callId c hc).1,
      fun callId c hc => h.timed callId c (hget callId c hc).1,
      fun callId c hc => h.known callId c (hget callId c hc).1, hlisted,
      fun k' hk' c hc => h.leaving k' (List.mem_of_mem_eraseIdx hk') c (hget _ c hc).1,
      fun callId c hc => h.entries callId c (hget callId c hc).1,
      fun k' hk' => h.tasks k' (List.mem_of_mem_eraseIdx hk')⟩

theorem Kept.finish (h : t.Kept) (i : ℕ) (closes : Bool) :
    (t.Orderly (t.finish i closes).2 ↔ t.Careful (.finish i closes)) ∧
      (t.Orderly (t.finish i closes).2 → (t.finish i closes).2.Kept) := by
  unfold CallTable.finish Careful
  cases hk : t.closing[i]? with
  | none =>
    refine ⟨iff_of_true (h.orderly_same rfl h.listed) fun k hk' => ?_, fun _ => h⟩
    rw [hk] at hk'
    cases hk'
  | some k =>
    have hone : ∀ k', t.closing[i]? = some k' → k' = k := fun k' hk' => Option.some.inj (hk'.symm.trans hk)
    dsimp only
    split_ifs with hfails
    · refine ⟨(h.left hk).1.trans ⟨fun hcond k' hk' _ => ?_, fun hcond => hcond k hk hfails⟩, (h.left hk).2⟩
      rw [hone k' hk']
      exact hcond
    · refine ⟨iff_of_true (h.removed hk).1 fun k' hk' hf => ?_, fun _ => (h.removed hk).2⟩
      rw [hone k' hk'] at hf
      exact absurd hf hfails

/-! The other operations -/

/-- The lists of what runs besides do not matter. -/
theorem Kept.congr (h : t.Kept) (hcalls : t'.calls = t.calls) (hnext : t'.nextConnection = t.nextConnection)
    (hclosing : t'.closing = t.closing) : t'.Kept := by
  refine ⟨?_, ?_, ?_, ?_, ?_, ?_, ?_⟩
  · rw [hcalls]
    exact h.keyed
  · rw [hcalls]
    exact h.timed
  · rw [hcalls]
    exact h.known
  · rw [hcalls, hclosing]
    exact h.listed
  · rw [hcalls, hclosing]
    exact h.leaving
  · rw [hcalls, hnext]
    exact h.entries
  · rw [hclosing, hnext]
    exact h.tasks

theorem Orderly.congr {u : CallTable} (h : u.Orderly t') (hcalls : u.calls = t.calls) : t.Orderly t' := by
  refine ⟨?_, h.timed, ?_, ?_, h.listed⟩
  · rw [← hcalls]
    exact h.status
  · rw [← hcalls]
    exact h.once
  · rw [← hcalls]
    exact h.same

theorem Kept.quiet (h : t.Kept) (hcalls : t'.calls = t.calls) (hnext : t'.nextConnection = t.nextConnection)
    (hclosing : t'.closing = t.closing) : t.Orderly t' ∧ t'.Kept :=
  ⟨h.orderly_same hcalls (by rw [hclosing]; exact h.listed), h.congr hcalls hnext hclosing⟩

theorem Kept.registerIncomingCall (h : t.Kept) (callId : String) (callerDid : Did) (callType : ℤ) :
    t.Orderly (t.registerIncomingCall callId callerDid callType).2 ∧
      (t.registerIncomingCall callId callerDid callType).2.Kept := by
  unfold CallTable.registerIncomingCall
  split_ifs
  · exact h.quiet rfl rfl rfl
  · exact h.quiet rfl rfl rfl

theorem Kept.register (h : t.Kept) (i : ℕ) (now : ℤ) :
    (t.Orderly (t.register i now).2 ↔ t.Careful (.register i now)) ∧
      (t.Orderly (t.register i now).2 → (t.register i now).2.Kept) := by
  unfold CallTable.register Careful
  cases hr : t.registering[i]? with
  | none =>
    refine ⟨iff_of_true (h.orderly_same rfl h.listed) fun r hr' => ?_, fun _ => h⟩
    rw [hr] at hr'
    cases hr'
  | some r =>
    obtain ⟨callId, callerDid, callType⟩ := r
    have hrest : Kept { t with registering := t.registering.eraseIdx i } := h.congr rfl rfl rfl
    have hins := hrest.orderly_insert callId [callerDid, t.localDid] callType now
    have ho : t.Orderly ({ t with registering := t.registering.eraseIdx i }.insertCall callId
        [callerDid, t.localDid] callType now).2 ↔ t.calls[callId]? = none :=
      ⟨fun horder => hins.1 (horder.congr rfl), fun hfree => (hins.2 hfree).congr rfl⟩
    refine ⟨ho.trans ⟨fun hfree r hr' => ?_, fun hcond => hcond _ hr⟩, fun horder => hrest.insert (ho.1 horder) _ _ _⟩
    obtain rfl := Option.some.inj (hr.symm.trans hr')
    exact hfree

theorem Kept.rejectCall (h : t.Kept) (callId : String) (now : ℤ) :
    t.Orderly (t.rejectCall callId now).2 ∧ (t.rejectCall callId now).2.Kept := by
  unfold CallTable.rejectCall
  cases hc : t.calls[callId]? with
  | none => exact h.quiet rfl rfl rfl
  | some call =>
    dsimp only
    split_ifs with hst
    · exact h.quiet rfl rfl rfl
    · have hgo : ¬ call.status.Over := by
        rw [not_not.1 hst]
        exact id
      have hover : Status.ended.Over := trivial
      have ho := (h.orderly_close hc .rejectCall hover now).2 fun ho => absurd ho hgo
      exact ⟨ho, h.close hc .rejectCall hover ho⟩

/-- `end_call` and `fail_call`. -/
theorem Kept.mark (h : t.Kept) (op : Closer) {status : Status} (hover : status.Over) (callId : String) (now : ℤ)
    {w : Except MediaError Unit × CallTable} (hnone : t.calls[callId]? = none → w.2 = t)
    (hsome : ∀ call, t.calls[callId]? = some call → w.2 = t.close op callId call status now) :
    (t.Orderly w.2 ↔ ∀ c, t.calls[callId]? = some c → c.status.Over → c.status = status ∧ c.endedAt = some now) ∧
      (t.Orderly w.2 → w.2.Kept) := by
  cases hc : t.calls[callId]? with
  | none =>
    rw [hnone hc]
    refine ⟨iff_of_true (h.quiet rfl rfl rfl).1 fun c he => ?_, fun _ => h⟩
    cases he
  | some call =>
    rw [hsome call hc]
    refine ⟨(h.orderly_close hc op hover now).trans ⟨fun hcond c he => ?_, fun hcond => hcond call rfl⟩,
      fun ho => h.close hc op hover ho⟩
    obtain rfl := Option.some.inj he
    exact hcond

theorem Kept.endCall (h : t.Kept) (callId : String) (now : ℤ) :
    (t.Orderly (t.endCall callId now).2 ↔ t.Careful (.endCall callId now)) ∧
      (t.Orderly (t.endCall callId now).2 → (t.endCall callId now).2.Kept) := by
  have hover : Status.ended.Over := trivial
  refine h.mark .endCall hover callId now (fun hc => ?_) fun call hc => ?_
  · rw [CallTable.endCall, hc]
  · rw [CallTable.endCall, hc]

theorem Kept.failCall (h : t.Kept) (callId : String) (now : ℤ) :
    (t.Orderly (t.failCall callId now).2 ↔ t.Careful (.failCall callId now)) ∧
      (t.Orderly (t.failCall callId now).2 → (t.failCall callId now).2.Kept) := by
  have hover : Status.failed.Over := trivial
  refine h.mark .failCall hover callId now (fun hc => ?_) fun call hc => ?_
  · rw [CallTable.failCall, hc]
  · rw [CallTable.failCall, hc]

theorem Kept.setUp (h : t.Kept) (callId : String) : t.Orderly (t.setUp callId).2 ∧ (t.setUp callId).2.Kept := by
  unfold CallTable.setUp
  cases t.calls[callId]? with
  | none => exact h.quiet rfl rfl rfl
  | some call => exact h.quiet rfl rfl rfl

theorem Kept.finishSetUp (h : t.Kept) (i : ℕ) (wentWell : Bool) :
    t.Orderly (t.finishSetUp i wentWell) ∧ (t.finishSetUp i wentWell).Kept := by
  unfold CallTable.finishSetUp
  cases t.settingUp[i]? with
  | none => exact h.quiet rfl rfl rfl
  | some pc => exact h.quiet rfl rfl rfl

/-- Every step, with the condition that keeps it in order. -/
theorem Kept.step (h : t.Kept) (e : Step) :
    (t.Orderly (t.step e) ↔ t.Careful e) ∧ (t.Orderly (t.step e) → (t.step e).Kept) := by
  have hfree : ∀ {t'}, t.Orderly t' ∧ t'.Kept → (t.Orderly t' ↔ True) ∧ (t.Orderly t' → t'.Kept) :=
    fun hq => ⟨iff_of_true hq.1 trivial, fun _ => hq.2⟩
  cases e with
  | createCall callId now recipientDid callType =>
    have ho := h.orderly_insert callId [t.localDid, recipientDid] callType now
    exact ⟨ho, fun horder => h.insert (ho.1 horder) _ _ _⟩
  | registerIncomingCall callId callerDid callType => exact hfree (h.registerIncomingCall callId callerDid callType)
  | register i now => exact h.register i now
  | acceptCall callId => exact hfree (h.advance .accept id callId)
  | activateCall callId => exact hfree (h.advance .activate id callId)
  | rejectCall callId now => exact hfree (h.rejectCall callId now)
  | endCall callId now => exact h.endCall callId now
  | failCall callId now => exact h.failCall callId now
  | finish i closes => exact h.finish i closes
  | setUp callId => exact hfree (h.setUp callId)
  | finishSetUp i wentWell => exact hfree (h.finishSetUp i wentWell)
  | onStateChange callId state now => exact h.onStateChange callId state now

theorem kept_of_init (h : callSys.init t) : t.Kept := by
  obtain ⟨hcalls, -, hclosing⟩ := h
  have hnone : ∀ (callId : String) (c : Call), t.calls[callId]? ≠ some c := by
    intro callId c hc
    rw [hcalls] at hc
    cases hc
  refine ⟨fun id c hc => absurd hc (hnone id c), fun id c hc => absurd hc (hnone id c),
    fun id c hc => absurd hc (hnone id c), fun id c hc => absurd hc (hnone id c),
    fun k _ c hc => absurd hc (hnone _ c), fun id c hc => absurd hc (hnone id c), fun k hk => ?_⟩
  rw [hclosing] at hk
  cases hk

/-- In every interleaving of the operations and the callbacks every step is in order just when each is careful. -/
theorem calls_orderly (h : callSys.init t) (es : List Step) :
    StepSystem.Guarded callSys (fun t e => t.Orderly (t.step e)) t es ↔ StepSystem.Guarded callSys Careful t es :=
  StepSystem.guarded_iff (I := Kept) (fun _ e hk => (hk.step e).1)
    (fun _ e hk hc => (hk.step e).2 ((hk.step e).1.2 hc)) (kept_of_init h) es

/-! One call, taken and ended; and one whose connection is lost for a moment -/

def idle : CallTable := ⟨"did:a", ∅, 0, ∅, [], [], []⟩

theorem idle_init : callSys.init idle := ⟨rfl, rfl, rfl⟩

def taken : List Step :=
  [.registerIncomingCall "c" "did:b" 1, .register 0 10, .acceptCall "c", .onStateChange "c" .connected 20]

theorem taken_and_ended : StepSystem.Guarded callSys (fun t e => t.Orderly (t.step e)) idle
    (taken ++ [.endCall "c" 30, .finish 0 true]) := by
  refine (calls_orderly idle_init _).2 ⟨trivial, ?_, trivial, ?_, ?_, ?_, trivial⟩
  · intro r hr
    obtain rfl := Option.some.inj hr
    rfl
  · intro c status hc hs
    obtain rfl : Status.active = status := Option.some.inj hs
    have hconnecting : (((idle.step (.registerIncomingCall "c" "did:b" 1)).step (.register 0 10)).step
        (.acceptCall "c")).calls["c"]? = some ⟨"c", ["did:b", "did:a"], 1, .connecting, 10, none, 0⟩ := by decide +kernel
    obtain rfl := Option.some.inj (hconnecting.symm.trans hc)
    exact Or.inl rfl
  · intro c hc hover
    have hactive : (taken.foldl CallTable.step idle).calls["c"]? =
        some ⟨"c", ["did:b", "did:a"], 1, .active, 10, none, 0⟩ := by decide +kernel
    obtain rfl := Option.some.inj (hactive.symm.trans hc)
    exact hover.elim
  · intro k hk hf
    exact absurd hf.2.2 (by decide)

def lost : CallTable := (taken.foldl CallTable.step idle).step (.onStateChange "c" .disconnected 30)

def regained : CallTable := lost.step (.onStateChange "c" .connected 40)

/-- The call has failed and stays listed, with nobody to take it out; then it is active again, and has ended. -/
theorem lost_and_regained : StepSystem.Reachable callSys lost ∧
    lost.listActiveCalls = [⟨"c", ["did:b", "did:a"], 1, .failed, 10, some 30, 0⟩] ∧ lost.closing = [] ∧
      regained.listActiveCalls = [⟨"c", ["did:b", "did:a"], 1, .active, 10, some 30, 0⟩] ∧
      ¬ (taken.foldl CallTable.step idle).Orderly lost ∧ ¬ lost.Orderly regained := by
  have hlost : lost.listActiveCalls = [⟨"c", ["did:b", "did:a"], 1, .failed, 10, some 30, 0⟩] := by decide +kernel
  have hregained : regained.listActiveCalls = [⟨"c", ["did:b", "did:a"], 1, .active, 10, some 30, 0⟩] := by
    decide +kernel
  have hclosing : lost.closing = [] := by decide +kernel
  have hreach := StepSystem.reachable_foldl (.init idle_init) (taken ++ [Step.onStateChange "c" .disconnected 30])
  rw [List.foldl_append] at hreach
  have hmem : ⟨"c", ["did:b", "did:a"], 1, .failed, 10, some 30, 0⟩ ∈ lost.listActiveCalls := by
    rw [hlost]
    exact List.mem_cons_self
  refine ⟨hreach, hlost, hclosing, hregained, fun h => ?_, fun h => ?_⟩
  · obtain ⟨k, hk, -⟩ := h.listed _ hmem trivial
    rw [hclosing] at hk
    cases hk
  · have htimed := h.timed _ (by rw [hregained]; exact List.mem_cons_self)
    exact htimed.1 rfl

end CallTable
end Variance
