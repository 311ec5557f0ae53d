import Mathlib.Data.List.Basic
import Mathlib.Logic.Function.Basic
import Mathlib.Tactic.Common

/-! A directory of names. `owner` says who has a key, `name` what somebody is called now, and `key` is the key
of a name. Somebody may have keys it is no longer called by. -/

structure Directory (κ ν α : Type*) where
  owner : κ → Option α
  name : α → Option ν

namespace Directory

variable {κ ν α : Type*} [DecidableEq κ] [DecidableEq α]

def empty : Directory κ ν α := ⟨fun _ => none, fun _ => none⟩

/-- `a` is called nothing any more, and the key of its name is free. -/
def drop (key : ν → κ) (a : α) (D : Directory κ ν α) : Directory κ ν α :=
  match D.name a with
  | none => D
  | some n => ⟨Function.update D.owner (key n) none, Function.update D.name a none⟩

/-- `a` is called `n`, and has its key. -/
def give (key : ν → κ) (n : ν) (a : α) (D : Directory κ ν α) : Directory κ ν α :=
  ⟨Function.update D.owner (key n) (some a), Function.update D.name a (some n)⟩

/-- `a` goes by another name. -/
def load (key : ν → κ) (D : Directory κ ν α) (x : α × ν) : Directory κ ν α := (D.drop key x.1).give key x.2 x.1

/-- Who `p` calls something has that name's key. -/
def Covers (key : ν → κ) (D : Directory κ ν α) (p : α → Option ν) : Prop :=
  ∀ a n, p a = some n → D.owner (key n) = some a

/-- No key goes from one to another. -/
def Steady (D D' : Directory κ ν α) : Prop := ∀ k a b, D.owner k = some a → D'.owner k = some b → b = a

/-- The key of `n` is free, or `a` has it. -/
def Open (key : ν → κ) (D : Directory κ ν α) (n : ν) (a : α) : Prop := ∀ b, D.owner (key n) = some b → b = a

variable {key : ν → κ} {D D' : Directory κ ν α} {p : α → Option ν} {n : ν} {a b : α}

theorem drop_name : (D.drop key a).name = Function.update D.name a none := by
  unfold drop
  split
  · rename_i h
    rw [← h, Function.update_eq_self]
  · rfl

theorem drop_owner_none (h : D.name a = none) : D.drop key a = D := by
  unfold drop
  rw [h]

/-- What is left of the owners after a drop. -/
theorem owner_of_drop {k : κ} (h : (D.drop key a).owner k = some b) : D.owner k = some b := by
  unfold drop at h
  split at h
  · exact h
  · dsimp only at h
    rw [Function.update_apply] at h
    split_ifs at h
    exact h

/-- Somebody else keeps its keys. -/
theorem drop_owner_other {k : κ} (hc : D.Covers key D.name) (h : D.owner k = some b) (hb : b ≠ a) :
    (D.drop key a).owner k = some b := by
  unfold drop
  split
  · exact h
  · rename_i n hn
    dsimp only
    rw [Function.update_apply, if_neg]
    · exact h
    · rintro rfl
      exact hb (Option.some.inj (h.symm.trans (hc a n hn)))

theorem give_owner (k : κ) : (D.give key n a).owner k = if k = key n then some a else D.owner k :=
  Function.update_apply ..

theorem give_name (b : α) : (D.give key n a).name b = if b = a then some n else D.name b :=
  Function.update_apply ..

/-- What `a` was called goes, the rest stays covered. -/
theorem Covers.drop (h : D.Covers key p) (hc : D.Covers key D.name) (hp : p a = none) :
    (D.drop key a).Covers key p := by
  intro b n hb
  refine drop_owner_other hc (h b n hb) ?_
  rintro rfl
  simp [hp] at hb

theorem Covers.drop_name (hc : D.Covers key D.name) : (D.drop key a).Covers key (D.drop key a).name := by
  intro b n hb
  rw [Directory.drop_name, Function.update_apply] at hb
  split_ifs at hb with hba
  exact drop_owner_other hc (hc b n hb) hba

theorem Covers.give (h : D.Covers key p) (ho : D.Open key n a) : (D.give key n a).Covers key p := by
  intro b m hb
  have hm := h b m hb
  rw [give_owner]
  split_ifs with hk
  · rw [hk] at hm
    rw [ho b hm]
  · exact hm

/-- The new name is covered as well. -/
theorem Covers.give_update (h : D.Covers key p) (ho : D.Open key n a) :
    (D.give key n a).Covers key (Function.update p a (some n)) := by
  intro b m hb
  rw [Function.update_apply] at hb
  split_ifs at hb with hba
  · cases hb
    rw [give_owner, if_pos rfl, hba]
  · exact h.give ho b m hb

omit [DecidableEq κ] [DecidableEq α] in
theorem open_of_none (h : D.owner (key n) = none) : D.Open key n a := by
  intro b hb
  simp [h] at hb

theorem Open.drop (h : D.Open key n a) : (D.drop key b).Open key n a := fun c hc => h c (owner_of_drop hc)

omit [DecidableEq κ] [DecidableEq α] in
theorem Steady.refl (D : Directory κ ν α) : D.Steady D := by
  intro k a b ha hb
  exact Option.some.inj (hb.symm.trans ha)

theorem Steady.drop (h : D.Steady D') : D.Steady (D'.drop key a) := fun k b c hb hc => h k b c hb (owner_of_drop hc)

theorem Steady.give (h : D.Steady D') (ho : D.Open key n a) : D.Steady (D'.give key n a) := by
  intro k b c hb hc
  rw [give_owner] at hc
  split_ifs at hc with hk
  · cases hc
    exact (ho b (hk ▸ hb)).symm
  · exact h k b c hb hc

theorem load_name : (D.load key (a, n)).name = Function.update D.name a (some n) := by
  unfold load give
  dsimp only
  rw [Directory.drop_name, Function.update_idem]

theorem Covers.load (h : D.Covers key p) (hc : D.Covers key D.name) (ho : D.Open key n a) :
    (D.load key (a, n)).Covers key (Function.update p a (some n)) := by
  have hp : D.Covers key (Function.update p a none) := by
    intro b m hb
    rw [Function.update_apply] at hb
    split_ifs at hb
    exact h b m hb
  have hgive := (hp.drop (a := a) hc (Function.update_self ..)).give_update ho.drop
  rwa [Function.update_idem] at hgive

theorem Covers.load_name (hc : D.Covers key D.name) (ho : D.Open key n a) :
    (D.load key (a, n)).Covers key (D.load key (a, n)).name := by
  rw [Directory.load_name]
  exact hc.load hc ho

theorem Steady.load (h : D.Steady D') (ho : D.Open key n a) : D.Steady (D'.load key (a, n)) := h.drop.give ho

/-! Loading an assignment of names that no two share a key of -/

/-- Nobody has or is called anything but what `p` says. -/
structure Within (key : ν → κ) (p : α → Option ν) (D : Directory κ ν α) : Prop where
  owner : ∀ k a, D.owner k = some a → ∃ n, p a = some n ∧ key n = k
  name : ∀ a n, D.name a = some n → p a = some n
  covers : D.Covers key D.name

omit [DecidableEq κ] [DecidableEq α] in
theorem Within.empty : Within key p empty := ⟨by simp [Directory.empty], by simp [Directory.empty],
  by simp [Directory.empty, Covers]⟩

/-- Names that `p` gives apart lie under different keys. -/
def Apart (key : ν → κ) (p : α → Option ν) : Prop :=
  ∀ a b n m, p a = some n → p b = some m → key n = key m → a = b

omit [DecidableEq κ] [DecidableEq α] in
/-- A covered assignment keeps its names apart. -/
theorem Covers.apart (h : D.Covers key p) : Apart key p := by
  intro a b n m ha hb hk
  have hn := h a n ha
  rw [hk, h b m hb] at hn
  exact (Option.some.inj hn).symm

omit [DecidableEq κ] [DecidableEq α] in
theorem Within.open (h : Within key p D) (ha : Apart key p) (hn : p a = some n) : D.Open key n a := by
  intro b hb
  obtain ⟨m, hm, hk⟩ := h.owner _ _ hb
  exact ha b a m n hm hn hk

theorem Within.load (h : Within key p D) (ha : Apart key p) (hn : p a = some n) :
    Within key p (D.load key (a, n)) := by
  refine ⟨?_, ?_, h.covers.load_name (h.open ha hn)⟩
  · intro k b hb
    unfold Directory.load at hb
    rw [give_owner] at hb
    split_ifs at hb with hk
    · cases hb
      exact ⟨n, hn, hk.symm⟩
    · exact h.owner k b (owner_of_drop hb)
  · intro b m hb
    rw [Directory.load_name, Function.update_apply] at hb
    split_ifs at hb with hba
    · cases hb
      rw [hba, hn]
    · exact h.name b m hb

/-- Once loaded, a name stays. -/
theorem Within.load_name (h : Within key p D) {x : α × ν} (hx : p x.1 = some x.2) (hb : D.name b = some n) :
    (D.load key x).name b = some n := by
  rw [Directory.load_name, Function.update_apply]
  split_ifs with hbx
  · rw [← hx, ← hbx, h.name b n hb]
  · exact hb

theorem Within.loadAll (ha : Apart key p) {l : List (α × ν)} (hl : ∀ x ∈ l, p x.1 = some x.2)
    (h : Within key p D) : Within key p (l.foldl (Directory.load key) D) ∧
      (∀ b n, D.name b = some n → (l.foldl (Directory.load key) D).name b = some n) ∧
      ∀ x ∈ l, (l.foldl (Directory.load key) D).name x.1 = some x.2 := by
  induction l generalizing D with
  | nil => exact ⟨h, fun b n hb => hb, by simp⟩
  | cons x l ih =>
    have hx := hl x (by simp)
    obtain ⟨hw, hold, hnew⟩ := ih (fun y hy => hl y (by simp [hy])) (h.load ha hx)
    refine ⟨hw, fun b n hb => hold b n (h.load_name hx hb), ?_⟩
    intro y hy
    rcases List.mem_cons.1 hy with rfl | hy
    · apply hold
      rw [Directory.load_name, Function.update_self]
    · exact hnew y hy

omit [DecidableEq κ] [DecidableEq α] in
/-- A directory that says no more than a covered assignment takes no key from anybody. -/
theorem Within.steady (h : Within key p D') (hc : D.Covers key p) : D.Steady D' := by
  intro k a b ha hb
  obtain ⟨n, hn, rfl⟩ := h.owner k b hb
  have := hc b n hn
  rw [ha] at this
  exact (Option.some.inj this).symm

/-! Owners and names that say the same -/

/-- Whoever has a name's key is called that, and the other way round. -/
def Paired (key : ν → κ) (D : Directory κ ν α) : Prop := ∀ n a, D.owner (key n) = some a ↔ D.name a = some n

omit [DecidableEq κ] [DecidableEq α] in
theorem Paired.covers (h : D.Paired key) : D.Covers key D.name := fun a n hn => (h n a).2 hn

omit [DecidableEq κ] [DecidableEq α] in
theorem Paired.empty : (empty : Directory κ ν α).Paired key := by simp [Paired, Directory.empty]

theorem Paired.drop (hkey : Function.Injective key) (h : D.Paired key) : (D.drop key a).Paired key := by
  intro m b
  cases ha : D.name a with
  | none =>
    rw [drop_owner_none ha]
    exact h m b
  | some n =>
    have hdrop : D.drop key a = ⟨Function.update D.owner (key n) none, Function.update D.name a none⟩ := by
      unfold Directory.drop
      rw [ha]
    rw [hdrop]
    dsimp only
    rw [Function.update_apply, Function.update_apply]
    have hown := (h n a).2 ha
    split_ifs with hk hb hb
    · simp
    · -- the key that is freed was nobody else's
      obtain rfl := hkey hk
      refine iff_of_false (by simp) fun hm => hb ?_
      exact Option.some.inj (((h m b).2 hm).symm.trans hown)
    · subst hb
      refine iff_of_false (fun hm => hk ?_) (by simp)
      rw [Option.some.inj (((h m b).1 hm).symm.trans ha)]
    · exact h m b

/-- A gift keeps the pairing just when it changes nothing, or the name is nobody's and `a` has none yet. -/
theorem Paired.give_iff (hkey : Function.Injective key) (h : D.Paired key) :
    (D.give key n a).Paired key ↔ D.name a = some n ∨ D.name a = none ∧ D.owner (key n) = none := by
  constructor
  · intro hg
    rcases ha : D.name a with - | m
    · refine Or.inr ⟨rfl, Option.eq_none_iff_forall_not_mem.2 fun b hb => ?_⟩
      -- the former owner is still called by the name that it lost
      have hb' : D.owner (key n) = some b := hb
      have hname := (h n b).1 hb'
      have hne : b ≠ a := by
        rintro rfl
        rw [ha] at hname
        cases hname
      have howner := (hg n b).2 (by rw [give_name, if_neg hne, hname])
      rw [give_owner, if_pos rfl] at howner
      exact hne (Option.some.inj howner).symm
    · refine Or.inl ?_
      by_contra hne
      -- `a` has the key of a name that it is not called by
      have hk : key m ≠ key n := fun hk => hne (by rw [hkey hk])
      have hname := (hg m a).1 (by rw [give_owner, if_neg hk, (h m a).2 ha])
      rw [give_name, if_pos rfl] at hname
      exact hne (by rw [Option.some.inj hname])
  · intro hc m b
    rw [give_owner, give_name]
    split_ifs with hk hb hb
    · simp [hb, hkey hk]
    · obtain rfl := hkey hk
      refine iff_of_false (fun hab => hb (Option.some.inj hab).symm) fun hm => hb ?_
      rcases hc with ha | ⟨-, hfree⟩
      · exact Option.some.inj (((h m b).2 hm).symm.trans ((h m a).2 ha))
      · rw [(h m b).2 hm] at hfree
        cases hfree
    · subst hb
      refine iff_of_false (fun hm => ?_) fun hnm => hk (by rw [Option.some.inj hnm])
      rcases hc with ha | ⟨ha, -⟩
      · exact hk (by rw [Option.some.inj (((h m b).1 hm).symm.trans ha)])
      · rw [(h m b).1 hm] at ha
        cases ha
    · exact h m b

/-- Whoever has the key of an open name is called by it. -/
theorem Paired.owner_drop (h : D.Paired key) (ho : D.Open key n a) : (D.drop key a).owner (key n) = none := by
  refine Option.eq_none_iff_forall_not_mem.2 fun b hb => ?_
  have hown : D.owner (key n) = some b := owner_of_drop hb
  obtain rfl := ho b hown
  have hdrop : D.drop key b = ⟨Function.update D.owner (key n) none, Function.update D.name b none⟩ := by
    unfold Directory.drop
    rw [(h n b).1 hown]
  rw [hdrop] at hb
  simp at hb

/-- Going by another name keeps the pairing just when the name is open. -/
theorem Paired.load_iff (hkey : Function.Injective key) (h : D.Paired key) :
    (D.load key (a, n)).Paired key ↔ D.Open key n a := by
  have hname : (D.drop key a).name a = none := by rw [drop_name, Function.update_self]
  have hgive := (h.drop (a := a) hkey).give_iff (n := n) (a := a) hkey
  rw [hname] at hgive
  refine hgive.trans ⟨?_, fun ho => Or.inr ⟨rfl, h.owner_drop ho⟩⟩
  rintro (hno | ⟨-, hfree⟩) b hb
  · cases hno
  · by_contra hba
    rw [drop_owner_other h.covers hb hba] at hfree
    cases hfree

end Directory
