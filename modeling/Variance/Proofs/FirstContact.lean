import Variance.Lib.KeyPool
import Variance.Sanity.Conversation
import Variance.Sanity.IdealOlm
import Variance.Sanity.IdealWire
import Variance.Spec.FirstContact

/-! When every first message can be read. The node's one-time keys are a pool of single-use keys: it is
safe as long as each list of keys goes to one requester only. -/

namespace Variance

variable {O : Olm} {W : Wire} {env : Env}

namespace KeyStage

/-- A key that is advertised may have been used, and not been replaced yet. -/
def spent : KeyStage O → Bool
  | .generate | .collect | .mark _ | .advertise _ => true
  | _ => false

def unsaved : KeyStage O → Bool
  | .persist => true
  | _ => false

/-- Keys on their way to be advertised. -/
def keys : KeyStage O → List CurveKey
  | .register keys _ => keys
  | .mark fresh | .advertise fresh => fresh
  | _ => []

theorem not_refilling {s : KeyStage O} (h : s.refilling = false) : s.spent = false ∧ s.unsaved = false := by
  cases s <;> simp_all [refilling, spent, unsaved]

end KeyStage

namespace ContactWorld
open DirectMessageHandler
variable {S : SessionPairs O} {w : ContactWorld O} {d : Did} {k : CurveKey}

/-- The first message of `d` was taken. -/
def Heard (w : ContactWorld O) (d : Did) : Prop := ∃ o ∈ w.opened, o.sent.message.senderDid = d

def pool (S : SessionPairs O) (w : ContactWorld O) : KeyPool.Pool CurveKey Did :=
  { live := {k | S.holds w.node.account k}
    saved := {k | S.holds w.durable k}
    shown := {k | k ∈ w.advertised}
    led := {e | e ∈ w.led}
    used := {d | w.Heard d}
    released := ∅ }

/-- The keys and who was led to them. -/
structure Keys (S : SessionPairs O) (w : ContactWorld O) : Prop where
  safe : KeyPool.Safe (w.pool S) (w.stage.spent = true) (w.stage.unsaved = true)
  shown_minted : ∀ k ∈ w.advertised, k ∈ w.minted
  led_minted : ∀ d k, (d, k) ∈ w.led → k ∈ w.minted
  stage_minted : ∀ k ∈ w.stage.keys, k ∈ w.minted
  led_shown : ∀ d k, (d, k) ∈ w.led → k ∈ w.advertised → w.shownTo = some d
  led_stage : ∀ d k, (d, k) ∈ w.led → k ∉ w.stage.keys
  shown_stage : ∀ k ∈ w.advertised, k ∉ w.stage.keys
  stage_live : ∀ k ∈ w.stage.keys, S.holds w.node.account k
  stage_saved : ∀ keys a, w.stage = .register keys a → ∀ k ∈ keys, S.holds w.durable k
  registering : ∀ keys a, w.stage = .register keys a → w.identity.localIdentity = none
  stored : w.stage ≠ .down → (w.node.olmPickle[w.node.localDid]?).isSome
  answer : ∀ l, w.identity.localIdentity = some l → l.did = w.node.localDid ∧
    l.olmIdentityKey = (O.identityKey w.node.account).bytes

/-- Each list of keys goes to one requester; what opens a session is stored, and stores of the account and
the way to the P2P loop do not fail; the node does not stop between advertising keys and storing them. -/
def Careful (w : ContactWorld O) : ContactOp O → Prop
  | .request d => ∀ d', w.shownTo = some d' → d' = d
  | .greet .. => True
  | .deliver env i => ∀ sent, w.net[i]? = some sent →
    env.faults "direct_messages" (LocalMessageStorage.directKey sent.message.senderDid
      sent.message.recipientDid sent.message.timestamp sent.message.id) = false ∧
    env.faults "plaintext_cache" sent.message.id = false
  | .receive _ m => w.node.OpensNone m
  | .refill env reached => (∀ fresh, w.stage = .advertise fresh → reached = true) ∧
    (w.stage = .persist → env.faults "olm_account_pickle" w.node.localDid = false)
  | .rotate _ => True
  | .restart env => w.stage ≠ .persist ∧ env.faults "olm_account_pickle" w.node.localDid = false

theorem findSome_advertised {found : IdentityFound} (hf : w.identity.resolveDid w.node.localDid = some found)
    (hk : found.oneTimeKeys.findSome? CurveKey.ofBytes = some k) : k ∈ w.advertised := by
  unfold IdentityHandler.resolveDid at hf
  unfold advertised
  rcases hl : w.identity.localIdentity with _ | l
  · rw [hl] at hf
    cases hf
  rw [hl] at hf
  dsimp only at hf ⊢
  split_ifs at hf
  cases hf
  obtain ⟨b, hb, hkb⟩ := List.exists_of_findSome?_eq_some hk
  exact List.mem_filterMap.2 ⟨b, hb, hkb⟩

theorem Keys.request (hw : Keys S w) (hg : w.Careful (.request d)) : Keys S (w.request d) := by
  unfold ContactWorld.request
  split
  · exact hw
  rename_i found hf
  cases hk : found.oneTimeKeys.findSome? CurveKey.ofBytes with
  | none =>
    refine ⟨hw.safe, hw.shown_minted, hw.led_minted, hw.stage_minted, ?_, hw.led_stage, hw.shown_stage,
      hw.stage_live, hw.stage_saved, hw.registering, hw.stored, hw.answer⟩
    intro d' k' hl hs
    rw [hg d' (hw.led_shown d' k' hl hs)]
  | some k =>
    have hshown := findSome_advertised hf hk
    have hpool : pool S { w with
        answers := Function.update w.answers d (some found), shownTo := some d, led := (d, k) :: w.led } =
        { w.pool S with led := insert (d, k) (w.pool S).led } := by
      unfold pool
      congr 1
      ext e
      simp
    refine ⟨?_, hw.shown_minted, ?_, hw.stage_minted, ?_, ?_, hw.shown_stage,
      hw.stage_live, hw.stage_saved, hw.registering, hw.stored, hw.answer⟩
    · dsimp only
      rw [hpool]
      exact hw.safe.lead hshown fun d' hl => Or.inl (hg d' (hw.led_shown d' k hl hshown))
    · intro d' k' hl
      rcases List.mem_cons.1 hl with heq | hl
      · cases heq
        exact hw.shown_minted _ hshown
      · exact hw.led_minted d' k' hl
    · intro d' k' hl hs
      rcases List.mem_cons.1 hl with heq | hl
      · cases heq
        rfl
      · rw [hg d' (hw.led_shown d' k' hl hs)]
    · intro d' k' hl
      rcases List.mem_cons.1 hl with heq | hl
      · cases heq
        exact hw.shown_stage _ hshown
      · exact hw.led_stage d' k' hl

/-- The node is who it was, on disk as well. -/
structure SameNode (h h' : DirectMessageHandler O) : Prop where
  localDid : h'.localDid = h.localDid
  olmPickle : h'.olmPickle = h.olmPickle
  identity : O.identityKey h'.account = O.identityKey h.account

theorem SameNode.durable {h h' : DirectMessageHandler O} (hn : SameNode h h') (file : O.Account) :
    h'.restoredAccount file = h.restoredAccount file := by
  unfold restoredAccount
  rw [hn.olmPickle, hn.localDid]

/-- The router has taken the first message of `d`, and `d`'s key with it. -/
theorem Keys.take_first (hw : Keys S w) (hidle : w.stage = .idle) (hl : (d, k) ∈ w.led) (hnew : ¬ w.Heard d)
    {h : DirectMessageHandler O} (hn : SameNode w.node h)
    (hacc : ∀ j, S.holds h.account j ↔ S.holds w.node.account j ∧ j ≠ k) {o : OpenedDm}
    (ho : o.sent.message.senderDid = d) {net : List SentDm} :
    Keys S { w with node := h, stage := .generate, net := net, opened := o :: w.opened } := by
  have hpool : pool S { w with node := h, stage := .generate, net := net, opened := o :: w.opened } =
      { w.pool S with live := {j | S.holds h.account j}, used := insert d (w.pool S).used } := by
    unfold pool
    congr 1
    · ext j
      show S.holds (h.restoredAccount w.identityFile) j ↔ _
      rw [hn.durable]
      rfl
    · ext d'
      constructor
      · rintro ⟨o', ho', rfl⟩
        rcases List.mem_cons.1 ho' with rfl | ho'
        · exact Or.inl ho
        · exact Or.inr ⟨o', ho', rfl⟩
      · rintro (rfl | ⟨o', ho', hd'⟩)
        · exact ⟨o, List.mem_cons_self, ho⟩
        · exact ⟨o', List.mem_cons_of_mem _ ho', hd'⟩
  have hunsaved : ¬ w.stage.unsaved = true := by simp [hidle, KeyStage.unsaved]
  refine ⟨?_, hw.shown_minted, hw.led_minted, by simp [KeyStage.keys], hw.led_shown, by simp [KeyStage.keys],
    by simp [KeyStage.keys], by simp [KeyStage.keys], by simp, by simp, ?_, ?_⟩
  · rw [hpool]
    have huse := hw.safe.use hl ⟨hnew, Set.notMem_empty d⟩ {j | S.holds h.account j}
      fun j hj hne => (hacc j).2 ⟨hj, hne⟩
    exact huse.weaken (fun _ => rfl) fun hu => (hunsaved hu).elim
  · intro _
    have := hw.stored (by simp [hidle])
    rwa [← hn.olmPickle, ← hn.localDid] at this
  · intro l hl
    rw [hn.localDid, hn.identity]
    exact hw.answer l hl

/-- The keys of the account are as they were, and the disk is as good. -/
theorem Keys.keep (hw : Keys S w) {h : DirectMessageHandler O} (file : O.Account)
    (hid : O.identityKey h.account = O.identityKey w.node.account) (hl : h.localDid = w.node.localDid)
    (hlive : ∀ j, S.holds w.node.account j → S.holds h.account j)
    (hsaved : ∀ j, S.holds w.node.account j → S.holds w.durable j → S.holds (h.restoredAccount file) j)
    (hpick : w.stage ≠ .down → (h.olmPickle[h.localDid]?).isSome) :
    Keys S { w with node := h, identityFile := file } := by
  have hpool : pool S { w with node := h, identityFile := file } = { w.pool S with
      live := {j | S.holds h.account j}, saved := {j | S.holds (h.restoredAccount file) j} } := rfl
  refine ⟨?_, hw.shown_minted, hw.led_minted, hw.stage_minted, hw.led_shown, hw.led_stage, hw.shown_stage,
    fun j hj => hlive j (hw.stage_live j hj), ?_, hw.registering, hpick, ?_⟩
  · rw [hpool]
    exact hw.safe.grow hlive hsaved
  · intro keys a hs j hj
    have hj' : j ∈ w.stage.keys := by
      rw [hs]
      exact hj
    exact hsaved j (hw.stage_live j hj') (hw.stage_saved keys a hs j hj)
  · intro l hl'
    rw [hl, hid]
    exact hw.answer l hl'

/-- The node's thread moves on with no keys in hand. -/
theorem Keys.move (hw : Keys S w) {s : KeyStage O} (hspent : w.stage.spent = true → s.spent = true)
    (hunsaved : w.stage.unsaved = true → s.unsaved = true) (hkeys : s.keys = [])
    (hreg : ∀ keys a, s ≠ .register keys a) (hdown : w.stage ≠ .down) : Keys S { w with stage := s } := by
  refine ⟨hw.safe.weaken hspent hunsaved, hw.shown_minted, hw.led_minted, by simp [hkeys], hw.led_shown,
    by simp [hkeys], by simp [hkeys], by simp [hkeys], ?_, ?_, fun _ => hw.stored hdown, hw.answer⟩
  · intro keys a hs
    exact (hreg keys a hs).elim
  · intro keys a hs
    exact (hreg keys a hs).elim

theorem Keys.receive (J : SameIdentity O) (hw : Keys S w) {m : DirectMessage}
    (hm : w.node.OpensNone m) : Keys S (w.receive W env m) := by
  unfold ContactWorld.receive
  split
  swap
  · exact hw
  rename_i hidle
  obtain ⟨hacc, hid, hl, hpick, -⟩ := hm.receive (S := S.toOneTimeKeys) J W env
  have hn : SameNode w.node (w.node.receiveMessage W env m).2 := ⟨hl, hpick, hid⟩
  have hk : Keys S { w with node := (w.node.receiveMessage W env m).2 } := by
    refine hw.keep w.identityFile hid hl (fun j hj => (hacc j).2 hj) (fun j _ hj => ?_) fun hs => ?_
    · rw [hn.durable]
      exact hj
    · rw [hpick, hl]
      exact hw.stored hs
  have hmove {s : KeyStage O} (hs : s = .generate ∨ s = .idle) :
      Keys S { w with node := (w.node.receiveMessage W env m).2, stage := s } := by
    refine hk.move (s := s) ?_ ?_ ?_ ?_ ?_
    · simp [hidle, KeyStage.spent]
    · simp [hidle, KeyStage.unsaved]
    · rcases hs with rfl | rfl <;> rfl
    · rcases hs with rfl | rfl <;> simp
    · simp [hidle]
  unfold ContactWorld.take
  refine hmove ?_
  split
  · split_ifs
    · exact Or.inl rfl
    · exact Or.inr rfl
  · exact Or.inr rfl

theorem persistAccount_get {h : DirectMessageHandler O}
    (hf : env.faults "olm_account_pickle" h.localDid = false) :
    (h.persistAccount env).olmPickle[h.localDid]? = some h.account := by
  simp [persistAccount, treeInsert, hf]

/-- Storing the account: its keys are on disk, or the disk is as it was. -/
theorem persistAccount_restored (h : DirectMessageHandler O) (env : Env) (file : O.Account) :
    (h.persistAccount env).restoredAccount file = h.account ∨
      (h.persistAccount env).restoredAccount file = h.restoredAccount file := by
  by_cases hf : env.faults "olm_account_pickle" h.localDid = true
  · right
    simp [restoredAccount, persistAccount, treeInsert, hf]
  · left
    have := persistAccount_get (h := h) (by simpa using hf)
    unfold restoredAccount
    rw [show (h.persistAccount env).localDid = h.localDid from rfl, this]
    rfl

theorem persistAccount_stored {h : DirectMessageHandler O} (hs : (h.olmPickle[h.localDid]?).isSome) :
    ((h.persistAccount env).olmPickle[h.localDid]?).isSome := by
  by_cases hf : env.faults "olm_account_pickle" h.localDid = true
  · simpa [persistAccount, treeInsert, hf] using hs
  · rw [persistAccount_get (by simpa using hf)]
    rfl

theorem Keys.rotate (J : SameIdentity O) (hw : Keys S w) : Keys S (w.rotate env) := by
  unfold ContactWorld.rotate
  split
  · exact hw
  have hlive (j : CurveKey) (hj : S.holds w.node.account j) : S.holds (w.node.rotateFallbackKey env).account j := by
    show S.holds (O.markKeysAsPublished (O.generateFallbackKey env.rng (O.forgetFallbackKey w.node.account))) j
    rwa [S.mark, S.fallback, S.forget]
  refine hw.keep w.identityFile ?_ rfl hlive ?_ fun hs => persistAccount_stored (hw.stored hs)
  · show O.identityKey (O.markKeysAsPublished (O.generateFallbackKey env.rng
      (O.forgetFallbackKey w.node.account))) = _
    rw [J.mark, J.fallback, J.forget]
  · intro j hj hd
    unfold rotateFallbackKey
    rcases persistAccount_restored _ env w.identityFile with heq | heq
    · rw [heq]
      exact hlive j hj
    · rw [heq]
      exact hd

theorem Keys.refill (J : SameIdentity O) (hw : Keys S w) {reached : Bool}
    (hfresh : w.FreshDraws (.refill env reached)) (hg : w.Careful (.refill env reached)) :
    Keys S (w.refill env reached) := by
  cases hs : w.stage with
  | down =>
    unfold ContactWorld.refill
    rw [hs]
    exact hw
  | idle =>
    unfold ContactWorld.refill
    rw [hs]
    exact hw
  | register keys pickle =>
    unfold ContactWorld.refill
    rw [hs]
    dsimp only
    have hnone := hw.registering keys pickle hs
    have hkeys (j : CurveKey) (hj : j ∈ keys) : j ∈ w.stage.keys := by
      rw [hs]
      exact hj
    -- whatever is advertised now is among the keys in hand
    have hshow {identity : IdentityHandler} (hsub : ∀ j ∈ advertised { w with identity := identity }, j ∈ keys)
        (hanswer : ∀ l, identity.localIdentity = some l → l.did = w.node.localDid ∧
          l.olmIdentityKey = (O.identityKey w.node.account).bytes) :
        Keys S { w with identity := identity, shownTo := none, stage := .saveFile pickle } := by
      have hsafe := hw.safe.replace {j | j ∈ advertised { w with identity := identity }} _
        (fun j hj => ⟨hw.stage_live j (hkeys j (hsub j hj)), Or.inl (hw.stage_saved keys pickle hs j (hsub j hj))⟩)
        id
      refine ⟨hsafe.weaken False.elim (by simp [hs, KeyStage.unsaved]), ?_, hw.led_minted,
        by simp [KeyStage.keys], ?_, by simp [KeyStage.keys], by simp [KeyStage.keys], by simp [KeyStage.keys],
        by simp, by simp, fun _ => hw.stored (by simp [hs]), hanswer⟩
      · exact fun j hj => hw.stage_minted j (hkeys j (hsub j hj))
      · exact fun d j hj hjn => (hw.led_stage d j hj (hkeys j (hsub j hjn))).elim
    cases reached with
    | false => exact hshow (by simp [advertised, hnone]) (by simp [hnone])
    | true =>
      refine hshow (fun j hj => ?_) ?_
      · simpa [advertised, IdentityHandler.setLocalIdentity] using hj
      · rintro l ⟨⟩
        exact ⟨rfl, rfl⟩
  | saveFile pickle =>
    unfold ContactWorld.refill
    rw [hs]
    have hstored := hw.stored (by simp [hs])
    have hk : Keys S { w with identityFile := if reached then pickle else w.identityFile } := by
      refine hw.keep _ rfl rfl (fun _ hj => hj) (fun j _ hd => ?_) hw.stored
      -- the store has a pickle, so the file does not matter
      obtain ⟨a, ha⟩ := Option.isSome_iff_exists.1 hstored
      unfold durable at hd
      unfold restoredAccount at hd ⊢
      rw [ha] at hd ⊢
      exact hd
    exact hk.move (s := .idle) (by simp [hs, KeyStage.spent]) (by simp [hs, KeyStage.unsaved]) rfl (by simp)
      (by simp [hs])
  | generate =>
    unfold ContactWorld.refill
    rw [hs]
    have hk : Keys S { w with
        node := { w.node with account := O.generateOneTimeKeys env.rng 10 w.node.account } } := by
      refine hw.keep w.identityFile (J.generate _ _ _) rfl (fun j hj => S.generate _ _ hj)
        (fun _ _ hd => hd) hw.stored
    exact hk.move (s := .collect) (by simp [KeyStage.spent]) (by simp [hs, KeyStage.unsaved]) rfl (by simp)
      (by simp [hs])
  | collect =>
    unfold ContactWorld.refill
    rw [hs]
    have hnew := hfresh hs
    refine ⟨hw.safe.weaken (by simp [KeyStage.spent]) (by simp [hs, KeyStage.unsaved]), ?_, ?_, ?_, hw.led_shown,
      ?_, ?_, fun j hj => S.unpublished hj, by simp, by simp, fun _ => hw.stored (by simp [hs]), hw.answer⟩
    · intro j hj
      exact List.mem_append_right _ (hw.shown_minted j hj)
    · intro d j hj
      exact List.mem_append_right _ (hw.led_minted d j hj)
    · intro j hj
      exact List.mem_append_left _ hj
    · intro d j hj hjn
      exact hnew j hjn (hw.led_minted d j hj)
    · intro j hj hjn
      exact hnew j hjn (hw.shown_minted j hj)
  | mark fresh =>
    unfold ContactWorld.refill
    rw [hs]
    have hk : Keys S { w with node := { w.node with account := O.markKeysAsPublished w.node.account } } := by
      refine hw.keep w.identityFile (J.mark _) rfl (fun j hj => (S.mark _ j).2 hj) (fun _ _ hd => hd) hw.stored
    have hkeys : w.stage.keys = fresh := by rw [hs]; rfl
    refine ⟨hk.safe.weaken (by simp [KeyStage.spent]) (by simp [hs, KeyStage.unsaved]), hk.shown_minted,
      hk.led_minted, ?_, hk.led_shown, ?_, ?_, ?_, by simp, by simp, fun _ => hk.stored (by simp [hs]), hk.answer⟩
    · exact fun j hj => hw.stage_minted j (by rw [hkeys]; exact hj)
    · exact fun d j hj hjn => hw.led_stage d j hj (by rw [hkeys]; exact hjn)
    · exact fun j hj hjn => hw.shown_stage j hj (by rw [hkeys]; exact hjn)
    · exact fun j hj => hk.stage_live j (by rw [hkeys]; exact hj)
  | advertise fresh =>
    have hreached := hg.1 fresh hs
    unfold ContactWorld.refill
    rw [hs, hreached]
    dsimp only
    have hkeys (j : CurveKey) (hj : j ∈ fresh) : j ∈ w.stage.keys := by
      rw [hs]
      exact hj
    have hsub : ∀ j ∈ advertised { w with identity := w.identity.updateOneTimeKeys (fresh.map (·.bytes)) },
        j ∈ fresh := by
      intro j hj
      unfold advertised IdentityHandler.updateOneTimeKeys at hj
      cases hl : w.identity.localIdentity with
      | none => simp [hl] at hj
      | some l => simpa [hl] using hj
    have hsafe := hw.safe.replace
      {j | j ∈ advertised { w with identity := w.identity.updateOneTimeKeys (fresh.map (·.bytes)) }} True
      (fun j hj => ⟨hw.stage_live j (hkeys j (hsub j hj)), Or.inr trivial⟩) fun _ => trivial
    refine ⟨hsafe.weaken False.elim fun _ => rfl, ?_, hw.led_minted, by simp [KeyStage.keys], ?_,
      by simp [KeyStage.keys], by simp [KeyStage.keys], by simp [KeyStage.keys], by simp, by simp,
      fun _ => hw.stored (by simp [hs]), ?_⟩
    · exact fun j hj => hw.stage_minted j (hkeys j (hsub j hj))
    · exact fun d j hj hjn => (hw.led_stage d j hj (hkeys j (hsub j hjn))).elim
    · intro l hl
      obtain ⟨l', hl', rfl⟩ := Option.map_eq_some_iff.1 hl
      exact hw.answer l' hl'
  | persist =>
    unfold ContactWorld.refill
    rw [hs]
    have hget := persistAccount_get (hg.2 hs)
    have hsaved (j : CurveKey) (hj : S.holds w.node.account j) :
        S.holds ((w.node.persistAccount env).restoredAccount w.identityFile) j := by
      unfold restoredAccount
      rw [show (w.node.persistAccount env).localDid = w.node.localDid from rfl, hget]
      exact hj
    have hsafe := hw.safe.save {j | S.holds ((w.node.persistAccount env).restoredAccount
      w.identityFile) j} hsaved
    refine ⟨hsafe.weaken (by simp [hs, KeyStage.spent]) False.elim, hw.shown_minted, hw.led_minted,
      by simp [KeyStage.keys], hw.led_shown, by simp [KeyStage.keys], by simp [KeyStage.keys],
      by simp [KeyStage.keys], by simp, by simp, fun _ => ?_, hw.answer⟩
    show ((w.node.persistAccount env).olmPickle[w.node.localDid]?).isSome
    rw [hget]
    rfl

theorem Keys.restart (hw : Keys S w) (hfresh : w.FreshDraws (.restart env)) (hg : w.Careful (.restart env)) :
    Keys S (w.restart env) := by
  have hunsaved : ¬ w.stage.unsaved = true := by
    intro h
    refine hg.1 ?_
    cases hs : w.stage <;> simp [hs, KeyStage.unsaved] at h ⊢
  have hget : (w.node.startUp env w.identityFile).2.olmPickle[w.node.localDid]? =
      some (w.node.startUp env w.identityFile).2.account := by
    show (treeInsert _ _ _ _ _).2[_]? = _
    simp [treeInsert, hg.2, startUp_account]
  have hdur : (w.node.startUp env w.identityFile).2.restoredAccount w.identityFile =
      (w.node.startUp env w.identityFile).2.account := by
    unfold restoredAccount
    rw [startUp_localDid, hget]
    rfl
  have hlive (j : CurveKey) (hj : S.holds w.durable j) :
      S.holds (w.node.startUp env w.identityFile).2.account j := startUp_holds hj
  have hkeys (j : CurveKey) (hj : j ∈ (w.node.startUp env w.identityFile).1) :
      S.holds (w.node.startUp env w.identityFile).2.account j := by
    rw [startUp_account, S.mark]
    exact S.unpublished hj
  have hsafe := (hw.safe.weaken id fun h => (hunsaved h).elim).crash
    {j | S.holds (w.node.startUp env w.identityFile).2.account j}
    {j | S.holds ((w.node.startUp env w.identityFile).2.restoredAccount w.identityFile) j} hlive
    (by rw [hdur]; exact hlive)
  have hpool : pool S (w.restart env) = { w.pool S with
      live := {j | S.holds (w.node.startUp env w.identityFile).2.account j}
      saved := {j | S.holds ((w.node.startUp env w.identityFile).2.restoredAccount w.identityFile) j}
      shown := ∅ } := by
    unfold pool
    congr 1
    ext j
    simp [advertised, ContactWorld.restart]
  have hadv : (w.restart env).advertised = [] := rfl
  refine ⟨?_, by simp [hadv], ?_, ?_, by simp [hadv], ?_, by simp [hadv], hkeys, ?_, fun _ _ _ => rfl, ?_, ?_⟩
  · rw [hpool]
    exact hsafe.weaken False.elim False.elim
  · exact fun d j hj => List.mem_append_right _ (hw.led_minted d j hj)
  · exact fun j hj => List.mem_append_left _ hj
  · exact fun d j hj hjn => hfresh j hjn (hw.led_minted d j hj)
  · rintro keys a ⟨⟩ j hj
    show S.holds ((w.node.startUp env w.identityFile).2.restoredAccount w.identityFile) j
    rw [hdur]
    exact hkeys j hj
  · intro _
    show ((w.node.startUp env w.identityFile).2.olmPickle[w.node.localDid]?).isSome
    rw [hget]
    rfl
  · rintro l ⟨⟩

/-! The messages -/

/-- A first message made with the node's identity key and its one-time key `k`. -/
def FirstMessage (S : SessionPairs O) (W : Wire) (nik : CurveKey) (m : SentDm) (k : CurveKey) : Prop :=
  ∃ p ik, O.toParts (.preKey p) = (m.message.olmMessageType, m.message.ciphertext) ∧
    S.plain (.preKey p) = W.encodeMessageContent m.content ∧ S.genuine p ∧ S.firstKeys p = ⟨ik, nik, k⟩ ∧
    m.message.senderIdentityKey = some ik.bytes

/-- Everyone who waits to be heard has sent one message, with the key he was led to. -/
structure Contacts (S : SessionPairs O) (W : Wire) (me : Did) (nik : CurveKey) (w : ContactWorld O) : Prop where
  localDid : w.node.localDid = me
  identity : O.identityKey w.node.account = nik
  file : O.identityKey w.identityFile = nik
  pickle : ∀ a, w.node.olmPickle[me]? = some a → O.identityKey a = nik
  stage : ∀ a, (∃ keys, w.stage = .register keys a) ∨ w.stage = .saveFile a → O.identityKey a = nik
  sessions : w.node.Sessions fun d _ => w.Heard d
  peerDid : ∀ d, (w.peers d).localDid = d
  greeted : ∀ d, (w.peers d).sessions[me]? = none → (w.peers d).sessionPickles[me]? = none ∧
    (∀ m ∈ w.net, m.message.senderDid ≠ d) ∧ ¬ w.Heard d
  waiting : ∀ m ∈ w.net, ¬ w.Heard m.message.senderDid
  senders : (w.net.map fun m => m.message.senderDid).Nodup
  first : ∀ m ∈ w.net, ∃ k, (m.message.senderDid, k) ∈ w.led ∧ FirstMessage S W nik m k
  answers : ∀ d f, w.answers d = some f → f.olmIdentityKey = nik.bytes ∧
    ∀ k, f.oneTimeKeys.findSome? CurveKey.ofBytes = some k → (d, k) ∈ w.led
  opened : ∀ o ∈ w.opened, o.result = .ok o.sent.content

variable {me : Did} {nik : CurveKey}

theorem mem_led {l : List (Did × CurveKey)} {e : Did × CurveKey} (key : Option CurveKey) (he : e ∈ l) :
    e ∈ match key with
      | none => l
      | some k => (d, k) :: l := by
  cases key with
  | none => exact he
  | some k => exact List.mem_cons_of_mem _ he

theorem Contacts.request (hw : Contacts S W me nik w) (hk : Keys S w) : Contacts S W me nik (w.request d) := by
  unfold ContactWorld.request
  split
  · exact hw
  rename_i found hf
  refine ⟨hw.localDid, hw.identity, hw.file, hw.pickle, hw.stage, hw.sessions, hw.peerDid, hw.greeted, hw.waiting,
    hw.senders, fun m hm => ?_, fun d' f hf' => ?_, hw.opened⟩
  · obtain ⟨k, hl, hfirst⟩ := hw.first m hm
    exact ⟨k, mem_led _ hl, hfirst⟩
  · dsimp only at hf'
    by_cases hd : d' = d
    · subst hd
      rw [Function.update_self] at hf'
      cases hf'
      refine ⟨?_, fun k hk' => ?_⟩
      · unfold IdentityHandler.resolveDid at hf
        split at hf
        · cases hf
        rename_i l hl
        split_ifs at hf
        cases hf
        rw [← hw.identity]
        exact (hk.answer l hl).2
      · simp [hk']
    · rw [Function.update_of_ne hd] at hf'
      obtain ⟨h1, h2⟩ := hw.answers d' f hf'
      exact ⟨h1, fun k hk' => mem_led _ (h2 k hk')⟩

theorem Contacts.greet (hw : Contacts S W me nik w) {c : MessageContent} :
    Contacts S W me nik (w.greet W d env c) := by
  unfold ContactWorld.greet
  split
  · exact hw
  rename_i f hf
  split_ifs with hno
  · exact hw
  obtain ⟨hik, hled⟩ := hw.answers d f hf
  rw [hw.localDid] at hno ⊢
  dsimp only
  obtain ⟨hne, hnone⟩ : d ≠ me ∧ (w.peers d).sessions[me]? = none := by simpa using hno
  obtain ⟨hdisk, hsent, hheard⟩ := hw.greeted d hnone
  have hu : (w.peers d).Unknown me := ⟨hnone, hdisk⟩
  -- a peer that is now `h`, and has sent nothing or one first message
  have hpeer {h : DirectMessageHandler O} (hl : h.localDid = d) (hs : (h.sessions[me]?).isSome)
      {net : List SentDm} (hnet : net = w.net ∨ ∃ m k, net = w.net ++ [m] ∧ m.message.senderDid = d ∧
        (d, k) ∈ w.led ∧ FirstMessage S W nik m k) :
      Contacts S W me nik { w with peers := Function.update w.peers d h, net := net } := by
    have hmem {m : SentDm} (hm : m ∈ net) : m ∈ w.net ∨ m.message.senderDid = d ∧
        ∃ k, (d, k) ∈ w.led ∧ FirstMessage S W nik m k := by
      rcases hnet with rfl | ⟨m', k, rfl, hm', hl', hf'⟩
      · exact Or.inl hm
      · rcases List.mem_append.1 hm with hm | hm
        · exact Or.inl hm
        · obtain rfl := List.mem_singleton.1 hm
          exact Or.inr ⟨hm', k, hl', hf'⟩
    refine ⟨hw.localDid, hw.identity, hw.file, hw.pickle, hw.stage, hw.sessions, fun d' => ?_, fun d' hd' => ?_,
      fun m hm => ?_, ?_, fun m hm => ?_, hw.answers, hw.opened⟩
    · dsimp only
      by_cases hd : d' = d
      · subst hd
        rwa [Function.update_self]
      · rw [Function.update_of_ne hd]
        exact hw.peerDid d'
    · dsimp only at hd'
      by_cases hd : d' = d
      · subst hd
        rw [Function.update_self] at hd'
        rw [hd'] at hs
        cases hs
      · rw [Function.update_of_ne hd] at hd'
        obtain ⟨h1, h2, h3⟩ := hw.greeted d' hd'
        refine ⟨by simpa [Function.update_of_ne hd] using h1, fun m hm => ?_, h3⟩
        rcases hmem hm with hm | ⟨hm, -⟩
        · exact h2 m hm
        · exact hm ▸ Ne.symm hd
    · rcases hmem hm with hm | ⟨hm, -⟩
      · exact hw.waiting m hm
      · exact hm ▸ hheard
    · rcases hnet with rfl | ⟨m', k, rfl, hm', -⟩
      · exact hw.senders
      · rw [List.map_append, List.nodup_append]
        refine ⟨hw.senders, by simp, ?_⟩
        intro a ha b hb
        obtain ⟨m, hm, rfl⟩ := List.mem_map.1 ha
        obtain rfl : b = d := by simpa [hm'] using hb
        exact hsent m hm
    · rcases hmem hm with hm | ⟨hm, k, hl', hf'⟩
      · exact hw.first m hm
      · exact ⟨k, hm ▸ hl', hf'⟩
  rcases (w.peers d).ensureOlmSession_eq env me (.ok f) with heq | ⟨-, f', key, otk, hf', hkey, hotk, heq⟩
  · -- without a usable key there is no session and nothing to send
    have hd : me ≠ (w.peers d).localDid := by
      rw [hw.peerDid]
      exact hne.symm
    rw [heq, sendMessage_none hd hnone]
    dsimp only
    rw [Function.update_eq_self]
    exact hw
  cases hf'
  obtain rfl : nik = key := by
    rw [hik, CurveKey.ofBytes_bytes] at hkey
    exact Option.some.inj hkey
  have hinit : ((w.peers d).initSessionIfNeeded env me nik otk).2.Knows me
    (· = O.createOutboundSession env.rng (w.peers d).account nik otk) := hu.init
  have hsame : SameKeys (w.peers d) ((w.peers d).initSessionIfNeeded env me nik otk).2 := SameKeys.init
  rw [heq]
  generalize ((w.peers d).initSessionIfNeeded env me nik otk).2 = h1 at hinit hsame
  have hl1 : h1.localDid = d := hsame.localDid.trans (hw.peerDid d)
  obtain ⟨s, hs⟩ := hinit.memory
  have hout := hinit.all.memory _ _ hs rfl
  obtain ⟨hmem, hsend⟩ := sendMessage_some (W := W) (c := c) env (by rw [hl1]; exact hne.symm) hs
  have hsame' : SameKeys h1 (h1.sendMessage W env me c).2 := SameKeys.send
  split
  · rename_i h2 heq'
    rw [heq'] at hmem hsame'
    exact hpeer (hsame'.localDid.trans hl1) (by rw [hmem]; rfl) (Or.inl rfl)
  · rename_i m h2 heq'
    rw [heq'] at hmem hsame' hsend
    refine hpeer (hsame'.localDid.trans hl1) (by rw [hmem]; rfl) (Or.inr ⟨⟨m, c⟩, otk, rfl, ?_, ?_, ?_⟩)
    · exact (hsend m rfl).2.1.trans hl1
    · exact hled otk hotk
    · obtain ⟨hi, hfresh, hkeys⟩ := S.outbound env.rng (w.peers d).account nik otk
      rw [← hout] at hi hfresh hkeys
      obtain ⟨p, hp, hgen, hfk⟩ := S.encrypt_first env.rng s (W.encodeMessageContent c) hi hfresh
      obtain ⟨-, -, hplain⟩ := S.encrypt_msg env.rng s (W.encodeMessageContent c)
      obtain ⟨hparts, -, hsender⟩ := hsend m rfl
      rw [hp] at hparts hplain
      refine ⟨p, O.identityKey (w.peers d).account, hparts, hplain, hgen, hfk.trans hkeys, ?_⟩
      rw [hsender p hp, hsame.account]

theorem sender_ne_of_mem_eraseIdx {l : List SentDm} (hl : (l.map fun m => m.message.senderDid).Nodup) {i : ℕ}
    {m m' : SentDm} (hm : l[i]? = some m) (hm' : m' ∈ l.eraseIdx i) :
    m.message.senderDid ≠ m'.message.senderDid := by
  obtain ⟨j, hj, hm'⟩ := List.mem_eraseIdx_iff_getElem?.1 hm'
  intro heq
  refine hj ((List.getElem?_inj ?_ hl).1 ?_)
  · rw [List.length_map]
    exact (List.getElem?_eq_some_iff.1 hm').1
  · rw [List.getElem?_map, List.getElem?_map, hm, hm']
    simp [heq]

/-- A first message is opened, whenever it arrives. -/
theorem Contacts.deliver (I : OlmParts O) (J : SameIdentity O)
    (hW : ∀ c, W.decodeMessageContent (W.encodeMessageContent c) = some c) (hw : Contacts S W me nik w)
    (hk : Keys S w) {i : ℕ} (hg : w.Careful (.deliver env i)) :
    Contacts S W me nik (w.deliver W env i) ∧ Keys S (w.deliver W env i) := by
  unfold ContactWorld.deliver
  split
  swap
  · exact ⟨hw, hk⟩
  rename_i m hidle hm
  have hmem : m ∈ w.net := List.mem_of_getElem? hm
  obtain ⟨k, hl, p, ik, hparts, hplain, hgen, hkeys, hik⟩ := hw.first m hmem
  have hnew := hw.waiting m hmem
  have hu : w.node.Unknown m.message.senderDid := by
    refine ⟨?_, ?_⟩
    · cases hs : w.node.sessions[m.message.senderDid]? with
      | none => rfl
      | some s => exact (hnew (hw.sessions.memory _ s hs)).elim
    · cases hs : w.node.sessionPickles[m.message.senderDid]? with
      | none => rfl
      | some s => exact (hnew (hw.sessions.disk _ s hs)).elim
  have hholds : S.holds w.node.account k := (hk.safe.kept _ k hl ⟨hnew, Set.notMem_empty _⟩).1
  obtain ⟨t, a, hin, -, hacc, hld, hpick, hok⟩ := hu.receive env (S := S) I hparts hgen
    (by rw [hkeys, hw.identity]) (by rw [hkeys]; exact hholds) (by rw [hkeys]; exact hik)
    (by rw [hplain]; exact hW _)
  have hret := receiveMessage_ok hok (hg m hm).1 (hg m hm).2
  have htype : m.message.olmMessageType = 0 := by
    rw [← I.preKeyType p, hparts]
  have hn : SameNode w.node (w.node.receiveMessage W env m.message).2 := by
    refine ⟨hld, hpick, ?_⟩
    have := J.inbound w.node.account (S.firstKeys p).sender p
    rw [hin] at this
    rw [hacc, this]
  have hheard {d : Did} (hd : w.Heard d) (o : OpenedDm) : ∃ o' ∈ o :: w.opened, o'.sent.message.senderDid = d := by
    obtain ⟨o', ho', hd⟩ := hd
    exact ⟨o', List.mem_cons_of_mem _ ho', hd⟩
  unfold ContactWorld.take
  dsimp only
  rw [hret]
  dsimp only
  rw [if_pos htype]
  refine ⟨?_, hk.take_first hidle hl hnew hn (fun j => ?_) rfl⟩
  · refine ⟨hld.trans hw.localDid, hn.identity.trans hw.identity, hw.file, ?_, by simp, ?_, hw.peerDid, ?_, ?_, ?_,
      ?_, hw.answers, ?_⟩
    · rw [show (w.node.receiveMessage W env m.message).2.olmPickle = w.node.olmPickle from hpick]
      exact hw.pickle
    · have hs0 : w.node.Sessions fun d _ => ∃ o' ∈ (⟨m, (w.node.openMessage W env m.message).1⟩ :
          OpenedDm) :: w.opened, o'.sent.message.senderDid = d :=
        ⟨fun d s hs => hheard (hw.sessions.memory d s hs) _, fun d s hs => hheard (hw.sessions.disk d s hs) _⟩
      exact hs0.receive ⟨_, List.mem_cons_self, rfl⟩ W env
    · intro d hd
      obtain ⟨h1, h2, h3⟩ := hw.greeted d hd
      refine ⟨h1, fun m' hm' => h2 m' (List.mem_of_mem_eraseIdx hm'), ?_⟩
      rintro ⟨o, ho, hod⟩
      rcases List.mem_cons.1 ho with rfl | ho
      · exact h2 m hmem hod
      · exact h3 ⟨o, ho, hod⟩
    · rintro m' hm' ⟨o, ho, hod⟩
      rcases List.mem_cons.1 ho with rfl | ho
      · exact sender_ne_of_mem_eraseIdx hw.senders hm hm' hod
      · exact hw.waiting m' (List.mem_of_mem_eraseIdx hm') ⟨o, ho, hod⟩
    · exact hw.senders.sublist ((List.eraseIdx_sublist _ _).map _)
    · exact fun m' hm' => hw.first m' (List.mem_of_mem_eraseIdx hm')
    · intro o ho
      rcases List.mem_cons.1 ho with rfl | ho
      · exact hok
      · exact hw.opened o ho
  · rw [show (w.node.receiveMessage W env m.message).2.account = a from hacc]
    have := S.inbound_uses hin j
    rwa [hkeys] at this

/-- Nothing about the messages changes but the node's own keys. -/
theorem Contacts.own (hw : Contacts S W me nik w) {h : DirectMessageHandler O} {identity : IdentityHandler}
    {file : O.Account} {stage : KeyStage O} {minted : List CurveKey} {shownTo : Option Did}
    (hl : h.localDid = w.node.localDid) (hid : O.identityKey h.account = nik) (hfile : O.identityKey file = nik)
    (hpick : ∀ a, h.olmPickle[me]? = some a → O.identityKey a = nik)
    (hstage : ∀ a, (∃ keys, stage = .register keys a) ∨ stage = .saveFile a → O.identityKey a = nik)
    (hs : h.Sessions fun d _ => w.Heard d) :
    Contacts S W me nik { w with
      node := h, identity := identity, identityFile := file, stage := stage, minted := minted,
      shownTo := shownTo } :=
  ⟨hl.trans hw.localDid, hid, hfile, hpick, hstage, hs, hw.peerDid, hw.greeted, hw.waiting, hw.senders, hw.first,
    hw.answers, hw.opened⟩

theorem Contacts.receive (J : SameIdentity O) (hw : Contacts S W me nik w) {m : DirectMessage}
    (hm : w.node.OpensNone m) : Contacts S W me nik (w.receive W env m) := by
  unfold ContactWorld.receive
  split
  swap
  · exact hw
  obtain ⟨-, hid, hl, hpick, hs⟩ := hm.receive (S := S.toOneTimeKeys) J W env
  unfold ContactWorld.take
  refine hw.own hl (hid.trans hw.identity) hw.file (by rw [hpick]; exact hw.pickle) ?_ (hs _ hw.sessions)
  intro a ha
  split at ha
  · split_ifs at ha <;> simp at ha
  · simp at ha

theorem persistAccount_pickle {h : DirectMessageHandler O} {a : O.Account}
    (ha : (h.persistAccount env).olmPickle[h.localDid]? = some a) :
    a = h.account ∨ h.olmPickle[h.localDid]? = some a := by
  rcases get_treeInsert_some ha with ⟨-, rfl⟩ | hold
  · exact Or.inl rfl
  · exact Or.inr hold

/-- An account with the node's identity, stored or not. -/
theorem Contacts.persist (hw : Contacts S W me nik w) {a : O.Account} (hid : O.identityKey a = nik)
    {stage : KeyStage O} (hstage : stage = .idle ∨ stage = w.stage) :
    Contacts S W me nik { w with node := { w.node with account := a }.persistAccount env, stage := stage } := by
  refine hw.own rfl hid hw.file ?_ ?_ (hw.sessions.congr rfl rfl)
  · intro b hb
    rw [← hw.localDid] at hb
    rcases persistAccount_pickle hb with rfl | hold
    · exact hid
    · rw [hw.localDid] at hold
      exact hw.pickle b hold
  · rcases hstage with rfl | rfl
    · simp
    · exact hw.stage

theorem Contacts.refill (J : SameIdentity O) (hw : Contacts S W me nik w) {reached : Bool} :
    Contacts S W me nik (w.refill env reached) := by
  have hid := hw.identity
  unfold ContactWorld.refill
  split
  · exact hw
  · exact hw
  · rename_i keys pickle hs
    refine hw.own rfl hid hw.file hw.pickle ?_ hw.sessions
    rintro a (⟨keys', hk⟩ | hk)
    · simp at hk
    · cases hk
      exact hw.stage _ (Or.inl ⟨keys, hs⟩)
  · rename_i pickle hs
    refine hw.own rfl hid ?_ hw.pickle (by simp) hw.sessions
    split_ifs
    · exact hw.stage _ (Or.inr hs)
    · exact hw.file
  · exact hw.own rfl (by rw [J.generate]; exact hid) hw.file hw.pickle (by simp) (hw.sessions.congr rfl rfl)
  · exact hw.own rfl hid hw.file hw.pickle (by simp) hw.sessions
  · exact hw.own rfl (by rw [J.mark]; exact hid) hw.file hw.pickle (by simp) (hw.sessions.congr rfl rfl)
  · exact hw.own rfl hid hw.file hw.pickle (by simp) hw.sessions
  · exact hw.persist hid (Or.inl rfl)

theorem Contacts.rotate (J : SameIdentity O) (hw : Contacts S W me nik w) :
    Contacts S W me nik (w.rotate env) := by
  unfold ContactWorld.rotate
  split
  · exact hw
  · exact hw.persist (by rw [J.mark, J.fallback, J.forget]; exact hw.identity) (Or.inr rfl)

theorem Contacts.restart (J : SameIdentity O) (hw : Contacts S W me nik w) :
    Contacts S W me nik (w.restart env) := by
  have hid : O.identityKey (w.node.startUp env w.identityFile).2.account = nik := by
    rw [startUp_identity J]
    unfold restoredAccount
    rw [hw.localDid]
    cases ha : w.node.olmPickle[me]? with
    | none => exact hw.file
    | some a => exact hw.pickle a ha
  refine hw.own rfl hid hw.file ?_ ?_ hw.sessions.startUp
  · intro a ha
    rw [← hw.localDid] at ha
    rcases startUp_olmPickle ha with rfl | hold
    · exact hid
    · rw [hw.localDid] at hold
      exact hw.pickle a hold
  · rintro a (⟨keys, hk⟩ | hk)
    · cases hk
      exact hid
    · cases hk

/-- Every first message that was taken was opened, and no two requesters were led to one key. -/
structure FirstContact (w : ContactWorld O) : Prop where
  opened : ∀ o ∈ w.opened, o.result = .ok o.sent.content
  distinct : ∀ d d' k, (d, k) ∈ w.led → (d', k) ∈ w.led → d = d'

/-- Every key that is advertised is unused, and on disk. -/
def KeysReady (S : SessionPairs O) (w : ContactWorld O) : Prop :=
  ∀ k ∈ w.advertised, S.holds w.node.account k ∧ S.holds w.durable k

theorem greet_eq (W : Wire) (w : ContactWorld O) (d : Did) (env : Env) (c : MessageContent) :
    ∃ peers net, w.greet W d env c = { w with peers := peers, net := net } := by
  unfold ContactWorld.greet
  split
  · exact ⟨w.peers, w.net, rfl⟩
  split_ifs
  · exact ⟨w.peers, w.net, rfl⟩
  dsimp only
  split
  · exact ⟨_, w.net, rfl⟩
  · exact ⟨_, _, rfl⟩

theorem Keys.greet (hw : Keys S w) {c : MessageContent} : Keys S (w.greet W d env c) := by
  obtain ⟨peers, net, heq⟩ := greet_eq W w d env c
  rw [heq]
  exact ⟨hw.safe, hw.shown_minted, hw.led_minted, hw.stage_minted, hw.led_shown, hw.led_stage, hw.shown_stage,
    hw.stage_live, hw.stage_saved, hw.registering, hw.stored, hw.answer⟩

theorem Keys.unmet (h : w.Unmet) : Keys S w := by
  have hadv : w.advertised = [] := by
    unfold advertised
    rw [h.identity]
  refine ⟨⟨?_, ?_, ?_⟩, by simp [hadv], by simp [h.led], by simp [h.stage, KeyStage.keys], by simp [h.led],
    by simp [h.led], by simp [hadv], by simp [h.stage, KeyStage.keys], by simp [h.stage], by simp [h.stage],
    by simp [h.stage], by simp [h.identity]⟩
  · simp [pool, h.led]
  · simp [pool, h.led]
  · simp [pool, hadv]

theorem Contacts.unmet (h : w.Unmet) :
    Contacts S W w.node.localDid (O.identityKey w.node.account) w := by
  refine ⟨rfl, rfl, h.file, ?_, by simp [h.stage], ⟨by simp [h.sessions], by simp [h.pickles]⟩, h.peerDid, ?_,
    by simp [h.net], by simp [h.net], by simp [h.net], by simp [h.answers], by simp [h.opened]⟩
  · intro a ha
    have := h.account
    unfold durable restoredAccount at this
    rwa [ha] at this
  · intro d _
    refine ⟨h.peerDisk d, by simp [h.net], ?_⟩
    rintro ⟨o, ho, -⟩
    rw [h.opened] at ho
    cases ho

/-- Along every careful run first contact succeeds, and the keys are ready whenever no replenishment is
under way. -/
theorem careful_runs_meet (S : SessionPairs O) (I : OlmParts O) (J : SameIdentity O) (W : Wire)
    (hW : ∀ c, W.decodeMessageContent (W.encodeMessageContent c) = some c) (w : ContactWorld O)
    (h : StepSystem.Reach (contactSys O W) (fun w op => w.FreshDraws op ∧ w.Careful op) w) :
    FirstContact w ∧ (w.stage.refilling = false → KeysReady S w) := by
  have hinv : Keys S w ∧ ∃ me nik, Contacts S W me nik w := by
    refine h.invariant (I := fun w => Keys S w ∧ ∃ me nik, Contacts S W me nik w) ?_ ?_
    · exact fun w hs => ⟨Keys.unmet hs, _, _, Contacts.unmet hs⟩
    · rintro w op ⟨hk, me, nik, hw⟩ ⟨hfresh, hg⟩
      cases op with
      | request d => exact ⟨hk.request hg, me, nik, hw.request hk⟩
      | greet d env c => exact ⟨hk.greet, me, nik, hw.greet⟩
      | deliver env i =>
        obtain ⟨hw', hk'⟩ := hw.deliver I J hW hk hg
        exact ⟨hk', me, nik, hw'⟩
      | receive env m => exact ⟨hk.receive J hg, me, nik, hw.receive J hg⟩
      | refill env reached => exact ⟨hk.refill J hfresh hg, me, nik, hw.refill J⟩
      | rotate env => exact ⟨hk.rotate J, me, nik, hw.rotate J⟩
      | restart env => exact ⟨hk.restart hfresh hg, me, nik, hw.restart J⟩
  obtain ⟨hk, me, nik, hw⟩ := hinv
  refine ⟨⟨hw.opened, fun d d' k hd hd' => ?_⟩, fun hrest k hs => ?_⟩
  · exact hk.safe.owner d d' k hd hd' (Set.notMem_empty d) (Set.notMem_empty d')
  · obtain ⟨hspent, hunsaved⟩ := KeyStage.not_refilling hrest
    rcases hk.safe.shown k hs with ⟨hsp, -⟩ | ⟨hlive, hsaved | hun⟩
    · rw [hspent] at hsp
      cases hsp
    · exact ⟨hlive, hsaved⟩
    · rw [hunsaved] at hun
      cases hun

end ContactWorld

/-! `did:n` starts; `did:b` and `did:c` both ask for its keys, or only `did:b` does -/

namespace FirstContact
open IdealOlm ContactWorld

def newNode (d : Did) (n : ℕ) : DirectMessageHandler idealOlm :=
  ⟨d, ⟨key n, [], [], []⟩, ∅, .empty, ∅, ∅⟩

def start : ContactWorld idealOlm :=
  ⟨newNode "did:n" 0, ⟨none⟩, ⟨key 0, [], [], []⟩, .down, fun d => newNode d 1, fun _ => none, [], [], [], none, []⟩

theorem start_ok : start.Unmet := by
  refine ⟨rfl, rfl, rfl, rfl, rfl, rfl, fun _ => rfl, ?_, ?_, fun _ => rfl, rfl, rfl, rfl, rfl, rfl⟩
  · simp [start, newNode]
  · simp [start, newNode]

def calm (rng : ℕ) : Env := ⟨0, rng, "m", fun _ _ => false, true⟩

def hello : MessageContent := ⟨"hello", [], [], none, ∅⟩

def sys : StepSystem.Sys (ContactWorld idealOlm) (ContactOp idealOlm) := contactSys idealOlm idealWire

def run (es : List (ContactOp idealOlm)) : ContactWorld idealOlm := es.foldl sys.step start

def up : List (ContactOp idealOlm) := [.restart (calm 100), .refill (calm 0) true, .refill (calm 0) true]

def replenish : List (ContactOp idealOlm) :=
  [.refill (calm 200) true, .refill (calm 0) true, .refill (calm 0) true, .refill (calm 0) true,
    .refill (calm 0) true]

def crowded : ContactWorld idealOlm :=
  run (up ++ [.request "did:b", .request "did:c", .greet "did:b" (calm 1) hello, .greet "did:c" (calm 2) hello,
    .deliver (calm 3) 0] ++ replenish ++ [.deliver (calm 4) 0])

def single : ContactWorld idealOlm :=
  run (up ++ [.request "did:b", .greet "did:b" (calm 1) hello, .deliver (calm 3) 0] ++ replenish)

def drawsFresh (w : ContactWorld idealOlm) : ContactOp idealOlm → Bool
  | .restart env => (w.node.startUp env w.identityFile).1.all fun k => k ∉ w.minted
  | .refill .. =>
    match w.stage with
    | .collect => w.node.account.unpublished.all fun k => k ∉ w.minted
    | _ => true
  | _ => true

theorem freshDraws {w : ContactWorld idealOlm} {op : ContactOp idealOlm} (h : drawsFresh w op = true) :
    w.FreshDraws op := by
  cases op with
  | restart env =>
    intro k hk
    simpa using List.all_eq_true.1 h k hk
  | refill env reached =>
    intro hs k hk
    unfold drawsFresh at h
    rw [hs] at h
    simpa using List.all_eq_true.1 h k (List.mem_of_mem_filter hk)
  | _ => trivial

/-- The steps meet the guard, as far as a test can tell. -/
def fresh : ContactWorld idealOlm → List (ContactOp idealOlm) → Bool
  | _, [] => true
  | w, op :: ops => drawsFresh w op && fresh (sys.step w op) ops

theorem guarded {G : ContactWorld idealOlm → ContactOp idealOlm → Prop} {w : ContactWorld idealOlm}
    {ops : List (ContactOp idealOlm)} (h : fresh w ops = true) (hG : StepSystem.Guarded sys G w ops) :
    StepSystem.Guarded sys (fun w op => w.FreshDraws op ∧ G w op) w ops := by
  induction ops generalizing w with
  | nil => trivial
  | cons op ops ih =>
    unfold fresh at h
    rw [Bool.and_eq_true] at h
    exact ⟨⟨freshDraws h.1, hG.1⟩, ih h.2 hG.2⟩

/-- Two requesters are given one list, and take its first key: the later of their messages is lost. -/
theorem crowded_fails : ¬ ∀ w, StepSystem.Reach sys (fun w op => w.FreshDraws op) w →
    FirstContact w ∧ KeysReady sessionPairs w := by
  intro h
  have hr : StepSystem.Reach sys (fun w op => w.FreshDraws op) crowded := by
    have hg : StepSystem.Reach sys (fun w op => w.FreshDraws op ∧ True) crowded :=
      StepSystem.reach_foldl (.init start_ok) (guarded (by decide +kernel) (StepSystem.guarded_true _ _))
    exact hg.mono fun _ _ hG => hG.1
  have hlost : (crowded.opened.map fun o => o.result.toOption) = [none, some hello] := by decide +kernel
  have hopened := (h crowded hr).1.opened
  cases ho : crowded.opened with
  | nil => simp [ho] at hlost
  | cons o os =>
    have hok := hopened o (by simp [ho])
    simp [ho, hok] at hlost
    cases hlost.1

/-- One requester is heard, and the keys are replenished. -/
theorem single_meets : ∃ w, StepSystem.Reach sys (fun w op => w.FreshDraws op ∧ w.Careful op) w ∧
    w.opened.length = 1 ∧ FirstContact w ∧ KeysReady sessionPairs w := by
  have hr : StepSystem.Reach sys (fun w op => w.FreshDraws op ∧ w.Careful op) single := by
    refine StepSystem.reach_foldl (.init start_ok) (guarded (by decide +kernel) ?_)
    have hrefill (w : ContactWorld idealOlm) (n : ℕ) : w.Careful (.refill (calm n) true) :=
      ⟨fun _ _ => rfl, fun _ => rfl⟩
    refine ⟨⟨by simp [start], rfl⟩, hrefill _ _, hrefill _ _, ?_, trivial, fun _ _ => ⟨rfl, rfl⟩, hrefill _ _,
      hrefill _ _, hrefill _ _, hrefill _ _, hrefill _ _, trivial⟩
    rintro d' ⟨⟩
  have hmain := careful_runs_meet sessionPairs parts sameIdentity idealWire
    (fun c => IdealWire.contentCodec.decode_enc c) single hr
  exact ⟨single, hr, by decide +kernel, hmain.1, hmain.2 (by decide +kernel)⟩

end FirstContact
end Variance
