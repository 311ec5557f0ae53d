import Variance.Proofs.CrashConsistency
import Variance.Sanity.Holding
import Variance.Sanity.IdealMls
import Variance.Sanity.IdealOlm
import Variance.Sanity.Sessions
import Variance.Spec.Startup

/-! A start that cannot restore a group writes the snapshot without it, over the only copy; and one that cannot read the
last pickle goes on with an older one. Where every start restores what it is to restore, nothing is lost in any run. -/

namespace Variance

namespace DirectMessageHandler
variable {O : Olm} {h h' : DirectMessageHandler O} {W : Wire} {env : Env} {d : Did} {f : StartFaults} {file : O.Account}

/-! The account on disk -/

/-- The pickle that is on disk, and whose it is, are as they were. -/
structure SamePickle (h h' : DirectMessageHandler O) : Prop where
  localDid : h'.localDid = h.localDid
  olmPickle : h'.olmPickle = h.olmPickle

theorem SameKeys.pickle (hs : SameKeys h h') : SamePickle h h' := ⟨hs.localDid, hs.olmPickle⟩

theorem openMessage_pickle {m : DirectMessage} : SamePickle h (h.openMessage W env m).2 := by
  have hdecrypt {m' : O.Message} {h' : DirectMessageHandler O} {r : Except MsgError Bytes}
      (heq : h.decryptFrom env m m' = (r, h')) : SamePickle h h' := by
    have hd : (h.decryptFrom env m m').2.localDid = h.localDid ∧ (h.decryptFrom env m m').2.olmPickle = h.olmPickle :=
      decryptFrom_localDid
    rw [heq] at hd
    exact ⟨hd.1, hd.2⟩
  unfold openMessage
  split_ifs
  · split
    · exact ⟨rfl, rfl⟩
    · exact ⟨rfl, rfl⟩
  · split
    · exact ⟨rfl, rfl⟩
    · split
      · exact hdecrypt ‹_›
      · have hopened := hdecrypt ‹_›
        split
        · exact hopened
        · exact hopened

theorem receiveMessage_pickle {m : DirectMessage} : SamePickle h (h.receiveMessage W env m).2 := by
  obtain ⟨-, -, hsame⟩ := h.receiveMessage_eq W env m
  exact ⟨hsame.localDid.trans openMessage_pickle.localDid, hsame.olmPickle.trans openMessage_pickle.olmPickle⟩

theorem ensureOlmSession_pickle {found : Except String IdentityFound} :
    SamePickle h (h.ensureOlmSession env d found).2 := by
  rcases h.ensureOlmSession_eq env d found with heq | ⟨-, -, ik, otk, -, -, -, heq⟩
  · rw [heq]
    exact ⟨rfl, rfl⟩
  · rw [heq]
    exact SameKeys.init.pickle

/-- The account was written, or nothing was. -/
structure Pickled (env : Env) (h h' : DirectMessageHandler O) : Prop where
  localDid : h'.localDid = h.localDid
  written : env.faults "olm_account_pickle" h.localDid = false → h'.olmPickle[h.localDid]? = some h'.account
  unwritten : env.faults "olm_account_pickle" h.localDid = true → h'.olmPickle = h.olmPickle

theorem persistAccount_pickled (hs : SamePickle h h') : Pickled env h (h'.persistAccount env) := by
  unfold persistAccount
  refine ⟨hs.localDid, fun hf => ?_, fun hf => ?_⟩
  · rw [hs.localDid, treeInsert_ok hf]
    exact Std.ExtTreeMap.getElem?_insert_self
  · rw [hs.localDid, treeInsert_error hf]
    exact hs.olmPickle

/-! The start -/

/-- The account that a start makes of the one it has read. -/
def freshened (env : Env) (a : O.Account) : O.Account :=
  O.markKeysAsPublished (O.generateFallbackKey (env.rng + 50) (O.generateOneTimeKeys env.rng 50 a))

theorem restoreSessionsFrom_same (h : DirectMessageHandler O) (f : StartFaults) :
    SameKeys h (h.restoreSessionsFrom f) := by
  unfold restoreSessionsFrom
  split_ifs
  · exact ⟨rfl, rfl, rfl⟩
  · exact ⟨rfl, rfl, rfl⟩

theorem startWith_account : (h.startWith env f file).account = freshened env (h.startAccount f file) :=
  (restoreSessionsFrom_same _ f).account

theorem startWith_pickled : Pickled env h (h.startWith env f file) := by
  have hpersisted : Pickled env h
      ({ h with account := freshened env (h.startAccount f file), sessions := ∅ }.persistAccount env) :=
    persistAccount_pickled ⟨rfl, rfl⟩
  obtain ⟨hdid, hwritten, hunwritten⟩ := hpersisted
  have hsame := restoreSessionsFrom_same
    ({ h with account := freshened env (h.startAccount f file), sessions := ∅ }.persistAccount env) f
  refine ⟨hsame.localDid.trans hdid, fun hf => ?_, fun hf => hsame.olmPickle.trans (hunwritten hf)⟩
  have hw := hwritten hf
  rw [← hsame.olmPickle, ← hsame.account] at hw
  exact hw

/-- Nothing fails: the start as it is meant. -/
theorem startWith_noFaults : h.startWith env noStartFaults file = (h.startUp env file).2 := by
  simp [startWith, startUp, startAccount, restoreSessionsFrom, restoreSessions, noStartFaults]

/-- The keys of the account that was read are all there, where there is room for the new ones. -/
theorem freshened_holds (S : KeyStore O) {a : O.Account} (hroom : S.size a + 50 ≤ S.limit) {k : CurveKey}
    (hk : S.holds a k) : S.holds (freshened env a) k :=
  S.mark (S.fallback _ (S.generate _ _ hroom hk))

theorem freshened_identity (I : SameIdentity O) (a : O.Account) :
    O.identityKey (freshened env a) = O.identityKey a := by
  rw [freshened, I.mark, I.fallback, I.generate]

end DirectMessageHandler

namespace App
variable {M : OpenMls} {O : Olm} {a : App M O} {W : Wire} {env : Env}

open DirectMessageHandler MlsGroupHandler

theorem sendDirect_same {d : Did} {found : Except String IdentityFound} {content : MessageContent} :
    (a.sendDirect W env d found content).node.mls = a.node.mls ∧
      SamePickle a.dms (a.sendDirect W env d found content).dms := by
  have hensure : SamePickle a.handler (a.handler.ensureOlmSession env d found).2 := ensureOlmSession_pickle
  unfold sendDirect
  split
  · rename_i heq
    rw [heq] at hensure
    exact ⟨rfl, hensure.localDid, hensure.olmPickle⟩
  · rename_i h heq
    rw [heq] at hensure
    have hsend : SamePickle h (h.sendMessage W env d content).2 := SameKeys.send.pickle
    exact ⟨rfl, hsend.localDid.trans hensure.localDid, hsend.olmPickle.trans hensure.olmPickle⟩

theorem receiveDirect_keeps {m : DirectMessage} : Keeps a.node.mls (a.receiveDirect W env m).node.mls := by
  unfold receiveDirect
  split
  · exact .refl _
  · rename_i c h _
    have hkept : Keeps a.node.mls
        ((a.withHandler h).node.handleDirectContent W env m.senderDid m.id m.timestamp c).mls :=
      Node.keeps_handleDirectContent (n := (a.withHandler h).node)
    dsimp only
    split_ifs
    · exact hkept
    · exact hkept

/-- The account is written when a PreKey message has been received, and at no other. -/
theorem receiveDirect_pickled {m : DirectMessage} (hok : ∃ c, (a.handler.receiveMessage W env m).1 = .ok c)
    (ht : m.olmMessageType = 0) : Pickled env a.dms (a.receiveDirect W env m).dms := by
  have hsame : SamePickle a.handler (a.handler.receiveMessage W env m).2 := receiveMessage_pickle
  obtain ⟨c, hc⟩ := hok
  unfold receiveDirect
  generalize a.handler.receiveMessage W env m = r at hc hsame
  obtain ⟨res, h⟩ := r
  obtain rfl := hc
  dsimp only
  rw [if_pos ht]
  exact persistAccount_pickled ⟨hsame.localDid, hsame.olmPickle⟩

theorem receiveDirect_same {m : DirectMessage}
    (hno : ¬ ((∃ c, (a.handler.receiveMessage W env m).1 = .ok c) ∧ m.olmMessageType = 0)) :
    SamePickle a.dms (a.receiveDirect W env m).dms := by
  have hsame : SamePickle a.handler (a.handler.receiveMessage W env m).2 := receiveMessage_pickle
  unfold receiveDirect
  generalize a.handler.receiveMessage W env m = r at hno hsame
  obtain ⟨res, h⟩ := r
  cases res with
  | error e => exact ⟨hsame.localDid, hsame.olmPickle⟩
  | ok c =>
    have ht : ¬ m.olmMessageType = 0 := fun ht => hno ⟨⟨c, rfl⟩, ht⟩
    dsimp only
    rw [if_neg ht]
    exact ⟨hsame.localDid, hsame.olmPickle⟩

end App

namespace StartupWorld
variable {M : OpenMls} {O : Olm} {W : Wire} {blank : M.Provider} {w : StartupWorld M O} {env : Env} {f : StartFaults}
  {app : App M O} {gid : String}

open DirectMessageHandler MlsGroupHandler

/-- What is owed is in the snapshot, and in memory unless the process started without; and each store that is said to
have the last pickle has it. -/
structure Inv (w : StartupWorld M O) : Prop where
  groups : ∀ gid ∈ w.owed, ∃ s, w.snapshot = some s ∧ gid ∈ s.groupIds
  memory : w.up = true → w.bare = false → ∀ gid ∈ w.owed, gid ∈ w.app.node.mls.groups
  inStore : w.inStore = true → w.app.dms.olmPickle[w.app.dms.localDid]? = some w.lastPickle
  inFile : w.inFile = true → w.identityFile = w.lastPickle

theorem inv_installed (h : w.Installed) : w.Inv := by
  refine ⟨fun gid hg => ?_, fun hup => ?_, h.inStore, h.inFile⟩
  · rw [h.owed] at hg
    cases hs : w.snapshot with
    | none => simp [hs] at hg
    | some s => exact ⟨s, rfl, by simpa [hs] using hg⟩
  · rw [h.down] at hup
    cases hup

/-! The running process -/

/-- A step keeps a group in memory, or has taken us out of it. -/
theorem mem_or_left (W : Wire) (n : Node M) (e : ClientEvent) (hg : gid ∈ n.mls.groups) :
    gid ∈ (n.serve W e).mls.groups ∨ n.leftIn (n.serve W e) e gid = true := by
  by_cases hr : ∃ env net, e = .event (.reinitializeGroup env net gid)
  · obtain ⟨env, net, rfl⟩ := hr
    by_cases hin : gid ∈ (n.serve W (.event (.reinitializeGroup env net gid))).mls.groups
    · exact Or.inl hin
    · have hout : (n.serve W (.event (.reinitializeGroup env net gid))).mls.groups.contains gid = false :=
        Bool.eq_false_iff.2 fun hc => hin (Std.ExtTreeMap.contains_iff_mem.1 hc)
      exact Or.inr (by simp [Node.leftIn, hout])
  · obtain ⟨es, hes, hkept⟩ := Node.staysIn_serve W n fun env net heq => hr ⟨env, net, heq⟩
    refine (hkept hg).imp_right fun hout => ?_
    simp [Node.leftIn, hes, hout]

theorem Inv.serve (h : w.Inv) (e : ClientEvent) : (w.serve W e).Inv := by
  refine ⟨fun gid hg => h.groups gid (List.mem_of_mem_filter hg), fun hup hbare gid hg => ?_, h.inStore, h.inFile⟩
  have hleft := (List.mem_filter.1 hg).2
  have hold : gid ∈ w.app.node.mls.groups := h.memory hup hbare gid (List.mem_of_mem_filter hg)
  rcases mem_or_left W w.app.node e hold with hin | hout
  · exact hin
  · rw [hout] at hleft
    cases hleft

/-- Neither a group nor a pickle is touched. -/
theorem Inv.same (h : w.Inv) (hk : Keeps w.app.node.mls app.node.mls) (hp : SamePickle w.app.dms app.dms) :
    ({ w with app } : StartupWorld M O).Inv := by
  refine ⟨h.groups, fun hup hbare gid hg => hk gid (h.memory hup hbare gid hg), fun hs => ?_, h.inFile⟩
  rw [hp.localDid, hp.olmPickle]
  exact h.inStore hs

theorem Inv.pickled (h : w.Inv) (hk : Keeps w.app.node.mls app.node.mls) (hp : Pickled env w.app.dms app.dms) :
    (w.pickled env app).Inv := by
  unfold StartupWorld.pickled
  cases hf : env.faults "olm_account_pickle" app.dms.localDid with
  | true =>
    rw [hp.localDid] at hf
    exact h.same hk ⟨hp.localDid, hp.unwritten hf⟩
  | false =>
    rw [hp.localDid] at hf
    refine ⟨h.groups, fun hup hbare gid hg => hk gid (h.memory hup hbare gid hg), fun _ => ?_, fun hfile => ?_⟩
    · have hw := hp.written hf
      rw [← hp.localDid] at hw
      exact hw
    · cases hfile

theorem Inv.receiveDirect (h : w.Inv) (m : DirectMessage) : (w.receiveDirect W env m).Inv := by
  unfold StartupWorld.receiveDirect
  dsimp only
  split
  · rename_i c hc
    split_ifs with ht
    · exact h.pickled App.receiveDirect_keeps (App.receiveDirect_pickled ⟨c, hc⟩ ht)
    · exact h.same App.receiveDirect_keeps (App.receiveDirect_same fun hno => ht hno.2)
  · rename_i e he
    refine h.same App.receiveDirect_keeps (App.receiveDirect_same fun hno => ?_)
    obtain ⟨⟨c, hc⟩, -⟩ := hno
    cases he.symm.trans hc

theorem Inv.rotateFallbackKey (h : w.Inv) : (w.rotateFallbackKey env).Inv :=
  h.pickled (.refl _) (persistAccount_pickled ⟨rfl, rfl⟩)

/-! The snapshot -/

theorem mem_exportState {h : MlsGroupHandler M} : gid ∈ h.exportState.groupIds ↔ gid ∈ h.groups := by
  unfold exportState
  simp

/-- An export keeps what is owed when all of it is in memory. -/
theorem Inv.storeMlsState (h : w.Inv) (hm : env.faults "mls_state" w.app.node.localDid = false →
    ∀ gid ∈ w.owed, gid ∈ w.app.node.mls.groups) : (w.storeMlsState env).Inv := by
  unfold StartupWorld.storeMlsState
  cases hf : env.faults "mls_state" w.app.node.localDid with
  | true => exact h
  | false =>
    have hall : ∀ gid ∈ w.owed ++ w.app.node.mls.exportState.groupIds, gid ∈ w.app.node.mls.groups := by
      intro gid hg
      rcases List.mem_append.1 hg with hg | hg
      · exact hm hf gid hg
      · exact mem_exportState.1 hg
    exact ⟨fun gid hg => ⟨_, rfl, mem_exportState.2 (hall gid hg)⟩, fun _ _ => hall, h.inStore, h.inFile⟩

/-! The start -/

theorem mem_restoredMls {s : MlsStateSnapshot M} (hs : w.snapshot = some s) :
    gid ∈ (w.restoredMls blank f).groups ↔
      (f.fetchMlsState = false ∧ f.mlsSnapshot = false ∧ f.storeKeypair = false) ∧ gid ∈ s.groupIds ∧
        s.loads gid = true := by
  unfold restoredMls
  rw [hs]
  dsimp only
  split_ifs with hf hb hk
  · simp [hf]
  · simp [hb]
  · simp [hk]
  · have hget : ((⟨w.app.node.localDid, blank, ∅, ∅⟩ : MlsGroupHandler M).restoreInPlace s).groups[gid]? = _ :=
      CrashWorld.restore_get s.storage s.groupIds ∅
    rw [Std.ExtTreeMap.mem_iff_isSome_getElem?, hget, MlsStateSnapshot.loads]
    rcases M.loadGroup gid s.storage with e | _ | g
    · simp
    · simp
    · by_cases hin : gid ∈ s.groupIds <;> simp [hf, hb, hk, hin]

/-- A start restores what is owed just when all of it is in memory afterwards. -/
theorem restores_iff (blank : M.Provider) (h : w.Inv) :
    w.restores f = true ↔ ∀ gid ∈ w.owed, gid ∈ (w.restoredMls blank f).groups := by
  unfold restores
  cases hs : w.snapshot with
  | none =>
    have hnone : w.owed = [] := List.eq_nil_iff_forall_not_mem.2 fun gid hg => by
      obtain ⟨s, hsome, -⟩ := h.groups gid hg
      cases hs.symm.trans hsome
    simp [hnone]
  | some s =>
    have hlisted (gid : String) (hg : gid ∈ w.owed) : gid ∈ s.groupIds := by
      obtain ⟨s', hs', hin⟩ := h.groups gid hg
      obtain rfl := Option.some.inj (hs.symm.trans hs')
      exact hin
    simp only [Bool.or_eq_true, decide_eq_true_eq, Bool.and_eq_true, Bool.not_eq_true', List.all_eq_true]
    refine ⟨fun hr gid hg => (mem_restoredMls hs).2 ?_, fun hall => ?_⟩
    · rcases hr with hnone | ⟨⟨⟨hf, hb⟩, hk⟩, hall⟩
      · rw [hnone] at hg
        cases hg
      · exact ⟨⟨hf, hb, hk⟩, hlisted gid hg, hall gid hg⟩
    · by_cases hnone : w.owed = []
      · exact Or.inl hnone
      · obtain ⟨gid, hg⟩ := List.exists_mem_of_ne_nil w.owed hnone
        obtain ⟨⟨hf, hb, hk⟩, -, -⟩ := (mem_restoredMls hs).1 (hall gid hg)
        exact Or.inr ⟨⟨⟨hf, hb⟩, hk⟩, fun gid hg => ((mem_restoredMls hs).1 (hall gid hg)).2.2⟩

theorem restored_node (w : StartupWorld M O) (blank : M.Provider) (env : Env) (f : StartFaults) :
    (w.restored blank env f).app.node.mls = w.restoredMls blank f ∧
      (w.restored blank env f).app.node.localDid = w.app.node.localDid := by
  obtain ⟨es, hn, -⟩ := CrashWorld.resubscribe_spec { w.app.node with mls := w.restoredMls blank f }
  unfold restored
  rw [hn]
  exact ⟨rfl, rfl⟩

/-- Until the export nothing is lost. -/
theorem Inv.restored (h : w.Inv) : (w.restored blank env f).Inv := by
  have hp : Pickled env w.app.handler (w.app.handler.startWith env f w.identityFile) := startWith_pickled
  refine ⟨h.groups, fun _ hbare gid hg => ?_, fun hs => ?_, fun hf => ?_⟩
  · have hr : w.restores f = true := by simpa [StartupWorld.restored] using hbare
    rw [(restored_node w blank env f).1]
    exact (restores_iff blank h).1 hr gid hg
  · unfold StartupWorld.restored at hs ⊢
    dsimp only at hs ⊢
    generalize w.app.handler.startWith env f w.identityFile = dms at hp hs ⊢
    rw [hp.localDid] at hs ⊢
    cases hw : env.faults "olm_account_pickle" w.app.handler.localDid with
    | false => simpa [hw] using hp.written hw
    | true =>
      have hkept : f.saveIdentity = true ∧ w.inStore = true := by simpa [hw] using hs
      have hstore : w.app.handler.olmPickle[w.app.handler.localDid]? = some w.lastPickle := h.inStore hkept.2
      simpa [hw, hkept, hp.unwritten hw] using hstore
  · unfold StartupWorld.restored at hf ⊢
    dsimp only at hf ⊢
    cases hs : f.saveIdentity with
    | false => simp
    | true =>
      have hkept : env.faults "olm_account_pickle" (w.app.handler.startWith env f w.identityFile).localDid = true ∧
          w.inFile = true := by simpa [hs] using hf
      simpa [hkept] using h.inFile hkept.2

/-- The export that a registration makes. -/
theorem Inv.register (h : w.Inv) (hm : announces w.app.node.mls env = true →
    env.faults "mls_state" w.app.node.localDid = false → ∀ gid ∈ w.owed, gid ∈ w.app.node.mls.groups) :
    (w.register env).Inv := by
  have hsame : ({ w with app := { w.app with node := { w.app.node with
      mls := (w.app.node.mls.generateKeyPackage env.rng).2 } } } : StartupWorld M O).Inv :=
    h.same (.refl _) ⟨rfl, rfl⟩
  unfold StartupWorld.register
  dsimp only
  split_ifs with ha
  · exact hsame.storeMlsState (hm ha)
  · exact hsame

theorem Inv.restart (h : w.Inv) (hc : f.accountPickle = true ∨ w.restores f = true ∨ w.exports blank env f = false) :
    (w.restart blank env f).Inv := by
  unfold StartupWorld.restart
  split_ifs with hf
  · exact ⟨h.groups, fun hup => (nomatch hup), h.inStore, h.inFile⟩
  · refine h.restored.register fun ha hstore gid hg => ?_
    rw [(restored_node w blank env f).1] at ha ⊢
    rw [(restored_node w blank env f).2] at hstore
    rcases hc with hbad | hr | hno
    · exact absurd hbad hf
    · exact (restores_iff blank h).1 hr gid hg
    · rw [exports, ha, hstore] at hno
      cases hno

/-- What a start that writes leaves behind. -/
theorem restart_written (hf : f.accountPickle = false) (hexp : w.exports blank env f = true) :
    ∃ mls : MlsGroupHandler M, mls.groups = (w.restoredMls blank f).groups ∧
      (w.restart blank env f).snapshot = some mls.exportState ∧
        (w.restart blank env f).owed = w.owed ++ mls.exportState.groupIds := by
  obtain ⟨hmls, hdid⟩ := restored_node w blank env f
  obtain ⟨ha, hstore⟩ : announces (w.restoredMls blank f) env = true ∧
      env.faults "mls_state" w.app.node.localDid = false := by simpa [exports] using hexp
  rw [← hmls] at ha ⊢
  rw [← hdid] at hstore
  refine ⟨((w.restored blank env f).app.node.mls.generateKeyPackage env.rng).2, rfl, ?_⟩
  rw [StartupWorld.restart, if_neg (by simp [hf]), StartupWorld.register]
  dsimp only
  rw [if_pos ha, storeMlsState, if_neg (by simp [hstore])]
  exact ⟨rfl, rfl⟩

/-- A start keeps the groups just when it does not both miss one and write. -/
theorem restart_groups_iff (h : w.Inv) :
    (∀ gid ∈ (w.restart blank env f).owed, ∃ s, (w.restart blank env f).snapshot = some s ∧ gid ∈ s.groupIds) ↔
      f.accountPickle = true ∨ w.restores f = true ∨ w.exports blank env f = false := by
  refine ⟨fun hkept => ?_, fun hc => (h.restart hc).groups⟩
  cases hf : f.accountPickle with
  | true => exact Or.inl rfl
  | false =>
    right
    cases hexp : w.exports blank env f with
    | false => exact Or.inr rfl
    | true =>
      left
      obtain ⟨mls, hgroups, hsnapshot, howed⟩ := restart_written hf hexp
      refine (restores_iff blank h).2 fun gid hg => ?_
      obtain ⟨s, hs, hin⟩ := hkept gid (by rw [howed]; exact List.mem_append_left _ hg)
      obtain rfl := Option.some.inj (hsnapshot.symm.trans hs)
      rw [← hgroups]
      exact mem_exportState.1 hin

/-! Every step -/

theorem Inv.step (S : KeyStore O) (h : w.Inv) {e : StartupEvent} (hc : Careful blank S w e) :
    (w.step W blank e).Inv := by
  cases e with
  | restart env f =>
    refine h.restart ?_
    rcases hc with hbad | ⟨hr, -⟩
    · exact Or.inl hbad
    · exact Or.inr hr
  | serve e =>
    change Inv (if w.up then w.serve W e else w)
    split_ifs
    · exact h.serve e
    · exact h
  | sendDirect env d found content =>
    change Inv (if w.up then { w with app := w.app.sendDirect W env d found content } else w)
    split_ifs
    · exact h.same (.of_eq (by rw [App.sendDirect_same.1])) App.sendDirect_same.2
    · exact h
  | receiveDirect env m =>
    change Inv (if w.up then w.receiveDirect W env m else w)
    split_ifs
    · exact h.receiveDirect m
    · exact h
  | rotateFallbackKey env =>
    change Inv (if w.up then w.rotateFallbackKey env else w)
    split_ifs
    · exact h.rotateFallbackKey
    · exact h
  | persist env =>
    change Inv (if w.up then w.storeMlsState env else w)
    split_ifs with hup
    · refine h.storeMlsState fun hstore => h.memory hup ?_
      by_contra hbare
      rw [Bool.not_eq_false] at hbare
      cases (hc hup hbare).symm.trans hstore
    · exact h

/-- The pickle that a start reads. -/
theorem startAccount_current (h : w.Inv) (hc : w.current f = true) :
    w.app.handler.startAccount f w.identityFile = w.lastPickle := by
  unfold current at hc
  unfold startAccount restoredAccount
  have hstore := h.inStore
  change (if f.loadOlmPickle then w.identityFile else w.app.dms.olmPickle[w.app.dms.localDid]?.getD w.identityFile) =
    w.lastPickle
  split_ifs with hl
  · rw [if_pos (by simp [hl])] at hc
    exact h.inFile hc
  · cases hp : w.app.dms.olmPickle[w.app.dms.localDid]? with
    | none =>
      rw [if_pos (by simp [hp])] at hc
      exact h.inFile hc
    | some a =>
      rw [if_neg (by simp [hl, hp])] at hc
      exact Option.some.inj (hp.symm.trans (h.inStore hc))

theorem register_dms : (w.register env).app.dms = w.app.dms := by
  unfold StartupWorld.register storeMlsState
  dsimp only
  split_ifs <;> rfl

theorem restart_up (hup : (w.restart blank env f).up = true) : f.accountPickle = false := by
  unfold StartupWorld.restart at hup
  split_ifs at hup with hf
  exact eq_false_of_ne_true hf

theorem restart_account (hf : f.accountPickle = false) :
    (w.restart blank env f).app.dms.account = freshened env (w.app.handler.startAccount f w.identityFile) := by
  have hdms : (w.restart blank env f).app.dms = w.app.handler.startWith env f w.identityFile := by
    rw [StartupWorld.restart, if_neg (by simp [hf]), register_dms]
    rfl
  rw [hdms, startWith_account]

theorem kept (S : KeyStore O) (I : SameIdentity O) (h : w.Inv) {e : StartupEvent} (hc : Careful blank S w e) :
    Kept W blank S w e := by
  refine ⟨(h.step S hc).groups, ?_⟩
  rintro env f rfl hup
  have hstarts : f.accountPickle = false := restart_up hup
  rcases hc with hbad | ⟨-, hcurrent, hroom⟩
  · cases hstarts.symm.trans hbad
  · have haccount : (w.restart blank env f).app.dms.account = freshened env w.lastPickle := by
      rw [restart_account hstarts, startAccount_current h hcurrent]
    rw [startAccount_current h hcurrent] at hroom
    change O.identityKey (w.restart blank env f).app.dms.account = _ ∧
      ∀ k, _ → S.holds (w.restart blank env f).app.dms.account k
    rw [haccount]
    exact ⟨freshened_identity I _, fun k hk => freshened_holds S hroom hk⟩

end StartupWorld

open StartupWorld in
/-- In a run whose starts all restore what is owed, or leave the snapshot alone, and take the last pickle, no start
loses a group or a key. -/
theorem startup_keeps {M : OpenMls} {O : Olm} (S : KeyStore O) (I : SameIdentity O) (W : Wire) (blank : M.Provider)
    {w : StartupWorld M O} (h : w.Installed) {es : List StartupEvent}
    (hg : StepSystem.Guarded (startupSys M O W blank) (Careful blank S) w es) :
    StepSystem.Guarded (startupSys M O W blank) (Kept W blank S) w es :=
  hg.imp (I := Inv) (fun _ _ hi hc => kept S I hi hc) (fun _ _ hi hc => hi.step S hc) (inv_installed h)

namespace Startup
open IdealOlm

/-- The account as the identity file has it, and as it was last written. -/
def older : Account := ⟨key 0, [], [], []⟩

def latest : Account := ⟨key 0, [key 9], [], []⟩

/-- One group in the snapshot, and a pickle newer than the identity file. -/
def stocked : StartupWorld idealMls idealOlm where
  up := false
  app := ⟨{ localDid := "did:a", mls := ⟨"did:a", ⟨[], []⟩, ∅, ∅⟩, storage := .empty, effects := [] },
    { localDid := "did:a", account := older, sessions := ∅, storage := .empty, sessionPickles := ∅
      olmPickle := (∅ : SledTree Account).insert "did:a" latest }⟩
  snapshot := some ⟨["g"], ⟨[], [⟨"g", "did:a", 0, ["did:a"], [], none, []⟩]⟩⟩
  identityFile := older
  owed := ["g"]
  lastPickle := latest
  inStore := true
  inFile := false
  bare := false

theorem installed_stocked : stocked.Installed :=
  ⟨rfl, rfl, fun _ => Std.ExtTreeMap.getElem?_insert_self, fun h => by cases h⟩

/-- Room for as many keys as the crate has. -/
def keyStore : KeyStore idealOlm where
  holds a k := k ∈ a.privates
  size a := a.privates.length
  limit := 5000
  generate _ _ _ h := List.mem_append_left _ h
  mark h := h
  fallback _ h := h

def env (rng : ℕ) : Env := ⟨0, rng, "01", noFaults, true⟩

def blank : idealMls.Provider := (⟨[], []⟩ : IdealMls.Provider)

/-- A start, an export, and another start from it. -/
theorem restarts_keep : StepSystem.Guarded (startupSys idealMls idealOlm idealWire blank)
    (StartupWorld.Kept idealWire blank keyStore) stocked
    [.restart (env 100) noStartFaults, .persist (env 200), .restart (env 300) noStartFaults] := by
  refine startup_keeps keyStore sameIdentity idealWire _ installed_stocked ⟨?_, ?_, ?_, trivial⟩
  · exact Or.inr ⟨Or.inl (by decide +kernel), by decide +kernel, by decide +kernel⟩
  · exact fun _ hbare => absurd hbare (by decide +kernel)
  · exact Or.inr ⟨Or.inl (by decide +kernel), by decide +kernel, by decide +kernel⟩

def unfetched : StartupEvent := .restart (env 100) { noStartFaults with fetchMlsState := true }

def unloaded : StartupEvent := .restart (env 100) { noStartFaults with loadOlmPickle := true }

/-- A snapshot that cannot be read is written over without its group, and a pickle that cannot be read with an older
account. -/
theorem starts_destroy : stocked.Installed ∧
    ¬ StepSystem.Guarded (startupSys idealMls idealOlm idealWire blank)
      (StartupWorld.Kept idealWire blank keyStore) stocked [unfetched] ∧
    ¬ StepSystem.Guarded (startupSys idealMls idealOlm idealWire blank)
      (StartupWorld.Kept idealWire blank keyStore) stocked [unloaded] := by
  refine ⟨installed_stocked, ?_, ?_⟩
  · rintro ⟨hkept, -⟩
    obtain ⟨s, hs, hin⟩ := hkept.groups "g" (by decide +kernel)
    have hempty : (stocked.step idealWire blank unfetched).snapshot.map (·.groupIds) = some [] := by decide +kernel
    rw [hs, Option.map_some] at hempty
    rw [Option.some.inj hempty] at hin
    cases hin
  · rintro ⟨hkept, -⟩
    obtain ⟨-, hholds⟩ := hkept.account _ _ rfl (by decide +kernel)
    have hgone : key 9 ∉ (stocked.step idealWire blank unloaded).app.dms.account.privates := by decide +kernel
    exact hgone (hholds (key 9) (List.mem_singleton_self _))

end Startup
end Variance
