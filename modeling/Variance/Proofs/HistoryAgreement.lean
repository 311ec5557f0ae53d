import Variance.Proofs.HistoryIntegrity
import Variance.Proofs.HistoryPaging
import Variance.Proofs.SessionAgreement

/-! Two who agree on their session agree on what they wrote to each other: nothing is in the one's history of the other
that is not in the other's own, and with the same content; and nothing stays away that was written. -/

namespace Variance
variable {O : Olm} {W : Wire} {env : Env}

open LocalMessageStorage

namespace DirectMessageHandler
variable {h : DirectMessageHandler O} {d : Did} {c : MessageContent} {m : DirectMessage}

theorem get_kept_direct {k : String} : (h.keepMessage env m c).2.storage.directMessages[k]? =
    if m.key = k ∧ env.faults "direct_messages" m.key = false then some m else h.storage.directMessages[k]? := by
  rw [keepMessage_directMessages, get_treeInsert]

theorem get_kept_plaintext {id : String} : (h.keepMessage env m c).2.storage.plaintext[id]? =
    if m.id = id ∧ env.faults "direct_messages" m.key = false ∧ env.faults "plaintext_cache" m.id = false then some c
    else h.storage.plaintext[id]? := by
  rw [keepMessage_storage]
  cases hf : env.faults "direct_messages" m.key with
  | true => simp
  | false =>
    rw [if_neg Bool.false_ne_true, get_treeInsert]
    simp

/-- A message that is sent is kept as any other. -/
theorem sendMessage_writes (W : Wire) (env : Env) (c : MessageContent) (hd : d ≠ h.localDid) :
    (∃ e, h.sendMessage W env d c = (.error e, h)) ∨
      ∃ m : DirectMessage, m.id = env.ulid ∧ m.senderDid = h.localDid ∧ m.recipientDid = d ∧
        (h.sendMessage W env d c).2.storage = (h.keepMessage env m c).2.storage ∧
        (h.sendMessage W env d c).1 = (h.keepMessage env m c).1.map fun _ => m := by
  unfold sendMessage
  rw [if_neg hd]
  cases hs : h.sessions[d]? with
  | none => exact Or.inl ⟨_, rfl⟩
  | some session =>
    dsimp only
    set h₁ : DirectMessageHandler O :=
      { h with sessions := h.sessions.insert d (O.encrypt env.rng session (W.encodeMessageContent c)).2 }
    set m : DirectMessage := h₁.signedMessage W env d c _ _ _
    have hstorage : (h₁.keepMessage env m c).2.storage = (h.keepMessage env m c).2.storage := by
      rw [keepMessage_storage, keepMessage_storage]
    have hresult : (h₁.keepMessage env m c).1 = (h.keepMessage env m c).1 := by
      rw [keepMessage_result, keepMessage_result]
    refine Or.inr ⟨m, rfl, rfl, rfl, ?_⟩
    rw [← hstorage, ← hresult]
    generalize h₁.keepMessage env m c = kept
    obtain ⟨r, h₂⟩ := kept
    cases r with
    | error e => exact ⟨rfl, rfl⟩
    | ok u => exact ⟨persistSession_storage, rfl⟩

/-- So is one that is received, with what it says. -/
theorem receiveMessage_writes (hok : (h.openMessage W env m).1 = .ok c) :
    (h.receiveMessage W env m).2.storage = (h.keepMessage env m c).2.storage := by
  have hstorage : (h.openMessage W env m).2.storage = h.storage := openMessage_storage
  unfold receiveMessage
  generalize h.openMessage W env m = opened at hok hstorage
  obtain ⟨r, h₁⟩ := opened
  dsimp only at hok hstorage
  subst hok
  dsimp only
  rw [keepMessage_storage, keepMessage_storage, hstorage]

end DirectMessageHandler

namespace PeerPair
open DirectMessageHandler
variable {did : Bool → Did} {w w' : PeerPair O} {x y : Bool} {m m' : DirectMessage} {c : MessageContent} {id : String}

theorem eq_or_eq_not (x y : Bool) : y = x ∨ y = !x := by
  cases x <;> cases y <;> simp

theorem sent_ne (hd : did false ≠ did true) (h : m.Sent did x) (h' : m'.Sent did (!x)) : m' ≠ m := by
  rintro rfl
  have heq := h.1.symm.trans h'.1
  cases x
  · exact hd heq
  · exact hd heq.symm

/-- `x` keeps a message, and nothing else is stored. -/
structure Keeps (w w' : PeerPair O) (x : Bool) (env : Env) (m : DirectMessage) (c : MessageContent) : Prop where
  self : (w'.peer x).storage = ((w.peer x).keepMessage env m c).2.storage
  other : (w'.peer (!x)).storage = (w.peer (!x)).storage

theorem Keeps.has (h : Keeps w w' x env m c) : w'.Has x m' ↔
    m.key = m'.key ∧ env.faults "direct_messages" m.key = false ∧ m = m' ∨
      ¬ (m.key = m'.key ∧ env.faults "direct_messages" m.key = false) ∧ w.Has x m' := by
  unfold Has
  rw [h.self, get_kept_direct]
  split_ifs with hk
  · rw [Option.some.injEq]
    exact ⟨fun heq => Or.inl ⟨hk.1, hk.2, heq⟩, fun ho => ho.elim (fun hm => hm.2.2) fun hn => absurd hk hn.1⟩
  · exact ⟨fun hm => Or.inr ⟨hk, hm⟩, fun ho => ho.elim (fun hm => absurd ⟨hm.1, hm.2.1⟩ hk) And.right⟩

theorem Keeps.has_other (h : Keeps w w' x env m c) : w'.Has (!x) m' ↔ w.Has (!x) m' := by
  unfold Has
  rw [h.other]

theorem Keeps.content (h : Keeps w w' x env m c) : w'.content x id =
    if m.id = id ∧ env.faults "direct_messages" m.key = false ∧ env.faults "plaintext_cache" m.id = false then some c
    else w.content x id := by
  unfold PeerPair.content
  rw [h.self, get_kept_plaintext]

theorem Keeps.content_other (h : Keeps w w' x env m c) : w'.content (!x) id = w.content (!x) id := by
  unfold PeerPair.content
  rw [h.other]

/-- Whoever has a message now had it before, or it is the one. -/
theorem Keeps.has_cases (h : Keeps w w' x env m c) (hm' : w'.Has y m') : y = x ∧ m = m' ∨ w.Has y m' := by
  rcases eq_or_eq_not x y with rfl | rfl
  · exact (h.has.1 hm').imp (fun hf => ⟨rfl, hf.2.2⟩) And.right
  · exact Or.inr (h.has_other.1 hm')

/-- What a step stores: nothing, a message that is written and goes out if that went well, or one that comes in. -/
inductive Stores (did : Bool → Did) (w w' : PeerPair O) : PairOp O → Prop
  | none {op : PairOp O} (hst : ∀ y, (w'.peer y).storage = (w.peer y).storage) (hnet : w'.net = w.net) :
    Stores did w w' op
  | send {x : Bool} {env : Env} {c : MessageContent} {m : DirectMessage} (hk : Keeps w w' x env m c)
    (hid : m.id = env.ulid) (hs : m.Sent did x)
    (hnet : w'.net = if env.faults "direct_messages" m.key ∨ env.faults "plaintext_cache" m.id then w.net
      else Function.update w.net x (w.net x ++ [⟨m, c⟩])) : Stores did w w' (.send x env c)
  | deliver {x : Bool} {env : Env} {i : ℕ} {s : SentDm} (hs : (w.net (!x))[i]? = some s)
    (hk : Keeps w w' x env s.message s.content)
    (hnet : w'.net = Function.update w.net (!x) ((w.net (!x)).eraseIdx i)) : Stores did w w' (.deliver x env i)

theorem stores_setPeer {op : PairOp O} {h : DirectMessageHandler O} (hst : h.storage = (w.peer x).storage) :
    Stores did w (w.setPeer x h) op := by
  refine .none (fun y => ?_) rfl
  rcases eq_or_eq_not x y with rfl | rfl
  · rw [setPeer_self, hst]
  · rw [setPeer_other]

theorem stores_step {ik : Bool → CurveKey} {op : PairOp O} (hw : Steady did ik w)
    (hw' : Steady did ik (w.step W did op)) : Stores did w (w.step W did op) op := by
  cases op with
  | ensure x env found => exact stores_setPeer ensureOlmSession_storage
  | send x env c =>
    have hne : did (!x) ≠ (w.peer x).localDid := by
      rw [hw.localDid]
      exact hw.did_ne x
    show Stores did w (w.send W did x env c) _
    unfold PeerPair.send
    rcases sendMessage_writes W env c hne with ⟨e, heq⟩ | ⟨m, hid, hsender, hrecipient, hst, hres⟩
    · rw [heq]
      exact stores_setPeer rfl
    · rw [keepMessage_result] at hres
      generalize (w.peer x).sendMessage W env (did (!x)) c = sent at hst hres
      obtain ⟨r, h⟩ := sent
      dsimp only at hst hres
      subst hres
      have hs : m.Sent did x := ⟨hsender.trans (hw.localDid x), hrecipient⟩
      have hself : ((w.setPeer x h).peer x).storage = ((w.peer x).keepMessage env m c).2.storage := by
        rw [setPeer_self, hst]
      have hother : ((w.setPeer x h).peer (!x)).storage = (w.peer (!x)).storage := by
        rw [setPeer_other]
      split_ifs with hf
      · exact .send ⟨hself, hother⟩ hid hs (by rw [if_pos hf]; rfl)
      · exact .send ⟨hself, hother⟩ hid hs (by rw [if_neg hf]; rfl)
  | deliver x env i =>
    change Steady did ik (w.deliver W x env i) at hw'
    show Stores did w (w.deliver W x env i) _
    unfold PeerPair.deliver at hw' ⊢
    cases hs : (w.net (!x))[i]? with
    | none => exact .none (fun _ => rfl) rfl
    | some s =>
      rw [hs] at hw'
      have hok : ((w.peer x).openMessage W env s.message).1 = .ok s.content := hw'.opened _ List.mem_cons_self
      exact .deliver hs ⟨by simpa using receiveMessage_writes hok, by simp⟩ rfl
  | restart x env file => exact stores_setPeer rfl
  | lose x env file => exact stores_setPeer rfl

/-! What the two have of each other -/

structure Mirror (did : Bool → Did) (w : PeerPair O) : Prop where
  net : ∀ x, ∀ s ∈ w.net x, s.message.Sent did x ∧ w.Has x s.message ∧ w.content x s.message.id = some s.content
  received : ∀ x m, m.Sent did (!x) → w.Has x m → w.Has (!x) m
  content : ∀ x m c, m.Sent did (!x) → w.Has (!x) m → w.content x m.id = some c → w.content (!x) m.id = some c
  single : ∀ x y x' y' m m', m.Sent did x' → m'.Sent did y' → w.Has x m → w.Has y m' →
    m.key = m'.key ∨ m.id = m'.id → m = m'

theorem Mirror.agree (h : w.Mirror did) : w.Agree did := fun x m hs hm =>
  ⟨h.received x m hs hm, fun c hc => h.content x m c hs (h.received x m hs hm) hc⟩

/-- No message of the two has the id or the key that a new one gets. -/
theorem Numbered.fresh (hn : w.Numbered did (.send x env c)) (hid : m.id = env.ulid) (hs : m.Sent did x) {z : Bool}
    (hs' : m'.Sent did z) (hm' : w.Has y m') : m.key ≠ m'.key ∧ m.id ≠ m'.id := by
  have hkey : ∀ m'' : DirectMessage, m''.id = env.ulid → (∃ z, m''.Sent did z) →
      (w.peer y).storage.directMessages[m''.key]? = none := by
    rintro m'' hid'' ⟨z, hz⟩
    unfold DirectMessage.key
    rw [hz.1, hz.2, hid'']
    rcases eq_or_eq_not x z with rfl | rfl
    · exact (hn y).2 _
    · have hcomm : directKey (did (!x)) (did (!!x)) m''.timestamp env.ulid =
          directKey (did x) (did (!x)) m''.timestamp env.ulid := by
        unfold directKey
        rw [Bool.not_not, conversationId_comm]
      rw [hcomm]
      exact (hn y).2 _
  constructor
  · intro heq
    have hnone := hkey m hid ⟨x, hs⟩
    rw [heq] at hnone
    cases hnone.symm.trans hm'
  · intro heq
    cases (hkey m' (heq.symm.trans hid) ⟨z, hs'⟩).symm.trans hm'

/-- Nobody loses a message. -/
theorem Mirror.kept (h : w.Mirror did) {op : PairOp O} (hst : Stores did w w' op) (hn : w.Numbered did op) {z : Bool}
    (hs' : m'.Sent did z) (hm' : w.Has y m') : w'.Has y m' := by
  cases hst with
  | none hst hnet =>
    unfold Has
    rw [hst]
    exact hm'
  | @send x env c m hk hid hs hnet =>
    rcases eq_or_eq_not x y with rfl | rfl
    · exact hk.has.2 (Or.inr ⟨fun hf => (hn.fresh hid hs hs' hm').1 hf.1, hm'⟩)
    · exact hk.has_other.2 hm'
  | @deliver x env i s hs hk hnet =>
    obtain ⟨hsent, hhas, -⟩ := h.net (!x) s (List.mem_of_getElem? hs)
    rcases eq_or_eq_not x y with rfl | rfl
    · by_cases hf : s.message.key = m'.key ∧ env.faults "direct_messages" s.message.key = false
      · exact hk.has.2 (Or.inl ⟨hf.1, hf.2, h.single _ _ _ _ _ _ hsent hs' hhas hm' (Or.inl hf.1)⟩)
      · exact hk.has.2 (Or.inr ⟨hf, hm'⟩)
    · exact hk.has_other.2 hm'

/-- What the writer of a message shows for it stays, and so does what the other shows, which is the same. -/
theorem Mirror.shown (h : w.Mirror did) (hd : did false ≠ did true) {op : PairOp O} (hst : Stores did w w' op)
    (hn : w.Numbered did op) {z : Bool} (hs' : m'.Sent did z) (hm' : w.Has z m') (hc : w.content z m'.id = some c)
    (hy : w.content y m'.id = some c) : w'.content y m'.id = some c := by
  cases hst with
  | none hst hnet =>
    unfold PeerPair.content
    rw [hst]
    exact hy
  | @send x env c' m hk hid hs hnet =>
    rcases eq_or_eq_not x y with rfl | rfl
    · rw [hk.content, if_neg fun hf => (hn.fresh hid hs hs' hm').2 hf.1]
      exact hy
    · exact hk.content_other.trans hy
  | @deliver x env i s hs hk hnet =>
    obtain ⟨hsent, hhas, hcontent⟩ := h.net (!x) s (List.mem_of_getElem? hs)
    rcases eq_or_eq_not x y with rfl | rfl
    · rw [hk.content]
      split_ifs with hf
      · obtain rfl := h.single _ _ _ _ _ _ hsent hs' hhas hm' (Or.inr hf.1)
        rcases eq_or_eq_not y z with rfl | rfl
        · exact absurd rfl (sent_ne hd hs' hsent)
        · exact hcontent.symm.trans hc
      · exact hy
    · exact hk.content_other.trans hy

/-- Nothing is stored. -/
theorem Mirror.same (h : w.Mirror did) (hst : ∀ y, (w'.peer y).storage = (w.peer y).storage) (hnet : w'.net = w.net) :
    w'.Mirror did := by
  have hhas : ∀ y m, w'.Has y m ↔ w.Has y m := fun y m => by
    unfold Has
    rw [hst]
  have hcontent : ∀ y id, w'.content y id = w.content y id := fun y id => by
    unfold PeerPair.content
    rw [hst]
  refine ⟨?_, ?_, ?_, ?_⟩
  · simp only [hnet, hhas, hcontent]
    exact h.net
  · simp only [hhas]
    exact h.received
  · simp only [hhas, hcontent]
    exact h.content
  · simp only [hhas]
    exact h.single

/-- Where the one message that is stored is the only one of its key and of its id, every message stays single. -/
theorem Mirror.single_keep (h : w.Mirror did) (hk : Keeps w w' x env m c)
    (hsame : ∀ y z m', m'.Sent did z → w.Has y m' → m.key = m'.key ∨ m.id = m'.id → m = m') {y z y' z' : Bool}
    {m₁ m₂ : DirectMessage} (hs₁ : m₁.Sent did y') (hs₂ : m₂.Sent did z') (hm₁ : w'.Has y m₁) (hm₂ : w'.Has z m₂)
    (heq : m₁.key = m₂.key ∨ m₁.id = m₂.id) : m₁ = m₂ := by
  rcases hk.has_cases hm₁ with ⟨-, rfl⟩ | hm₁
  · rcases hk.has_cases hm₂ with ⟨-, rfl⟩ | hm₂
    · rfl
    · exact hsame z z' m₂ hs₂ hm₂ heq
  · rcases hk.has_cases hm₂ with ⟨-, rfl⟩ | hm₂
    · exact (hsame y y' m₁ hs₁ hm₁ (heq.imp Eq.symm Eq.symm)).symm
    · exact h.single y z y' z' m₁ m₂ hs₁ hs₂ hm₁ hm₂ heq

theorem Mirror.step (h : w.Mirror did) (hd : did false ≠ did true) {op : PairOp O} (hst : Stores did w w' op)
    (hn : w.Numbered did op) : w'.Mirror did := by
  have hkept : ∀ {y z m'}, m'.Sent did z → w.Has y m' → w'.Has y m' := h.kept hst hn
  have hshown : ∀ {s : SentDm} {z}, s ∈ w.net z → w'.content z s.message.id = some s.content := by
    intro s z hs
    obtain ⟨hs', hm', hc'⟩ := h.net z s hs
    exact h.shown hd hst hn hs' hm' hc' hc'
  cases hst with
  | none hst hnet => exact h.same hst hnet
  | @send x env c m hk hid hs hnet =>
    have hfresh : ∀ {y z m'}, m'.Sent did z → w.Has y m' → m.key ≠ m'.key ∧ m.id ≠ m'.id := hn.fresh hid hs
    refine ⟨fun y s hsnet => ?_, fun y m' hs' hm' => ?_, fun y m' c' hs' hm' hc' => ?_,
      fun y z y' z' m₁ m₂ hs₁ hs₂ hm₁ hm₂ heq => ?_⟩
    · have hmem : s ∈ w.net y ∨ y = x ∧ s = ⟨m, c⟩ ∧
          env.faults "direct_messages" m.key = false ∧ env.faults "plaintext_cache" m.id = false := by
        rw [hnet] at hsnet
        split_ifs at hsnet with hf
        · exact Or.inl hsnet
        · rw [not_or, Bool.not_eq_true, Bool.not_eq_true] at hf
          rcases eq_or_eq_not x y with rfl | rfl
          · rw [Function.update_self, List.mem_append, List.mem_singleton] at hsnet
            exact hsnet.imp_right fun heq => ⟨rfl, heq, hf⟩
          · rw [Function.update_of_ne (by simp)] at hsnet
            exact Or.inl hsnet
      rcases hmem with hmem | ⟨rfl, rfl, hdirect, hplain⟩
      · exact ⟨(h.net y s hmem).1, hkept (h.net y s hmem).1 (h.net y s hmem).2.1, hshown hmem⟩
      · exact ⟨hs, hk.has.2 (Or.inl ⟨rfl, hdirect, rfl⟩), hk.content.trans (if_pos ⟨rfl, hdirect, hplain⟩)⟩
    · rcases hk.has_cases hm' with ⟨rfl, rfl⟩ | hm'
      · exact absurd rfl (sent_ne hd hs hs')
      · exact hkept hs' (h.received y m' hs' hm')
    · rcases hk.has_cases hm' with ⟨hyx, rfl⟩ | hm'
      · obtain rfl : y = !x := by rw [← hyx, Bool.not_not]
        rw [hk.content_other, hid, (hn (!x)).1] at hc'
        cases hc'
      · have hsame : ∀ y', w'.content y' m'.id = w.content y' m'.id := by
          intro y'
          rcases eq_or_eq_not x y' with rfl | rfl
          · rw [hk.content, if_neg fun hf => (hfresh hs' hm').2 hf.1]
          · exact hk.content_other
        rw [hsame] at hc' ⊢
        exact h.content y m' c' hs' hm' hc'
    · exact h.single_keep hk (fun y z m' hs' hm' heq => absurd heq (not_or.2 (hfresh hs' hm'))) hs₁ hs₂ hm₁ hm₂ heq
  | @deliver x env i s hs hk hnet =>
    obtain ⟨hsent, hhas, hcontent⟩ := h.net (!x) s (List.mem_of_getElem? hs)
    have hsame : ∀ y z m', m'.Sent did z → w.Has y m' → s.message.key = m'.key ∨ s.message.id = m'.id →
        s.message = m' := fun y z m' hs' hm' => h.single _ _ _ _ _ m' hsent hs' hhas hm'
    refine ⟨fun y s' hsnet => ?_, fun y m' hs' hm' => ?_, fun y m' c' hs' hm' hc' => ?_,
      fun y z y' z' m₁ m₂ hs₁ hs₂ hm₁ hm₂ heq => h.single_keep hk hsame hs₁ hs₂ hm₁ hm₂ heq⟩
    · have hmem : s' ∈ w.net y := by
        rw [hnet] at hsnet
        rcases eq_or_eq_not (!x) y with rfl | rfl
        · rw [Function.update_self] at hsnet
          exact List.mem_of_mem_eraseIdx hsnet
        · rwa [Function.update_of_ne (by simp)] at hsnet
      exact ⟨(h.net y s' hmem).1, hkept (h.net y s' hmem).1 (h.net y s' hmem).2.1, hshown hmem⟩
    · rcases hk.has_cases hm' with ⟨rfl, rfl⟩ | hm'
      · exact hkept hsent hhas
      · exact hkept hs' (h.received y m' hs' hm')
    · rcases eq_or_eq_not x y with rfl | rfl
      · have hm'' : w.Has (!y) m' := hk.has_other.1 hm'
        rw [hk.content_other]
        rw [hk.content] at hc'
        split_ifs at hc' with hf
        · obtain rfl := hsame _ _ _ hs' hm'' (Or.inr hf.1)
          rw [← hc']
          exact hcontent
        · exact h.content y m' c' hs' hm'' hc'
      · rcases hk.has_cases hm' with ⟨-, rfl⟩ | hm'
        · exact absurd rfl (sent_ne hd hsent hs')
        · rw [hk.content_other] at hc'
          have hc := h.content (!x) m' c' hs' hm' hc'
          exact h.shown hd (.deliver hs hk hnet) hn hs' hm' hc hc

theorem Complete.step (h : w.Complete did) (hm : w.Mirror did) (hd : did false ≠ did true) {op : PairOp O}
    (hst : Stores did w w' op) (hn : w.Numbered did op) (hwr : Written op) : w'.Complete did := by
  have hthere : ∀ {y m'}, m'.Sent did y → w.Has y m' → (∃ s ∈ w.net y, s.message = m') ∨
      w'.Has (!y) m' ∧ ∃ c, w'.content y m'.id = some c ∧ w'.content (!y) m'.id = some c := by
    intro y m' hs' hm'
    refine (h y m' hs' hm').imp_right ?_
    rintro ⟨hm'', c, hc, hc'⟩
    exact ⟨hm.kept hst hn hs' hm'', c, hm.shown hd hst hn hs' hm' hc hc, hm.shown hd hst hn hs' hm' hc hc'⟩
  intro y m' hs' hm'
  cases hst with
  | none hst hnet =>
    unfold Has at hm'
    rw [hst] at hm'
    rw [hnet]
    exact hthere hs' hm'
  | @send x env c m hk hid hs hnet =>
    rw [if_neg (by simp [hwr _ _])] at hnet
    rw [hnet]
    rcases hk.has_cases hm' with ⟨rfl, rfl⟩ | hm'
    · exact Or.inl ⟨⟨m, c⟩, by simp, rfl⟩
    · refine (hthere hs' hm').imp_left ?_
      rintro ⟨s, hsnet, rfl⟩
      refine ⟨s, ?_, rfl⟩
      rcases eq_or_eq_not x y with rfl | rfl
      · rw [Function.update_self]
        exact List.mem_append_left _ hsnet
      · rwa [Function.update_of_ne (by simp)]
  | @deliver x env i s hs hk hnet =>
    obtain ⟨hsent, hhas, hcontent⟩ := hm.net (!x) s (List.mem_of_getElem? hs)
    rcases hk.has_cases hm' with ⟨rfl, rfl⟩ | hm'
    · exact absurd rfl (sent_ne hd hs' hsent)
    rcases hthere hs' hm' with ⟨s', hsnet, rfl⟩ | hright
    · rcases eq_or_eq_not (!x) y with rfl | rfl
      · by_cases heq : s' = s
        · subst heq
          rw [Bool.not_not]
          refine Or.inr ⟨hk.has.2 (Or.inl ⟨rfl, hwr _ _, rfl⟩), s'.content, ?_, ?_⟩
          · exact hk.content_other.trans hcontent
          · exact hk.content.trans (if_pos ⟨rfl, hwr _ _, hwr _ _⟩)
        · refine Or.inl ⟨s', ?_, rfl⟩
          rw [hnet, Function.update_self]
          exact StepSystem.mem_eraseIdx_of_ne hs hsnet heq
      · refine Or.inl ⟨s', ?_, rfl⟩
        rwa [hnet, Function.update_of_ne (by simp)]
    · exact Or.inr hright

/-! A run -/

/-- What the proof of the session's agreement says of a state, and what the two then have of each other. -/
def Joined (S : SessionPairs O) (W : Wire) (did : Bool → Did) (w : PeerPair O) : Prop :=
  (∃ ik, Steady did ik w ∧ ∃ ph, Stands S W did ik w ph) ∧ w.Mirror did

theorem joined_start {S : SessionPairs O} (hs : w.Strangers did) (hnone : ∀ x y m, m.Sent did y → ¬ w.Has x m) :
    Joined S W did w ∧ w.Complete did := by
  refine ⟨⟨⟨fun x => O.identityKey (w.peer x).account, ?_, .idle, fun x => ?_⟩, ?_⟩, ?_⟩
  · exact ⟨hs.distinct, hs.localDid, fun _ => rfl, hs.pickle, by simp [hs.opened]⟩
  · exact ⟨⟨hs.memory x, hs.disk x⟩, hs.net x⟩
  · refine ⟨fun x s hsnet => ?_, fun x m hm hx => absurd hx (hnone _ _ _ hm),
      fun x m c hm hx => absurd hx (hnone _ _ _ hm), fun x y x' y' m m' hm _ hx => absurd hx (hnone _ _ _ hm)⟩
    rw [hs.net] at hsnet
    cases hsnet
  · exact fun x m hm hx => absurd hx (hnone _ _ _ hm)

theorem joined_step {S : SessionPairs O} (I : OlmParts O) (J : SameIdentity O)
    (hW : ∀ c, W.decodeMessageContent (W.encodeMessageContent c) = some c) (h : Joined S W did w) {op : PairOp O}
    (hon : w.Honest op) (hord : w.Orderly S did op) (hn : w.Numbered did op) :
    Joined S W did (w.step W did op) ∧ (w.Complete did → Written op → (w.step W did op).Complete did) := by
  obtain ⟨⟨ik, hw, ph, hp⟩, hm⟩ := h
  obtain ⟨hw', hp'⟩ := hp.step I J hW hw hon hord
  have hst := stores_step hw hw'
  exact ⟨⟨⟨ik, hw', hp'⟩, hm.step hw.distinct hst hn⟩, fun hc hwr => hc.step hm hw.distinct hst hn hwr⟩

/-- Whatever cannot be stored: what one has of the other is what the other wrote and still has, and where the one shows
a content the other shows the same. -/
theorem histories_agree (S : SessionPairs O) (I : OlmParts O) (J : SameIdentity O) (W : Wire)
    (hW : ∀ c, W.decodeMessageContent (W.encodeMessageContent c) = some c) (did : Bool → Did) (w : PeerPair O)
    (h : StepSystem.Reach (pairHistorySys O W did)
      (fun w op => w.Honest op ∧ w.Orderly S did op ∧ w.Numbered did op) w) : w.Agree did := by
  have hinv : Joined S W did w := by
    refine h.invariant (I := Joined S W did) ?_ ?_
    · rintro w ⟨hs, hnone⟩
      exact (joined_start hs hnone).1
    · rintro w op hj ⟨hon, hord, hn⟩
      exact (joined_step I J hW hj hon hord hn).1
  exact hinv.2.agree

/-- Where all can be stored, whatever one wrote is on its way or the other has it, and both show the same: once nothing
is on its way the two have one history. -/
theorem histories_complete (S : SessionPairs O) (I : OlmParts O) (J : SameIdentity O) (W : Wire)
    (hW : ∀ c, W.decodeMessageContent (W.encodeMessageContent c) = some c) (did : Bool → Did) (w : PeerPair O)
    (h : StepSystem.Reach (pairHistorySys O W did)
      (fun w op => w.Honest op ∧ w.Orderly S did op ∧ w.Numbered did op ∧ Written op) w) : w.Complete did := by
  have hinv : Joined S W did w ∧ w.Complete did := by
    refine h.invariant (I := fun w => Joined S W did w ∧ w.Complete did) ?_ ?_
    · rintro w ⟨hs, hnone⟩
      exact joined_start hs hnone
    · rintro w op ⟨hj, hc⟩ ⟨hon, hord, hn, hwr⟩
      obtain ⟨hj', hc'⟩ := joined_step I J hW hj hon hord hn
      exact ⟨hj', hc' hc hwr⟩
  exact hinv.2

end PeerPair

/-! `did:a` greets `did:b` -/

namespace HistoryAgreement
open IdealOlm PeerPair SessionAgreement

def greeted : PeerPair idealOlm :=
  run [.ensure false (calm 1) (answer false), .send false (calm 2) hello, .deliver true (calm 3) 0]

theorem greeted_reach : StepSystem.Reach (pairHistorySys idealOlm idealWire dids)
    (fun w op => w.Honest op ∧ w.Orderly sessionPairs dids op ∧ w.Numbered dids op ∧ Written op) greeted := by
  have hstart : (pairHistorySys idealOlm idealWire dids).init start :=
    ⟨start_ok, fun x y m _ hm => by cases hm⟩
  refine StepSystem.reach_foldl (.init hstart) ⟨⟨honest rfl, ?_, trivial, trivial⟩, ⟨trivial, trivial, ?_, ?_⟩,
    ⟨trivial, trivial, trivial, ?_⟩, trivial⟩
  · rintro - f otk ⟨⟩ hotk
    obtain rfl : key 11 = otk := by simpa using hotk
    refine ⟨⟨by simp [start, newcomer], fun _ => rfl⟩, ?_⟩
    show key 11 ∈ [key 11]
    simp
  · rintro (_ | _)
    · exact ⟨rfl, fun _ => rfl⟩
    · exact ⟨rfl, fun _ => rfl⟩
  · intro tree key
    rfl
  · intro tree key
    rfl

/-- The greeting is there. -/
theorem histories_complete_greeted : greeted.Complete dids ∧ (∀ x, greeted.net x = []) ∧
    ∀ x, (greeted.peer x).storage.directMessages.size = 1 := by
  refine ⟨?_, ?_, ?_⟩
  · exact histories_complete sessionPairs parts sameIdentity idealWire (fun c => IdealWire.contentCodec.decode_enc c)
      dids greeted greeted_reach
  · decide +kernel
  · decide +kernel

theorem histories_agree_greeted : greeted.Agree dids :=
  histories_agree sessionPairs parts sameIdentity idealWire (fun c => IdealWire.contentCodec.decode_enc c) dids greeted
    (greeted_reach.mono fun _ _ h => ⟨h.1, h.2.1, h.2.2.1⟩)

end HistoryAgreement
end Variance
