import Variance.Sanity.Conversation
import Variance.Sanity.IdealOlm
import Variance.Sanity.IdealWire
import Variance.Spec.PeerPair

/-! When two peers agree on their session. The pair goes through three phases: no session, one offered by
one side, one shared by both. A session that is made or lost in any other phase breaks the pair for good. -/

namespace Variance

variable {O : Olm} {W : Wire} {env : Env}

/-- Where two peers stand: `x` has made session `sid` with the peer's key `otk`; both have session `sid`,
made by `x`. -/
inductive Phase
  | idle
  | offered (x : Bool) (sid : ℕ) (otk : CurveKey)
  | linked (x : Bool) (sid : ℕ)

namespace PeerPair
open DirectMessageHandler
variable {S : SessionPairs O} {did : Bool → Did} {ik : Bool → CurveKey} {w : PeerPair O} {x : Bool}

/-- The peer of `x` has no session with it and nothing is in flight. -/
structure Alone (did : Bool → Did) (w : PeerPair O) (x : Bool) : Prop where
  peer : (w.peer (!x)).sessions[did x]? = none
  net : ∀ y, w.net y = []

/-- A process that starts without a session has the key its peer's session was made with. -/
def KeepsKey (S : SessionPairs O) (did : Bool → Did) (w : PeerPair O) (x : Bool) (file : O.Account) : Prop :=
  ∀ s, (w.peer (!x)).sessions[did x]? = some s → (w.peer x).sessions[did (!x)]? = none →
    S.holds ((w.peer x).restoredAccount file) (S.keys s).otk

/-- A session is made, or lost, only while the peer has none and nothing is in flight. -/
def Orderly (S : SessionPairs O) (did : Bool → Did) (w : PeerPair O) : PairOp O → Prop
  | .ensure x _ found => (w.peer x).sessions[did (!x)]? = none → ∀ f otk, found = .ok f →
    f.oneTimeKeys.findSome? CurveKey.ofBytes = some otk →
      w.Alone did x ∧ S.holds (w.peer (!x)).account otk
  | .restart x _ file => KeepsKey S did w x file ∧ ((w.peer x).sessions[did (!x)]?.isSome →
    (w.peer x).sessionPickles[did (!x)]?.isSome ∨ w.Alone did x)
  | .lose x _ file => KeepsKey S did w x file ∧ ((w.peer x).sessions[did (!x)]?.isSome → w.Alone did x)
  | _ => True

/-- What never changes, and that everything received was opened. -/
structure Steady (did : Bool → Did) (ik : Bool → CurveKey) (w : PeerPair O) : Prop where
  distinct : did false ≠ did true
  localDid : ∀ x, (w.peer x).localDid = did x
  identity : ∀ x, O.identityKey (w.peer x).account = ik x
  pickle : ∀ (x : Bool) (a : O.Account), (w.peer x).olmPickle[did x]? = some a → O.identityKey a = ik x
  opened : ∀ o ∈ w.opened, o.result = .ok o.sent.content

/-- The session `sid` as the side that made it, or the other, keeps it. -/
def Side (S : SessionPairs O) (sid : ℕ) (initiator : Bool) (s : O.Session) : Prop :=
  S.sid s = sid ∧ S.initiator s = initiator

structure Opening (S : SessionPairs O) (ik : Bool → CurveKey) (x : Bool) (sid : ℕ) (otk : CurveKey)
    (s : O.Session) : Prop where
  side : Side S sid true s
  fresh : S.fresh s = true
  keys : S.keys s = ⟨ik x, ik (!x), otk⟩

/-- `x` sent the message in session `sid`. -/
structure Sealed (S : SessionPairs O) (W : Wire) (did : Bool → Did) (x : Bool) (sid : ℕ) (initiator : Bool)
    (m : SentDm) (om : O.Message) : Prop where
  parts : O.toParts om = (m.message.olmMessageType, m.message.ciphertext)
  sender : m.message.senderDid = did x
  sid : S.msgSid om = sid
  initiator : S.fromInitiator om = initiator
  plain : S.plain om = W.encodeMessageContent m.content

structure First (S : SessionPairs O) (ik : Bool → CurveKey) (x : Bool) (otk : CurveKey) (m : SentDm)
    (p : O.PreKey) : Prop where
  genuine : S.genuine p
  keys : S.firstKeys p = ⟨ik x, ik (!x), otk⟩
  sender : m.message.senderIdentityKey = some (ik x).bytes

def Stands (S : SessionPairs O) (W : Wire) (did : Bool → Did) (ik : Bool → CurveKey) (w : PeerPair O) :
    Phase → Prop
  | .idle => ∀ x, (w.peer x).Unknown (did (!x)) ∧ w.net x = []
  | .offered x sid otk => (w.peer x).Knows (did (!x)) (Opening S ik x sid otk) ∧
    (w.peer (!x)).Unknown (did x) ∧ S.holds (w.peer (!x)).account otk ∧ w.net (!x) = [] ∧
    ∀ m ∈ w.net x, ∃ p, Sealed S W did x sid true m (.preKey p) ∧ First S ik x otk m p
  | .linked x sid => ∀ y, (w.peer y).Knows (did (!y)) (Side S sid (y == x)) ∧
    ∀ m ∈ w.net y, ∃ om, Sealed S W did y sid (y == x) m om

@[simp] theorem setPeer_self {h : DirectMessageHandler O} : (w.setPeer x h).peer x = h := by
  simp [setPeer]

@[simp] theorem setPeer_other {h : DirectMessageHandler O} : (w.setPeer x h).peer (!x) = w.peer (!x) := by
  simp [setPeer]

@[simp] theorem setPeer_net {h : DirectMessageHandler O} : (w.setPeer x h).net = w.net := rfl
@[simp] theorem setPeer_opened {h : DirectMessageHandler O} : (w.setPeer x h).opened = w.opened := rfl

@[simp] theorem setPeer_eq : w.setPeer x (w.peer x) = w := by
  simp [setPeer]

theorem Steady.did_ne (hw : Steady did ik w) (x : Bool) : did (!x) ≠ did x := by
  cases x
  · exact hw.distinct.symm
  · exact hw.distinct

/-- A peer is as good as its identity, in use and on disk. -/
theorem Steady.setPeer (hw : Steady did ik w) {h : DirectMessageHandler O} (hl : h.localDid = did x)
    (hi : O.identityKey h.account = ik x)
    (hp : ∀ a, h.olmPickle[did x]? = some a → O.identityKey a = ik x) : Steady did ik (w.setPeer x h) := by
  refine ⟨hw.distinct, fun y => ?_, fun y => ?_, fun y => ?_, hw.opened⟩
  all_goals
    obtain rfl | rfl : y = x ∨ y = !x := by cases x <;> cases y <;> simp
    all_goals simp only [setPeer_self, setPeer_other]
  · exact hl
  · exact hw.localDid _
  · exact hi
  · exact hw.identity _
  · exact hp
  · exact hw.pickle _

theorem Steady.same (hw : Steady did ik w) {h : DirectMessageHandler O} (hs : SameKeys (w.peer x) h) :
    Steady did ik (w.setPeer x h) :=
  hw.setPeer (hs.localDid.trans (hw.localDid x)) (by rw [hs.account]; exact hw.identity x)
    (by rw [hs.olmPickle]; exact hw.pickle x)

/-! Each operation, phase by phase -/

/-- What one side keeps, its peer and the two queues say all there is about a phase. -/
theorem Stands.setPeer_linked {z : Bool} {sid : ℕ} (hp : Stands S W did ik w (.linked z sid))
    {h : DirectMessageHandler O} (hk : h.Knows (did (!x)) (Side S sid (x == z))) :
    Stands S W did ik (w.setPeer x h) (.linked z sid) := by
  intro y
  refine ⟨?_, by simpa using (hp y).2⟩
  obtain rfl | rfl : y = x ∨ y = !x := by cases x <;> cases y <;> simp
  · simpa using hk
  · simpa using (hp (!x)).1

theorem encrypt_side {sid : ℕ} {i : Bool} {s : O.Session} (hs : Side S sid i s) (rng : ℕ) (b : Bytes) :
    Side S sid i (O.encrypt rng s b).2 := by
  obtain ⟨h1, h2, -⟩ := S.encrypt_keeps rng s b
  exact ⟨h1.trans hs.1, h2.trans hs.2⟩

theorem decrypt_side {sid : ℕ} {i : Bool} {s : O.Session} (hs : Side S sid i s) (m : O.Message) :
    Side S sid i (O.decrypt s m).2 := by
  obtain ⟨h1, h2⟩ := S.decrypt_keeps s m
  exact ⟨h1.trans hs.1, h2.trans hs.2⟩

theorem encrypt_opening {sid : ℕ} {otk : CurveKey} {s : O.Session} (hs : Opening S ik x sid otk s) (rng : ℕ)
    (b : Bytes) : Opening S ik x sid otk (O.encrypt rng s b).2 := by
  obtain ⟨-, -, h3, h4⟩ := S.encrypt_keeps rng s b
  exact ⟨encrypt_side hs.side rng b, h3.trans hs.fresh, h4.trans hs.keys⟩

/-- What `x` sends in a session is sealed in it. -/
theorem sealed_of_ok (hw : Steady did ik w) {sid : ℕ} {i : Bool} {s : O.Session} (hs : Side S sid i s)
    (hsome : (w.peer x).sessions[did (!x)]? = some s) {c : MessageContent} {m : DirectMessage}
    (hm : ((w.peer x).sendMessage W env (did (!x)) c).1 = .ok m) :
    Sealed S W did x sid i ⟨m, c⟩ (O.encrypt env.rng s (W.encodeMessageContent c)).1 ∧
      ∀ p, (O.encrypt env.rng s (W.encodeMessageContent c)).1 = .preKey p →
        m.senderIdentityKey = some (ik x).bytes := by
  have hne : did (!x) ≠ (w.peer x).localDid := by
    rw [hw.localDid]
    exact hw.did_ne x
  obtain ⟨hparts, hsender, hik⟩ := (sendMessage_some env hne hsome).2 m hm
  obtain ⟨h1, h2, h3⟩ := S.encrypt_msg env.rng s (W.encodeMessageContent c)
  refine ⟨⟨hparts, hsender.trans (hw.localDid x), h1.trans hs.1, h2.trans hs.2, h3⟩, ?_⟩
  intro p hp
  rw [hik p hp, hw.identity]

theorem Stands.send (hw : Steady did ik w) {ph : Phase} (hp : Stands S W did ik w ph) {c : MessageContent} :
    ∃ ph', Stands S W did ik (w.send W did x env c) ph' := by
  have hne : did (!x) ≠ (w.peer x).localDid := by
    rw [hw.localDid]
    exact hw.did_ne x
  have hstay (hnone : (w.peer x).sessions[did (!x)]? = none) : w.send W did x env c = w := by
    unfold PeerPair.send
    rw [sendMessage_none hne hnone]
    exact setPeer_eq
  cases ph with
  | idle =>
    rw [hstay (hp x).1.memory]
    exact ⟨.idle, hp⟩
  | offered z sid otk =>
    obtain ⟨hk, hu, hholds, hback, hnet⟩ := hp
    obtain rfl | rfl : z = x ∨ z = !x := by cases x <;> cases z <;> simp
    swap
    · rw [Bool.not_not] at hu
      rw [hstay hu.memory]
      exact ⟨.offered (!x) sid otk, hk, by rwa [Bool.not_not], hholds, hback, hnet⟩
    obtain ⟨s, hs⟩ := hk.memory
    have hopen := hk.all.memory _ _ hs rfl
    have hk' : ((w.peer z).sendMessage W env (did (!z)) c).2.Knows (did (!z)) (Opening S ik z sid otk) :=
      hk.sendMessage hne fun s hs => encrypt_opening hs _ _
    unfold PeerPair.send
    split
    · rename_i e h' heq
      rw [heq] at hk'
      exact ⟨.offered z sid otk, by simpa using hk', by simpa using hu, by simpa using hholds, hback, hnet⟩
    · rename_i m h' heq
      rw [heq] at hk'
      refine ⟨.offered z sid otk, by simpa using hk', by simpa using hu, by simpa using hholds, ?_, ?_⟩
      · simpa using hback
      · intro m' hm'
        dsimp only at hm'
        rw [Function.update_self, List.mem_append, List.mem_singleton] at hm'
        rcases hm' with hm' | rfl
        · exact hnet m' hm'
        · obtain ⟨p, hfirst, hgen, hkeys⟩ := S.encrypt_first env.rng s (W.encodeMessageContent c)
            hopen.side.2 hopen.fresh
          obtain ⟨hsealed, hik⟩ := sealed_of_ok hw hopen.side hs (congrArg Prod.fst heq)
          exact ⟨p, by rw [← hfirst]; exact hsealed, hgen, hkeys.trans hopen.keys, hik p hfirst⟩
  | linked z sid =>
    obtain ⟨hk, hnet⟩ := hp x
    obtain ⟨s, hs⟩ := hk.memory
    have hside := hk.all.memory _ _ hs rfl
    have hk' : ((w.peer x).sendMessage W env (did (!x)) c).2.Knows (did (!x)) (Side S sid (x == z)) :=
      hk.sendMessage hne fun s hs => encrypt_side hs _ _
    unfold PeerPair.send
    split
    · rename_i heq
      rw [heq] at hk'
      exact ⟨.linked z sid, hp.setPeer_linked hk'⟩
    · rename_i m h' heq
      rw [heq] at hk'
      refine ⟨.linked z sid, fun y => ⟨(hp.setPeer_linked hk' y).1, ?_⟩⟩
      intro m' hm'
      dsimp only at hm'
      by_cases hy : y = x
      · subst hy
        rw [Function.update_self, List.mem_append, List.mem_singleton] at hm'
        rcases hm' with hm' | rfl
        · exact hnet m' hm'
        · exact ⟨_, (sealed_of_ok hw hside hs (congrArg Prod.fst heq)).1⟩
      · rw [Function.update_of_ne hy] at hm'
        exact (hp y).2 m' hm'

theorem Stands.ensure (hw : Steady did ik w) {ph : Phase} (hp : Stands S W did ik w ph)
    {found : Except String IdentityFound} (hon : w.Honest (.ensure x env found))
    (hord : w.Orderly S did (.ensure x env found)) :
    ∃ ph', Stands S W did ik (w.step W did (.ensure x env found)) ph' := by
  show ∃ ph', Stands S W did ik (w.setPeer x ((w.peer x).ensureOlmSession env (did (!x)) found).2) ph'
  rcases (w.peer x).ensureOlmSession_eq env (did (!x)) found with heq | ⟨hnone, f, key, otk, hf, hkey, hotk, heq⟩
  · rw [heq, setPeer_eq]
    exact ⟨ph, hp⟩
  obtain ⟨halone, hholds⟩ := hord hnone f otk hf hotk
  obtain rfl : O.identityKey (w.peer (!x)).account = key := by
    have := hon f hf
    rw [this, CurveKey.ofBytes_bytes] at hkey
    exact Option.some.inj hkey
  -- only the idle phase has neither side with a session
  cases ph with
  | idle =>
    rw [heq]
    have hk : ((w.peer x).initSessionIfNeeded env (did (!x)) (O.identityKey (w.peer (!x)).account) otk).2.Knows
        (did (!x)) _ := (hp x).1.init
    obtain ⟨hi, hfresh, hkeys⟩ := S.outbound env.rng (w.peer x).account
      (O.identityKey (w.peer (!x)).account) otk
    generalize O.createOutboundSession env.rng (w.peer x).account
      (O.identityKey (w.peer (!x)).account) otk = s at hk hi hfresh hkeys
    rw [hw.identity, hw.identity] at hkeys
    refine ⟨.offered x (S.sid s) otk, ?_, ?_, by simpa using hholds, (hp (!x)).2, ?_⟩
    · rw [setPeer_self]
      refine hk.mono ?_
      rintro _ rfl
      exact ⟨⟨rfl, hi⟩, hfresh, hkeys⟩
    · simpa using (hp (!x)).1
    · rw [setPeer_net, (hp x).2]
      simp
  | offered z sid k =>
    obtain ⟨hk, hu, -⟩ := hp
    obtain ⟨s, hs⟩ := hk.memory
    obtain rfl | rfl : z = x ∨ z = !x := by cases x <;> cases z <;> simp
    · rw [hs] at hnone
      cases hnone
    · have := halone.peer
      rw [Bool.not_not] at hs
      rw [this] at hs
      cases hs
  | linked z sid =>
    obtain ⟨s, hs⟩ := (hp x).1.memory
    rw [hs] at hnone
    cases hnone

/-- A process that starts with what is left of its sessions: none at all, or the one it had. -/
theorem Stands.startUp {ph : Phase} (hp : Stands S W did ik w ph) {h : DirectMessageHandler O}
    {file : O.Account} (hsess : h.sessionPickles[did (!x)]? = none ∨
      h.sessionPickles = (w.peer x).sessionPickles ∧ (h.sessionPickles[did (!x)]?).isSome)
    (hl : h.localDid = (w.peer x).localDid) (hpick : h.olmPickle = (w.peer x).olmPickle)
    (hkeep : KeepsKey S did w x file)
    (hlost : h.sessionPickles[did (!x)]? = none → (w.peer x).sessions[did (!x)]?.isSome → w.Alone did x) :
    ∃ ph', Stands S W did ik (w.setPeer x (h.startUp env file).2) ph' := by
  have hrest : h.restoredAccount file = (w.peer x).restoredAccount file := by
    unfold restoredAccount
    rw [hl, hpick]
  -- nothing is left of the pair when both sides are without a session
  have hidle (ha : w.Alone did x) (hpeer : (w.peer (!x)).sessionPickles[did x]? = none)
      (hnone : h.sessionPickles[did (!x)]? = none) :
      Stands S W did ik (w.setPeer x (h.startUp env file).2) .idle := by
    intro y
    obtain rfl | rfl : y = x ∨ y = !x := by cases x <;> cases y <;> simp
    · exact ⟨by simpa using unknown_startUp hnone, ha.net _⟩
    · exact ⟨by simpa using ⟨ha.peer, hpeer⟩, ha.net _⟩
  have hsome {P : O.Session → Prop} (hk : (w.peer x).Knows (did (!x)) P)
      (hpk : h.sessionPickles = (w.peer x).sessionPickles) (hd : (h.sessionPickles[did (!x)]?).isSome) :
      (h.startUp env file).2.Knows (did (!x)) P := by
    obtain ⟨s, hs⟩ := Option.isSome_iff_exists.1 hd
    refine ⟨⟨s, by rw [startUp_get]; exact hs⟩, fun d' s hs => ?_, fun d' s hs => ?_⟩
    · rw [startUp_get, hpk] at hs
      exact hk.all.disk d' s hs
    · rw [startUp_pickles, hpk] at hs
      exact hk.all.disk d' s hs
  cases ph with
  | idle =>
    have hnone : h.sessionPickles[did (!x)]? = none := by
      rcases hsess with hnone | ⟨hpk, hd⟩
      · exact hnone
      · rw [hpk]
        exact (hp x).1.disk
    have hpeer := hp (!x)
    rw [Bool.not_not] at hpeer
    exact ⟨.idle, hidle ⟨hpeer.1.memory, fun y => (hp y).2⟩ hpeer.1.disk hnone⟩
  | offered z sid k =>
    obtain ⟨hk, hu, hholds, hback, hnet⟩ := hp
    obtain rfl | rfl : z = x ∨ z = !x := by cases x <;> cases z <;> simp
    · rcases hsess with hnone | ⟨hpk, hd⟩
      · obtain ⟨s, hs⟩ := hk.memory
        exact ⟨.idle, hidle (hlost hnone (by simp [hs])) hu.disk hnone⟩
      · exact ⟨.offered z sid k, by simpa using hsome hk hpk hd, by simpa using hu, by simpa using hholds,
          hback, hnet⟩
    · rw [Bool.not_not] at hu hk hholds
      have hnone : h.sessionPickles[did (!x)]? = none := by
        rcases hsess with hnone | ⟨hpk, hd⟩
        · exact hnone
        · rw [hpk]
          exact hu.disk
      obtain ⟨s, hs⟩ := hk.memory
      have hkeys := (hk.all.memory _ _ hs rfl).keys
      refine ⟨.offered (!x) sid k, by simpa using hk, ?_, ?_, hback, hnet⟩
      · rw [Bool.not_not, setPeer_self]
        exact unknown_startUp hnone
      · rw [Bool.not_not, setPeer_self]
        refine startUp_holds ?_
        rw [hrest, show k = (S.keys s).otk by rw [hkeys]]
        exact hkeep s hs hu.memory
  | linked z sid =>
    obtain ⟨s, hs⟩ := (hp x).1.memory
    rcases hsess with hnone | ⟨hpk, hd⟩
    · obtain ⟨t, ht⟩ := (hp (!x)).1.memory
      have := (hlost hnone (by simp [hs])).peer
      rw [Bool.not_not, this] at ht
      cases ht
    · exact ⟨.linked z sid, hp.setPeer_linked (hsome (hp x).1 hpk hd)⟩

theorem beq_not_ne (x z : Bool) : ((!x) == z) ≠ (x == z) := by
  cases x <;> cases z <;> decide

/-- A message that is delivered is opened, and the pair stands. -/
theorem Stands.deliver (I : OlmParts O) (J : SameIdentity O)
    (hW : ∀ c, W.decodeMessageContent (W.encodeMessageContent c) = some c) (hw : Steady did ik w) {ph : Phase}
    (hp : Stands S W did ik w ph) {i : ℕ} :
    Steady did ik (w.deliver W x env i) ∧ ∃ ph', Stands S W did ik (w.deliver W x env i) ph' := by
  unfold PeerPair.deliver
  split
  · exact ⟨hw, ph, hp⟩
  rename_i m hm
  have hmem : m ∈ w.net (!x) := List.mem_of_getElem? hm
  have hsteady {h : DirectMessageHandler O} (hs : Steady did ik (w.setPeer x h))
      (hok : ((w.peer x).openMessage W env m.message).1 = .ok m.content) :
      Steady did ik { w.setPeer x h with
        net := Function.update w.net (!x) ((w.net (!x)).eraseIdx i)
        opened := ⟨m, ((w.peer x).openMessage W env m.message).1⟩ :: w.opened } := by
    refine ⟨hs.distinct, hs.localDid, hs.identity, hs.pickle, ?_⟩
    intro o ho
    rcases List.mem_cons.1 ho with rfl | ho
    · exact hok
    · exact hw.opened o ho
  have hleft {y : Bool} {m' : SentDm}
      (hm' : m' ∈ Function.update w.net (!x) ((w.net (!x)).eraseIdx i) y) : m' ∈ w.net y := by
    by_cases hy : y = !x
    · subst hy
      rw [Function.update_self] at hm'
      exact List.mem_of_mem_eraseIdx hm'
    · rwa [Function.update_of_ne hy] at hm'
  cases ph with
  | idle =>
    rw [(hp (!x)).2] at hmem
    cases hmem
  | offered z sid k =>
    obtain ⟨hk, hu, hholds, hback, hnet⟩ := hp
    obtain rfl | rfl : z = x ∨ z = !x := by cases x <;> cases z <;> simp
    · rw [hback] at hmem
      cases hmem
    -- the first message to arrive opens the session
    rw [Bool.not_not] at hu hholds hback hk
    obtain ⟨p, hsealed, hfirst⟩ := hnet m hmem
    have hu' := hu
    rw [← hsealed.sender] at hu'
    obtain ⟨t, a, hin, hknows, hacc, hl, hpick, hok⟩ := hu'.receive env I hsealed.parts
      hfirst.genuine (by rw [hfirst.keys, hw.identity, Bool.not_not]) (by rw [hfirst.keys]; exact hholds)
      (by rw [hfirst.keys]; exact hfirst.sender) (by rw [hsealed.plain]; exact hW _)
    refine ⟨hsteady (hw.setPeer ?_ ?_ ?_) hok, .linked (!x) sid, fun y => ⟨?_, fun m' hm' => ?_⟩⟩
    · rw [hl, hw.localDid]
    · have := J.inbound (w.peer x).account (S.firstKeys p).sender p
      rw [hin] at this
      rw [hacc, this, hw.identity]
    · rw [hpick]
      exact hw.pickle x
    · obtain ⟨hs1, hs2⟩ := S.inbound_pairs hin
      obtain rfl | rfl : y = x ∨ y = !x := by cases x <;> cases y <;> simp
      · simp only [setPeer_self]
        rw [hsealed.sender] at hknows
        refine hknows.mono ?_
        rintro _ rfl
        exact ⟨hs1.trans hsealed.sid, by rw [hs2]; cases y <;> rfl⟩
      · simp only [setPeer_other, Bool.not_not]
        exact hk.mono fun s hs => ⟨hs.side.1, by rw [hs.side.2]; simp⟩
    · have hm'' := hleft hm'
      obtain rfl | rfl : y = x ∨ y = !x := by cases x <;> cases y <;> simp
      · rw [hback] at hm''
        cases hm''
      · obtain ⟨p', hsealed', -⟩ := hnet m' hm''
        exact ⟨_, by simpa using hsealed'⟩
  | linked z sid =>
    obtain ⟨om, hsealed⟩ := (hp (!x)).2 m hmem
    have hk := (hp x).1
    rw [← hsealed.sender] at hk
    obtain ⟨hknows, hsame, hok⟩ := hk.receive env I hsealed.parts
      (fun s hs => decrypt_side hs om)
      (fun s hs => S.decrypt_ok (hsealed.sid.trans hs.1.symm)
        (by rw [hsealed.initiator, hs.2]; exact beq_not_ne x z))
      (by rw [hsealed.plain]; exact hW _)
    rw [hsealed.sender] at hknows
    refine ⟨hsteady (hw.same hsame) hok, .linked z sid, fun y => ⟨?_, fun m' hm' => ?_⟩⟩
    · exact (hp.setPeer_linked hknows y).1
    · exact (hp y).2 m' (hleft hm')

theorem Steady.startUp (J : SameIdentity O) (hw : Steady did ik w) {h : DirectMessageHandler O}
    {file : O.Account} (hl : h.localDid = (w.peer x).localDid) (hpick : h.olmPickle = (w.peer x).olmPickle)
    (hfile : O.identityKey file = O.identityKey (w.peer x).account) :
    Steady did ik (w.setPeer x (h.startUp env file).2) := by
  have hid : O.identityKey (h.startUp env file).2.account = ik x := by
    rw [startUp_identity J]
    unfold restoredAccount
    cases ha : h.olmPickle[h.localDid]? with
    | none => exact hfile.trans (hw.identity x)
    | some a =>
      rw [hl, hpick, hw.localDid] at ha
      exact hw.pickle x a ha
  refine hw.setPeer (hl.trans (hw.localDid x)) hid ?_
  intro a ha
  rw [← hw.localDid, ← hl] at ha
  rcases startUp_olmPickle ha with rfl | hold
  · exact hid
  · rw [hl, hpick, hw.localDid] at hold
    exact hw.pickle x a hold

theorem Steady.send (hw : Steady did ik w) {c : MessageContent} : Steady did ik (w.send W did x env c) := by
  have hsame : SameKeys (w.peer x) ((w.peer x).sendMessage W env (did (!x)) c).2 := SameKeys.send
  unfold PeerPair.send
  split
  · rename_i heq
    rw [heq] at hsame
    exact hw.same hsame
  · rename_i heq
    rw [heq] at hsame
    have hs := hw.same hsame
    exact ⟨hs.distinct, hs.localDid, hs.identity, hs.pickle, hs.opened⟩

/-- One step of an orderly run. -/
theorem Stands.step (I : OlmParts O) (J : SameIdentity O)
    (hW : ∀ c, W.decodeMessageContent (W.encodeMessageContent c) = some c) (hw : Steady did ik w) {ph : Phase}
    (hp : Stands S W did ik w ph) {op : PairOp O} (hon : w.Honest op) (hord : w.Orderly S did op) :
    Steady did ik (w.step W did op) ∧ ∃ ph', Stands S W did ik (w.step W did op) ph' := by
  cases op with
  | ensure x env found =>
    refine ⟨?_, hp.ensure hw hon hord⟩
    show Steady did ik (w.setPeer x _)
    rcases (w.peer x).ensureOlmSession_eq env (did (!x)) found with heq | ⟨-, f, key, otk, -, -, -, heq⟩
    · rw [heq, setPeer_eq]
      exact hw
    · rw [heq]
      exact hw.same SameKeys.init
  | send x env c => exact ⟨hw.send, hp.send hw⟩
  | deliver x env i => exact hp.deliver I J hW hw
  | restart x env file =>
    obtain ⟨hkeep, hkept⟩ := hord
    refine ⟨hw.startUp J rfl rfl hon, hp.startUp ?_ rfl rfl hkeep ?_⟩
    · cases hd : (w.peer x).sessionPickles[did (!x)]? with
      | none => exact Or.inl rfl
      | some s => exact Or.inr ⟨rfl, rfl⟩
    · intro hnone hsome
      rcases hkept hsome with hd | ha
      · rw [hnone] at hd
        cases hd
      · exact ha
  | lose x env file =>
    obtain ⟨hkeep, hkept⟩ := hord
    exact ⟨hw.startUp J rfl rfl hon, hp.startUp (Or.inl (by simp)) rfl rfl hkeep fun _ hsome => hkept hsome⟩

/-- Along every orderly run every direct message that is delivered is decrypted, to what was sent. -/
theorem orderly_runs_agree (S : SessionPairs O) (I : OlmParts O) (J : SameIdentity O) (W : Wire)
    (hW : ∀ c, W.decodeMessageContent (W.encodeMessageContent c) = some c) (did : Bool → Did) (w : PeerPair O)
    (h : StepSystem.Reach (pairSys O W did) (fun w op => w.Honest op ∧ w.Orderly S did op) w) :
    ∀ o ∈ w.opened, o.result = .ok o.sent.content := by
  have hinv : ∃ ik, Steady did ik w ∧ ∃ ph, Stands S W did ik w ph := by
    refine h.invariant (I := fun w => ∃ ik, Steady did ik w ∧ ∃ ph, Stands S W did ik w ph) ?_ ?_
    · intro w hs
      refine ⟨fun x => O.identityKey (w.peer x).account, ?_, .idle, fun x => ?_⟩
      · exact ⟨hs.distinct, hs.localDid, fun _ => rfl, hs.pickle, by simp [hs.opened]⟩
      · exact ⟨⟨hs.memory x, hs.disk x⟩, hs.net x⟩
    · rintro w op ⟨ik, hw, ph, hp⟩ ⟨hon, hord⟩
      exact ⟨ik, hp.step I J hW hw hon hord⟩
  obtain ⟨ik, hw, -⟩ := hinv
  exact hw.opened

end PeerPair

/-! `did:a` and `did:b` both start a conversation; or only one of them does -/

namespace SessionAgreement
open IdealOlm PeerPair

def dids (x : Bool) : Did := if x then "did:b" else "did:a"

def newcomer (x : Bool) : DirectMessageHandler idealOlm :=
  ⟨dids x, ⟨key x.toNat, [key (10 + x.toNat)], [], []⟩, ∅, .empty, ∅, ∅⟩

def pairs : StepSystem.Sys (PeerPair idealOlm) (PairOp idealOlm) := pairSys idealOlm idealWire dids

def start : PeerPair idealOlm := ⟨newcomer, fun _ => [], []⟩

theorem start_ok : start.Strangers dids :=
  ⟨by decide, fun _ => rfl, by simp [start, newcomer], by simp [start, newcomer], by simp [start, newcomer],
    fun _ => rfl, rfl⟩

def calm (rng : ℕ) : Env := ⟨0, rng, "m", fun _ _ => false, true⟩

def hello : MessageContent := ⟨"hello", [], [], none, ∅⟩

/-- What `x` is told of its peer. -/
def answer (x : Bool) : Except String IdentityFound :=
  .ok ⟨(key (!x).toNat).bytes, [(key (10 + (!x).toNat)).bytes], none⟩

/-- The peer still has the one-time key that `x` takes. -/
def Served (w : PeerPair idealOlm) : PairOp idealOlm → Prop
  | .ensure x _ found => ∀ f otk, found = .ok f → f.oneTimeKeys.findSome? CurveKey.ofBytes = some otk →
    otk ∈ (w.peer (!x)).account.privates
  | _ => True

def run (es : List (PairOp idealOlm)) : PeerPair idealOlm := es.foldl pairs.step start

def crossing : PeerPair idealOlm :=
  run [.ensure false (calm 1) (answer false), .ensure true (calm 2) (answer true), .send false (calm 3) hello,
    .deliver true (calm 4) 0]

def meeting : PeerPair idealOlm :=
  run [.ensure false (calm 1) (answer false), .send false (calm 2) hello, .deliver true (calm 3) 0,
    .send true (calm 4) hello, .deliver false (calm 5) 0]

theorem served {w : PeerPair idealOlm} {x : Bool} {env : Env}
    (h : key (10 + (!x).toNat) ∈ (w.peer (!x)).account.privates) : Served w (.ensure x env (answer x)) := by
  rintro f otk ⟨⟩ hotk
  obtain rfl : key (10 + (!x).toNat) = otk := by simpa using hotk
  exact h

theorem honest {w : PeerPair idealOlm} {x : Bool} {env : Env}
    (h : (w.peer (!x)).account.identity = key (!x).toNat) : w.Honest (.ensure x env (answer x)) := by
  rintro f ⟨⟩
  rw [← h]
  rfl

/-- Both sides start: the one's first message is taken for one of the other's session. -/
theorem crossing_fails : ¬ ∀ w, StepSystem.Reach pairs (fun w op => w.Honest op ∧ Served w op) w →
    ∀ o ∈ w.opened, o.result = .ok o.sent.content := by
  intro h
  have hr : StepSystem.Reach pairs (fun w op => w.Honest op ∧ Served w op) crossing := by
    refine StepSystem.reach_foldl (.init start_ok) ⟨⟨honest rfl, served ?_⟩, ⟨honest ?_, served ?_⟩, ?_, ?_, ?_⟩
    · simp [start, newcomer]
    · decide +kernel
    · decide +kernel
    · exact ⟨trivial, trivial⟩
    · exact ⟨trivial, trivial⟩
    · trivial
  have hlost : (crossing.opened.map fun o => o.result.toOption) = [none] := by decide +kernel
  obtain ⟨o, ho⟩ := List.length_eq_one_iff.1 (by simpa using congrArg List.length hlost)
  have hok := h crossing hr o (by simp [ho])
  simp [ho, hok] at hlost
  cases hlost

/-- One side starts, and they talk. -/
theorem meeting_agrees : ∃ w, StepSystem.Reach pairs
    (fun w op => w.Honest op ∧ w.Orderly sessionPairs dids op) w ∧
      w.opened.length = 2 ∧ ∀ o ∈ w.opened, o.result = .ok o.sent.content := by
  have hr : StepSystem.Reach pairs (fun w op => w.Honest op ∧ w.Orderly sessionPairs dids op) meeting := by
    refine StepSystem.reach_foldl (.init start_ok) ⟨⟨honest rfl, ?_⟩, ⟨trivial, trivial⟩, ⟨trivial, trivial⟩,
      ⟨trivial, trivial⟩, ⟨trivial, trivial⟩, trivial⟩
    rintro - f otk ⟨⟩ hotk
    obtain rfl : key 11 = otk := by simpa using hotk
    refine ⟨⟨by simp [start, newcomer], fun _ => rfl⟩, ?_⟩
    show key 11 ∈ [key 11]
    simp
  refine ⟨meeting, hr, by decide +kernel, ?_⟩
  exact orderly_runs_agree sessionPairs parts sameIdentity idealWire
    (fun c => IdealWire.contentCodec.decode_enc c) dids meeting hr

end SessionAgreement
end Variance
