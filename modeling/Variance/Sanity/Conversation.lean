import Variance.Sanity.Sessions
import Variance.Spec.Olm

/-! The direct-message handler and one peer: what it does with a session it has, and how it comes to one. -/

namespace Variance

variable {O : Olm} {W : Wire} {env : Env}

@[simp] theorem CurveKey.ofBytes_bytes (k : CurveKey) : CurveKey.ofBytes k.bytes = some k := by
  simp [CurveKey.ofBytes, k.size]

theorem OlmParts.notSelf (I : OlmParts O) (m : O.Message) : (O.toParts m).1 ≠ olmMessageTypeSelf := by
  cases m with
  | preKey p => simp [I.preKeyType, olmMessageTypeSelf]
  | normal q => simp [I.normalType, olmMessageTypeSelf]

namespace DirectMessageHandler
variable {h : DirectMessageHandler O} {d : Did} {c : MessageContent} {m : DirectMessage} {P : O.Session → Prop}

/-- There is a session with `d`, and what is kept for `d` meets `P`. -/
structure Knows (h : DirectMessageHandler O) (d : Did) (P : O.Session → Prop) : Prop where
  memory : ∃ s, h.sessions[d]? = some s
  all : h.Sessions fun d' s => d' = d → P s

structure Unknown (h : DirectMessageHandler O) (d : Did) : Prop where
  memory : h.sessions[d]? = none
  disk : h.sessionPickles[d]? = none

theorem Knows.mono {Q : O.Session → Prop} (hk : h.Knows d P) (hPQ : ∀ s, P s → Q s) : h.Knows d Q :=
  ⟨hk.memory, fun d' s hs hd => hPQ s (hk.all.memory d' s hs hd), fun d' s hs hd => hPQ s (hk.all.disk d' s hs hd)⟩

theorem sendMessage_none (hd : d ≠ h.localDid) (hs : h.sessions[d]? = none) :
    h.sendMessage W env d c = (.error (.doubleRatchet ("No session with " ++ d)), h) := by
  unfold sendMessage
  rw [if_neg hd, hs]

theorem sendMessage_some (env : Env) {s : O.Session} (hd : d ≠ h.localDid) (hs : h.sessions[d]? = some s) :
    (h.sendMessage W env d c).2.sessions[d]? = some (O.encrypt env.rng s (W.encodeMessageContent c)).2 ∧
      ∀ m, (h.sendMessage W env d c).1 = .ok m →
        O.toParts (O.encrypt env.rng s (W.encodeMessageContent c)).1 = (m.olmMessageType, m.ciphertext) ∧
        m.senderDid = h.localDid ∧
        ∀ p, (O.encrypt env.rng s (W.encodeMessageContent c)).1 = .preKey p →
          m.senderIdentityKey = some (O.identityKey h.account).bytes := by
  unfold sendMessage
  rw [if_neg hd, hs]
  dsimp only
  split
  · rename_i heq
    refine ⟨?_, by simp⟩
    rw [← congrArg Prod.snd heq]
    simp
  · rename_i heq
    have hh := congrArg Prod.snd heq
    dsimp only at hh ⊢
    refine ⟨?_, ?_⟩
    · rw [← hh]
      simp
    · rintro m ⟨⟩
      refine ⟨rfl, rfl, fun p hp => ?_⟩
      simp [signedMessage, hp]

theorem Knows.sendMessage (hk : h.Knows d P) (hd : d ≠ h.localDid)
    (hP : ∀ s, P s → P (O.encrypt env.rng s (W.encodeMessageContent c)).2) :
    (h.sendMessage W env d c).2.Knows d P := by
  obtain ⟨s, hs⟩ := hk.memory
  exact ⟨⟨_, (sendMessage_some env hd hs).1⟩, hk.all.send fun s hs _ => hP s (hk.all.memory _ _ hs rfl)⟩

/-- What a peer that has a session does with a message of that session. -/
theorem Knows.receive (env : Env) {om : O.Message} (hk : h.Knows m.senderDid P) (I : OlmParts O)
    (hm : O.toParts om = (m.olmMessageType, m.ciphertext)) (hP : ∀ s, P s → P (O.decrypt s om).2)
    {b : Bytes} (hb : ∀ s, P s → (O.decrypt s om).1 = .ok b) (hc : W.decodeMessageContent b = some c) :
    (h.receiveMessage W env m).2.Knows m.senderDid P ∧ SameKeys h (h.receiveMessage W env m).2 ∧
      (h.openMessage W env m).1 = .ok c := by
  obtain ⟨s, hs⟩ := hk.memory
  have hps := hk.all.memory _ _ hs rfl
  have hparts : O.fromParts m.olmMessageType m.ciphertext = .ok om := by
    have := I.parts om
    rwa [hm] at this
  have hself : m.olmMessageType ≠ olmMessageTypeSelf := by
    have := I.notSelf om
    rwa [hm] at this
  obtain ⟨hopen, -, hok⟩ := openMessage_eq (h := h) (W := W) env hself hparts
  obtain ⟨hse, hpi, hsame⟩ := receiveMessage_eq h W env m
  have hall : (h.decryptFrom env m om).2.Sessions fun d' s => d' = m.senderDid → P s := by
    refine hk.all.decryptFrom (fun s hs _ => hP s (hk.all.memory _ _ hs rfl)) ?_
    intro _ _ _ _ _ _ hnone
    rw [hs] at hnone
    cases hnone
  have hdec : (h.decryptFrom env m om).1 = .ok b ∧
      (∃ s, (h.decryptFrom env m om).2.sessions[m.senderDid]? = some s) ∧
      SameKeys h (h.decryptFrom env m om).2 := by
    have hbs := hb s hps
    unfold DirectMessageHandler.decryptFrom
    rw [hs]
    cases om with
    | preKey p =>
      dsimp only
      rw [hbs]
      exact ⟨rfl, by simp, by simp, by simp, by simp⟩
    | normal q =>
      dsimp only
      rw [hbs]
      exact ⟨rfl, by simp, by simp, by simp, by simp⟩
  rw [← hopen] at hall hdec
  obtain ⟨hbd, hmem, hkeys⟩ := hdec
  refine ⟨⟨by rw [hse]; exact hmem, hall.congr hse hpi⟩, ?_, ?_⟩
  · exact ⟨hsame.localDid.trans hkeys.localDid, hsame.account.trans hkeys.account,
      hsame.olmPickle.trans hkeys.olmPickle⟩
  · exact hok b c hbd hc

/-- What a peer without a session does with a first message. -/
theorem Unknown.receive (env : Env) {S : SessionPairs O} {p : O.PreKey} (hu : h.Unknown m.senderDid) (I : OlmParts O)
    (hm : O.toParts (.preKey p) = (m.olmMessageType, m.ciphertext)) (hp : S.genuine p)
    (hr : (S.firstKeys p).recipient = O.identityKey h.account) (hk : S.holds h.account (S.firstKeys p).otk)
    (hik : m.senderIdentityKey = some (S.firstKeys p).sender.bytes)
    (hc : W.decodeMessageContent (S.plain (.preKey p)) = some c) :
    ∃ t a, O.createInboundSession h.account (S.firstKeys p).sender p = (.ok (t, S.plain (.preKey p)), a) ∧
      (h.receiveMessage W env m).2.Knows m.senderDid (· = t) ∧
      (h.receiveMessage W env m).2.account = a ∧
      (h.receiveMessage W env m).2.localDid = h.localDid ∧
      (h.receiveMessage W env m).2.olmPickle = h.olmPickle ∧
      (h.openMessage W env m).1 = .ok c := by
  obtain ⟨t, a, heq⟩ := S.inbound_ok hp hr hk
  have hparts : O.fromParts m.olmMessageType m.ciphertext = .ok (.preKey p) := by
    have := I.parts (.preKey p)
    rwa [hm] at this
  have hself : m.olmMessageType ≠ olmMessageTypeSelf := by
    have := I.notSelf (.preKey p)
    rwa [hm] at this
  obtain ⟨hopen, -, hok⟩ := openMessage_eq (h := h) (W := W) env hself hparts
  obtain ⟨hse, hpi, hsame⟩ := receiveMessage_eq h W env m
  have hall : (h.decryptFrom env m (.preKey p)).2.Sessions fun d' s => d' = m.senderDid → s = t := by
    have hs0 : h.Sessions fun d' s => d' = m.senderDid → s = t := by
      refine ⟨fun d' s hs hd => ?_, fun d' s hs hd => ?_⟩
      · rw [hd, hu.memory] at hs
        cases hs
      · rw [hd, hu.disk] at hs
        cases hs
    refine hs0.decryptFrom (fun s hs => ?_) ?_
    · rw [hu.memory] at hs
      cases hs
    · rintro p' key s b a' ⟨⟩ - hkey hin -
      obtain rfl : (S.firstKeys p).sender = key := by
        simpa [hik] using hkey
      rw [heq] at hin
      cases hin
      rfl
  have hdec : (h.decryptFrom env m (.preKey p)).1 = .ok (S.plain (.preKey p)) ∧
      (h.decryptFrom env m (.preKey p)).2.sessions[m.senderDid]? = some t ∧
      (h.decryptFrom env m (.preKey p)).2.account = a := by
    unfold DirectMessageHandler.decryptFrom
    rw [hu.memory]
    unfold openInbound
    rw [hik]
    dsimp only
    rw [CurveKey.ofBytes_bytes]
    dsimp only
    rw [heq]
    exact ⟨rfl, by simp, by simp⟩
  obtain ⟨hl, hpick⟩ : (h.decryptFrom env m (.preKey p)).2.localDid = h.localDid ∧
    (h.decryptFrom env m (.preKey p)).2.olmPickle = h.olmPickle := decryptFrom_localDid
  rw [← hopen] at hall hdec hl hpick
  obtain ⟨hbd, hmem, hacc⟩ := hdec
  exact ⟨t, a, heq, ⟨⟨t, by rw [hse]; exact hmem⟩, hall.congr hse hpi⟩, hsame.account.trans hacc,
    hsame.localDid.trans hl, hsame.olmPickle.trans hpick, hok _ c hbd hc⟩

theorem Unknown.init {ik otk : CurveKey} (hu : h.Unknown d) :
    (h.initSessionIfNeeded env d ik otk).2.Knows d
      (· = O.createOutboundSession env.rng h.account ik otk) := by
  have hs0 : h.Sessions fun d' s => d' = d → s = O.createOutboundSession env.rng h.account ik otk := by
    refine ⟨fun d' s hs hd => ?_, fun d' s hs hd => ?_⟩
    · rw [hd, hu.memory] at hs
      cases hs
    · rw [hd, hu.disk] at hs
      cases hs
  refine ⟨⟨O.createOutboundSession env.rng h.account ik otk, ?_⟩, hs0.init fun _ _ => rfl⟩
  unfold initSessionIfNeeded initSessionAsInitiator
  rw [hu.memory]
  simp

/-- What was opened is returned, when it could be stored. -/
theorem receiveMessage_ok (hr : (h.openMessage W env m).1 = .ok c)
    (hs : env.faults "direct_messages" (LocalMessageStorage.directKey m.senderDid m.recipientDid m.timestamp
      m.id) = false) (hp : env.faults "plaintext_cache" m.id = false) :
    (h.receiveMessage W env m).1 = .ok c := by
  unfold receiveMessage
  split
  · rename_i heq
    rw [heq] at hr
    cases hr
  · rename_i heq
    rw [heq] at hr
    cases hr
    simp [keepMessage, LocalMessageStorage.storeDirect, LocalMessageStorage.storePlaintext, treeInsert, hs, hp,
      Except.map]

/-- Only the sender can be new among those there is a session with. -/
theorem Sessions.receive {P : Did → Prop} (hs : h.Sessions fun d _ => P d) (hm : P m.senderDid) (W : Wire)
    (env : Env) : (h.receiveMessage W env m).2.Sessions fun d _ => P d := by
  obtain ⟨hse, hpi, -⟩ := receiveMessage_eq h W env m
  refine Sessions.congr ?_ hse hpi
  by_cases ht : m.olmMessageType = olmMessageTypeSelf
  · unfold openMessage
    rw [if_pos ht]
    split <;> exact hs
  cases hparts : O.fromParts m.olmMessageType m.ciphertext with
  | error e =>
    unfold openMessage
    rw [if_neg ht, hparts]
    exact hs
  | ok om =>
    rw [(openMessage_eq env ht hparts).1]
    exact hs.decryptFrom (fun _ _ => hm) fun _ _ _ _ _ _ _ _ _ => hm

/-- The message opens no session: it is in one there is, or the account refuses it. -/
def OpensNone (h : DirectMessageHandler O) (m : DirectMessage) : Prop :=
  ∀ p key r, O.fromParts m.olmMessageType m.ciphertext = .ok (.preKey p) → h.sessions[m.senderDid]? = none →
    m.senderIdentityKey.bind CurveKey.ofBytes = some key → (O.createInboundSession h.account key p).1 ≠ .ok r

/-- Such a message takes no key and adds nobody. -/
theorem OpensNone.receive {S : OneTimeKeys O} (J : SameIdentity O) (hm : h.OpensNone m) (W : Wire) (env : Env) :
    (∀ k, S.holds (h.receiveMessage W env m).2.account k ↔ S.holds h.account k) ∧
    O.identityKey (h.receiveMessage W env m).2.account = O.identityKey h.account ∧
    (h.receiveMessage W env m).2.localDid = h.localDid ∧
    (h.receiveMessage W env m).2.olmPickle = h.olmPickle ∧
    ∀ P : Did → Prop, h.Sessions (fun d _ => P d) → (h.receiveMessage W env m).2.Sessions fun d _ => P d := by
  obtain ⟨hse, hpi, hsame⟩ := receiveMessage_eq h W env m
  have hopen : (∀ k, S.holds (h.openMessage W env m).2.account k ↔ S.holds h.account k) ∧
      O.identityKey (h.openMessage W env m).2.account = O.identityKey h.account ∧
      (h.openMessage W env m).2.localDid = h.localDid ∧ (h.openMessage W env m).2.olmPickle = h.olmPickle ∧
      ∀ P : Did → Prop, h.Sessions (fun d _ => P d) → (h.openMessage W env m).2.Sessions fun d _ => P d := by
    by_cases ht : m.olmMessageType = olmMessageTypeSelf
    · unfold openMessage
      rw [if_pos ht]
      split <;> exact ⟨fun _ => Iff.rfl, rfl, rfl, rfl, fun _ hP => hP⟩
    cases hparts : O.fromParts m.olmMessageType m.ciphertext with
    | error e =>
      unfold openMessage
      rw [if_neg ht, hparts]
      exact ⟨fun _ => Iff.rfl, rfl, rfl, rfl, fun _ hP => hP⟩
    | ok om =>
      rw [(openMessage_eq env ht hparts).1]
      obtain ⟨hl, hp⟩ : (h.decryptFrom env m om).2.localDid = h.localDid ∧
        (h.decryptFrom env m om).2.olmPickle = h.olmPickle := decryptFrom_localDid
      have hacc : (∀ k, S.holds (h.decryptFrom env m om).2.account k ↔ S.holds h.account k) ∧
          O.identityKey (h.decryptFrom env m om).2.account = O.identityKey h.account := by
        unfold DirectMessageHandler.decryptFrom
        split
        · rename_i p hnone
          unfold openInbound
          split
          · exact ⟨fun _ => Iff.rfl, rfl⟩
          rename_i bytes hbytes
          split
          · exact ⟨fun _ => Iff.rfl, rfl⟩
          rename_i key hkey
          have hid := J.inbound h.account key p
          split
          · rename_i heq
            rw [heq] at hid
            exact ⟨S.inbound_fails heq, hid⟩
          · rename_i heq
            rw [heq] at hid
            exact ⟨S.inbound_fails heq, hid⟩
          · rename_i s b a heq
            exact (hm p key (s, b) hparts hnone (by rw [hbytes]; exact hkey) (by rw [heq])).elim
        · exact ⟨fun _ => Iff.rfl, rfl⟩
        · exact ⟨fun _ => by simp, by simp⟩
        · dsimp only
          split <;> exact ⟨fun _ => by simp, by simp⟩
      refine ⟨hacc.1, hacc.2, hl, hp, fun P hP => hP.decryptFrom (fun s hs => hP.memory _ s hs) ?_⟩
      rintro p key s b a rfl hnone hkey heq
      exact (hm p key (s, b) hparts hnone hkey (by rw [heq])).elim
  obtain ⟨hk, hi, hl, hp, hP⟩ := hopen
  exact ⟨by rw [hsame.account]; exact hk, by rw [hsame.account]; exact hi, hsame.localDid.trans hl,
    hsame.olmPickle.trans hp, fun P hs => (hP P hs).congr hse hpi⟩

section
variable {file : O.Account}

theorem unknown_startUp (hdisk : h.sessionPickles[d]? = none) : (h.startUp env file).2.Unknown d :=
  ⟨by rw [startUp_get]; exact hdisk, hdisk⟩

theorem startUp_account : (h.startUp env file).2.account =
    O.markKeysAsPublished (O.generateFallbackKey (env.rng + 50)
      (O.generateOneTimeKeys env.rng 50 (h.restoredAccount file))) := rfl

theorem startUp_olmPickle {a : O.Account}
    (ha : (h.startUp env file).2.olmPickle[h.localDid]? = some a) :
    a = (h.startUp env file).2.account ∨ h.olmPickle[h.localDid]? = some a := by
  rcases get_treeInsert_some ha with ⟨-, rfl⟩ | hold
  · exact Or.inl rfl
  · exact Or.inr hold

/-- Keys are only added when a process starts. -/
theorem startUp_holds {S : OneTimeKeys O} {k : CurveKey} (hk : S.holds (h.restoredAccount file) k) :
    S.holds (h.startUp env file).2.account k := by
  rw [startUp_account, S.mark, S.fallback]
  exact S.generate _ _ hk

theorem startUp_identity (I : SameIdentity O) :
    O.identityKey (h.startUp env file).2.account = O.identityKey (h.restoredAccount file) := by
  rw [startUp_account, I.mark, I.fallback, I.generate]

end

end DirectMessageHandler
end Variance
