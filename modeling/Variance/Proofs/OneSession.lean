import Variance.Sanity.IdealOlm
import Variance.Sanity.IdealWire
import Variance.Sanity.Sessions
import Variance.Spec.SessionRaces

/-! When a failed receipt leaves nothing behind, and when there is one session for each peer. -/

namespace Variance
namespace DirectMessageHandler
variable {O : Olm} {h h₁ : DirectMessageHandler O} {W : Wire} {env : Env} {message : DirectMessage} {d : Did}
  {session : O.Session}

/-! What is left of a receipt when the plaintext is there -/

def restOf (h : DirectMessageHandler O) (W : Wire) (env : Env) (message : DirectMessage) (plaintext : Bytes) :
    Except MsgError MessageContent × DirectMessageHandler O :=
  match W.decodeMessageContent plaintext with
  | none => (.error .protocol, h)
  | some content => ((h.keepMessage env message content).1.map fun _ => content, (h.keepMessage env message content).2)

theorem receiveMessage_self (ht : message.olmMessageType = olmMessageTypeSelf) :
    h.receiveMessage W env message = h.restOf W env message message.ciphertext := by
  unfold receiveMessage openMessage restOf
  rw [if_pos ht]
  cases W.decodeMessageContent message.ciphertext <;> rfl

theorem receiveMessage_undecoded (ht : message.olmMessageType ≠ olmMessageTypeSelf) {e : String}
    (hm : O.fromParts message.olmMessageType message.ciphertext = .error e) :
    h.receiveMessage W env message = (.error (.crypto ("Failed to decode OlmMessage: " ++ e)), h) := by
  unfold receiveMessage openMessage
  rw [if_neg ht, hm]

section
variable {m : O.Message} (ht : message.olmMessageType ≠ olmMessageTypeSelf)
  (hm : O.fromParts message.olmMessageType message.ciphertext = .ok m)
include ht hm

theorem receiveMessage_undecrypted {e : MsgError} (hd : h.decryptFrom env message m = (.error e, h₁)) :
    h.receiveMessage W env message = (.error e, h₁) := by
  unfold receiveMessage openMessage
  rw [if_neg ht, hm]
  simp only [hd]

theorem receiveMessage_decrypted {plaintext : Bytes} (hd : h.decryptFrom env message m = (.ok plaintext, h₁)) :
    h.receiveMessage W env message = h₁.restOf W env message plaintext := by
  unfold receiveMessage openMessage restOf
  rw [if_neg ht, hm]
  simp only [hd]
  cases W.decodeMessageContent plaintext <;> rfl

end

/-! The session kept for the sender -/

theorem decryptFrom_none {p : O.Normal} (hs : h.sessions[message.senderDid]? = none) :
    h.decryptFrom env message (.normal p) = (.error (.doubleRatchet ("No session with " ++ message.senderDid)), h) := by
  simp only [decryptFrom, hs]

theorem decryptFrom_new {p : O.PreKey} (hs : h.sessions[message.senderDid]? = none) :
    h.decryptFrom env message (.preKey p) = h.openInbound env message p := by
  simp only [decryptFrom, hs]

section
variable {old : O.Session} {m : O.Message} (hs : h.sessions[message.senderDid]? = some old)
include hs

theorem decryptFrom_preKey_error {p : O.PreKey} {e : String} (hd : O.decrypt old (.preKey p) = (.error e, session)) :
    h.decryptFrom env message (.preKey p) = (.error (.crypto ("Decryption failure: " ++ e)),
      (persistSession { h with sessions := h.sessions.insert message.senderDid session } env message.senderDid).2) := by
  simp only [decryptFrom, hs, hd]
  rfl

/-- It is not written. -/
theorem decryptFrom_normal_error {p : O.Normal} {e : String} (hd : O.decrypt old (.normal p) = (.error e, session)) :
    h.decryptFrom env message (.normal p) = (.error (.crypto ("Decryption failure: " ++ e)),
      { h with sessions := h.sessions.insert message.senderDid session }) := by
  simp only [decryptFrom, hs, hd]

theorem decryptFrom_ok {plaintext : Bytes} (hd : O.decrypt old m = (.ok plaintext, session)) :
    h.decryptFrom env message m = (.ok plaintext,
      (persistSession { h with sessions := h.sessions.insert message.senderDid session } env message.senderDid).2) := by
  cases m with
  | preKey p =>
    simp only [decryptFrom, hs, hd]
    rfl
  | normal p => simp only [decryptFrom, hs, hd]

end

/-! What is left of a failed receipt -/

/-- A session put in the map and written. -/
theorem persist_same_iff :
    ((({ h with sessions := h.sessions.insert d session } : DirectMessageHandler O).persistSession env d).2.sessions =
        h.sessions ∧
      (({ h with sessions := h.sessions.insert d session } : DirectMessageHandler O).persistSession env
        d).2.sessionPickles = h.sessionPickles) ↔ h.Rests env d session := by
  simp only [persistSession, Std.ExtTreeMap.getElem?_insert_self, insert_self_iff, treeInsert_self_iff]
  rfl

/-- The message is stored, or the failure to store it leaves things as they were opened. -/
theorem keep_atomic_iff (hst : h₁.storage = h.storage) (content : MessageContent) :
    (∀ e, ((h₁.keepMessage env message content).1.map fun _ => content) = .error e →
        h.SameState (h₁.keepMessage env message content).2) ↔
      Writes env message ∨
        (h₁.sessions = h.sessions ∧ h₁.sessionPickles = h.sessionPickles) ∧ h.Unmoved env message := by
  unfold SameState Writes Unmoved
  rw [keepMessage_sessions, keepMessage_pickles, keepMessage_storage, keepMessage_result, hst]
  cases hf : env.faults "direct_messages" message.key with
  | true => simp [Except.map]
  | false =>
    cases hp : env.faults "plaintext_cache" message.id with
    | false => simp [Except.map]
    | true =>
      have hstorage : ({ h.storage with
          directMessages := h.storage.directMessages.insert message.key message
          plaintext := h.storage.plaintext } : LocalMessageStorage) = h.storage ↔
          h.storage.directMessages[message.key]? = some message := by
        rw [← insert_self_iff]
        exact ⟨congrArg LocalMessageStorage.directMessages, fun heq => by rw [heq]⟩
      simp [Except.map, treeInsert_error hp, hstorage, and_assoc]

theorem atomic_of_error {e : MsgError} (hst : h₁.storage = h.storage)
    (hr : h.receiveMessage W env message = (.error e, h₁)) :
    h.Atomic W env message ↔ h₁.sessions = h.sessions ∧ h₁.sessionPickles = h.sessionPickles := by
  unfold Atomic SameState
  rw [hr]
  exact ⟨fun h => ⟨(h e rfl).1, (h e rfl).2.1⟩, fun h _ _ => ⟨h.1, h.2, hst⟩⟩

/-- The plaintext is there, and the sessions are as they are then. -/
theorem atomic_of_rest {plaintext : Bytes} (hst : h₁.storage = h.storage)
    (hr : h.receiveMessage W env message = h₁.restOf W env message plaintext) {rests : Prop}
    (hs : (h₁.sessions = h.sessions ∧ h₁.sessionPickles = h.sessionPickles) ↔ rests) :
    h.Atomic W env message ↔ match W.decodeMessageContent plaintext with
      | none => rests
      | some _ => Writes env message ∨ rests ∧ h.Unmoved env message := by
  unfold restOf at hr
  cases hc : W.decodeMessageContent plaintext with
  | none =>
    rw [hc] at hr
    exact (atomic_of_error hst hr).trans hs
  | some content =>
    rw [hc] at hr
    rw [← hs]
    unfold Atomic
    rw [hr]
    exact keep_atomic_iff hst content

section
variable {m : O.Message} (ht : message.olmMessageType ≠ olmMessageTypeSelf)
  (hm : O.fromParts message.olmMessageType message.ciphertext = .ok m)
include ht hm

theorem atomic_of_undecrypted {e : MsgError} (hd : h.decryptFrom env message m = (.error e, h₁)) :
    h.Atomic W env message ↔ h₁.sessions = h.sessions ∧ h₁.sessionPickles = h.sessionPickles := by
  have hst : (h.decryptFrom env message m).2.storage = h.storage := decryptFrom_storage
  rw [hd] at hst
  exact atomic_of_error hst (receiveMessage_undecrypted ht hm hd)

theorem atomic_of_decrypted {plaintext : Bytes} (hd : h.decryptFrom env message m = (.ok plaintext, h₁)) {rests : Prop}
    (hs : (h₁.sessions = h.sessions ∧ h₁.sessionPickles = h.sessionPickles) ↔ rests) :
    h.Atomic W env message ↔ match W.decodeMessageContent plaintext with
      | none => rests
      | some _ => Writes env message ∨ rests ∧ h.Unmoved env message := by
  have hst : (h.decryptFrom env message m).2.storage = h.storage := decryptFrom_storage
  rw [hd] at hst
  exact atomic_of_rest hst (receiveMessage_decrypted ht hm hd) hs

/-- The sender's session has decrypted something. -/
theorem atomic_iff_opens {plaintext : Bytes} {session : O.Session} (hd : h.decryptFrom env message m = (.ok plaintext,
      (persistSession { h with sessions := h.sessions.insert message.senderDid session } env message.senderDid).2)) :
    h.Atomic W env message ↔ h.Opens W env message session plaintext :=
  atomic_of_decrypted ht hm hd persist_same_iff

end

theorem Makes.unique {p : O.PreKey} {session' : O.Session} {plaintext plaintext' : Bytes} {account account' : O.Account}
    (hmk : h.Makes message p session plaintext account) (hmk' : h.Makes message p session' plaintext' account') :
    plaintext' = plaintext := by
  obtain ⟨ik, identityKey, hk, hik, hc⟩ := hmk
  obtain ⟨ik', identityKey', hk', hik', hc'⟩ := hmk'
  obtain rfl : ik = ik' := Option.some.inj (hk.symm.trans hk')
  obtain rfl : identityKey = identityKey' := Option.some.inj (hik.symm.trans hik')
  rw [hc] at hc'
  cases hc'
  rfl

theorem openInbound_of_makes {p : O.PreKey} {plaintext : Bytes} {account : O.Account}
    (hmk : h.Makes message p session plaintext account) : h.openInbound env message p = (.ok plaintext,
      (persistSession { h with account, sessions := h.sessions.insert message.senderDid session } env
        message.senderDid).2) := by
  obtain ⟨ik, identityKey, hk, hik, hc⟩ := hmk
  simp only [openInbound, hk, hik, hc]

theorem openInbound_of_not_makes (env : Env) {p : O.PreKey}
    (hmk : ∀ session plaintext account, ¬ h.Makes message p session plaintext account) :
    ∃ e account, h.openInbound env message p = (.error e, { h with account }) := by
  unfold openInbound
  cases hk : message.senderIdentityKey with
  | none => exact ⟨_, h.account, rfl⟩
  | some ik =>
    dsimp only
    cases hik : CurveKey.ofBytes ik with
    | none => exact ⟨_, h.account, rfl⟩
    | some identityKey =>
      dsimp only
      rcases hc : O.createInboundSession h.account identityKey p with ⟨⟨e | e⟩ | ⟨session, plaintext⟩, account⟩
      · exact ⟨_, account, rfl⟩
      · exact ⟨_, account, rfl⟩
      · exact absurd ⟨ik, identityKey, hk, hik, hc⟩ (hmk session plaintext account)

/-- A PreKey message without a session: one is made, or nothing is. -/
theorem atomic_iff_establishes (ht : message.olmMessageType ≠ olmMessageTypeSelf) {p : O.PreKey}
    (hm : O.fromParts message.olmMessageType message.ciphertext = .ok (.preKey p))
    (hnone : h.sessions[message.senderDid]? = none) :
    h.Atomic W env message ↔ h.Establishes W env message p := by
  have hfrom : h.decryptFrom env message (.preKey p) = h.openInbound env message p := decryptFrom_new hnone
  by_cases hmk : ∃ session plaintext account, h.Makes message p session plaintext account
  · obtain ⟨session, plaintext, account, hmk⟩ := hmk
    have hmoved : (persistSession { h with account, sessions := h.sessions.insert message.senderDid session } env
        message.senderDid).2.sessions ≠ h.sessions := by
      rw [persistSession_sessions]
      intro heq
      rw [insert_self_iff.1 heq] at hnone
      cases hnone
    rw [openInbound_of_makes hmk] at hfrom
    refine (atomic_of_decrypted ht hm hfrom ⟨fun hs => hmoved hs.1, False.elim⟩).trans ?_
    cases hdec : W.decodeMessageContent plaintext with
    | none =>
      refine ⟨False.elim, fun h => ?_⟩
      have hsome := (h session plaintext account hmk).1
      simp [hdec] at hsome
    | some content =>
      refine ⟨fun hw session' plaintext' account' hmk' => ?_, fun h => Or.inl (h session plaintext account hmk).2⟩
      rw [hmk.unique hmk', hdec]
      exact ⟨rfl, by simpa using hw⟩
  · obtain ⟨e, account, herr⟩ := openInbound_of_not_makes env fun session plaintext account hm =>
      hmk ⟨session, plaintext, account, hm⟩
    rw [herr] at hfrom
    refine (atomic_of_undecrypted ht hm hfrom).trans ⟨fun _ => ?_, fun _ => ⟨rfl, rfl⟩⟩
    exact fun session plaintext account hm => absurd ⟨session, plaintext, account, hm⟩ hmk

/-- The exact condition. -/
theorem atomic_iff (h : DirectMessageHandler O) (W : Wire) (env : Env) (message : DirectMessage) :
    h.Atomic W env message ↔ h.Settles W env message := by
  unfold Settles
  split_ifs with ht
  · refine (atomic_of_rest rfl (receiveMessage_self ht) (iff_of_true ⟨rfl, rfl⟩ trivial)).trans ?_
    cases W.decodeMessageContent message.ciphertext <;> simp
  cases hm : O.fromParts message.olmMessageType message.ciphertext with
  | error e => exact (atomic_of_error rfl (receiveMessage_undecoded ht hm)).trans (by simp)
  | ok m =>
    cases hs : h.sessions[message.senderDid]? with
    | none =>
      cases m with
      | preKey p => exact atomic_iff_establishes ht hm hs
      | normal p => exact (atomic_of_undecrypted ht hm (decryptFrom_none hs)).trans (by simp)
    | some old =>
      rcases hd : O.decrypt old m with ⟨e | plaintext, session⟩
      · cases m with
        | preKey p =>
          simp only [hd]
          exact (atomic_of_undecrypted ht hm (decryptFrom_preKey_error hs hd)).trans persist_same_iff
        | normal p =>
          simp only [hd]
          exact (atomic_of_undecrypted ht hm (decryptFrom_normal_error hs hd)).trans (by simp [insert_self_iff, hs])
      · have hopens : h.Atomic W env message ↔ h.Opens W env message session plaintext :=
          atomic_iff_opens ht hm (decryptFrom_ok hs hd)
        cases m with
        | preKey p =>
          simp only [hd]
          exact hopens
        | normal p =>
          simp only [hd]
          exact hopens

end DirectMessageHandler

namespace SessionRace
variable {O : Olm} {W : Wire} {env : Env} {before : DirectMessageHandler O} {w : SessionRace O} {i j : ℕ}
  {t new : Task O} {d : Did} {session : O.Session} {seen : ℕ} {origin : Origin}

/-! A call on its own is the call -/

/-- The steps of the only call end in this. -/
def Ends (W : Wire) (env : Env) (n : ℕ) (w : SessionRace O) (r : Task O × DirectMessageHandler O) : Prop :=
  let w' := (List.replicate n (Step.run 0 env)).foldl (SessionRace.next W) w
  w'.handler = r.2 ∧ w'.tasks = [r.1]

section
variable {h : DirectMessageHandler O} {message : DirectMessage} {plaintext : Bytes}
  {r : Task O × DirectMessageHandler O} (lock : Option ℕ) (est : List (Did × Origin)) (rep : List Did) (n : ℕ)

theorem Ends.step {n : ℕ} {lock : Option ℕ} {est : List (Did × Origin)} {rep : List Did}
    (he : Ends W env n (runTask ⟨h, lock, [t], est, rep⟩ W env 0 t) r) :
    Ends W env (n + 1) ⟨h, lock, [t], est, rep⟩ r := by
  unfold Ends at he ⊢
  rwa [List.replicate_succ, List.foldl_cons]

theorem Ends.received (a : Except MsgError MessageContent) :
    Ends W env n ⟨h, lock, [.received a], est, rep⟩ (.received a, h) := by
  induction n with
  | zero => exact ⟨rfl, rfl⟩
  | succ n ih => exact .step ih

theorem Ends.initDone (a : Except MsgError Unit) :
    Ends W env n ⟨h, lock, [.initDone a], est, rep⟩ (.initDone a, h) := by
  induction n with
  | zero => exact ⟨rfl, rfl⟩
  | succ n ih => exact .step ih

theorem Ends.decoded : Ends W env (n + 1) ⟨h, lock, [decode W message plaintext], est, rep⟩
    ((h.restOf W env message plaintext).map .received id) := by
  unfold decode DirectMessageHandler.restOf
  cases hc : W.decodeMessageContent plaintext with
  | none => exact .received lock est rep (n + 1) _
  | some content => exact .step (.received lock est rep n _)

theorem Ends.persisted : Ends W env (n + 2) ⟨h, lock, [.persist message (.ok plaintext)], est, rep⟩
    (((h.persistSession env message.senderDid).2.restOf W env message plaintext).map .received id) :=
  .step (.decoded lock est rep n)

/-- A PreKey message that has found no session. -/
theorem Ends.inbound {p : O.PreKey} (ht : message.olmMessageType ≠ olmMessageTypeSelf)
    (hm : O.fromParts message.olmMessageType message.ciphertext = .ok (.preKey p))
    (hs : h.sessions[message.senderDid]? = none) :
    Ends W env 4 ⟨h, lock, [.createInbound message p seen], est, rep⟩
      ((h.receiveMessage W env message).map .received id) := by
  have hfrom : h.decryptFrom env message (.preKey p) = h.openInbound env message p :=
    DirectMessageHandler.decryptFrom_new hs
  refine .step ?_
  cases hk : message.senderIdentityKey with
  | none =>
    simp only [DirectMessageHandler.openInbound, hk] at hfrom
    rw [DirectMessageHandler.receiveMessage_undecrypted ht hm hfrom]
    simp only [runTask, hk]
    exact .received lock est rep 3 _
  | some ik =>
    cases hik : CurveKey.ofBytes ik with
    | none =>
      simp only [DirectMessageHandler.openInbound, hk, hik] at hfrom
      rw [DirectMessageHandler.receiveMessage_undecrypted ht hm hfrom]
      simp only [runTask, hk, hik]
      exact .received lock est rep 3 _
    | some identityKey =>
      rcases hc : O.createInboundSession h.account identityKey p with ⟨⟨e | e⟩ | ⟨session, plaintext⟩, account⟩
      · simp only [DirectMessageHandler.openInbound, hk, hik, hc] at hfrom
        rw [DirectMessageHandler.receiveMessage_undecrypted ht hm hfrom]
        simp only [runTask, hk, hik, hc]
        exact .received lock est rep 3 _
      · simp only [DirectMessageHandler.openInbound, hk, hik, hc] at hfrom
        rw [DirectMessageHandler.receiveMessage_undecrypted ht hm hfrom]
        simp only [runTask, hk, hik, hc]
        exact .received lock est rep 3 _
      · simp only [DirectMessageHandler.openInbound, hk, hik, hc] at hfrom
        rw [DirectMessageHandler.receiveMessage_decrypted ht hm hfrom]
        simp only [runTask, hk, hik, hc]
        refine .step ?_
        exact .persisted lock (est ++ [(message.senderDid, .inbound)]) _ 0

/-- A receipt that nothing comes between. -/
theorem Ends.receive : Ends W env 5 ⟨h, lock, [.receive message], est, rep⟩
    ((h.receiveMessage W env message).map .received id) := by
  refine .step ?_
  by_cases ht : message.olmMessageType = olmMessageTypeSelf
  · rw [DirectMessageHandler.receiveMessage_self ht]
    simp only [runTask, ht, if_true]
    exact .decoded lock est rep 3
  cases hm : O.fromParts message.olmMessageType message.ciphertext with
  | error e =>
    rw [DirectMessageHandler.receiveMessage_undecoded ht hm]
    simp only [runTask, ht, if_false, hm]
    exact .received lock est rep 4 _
  | ok m =>
    cases hs : h.sessions[message.senderDid]? with
    | none =>
      cases m with
      | preKey p =>
        simp only [runTask, ht, if_false, hm, hs]
        exact .inbound lock est rep ht hm hs
      | normal p =>
        rw [DirectMessageHandler.receiveMessage_undecrypted ht hm (DirectMessageHandler.decryptFrom_none hs)]
        simp only [runTask, ht, if_false, hm, hs]
        exact .received lock est rep 4 _
    | some old =>
      rcases hd : O.decrypt old m with ⟨e | plaintext, session⟩
      · cases m with
        | preKey p =>
          rw [DirectMessageHandler.receiveMessage_undecrypted ht hm (DirectMessageHandler.decryptFrom_preKey_error hs hd)]
          simp only [runTask, ht, if_false, hm, hs, hd]
          refine .step ?_
          exact .received lock est rep 3 _
        | normal p =>
          rw [DirectMessageHandler.receiveMessage_undecrypted ht hm (DirectMessageHandler.decryptFrom_normal_error hs hd)]
          simp only [runTask, ht, if_false, hm, hs, hd]
          exact .received lock est rep 4 _
      · rw [DirectMessageHandler.receiveMessage_decrypted ht hm (DirectMessageHandler.decryptFrom_ok hs hd)]
        cases m with
        | preKey p =>
          simp only [runTask, ht, if_false, hm, hs, hd]
          exact .persisted lock est rep 2
        | normal p =>
          simp only [runTask, ht, if_false, hm, hs, hd]
          exact .persisted lock est rep 2

/-- An initialization that nothing comes between. -/
theorem Ends.init {ik otk : CurveKey} : Ends W env 5 ⟨h, none, [.initLock d ik otk], est, rep⟩
    ((h.initSessionIfNeeded env d ik otk).map .initDone id) := by
  refine .step ?_
  change Ends W env 4 ⟨h, some 0, [.initCheck d ik otk], est, rep⟩ _
  refine .step ?_
  unfold runTask
  dsimp only
  cases hs : h.sessions[d]? with
  | some old =>
    have hr : h.initSessionIfNeeded env d ik otk = (.ok (), h) := by
      simp only [DirectMessageHandler.initSessionIfNeeded, hs]
    rw [hr]
    exact .initDone none est rep 3 _
  | none =>
    have hr : h.initSessionIfNeeded env d ik otk = (insertSession h d
        (O.createOutboundSession env.rng h.account ik otk)).persistSession env d := by
      simp only [DirectMessageHandler.initSessionIfNeeded, hs]
      rfl
    rw [hr]
    change Ends W env 3 ⟨h, some 0, [.initCreate d ik otk est.length], est, rep⟩ _
    refine .step ?_
    change Ends W env 2 ⟨h, some 0, [.initInsert d (O.createOutboundSession env.rng h.account ik otk) est.length], est,
      rep⟩ _
    refine .step ?_
    change Ends W env 1 ⟨insertSession h d (O.createOutboundSession env.rng h.account ik otk), some 0, [.initPersist d],
      est ++ [(d, .outbound)], rep⟩ _
    refine .step ?_
    exact .initDone none (est ++ [(d, .outbound)]) rep 0 _

end

/-- For whom the call has found no session, and how many there had been then. -/
def Task.looked : Task O → Option (Did × ℕ)
  | .initCreate d _ _ seen | .initInsert d _ seen => some (d, seen)
  | .createInbound message _ seen | .insertInbound message _ _ seen => some (message.senderDid, seen)
  | _ => none

/-- The call has the lock. -/
def Task.Holds : Task O → Prop
  | .initCheck .. | .initCreate .. | .initInsert .. | .initPersist _ => True
  | _ => False

structure Inv (before : DirectMessageHandler O) (w : SessionRace O) : Prop where
  unique : Unique before w
  tracked : ∀ d, (w.handler.sessions[d]?).isSome ↔
    (before.sessions[d]?).isSome ∨ d ∈ w.established.map (·.1)
  holder : ∀ (i : ℕ) (t : Task O), w.tasks[i]? = some t → t.Holds → w.initLock = some i
  looked : ∀ (i : ℕ) (t : Task O), w.tasks[i]? = some t → ∀ d seen, t.looked = some (d, seen) →
    before.sessions[d]? = none ∧ seen ≤ w.established.length ∧ d ∉ (w.established.take seen).map (·.1)
  alone : ∀ (i : ℕ) (t : Task O), w.tasks[i]? = some t → t.Holds → ∀ d seen, t.looked = some (d, seen) →
    ∀ e ∈ w.established.drop seen, e.2 = .inbound

/-! Tasks -/

theorem get_set_cases {l : List (Task O)} (hj : (l.set i new)[j]? = some t) :
    j = i ∧ t = new ∨ j ≠ i ∧ l[j]? = some t := by
  by_cases hne : i = j
  · subst hne
    rw [List.getElem?_set_self'] at hj
    cases hl : l[i]? with
    | none => simp [hl] at hj
    | some x => exact Or.inl ⟨rfl, by simpa [hl] using hj.symm⟩
  · rw [List.getElem?_set_ne hne] at hj
    exact Or.inr ⟨fun heq => hne heq.symm, hj⟩

/-- A call goes on without a new session. -/
theorem Inv.goOn {handler : DirectMessageHandler O} {lock : Option ℕ} (h : Inv before w) (hi : w.tasks[i]? = some t)
    (new : Task O) (hsessions : ∀ d : Did, (handler.sessions[d]?).isSome = (w.handler.sessions[d]?).isSome)
    (hlooked : ∀ d seen, new.looked = some (d, seen) → t.looked = some (d, seen) ∧ (new.Holds → t.Holds) ∨
      seen = w.established.length ∧ w.handler.sessions[d]? = none)
    (hself : new.Holds → lock = some i) (hothers : ∀ j, j ≠ i → w.initLock = some j → lock = some j) :
    Inv before { w with handler := handler, initLock := lock, tasks := w.tasks.set i new } := by
  refine ⟨⟨h.unique.once, h.unique.new, h.unique.kept⟩, fun d => ?_, fun j t' hj hh => ?_, fun j t' hj d seen hl => ?_,
    fun j t' hj hh d seen hl e he => ?_⟩
  · rw [hsessions]
    exact h.tracked d
  · rcases get_set_cases hj with ⟨rfl, rfl⟩ | ⟨hne, hj⟩
    · exact hself hh
    · exact hothers j hne (h.holder j t' hj hh)
  · rcases get_set_cases hj with ⟨rfl, rfl⟩ | ⟨-, hj⟩
    · rcases hlooked d seen hl with ⟨ht, -⟩ | ⟨rfl, hnone⟩
      · exact h.looked j t hi d seen ht
      · -- the call has just looked
        have htracked : ¬ ((before.sessions[d]?).isSome ∨ d ∈ w.established.map (·.1)) := by
          rw [← h.tracked d, hnone]
          simp
        rw [not_or] at htracked
        exact ⟨by simpa using htracked.1, le_refl _, by rw [List.take_length]; exact htracked.2⟩
    · exact h.looked j t' hj d seen hl
  · rcases get_set_cases hj with ⟨rfl, rfl⟩ | ⟨-, hj⟩
    · rcases hlooked d seen hl with ⟨ht, hold⟩ | ⟨rfl, -⟩
      · exact h.alone j t hi (hold hh) d seen ht e he
      · rw [List.drop_length] at he
        cases he
    · exact h.alone j t' hj hh d seen hl e he

/-- A call puts its session in the map. -/
theorem Inv.insert {replaced : List Did} (h : Inv before w) (hi : w.tasks[i]? = some t) (hnew : new.looked = none)
    (hself : new.Holds → t.Holds) (horigin : origin = .outbound → t.Holds)
    (hu : Unique before { w with established := w.established ++ [(d, origin)], replaced := replaced }) :
    Inv before { w with
      tasks := w.tasks.set i new
      handler := insertSession w.handler d session
      established := w.established ++ [(d, origin)]
      replaced := replaced } := by
  refine ⟨⟨hu.once, hu.new, hu.kept⟩, fun d' => ?_, fun j t' hj hh => ?_, fun j t' hj d' seen hl => ?_,
    fun j t' hj hh d' seen hl e he => ?_⟩
  · simp only [insertSession, get_insert, List.map_append, List.mem_append, List.map_cons, List.map_nil,
      List.mem_singleton, ← or_assoc, ← h.tracked]
    split_ifs with heq
    · simp [heq]
    · simp [Ne.symm heq]
  · rcases get_set_cases hj with ⟨rfl, rfl⟩ | ⟨-, hj⟩
    · exact h.holder j t hi (hself hh)
    · exact h.holder j t' hj hh
  · rcases get_set_cases hj with ⟨rfl, rfl⟩ | ⟨-, hj⟩
    · rw [hnew] at hl
      cases hl
    · obtain ⟨hnone, hle, hout⟩ := h.looked j t' hj d' seen hl
      refine ⟨hnone, ?_, ?_⟩
      · rw [List.length_append]
        omega
      · rwa [List.take_append_of_le_length hle]
  · rcases get_set_cases hj with ⟨rfl, rfl⟩ | ⟨hne, hold⟩
    · rw [hnew] at hl
      cases hl
    · rw [List.drop_append_of_le_length (h.looked j t' hold d' seen hl).2.1] at he
      rcases List.mem_append.1 he with he | he
      · exact h.alone j t' hold hh d' seen hl e he
      · cases List.mem_singleton.1 he
        cases origin with
        | inbound => rfl
        | outbound =>
          -- two calls would have the lock
          have hlock := h.holder i t hi (horigin rfl)
          rw [h.holder j t' hold hh] at hlock
          exact absurd (Option.some.inj hlock) hne

/-! A new session -/

/-- The peer of a call that has found none has no session but for those established since. -/
theorem Inv.established_iff (h : Inv before w) (hi : w.tasks[i]? = some t) (hl : t.looked = some (d, seen)) :
    d ∈ w.established.map (·.1) ↔ d ∈ (w.established.drop seen).map (·.1) := by
  have hout := (h.looked i t hi d seen hl).2.2
  rw [← List.take_append_drop seen w.established, List.map_append, List.mem_append]
  simp only [List.take_append_drop, hout, false_or]

theorem Inv.unique_insert_iff {replaced : List Did} (h : Inv before w) (hi : w.tasks[i]? = some t)
    (hl : t.looked = some (d, seen)) :
    Unique before { w with established := w.established ++ [(d, origin)], replaced := replaced } ↔
      d ∉ (w.established.drop seen).map (·.1) ∧ replaced = [] := by
  rw [← h.established_iff hi hl]
  have hmap : (w.established ++ [(d, origin)]).map (·.1) = w.established.map (·.1) ++ [d] := by simp
  constructor
  · intro hu
    have honce := hu.once
    rw [hmap, List.nodup_append] at honce
    exact ⟨fun hd => honce.2.2 d hd d (List.mem_singleton.2 rfl) rfl, hu.kept⟩
  · rintro ⟨hd, hr⟩
    refine ⟨?_, fun d' hd' => ?_, hr⟩
    · rw [hmap, List.nodup_append]
      refine ⟨h.unique.once, List.nodup_singleton d, fun a ha b hb => ?_⟩
      rw [List.mem_singleton.1 hb]
      exact fun heq => hd (heq ▸ ha)
    · rw [hmap, List.mem_append] at hd'
      rcases hd' with hd' | hd'
      · exact h.unique.new d' hd'
      · rw [List.mem_singleton.1 hd']
        exact (h.looked i t hi d seen hl).1

/-- Calls that have the lock are never in each other's way. -/
theorem Inv.outbound_iff (h : Inv before w) (hi : w.tasks[i]? = some (.initInsert d session seen)) :
    Unique before { w with established := w.established ++ [(d, .outbound)] } ↔
      (d, .inbound) ∉ w.established.drop seen := by
  refine (h.unique_insert_iff hi rfl).trans ?_
  rw [and_iff_left h.unique.kept, not_iff_not, List.mem_map]
  constructor
  · rintro ⟨e, he, rfl⟩
    have hinbound := h.alone i _ hi trivial _ seen rfl e he
    rwa [← hinbound]
  · intro he
    exact ⟨_, he, rfl⟩

theorem Inv.inbound_iff {message : DirectMessage} {plaintext : Bytes} (h : Inv before w)
    (hi : w.tasks[i]? = some (.insertInbound message session plaintext seen)) :
    Unique before { w with
        established := w.established ++ [(message.senderDid, .inbound)]
        replaced := if (w.handler.sessions[message.senderDid]?).isSome then w.replaced ++ [message.senderDid]
          else w.replaced } ↔
      message.senderDid ∉ (w.established.drop seen).map (·.1) := by
  refine (h.unique_insert_iff hi rfl).trans (and_iff_left_of_imp fun hout => ?_)
  have hnone : ¬ (w.handler.sessions[message.senderDid]?).isSome := by
    rw [h.tracked, (h.looked i _ hi _ seen rfl).1, h.established_iff hi rfl]
    simpa using hout
  rw [if_neg hnone]
  exact h.unique.kept

/-! The steps -/

theorem Inv.spawn (h : Inv before w) (hlooked : new.looked = none) (hholds : ¬ new.Holds) :
    Inv before (w.spawn new) := by
  have hcases {j : ℕ} {t : Task O} (hj : (w.tasks ++ [new])[j]? = some t) : t = new ∨ w.tasks[j]? = some t := by
    rw [List.getElem?_append] at hj
    split_ifs at hj
    · exact Or.inr hj
    · exact Or.inl (List.mem_singleton.1 (List.mem_of_getElem? hj))
  refine ⟨⟨h.unique.once, h.unique.new, h.unique.kept⟩, h.tracked, fun j t hj hh => ?_, fun j t hj d seen hl => ?_,
    fun j t hj hh d seen hl => ?_⟩
  · rcases hcases hj with rfl | hj
    · exact absurd hh hholds
    · exact h.holder j t hj hh
  · rcases hcases hj with rfl | hj
    · rw [hlooked] at hl
      cases hl
    · exact h.looked j t hj d seen hl
  · rcases hcases hj with rfl | hj
    · exact absurd hh hholds
    · exact h.alone j t hj hh d seen hl

/-- The call is done with looking, and does not have the lock. -/
def Task.Quiet (t : Task O) : Prop := t.looked = none ∧ ¬ t.Holds

theorem decode_quiet {message : DirectMessage} {plaintext : Bytes} : (decode W message plaintext : Task O).Quiet := by
  unfold decode
  split
  · exact ⟨rfl, id⟩
  · exact ⟨rfl, id⟩

theorem Inv.goQuiet {handler : DirectMessageHandler O} (h : Inv before w) (hi : w.tasks[i]? = some t)
    (hsessions : ∀ d : Did, (handler.sessions[d]?).isSome = (w.handler.sessions[d]?).isSome) (hnew : new.Quiet) :
    Inv before { w with handler := handler, tasks := w.tasks.set i new } := by
  refine h.goOn hi new hsessions (fun d seen hl => ?_) (fun hh => absurd hh hnew.2) fun _ _ hj => hj
  rw [hnew.1] at hl
  cases hl

/-- A session that decrypts stays in its place. -/
theorem insertSession_isSome {handler : DirectMessageHandler O} {old : O.Session} (hd : handler.sessions[d]? = some old)
    (d' : Did) : ((insertSession handler d session).sessions[d']?).isSome = (handler.sessions[d']?).isSome := by
  simp only [insertSession, get_insert]
  split_ifs with heq
  · rw [← heq, hd]
    rfl
  · rfl

theorem Inv.receive {message : DirectMessage} (h : Inv before w) (hi : w.tasks[i]? = some (.receive message)) :
    Inv before (w.runTask W env i (.receive message)) := by
  have hreceived (r : Except MsgError MessageContent) : (Task.received r : Task O).Quiet := ⟨rfl, id⟩
  have hpersist (r : Except MsgError Bytes) : (Task.persist message r : Task O).Quiet := ⟨rfl, id⟩
  unfold SessionRace.runTask
  dsimp only
  split_ifs
  · exact h.goQuiet hi (fun _ => rfl) decode_quiet
  split
  · exact h.goQuiet hi (fun _ => rfl) (hreceived _)
  split
  · rename_i p hnone _
    refine h.goOn hi (.createInbound message p w.established.length) (fun _ => rfl) (fun d seen hl => Or.inr ?_)
      (fun hh => hh.elim) fun _ _ hj => hj
    cases hl
    exact ⟨rfl, hnone⟩
  · exact h.goQuiet hi (fun _ => rfl) (hreceived _)
  · rename_i hsome _
    exact h.goQuiet hi (insertSession_isSome hsome) (hpersist _)
  · rename_i hsome _
    refine h.goQuiet hi (insertSession_isSome hsome) ?_
    split
    · exact hreceived _
    · exact hpersist _

theorem Inv.createInbound {message : DirectMessage} {m : O.PreKey} (h : Inv before w)
    (hi : w.tasks[i]? = some (.createInbound message m seen)) :
    Inv before (w.runTask W env i (.createInbound message m seen)) := by
  have hreceived (r : Except MsgError MessageContent) : (Task.received r : Task O).Quiet := ⟨rfl, id⟩
  unfold SessionRace.runTask
  dsimp only
  split
  · exact h.goQuiet hi (fun _ => rfl) (hreceived _)
  split
  · exact h.goQuiet hi (fun _ => rfl) (hreceived _)
  split
  · exact h.goQuiet hi (fun _ => rfl) (hreceived _)
  · exact h.goQuiet hi (fun _ => rfl) (hreceived _)
  · rename_i session plaintext _
    exact h.goOn hi (.insertInbound message session plaintext seen) (fun _ => rfl)
      (fun d seen hl => Or.inl ⟨hl, fun hh => hh.elim⟩) (fun hh => hh.elim) fun _ _ hj => hj

/-- Only the holder of the lock lets it go. -/
theorem Inv.others {lock : Option ℕ} (h : Inv before w) (hi : w.tasks[i]? = some t) (hh : t.Holds) (hne : j ≠ i)
    (hj : w.initLock = some j) : lock = some j := by
  rw [h.holder i t hi hh] at hj
  exact absurd (Option.some.inj hj).symm hne

theorem Inv.runTask (h : Inv before w) (hi : w.tasks[i]? = some t) (hg : w.InTime (.run i env)) :
    Inv before (w.runTask W env i t) := by
  unfold InTime at hg
  dsimp only at hg
  rw [hi] at hg
  cases t with
  | initLock d ik otk =>
    unfold SessionRace.runTask
    dsimp only
    split
    · exact h
    · rename_i hfree
      refine h.goOn hi (.initCheck d ik otk) (fun _ => rfl) (fun d seen hl => by cases hl) (fun _ => rfl)
        fun j _ hj => ?_
      rw [hfree] at hj
      cases hj
  | initCheck d ik otk =>
    unfold SessionRace.runTask
    dsimp only
    split
    · exact h.goOn hi (.initDone (.ok ())) (fun _ => rfl) (fun d seen hl => by cases hl) (fun hh => hh.elim)
        fun j hne hj => h.others hi trivial hne hj
    · rename_i hnone
      refine h.goOn hi (.initCreate d ik otk w.established.length) (fun _ => rfl) (fun d seen hl => Or.inr ?_)
        (fun _ => h.holder i _ hi trivial) fun _ _ hj => hj
      cases hl
      exact ⟨rfl, hnone⟩
  | initCreate d ik otk seen =>
    exact h.goOn hi (.initInsert d _ seen) (fun _ => rfl) (fun d seen hl => Or.inl ⟨hl, fun _ => trivial⟩)
      (fun _ => h.holder i _ hi trivial) fun _ _ hj => hj
  | initInsert d session seen =>
    exact h.insert hi rfl (fun _ => trivial) (fun _ => trivial) ((h.outbound_iff hi).2 hg)
  | initPersist d =>
    have hsessions (d' : Did) : ((w.handler.persistSession env d).2.sessions[d']?).isSome =
        (w.handler.sessions[d']?).isSome := by rw [DirectMessageHandler.persistSession_sessions]
    exact h.goOn hi (.initDone (w.handler.persistSession env d).1) hsessions (fun d seen hl => by cases hl)
      (fun hh => hh.elim) fun j hne hj => h.others hi trivial hne hj
  | initDone r => exact h
  | receive message => exact h.receive hi
  | createInbound message m seen => exact h.createInbound hi
  | insertInbound message session plaintext seen =>
    exact h.insert hi rfl (fun hh => hh.elim) (fun heq => by cases heq) ((h.inbound_iff hi).2 hg)
  | persist message r =>
    have hsessions (d' : Did) : ((w.handler.persistSession env message.senderDid).2.sessions[d']?).isSome =
        (w.handler.sessions[d']?).isSome := by rw [DirectMessageHandler.persistSession_sessions]
    refine h.goQuiet hi hsessions ?_
    split
    · exact ⟨rfl, id⟩
    · exact decode_quiet
  | keep message content =>
    have hsessions (d' : Did) : ((w.handler.keepMessage env message content).2.sessions[d']?).isSome =
        (w.handler.sessions[d']?).isSome := by rw [DirectMessageHandler.keepMessage_sessions]
    have hquiet : (Task.received ((w.handler.keepMessage env message content).1.map fun _ => content) : Task O).Quiet :=
      ⟨rfl, id⟩
    exact h.goQuiet hi hsessions hquiet
  | received r => exact h

theorem Inv.next (h : Inv before w) (e : Step O) (hg : w.InTime e) : Inv before (w.next W e) := by
  cases e with
  | initSessionIfNeeded d ik otk => exact h.spawn rfl id
  | receiveMessage message => exact h.spawn rfl id
  | run i env =>
    unfold SessionRace.next
    dsimp only
    cases hi : w.tasks[i]? with
    | none => exact h
    | some t => exact h.runTask hi hg

/-- The condition is what a step needs. -/
theorem Inv.unique_iff (h : Inv before w) (e : Step O) : Unique before (w.next W e) ↔ w.InTime e := by
  refine ⟨fun hu => ?_, fun hg => (h.next e hg).unique⟩
  cases e with
  | initSessionIfNeeded d ik otk => trivial
  | receiveMessage message => trivial
  | run i env =>
    unfold InTime
    unfold SessionRace.next at hu
    dsimp only at hu ⊢
    cases hi : w.tasks[i]? with
    | none => trivial
    | some t =>
      rw [hi] at hu
      cases t with
      | initInsert d session seen => exact (h.outbound_iff hi).1 ⟨hu.once, hu.new, hu.kept⟩
      | insertInbound message session plaintext seen => exact (h.inbound_iff hi).1 ⟨hu.once, hu.new, hu.kept⟩
      | _ => trivial

theorem inv_start (before : DirectMessageHandler O) : Inv before (start before) :=
  ⟨⟨List.nodup_nil, fun _ hd => (List.not_mem_nil hd).elim, rfl⟩, fun d => by simp [start],
    fun i t hi => absurd hi (by simp [start]), fun i t hi => absurd hi (by simp [start]),
    fun i t hi => absurd hi (by simp [start])⟩

/-- A failed receipt leaves nothing behind just when it has moved nothing; and in every run there is one session for
each peer just when none is put in the map that another call has come before. -/
theorem atomic_and_unique_iff (O : Olm) (W : Wire) :
    (∀ (h : DirectMessageHandler O) (env : Env) (message : DirectMessage),
      h.Atomic W env message ↔ h.Settles W env message) ∧
    ∀ (before : DirectMessageHandler O) (es : List (Step O)),
      StepSystem.Guarded (sessionRaceSys W before) (fun w e => Unique before (w.next W e)) (start before) es ↔
        StepSystem.Guarded (sessionRaceSys W before) InTime (start before) es :=
  ⟨fun h env message => h.atomic_iff W env message, fun before es =>
    StepSystem.guarded_iff (fun _ e h => h.unique_iff e) (fun _ e h hg => h.next e hg) (inv_start before) es⟩

end SessionRace

namespace OneSession
open IdealOlm SessionRace

def calm : Env := ⟨0, 9, "m", fun _ _ => false, true⟩

/-- Two one-time keys are out. -/
def published : DirectMessageHandler idealOlm := ⟨"did:a", ⟨key 0, [key 5, key 6], [], []⟩, ∅, .empty, ∅, ∅⟩

/-- A first message, made with one of them. -/
def first (id : String) (sid otk : ℕ) (plaintext : Bytes) : DirectMessage :=
  let parts := idealOlm.toParts (.preKey ⟨sid, ⟨key 1, key 0, key otk⟩, plaintext⟩)
  ⟨id, "did:b", "did:a", parts.2, parts.1, [], 0, 1, none, some (key 1).bytes⟩

def hello : Bytes := idealWire.encodeMessageContent ⟨"hello", [], [], none, ∅⟩

/-- We look for a session with did:b, one of its messages makes one, and we make ours over it; the other of its
messages had found none either. -/
def crossing : List (Step idealOlm) :=
  [.initSessionIfNeeded "did:b" (key 1) (key 8), .receiveMessage (first "m1" 7 5 hello),
    .receiveMessage (first "m2" 8 6 hello), .run 0 calm, .run 0 calm, .run 1 calm, .run 2 calm, .run 1 calm,
    .run 1 calm, .run 0 calm, .run 0 calm, .run 2 calm, .run 2 calm]

/-- A receipt fails on the content when its session is there; and a session is replaced twice. -/
theorem undecoded_and_replaced :
    (published.receiveMessage idealWire calm (first "m1" 7 5 [1])).1 = .error .protocol ∧
    ¬ published.Atomic idealWire calm (first "m1" 7 5 [1]) ∧
    ¬ StepSystem.Guarded (sessionRaceSys idealWire published) (fun w e => Unique published (w.next idealWire e))
      (start published) crossing := by
  have herror : (published.receiveMessage idealWire calm (first "m1" 7 5 [1])).1 = .error .protocol := by decide +kernel
  refine ⟨herror, fun h => ?_, ?_⟩
  · have hsame := congrArg (fun t => (t["did:b"]?).isSome) (h .protocol herror).1
    revert hsame
    decide +kernel
  · rintro ⟨-, -, -, -, -, -, -, -, -, -, -, -, hlast, -⟩
    have hkept := hlast.kept
    revert hkept
    decide +kernel

end OneSession
end Variance
