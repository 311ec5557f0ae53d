import Variance.Sanity.Trees
import Variance.Spec.Direct
import Variance.Spec.History

/-! What the direct-message handler does to its sessions: each operation puts at most one session, the
one for the peer it names, into memory and then onto disk. -/

namespace Variance
namespace DirectMessageHandler
variable {O : Olm} {h : DirectMessageHandler O} {W : Wire} {env : Env} {d : Did}
  {P : Did → O.Session → Prop}

/-- Every session, in memory or on disk, meets `P` for the peer it is kept for. -/
structure Sessions (P : Did → O.Session → Prop) (h : DirectMessageHandler O) : Prop where
  memory : ∀ (d : Did) (s : O.Session), h.sessions[d]? = some s → P d s
  disk : ∀ (d : Did) (s : O.Session), h.sessionPickles[d]? = some s → P d s

theorem Sessions.congr {h' : DirectMessageHandler O} (hs : Sessions P h) (hm : h'.sessions = h.sessions)
    (hd : h'.sessionPickles = h.sessionPickles) : Sessions P h' :=
  ⟨by rw [hm]; exact hs.memory, by rw [hd]; exact hs.disk⟩

theorem Sessions.insert (hs : Sessions P h) {s : O.Session} (hP : P d s) :
    Sessions P { h with sessions := h.sessions.insert d s } := by
  refine ⟨fun d' s' h' => ?_, hs.disk⟩
  rw [get_insert] at h'
  split_ifs at h' with hd
  · obtain rfl := Option.some.inj h'
    exact hd ▸ hP
  · exact hs.memory d' s' h'

theorem Sessions.persist (hs : Sessions P h) : Sessions P (h.persistSession env d).2 := by
  unfold persistSession
  split
  · exact hs
  · rename_i s hds
    refine ⟨hs.memory, fun d' s' h' => ?_⟩
    rcases get_treeInsert_some h' with ⟨rfl, rfl⟩ | hold
    · exact hs.memory _ _ hds
    · exact hs.disk d' s' hold

@[simp] theorem persistSession_sessions : (h.persistSession env d).2.sessions = h.sessions := by
  unfold persistSession
  split <;> rfl

@[simp] theorem persistSession_localDid : (h.persistSession env d).2.localDid = h.localDid := by
  unfold persistSession
  split <;> rfl

@[simp] theorem persistSession_account : (h.persistSession env d).2.account = h.account := by
  unfold persistSession
  split <;> rfl

@[simp] theorem persistSession_storage : (h.persistSession env d).2.storage = h.storage := by
  unfold persistSession
  split <;> rfl

theorem restoreSessions_get (hm : h.sessions = ∅) (d : Did) :
    h.restoreSessions.sessions[d]? = h.sessionPickles[d]? := by
  unfold restoreSessions
  rw [hm, foldl_insert_perm (.refl _)]

section
variable {file : O.Account}

theorem startUp_get (d : Did) : (h.startUp env file).2.sessions[d]? = h.sessionPickles[d]? := by
  unfold startUp
  exact restoreSessions_get rfl d

@[simp] theorem startUp_pickles : (h.startUp env file).2.sessionPickles = h.sessionPickles := rfl
@[simp] theorem startUp_localDid : (h.startUp env file).2.localDid = h.localDid := rfl

theorem Sessions.startUp (hs : Sessions P h) : Sessions P (h.startUp env file).2 :=
  ⟨fun d s hd => hs.disk d s (by rwa [startUp_get] at hd), hs.disk⟩

end

section
variable {m : DirectMessage} {c : MessageContent}

@[simp] theorem keepMessage_sessions : (h.keepMessage env m c).2.sessions = h.sessions := by
  unfold keepMessage
  split <;> rfl

@[simp] theorem keepMessage_pickles : (h.keepMessage env m c).2.sessionPickles = h.sessionPickles := by
  unfold keepMessage
  split <;> rfl

@[simp] theorem keepMessage_localDid : (h.keepMessage env m c).2.localDid = h.localDid := by
  unfold keepMessage
  split <;> rfl

@[simp] theorem keepMessage_account : (h.keepMessage env m c).2.account = h.account := by
  unfold keepMessage
  split <;> rfl

/-- A message is kept under its key and its content under its id, or nothing is. -/
theorem keepMessage_storage (h : DirectMessageHandler O) (env : Env) (m : DirectMessage) (c : MessageContent) :
    (h.keepMessage env m c).2.storage = if env.faults "direct_messages" m.key = true then h.storage
      else { h.storage with
        directMessages := h.storage.directMessages.insert m.key m
        plaintext := (treeInsert env.faults "plaintext_cache" m.id c h.storage.plaintext).2 } := by
  by_cases hf : env.faults "direct_messages" m.key = true
  · have hf' : env.faults "direct_messages"
        (LocalMessageStorage.directKey m.senderDid m.recipientDid m.timestamp m.id) = true := hf
    rw [if_pos hf]
    simp [keepMessage, LocalMessageStorage.storeDirect, treeInsert, hf']
  · have hf' : ¬ env.faults "direct_messages"
        (LocalMessageStorage.directKey m.senderDid m.recipientDid m.timestamp m.id) = true := hf
    rw [if_neg hf]
    simp [keepMessage, LocalMessageStorage.storeDirect, LocalMessageStorage.storePlaintext, treeInsert, hf',
      DirectMessage.key]

/-- Only the write of the message itself touches the messages. -/
theorem keepMessage_directMessages (h : DirectMessageHandler O) (env : Env) (m : DirectMessage) (c : MessageContent) :
    (h.keepMessage env m c).2.storage.directMessages =
      (treeInsert env.faults "direct_messages" m.key m h.storage.directMessages).2 := by
  rw [keepMessage_storage]
  cases hf : env.faults "direct_messages" m.key with
  | true => simp [treeInsert_error hf]
  | false => simp [treeInsert_ok hf]

theorem keepMessage_result : (h.keepMessage env m c).1 =
    if env.faults "direct_messages" m.key ∨ env.faults "plaintext_cache" m.id then .error .storage else .ok () := by
  unfold keepMessage LocalMessageStorage.storeDirect LocalMessageStorage.storePlaintext treeInsert DirectMessage.key
  by_cases hf : env.faults "direct_messages"
    (LocalMessageStorage.directKey m.senderDid m.recipientDid m.timestamp m.id) = true
  · simp [hf]
  · by_cases hp : env.faults "plaintext_cache" m.id = true
    · simp [hf, hp]
    · simp [hf, hp]

end

/-! What each operation does to the sessions -/

theorem Sessions.init (hs : Sessions P h) {ik otk : CurveKey}
    (hP : h.sessions[d]? = none → P d (O.createOutboundSession env.rng h.account ik otk)) :
    Sessions P (h.initSessionIfNeeded env d ik otk).2 := by
  unfold initSessionIfNeeded
  split
  · exact hs
  · rename_i hnone
    exact (hs.insert (hP hnone)).persist

theorem Sessions.send {c : MessageContent} (hs : Sessions P h)
    (hP : ∀ s, h.sessions[d]? = some s → P d (O.encrypt env.rng s (W.encodeMessageContent c)).2) :
    Sessions P (h.sendMessage W env d c).2 := by
  unfold sendMessage
  split_ifs
  · unfold sendSelfMessage
    exact hs.congr keepMessage_sessions keepMessage_pickles
  split
  · exact hs
  rename_i s hsome
  dsimp only
  have hins : Sessions P { h with
      sessions := h.sessions.insert d (O.encrypt env.rng s (W.encodeMessageContent c)).2 } :=
    hs.insert (hP s hsome)
  split
  · rename_i heq
    rw [← congrArg Prod.snd heq]
    exact hins.congr keepMessage_sessions keepMessage_pickles
  · rename_i heq
    have hh := congrArg Prod.snd heq
    dsimp only at hh ⊢
    refine Sessions.persist ?_
    rw [← hh]
    exact hins.congr keepMessage_sessions keepMessage_pickles

theorem Sessions.decryptFrom {m : DirectMessage} {m' : O.Message} (hs : Sessions P h)
    (hold : ∀ s, h.sessions[m.senderDid]? = some s → P m.senderDid (O.decrypt s m').2)
    (hnew : ∀ p key s b a, m' = .preKey p → h.sessions[m.senderDid]? = none →
      m.senderIdentityKey.bind CurveKey.ofBytes = some key →
      O.createInboundSession h.account key p = (.ok (s, b), a) → P m.senderDid s) :
    Sessions P (h.decryptFrom env m m').2 := by
  unfold DirectMessageHandler.decryptFrom
  split
  · rename_i p hnone
    unfold openInbound
    split
    · exact hs
    rename_i bytes hbytes
    split
    · exact hs
    rename_i key hkey
    split
    · exact hs.congr rfl rfl
    · exact hs.congr rfl rfl
    · rename_i s b a heq
      have hP := hnew p key s b a rfl hnone (by rw [hbytes]; exact hkey) heq
      have hsa : Sessions P { h with account := a } := hs.congr rfl rfl
      exact (hsa.insert hP).persist
  · exact hs
  · rename_i s hsome
    exact (hs.insert (hold s hsome)).persist
  · rename_i q s hsome
    have hins := hs.insert (hold s hsome)
    dsimp only
    split
    · exact hins
    · exact hins.persist

/-! and to everything else -/

@[simp] theorem persistSession_olmPickle : (h.persistSession env d).2.olmPickle = h.olmPickle := by
  unfold persistSession
  split <;> rfl

@[simp] theorem keepMessage_olmPickle {m : DirectMessage} {c : MessageContent} :
    (h.keepMessage env m c).2.olmPickle = h.olmPickle := by
  unfold keepMessage
  split <;> rfl

/-- The handler is the one it was but for its sessions and what it stored. -/
structure SameKeys (h h' : DirectMessageHandler O) : Prop where
  localDid : h'.localDid = h.localDid
  account : h'.account = h.account
  olmPickle : h'.olmPickle = h.olmPickle

theorem SameKeys.init {ik otk : CurveKey} : SameKeys h (h.initSessionIfNeeded env d ik otk).2 := by
  unfold initSessionIfNeeded initSessionAsInitiator
  split
  · exact ⟨rfl, rfl, rfl⟩
  · exact ⟨by simp, by simp, by simp⟩

theorem SameKeys.send {c : MessageContent} : SameKeys h (h.sendMessage W env d c).2 := by
  unfold sendMessage
  split_ifs
  · unfold sendSelfMessage
    exact ⟨by simp, by simp, by simp⟩
  split
  · exact ⟨rfl, rfl, rfl⟩
  dsimp only
  split
  · rename_i heq
    rw [← congrArg Prod.snd heq]
    exact ⟨by simp, by simp, by simp⟩
  · rename_i heq
    have hh := congrArg Prod.snd heq
    dsimp only at hh ⊢
    rw [← hh]
    exact ⟨by simp, by simp, by simp⟩

theorem decryptFrom_localDid {m : DirectMessage} {m' : O.Message} :
    (h.decryptFrom env m m').2.localDid = h.localDid ∧
      (h.decryptFrom env m m').2.olmPickle = h.olmPickle := by
  unfold DirectMessageHandler.decryptFrom
  split
  · unfold openInbound
    split
    · exact ⟨rfl, rfl⟩
    split
    · exact ⟨rfl, rfl⟩
    split
    · exact ⟨rfl, rfl⟩
    · exact ⟨rfl, rfl⟩
    · exact ⟨by simp, by simp⟩
  · exact ⟨rfl, rfl⟩
  · exact ⟨by simp, by simp⟩
  · dsimp only
    split
    · exact ⟨rfl, rfl⟩
    · exact ⟨by simp, by simp⟩

/-- Opening a message that is not to oneself is decrypting it. -/
theorem openMessage_eq (env : Env) {m : DirectMessage} (ht : m.olmMessageType ≠ olmMessageTypeSelf)
    {m' : O.Message} (hm : O.fromParts m.olmMessageType m.ciphertext = .ok m') :
    (h.openMessage W env m).2 = (h.decryptFrom env m m').2 ∧
      (∀ c, (h.openMessage W env m).1 = .ok c → ∃ b, (h.decryptFrom env m m').1 = .ok b) ∧
      ∀ b c, (h.decryptFrom env m m').1 = .ok b → W.decodeMessageContent b = some c →
        (h.openMessage W env m).1 = .ok c := by
  unfold openMessage
  rw [if_neg ht, hm]
  dsimp only
  split
  · rename_i heq
    simp [heq]
  · rename_i b h' heq
    rw [heq]
    split
    · rename_i hc
      refine ⟨rfl, by simp, ?_⟩
      rintro b' c ⟨⟩ hc'
      rw [hc] at hc'
      cases hc'
    · rename_i c' hc
      refine ⟨rfl, by simp, ?_⟩
      rintro b' c ⟨⟩ hc'
      rw [hc] at hc'
      cases hc'
      rfl

/-- Storing what was opened leaves the sessions as they are. -/
theorem receiveMessage_eq (h : DirectMessageHandler O) (W : Wire) (env : Env) (m : DirectMessage) :
    (h.receiveMessage W env m).2.sessions = (h.openMessage W env m).2.sessions ∧
    (h.receiveMessage W env m).2.sessionPickles = (h.openMessage W env m).2.sessionPickles ∧
    SameKeys (h.openMessage W env m).2 (h.receiveMessage W env m).2 := by
  unfold receiveMessage
  split
  · rename_i heq
    rw [heq]
    exact ⟨rfl, rfl, rfl, rfl, rfl⟩
  · rename_i heq
    rw [heq]
    exact ⟨by simp, by simp, by simp, by simp, by simp⟩

/-- The first key of 32 bytes is the one a session is made with; no later key is tried. -/
theorem tryOneTimeKeys_eq (h : DirectMessageHandler O) (env : Env) (d : Did) (ik : CurveKey)
    (otks : List Bytes) : (h.tryOneTimeKeys env d ik otks none).2 =
      match otks.findSome? CurveKey.ofBytes with
      | none => h
      | some otk => (h.initSessionIfNeeded env d ik otk).2 := by
  induction otks with
  | nil => rfl
  | cons b otks ih =>
    unfold tryOneTimeKeys
    cases hb : CurveKey.ofBytes b with
    | none => simpa [List.findSome?_cons, hb] using ih
    | some otk =>
      simp only [List.findSome?_cons, hb]
      have hnot (m : String) : (h.initSessionIfNeeded env d ik otk).1 ≠ .error (.staleOneTimeKey m) := by
        unfold initSessionIfNeeded initSessionAsInitiator persistSession
        split
        · simp
        · dsimp only
          split
          · simp
          · simp only [treeInsert]
            split_ifs <;> simp
      split
      · rename_i heq
        rw [heq]
      · rename_i m _ heq
        exact (hnot m (by rw [heq])).elim
      · rename_i heq
        rw [heq]

/-- A session comes from the first key of 32 bytes in an answer, or there is none. -/
theorem ensureOlmSession_eq (h : DirectMessageHandler O) (env : Env) (d : Did)
    (found : Except String IdentityFound) : (h.ensureOlmSession env d found).2 = h ∨
      h.sessions[d]? = none ∧ ∃ f ik otk, found = .ok f ∧ CurveKey.ofBytes f.olmIdentityKey = some ik ∧
        f.oneTimeKeys.findSome? CurveKey.ofBytes = some otk ∧
        (h.ensureOlmSession env d found).2 = (h.initSessionIfNeeded env d ik otk).2 := by
  unfold ensureOlmSession
  split_ifs with hself hsome
  · exact Or.inl rfl
  · exact Or.inl rfl
  split
  · exact Or.inl rfl
  rename_i f
  split
  · exact Or.inl rfl
  rename_i ik hik
  split_ifs
  · exact Or.inl rfl
  rw [tryOneTimeKeys_eq]
  split
  · exact Or.inl rfl
  · rename_i otk hotk
    exact Or.inr ⟨by simpa using hsome, f, ik, otk, rfl, hik, hotk, rfl⟩

theorem decryptFrom_storage {m : DirectMessage} {m' : O.Message} :
    (h.decryptFrom env m m').2.storage = h.storage := by
  unfold decryptFrom
  split
  · unfold openInbound
    split
    · rfl
    split
    · rfl
    split <;> simp
  · rfl
  · simp
  · dsimp only
    split <;> simp

theorem openMessage_storage {m : DirectMessage} :
    (h.openMessage W env m).2.storage = h.storage := by
  unfold openMessage
  split_ifs
  · split <;> rfl
  · split
    · rfl
    · rename_i m' _
      have hdec : (h.decryptFrom env m m').2.storage = h.storage := decryptFrom_storage
      split
      · rename_i heq
        simpa [heq] using hdec
      · rename_i heq
        split <;> simpa [heq] using hdec

end DirectMessageHandler
end Variance
