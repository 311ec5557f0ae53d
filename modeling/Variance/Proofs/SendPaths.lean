import Variance.Proofs.HistoryIntegrity
import Variance.Spec.SendPaths

/-! The WebSocket sends a message as the HTTP API does only when the session is there and the peer is connected, and
a message to a group never. -/

namespace Variance
variable {M : OpenMls} {O : Olm} {W : Wire} {env : Env} {p : P2pState} {d : Did} {c : MessageContent}

namespace DirectMessageHandler
variable {h : DirectMessageHandler O} {m : DirectMessage}

theorem sendMessage_unknown (hk : ¬ h.Known d) :
    h.sendMessage W env d c = (.error (.doubleRatchet ("No session with " ++ d)), h) := by
  have hself : d ≠ h.localDid := fun heq => hk (.inl heq)
  have hnone : h.sessions[d]? = none := by
    cases hs : h.sessions[d]? with
    | none => rfl
    | some s => exact absurd (.inr (by rw [hs]; rfl)) hk
  unfold sendMessage
  rw [if_neg hself, hnone]

/-- What is sent to a peer we have a session with: `m`, if it can be written. -/
structure Sends (h : DirectMessageHandler O) (env : Env) (d : Did) (c : MessageContent) (m : DirectMessage)
    (r : Except MsgError DirectMessage × DirectMessageHandler O) : Prop where
  id : m.id = env.ulid
  key : m.key = LocalMessageStorage.directKey h.localDid d env.now env.ulid
  result : r.1 = if h.Unwritable env d then .error .storage else .ok m
  storage : r.2.storage = (h.keepMessage env m c).2.storage
  olmPickle : r.2.olmPickle = h.olmPickle
  sessionPickles : h.Unwritable env d → r.2.sessionPickles = h.sessionPickles

section
variable {h₁ : DirectMessageHandler O} (hid : m.id = env.ulid)
  (hkey : m.key = LocalMessageStorage.directKey h.localDid d env.now env.ulid)
include hid hkey

theorem kept_result (c : MessageContent) (h₁ : DirectMessageHandler O) : (h₁.keepMessage env m c).1 =
    if h.Unwritable env d then .error .storage else .ok () := by
  rw [keepMessage_result, hid, hkey]
  rfl

/-- To oneself. -/
theorem sends_self : h.Sends env d c m ((h.keepMessage env m c).1.map fun _ => m, (h.keepMessage env m c).2) := by
  refine ⟨hid, hkey, ?_, rfl, keepMessage_olmPickle, fun _ => keepMessage_pickles⟩
  rw [kept_result hid hkey c h]
  split_ifs <;> rfl

/-- To a peer, in the session that has just been used. -/
theorem sends_peer (hs : h₁.storage = h.storage) (ho : h₁.olmPickle = h.olmPickle)
    (hp : h₁.sessionPickles = h.sessionPickles) : h.Sends env d c m
      (match h₁.keepMessage env m c with
      | (.error e, h) => (.error e, h)
      | (.ok (), h) => (.ok m, (h.persistSession env d).2)) := by
  have hstorage : (h₁.keepMessage env m c).2.storage = (h.keepMessage env m c).2.storage := by
    rw [keepMessage_storage, keepMessage_storage, hs]
  have holm : (h₁.keepMessage env m c).2.olmPickle = h.olmPickle := keepMessage_olmPickle.trans ho
  have hpickles : (h₁.keepMessage env m c).2.sessionPickles = h.sessionPickles := keepMessage_pickles.trans hp
  have hresult := kept_result hid hkey c h₁
  generalize h₁.keepMessage env m c = kept at hstorage holm hpickles hresult
  obtain ⟨r, h₂⟩ := kept
  dsimp only at hresult
  subst hresult
  by_cases hw : h.Unwritable env d
  · simp only [if_pos hw]
    exact ⟨hid, hkey, by rw [if_pos hw], hstorage, holm, fun _ => hpickles⟩
  · simp only [if_neg hw]
    exact ⟨hid, hkey, by rw [if_neg hw], persistSession_storage.trans hstorage, persistSession_olmPickle.trans holm,
      fun hw' => absurd hw' hw⟩

end

theorem signedMessage_id {t : ℕ} {b : Bytes} {k : Option Bytes} :
    (h.signedMessage W env d c t b k).id = env.ulid := rfl

theorem signedMessage_key {t : ℕ} {b : Bytes} {k : Option Bytes} :
    (h.signedMessage W env d c t b k).key = LocalMessageStorage.directKey h.localDid d env.now env.ulid := rfl

/-- For some message `m`. -/
theorem sendMessage_known (W : Wire) (env : Env) (c : MessageContent) (hk : h.Known d) :
    ∃ m, h.Sends env d c m (h.sendMessage W env d c) := by
  unfold sendMessage
  split_ifs with hself
  · subst hself
    exact ⟨_, sends_self signedMessage_id signedMessage_key⟩
  · cases hs : h.sessions[d]? with
    | none => simp [Known, hself, hs] at hk
    | some session =>
      exact ⟨_, sends_peer signedMessage_id signedMessage_key rfl rfl rfl⟩

end DirectMessageHandler

namespace App
variable {a : App M O} {text : String} {replyTo : Option String}

theorem sendDirectMessage_refused (ht : textRefused text) : a.sendDirectMessage W env p d text replyTo =
    (.error (.badRequest "Message must be 1–4096 characters"), a, []) :=
  if_pos ht

theorem wsSendDirectMessage_unknown (hk : ¬ a.handler.Known d) : a.wsSendDirectMessage W env p d text replyTo =
    (.error (.doubleRatchet ("No session with " ++ d)), a.withHandler a.handler, []) := by
  unfold wsSendDirectMessage
  rw [DirectMessageHandler.sendMessage_unknown hk]

/-- Without a session the keys are asked for, if there is anybody to ask. -/
theorem sessionLookup_unknown (hk : ¬ a.handler.Known d) :
    a.handler.sessionLookup p d = (p.resolveIdentityByDid d).2 :=
  if_neg hk

theorem sendDirectMessage_asks (ht : ¬ textRefused text) (hk : ¬ a.handler.Known d)
    {found : Except String IdentityFound} (hl : p.lookup = some found) :
    .resolve d ∈ (a.sendDirectMessage W env p d text replyTo).2.2 := by
  have hasked : a.handler.sessionLookup p d = [.resolve d] := by
    rw [sessionLookup_unknown hk, P2pState.resolveIdentityByDid, hl]
  unfold sendDirectMessage
  rw [if_neg ht, hasked]
  dsimp only
  split
  · exact List.mem_singleton_self _
  · split
    · exact List.mem_singleton_self _
    · exact List.mem_append_left _ (List.mem_singleton_self _)

theorem sendDirectMessage_alone (W : Wire) (env : Env) (replyTo : Option String) (ht : ¬ textRefused text)
    (hk : ¬ a.handler.Known d) (hl : p.lookup = none) :
    ∃ e, a.sendDirectMessage W env p d text replyTo = (.error e, a.withHandler a.handler, []) := by
  have hself : d ≠ a.handler.localDid := fun heq => hk (.inl heq)
  have hsession : ¬ (a.handler.sessions[d]?).isSome := fun hs => hk (.inr hs)
  unfold sendDirectMessage DirectMessageHandler.ensureOlmSession
  rw [if_neg ht, sessionLookup_unknown hk, P2pState.resolveIdentityByDid, hl, if_neg hself, if_neg hsession]
  exact ⟨_, rfl⟩

theorem ensureOlmSession_known {h : DirectMessageHandler O} {found : Except String IdentityFound} (hk : h.Known d) :
    h.ensureOlmSession env d found = (.ok (), h) := by
  unfold DirectMessageHandler.ensureOlmSession
  rcases hk with hself | hs
  · rw [if_pos hself]
  · split_ifs <;> rfl

/-- With a session, the HTTP handler does what the WebSocket's does, and queues what the node does not take. -/
theorem sendDirectMessage_known (ht : ¬ textRefused text) (hk : a.handler.Known d) :
    a.sendDirectMessage W env p d text replyTo =
      match a.handler.sendMessage W env d (textContent text replyTo) with
      | (.error e, h) => (.error (.wrap "Failed to send message" e), a.withHandler h, [])
      | (.ok message, h) =>
        (.ok (), a.withHandler (h.sendDmToPeer env p d message).1, (h.sendDmToPeer env p d message).2) := by
  have hasked : a.handler.sessionLookup p d = [] := if_pos hk
  unfold sendDirectMessage
  rw [if_neg ht, hasked, ensureOlmSession_known hk]
  rfl

end App

namespace SendRequest
variable {a : App M O} {text : String} {replyTo : Option String} {g : String}

theorem outcome_withHandler {refused : Bool} {h : DirectMessageHandler O} {out : List Outward} :
    outcome refused a (a.withHandler h) out = ⟨refused, h.storage, h.sessionPickles, h.olmPickle, out⟩ := by
  simp [outcome, App.withHandler]

/-- Refused, and nothing done. -/
def untouched (a : App M O) : SendOutcome O := ⟨true, a.node.storage, a.dms.sessionPickles, a.dms.olmPickle, []⟩

/-! A direct message -/

theorem http_refused (ht : textRefused text) : overHttp W a env p (.direct d text replyTo) = untouched a := by
  simp only [overHttp, App.sendDirectMessage_refused ht]
  simp [outcome, untouched, Except.toOption]

theorem ws_unknown (hk : ¬ a.handler.Known d) :
    overWebSocket W a env p (.direct d text replyTo) = untouched a := by
  simp only [overWebSocket, App.wsSendDirectMessage_unknown hk]
  exact outcome_withHandler

theorem http_alone (ht : ¬ textRefused text) (hk : ¬ a.handler.Known d) (hl : p.lookup = none) :
    overHttp W a env p (.direct d text replyTo) = untouched a := by
  obtain ⟨e, he⟩ := App.sendDirectMessage_alone W env replyTo ht hk hl
  simp only [overHttp, he]
  exact outcome_withHandler

theorem http_asks (W : Wire) (env : Env) (replyTo : Option String) (ht : ¬ textRefused text)
    (hk : ¬ a.handler.Known d) {found : Except String IdentityFound}
    (hl : p.lookup = some found) : .resolve d ∈ (overHttp W a env p (.direct d text replyTo)).outward :=
  List.mem_append_left _ (App.sendDirectMessage_asks ht hk hl)

/-- What the WebSocket's handler comes to in a session. -/
theorem ws_known {m : DirectMessage} {r : Except MsgError DirectMessage × DirectMessageHandler O}
    (hr : a.handler.sendMessage W env d (textContent text replyTo) = r)
    (hs : a.handler.Sends env d (textContent text replyTo) m r) :
    overWebSocket W a env p (.direct d text replyTo) =
      ⟨a.handler.Unwritable env d, r.2.storage, r.2.sessionPickles, r.2.olmPickle,
        if a.handler.Unwritable env d then [] else (p.sendDirectMessage d m).2⟩ := by
  obtain ⟨res, h⟩ := r
  obtain rfl := hs.result
  simp only [overWebSocket, App.wsSendDirectMessage, hr]
  by_cases hw : a.handler.Unwritable env d
  · simp only [if_pos hw, decide_eq_true hw]
    exact outcome_withHandler
  · simp only [if_neg hw, decide_eq_false hw]
    exact outcome_withHandler

/-- And the HTTP handler. -/
theorem http_known (ht : ¬ textRefused text) (hk : a.handler.Known d) {m : DirectMessage}
    {r : Except MsgError DirectMessage × DirectMessageHandler O}
    (hr : a.handler.sendMessage W env d (textContent text replyTo) = r)
    (hs : a.handler.Sends env d (textContent text replyTo) m r) :
    overHttp W a env p (.direct d text replyTo) =
      ⟨a.handler.Unwritable env d,
        if a.handler.Unwritable env d ∨ (p.sendDirectMessage d m).1 then r.2.storage
        else (r.2.storage.storePendingMessage env.faults d m).2,
        r.2.sessionPickles, r.2.olmPickle,
        if a.handler.Unwritable env d then [] else (p.sendDirectMessage d m).2⟩ := by
  obtain ⟨res, h⟩ := r
  obtain rfl := hs.result
  simp only [overHttp, App.sendDirectMessage_known ht hk, hr]
  by_cases hw : a.handler.Unwritable env d
  · simp only [if_pos hw, decide_eq_true hw, if_pos (Or.inl hw)]
    exact outcome_withHandler
  · simp only [if_neg hw, decide_eq_false hw]
    rw [outcome_withHandler]
    unfold DirectMessageHandler.sendDmToPeer
    generalize p.sendDirectMessage d m = answer
    obtain ⟨taken, sent⟩ := answer
    cases taken with
    | true => simp [Except.toOption]
    | false => simp [Except.toOption, hw]

/-- Nothing is queued when the node takes the message, or when the queue cannot be written. -/
theorem queue_unchanged_iff (env : Env) {s : LocalMessageStorage} {m : DirectMessage}
    (hnew : s.pendingMessages[LocalMessageStorage.pendingKey d m.id]? = none) :
    (s.storePendingMessage env.faults d m).2 = s ↔
      env.faults "pending_messages" (LocalMessageStorage.pendingKey d m.id) = true := by
  unfold LocalMessageStorage.storePendingMessage
  dsimp only
  cases hf : env.faults "pending_messages" (LocalMessageStorage.pendingKey d m.id) with
  | true =>
    rw [treeInsert_error hf]
    simp
  | false =>
    rw [treeInsert_ok hf]
    refine iff_of_false (fun hsame => ?_) Bool.false_ne_true
    have hqueue := congrArg LocalMessageStorage.pendingMessages hsame
    dsimp only at hqueue
    rw [← hqueue, Std.ExtTreeMap.getElem?_insert_self] at hnew
    cases hnew

theorem sendDirectMessage_taken_iff {m : DirectMessage} :
    (p.sendDirectMessage d m).1 = true ↔ some d = p.localDid ∨ p.reachable := by
  unfold P2pState.sendDirectMessage
  split_ifs with h₁ h₂
  · simp [h₁]
  · simp [h₂]
  · simp [h₁, h₂]

/-- Nothing of a message that is refused over HTTP is left when it could not be written. -/
theorem refused_known_iff (hk : a.handler.Known d) (ht : textRefused text)
    (hid : a.node.storage.Unused env.ulid) :
    overHttp W a env p (.direct d text replyTo) = overWebSocket W a env p (.direct d text replyTo) ↔
      env.faults "direct_messages" (LocalMessageStorage.directKey a.handler.localDid d env.now env.ulid) = true := by
  obtain ⟨m, hs⟩ := DirectMessageHandler.sendMessage_known W env (textContent text replyTo) hk
  rw [http_refused ht, ws_known rfl hs]
  have hstorage := hs.storage
  rw [DirectMessageHandler.keepMessage_storage, hs.key] at hstorage
  constructor
  · intro heq
    by_contra hf
    rw [if_neg hf] at hstorage
    have hold : a.node.storage.directMessages[m.key]? = none := by
      rw [hs.key]
      exact hid.direct _ _ _
    have hsame : a.node.storage = _ := (congrArg SendOutcome.storage heq).trans hstorage
    rw [hsame] at hold
    simp [hs.key] at hold
  · intro hf
    have hw : a.handler.Unwritable env d := Or.inl hf
    rw [if_pos hf] at hstorage
    rw [decide_eq_true hw, if_pos hw, hstorage, hs.olmPickle, hs.sessionPickles hw]
    rfl

theorem sent_known_iff (hk : a.handler.Known d) (ht : ¬ textRefused text) (hid : a.node.storage.Unused env.ulid) :
    overHttp W a env p (.direct d text replyTo) = overWebSocket W a env p (.direct d text replyTo) ↔
      a.handler.Unwritable env d ∨ (some d = p.localDid ∨ p.reachable) ∨
        env.faults "pending_messages" (LocalMessageStorage.pendingKey d env.ulid) = true := by
  obtain ⟨m, hs⟩ := DirectMessageHandler.sendMessage_known W env (textContent text replyTo) hk
  rw [http_known ht hk rfl hs, ws_known rfl hs, ← sendDirectMessage_taken_iff (m := m), ← or_assoc]
  have hnew : (a.handler.sendMessage W env d (textContent text replyTo)).2.storage.pendingMessages[
      LocalMessageStorage.pendingKey d m.id]? = none := by
    rw [hs.storage, DirectMessageHandler.keepMessage_storage, hs.id]
    split_ifs <;> exact hid.pending d
  have hqueue := queue_unchanged_iff env hnew
  rw [hs.id] at hqueue
  by_cases hdone : a.handler.Unwritable env d ∨ (p.sendDirectMessage d m).1 = true
  · simp [hdone]
  · simp [hdone, hqueue]

end SendRequest

/-! A group message -/

namespace Node
variable {n : Node M} {g text : String} {replyTo : Option String}

theorem requireNotFrozen_ok_iff : n.requireNotFrozen g = .ok () ↔ ¬ n.Frozen g := by
  rw [requireNotFrozen_iff]
  simp [Frozen]

/-- What the HTTP handler takes on. -/
def HttpSends (n : Node M) (W : Wire) (env : Env) (g text : String) (replyTo : Option String) : Prop :=
  ¬ textRefused text ∧ ¬ n.Frozen g ∧
    n.Encrypts g (W.encodeGroupPayload (.message (textContent text replyTo))) env.rng

theorem Encrypts.made {b : Bytes} {rng : ℕ} (he : n.Encrypts g b rng) :
    ∃ m bytes mls, n.mls.encryptMessage g b rng = (.ok m, mls) ∧ M.serializeMessage m = .ok bytes := by
  obtain ⟨m, bytes, hm, hb⟩ := he
  exact ⟨m, bytes, _, Prod.ext hm rfl, hb⟩

/-- Either openmls makes no message, or the one that it makes does not serialize. -/
theorem not_encrypts {b : Bytes} {rng : ℕ} (he : ¬ n.Encrypts g b rng) :
    (∃ e mls, n.mls.encryptMessage g b rng = (.error e, mls)) ∨
      ∃ m e mls, n.mls.encryptMessage g b rng = (.ok m, mls) ∧ M.serializeMessage m = .error e := by
  cases hr : (n.mls.encryptMessage g b rng).1 with
  | error e => exact Or.inl ⟨e, _, Prod.ext hr rfl⟩
  | ok m =>
    cases hs : M.serializeMessage m with
    | error e => exact Or.inr ⟨m, e, _, Prod.ext hr rfl, hs⟩
    | ok bytes => exact absurd ⟨m, bytes, hr, hs⟩ he

theorem sendGroupContent_sends (he : n.Encrypts g (W.encodeGroupPayload (.message c)) env.rng) :
    ∃ m, (n.sendGroupContent W env g c true).1 = .ok () ∧ (n.sendGroupContent W env g c true).2.effects =
      n.effects ++ [.publish (groupTopic g) m, .schedulePersist] := by
  obtain ⟨mlsMsg, bytes, mls, hmsg, hbytes⟩ := he.made
  unfold sendGroupContent
  rw [hmsg]
  dsimp only
  rw [hbytes]
  exact ⟨_, rfl, List.append_assoc _ _ _⟩

theorem sendGroupContent_refuses (he : ¬ n.Encrypts g (W.encodeGroupPayload (.message c)) env.rng) :
    (∃ e, (n.sendGroupContent W env g c true).1 = .error e) ∧
      (n.sendGroupContent W env g c true).2.effects = n.effects ∧
      (n.sendGroupContent W env g c true).2.storage = n.storage := by
  unfold sendGroupContent
  rcases not_encrypts he with ⟨e, mls, hmsg⟩ | ⟨mlsMsg, e, mls, hmsg, hs⟩
  · rw [hmsg]
    exact ⟨⟨_, rfl⟩, rfl, rfl⟩
  · rw [hmsg]
    dsimp only
    rw [hs]
    exact ⟨⟨_, rfl⟩, rfl, rfl⟩

theorem mlsSendGroupMessage_sends (hs : n.HttpSends W env g text replyTo) :
    ∃ m, (n.mlsSendGroupMessage W env g text replyTo ∅).2.effects =
      n.effects ++ [.publish (groupTopic g) m, .schedulePersist] := by
  obtain ⟨ht, hf, he⟩ := hs
  obtain ⟨m, -, hm⟩ := sendGroupContent_sends he
  refine ⟨m, ?_⟩
  have hlen : ¬ (text.toList.all Char.isWhitespace ∨ 4096 < text.utf8ByteSize) := by simpa [textRefused] using ht
  unfold mlsSendGroupMessage
  rw [if_neg hlen, requireNotFrozen_ok_iff.2 hf]
  exact hm

theorem mlsSendGroupMessage_refuses (hs : ¬ n.HttpSends W env g text replyTo) :
    (∃ e, (n.mlsSendGroupMessage W env g text replyTo ∅).1 = .error e) ∧
      (n.mlsSendGroupMessage W env g text replyTo ∅).2.effects = n.effects ∧
      (n.mlsSendGroupMessage W env g text replyTo ∅).2.storage = n.storage := by
  unfold mlsSendGroupMessage
  split_ifs with hlen
  · exact ⟨⟨_, rfl⟩, rfl, rfl⟩
  · have ht : ¬ textRefused text := by simpa [textRefused] using hlen
    cases hf : n.requireNotFrozen g with
    | error e => exact ⟨⟨_, rfl⟩, rfl, rfl⟩
    | ok u =>
      have hthaw : ¬ n.Frozen g := requireNotFrozen_ok_iff.1 hf
      exact sendGroupContent_refuses fun he => hs ⟨ht, hthaw, he⟩

theorem wsSendGroupMessage_sends (he : n.Encrypts g (W.encodeMessageContent (textContent text replyTo)) env.rng) :
    ∃ m w, (n.wsSendGroupMessage W env g text replyTo).effects =
      n.effects ++ [.publish (groupTopic g) m, .ws w] := by
  obtain ⟨mlsMsg, bytes, mls, hmsg, hbytes⟩ := he.made
  unfold textContent at hmsg
  unfold wsSendGroupMessage
  dsimp only
  rw [hmsg]
  dsimp only
  rw [hbytes]
  exact ⟨_, _, List.append_assoc _ _ _⟩

theorem wsSendGroupMessage_refuses (he : ¬ n.Encrypts g (W.encodeMessageContent (textContent text replyTo)) env.rng) :
    (n.wsSendGroupMessage W env g text replyTo).effects = n.effects ∧
      (n.wsSendGroupMessage W env g text replyTo).storage = n.storage := by
  unfold textContent at he
  unfold wsSendGroupMessage
  dsimp only
  rcases not_encrypts he with ⟨e, mls, hmsg⟩ | ⟨mlsMsg, e, mls, hmsg, hs⟩
  · rw [hmsg]
    exact ⟨rfl, rfl⟩
  · rw [hmsg]
    dsimp only
    rw [hs]
    exact ⟨rfl, rfl⟩

end Node

namespace SendRequest
variable {a : App M O} {text : String} {replyTo : Option String} {g : String}

theorem outward_append {refused : Bool} {n : Node M} {es : List Effect} (h : n.effects = a.node.effects ++ es) :
    (outcome refused a { a with node := n } []).outward = es.filterMap Effect.outward := by
  simp [outcome, h]

theorem outcome_untouched {n : Node M} (he : n.effects = a.node.effects) (hs : n.storage = a.node.storage) :
    outcome true a { a with node := n } [] = untouched a := by
  simp [outcome, untouched, he, hs]

theorem http_group_sends (h : a.node.HttpSends W env g text replyTo) :
    ∃ m, (overHttp W a env p (.group g text replyTo)).outward = [.publish (groupTopic g) m, .persistMls] := by
  obtain ⟨m, hm⟩ := Node.mlsSendGroupMessage_sends h
  exact ⟨m, outward_append hm⟩

theorem http_group_refuses (h : ¬ a.node.HttpSends W env g text replyTo) :
    overHttp W a env p (.group g text replyTo) = untouched a := by
  obtain ⟨⟨e, he⟩, heffects, hstorage⟩ := Node.mlsSendGroupMessage_refuses h
  simp only [overHttp, he]
  exact outcome_untouched heffects hstorage

theorem ws_group_sends (h : a.node.Encrypts g (W.encodeMessageContent (textContent text replyTo)) env.rng) :
    ∃ m, (overWebSocket W a env p (.group g text replyTo)).outward = [.publish (groupTopic g) m] := by
  obtain ⟨m, w, hm⟩ := Node.wsSendGroupMessage_sends h
  exact ⟨m, outward_append hm⟩

theorem ws_group_refuses (h : ¬ a.node.Encrypts g (W.encodeMessageContent (textContent text replyTo)) env.rng) :
    overWebSocket W a env p (.group g text replyTo) = untouched a := by
  obtain ⟨heffects, hstorage⟩ := Node.wsSendGroupMessage_refuses h
  simp only [overWebSocket, heffects, decide_true]
  exact outcome_untouched heffects hstorage

/-- A group message is the same either way when neither handler sends it: of the two only one persists. -/
theorem group_iff : overWebSocket W a env p (.group g text replyTo) = overHttp W a env p (.group g text replyTo) ↔
    ¬ a.node.Encrypts g (W.encodeMessageContent (textContent text replyTo)) env.rng ∧
      ¬ a.node.HttpSends W env g text replyTo := by
  constructor
  · intro heq
    have hout := congrArg SendOutcome.outward heq
    refine ⟨fun hw => ?_, fun hh => ?_⟩
    · obtain ⟨m, hm⟩ := ws_group_sends (p := p) hw
      rw [hm] at hout
      by_cases hh : a.node.HttpSends W env g text replyTo
      · obtain ⟨m', hm'⟩ := http_group_sends (p := p) hh
        rw [hm'] at hout
        cases hout
      · rw [http_group_refuses hh] at hout
        cases hout
    · obtain ⟨m, hm⟩ := http_group_sends (p := p) hh
      rw [hm] at hout
      by_cases hw : a.node.Encrypts g (W.encodeMessageContent (textContent text replyTo)) env.rng
      · obtain ⟨m', hm'⟩ := ws_group_sends (p := p) hw
        rw [hm'] at hout
        cases hout
      · rw [ws_group_refuses hw] at hout
        cases hout
  · rintro ⟨hw, hh⟩
    rw [ws_group_refuses hw, http_group_refuses hh]

end SendRequest

/-- Over the WebSocket our own text is in no store: MLS does not open what we sent. -/
theorem Node.wsSendGroupMessage_plaintext {n : Node M} {g text : String} {replyTo : Option String} :
    (n.wsSendGroupMessage W env g text replyTo).storage.groupPlaintext = n.storage.groupPlaintext := by
  unfold Node.wsSendGroupMessage
  dsimp only
  split
  · rfl
  · split
    · rfl
    · rfl

theorem Node.sendGroupContent_lastReadAt {n : Node M} {g : String} :
    (n.sendGroupContent W env g c true).2.storage.lastReadAt = n.storage.lastReadAt := by
  unfold Node.sendGroupContent
  dsimp only
  split
  · rfl
  · split
    · rfl
    · rfl

/-- Over HTTP the group is not marked as read. -/
theorem Node.mlsSendGroupMessage_lastReadAt {n : Node M} {g text : String} {replyTo : Option String} :
    (n.mlsSendGroupMessage W env g text replyTo ∅).2.storage.lastReadAt = n.storage.lastReadAt := by
  unfold Node.mlsSendGroupMessage
  split_ifs
  · rfl
  · split
    · rfl
    · exact Node.sendGroupContent_lastReadAt

namespace SendPaths

/-- `did:a`, that has written to `did:b` before. -/
def talking : App idealMls idealOlm :=
  { HistoryIntegrity.start with
    dms := { HistoryIntegrity.start.dms with
      sessions := (∅ : SledTree IdealOlm.Session).insert "did:b"
        ⟨7, true, true, IdealOlm.key 1, ⟨IdealOlm.key 0, IdealOlm.key 1, IdealOlm.key 5⟩⟩ } }

def calm : Env := ⟨0, 0, "01", noFaults, true⟩

def online : P2pState := ⟨some "did:a", none, true⟩

def offline : P2pState := ⟨some "did:a", none, false⟩

theorem talking_unused : talking.node.storage.Unused calm.ulid :=
  ⟨fun _ _ _ => Std.ExtTreeMap.getElem?_empty, fun _ => Std.ExtTreeMap.getElem?_empty⟩

theorem talking_known : talking.handler.Known "did:b" := by decide +kernel

end SendPaths
end Variance
