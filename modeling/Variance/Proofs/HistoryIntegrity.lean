import Variance.Sanity.Filed
import Variance.Sanity.Handshakes
import Variance.Sanity.IdealGroup
import Variance.Sanity.IdealOlm

/-! A message from outside leaves what others wrote alone, as long as it takes nobody else's id or key, and but for
the group that it takes us out of. -/

namespace Variance

open LocalMessageStorage

namespace DirectMessageHandler
variable {O : Olm} {h : DirectMessageHandler O} {W : Wire} {env : Env} {k id : String} {m : DirectMessage}
  {c : MessageContent}

/-- What the handler keeps touches one message and one content. -/
structure Keeps (k id : String) (s s' : LocalMessageStorage) : Prop where
  direct : s'.directMessages[k]? = s.directMessages[k]?
  plaintext : s'.plaintext[id]? = s.plaintext[id]?

theorem keeps_keepMessage (hk : k ≠ m.key) (hid : id ≠ m.id) :
    Keeps k id h.storage (h.keepMessage env m c).2.storage := by
  rw [keepMessage_storage]
  split_ifs
  · exact ⟨rfl, rfl⟩
  · refine ⟨?_, ?_⟩
    · simp [Ne.symm hk]
    · rw [get_treeInsert, if_neg fun hif => hid hif.1.symm]

theorem keepMessage_group : (h.keepMessage env m c).2.storage.groupMessages = h.storage.groupMessages ∧
    (h.keepMessage env m c).2.storage.groupPlaintext = h.storage.groupPlaintext := by
  rw [keepMessage_storage]
  split_ifs
  · exact ⟨rfl, rfl⟩
  · exact ⟨rfl, rfl⟩

theorem filed_keepMessage (hs : h.storage.Filed) : (h.keepMessage env m c).2.storage.Filed := by
  rw [keepMessage_storage]
  split_ifs
  · exact hs
  · refine ⟨fun k x hx => ?_, hs.group⟩
    rw [get_insert] at hx
    split_ifs at hx with hk
    · rw [← Option.some.inj hx]
      exact hk
    · exact hs.direct k x hx

/-- A message received changes nothing in the store, or is kept. -/
theorem receiveMessage_cases (h : DirectMessageHandler O) (W : Wire) (env : Env) (m : DirectMessage) :
    (h.receiveMessage W env m).2.storage = h.storage ∨
      ∃ (h' : DirectMessageHandler O) (c : MessageContent), h'.storage = h.storage ∧
        (h.receiveMessage W env m).2 = (h'.keepMessage env m c).2 := by
  have hopen : (h.openMessage W env m).2.storage = h.storage := openMessage_storage
  unfold receiveMessage
  split
  · rename_i heq
    rw [heq] at hopen
    exact Or.inl hopen
  · rename_i c h' heq
    rw [heq] at hopen
    exact Or.inr ⟨h', c, hopen, rfl⟩

theorem initSessionIfNeeded_storage {d : Did} {ik otk : CurveKey} :
    (h.initSessionIfNeeded env d ik otk).2.storage = h.storage := by
  unfold initSessionIfNeeded
  split
  · rfl
  · exact persistSession_storage

theorem ensureOlmSession_storage {d : Did} {found : Except String IdentityFound} :
    (h.ensureOlmSession env d found).2.storage = h.storage := by
  rcases h.ensureOlmSession_eq env d found with heq | ⟨-, f, ik, otk, -, -, -, heq⟩
  · rw [heq]
  · rw [heq, initSessionIfNeeded_storage]

theorem filed_receiveMessage (hs : h.storage.Filed) : (h.receiveMessage W env m).2.storage.Filed := by
  rcases h.receiveMessage_cases W env m with heq | ⟨h', c, hst, heq⟩
  · rw [heq]
    exact hs
  · rw [heq]
    exact filed_keepMessage (hst ▸ hs)

theorem filed_sendMessage {d : Did} (hs : h.storage.Filed) : (h.sendMessage W env d c).2.storage.Filed := by
  unfold sendMessage
  split_ifs
  · exact filed_keepMessage hs
  · split
    · exact hs
    · rename_i session _
      dsimp only
      split
      · rename_i heq
        have hk := congrArg (fun w => w.2.storage) heq
        exact hk ▸ filed_keepMessage hs
      · rename_i heq
        have hk := congrArg (fun w => w.2.storage) heq
        rw [persistSession_storage]
        exact hk ▸ filed_keepMessage hs

end DirectMessageHandler

namespace Node
variable {M : OpenMls} {n : Node M} {W : Wire} {env : Env}

/-- The direct listener drops no message but the one it was given. -/
theorem acts_dropped (n : Node M) (W : Wire) (env : Env) (d : Did) (mid : String) (ts : ℤ) (content : MessageContent) :
    Acts (fun w => SettleWrite w ∨ (∃ i, w = .pendingInvitation i) ∨ w = .noDirect d n.localDid ts mid) n
      (n.handleDirectContent W env d mid ts content) := by
  have hforget {n' : Node M}
      (h : Acts (fun w => SettleWrite w ∨ (∃ i, w = .pendingInvitation i) ∨ w = .noDirect d n.localDid ts mid) n n') :
      Acts (fun w => SettleWrite w ∨ (∃ i, w = .pendingInvitation i) ∨ w = .noDirect d n.localDid ts mid) n
        (n'.store fun s => s.deleteDirectById env.faults d n'.localDid ts mid) :=
    h.store env.faults (.noDirect d n'.localDid ts mid) (Or.inr (Or.inr (by rw [h.localDid]))) fun _ => rfl
  unfold handleDirectContent
  dsimp only
  split
  · refine hforget ?_
    split
    · rename_i hex _
      refine (acts_handleGroupInvitationDm n W env hex d).mono fun w hw => ?_
      obtain ⟨i, -, rfl⟩ := hw
      exact Or.inr (Or.inl ⟨i, rfl⟩)
    · exact .refl _ _
  · refine hforget ?_
    split
    · exact (acts_handleInviteAcceptedDm _ _ _ _).mono fun _ => Or.inl
    · exact .refl _ _
  · refine hforget ?_
    split
    · exact (acts_handleInviteDeclinedDm _ _ _ _).mono fun _ => Or.inl
    · exact .refl _ _
  · exact ((Acts.refl _ _).emit _).emit _

end Node

namespace App
variable {M : OpenMls} {O : Olm} {W : Wire} {a : App M O} {env : Env}

@[simp] theorem withHandler_storage (h : DirectMessageHandler O) : (a.withHandler h).node.storage = h.storage := rfl

/-- What the direct listener makes of the store: what the handler keeps, and then what the content asks for. -/
theorem receiveDirect_storage (W : Wire) (a : App M O) (env : Env) (m : DirectMessage) :
    (a.receiveDirect W env m).node.storage = (a.handler.receiveMessage W env m).2.storage ∨
      ∃ n content, n.localDid = a.node.localDid ∧ n.storage = (a.handler.receiveMessage W env m).2.storage ∧
        (a.receiveDirect W env m).node.storage =
          (Node.handleDirectContent (M := M) n W env m.senderDid m.id m.timestamp content).storage := by
  unfold receiveDirect
  rcases a.handler.receiveMessage W env m with ⟨e | content, h⟩
  · exact Or.inl rfl
  · refine Or.inr ⟨{ a.node with storage := h.storage }, content, rfl, rfl, ?_⟩
    dsimp only
    split_ifs
    · rfl
    · rfl

theorem filed_step (o : AppOp M O) (hs : a.node.storage.Filed) : (a.step W o).node.storage.Filed := by
  have hh : a.handler.storage.Filed := hs
  cases o with
  | node o =>
    have hexec := (Node.acts_exec W a.node o).filed hs
    cases o with
    | direct env d mid ts c => exact hs
    | _ => exact hexec
  | sendDirect env d found content =>
    change (a.sendDirect W env d found content).node.storage.Filed
    unfold sendDirect
    have hst : (a.handler.ensureOlmSession env d found).2.storage = a.handler.storage :=
      DirectMessageHandler.ensureOlmSession_storage
    split
    · rename_i h heq
      rw [heq] at hst
      have hstore : h.storage = a.handler.storage := hst
      rw [withHandler_storage, hstore]
      exact hh
    · rename_i h heq
      rw [heq] at hst
      have hstore : h.storage = a.handler.storage := hst
      exact DirectMessageHandler.filed_sendMessage (by rw [hstore]; exact hh)
  | receiveDirect env m =>
    have hr : (a.handler.receiveMessage W env m).2.storage.Filed := DirectMessageHandler.filed_receiveMessage hh
    change (a.receiveDirect W env m).node.storage.Filed
    rcases a.receiveDirect_storage W env m with heq | ⟨n, content, -, hn, heq⟩
    · rw [heq]
      exact hr
    · rw [heq]
      exact (Node.acts_dropped n W env m.senderDid m.id m.timestamp content).filed (hn ▸ hr)
  | view env key =>
    simp only [step]
    split
    · exact hs
    · rename_i m _
      unfold DirectMessageHandler.getMessageContent
      split
      · exact hh
      · exact DirectMessageHandler.filed_receiveMessage hh
  | deleteConversation env peer =>
    refine hs.sub (fun k x hx => deleteDirectConversation_some hx) fun k x hx => ?_
    simp only [step, Node.store_storage] at hx
    rwa [deleteDirectConversation_group] at hx
  | restart env identityFile snapshot => exact hh

theorem filed_reachable (h : StepSystem.Reachable (appSys M O W) a) : a.node.storage.Filed :=
  h.invariant (I := fun a => a.node.storage.Filed) (fun _ hf => by rw [hf.storage]; exact .empty)
    fun _ o hs _ => filed_step o hs

/-! The three listeners -/

variable {R : String → Prop}

theorem intact_direct {m : DirectMessage} (hf : a.node.storage.Filed) (hc : (Inbound.direct m).Clear a) :
    a.Intact (a.receiveDirect W env m) (.direct m) R := by
  have hkept {k id : String} (hk : k ≠ m.key) (hid : id ≠ m.id) :
      DirectMessageHandler.Keeps k id a.node.storage (a.handler.receiveMessage W env m).2.storage := by
    rcases a.handler.receiveMessage_cases W env m with heq | ⟨h', c, hst, heq⟩
    · rw [heq]
      exact ⟨rfl, rfl⟩
    · rw [heq]
      have hkeeps : DirectMessageHandler.Keeps k id h'.storage (h'.keepMessage env m c).2.storage :=
        DirectMessageHandler.keeps_keepMessage hk hid
      rw [hst] at hkeeps
      exact hkeeps
  have hgroup : (a.handler.receiveMessage W env m).2.storage.groupMessages = a.node.storage.groupMessages ∧
      (a.handler.receiveMessage W env m).2.storage.groupPlaintext = a.node.storage.groupPlaintext := by
    rcases a.handler.receiveMessage_cases W env m with heq | ⟨h', c, hst, heq⟩
    · rw [heq]
      exact ⟨rfl, rfl⟩
    · rw [heq, DirectMessageHandler.keepMessage_group.1, DirectMessageHandler.keepMessage_group.2, hst]
      exact ⟨rfl, rfl⟩
  refine ⟨fun k x hx hforeign => ?_, fun k x hx _ _ => ?_⟩
  · obtain ⟨hid, hkey, hdrop⟩ := hc k x hx hforeign
    rw [hf.direct k x hx] at hkey hdrop
    have hkeeps := hkept hkey hid
    rcases a.receiveDirect_storage W env m with heq | ⟨n, content, hl, hn, heq⟩
    · rw [heq]
      exact ⟨hkeeps.direct.trans hx, hkeeps.plaintext⟩
    · have hacts := (Node.acts_dropped n W env m.senderDid m.id m.timestamp content).direct k x.id ?_
      · rw [heq, hacts.1, hacts.2, hn]
        exact ⟨hkeeps.direct.trans hx, hkeeps.plaintext⟩
      · intro w hw
        rcases hw with (⟨_, rfl⟩ | ⟨_, _, rfl⟩) | ⟨_, rfl⟩ | rfl
        · trivial
        · trivial
        · trivial
        · exact ⟨by rw [hl]; exact hdrop.symm, hid.symm⟩
  · have hsame : (a.receiveDirect W env m).node.storage.groupMessages[k]? = a.node.storage.groupMessages[k]? ∧
        (a.receiveDirect W env m).node.storage.groupPlaintext[x.id]? = a.node.storage.groupPlaintext[x.id]? := by
      rcases a.receiveDirect_storage W env m with heq | ⟨n, content, -, hn, heq⟩
      · rw [heq, hgroup.1, hgroup.2]
        exact ⟨rfl, rfl⟩
      · have hacts := (Node.acts_dropped n W env m.senderDid m.id m.timestamp content).group k x.id ?_
        · rw [heq, hacts.1, hacts.2, hn, hgroup.1, hgroup.2]
          exact ⟨rfl, rfl⟩
        · intro w hw
          rcases hw with (⟨_, rfl⟩ | ⟨_, _, rfl⟩) | ⟨_, rfl⟩ | rfl
          · trivial
          · trivial
          · trivial
          · trivial
    exact ⟨hsame.1.trans hx, fun _ => hsame.2⟩

/-- Writes that spare every direct message, and every group message but those with the inbound one's key or id. -/
theorem intact_of_acts {n : Node M} {i : Inbound} {m : GroupMessage} {A : StoreWrite → Prop} (hf : a.node.storage.Filed)
    (hc : ∀ (k : String) (x : GroupMessage), a.node.storage.groupMessages[k]? = some x →
      i.Foreign x.senderDid x.chat → x.id ≠ m.id ∧ x.key ≠ m.key)
    {n₀ : Node M} (h₀ : n₀.storage = a.node.storage) (hacts : Node.Acts A n₀ n)
    (hd : ∀ k id w, A w → w.SparesDirect k id) (hg : ∀ k id w, k ≠ m.key → id ≠ m.id → A w → w.SparesGroup k id) :
    a.Intact { a with node := n } i R := by
  refine ⟨fun k x hx _ => ?_, fun k x hx hforeign _ => ?_⟩
  · have h := hacts.direct k x.id (hd k x.id)
    rw [h₀] at h
    exact ⟨h.1.trans hx, h.2⟩
  · obtain ⟨hid, hkey⟩ := hc k x hx hforeign
    rw [hf.group k x hx] at hkey
    have h := hacts.group k x.id fun w hw => hg k x.id w hkey hid hw
    rw [h₀] at h
    exact ⟨h.1.trans hx, fun _ => h.2⟩

theorem intact_synced {gid : String} {m : GroupMessage} (hf : a.node.storage.Filed)
    (hc : (Inbound.synced gid m).Clear a) :
    a.Intact { a with node := (a.node.handleSyncedMessage W env gid m).2 } (.synced gid m) R := by
  refine intact_of_acts hf hc rfl (Node.acts_handleSyncedMessage a.node W env gid m) ?_ ?_
  · intro k id w hw
    rcases hw with rfl | ⟨c, rfl⟩
    · trivial
    · trivial
  · intro k id w hk hid hw
    rcases hw with rfl | ⟨c, rfl⟩
    · exact hk.symm
    · exact hid.symm

theorem intact_payload {m : GroupMessage} (n₀ : Node M) {b : Bytes} (hf : a.node.storage.Filed)
    (hc : (Inbound.group m).Clear a) (h₀ : n₀.storage = a.node.storage) :
    a.Intact { a with node := (n₀.handleGroupPlaintext W env m b).emit .schedulePersist } (.group m) R := by
  refine intact_of_acts hf hc h₀ ((Node.acts_handleGroupPlaintext n₀ W env m b).emit _) ?_ ?_
  · intro k id w hw
    rcases hw with ⟨_, rfl⟩ | ⟨_, _, rfl⟩ | ⟨_, rfl | rfl | ⟨_, -, rfl⟩⟩ | ⟨_, rfl⟩
    all_goals trivial
  · intro k id w hk hid hw
    rcases hw with ⟨_, rfl⟩ | ⟨_, _, rfl⟩ | ⟨_, rfl | rfl | ⟨_, -, rfl⟩⟩ | ⟨_, rfl⟩
    · trivial
    · trivial
    · exact hk.symm
    · exact hid.symm
    · trivial
    · trivial

theorem intact_of_storage {n : Node M} {i : Inbound} (hs : n.storage = a.node.storage) :
    a.Intact { a with node := n } i R := by
  refine ⟨fun k x hx _ => ?_, fun k x hx _ _ => ?_⟩
  · exact ⟨by rw [hs]; exact hx, by rw [hs]⟩
  · exact ⟨by rw [hs]; exact hx, fun _ => by rw [hs]⟩

theorem intact_group {m : GroupMessage} (hf : a.node.storage.Filed) (hc : (Inbound.group m).Clear a) :
    a.Intact { a with node := a.node.handleGroupMessage W env m } (.group m)
      ((Inbound.group m).Leaves a { a with node := a.node.handleGroupMessage W env m }) := by
  rcases a.node.handleGroupMessage_cases W env m with ⟨-, hs, -, -⟩ | ⟨pm, g, mls, -, hg, -, -, hcase⟩
  · exact intact_of_storage hs
  cases hrec : M.received pm a.node.mls.provider g with
  | none =>
    rw [hrec] at hcase
    exact intact_of_storage hcase.2.1
  | some r =>
    rw [hrec] at hcase
    cases r with
    | some d =>
      dsimp only at hcase
      rw [hcase]
      exact intact_payload { a.node with mls := mls } hf hc rfl
    | none =>
      dsimp only at hcase
      rcases Node.afterHandshake_stored { a.node with mls := mls } env m.groupId
        (a.node.mls.membersOrDefault m.groupId) with hs | hgone
      · exact intact_of_storage (by rw [hcase, hs])
      · have hacts := Node.acts_afterHandshake { a.node with mls := mls } env m.groupId
          (a.node.mls.membersOrDefault m.groupId)
        rw [← hcase] at hacts hgone
        refine ⟨fun k x hx _ => ?_, fun k x hx _ hleft => ?_⟩
        · have h := hacts.direct k x.id ?_
          · exact ⟨h.1.trans hx, h.2⟩
          · intro w hw
            rcases hw with rfl | rfl | ⟨_, rfl⟩ | rfl
            all_goals trivial
        · have hin : (a.node.mls.groups[m.groupId]?).isSome := by rw [hg]; rfl
          have hout : ¬ Text.HasPrefix (m.groupId ++ ":") k := fun hp => hleft ⟨hin, hgone, hp⟩
          obtain ⟨hstored, hcached⟩ := hacts.purged hout hx
          exact ⟨hstored, fun hids => hcached fun k' y hy hp => hids k' y hy ⟨hin, hgone, hp⟩⟩

/-- A message from outside whose id and keys no foreign message has leaves every foreign message stored and what is
shown of it as it was, but for the messages of a group that it takes us out of. -/
theorem history_intact (W : Wire) (a : App M O) (h : StepSystem.Reachable (appSys M O W) a) (env : Env) (i : Inbound)
    (hc : i.Clear a) : a.Intact (i.receive W env a) i (i.Leaves a (i.receive W env a)) := by
  have hf := filed_reachable h
  cases i with
  | direct m => exact intact_direct hf hc
  | group m => exact intact_group hf hc
  | synced gid m => exact intact_synced hf hc

/-- What the store has for a direct message is what its conversation shows. -/
theorem Intact.shown {a' : App M O} {i : Inbound} {R : String → Prop} (h : a.Intact a' i R) {k : String}
    {x : DirectMessage} {c : MessageContent} (hx : a.node.storage.directMessages[k]? = some x)
    (hforeign : i.Foreign x.senderDid x.chat) (hc : a.node.storage.plaintext[x.id]? = some c) (W : Wire) (env : Env) :
    (a'.handler.getMessageContent W env x).1 = (a.handler.getMessageContent W env x).1 := by
  have hbefore : a.handler.storage.plaintext[x.id]? = some c := hc
  have hafter : a'.handler.storage.plaintext[x.id]? = some c := (h.direct k x hx hforeign).2.trans hc
  unfold DirectMessageHandler.getMessageContent
  rw [hbefore, hafter]

end App

namespace HistoryIntegrity
open IdealMls IdealGroup

/-- `did:a`, with a key package out and nothing else. -/
def start : App idealMls idealOlm :=
  ⟨{ localDid := "did:a", mls := ⟨"did:a", ⟨[⟨"did:a", 0⟩], []⟩, ∅, ∅⟩, storage := .empty, effects := [] },
    { localDid := "did:a", account := ⟨IdealOlm.key 0, [], [], []⟩, sessions := ∅, storage := .empty
      sessionPickles := ∅, olmPickle := ∅ }⟩

/-- The Welcome with which `did:b` takes `did:c` and `did:a` into its group. -/
def welcome : Message :=
  .welcome ⟨"g", ⟨"did:b", 1, 0, ["did:c", "did:a"], []⟩, [⟨"did:c", 0⟩, ⟨"did:a", 0⟩], ["did:b", "did:c", "did:a"]⟩

def hello (text : String) : MessageContent := ⟨text, [], [], none, ∅⟩

/-- `did:a` has joined the group, and `did:c` has written to it. -/
def joined : App idealMls idealOlm :=
  [AppOp.node (.acceptWelcome (env 0) (idealWire.hexEncode (messageCodec.enc welcome))),
    .node (.group (env 1) (sent "did:c" "did:c" (payload (hello "from c"))))].foldl
    (fun a o => a.step idealWire o) start

/-- `did:b` takes `did:a` out. -/
def kick : GroupMessage :=
  { id := "k", senderDid := "did:b", groupId := "g", timestamp := 1, type := 0, replyTo := none
    mlsCiphertext := messageCodec.enc (.commit "g" ⟨"did:b", 2, 1, [], ["did:a"]⟩) }

/-- `did:b` writes under a message id of its choice. -/
def written (id : String) : GroupMessage :=
  { sent "did:b" "did:b" (payload (hello "from b")) with id := id, timestamp := 1 }

theorem reachable_joined : StepSystem.Reachable (appSys idealMls idealOlm idealWire) joined :=
  StepSystem.reachable_foldl (M := appSys idealMls idealOlm idealWire) (s := start) (.init ⟨rfl, rfl⟩) _

/-- The message of `did:c`. -/
def fromC : GroupMessage := sent "did:c" "did:c" (payload (hello "from c"))

/-- What the removal and `did:b`'s message make of the store, evaluated in one go. -/
theorem outcome :
    joined.node.storage.groupMessages.toList = [(fromC.key, fromC)] ∧
    (joined.node.storage.groupPlaintext["x"]?).map (·.text) = some "from c" ∧
    ((Inbound.group kick).receive idealWire (env 2) joined).node.storage.groupMessages[fromC.key]? = none ∧
    ((Inbound.group (written "x")).receive idealWire (env 2) joined).node.mls.groups["g"]?.isSome ∧
    (((Inbound.group (written "x")).receive idealWire (env 2) joined).node.storage.groupPlaintext["x"]?).map
      (·.text) = some "from b" := by decide +kernel

theorem joined_messages : joined.node.storage.groupMessages.toList = [(fromC.key, fromC)] := outcome.1

theorem stored_fromC : joined.node.storage.groupMessages[fromC.key]? = some fromC :=
  (mem_iter _ (e := (fromC.key, fromC))).1 (by rw [joined_messages]; simp)

/-- With a removal what others wrote in the group goes; and whoever writes under the id of another's message takes
the place of its content. -/
theorem history_lost :
    (¬ ∀ a : App idealMls idealOlm, StepSystem.Reachable (appSys idealMls idealOlm idealWire) a → ∀ env i,
      a.Intact (i.receive idealWire env a) i fun _ => False) ∧
    ¬ ∀ a : App idealMls idealOlm, StepSystem.Reachable (appSys idealMls idealOlm idealWire) a → ∀ env i,
      a.Intact (i.receive idealWire env a) i (i.Leaves a (i.receive idealWire env a)) := by
  obtain ⟨-, hshows, hkicked, hstays, hreplaced⟩ := outcome
  refine ⟨fun h => ?_, fun h => ?_⟩
  · have hkept := ((h joined reachable_joined (env 2) (.group kick)).group fromC.key fromC stored_fromC
      (Or.inl (by decide)) fun hf => hf).1
    rw [hkicked] at hkept
    cases hkept
  · have hnot (k : String) : ¬ (Inbound.group (written "x")).Leaves joined
        ((Inbound.group (written "x")).receive idealWire (env 2) joined) k := by
      intro hl
      have hnone : ((Inbound.group (written "x")).receive idealWire (env 2) joined).node.mls.groups["g"]? = none :=
        hl.2.1
      rw [hnone] at hstays
      cases hstays
    have hshown := ((h joined reachable_joined (env 2) (.group (written "x"))).group fromC.key fromC stored_fromC
      (Or.inl (by decide)) (hnot _)).2 fun k' _ _ hl => (hnot k' hl).elim
    have htext := congrArg (Option.map (·.text)) hshown
    rw [show fromC.id = "x" from rfl, hshows, hreplaced] at htext
    revert htext
    decide

theorem clear_written : (Inbound.group (written "y")).Clear joined := by
  intro k x hx _
  have hmem := (mem_iter _ (e := (k, x))).2 hx
  rw [joined_messages] at hmem
  obtain ⟨-, rfl⟩ := Prod.mk.inj (List.mem_singleton.1 hmem)
  exact ⟨by decide, by decide +kernel⟩

theorem written_intact : joined.Intact ((Inbound.group (written "y")).receive idealWire (env 2) joined)
    (.group (written "y"))
    ((Inbound.group (written "y")).Leaves joined ((Inbound.group (written "y")).receive idealWire (env 2) joined)) :=
  App.history_intact idealWire joined reachable_joined (env 2) (.group (written "y")) clear_written

end HistoryIntegrity
end Variance
