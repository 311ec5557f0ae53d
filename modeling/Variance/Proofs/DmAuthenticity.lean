import Variance.Lib.Run
import Variance.Sanity.IdealOlm
import Variance.Sanity.IdealWire
import Variance.Sanity.Sessions

/-! Who a direct message is from. The session kept under a did is with whatever key opened it, and
nothing checks that key, the sender field or the signature; so a message is from its sender along every
run in which no session is opened under another's did and no message claims to be from oneself. -/

namespace Variance

/-- An inbound message that was returned or stored, and the key its session was with. -/
structure Accepted where
  message : DirectMessage
  sessionKey : Option CurveKey

structure DmInbox (O : Olm) where
  handler : DirectMessageHandler O
  accepted : List Accepted

inductive DmOp (O : Olm)
  | receive (env : Env) (message : DirectMessage)
  | send (env : Env) (recipient : Did) (content : MessageContent)
  | ensure (env : Env) (recipient : Did) (identityKeyHex oneTimeKeyHex : Option String)
      (found : Except String IdentityFound)
  | restart (env : Env) (identityFile : O.Account)

variable {O : Olm} {W : Wire} {h : DirectMessageHandler O} {env : Env}

namespace DirectMessageHandler

/-- The message was stored; it is returned only then. -/
def stores (h : DirectMessageHandler O) (W : Wire) (env : Env) (m : DirectMessage) : Bool :=
  match (h.openMessage W env m).1 with
  | .error _ => false
  | .ok _ => !env.faults "direct_messages" (LocalMessageStorage.directKey m.senderDid m.recipientDid
      m.timestamp m.id)

end DirectMessageHandler

namespace DmInbox

def receive (K : PeerKeys O) (W : Wire) (w : DmInbox O) (env : Env) (m : DirectMessage) : DmInbox O :=
  let h := (w.handler.receiveMessage W env m).2
  let sessionKey := if m.olmMessageType = olmMessageTypeSelf then none
    else (h.sessions[m.senderDid]?).map K.peerKey
  ⟨h, if w.handler.stores W env m then ⟨m, sessionKey⟩ :: w.accepted else w.accepted⟩

def step (K : PeerKeys O) (W : Wire) (w : DmInbox O) : DmOp O → DmInbox O
  | .receive env m => w.receive K W env m
  | .send env d content => ⟨(w.handler.sendMessage W env d content).2, w.accepted⟩
  | .ensure env d ik otk found => ⟨(w.handler.ensureOlmSessionWithKeys W env d ik otk found).2, w.accepted⟩
  | .restart env file => ⟨(w.handler.startUp env file).2, w.accepted⟩

end DmInbox

/-- A handler with no session yet. -/
def dmSys (K : PeerKeys O) (W : Wire) : StepSystem.Sys (DmInbox O) (DmOp O) where
  init w := w.handler.sessions = ∅ ∧ w.handler.sessionPickles = ∅ ∧ w.accepted = []
  step := DmInbox.step K W

namespace DirectMessageHandler

/-- A message is returned only when it is stored, and stored only then. -/
theorem stores_of_ok {m : DirectMessage} {content : MessageContent}
    (hr : (h.receiveMessage W env m).1 = .ok content) : h.stores W env m = true := by
  unfold receiveMessage at hr
  unfold stores
  split at hr
  · cases hr
  · rename_i h' heq
    rw [heq]
    dsimp only at hr ⊢
    unfold keepMessage LocalMessageStorage.storeDirect treeInsert at hr
    by_cases hf : env.faults "direct_messages" (LocalMessageStorage.directKey m.senderDid m.recipientDid
        m.timestamp m.id) = true
    · simp [hf, Except.map] at hr
    · simpa using hf

theorem unstored {m : DirectMessage} (hs : h.stores W env m = false) :
    (h.receiveMessage W env m).2.storage.directMessages = h.storage.directMessages := by
  have hst : (h.openMessage W env m).2.storage = h.storage := openMessage_storage
  unfold stores at hs
  unfold receiveMessage
  split
  · rename_i heq
    rw [heq] at hst
    rw [hst]
  · rename_i heq
    rename_i h'
    rw [heq] at hs hst
    have hf : env.faults "direct_messages" (LocalMessageStorage.directKey m.senderDid m.recipientDid
        m.timestamp m.id) = true := by simpa using hs
    have hst' : h'.storage = h.storage := hst
    simp [keepMessage, LocalMessageStorage.storeDirect, treeInsert, hf, hst']

/-! Sessions with the right key -/

/-- The session kept for `d` is with the key the identity layer holds for `d`, and `d` is another. -/
def Rightful (K : PeerKeys O) (idKey : Did → Option CurveKey) (localDid d : Did) (s : O.Session) : Prop :=
  d ≠ localDid ∧ idKey d = some (K.peerKey s)

variable {K : PeerKeys O} {idKey : Did → Option CurveKey} {self d : Did}

theorem Rightful.of_key {s s' : O.Session} (hs : Rightful K idKey self d s)
    (hk : K.peerKey s' = K.peerKey s) : Rightful K idKey self d s' := ⟨hs.1, by rw [hk]; exact hs.2⟩

/-- What an inbound message must not do: open a session under a did with a key that is not that did's,
or claim to be from oneself. -/
def HonestInbound (idKey : Did → Option CurveKey) (h : DirectMessageHandler O) (W : Wire) (env : Env)
    (m : DirectMessage) : Prop :=
  if m.olmMessageType = olmMessageTypeSelf then
    W.decodeMessageContent m.ciphertext = none ∨ env.faults "direct_messages"
      (LocalMessageStorage.directKey m.senderDid m.recipientDid m.timestamp m.id) = true
  else ∀ p key r, O.fromParts m.olmMessageType m.ciphertext = .ok (.preKey p) →
    h.sessions[m.senderDid]? = none → m.senderIdentityKey.bind CurveKey.ofBytes = some key →
    (O.createInboundSession h.account key p).1 = .ok r →
    m.senderDid ≠ h.localDid ∧ idKey m.senderDid = some key

theorem rightful_decryptFrom {m : DirectMessage} {m' : O.Message}
    (hs : h.Sessions (Rightful K idKey self))
    (hin : ∀ p key r, m' = .preKey p → h.sessions[m.senderDid]? = none →
      m.senderIdentityKey.bind CurveKey.ofBytes = some key →
      (O.createInboundSession h.account key p).1 = .ok r →
      m.senderDid ≠ self ∧ idKey m.senderDid = some key) :
    (h.decryptFrom env m m').2.Sessions (Rightful K idKey self) := by
  refine hs.decryptFrom (fun s hsome => (hs.memory _ _ hsome).of_key (K.decrypt s m')) ?_
  intro p key s b a hp hnone hkey heq
  have hown := hin p key (s, b) hp hnone hkey (by rw [heq])
  exact ⟨hown.1, by rw [K.inbound heq]; exact hown.2⟩

/-- A message that decrypted did so in a session that is kept under its sender. -/
theorem decryptFrom_session {m : DirectMessage} {m' : O.Message} {b : Bytes}
    (hr : (h.decryptFrom env m m').1 = .ok b) :
    ∃ s, (h.decryptFrom env m m').2.sessions[m.senderDid]? = some s := by
  unfold decryptFrom at hr ⊢
  split at hr
  · unfold openInbound at hr ⊢
    split at hr
    · cases hr
    rename_i hb
    split at hr
    · cases hr
    rename_i key hkey
    split at hr
    · cases hr
    · cases hr
    · simp
  · cases hr
  · simp
  · dsimp only at hr ⊢
    split
    · simp
    · simp

theorem rightful_openMessage {m : DirectMessage} (hs : h.Sessions (Rightful K idKey h.localDid))
    (hin : HonestInbound idKey h W env m) :
    (h.openMessage W env m).2.Sessions (Rightful K idKey h.localDid) ∧
      (h.openMessage W env m).2.localDid = h.localDid := by
  unfold HonestInbound at hin
  by_cases ht : m.olmMessageType = olmMessageTypeSelf
  · unfold openMessage
    rw [if_pos ht]
    split <;> exact ⟨hs, rfl⟩
  · rw [if_neg ht] at hin
    cases hm : O.fromParts m.olmMessageType m.ciphertext with
    | error e =>
      unfold openMessage
      rw [if_neg ht, hm]
      exact ⟨hs, rfl⟩
    | ok m' =>
      rw [(openMessage_eq env ht hm).1]
      exact ⟨rightful_decryptFrom hs fun p key r hp => hin p key r (by rw [hm, hp]), decryptFrom_localDid.1⟩

theorem rightful_sendMessage (env : Env) (d : Did) (content : MessageContent)
    (hs : h.Sessions (Rightful K idKey h.localDid)) :
    (h.sendMessage W env d content).2.Sessions (Rightful K idKey h.localDid) ∧
      (h.sendMessage W env d content).2.localDid = h.localDid :=
  ⟨hs.send fun _ hsome => (hs.memory _ _ hsome).of_key (K.encrypt _ _ _), SameKeys.send.localDid⟩

/-- The identity key a session may be opened with on our side. -/
def KeysResolved (idKey : Did → Option CurveKey) (W : Wire) (d : Did) (identityKeyHex : Option String)
    (found : Except String IdentityFound) : Prop :=
  (∀ f key, found = .ok f → CurveKey.ofBytes f.olmIdentityKey = some key → idKey d = some key) ∧
  ∀ hex key, identityKeyHex = some hex → hexKey W "recipient_identity_key" hex = .ok key →
    idKey d = some key

theorem rightful_ensure (env : Env) {ik : Option String} (otk : Option String)
    {found : Except String IdentityFound}
    (hs : h.Sessions (Rightful K idKey h.localDid))
    (hk : h.sessions[d]? = none → KeysResolved idKey W d ik found) :
    (h.ensureOlmSessionWithKeys W env d ik otk found).2.Sessions (Rightful K idKey h.localDid) ∧
      (h.ensureOlmSessionWithKeys W env d ik otk found).2.localDid = h.localDid := by
  unfold ensureOlmSessionWithKeys
  split_ifs with hself hsome
  · exact ⟨hs, rfl⟩
  · exact ⟨hs, rfl⟩
  obtain ⟨hfound, hgiven⟩ := hk (by simpa using hsome)
  have hinit {key k : CurveKey} (hkey : idKey d = some key) :
      (h.initSessionIfNeeded env d key k).2.Sessions (Rightful K idKey h.localDid) ∧
        (h.initSessionIfNeeded env d key k).2.localDid = h.localDid :=
    ⟨hs.init fun _ => ⟨hself, by rw [K.outbound]; exact hkey⟩, SameKeys.init.localDid⟩
  split
  · rename_i ikHex otkHex
    split
    · exact ⟨hs, rfl⟩
    · exact ⟨hs, rfl⟩
    · rename_i key k hikey _
      have hopen := hinit (k := k) (hgiven ikHex key rfl hikey)
      split
      · rename_i heq
        rwa [heq] at hopen
      · rename_i heq
        rwa [heq] at hopen
  · rcases h.ensureOlmSession_eq env d found with heq | ⟨-, f, key, k, hf, hkey, -, heq⟩
    · rw [heq]
      exact ⟨hs, rfl⟩
    · rw [heq]
      exact hinit (hfound f key hf hkey)

end DirectMessageHandler

/-- The message was decrypted in a session with its sender's key, and is not from oneself. -/
structure Authentic (idKey : Did → Option CurveKey) (localDid : Did) (a : Accepted) : Prop where
  other : a.message.senderDid ≠ localDid
  key : ∃ k, a.sessionKey = some k ∧ idKey a.message.senderDid = some k

namespace DmInbox
open DirectMessageHandler

/-- Every step opens sessions only under the did whose key they are with. -/
def Honest (idKey : Did → Option CurveKey) (W : Wire) (w : DmInbox O) : DmOp O → Prop
  | .receive env m => HonestInbound idKey w.handler W env m
  | .send .. => True
  | .ensure _ d ik _ found => w.handler.sessions[d]? = none → KeysResolved idKey W d ik found
  | .restart .. => True

variable {K : PeerKeys O} {idKey : Did → Option CurveKey} {w : DmInbox O}

structure Sound (K : PeerKeys O) (idKey : Did → Option CurveKey) (w : DmInbox O) : Prop where
  sessions : w.handler.Sessions (Rightful K idKey w.handler.localDid)
  accepted : ∀ a ∈ w.accepted, Authentic idKey w.handler.localDid a

theorem Sound.of_handler (hw : Sound K idKey w) {h' : DirectMessageHandler O}
    (hs : h'.Sessions (Rightful K idKey w.handler.localDid)) (hl : h'.localDid = w.handler.localDid) :
    Sound K idKey ⟨h', w.accepted⟩ :=
  ⟨by rw [hl]; exact hs, by rw [hl]; exact hw.accepted⟩

theorem Sound.receive (hw : Sound K idKey w) {m : DirectMessage}
    (hin : HonestInbound idKey w.handler W env m) : Sound K idKey (w.receive K W env m) := by
  obtain ⟨hopen, hlocal⟩ := rightful_openMessage hw.sessions hin
  obtain ⟨hse, hpi, hsame⟩ := receiveMessage_eq w.handler W env m
  have hs := hopen.congr hse hpi
  have hl := hsame.localDid.trans hlocal
  refine ⟨by rw [DmInbox.receive, hl]; exact hs, ?_⟩
  show ∀ a ∈ (w.receive K W env m).accepted, Authentic idKey (w.handler.receiveMessage W env m).2.localDid a
  rw [hl]
  unfold DmInbox.receive
  dsimp only
  split_ifs with hst ht
  all_goals try exact hw.accepted
  · -- a message to oneself is not stored by an honest step
    intro a ha
    unfold HonestInbound at hin
    rw [if_pos ht] at hin
    unfold stores openMessage at hst
    rw [if_pos ht] at hst
    rcases hin with hnone | hf
    · simp [hnone] at hst
    · split at hst
      · cases hst
      · simp [hf] at hst
  · intro a ha
    rcases List.mem_cons.1 ha with rfl | ha
    swap
    · exact hw.accepted a ha
    unfold stores at hst
    split at hst
    · cases hst
    rename_i c hc
    cases hm : O.fromParts m.olmMessageType m.ciphertext with
    | error e =>
      unfold openMessage at hc
      rw [if_neg ht, hm] at hc
      cases hc
    | ok m' =>
      obtain ⟨heq, hok, -⟩ := openMessage_eq (h := w.handler) (W := W) env ht hm
      obtain ⟨b, hb⟩ := hok c hc
      obtain ⟨s, hsess⟩ := decryptFrom_session hb
      rw [← heq, ← hse] at hsess
      have hr := hs.memory _ _ hsess
      exact ⟨hr.1, K.peerKey s, by rw [hsess]; rfl, hr.2⟩

theorem Sound.step (hw : Sound K idKey w) {op : DmOp O} (hop : w.Honest idKey W op) :
    Sound K idKey (w.step K W op) := by
  cases op with
  | receive env m => exact hw.receive hop
  | send env d content =>
    obtain ⟨hs, hl⟩ := rightful_sendMessage (W := W) env d content hw.sessions
    exact hw.of_handler hs hl
  | ensure env d ik otk found =>
    obtain ⟨hs, hl⟩ := rightful_ensure env otk hw.sessions hop
    exact hw.of_handler hs hl
  | restart env file => exact hw.of_handler hw.sessions.startUp rfl

/-- Along every run of honest steps, every inbound message accepted was decrypted in a session with its
sender's key and is not from oneself; and what is returned or stored is among the accepted. -/
theorem honest_runs_authentic (K : PeerKeys O) (W : Wire) (idKey : Did → Option CurveKey) (w : DmInbox O)
    (h : StepSystem.Reach (dmSys K W) (fun w op => w.Honest idKey W op) w) :
    (∀ a ∈ w.accepted, Authentic idKey w.handler.localDid a) ∧ ∀ env m,
      ((∃ c, (w.handler.receiveMessage W env m).1 = .ok c) ∨
        (w.handler.receiveMessage W env m).2.storage.directMessages ≠ w.handler.storage.directMessages) →
      ∃ a ∈ (w.receive K W env m).accepted, a.message = m := by
  have hw : Sound K idKey w := by
    refine h.invariant (I := Sound K idKey) ?_ fun w op hw hop => hw.step hop
    rintro w ⟨hs, hp, ha⟩
    exact ⟨⟨by simp [hs], by simp [hp]⟩, by simp [ha]⟩
  refine ⟨hw.accepted, fun env m hr => ?_⟩
  have hst : w.handler.stores W env m = true := by
    rcases hr with ⟨c, hc⟩ | hne
    · exact stores_of_ok hc
    · by_contra hno
      exact hne (unstored (by simpa using hno))
  refine ⟨⟨m, if m.olmMessageType = olmMessageTypeSelf then none
    else ((w.handler.receiveMessage W env m).2.sessions[m.senderDid]?).map K.peerKey⟩, ?_, rfl⟩
  unfold DmInbox.receive
  dsimp only
  rw [if_pos hst]
  exact List.mem_cons_self

end DmInbox

/-! `did:a` hears from `did:b`, whose key is `key 1`, and from a stranger -/

namespace DmAuthenticity
open IdealOlm DmInbox

def idKey (d : Did) : Option CurveKey := if d = "did:b" then some (key 1) else none

def fresh : DirectMessageHandler idealOlm :=
  ⟨"did:a", ⟨key 0, [key 5], [], []⟩, ∅, .empty, ∅, ∅⟩

def calm : Env := ⟨0, 0, "", fun _ _ => false, true⟩

def hello : MessageContent := ⟨"hello", [], [], none, ∅⟩

/-- No key, no signature: the type says it is from oneself. -/
def forged (sender : Did) : DirectMessage :=
  ⟨"m", sender, "did:a", idealWire.encodeMessageContent hello, olmMessageTypeSelf, [], 0, 1, none, none⟩

def opening : idealOlm.Message := .preKey ⟨7, ⟨key 1, key 0, key 5⟩, idealWire.encodeMessageContent hello⟩

def honest : DirectMessage :=
  ⟨"m", "did:b", "did:a", (idealOlm.toParts opening).2, (idealOlm.toParts opening).1, [], 0, 1, none,
    some (key 1).bytes⟩

def dms : StepSystem.Sys (DmInbox idealOlm) (DmOp idealOlm) := dmSys peerKeys idealWire

def start : DmInbox idealOlm := ⟨fresh, []⟩

theorem accepts_forged (sender : Did) :
    (start.step peerKeys idealWire (.receive calm (forged sender))).accepted = [⟨forged sender, none⟩] := by
  have hdec : idealWire.decodeMessageContent (forged sender).ciphertext = some hello := by
    simp [idealWire, forged]
  have hst : fresh.stores idealWire calm (forged sender) = true := by
    unfold DirectMessageHandler.stores DirectMessageHandler.openMessage
    rw [if_pos (show (forged sender).olmMessageType = olmMessageTypeSelf from rfl), hdec]
    rfl
  show (start.receive peerKeys idealWire calm (forged sender)).accepted = _
  unfold DmInbox.receive
  dsimp only
  rw [show start.handler.stores idealWire calm (forged sender) = true from hst]
  rfl

theorem accepts_as (sender : Did) : ¬ ∀ w, StepSystem.Reachable dms w →
    ∀ a ∈ w.accepted, a.message.senderDid = sender → Authentic idKey w.handler.localDid a := by
  intro h
  have hr : StepSystem.Reachable dms (start.step peerKeys idealWire (.receive calm (forged sender))) :=
    .snoc (M := dms) (e := .receive calm (forged sender)) (.init ⟨rfl, rfl, rfl⟩) trivial
  obtain ⟨k, hk, -⟩ := (h _ hr ⟨forged sender, none⟩ (by rw [accepts_forged]; simp) rfl).key
  cases hk

/-- A message is taken as from a peer there is no session with, and as from the receiver itself. -/
theorem forged_accepted :
    (¬ ∀ w, StepSystem.Reachable dms w →
      ∀ a ∈ w.accepted, a.message.senderDid = "did:b" → Authentic idKey w.handler.localDid a) ∧
    (¬ ∀ w, StepSystem.Reachable dms w →
      ∀ a ∈ w.accepted, a.message.senderDid = "did:a" → Authentic idKey w.handler.localDid a) :=
  ⟨accepts_as "did:b", accepts_as "did:a"⟩

/-- A first message under the key that is its sender's. -/
theorem honest_accepted : ∃ w, StepSystem.Reach dms (fun w op => w.Honest idKey idealWire op) w ∧
    ∃ a ∈ w.accepted, a.message = honest ∧ Authentic idKey "did:a" a := by
  have h0 : StepSystem.Reach dms (fun w op => w.Honest idKey idealWire op) start := .init ⟨rfl, rfl, rfl⟩
  have hon : start.Honest idKey idealWire (.receive calm honest) := by
    show DirectMessageHandler.HonestInbound idKey fresh idealWire calm honest
    unfold DirectMessageHandler.HonestInbound
    rw [if_neg (by decide)]
    intro p key' r _ _ hkey _
    obtain rfl : key 1 = key' := by simpa [honest, CurveKey.ofBytes, (key 1).size] using hkey
    exact ⟨by decide, rfl⟩
  have hr : (fresh.receiveMessage idealWire calm honest).1 = .ok hello := by decide +kernel
  have h1 := StepSystem.Reach.snoc h0 hon
  obtain ⟨a, ha, hm⟩ := (honest_runs_authentic peerKeys idealWire idKey start h0).2 calm honest
    (Or.inl ⟨hello, hr⟩)
  refine ⟨_, h1, a, ha, hm, ?_⟩
  exact (honest_runs_authentic peerKeys idealWire idKey _ h1).1 a ha

end DmAuthenticity
end Variance
