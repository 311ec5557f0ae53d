import Variance.Proofs.AckCustody
import Variance.Proofs.DmAuthenticity
import Variance.Spec.DmIntake

/-! A batch of offline messages is counted and dropped: it does what live delivery does when it brings no message and
says that none are left. -/

namespace Variance
variable {M : OpenMls} {O : Olm} {W : Wire} {a : App M O} {env : Env} {m : DirectMessage} {peer : PeerId}
  {batch : List (Env × OfflineMessageEnvelope)} {hasMore : Bool}

theorem App.Durable.refl (a : App M O) : a.Durable a := ⟨rfl, rfl, rfl, rfl⟩

/-- The batch leaves the node as it was. -/
theorem run_offline (messages : List OfflineMessageEnvelope) :
    a.run W (onOfflineMessage (.messagesReceived peer messages hasMore)) = a := rfl

theorem carried_eq_nil_iff : carried batch = [] ↔ ∀ x ∈ batch, x.2.message = none := by
  simp [carried, List.filterMap_eq_nil_iff]

theorem onLiveMessage_not_offline (env : Env) (m : OfflineMessage) (messages : List OfflineMessageEnvelope) :
    onLiveMessage env m ∉ onOfflineMessage (.messagesReceived peer messages hasMore) := by
  intro h
  have heq := List.mem_singleton.1 h
  cases m <;> cases heq

theorem requestOffline_not_offline (messages : List OfflineMessageEnvelope) :
    RouterAction.requestOffline ∉ onOfflineMessage (.messagesReceived peer messages hasMore) := by
  intro h
  cases List.mem_singleton.1 h

/-- For every node and every batch: it is handled as its messages are when they come in live, none of them is dropped
and the rest are asked for, if and only if there is none and no rest. -/
theorem offline_refines_iff (W : Wire) (a : App M O) (peer : PeerId) (batch : List (Env × OfflineMessageEnvelope))
    (hasMore : Bool) : OfflineRefines W a peer batch hasMore ↔ NothingWaits batch hasMore := by
  constructor
  · intro h
    refine ⟨carried_eq_nil_iff.1 (List.eq_nil_iff_forall_not_mem.2 fun x hx => ?_), ?_⟩
    · exact onLiveMessage_not_offline x.1 x.2 _ (h.taken x hx)
    · by_contra hmore
      exact requestOffline_not_offline _ (h.more (by simpa using hmore))
  · rintro ⟨hnone, rfl⟩
    have hempty : carried batch = [] := carried_eq_nil_iff.2 hnone
    refine ⟨?_, ?_, ?_, fun hmore => Bool.noConfusion hmore⟩
    · rw [hempty, run_offline]
      exact .refl a
    · rw [hempty, run_offline]
      rfl
    · rw [hempty]
      exact fun x hx => absurd hx List.not_mem_nil

/-! What is lost -/

/-- Not one of the messages that the invite flow sends. -/
def MessageContent.Ordinary (c : MessageContent) : Prop :=
  c.metadata["type"]? ≠ some "mls_group_invitation" ∧ c.metadata["type"]? ≠ some "mls_invite_accepted" ∧
    c.metadata["type"]? ≠ some "mls_invite_declined"

theorem Node.handleDirectContent_ordinary {n : Node M} {c : MessageContent} (h : c.Ordinary) (d : Did) (id : String)
    (ts : ℤ) : n.handleDirectContent W env d id ts c =
      (n.emit (.ws (.directMessageReceived d id c.text ts))).emit (.deliveredReceipt d id) := by
  obtain ⟨h₁, h₂, h₃⟩ := h
  unfold Node.handleDirectContent
  split
  · exact absurd ‹_› h₁
  · exact absurd ‹_› h₂
  · exact absurd ‹_› h₃
  · rfl

/-- A direct message that can be read and written is stored when it comes in live. -/
theorem App.receiveDirect_stores (hs : a.Storable W env m)
    (hc : ∀ c, (a.handler.receiveMessage W env m).1 = .ok c → c.Ordinary) :
    (a.receiveDirect W env m).node.storage.directMessages[m.key]? = some m := by
  have hstored : a.Stores W env m := App.stores_iff.2 hs
  unfold App.Stores at hstored
  unfold App.receiveDirect
  cases hr : a.handler.receiveMessage W env m with
  | mk r h =>
    rw [hr] at hstored hc
    cases r with
    | error e => exact hstored
    | ok c =>
      have hordinary := hc c rfl
      dsimp only
      rw [Node.handleDirectContent_ordinary hordinary]
      split_ifs <;> exact hstored

/-- From a batch it is lost. -/
theorem readable_lost (hs : a.Storable W env m) (hnew : a.node.storage.directMessages[m.key]? ≠ some m)
    (hc : ∀ c, (a.handler.receiveMessage W env m).1 = .ok c → c.Ordinary) {e : OfflineMessageEnvelope}
    (he : e.message = some (.direct m)) :
    ¬ App.Durable (a.run W (onOfflineMessage (.messagesReceived peer [e] hasMore)))
      (a.run W ((carried [(env, e)]).map fun x => onLiveMessage x.1 x.2)) := by
  intro hd
  have hcarried : carried [(env, e)] = [(env, .direct m)] := by simp [carried, he]
  rw [run_offline, hcarried] at hd
  have hlive := App.receiveDirect_stores hs hc
  have hsame : a.node.storage = (a.receiveDirect W env m).node.storage := hd.storage
  rw [← hsame] at hlive
  exact hnew hlive

namespace OfflineDelivery
open DmAuthenticity

/-- `did:a`, whose keys `did:b` has used for its first message. -/
def receiver : App idealMls idealOlm := ⟨HistoryIntegrity.start.node, fresh⟩

def envelope : OfflineMessageEnvelope :=
  { mailboxToken := [], message := some (.direct honest), storedAt := 0, expiresAt := 1 }

/-- That message waited at the relay. -/
theorem first_message_lost : ¬ ∀ (a : App idealMls idealOlm) (peer : PeerId)
    (batch : List (Env × OfflineMessageEnvelope)) (hasMore : Bool), OfflineRefines idealWire a peer batch hasMore := by
  intro h
  have hopen : (receiver.handler.openMessage idealWire calm honest).1 = .ok hello := by decide +kernel
  have hreceive : (receiver.handler.receiveMessage idealWire calm honest).1 = .ok hello := by decide +kernel
  have hnew : receiver.node.storage.directMessages[honest.key]? ≠ some honest := by decide +kernel
  refine readable_lost (Or.inl ⟨⟨hello, hopen⟩, rfl⟩) hnew (fun c hc => ?_) rfl
    (h receiver "relay" [(calm, envelope)] false).durable
  rw [hreceive] at hc
  obtain rfl := Except.ok.inj hc
  unfold MessageContent.Ordinary
  decide

end OfflineDelivery
end Variance
