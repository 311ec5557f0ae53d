import Variance.Proofs.HistoryIntegrity
import Variance.Spec.DmIntake

/-! An acknowledged message stays in the channel until the router stores it, along a run of which each step is careful:
nothing is acknowledged before the router listens, the channel does not run over, and what comes out can be stored. -/

namespace Variance

open Broadcast

namespace App
variable {M : OpenMls} {O : Olm} {W : Wire} {a : App M O} {env : Env} {m : DirectMessage}

/-- A message that cannot be opened or written changes nothing in the store of messages. -/
theorem stores_iff : a.Stores W env m ↔ a.Storable W env m := by
  have hopen : (a.handler.openMessage W env m).2.storage = a.node.storage :=
    DirectMessageHandler.openMessage_storage
  unfold Stores Storable DirectMessageHandler.receiveMessage
  generalize hres : a.handler.openMessage W env m = res at hopen
  obtain ⟨result, h⟩ := res
  cases result with
  | error e =>
    dsimp only at hopen ⊢
    rw [hopen]
    exact ⟨Or.inr, fun hs => hs.resolve_left fun ⟨⟨_, hc⟩, _⟩ => by cases hc⟩
  | ok content =>
    dsimp only at hopen ⊢
    rw [DirectMessageHandler.keepMessage_directMessages, get_treeInsert, hopen]
    by_cases hf : env.faults "direct_messages" m.key = false
    · simp [hf]
    · simp [hf]

end App

namespace DmIntake
variable {M : OpenMls} {O : Olm} {W : Wire} {s : DmIntake M O} {m : DirectMessage}

/-- What is on its way is ahead in the channel, so there is none once the router has caught up. -/
theorem Custody.settled (h : s.Custody) (hread : s.channel.unread = 0) : s.owed = [] := by
  refine List.eq_nil_iff_forall_not_mem.2 fun e he => ?_
  obtain ⟨peer, hahead⟩ := h e he
  exact Channel.not_ahead_of_unread hread hahead

theorem kept_iff_custody {e : IntakeStep M O} : s.Kept W e ↔ (s.step W e).Custody :=
  ⟨Kept.custody, fun h => ⟨h, h.settled⟩⟩

theorem Coming.subscribed {room : ℕ} (h : s.Coming room m) : s.channel.next ≠ none ∧ 0 < s.channel.capacity := by
  obtain ⟨peer, hahead⟩ := h
  exact ⟨hahead.subscribed.1, Nat.zero_lt_of_lt hahead.subscribed.2⟩

/-- An event sent takes room from what is coming, and may bring a message itself. -/
theorem coming_send_iff {event : DirectMessageEvent} :
    (∃ peer, (s.channel.send event).Ahead 0 (.messageReceived peer m)) ↔
      s.Coming 1 m ∨ ((∃ peer, event = .messageReceived peer m) ∧ s.channel.next ≠ none ∧ 0 < s.channel.capacity) := by
  simp only [Channel.ahead_send_iff, exists_or]
  refine or_congr Iff.rfl ?_
  constructor
  · rintro ⟨peer, heq, h⟩
    exact ⟨⟨peer, heq.symm⟩, h⟩
  · rintro ⟨⟨peer, heq⟩, h⟩
    exact ⟨peer, heq.symm, h⟩

theorem kept_inbound_iff {peer : PeerId} {request : DirectMessage} (hc : s.Custody) (allowed : Bool) :
    s.Kept W (.inbound peer request allowed) ↔ s.Careful W (.inbound peer request allowed) := by
  rw [kept_iff_custody]
  cases allowed with
  | false => exact iff_of_true (fun e he => hc e (List.mem_of_mem_filter he)) trivial
  | true =>
    have hcustody : (s.step W (.inbound peer request true)).Custody ↔ ∀ e ∈ s.owed ++ [(peer, request)],
        ∃ p, (s.channel.send (.messageReceived peer request)).Ahead 0 (.messageReceived p e.2) := Iff.rfl
    rw [hcustody]
    constructor
    · intro h
      refine ⟨?_, fun e he => ?_⟩
      · rcases coming_send_iff.1 (h (peer, request) (by simp)) with hcoming | ⟨-, hopen⟩
        · exact hcoming.subscribed
        · exact hopen
      · rcases coming_send_iff.1 (h e (List.mem_append_left _ he)) with hcoming | ⟨⟨p, heq⟩, -⟩
        · exact Or.inr hcoming
        · injection heq with _ hm
          exact Or.inl hm.symm
    · rintro ⟨hopen, hroom⟩ e he
      rcases List.mem_append.1 he with he | he
      · rcases hroom e he with heq | hcoming
        · exact coming_send_iff.2 (Or.inr ⟨⟨peer, by rw [heq]⟩, hopen⟩)
        · exact coming_send_iff.2 (Or.inl hcoming)
      · rw [List.mem_singleton.1 he]
        exact coming_send_iff.2 (Or.inr ⟨⟨peer, rfl⟩, hopen⟩)

theorem kept_publish_iff {event : DirectMessageEvent} (hc : s.Custody) :
    s.Kept W (.publish event) ↔ s.Careful W (.publish event) := by
  rw [kept_iff_custody]
  refine forall_congr' fun e => forall_congr' fun he => ?_
  refine coming_send_iff.trans ⟨fun h => ?_, fun h => ?_⟩
  · exact h.elim Or.inr fun h => Or.inl h.1
  · exact h.elim (fun h => Or.inr ⟨h, (hc e he).subscribed⟩) Or.inl

theorem custody_startRouter (hc : s.Custody) : (s.step W .startRouter).Custody := by
  show (if s.channel.next = none then { s with channel := s.channel.subscribe } else s).Custody
  split_ifs with hnext
  · intro e he
    obtain ⟨peer, hahead⟩ := hc e he
    exact absurd hahead (Channel.not_ahead_of_none hnext)
  · exact hc

theorem kept_receive_iff {env : Env} (hc : s.Custody) : s.Kept W (.receive env) ↔ s.Careful W (.receive env) := by
  rw [kept_iff_custody]
  show (s.receive W env).Custody ↔ _
  -- what is owed is ahead after it, or is what is taken out
  have hrest (e : PeerId × DirectMessage) (he : e ∈ s.owed) :
      (∃ peer, s.channel.recv.2.Ahead 0 (.messageReceived peer e.2)) ∨
        ∃ peer, s.channel.recv.1 = .value (.messageReceived peer e.2) := by
    obtain ⟨peer, hahead⟩ := hc e he
    exact hahead.recv.imp (fun h => ⟨peer, h⟩) fun h => ⟨peer, h⟩
  unfold receive Careful
  dsimp only
  generalize s.channel.recv = got at hrest
  obtain ⟨got, channel⟩ := got
  have hother (hgot : ∀ peer m, got ≠ .value (.messageReceived peer m)) :
      ({ s with channel := channel } : DmIntake M O).Custody :=
    fun e he => (hrest e he).resolve_right fun ⟨peer, h⟩ => hgot peer e.2 h
  cases got with
  | lagged missed => exact iff_of_true (hother fun _ _ h => by cases h) trivial
  | empty => exact iff_of_true (hother fun _ _ h => by cases h) trivial
  | value event =>
    cases event with
    | messageSent messageId recipient => exact iff_of_true (hother fun _ _ h => by cases h) trivial
    | deliveryNack peer messageId error => exact iff_of_true (hother fun _ _ h => by cases h) trivial
    | deliveryFailed messageId recipient => exact iff_of_true (hother fun _ _ h => by cases h) trivial
    | messageReceived peer message =>
      dsimp only at hrest ⊢
      have hstays (e : PeerId × DirectMessage) (he : e ∈ s.owed) (hne : e.2 ≠ message) :
          ∃ p, channel.Ahead 0 (.messageReceived p e.2) := by
        refine (hrest e he).resolve_right ?_
        rintro ⟨p, h⟩
        injection h with h
        injection h with _ hm
        exact hne hm.symm
      by_cases hs : s.app.Stores W env message
      · rw [if_pos hs]
        refine iff_of_true (fun e he => ?_) fun _ => Or.inl (App.stores_iff.1 hs)
        obtain ⟨he, hne⟩ := List.mem_filter.1 he
        exact hstays e he (of_decide_eq_true hne)
      · rw [if_neg hs]
        constructor
        · rintro h ⟨e, he, rfl⟩
          exact Or.inr (h e he)
        · intro h e he
          by_cases hm : e.2 = message
          · have hagain := (h ⟨e, he, hm⟩).resolve_left fun hstorable => hs (App.stores_iff.2 hstorable)
            rwa [← hm] at hagain
          · exact hstays e he hm

theorem kept_iff (hc : s.Custody) : ∀ e, s.Kept W e ↔ s.Careful W e
  | .inbound _ _ allowed => kept_inbound_iff hc allowed
  | .publish _ => kept_publish_iff hc
  | .startRouter => iff_of_true (kept_iff_custody.2 (custody_startRouter hc)) trivial
  | .receive _ => kept_receive_iff hc
  | .app op => by
    refine iff_of_true (kept_iff_custody.2 ?_) trivial
    cases op <;> exact hc

/-- The router gets there: each turn brings it nearer, whatever the other steps have sent before. -/
theorem receive_unread {env : Env} (h : s.channel.unread ≠ 0) :
    (s.step W (.receive env)).channel.unread < s.channel.unread := by
  have hstep : (s.step W (.receive env)).channel = s.channel.recv.2 := by
    show (s.receive W env).channel = _
    unfold receive
    generalize s.channel.recv = got
    obtain ⟨got, channel⟩ := got
    cases got with
    | lagged missed => rfl
    | empty => rfl
    | value event => cases event <;> rfl
  rw [hstep]
  exact Channel.recv_unread h

/-- For every node and every schedule of the node loop, the router and the rest of the program: what was acknowledged
is on its way to the router until it is stored, and stored when the router has caught up, if and only if each step was
careful. -/
theorem acked_kept (W : Wire) (app : App M O) (capacity : ℕ) (es : List (IntakeStep M O)) :
    StepSystem.Guarded (intakeSys M O W capacity) (Kept W) (start app capacity) es ↔
      StepSystem.Guarded (intakeSys M O W capacity) (Careful W) (start app capacity) es :=
  StepSystem.guarded_iff (M := intakeSys M O W capacity) (I := Custody) (fun _ e hc => kept_iff hc e)
    (fun _ e hc hg => ((kept_iff hc e).2 hg).custody) (fun _ he => absurd he List.not_mem_nil) es

end DmIntake
namespace AckCustody
open IdealMls

def request : DirectMessage :=
  { id := "x", senderDid := "did:b", recipientDid := "did:a", ciphertext := [], olmMessageType := 1, signature := []
    timestamp := 1, type := 1, replyTo := none, senderIdentityKey := none }

/-- The node loop runs before the router has subscribed: what it acknowledges by then nobody takes out. -/
theorem acknowledged_unheard : ¬ ∀ (app : App idealMls idealOlm) (capacity : ℕ)
    (es : List (IntakeStep idealMls idealOlm)),
    StepSystem.Guarded (intakeSys idealMls idealOlm idealWire capacity) (DmIntake.Kept idealWire)
      (.start app capacity) es := by
  intro h
  obtain ⟨hkept, -⟩ := h HistoryIntegrity.start 128 [.inbound "peer" request true]
  obtain ⟨peer, hahead⟩ := hkept.custody ("peer", request) List.mem_cons_self
  exact Channel.not_ahead_of_none rfl hahead

end AckCustody
end Variance
