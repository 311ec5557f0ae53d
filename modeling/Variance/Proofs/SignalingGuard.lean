import Variance.Spec.Signaling

/-! Signaling events are emitted before anything is checked; of what is checked, the calls are touched only after the
sender's signature holds. -/

namespace Variance
namespace SignalingNode
variable {R : WebRtc} {E : Ed25519} {n : SignalingNode R} {m : SignalingMessage} {env : SignalingEnv} {peer : PeerId}
  {peerDid : Did}

/-- Every message with a content makes an event. -/
theorem emitSignalingEvent_events {content : SignalingContent} (h : m.message = some content) :
    ∃ e, (n.emitSignalingEvent peer m).events = n.events ++ [e] := by
  unfold emitSignalingEvent
  rw [h]
  cases content with
  | offer sdp callType => exact ⟨_, rfl⟩
  | answer sdp => exact ⟨_, rfl⟩
  | iceCandidate candidate sdpMid sdpMLineIndex => exact ⟨_, rfl⟩
  | control type reason => exact ⟨_, rfl⟩

/-- Verification records a nonce at most. -/
theorem verifySignature_keeps (h : SignalingHandler R) :
    (h.verifySignature E m).2.activeCalls = h.activeCalls ∧ (h.verifySignature E m).2.callManager = h.callManager := by
  unfold SignalingHandler.verifySignature
  split
  · exact ⟨rfl, rfl⟩
  · exact ⟨rfl, rfl⟩

theorem verifySignature_ok_iff :
    (n.handler.verifySignature E m).1 = .ok () ↔ n.Authentic E m := by
  unfold SignalingHandler.verifySignature Authentic
  cases hc : n.handler.cache[m.senderDid]? with
  | none => simp
  | some sender =>
    cases hk : sender.getVerifyingKey E with
    | none => simp [hk]
    | some key =>
      cases hm : n.handler.mediaHandler with
      | none => simp [hk]
      | some media =>
        have hverify : (media.verifyMessage E m key).1 = .ok () ↔ m.nonce.length = 16 ∧ m.signature.length = 64 ∧
            E.verify key m.payload m.signature = true ∧ m.nonce ∉ (media.seenNonces[m.callId]?).getD [] := by
          unfold MediaHandler.verifyMessage
          dsimp only
          split_ifs <;> simp_all
        have hmap (r : Except MediaError Unit) : r.mapError (fun _ => P2pError.protocol) = .ok () ↔ r = .ok () := by
          cases r <;> simp [Except.mapError]
        simp only [Option.bind_some, hk, hmap, hverify, Option.some.injEq]
        constructor
        · intro h
          exact ⟨sender, key, media, rfl, hk, rfl, h⟩
        · rintro ⟨_, _, _, rfl, hk', rfl, h⟩
          rw [hk] at hk'
          obtain rfl := Option.some.inj hk'
          exact h

/-- What is not signed by its sender, or is replayed, leaves the calls alone. -/
theorem unauthentic_keeps (h : ¬ n.Authentic E m) :
    (n.handler.handleMessage E env peerDid m).2.activeCalls = n.handler.activeCalls ∧
      (n.handler.handleMessage E env peerDid m).2.callManager = n.handler.callManager := by
  have hkeeps := verifySignature_keeps (E := E) (m := m) n.handler
  rw [← verifySignature_ok_iff] at h
  unfold SignalingHandler.handleMessage
  rcases hv : n.handler.verifySignature E m with ⟨⟨e⟩ | ⟨⟩, h'⟩
  · rw [hv] at hkeeps
    exact hkeeps
  · rw [hv] at h
    exact (h rfl).elim

/-- A message without content gets no further than verification. -/
theorem empty_keeps (h : m.message = none) :
    (n.handler.handleMessage E env peerDid m).2.activeCalls = n.handler.activeCalls ∧
      (n.handler.handleMessage E env peerDid m).2.callManager = n.handler.callManager := by
  have hkeeps := verifySignature_keeps (E := E) (m := m) n.handler
  unfold SignalingHandler.handleMessage
  rw [h]
  rcases hv : n.handler.verifySignature E m with ⟨⟨e⟩ | ⟨⟩, h'⟩
  · rw [hv] at hkeeps
    exact hkeeps
  · rw [hv] at hkeeps
    exact hkeeps

/-- For every state, message and notion of staleness: the guard holds exactly where there is nothing to refuse, the
peer is limited, or the message has no content. -/
theorem signalingGuarded_iff (n : SignalingNode R) (E : Ed25519) (stale : ℤ → Prop) (env : SignalingEnv)
    (kind : SignalingKind) (peer : PeerId) (peerDid : Did) (m : SignalingMessage) :
    n.SignalingGuarded E stale env kind peer peerDid m ↔
      ¬ n.Refusable E stale peerDid m ∨ kind = .request false ∨ m.message = none := by
  constructor
  · intro h
    by_contra hne
    obtain ⟨hrefusable, hkind, hcontent⟩ : n.Refusable E stale peerDid m ∧ kind ≠ .request false ∧
        m.message ≠ none := by
      rw [not_or, not_or, not_not] at hne
      exact hne
    obtain ⟨content, hc⟩ := Option.ne_none_iff_exists'.1 hcontent
    obtain ⟨e, he⟩ : ∃ e, (n.emitSignalingEvent peer m).events = n.events ++ [e] := emitSignalingEvent_events hc
    have hevents := (h hrefusable).2.2
    have hemitted : (n.handleSignaling E env kind peer peerDid m).2.events = n.events ++ [e] := by
      cases kind with
      | response => exact he
      | request allowed =>
        cases allowed with
        | false => exact (hkind rfl).elim
        | true => exact he
    rw [hemitted] at hevents
    exact absurd hevents (by simp)
  · intro h hrefusable
    rcases h with h | rfl | hnone
    · exact (h hrefusable).elim
    · exact ⟨rfl, rfl, rfl⟩
    · have hquiet : n.emitSignalingEvent peer m = n := by
        unfold emitSignalingEvent
        rw [hnone]
      cases kind with
      | response =>
        rw [handleSignaling, hquiet]
        exact ⟨rfl, rfl, rfl⟩
      | request allowed =>
        cases allowed with
        | false => exact ⟨rfl, rfl, rfl⟩
        | true =>
          have hkeeps : (n.handler.handleMessage E env peerDid m).2.activeCalls = n.handler.activeCalls ∧
              (n.handler.handleMessage E env peerDid m).2.callManager = n.handler.callManager := empty_keeps hnone
          rw [handleSignaling, hquiet]
          exact ⟨hkeeps.1, hkeeps.2, rfl⟩

end SignalingNode
namespace SignalingGuard

/-- A key's signature of anything is sixty-four times its first byte. -/
def toy : Ed25519 where
  validKey _ := true
  verify key _ signature := signature = List.replicate 64 (key.headD 0)
  encodeDocument doc := utf8Bytes doc.id
  keyOf _ := List.replicate 32 1
  peerId key := String.ofList (key.map fun b => Char.ofNat b.toNat)

/-- No connection is ever made. -/
def deaf : WebRtc where
  Pc := Unit
  Sdp := String
  newPeerConnection _ := none
  offer := some
  answer := some
  text := id
  setRemoteDescription _ pc := (false, pc)
  createAnswer pc := (none, pc)
  setLocalDescription _ pc := (false, pc)
  addIceCandidate _ _ _ pc := (false, pc)

/-- `did:a` in a call with `did:b`, knowing the key of `did:x`. -/
def node : SignalingNode deaf where
  handler :=
    { mediaHandler := some ⟨"did:a", fun _ => List.replicate 64 9, ∅⟩
      callManager := some ⟨"did:a", ∅, []⟩
      activeCalls := (∅ : SledTree Did).insert "call" "did:b"
      cache := (∅ : SledTree CachedDid).insert "did:x" (.ofProto
        ⟨"did:x", [⟨"Ed25519VerificationKey2020", List.replicate 32 1⟩], none⟩ []) }
  events := []

/-- `did:x` hangs up, over its own signature. -/
def hangup : SignalingMessage :=
  { callId := "call", senderDid := "did:x", recipientDid := "did:a", message := some (.control controlHangup none)
    timestamp := 0, signature := List.replicate 64 1, nonce := List.replicate 16 0 }

/-- A third party ends the call of two others. -/
theorem third_party_hangs_up : ¬ ∀ (n : SignalingNode deaf) (E : Ed25519) (stale : ℤ → Prop) (env : SignalingEnv)
    (kind : SignalingKind) (peer : PeerId) (peerDid : Did) (m : SignalingMessage),
    n.SignalingGuarded E stale env kind peer peerDid m := by
  intro h
  have hthird : ¬ node.Participates "did:x" "call" := by
    rintro ⟨hactive, -⟩
    exact absurd (hactive "did:b" (by decide +kernel)) (by decide)
  obtain ⟨hactive, -, -⟩ := h node toy (fun _ => False) ⟨0, []⟩ (.request true) "peer" "did:x" hangup
    (Or.inr (Or.inr (Or.inr (Or.inl hthird))))
  have hended : (node.handleSignaling toy ⟨0, []⟩ (.request true) "peer" "did:x" hangup).2.handler.activeCalls["call"]? =
      none := by decide +kernel
  rw [hactive] at hended
  have hrunning : node.handler.activeCalls["call"]? = some "did:b" := by decide +kernel
  rw [hrunning] at hended
  cases hended

end SignalingGuard
end Variance
