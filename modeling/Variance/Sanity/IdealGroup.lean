import Variance.Sanity.GroupInbound
import Variance.Sanity.IdealMls
import Variance.Sanity.IdealWire

/-! A group as one of its members comes to it on the ideal MLS: `did:a` made it, `did:b` was invited and
made an admin, `did:c` was invited. -/

namespace Variance
namespace IdealGroup
open IdealMls

def env (n : ℕ) : Env := { now := 0, rng := n, ulid := "g", faults := noFaults, dmOk := true }

/-- Every did resolves to a key package of its own. -/
def net : InviteNet := ⟨.ok, fun d => .ok (some (keyPackageCodec.enc ⟨d, 7⟩))⟩

def alice : Node idealMls :=
  { localDid := "did:a", mls := ⟨"did:a", ⟨[], []⟩, ∅, ∅⟩, storage := .empty, effects := [] }

def group : Node idealMls :=
  [Op.create (env 0) "G", Op.invite (env 1) net "g" "did:b",
    Op.direct (env 2) "did:b" "m" 0 (Node.acceptedContent "g"), Op.invite (env 3) net "g" "did:c",
    Op.direct (env 4) "did:c" "m" 0 (Node.acceptedContent "g"),
    Op.changeRole (env 5) "g" "did:b" "admin"].foldl (fun n op => n.exec idealWire op) alice

theorem reachable_group : StepSystem.Reachable (nodeSys idealMls idealWire) group :=
  StepSystem.reachable_foldl (M := nodeSys idealMls idealWire) (.init ⟨rfl, rfl⟩) _

def payload (c : MessageContent) : Bytes := idealWire.encodeGroupPayload (.message c)

/-- `d` encrypts; the envelope says `from_`. -/
def sent (d from_ : Did) (plaintext : Bytes) : GroupMessage :=
  { id := "x", senderDid := from_, groupId := "g", timestamp := 0, type := 1, replyTo := none
    mlsCiphertext := messageCodec.enc (.app "g" d plaintext) }

theorem decrypts {n : Node idealMls} {d from_ : Did} {b : Bytes}
    (h : (n.mls.processMessage "g" (.app "g" d b)).1 = .ok (some ⟨b, d⟩)) :
    n.Decrypts "g" (sent d from_ b) ⟨b, d⟩ := by
  have hdec := messageCodec.decode_enc (.app "g" d b)
  refine ⟨fun hnil => ?_, _, deserialize_serialize rfl, h⟩
  have hnone : messageCodec.decode [] = none := by decide +kernel
  rw [show messageCodec.enc (.app "g" d b) = [] from hnil, hnone] at hdec
  cases hdec

theorem livePayload_enc (p : GroupPayload) :
    livePayload idealWire (idealWire.encodeGroupPayload p) = some p := by
  unfold livePayload
  rw [show idealWire.decodeGroupPayload (idealWire.encodeGroupPayload p) = some p from
    IdealWire.payloadCodec.decode_enc p]

theorem livePayload_payload (c : MessageContent) : livePayload idealWire (payload c) = some (.message c) :=
  livePayload_enc _

end IdealGroup
end Variance
