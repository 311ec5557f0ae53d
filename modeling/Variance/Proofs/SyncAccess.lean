import Variance.Sanity.IdealMls
import Variance.Sanity.Since

/-! Who may have a group's messages is not asked: a sync request is answered with what its range of keys holds. -/

namespace Variance

open LocalMessageStorage

theorem LocalMessageStorage.serveSync_messages {s : LocalMessageStorage} {groupId : String} {since : ℤ} {limit : ℕ} :
    (s.serveSync groupId since limit).messages = (s.range groupId since).take (effectiveLimit limit) := by
  have hmax : max 1 (effectiveLimit limit) = effectiveLimit limit := max_eq_right (effectiveLimit_pos limit)
  rw [serveSync, fetchGroupSince_eq, hmax]

namespace SyncResponder
variable {M : OpenMls} {r : SyncResponder M} {peer : PeerId} {request : GroupSyncRequest} {requestId : ℕ}

theorem answer_limited : r.answerGroupSync false peer request requestId =
    (some ⟨[], false, some "429", some "Rate limited"⟩, r) := rfl

/-- The channel that a request opens is closed by its answer, and the rest is as before. -/
theorem answer_allowed (h : r.pendingSyncResponses[requestId]? = none) :
    r.answerGroupSync true peer request requestId =
      (some (r.node.storage.serveSync request.groupId request.sinceTimestamp request.limit), r) := by
  have hclosed :
      (r.pendingSyncResponses.insert requestId request.groupId).erase requestId = r.pendingSyncResponses := by
    refine Std.ExtTreeMap.ext_getElem? fun k => ?_
    rw [Std.ExtTreeMap.getElem?_erase, Std.ExtTreeMap.getElem?_insert]
    by_cases hk : requestId = k
    · simp [← hk, h]
    · simp [hk]
  simp only [answerGroupSync, handleGroupSyncRequest, respondGroupSync, if_true,
    Std.ExtTreeMap.getElem?_insert_self, hclosed]

/-- For every responder and request: access is guarded exactly when the peer is limited, or bound to a member of the
group of every message that the request reaches. -/
theorem syncGuarded_iff (r : SyncResponder M) (allowed : Bool) (peer : PeerId) (request : GroupSyncRequest)
    (requestId : ℕ) (h : r.pendingSyncResponses[requestId]? = none) :
    r.SyncGuarded allowed peer request requestId ↔ allowed = false ∨
      ∀ m ∈ (r.node.storage.range request.groupId request.sinceTimestamp).take (effectiveLimit request.limit),
        r.Bound peer m.groupId := by
  cases allowed with
  | false =>
    refine ⟨fun _ => Or.inl rfl, fun _ => ⟨fun response hr m hm => ?_, fun _ => rfl⟩⟩
    rw [answer_limited] at hr
    obtain rfl := Option.some.inj hr
    cases hm
  | true =>
    rw [SyncGuarded, answer_allowed h]
    constructor
    · intro hg
      right
      rw [← serveSync_messages]
      exact hg.1 _ rfl
    · intro hreach
      refine ⟨fun response hr m hm => ?_, fun _ => rfl⟩
      obtain rfl := Option.some.inj hr
      rw [serveSync_messages] at hm
      exact hreach.resolve_left (by decide) m hm

end SyncResponder
namespace SyncAccess

def message : GroupMessage :=
  { id := "x", senderDid := "did:a", groupId := "g", timestamp := 1, type := 0, replyTo := none, mlsCiphertext := [7] }

/-- A member `did:a` of a group with `did:b`, who holds a message of it, and knows some peers. -/
def responder (didToPeer : SledTree PeerId) : SyncResponder idealMls where
  node :=
    { localDid := "did:a"
      mls :=
        { localDid := "did:a"
          provider := ⟨[], []⟩
          groups := (∅ : SledTree IdealMls.GroupState).insert "g" ⟨"g", "did:a", 1, ["did:a", "did:b"], [], none, []⟩
          desyncCounters := ∅ }
      storage := (LocalMessageStorage.empty.storeGroup noFaults message).2
      effects := [] }
  didToPeer
  pendingSyncResponses := ∅

/-- A peer of which nothing is known asks for a group by its id, and is sent the message. -/
theorem stranger_served : ¬ ∀ (r : SyncResponder idealMls) (allowed : Bool) (peer : PeerId)
    (request : GroupSyncRequest) (requestId : ℕ), r.pendingSyncResponses[requestId]? = none →
    r.SyncGuarded allowed peer request requestId := by
  intro h
  have hserved : ((responder ∅).answerGroupSync true "peer" ⟨"g", "did:x", 0, 0⟩ 0).1 =
      some ⟨[message], false, none, none⟩ := by decide +kernel
  obtain ⟨did, hdid, -⟩ := (h (responder ∅) true "peer" ⟨"g", "did:x", 0, 0⟩ 0 rfl).1 _ hserved message (by simp)
  exact absurd hdid (by simp [responder])

/-- The same request from the peer of a member. -/
theorem member_guarded :
    (responder ((∅ : SledTree PeerId).insert "did:b" "peer")).SyncGuarded true "peer" ⟨"g", "did:b", 0, 0⟩ 0 := by
  refine (SyncResponder.syncGuarded_iff _ true "peer" ⟨"g", "did:b", 0, 0⟩ 0 rfl).2 (Or.inr fun m hm => ?_)
  have hreach : ((responder ((∅ : SledTree PeerId).insert "did:b" "peer")).node.storage.range "g" 0).take
      (effectiveLimit 0) = [message] := by decide +kernel
  rw [hreach] at hm
  rw [List.mem_singleton.1 hm]
  exact ⟨"did:b", by decide +kernel, by decide +kernel⟩

end SyncAccess
end Variance
