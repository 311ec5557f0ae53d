import Variance.Lib.InsertionMap
import Variance.Lib.Overflow
import Variance.Lib.Run
import Variance.Spec.Storage

/-! The tree of outbound invites (`storage/invitations.rs`) beside the invites that were stored in it: its keys are one
text, put together from a group id and a DID. -/

namespace Variance

open Overflow

structure InvitePair where
  groupId : String
  inviteeDid : Did
deriving DecidableEq

def InvitePair.key (p : InvitePair) : String := LocalMessageStorage.inviteKey p.groupId p.inviteeDid

namespace LocalMessageStorage

/-- `created_at_ms + timeout_ms < now_ms`. -/
def pastExpiry (b : Build) (e : OutboundInvite) (timeoutMs nowMs : Int64) : Option Bool :=
  (add b (Int64.ofInt e.createdAtMs) timeoutMs).map fun t => decide (t < nowMs)

/-- The loop of `impl_fetch_expired_outbound_invites`, which an addition may stop. -/
def collectExpired (b : Build) (timeoutMs nowMs : Int64) :
    List (String × OutboundInvite) → Option (List (String × Did × GroupInvitation))
  | [] => some []
  | e :: es =>
    match pastExpiry b e.2 timeoutMs nowMs with
    | none => none
    | some false => collectExpired b timeoutMs nowMs es
    | some true => (collectExpired b timeoutMs nowMs es).map
        (((splitInviteKey e.1).map fun p => (p.1, p.2, e.2.invitation)).toList ++ ·)

/-- `fetchExpiredOutboundInvites` on 64 bits. -/
def checkedExpiredOutboundInvites (b : Build) (s : LocalMessageStorage) (timeoutMs nowMs : Int64) :
    Option (List (String × Did × GroupInvitation)) := collectExpired b timeoutMs nowMs s.outboundInvites.toList

end LocalMessageStorage

structure InviteLedger where
  storage : LocalMessageStorage
  /-- What was stored and has not been deleted since. -/
  stored : InsertionMap InvitePair OutboundInvite

inductive InviteOp
  | store (f : Faults) (p : InvitePair) (invitation : GroupInvitation) (createdAtMs : Int64)
  | delete (f : Faults) (p : InvitePair)
  | deleteAll (f : Faults) (groupId : String)
  | fetchGroup (groupId : String)
  | fetchExpired (b : Build) (timeoutMs nowMs : Int64)

namespace InviteLedger

/-- What failed to be stored is not; of a group whose deletion stopped midway, the invites that are left are. -/
def step (w : InviteLedger) : InviteOp → InviteLedger
  | .store f p invitation createdAtMs =>
    match w.storage.storeOutboundInvite f p.groupId p.inviteeDid invitation createdAtMs.toInt with
    | (.ok (), storage) => ⟨storage, w.stored.set p ⟨invitation, createdAtMs.toInt⟩⟩
    | (.error _, storage) => { w with storage }
  | .delete f p =>
    match w.storage.deleteOutboundInvite f p.groupId p.inviteeDid with
    | (.ok (), storage) => ⟨storage, w.stored.delete p⟩
    | (.error _, storage) => { w with storage }
  | .deleteAll f groupId =>
    match w.storage.deleteAllOutboundInvitesForGroup f groupId with
    | (.ok (), storage) => ⟨storage, w.stored.filterMap fun p e => if p.groupId ≠ groupId then some e else none⟩
    | (.error _, storage) =>
      ⟨storage, w.stored.filterMap fun p e => if storage.outboundInvites.contains p.key then some e else none⟩
  | .fetchGroup _ | .fetchExpired .. => w

/-- The entries of the tree are what was stored, one for one. -/
def Holds (w : InviteLedger) : Prop :=
  w.storage.outboundInvites.toList.Perm (w.stored.entries.map fun e => (e.1.key, e.2))

def Expired (e : OutboundInvite) (timeoutMs nowMs : Int64) : Prop :=
  e.createdAtMs + timeoutMs.toInt < nowMs.toInt

instance (e : OutboundInvite) (timeoutMs nowMs : Int64) : Decidable (Expired e timeoutMs nowMs) :=
  inferInstanceAs (Decidable (_ < _))

/-- A write leaves what was stored and not deleted. A fetch gives the invites it is to give, under their own names. -/
def RoundTrips (w : InviteLedger) : InviteOp → Prop
  | .fetchGroup groupId => (w.storage.fetchOutboundInvitesForGroup groupId).Perm
      ((w.stored.entries.filter fun e => e.1.groupId = groupId).map fun e =>
        (e.1.inviteeDid, e.2.invitation, e.2.createdAtMs))
  | .fetchExpired b timeoutMs nowMs =>
    ∃ expired, w.storage.checkedExpiredOutboundInvites b timeoutMs nowMs = some expired ∧
      expired.Perm ((w.stored.entries.filter fun e => Expired e.2 timeoutMs nowMs).map fun e =>
        (e.1.groupId, e.1.inviteeDid, e.2.invitation))
  | op => (w.step op).Holds

end InviteLedger

/-- The first `:did:` of the key is the boundary. -/
def InvitePair.Splits (p : InvitePair) : Prop :=
  Text.HasPrefix "did:" p.inviteeDid ∧ ¬ Text.Occurs ":did:" (p.groupId ++ ":")

instance (p : InvitePair) : Decidable p.Splits := inferInstanceAs (Decidable (_ ∧ _))

namespace InviteLedger

open LocalMessageStorage in
/-- The condition, on what is stored when the call comes. -/
def Careful (w : InviteLedger) : InviteOp → Prop
  | .store f p _ _ | .delete f p => f "outbound_invites" p.key = false →
      ∀ e ∈ w.stored.entries, e.1.key = p.key → e.1 = p
  | .deleteAll f groupId =>
      (∀ e ∈ w.stored.entries, Text.HasPrefix (groupId ++ ":") e.1.key → f "outbound_invites" e.1.key = false) →
      ∀ e ∈ w.stored.entries, Text.HasPrefix (groupId ++ ":") e.1.key → e.1.groupId = groupId
  | .fetchGroup groupId => ∀ e ∈ w.stored.entries, Text.HasPrefix (groupId ++ ":") e.1.key →
      if e.1.groupId = groupId then e.1.Splits else ¬ Text.Occurs ":did:" e.1.key
  | .fetchExpired b timeoutMs nowMs => ∀ e ∈ w.stored.entries, ∃ past ∈ pastExpiry b e.2 timeoutMs nowMs,
      if Expired e.2 timeoutMs nowMs then past = true ∧ e.1.Splits else past = true → ¬ Text.Occurs ":did:" e.1.key

instance (w : InviteLedger) : ∀ op, Decidable (w.Careful op)
  | .store .. | .delete .. => inferInstanceAs (Decidable (_ → ∀ e ∈ w.stored.entries, _ → _))
  | .deleteAll .. =>
    inferInstanceAs (Decidable ((∀ e ∈ w.stored.entries, _ → _) → ∀ e ∈ w.stored.entries, _ → _))
  | .fetchGroup groupId =>
    inferInstanceAs (Decidable (∀ e ∈ w.stored.entries, _ → if e.1.groupId = groupId then _ else _))
  | .fetchExpired b timeoutMs nowMs => inferInstanceAs (Decidable (∀ e ∈ w.stored.entries,
      ∃ past ∈ LocalMessageStorage.pastExpiry b e.2 timeoutMs nowMs,
        if Expired e.2 timeoutMs nowMs then past = true ∧ _ else past = true → _))

end InviteLedger

/-- From an empty tree on, whatever else is stored. -/
def inviteLedgerSys : StepSystem.Sys InviteLedger InviteOp where
  init w := w.storage.outboundInvites = ∅ ∧ w.stored = ∅
  step := InviteLedger.step

end Variance
