import Variance.Lib.Run
import Variance.Spec.Storage

/-! Direct messages on their way out: `send_dm_to_peer` (`variance-app/src/api/helpers.rs`), the flush of pending
messages in `handle_peer_connected`, and the node loop that sends them and hears of the outcome
(`variance-p2p/src/node`). -/

namespace Variance

/-- What the listener of direct-message events shows the user. -/
inductive DmNotice
  | nack (messageId error : String)
  | statusChanged (messageId status : String)
deriving DecidableEq

/-- A flush: the messages that it has read and not come to yet, and the one that is sent and not yet marked. -/
structure PendingFlush where
  did : Did
  rest : List DirectMessage
  sent : Option String

/-- `pendingDmSends` has an entry for each request under way; `queueing` is the calls that the node has refused, up to
`queue_pending_message`. `accepted` and `acknowledged` are kept beside them. -/
structure DmOutbox where
  localDid : Option Did
  storage : LocalMessageStorage
  pendingDmSends : List (String × Did)
  queueing : List (Did × DirectMessage)
  flushes : List PendingFlush
  notices : List DmNotice
  accepted : List (Did × DirectMessage)
  acknowledged : List (String × Did)

/-- The key that `delete_pending_message` removes. -/
def LocalMessageStorage.deletedPendingKey (s : LocalMessageStorage) (f : Faults) (messageId : String) : Option String :=
  (((s.messageIndex[indexKey messageId]?).bind indexedKey).or
    ((s.pendingMessages.toList.find? fun e => Text.HasSuffix (":" ++ messageId) e.1).map (·.1))).filter
      fun k => f "pending_messages" k = false

namespace DmOutbox

def start (localDid : Option Did) (storage : LocalMessageStorage) : DmOutbox :=
  ⟨localDid, storage, [], [], [], [], [], []⟩

/-- `NodeCommand::SendDirectMessage`; `reachable` when the peer is known and connected. -/
def sendDirectMessage (s : DmOutbox) (peerDid : Did) (message : DirectMessage) (reachable : Bool) : Bool × DmOutbox :=
  if some peerDid = s.localDid then (true, s)
  else if reachable then (true, { s with pendingDmSends := s.pendingDmSends ++ [(message.id, peerDid)] })
  else (false, s)

/-- `send_dm_to_peer`, as far as the answer of the node. -/
def sendDmToPeer (s : DmOutbox) (recipientDid : Did) (message : DirectMessage) (reachable : Bool) : DmOutbox :=
  match s.sendDirectMessage recipientDid message reachable with
  | (true, s) => { s with accepted := s.accepted ++ [(recipientDid, message)] }
  | (false, s) => { s with queueing := s.queueing ++ [(recipientDid, message)] }

/-- `queue_pending_message`; a failure is only logged. -/
def queuePendingMessage (s : DmOutbox) (f : Faults) (i : ℕ) : DmOutbox :=
  match s.queueing[i]? with
  | none => s
  | some (recipientDid, message) =>
    { s with
      queueing := s.queueing.eraseIdx i
      storage := (s.storage.storePendingMessage f recipientDid message).2
      accepted := s.accepted ++ [(recipientDid, message)] }

/-- `get_pending_messages`. -/
def flush (s : DmOutbox) (did : Did) : DmOutbox :=
  { s with flushes := s.flushes ++ [⟨did, s.storage.fetchPendingMessages did, none⟩] }

def flushNext (s : DmOutbox) (i : ℕ) (reachable : Bool) : DmOutbox :=
  match s.flushes[i]? with
  | some ⟨did, message :: rest, none⟩ =>
    match s.sendDirectMessage did message reachable with
    | (true, s) => { s with flushes := s.flushes.set i ⟨did, rest, some message.id⟩ }
    | (false, s) => { s with flushes := s.flushes.set i ⟨did, rest, none⟩ }
  | _ => s

def markPendingSent (s : DmOutbox) (f : Faults) (i : ℕ) : DmOutbox :=
  match s.flushes[i]? with
  | some ⟨did, rest, some messageId⟩ =>
    { s with
      flushes := s.flushes.set i ⟨did, rest, none⟩
      storage := (s.storage.deletePendingMessage f messageId).2 }
  | _ => s

/-- The peer's response to a request; the id in it is the peer's own. -/
def response (s : DmOutbox) (i : ℕ) (messageId : String) (error : Option String) : DmOutbox :=
  match s.pendingDmSends[i]? with
  | none => s
  | some entry =>
    match error with
    | none => { s with pendingDmSends := s.pendingDmSends.eraseIdx i, acknowledged := s.acknowledged ++ [entry] }
    | some error =>
      { s with pendingDmSends := s.pendingDmSends.eraseIdx i, notices := s.notices ++ [.nack messageId error] }

def outboundFailure (s : DmOutbox) (i : ℕ) : DmOutbox :=
  match s.pendingDmSends[i]? with
  | none => s
  | some entry =>
    { s with
      pendingDmSends := s.pendingDmSends.eraseIdx i
      notices := s.notices ++ [.statusChanged entry.1 "pending"] }

end DmOutbox

/-- Peers connect and disconnect as `reachable` and the flushes tell. -/
inductive DmStep
  | send (recipientDid : Did) (message : DirectMessage) (reachable : Bool)
  | queue (f : Faults) (i : ℕ)
  | flush (did : Did)
  | flushNext (i : ℕ) (reachable : Bool)
  | markSent (f : Faults) (i : ℕ)
  | response (i : ℕ) (messageId : String) (error : Option String)
  | outboundFailure (i : ℕ)

/-- The request that a step ends without an acknowledgement. -/
def DmStep.failed : DmStep → Option ℕ
  | .response i _ (some _) => some i
  | .outboundFailure i => some i
  | _ => none

namespace DmOutbox

def step (s : DmOutbox) : DmStep → DmOutbox
  | .send recipientDid message reachable => s.sendDmToPeer recipientDid message reachable
  | .queue f i => s.queuePendingMessage f i
  | .flush did => s.flush did
  | .flushNext i reachable => s.flushNext i reachable
  | .markSent f i => s.markPendingSent f i
  | .response i messageId error => s.response i messageId error
  | .outboundFailure i => s.outboundFailure i

def Queued (s : DmOutbox) (d : Did) (m : DirectMessage) : Prop :=
  s.storage.pendingMessages[LocalMessageStorage.pendingKey d m.id]? = some m

def Acknowledged (s : DmOutbox) (d : Did) (m : DirectMessage) : Prop := (m.id, d) ∈ s.acknowledged

/-- In the pending queue, in flight, or acknowledged. -/
def Held (s : DmOutbox) (d : Did) (m : DirectMessage) : Prop :=
  s.Queued d m ∨ (m.id, d) ∈ s.pendingDmSends ∨ s.Acknowledged d m

def Custody (s : DmOutbox) : Prop := ∀ d m, (d, m) ∈ s.accepted → s.Held d m

/-- Every accepted message is held after the step; one that leaves the queue is acknowledged; and one whose request
fails or is refused is in the queue. -/
structure Kept (s : DmOutbox) (e : DmStep) : Prop where
  held : (s.step e).Custody
  leaves : ∀ d m, (d, m) ∈ s.accepted → s.Queued d m → (s.step e).Queued d m ∨ (s.step e).Acknowledged d m
  returns : ∀ i, e.failed = some i → ∀ d m, (d, m) ∈ s.accepted → s.pendingDmSends[i]? = some (m.id, d) →
    (s.step e).Queued d m

/-- A message to the node itself, and one that the queue cannot take, is held otherwise; a message is queued in the
place of no other that is not acknowledged, and a flush marks none that is not; and only what is in the queue fails or
is refused. -/
def Careful (s : DmOutbox) : DmStep → Prop
  | .send d m _ => some d = s.localDid → s.Held d m
  | .queue f i => ∀ d m, s.queueing[i]? = some (d, m) →
      if f "pending_messages" (LocalMessageStorage.pendingKey d m.id) then s.Held d m
      else ∀ d' m', (d', m') ∈ s.accepted → s.Queued d' m' →
        LocalMessageStorage.pendingKey d' m'.id = LocalMessageStorage.pendingKey d m.id →
          m' = m ∨ s.Acknowledged d' m'
  | .flush _ => True
  | .flushNext _ _ => True
  | .markSent f i => ∀ flush messageId, s.flushes[i]? = some flush → flush.sent = some messageId →
      ∀ d m, (d, m) ∈ s.accepted → s.Queued d m →
        s.storage.deletedPendingKey f messageId = some (LocalMessageStorage.pendingKey d m.id) → s.Acknowledged d m
  | .response _ _ none => True
  | .response i _ (some _) | .outboundFailure i => ∀ d m, (d, m) ∈ s.accepted →
      s.pendingDmSends[i]? = some (m.id, d) → s.Queued d m

end DmOutbox

def dmOutboxSys (localDid : Option Did) (storage : LocalMessageStorage) : StepSystem.Sys DmOutbox DmStep where
  init s := s = .start localDid storage
  step := DmOutbox.step

end Variance
