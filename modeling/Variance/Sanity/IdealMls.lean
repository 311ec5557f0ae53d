import Variance.Lib.Codec
import Variance.Sanity.Slot
import Variance.Spec.Mls
import Variance.Spec.Node

/-! An MLS with nothing but its bookkeeping: commits are the changes they make, a Welcome names the
key packages it was made for, and every message is its own encoding. It meets `CommitSlot`, so
what is proved of a lawful MLS is about something, and runs can be computed on it. -/

namespace Variance
namespace IdealMls

structure Commit where
  author : Did
  nonce : ℕ
  epoch : ℕ
  adds : List Did
  removes : List Did
deriving DecidableEq

structure KeyPackage where
  did : Did
  nonce : ℕ
deriving DecidableEq

structure Welcome where
  groupId : String
  commit : Commit
  keyPackages : List KeyPackage
  members : List Did
deriving DecidableEq

inductive Message
  | commit (groupId : String) (c : Commit)
  | welcome (w : Welcome)
  | proposal (groupId : String) (leaver : Did)
  | app (groupId : String) (sender : Did) (plaintext : Bytes)
deriving DecidableEq

structure GroupState where
  id : String
  localDid : Did
  epoch : ℕ
  members : List Did
  applied : List Commit
  pending : Option Commit
  proposals : List Did
deriving DecidableEq

/-- The private parts of our key packages, and the stored groups. -/
structure Provider where
  privates : List KeyPackage
  groups : List GroupState
deriving DecidableEq

def Provider.save (p : Provider) (g : GroupState) : Provider :=
  { p with groups := g :: p.groups.filter fun x => x.id ≠ g.id }

def Provider.forget (p : Provider) (id : String) : Provider :=
  { p with groups := p.groups.filter fun x => x.id ≠ id }

/-- The epoch after a commit: its proposals are gone, and so is any commit of our own. -/
def GroupState.apply (g : GroupState) (c : Commit) : GroupState :=
  { g with
    epoch := g.epoch + 1
    members := (g.members.filter fun d => d ∉ c.removes) ++ c.adds
    applied := g.applied ++ [c]
    pending := none
    proposals := [] }

def commitCodec : Codec Commit :=
  (Codec.prod .string (.prod .nat (.prod .nat (.prod (.list .string) (.list .string))))).map
    (fun c => (c.author, c.nonce, c.epoch, c.adds, c.removes)) (fun p => ⟨p.1, p.2.1, p.2.2.1, p.2.2.2.1, p.2.2.2.2⟩)
    fun _ => rfl

def keyPackageCodec : Codec KeyPackage :=
  (Codec.prod .string .nat).map (fun k => (k.did, k.nonce)) (fun p => ⟨p.1, p.2⟩) fun _ => rfl

def welcomeCodec : Codec Welcome :=
  (Codec.prod .string (.prod commitCodec (.prod (.list keyPackageCodec) (.list .string)))).map
    (fun w => (w.groupId, w.commit, w.keyPackages, w.members))
    (fun p => ⟨p.1, p.2.1, p.2.2.1, p.2.2.2⟩) fun _ => rfl

def messageCodec : Codec Message :=
  (Codec.sum (.prod .string commitCodec) (.sum welcomeCodec
    (.sum (.prod .string .string) (.prod .string (.prod .string (.list .byte)))))).map
    (fun
      | .commit g c => .inl (g, c)
      | .welcome w => .inr (.inl w)
      | .proposal g d => .inr (.inr (.inl (g, d)))
      | .app g s b => .inr (.inr (.inr (g, s, b))))
    (fun
      | .inl p => .commit p.1 p.2
      | .inr (.inl w) => .welcome w
      | .inr (.inr (.inl p)) => .proposal p.1 p.2
      | .inr (.inr (.inr p)) => .app p.1 p.2.1 p.2.2)
    fun m => by cases m <;> rfl

/-- Apply a change to the group and keep the result in the key store. -/
def commitTo (p : Provider) (g : GroupState) (c : Commit) : Except String Unit × Provider × GroupState :=
  (.ok (), p.save (g.apply c), g.apply c)

/-- A commit of our own needs an empty slot, which it fills. -/
def propose {α : Type} (p : Provider) (g : GroupState) (c : Commit) (a : α) :
    Except String α × Provider × GroupState :=
  if g.pending.isSome then (.error "PendingCommit", p, g)
  else (.ok a, p.save { g with pending := some c }, { g with pending := some c })

section
variable {α : Type} {p p' : Provider} {g g' : GroupState} {c : Commit} {a b : α}

theorem propose_ok (h : propose p g c a = (.ok b, p', g')) : b = a ∧ g' = { g with pending := some c } := by
  unfold propose at h
  split_ifs at h
  · cases h
  · cases h; exact ⟨rfl, rfl⟩

theorem propose_error {e : String} (h : propose p g c a = (.error e, p', g')) : g' = g := by
  unfold propose at h
  split_ifs at h
  · cases h; rfl
  · cases h

end
end IdealMls

open IdealMls in
def idealMls : OpenMls where
  Provider := Provider
  Group := GroupState
  KeyPackage := KeyPackage
  Message := Message
  Welcome := Welcome
  StagedWelcome := Welcome × KeyPackage
  Proposal := Did
  Commit := Commit
  buildKeyPackage did rng p := (.ok ⟨did, rng⟩, { p with privates := ⟨did, rng⟩ :: p.privates })
  newWithGroupId did id _ p :=
    let g : GroupState := ⟨id, did, 0, [did], [], none, []⟩
    if p.groups.any fun x => x.id = id then (.error "GroupAlreadyExists", p) else (.ok g, p.save g)
  groupId g := g.id
  members g := g.members.zipIdx.map fun x => (x.2, x.1)
  epoch g := g.epoch
  pendingCommit g := g.pending
  pendingProposals g := g.proposals
  addMembers did rng kps p g :=
    let c : Commit := ⟨did, rng, g.epoch, kps.map (·.did), []⟩
    if (g.members ++ c.adds).Nodup then propose p g c (.commit g.id c, .welcome ⟨g.id, c, kps, (g.apply c).members⟩)
    else (.error "DuplicateSignatureKey", p, g)
  removeMembers did rng is p g :=
    let c : Commit := ⟨did, rng, g.epoch, [], is.filterMap fun i => g.members[i]?⟩
    propose p g c (.commit g.id c)
  mergePendingCommit p g :=
    match g.pending with
    | none => (.ok (), p, g)
    | some c => commitTo p g c
  clearPendingCommit p g := (.ok (), p.save { g with pending := none }, { g with pending := none })
  createMessage did _ b p g :=
    if g.proposals ≠ [] then (.error "PendingProposals", p, g) else (.ok (.app g.id did b), p, g)
  tryIntoProtocolMessage
    | .welcome _ => .error "WrongWireFormat"
    | m => .ok m
  processMessage m p g :=
    (match m with
      | .app id s b => if id = g.id ∧ s ∈ g.members then .ok (s, .applicationMessage b) else .error "Decrypt"
      | .proposal id d => if id = g.id then .ok (d, .proposalMessage d) else .error "WrongGroupId"
      | .commit id c =>
        if id = g.id ∧ c.epoch = g.epoch ∧ c.author ∈ g.members ∧ (g.apply c).members.Nodup then
          .ok (c.author, .stagedCommitMessage c)
        else .error "WrongEpoch"
      | .welcome _ => .error "WrongWireFormat", p, g)
  storePendingProposal d p g :=
    (.ok (), p.save { g with proposals := g.proposals ++ [d] }, { g with proposals := g.proposals ++ [d] })
  mergeStagedCommit c p g := commitTo p g c
  commitToPendingProposals did rng p g :=
    let c : Commit := ⟨did, rng, g.epoch, [], g.proposals⟩
    propose p g c (.commit g.id c)
  leaveGroup did _ p g :=
    (if g.pending.isSome then .error "PendingCommit" else .ok (.proposal g.id did), p, g)
  selfUpdate did rng p g :=
    let c : Commit := ⟨did, rng, g.epoch, [], []⟩
    propose p g c (.commit g.id c)
  extractWelcome
    | .welcome w => some w
    | _ => none
  newFromWelcome w p :=
    match w.keyPackages.find? fun k => k ∈ p.privates with
    | none => (.error "NoMatchingKeyPackage", p)
    | some k => (.ok (w, k), { p with privates := p.privates.erase k })
  intoGroup s p :=
    let g : GroupState := ⟨s.1.groupId, s.2.did, s.1.commit.epoch + 1, s.1.members, [s.1.commit], none, []⟩
    if p.groups.any fun x => x.id = g.id then (.error "GroupAlreadyExists", p)
    else if s.1.members.Nodup then (.ok g, p.save g)
    else (.error "DuplicateSignatureKey", p)
  deleteGroup g p := p.forget g.id
  loadGroup id p := .ok (p.groups.find? fun g => g.id = id)
  serializeMessage m := .ok (messageCodec.enc m)
  deserializeMessage b := (messageCodec.decode b).elim (.error "EndOfStream") .ok
  serializeKeyPackage k := .ok (keyPackageCodec.enc k)
  deserializeKeyPackage b := (keyPackageCodec.decode b).elim (.error "EndOfStream") .ok
  validateKeyPackage k := .ok k

namespace IdealMls

instance : DecidableEq idealMls.Group := inferInstanceAs (DecidableEq GroupState)
instance : DecidableEq idealMls.Message := inferInstanceAs (DecidableEq Message)
instance : DecidableEq idealMls.KeyPackage := inferInstanceAs (DecidableEq KeyPackage)
instance : DecidableEq idealMls.Commit := inferInstanceAs (DecidableEq Commit)

def slots : CommitSlot idealMls where
  commitOf
    | .commit _ c => some c
    | .welcome w => some w.commit
    | _ => none
  applied g := g.applied
  add_ok := by
    intro d rng kps p g c w p' g' h
    simp only [idealMls] at h
    split_ifs at h
    · obtain ⟨hcw, rfl⟩ := propose_ok h
      obtain ⟨rfl, rfl⟩ := Prod.mk.inj hcw
      exact ⟨rfl, _, rfl, rfl, rfl⟩
    · cases h
  add_error := by
    intro d rng kps p g e p' g' h
    simp only [idealMls] at h
    split_ifs at h
    · obtain rfl := propose_error h
      exact ⟨rfl, rfl⟩
    · cases h
      exact ⟨rfl, rfl⟩
  merge := by
    intro p g k h
    exact ⟨p.save (g.apply k), g.apply k, by simp only [idealMls] at h; simp [idealMls, h, commitTo], rfl, rfl⟩
  clear := fun {_ _ _} _ => ⟨_, _, rfl, rfl, rfl⟩
  leave _ _ _ _ := ⟨rfl, rfl⟩
  create _ _ _ _ _ := by simp only [idealMls]; split_ifs <;> exact ⟨rfl, rfl⟩
  process _ _ _ := ⟨rfl, rfl⟩
  propose _ _ _ := ⟨rfl, rfl⟩
  staged _ _ _ := Or.inl rfl
  proposals_ok := by
    intro d rng p g c p' g' h
    obtain ⟨-, rfl⟩ := propose_ok h
    exact ⟨_, rfl⟩
  proposals_error := by
    intro d rng p g e p' g' h
    obtain rfl := propose_error h
    rfl

theorem dids_eq (g : GroupState) : idealMls.dids g = g.members := by
  simp only [OpenMls.dids, idealMls, List.map_map]
  exact List.zipIdx_map_fst 0 g.members

theorem mem_apply {g : GroupState} {c : Commit} {x : Did} (h : c.removes = []) :
    x ∈ (g.apply c).members ↔ x ∈ g.members ∨ x ∈ c.adds := by
  simp [GroupState.apply, h]

def epochs : GroupEpochs idealMls where
  credential k := k.did
  leads m g := ∃ w : Welcome, m = .welcome w ∧ w.commit.epoch + 1 = g.epoch ∧ w.members = g.members ∧
    w.members.Nodup ∧ w.keyPackages ≠ []
  new := by
    intro d id rng p g p' h
    simp only [idealMls] at h
    split_ifs at h
    · cases h
    · cases h
      exact ⟨rfl, rfl, rfl⟩
  add := by
    intro d rng k p g c w p₁ g₁ h _
    simp only [idealMls] at h
    split_ifs at h with hn
    · obtain ⟨hcw, rfl⟩ := propose_ok h
      obtain ⟨-, rfl⟩ := Prod.mk.inj hcw
      refine ⟨_, _, rfl, rfl, fun x => ?_, rfl, _, rfl, rfl, rfl, ?_, by simp⟩
      · rw [dids_eq, dids_eq g]
        exact (mem_apply rfl).trans (or_congr_right List.mem_singleton)
      · simpa [GroupState.apply] using hn
    · cases h
  add_error := by
    intro d rng k p g e p' g' h
    simp only [idealMls] at h
    split_ifs at h
    · obtain rfl := propose_error h
      exact ⟨rfl, rfl, rfl⟩
    · cases h
      exact ⟨rfl, rfl, rfl⟩
  join := by
    rintro m g w p staged p₁ j p₂ ⟨w', rfl, he, hm, -, -⟩ hx hs hi
    obtain rfl : w' = w := Option.some.inj hx
    simp only [idealMls] at hs hi
    split at hs
    · cases hs
    · cases hs
      split_ifs at hi with hin hnodup
      · cases hi
      · cases hi
        exact ⟨he, fun x => by rw [dids_eq, dids_eq g, ← hm]⟩
      · cases hi
  joins := by
    rintro m g ⟨w, rfl, -, -, hnodup, hk⟩
    obtain ⟨k, ks, hks⟩ := List.exists_cons_of_ne_nil hk
    refine ⟨w, ⟨[k], []⟩, (w, k), ⟨[k].erase k, []⟩, ⟨w.groupId, k.did, w.commit.epoch + 1, w.members,
      [w.commit], none, []⟩, _, rfl, ?_, if_pos hnodup⟩
    simp only [idealMls, hks, List.find?_cons, List.mem_singleton, decide_true]

/-- What is serialized deserializes to itself. -/
theorem deserialize_serialize {m : Message} {b : Bytes} (h : idealMls.serializeMessage m = .ok b) :
    idealMls.deserializeMessage b = .ok m := by
  obtain rfl : messageCodec.enc m = b := by simpa [idealMls] using h
  simp [idealMls]

end IdealMls
end Variance
