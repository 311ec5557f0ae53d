import Variance.Sanity.IdealMls
import Variance.Spec.CrashWorld

/-! An MLS with nothing but its ratchets: a group of one, which seals every message with the next generation and starts
again at nought in the epoch after a commit. -/

namespace Variance
namespace IdealRatchet

structure Commit where
  author : Did
  nonce : ℕ
  epoch : ℕ
deriving DecidableEq

inductive Message
  | app (groupId : String) (epoch generation : ℕ) (plaintext : Bytes)
  | commit (groupId : String) (c : Commit)
deriving DecidableEq

structure GroupState where
  id : String
  localDid : Did
  epoch : ℕ
  generation : ℕ
  applied : List Commit
  pending : Option Commit
deriving DecidableEq

def save (p : List GroupState) (g : GroupState) : List GroupState := g :: p.filter fun x => x.id ≠ g.id

def GroupState.apply (g : GroupState) (c : Commit) : GroupState :=
  { g with epoch := g.epoch + 1, generation := 0, applied := g.applied ++ [c], pending := none }

def commitCodec : Codec Commit :=
  (Codec.prod .string (.prod .nat .nat)).map (fun c => (c.author, c.nonce, c.epoch)) (fun p => ⟨p.1, p.2.1, p.2.2⟩)
    fun _ => rfl

def messageCodec : Codec Message :=
  (Codec.sum (.prod .string (.prod .nat (.prod .nat (.list .byte)))) (.prod .string commitCodec)).map
    (fun
      | .app g e n b => .inl (g, e, n, b)
      | .commit g c => .inr (g, c))
    (fun
      | .inl p => .app p.1 p.2.1 p.2.2.1 p.2.2.2
      | .inr p => .commit p.1 p.2)
    fun m => by cases m <;> rfl

/-- A commit of our own needs an empty slot, which it fills. -/
def propose {α : Type} (p : List GroupState) (g : GroupState) (c : Commit) (a : α) :
    Except String α × List GroupState × GroupState :=
  if g.pending.isSome then (.error "PendingCommit", p, g)
  else (.ok a, save p { g with pending := some c }, { g with pending := some c })

theorem propose_ok {α : Type} {p p' : List GroupState} {g g' : GroupState} {c : Commit} {a b : α}
    (h : propose p g c a = (.ok b, p', g')) : b = a := by
  unfold propose at h
  split_ifs at h
  · cases h
  · cases h; rfl

end IdealRatchet

open IdealRatchet in
def ratchetMls : OpenMls where
  Provider := List GroupState
  Group := GroupState
  KeyPackage := IdealMls.KeyPackage
  Message := Message
  Welcome := Message
  StagedWelcome := Message
  Proposal := Did
  Commit := Commit
  buildKeyPackage did rng p := (.ok ⟨did, rng⟩, p)
  newWithGroupId did id _ p :=
    let g : GroupState := ⟨id, did, 0, 0, [], none⟩
    (.ok g, save p g)
  groupId g := g.id
  members g := [(0, g.localDid)]
  epoch g := g.epoch
  pendingCommit g := g.pending
  pendingProposals _ := []
  addMembers did rng _ p g :=
    let c : Commit := ⟨did, rng, g.epoch⟩
    propose p g c (.commit g.id c, .commit g.id c)
  removeMembers did rng _ p g :=
    let c : Commit := ⟨did, rng, g.epoch⟩
    propose p g c (.commit g.id c)
  mergePendingCommit p g :=
    match g.pending with
    | none => (.ok (), p, g)
    | some c => (.ok (), save p (g.apply c), g.apply c)
  clearPendingCommit p g := (.ok (), save p { g with pending := none }, { g with pending := none })
  createMessage _ _ b p g :=
    (.ok (.app g.id g.epoch g.generation b), save p { g with generation := g.generation + 1 },
      { g with generation := g.generation + 1 })
  tryIntoProtocolMessage m := .ok m
  processMessage _ p g := (.error "CannotDecryptOwnMessage", p, g)
  storePendingProposal _ p g := (.ok (), p, g)
  mergeStagedCommit c p g := (.ok (), save p (g.apply c), g.apply c)
  commitToPendingProposals did rng p g :=
    let c : Commit := ⟨did, rng, g.epoch⟩
    propose p g c (.commit g.id c)
  leaveGroup _ _ p g := (.error "CreateGroupProposal", p, g)
  selfUpdate did rng p g :=
    let c : Commit := ⟨did, rng, g.epoch⟩
    propose p g c (.commit g.id c)
  extractWelcome _ := none
  newFromWelcome _ p := (.error "NoMatchingKeyPackage", p)
  intoGroup _ p := (.error "NoMatchingKeyPackage", p)
  deleteGroup g p := p.filter fun x => x.id ≠ g.id
  loadGroup id p := .ok (p.find? fun g => g.id = id)
  serializeMessage m := .ok (messageCodec.enc m)
  deserializeMessage b := (messageCodec.decode b).elim (.error "EndOfStream") .ok
  serializeKeyPackage k := .ok (IdealMls.keyPackageCodec.enc k)
  deserializeKeyPackage b := (IdealMls.keyPackageCodec.decode b).elim (.error "EndOfStream") .ok
  validateKeyPackage k := .ok k

namespace IdealRatchet

instance : DecidableEq ratchetMls.Group := inferInstanceAs (DecidableEq GroupState)
instance : DecidableEq ratchetMls.Commit := inferInstanceAs (DecidableEq Commit)

def ratchet : Ratchet ratchetMls where
  generation g := g.generation
  sealedAt
    | .app _ e n _ => some (toLex (e, n))
    | .commit .. => none
  commitOf
    | .app .. => none
    | .commit _ c => some c
  applied g := g.applied

variable {p : List GroupState} {g : GroupState} {c : Commit}

theorem pos_apply : ratchet.pos g ≤ ratchet.pos (g.apply c) :=
  (Prod.Lex.toLex_lt_toLex.2 (Or.inl (Nat.lt_succ_self g.epoch))).le

theorem pos_propose {α : Type} {a : α} : ratchet.pos g ≤ ratchet.pos (propose p g c a).2.2 := by
  unfold propose
  split_ifs
  · exact le_rfl
  · exact le_rfl

theorem pos_create : ratchet.pos g < ratchet.pos { g with generation := g.generation + 1 } :=
  Prod.Lex.toLex_lt_toLex.2 (Or.inr ⟨rfl, Nat.lt_succ_self g.generation⟩)

theorem pos_run (c : GroupCall ratchetMls) : ratchet.pos g ≤ ratchet.pos (c.run p g).2 := by
  cases c with
  | addMembers d rng kp => exact pos_propose
  | removeMembers d rng i => exact pos_propose
  | mergePendingCommit =>
    cases hp : g.pending with
    | none =>
      simp only [GroupCall.run, ratchetMls, hp]
      exact le_rfl
    | some k =>
      simp only [GroupCall.run, ratchetMls, hp]
      exact pos_apply
  | clearPendingCommit => exact le_rfl
  | createMessage d rng b => exact pos_create.le
  | receive m => exact le_rfl
  | commitToPendingProposals d rng => exact pos_propose
  | leaveGroup d rng => exact le_rfl
  | selfUpdate d rng => exact pos_propose

def ratchetLaws : RatchetLaws ratchetMls where
  toRatchet := ratchet
  create := by
    intro d rng b p g m p' g' h
    cases h
    exact ⟨rfl, pos_create⟩
  run c _ _ := pos_run c
  add := by
    intro d rng kps p g c w p' g' h
    cases propose_ok h
    rfl
  remove := by
    intro d rng is p g c p' g' h
    cases propose_ok h
    rfl
  proposals := by
    intro d rng p g c p' g' h
    cases propose_ok h
    rfl
  leave := by
    intro d rng p g m p' g' h
    cases h
  update := by
    intro d rng p g c p' g' h
    cases propose_ok h
    rfl
  message := by
    intro m b h
    obtain rfl : messageCodec.enc m = b := by simpa [ratchetMls] using h
    have hdecode : messageCodec.decode (messageCodec.enc m) = some m := messageCodec.decode_enc m
    simp only [ratchetMls, hdecode]
    rfl

end IdealRatchet
end Variance
