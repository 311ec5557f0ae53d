import Variance.Lib.Directory
import Variance.Sanity.Trees
import Variance.Spec.NameWorld

/-! The registry as a directory of names: each of its operations is one of the directory's. What is kept on
disk is read back as it was written. -/

namespace Variance
namespace UsernameRegistry

def nameKey (nm : String × UInt32) : String := compoundKey nm.1 nm.2

def dir (r : UsernameRegistry) : Directory String (String × UInt32) Did :=
  ⟨fun k => r.localCache[k]?, fun d => r.reverseCache[d]?⟩

variable {r : UsernameRegistry} {U : Unicode} {name : String} {disc : UInt32} {did : Did}

theorem dir_insert : (r.insert name disc did).dir = r.dir.give nameKey (name, disc) did := by
  unfold dir insert Directory.give nameKey
  congr 1
  · funext k
    rw [Function.update_apply, get_insert]
    simp only [eq_comm]
  · funext d
    rw [Function.update_apply, get_insert]
    simp only [eq_comm]

theorem dir_evict : (r.evict did).dir = r.dir.drop nameKey did := by
  cases h : r.reverseCache[did]? with
  | none => rw [Directory.drop_owner_none (show r.dir.name did = none from h), evict, h]
  | some nm =>
    unfold evict Directory.drop
    rw [h, show r.dir.name did = some nm from h]
    unfold dir nameKey
    dsimp only
    congr 1
    · funext k
      rw [Function.update_apply, get_erase]
      simp only [eq_comm]
    · funext d
      rw [Function.update_apply, get_erase]
      simp only [eq_comm]

theorem dir_cacheMapping : (r.cacheMapping U name disc did).dir =
    r.dir.load nameKey (did, (U.toLowercase name, disc)) := by
  rw [cacheMapping, dir_insert, dir_evict]
  rfl

theorem dir_new : new.dir = .empty := by
  simp [dir, new, Directory.empty]

theorem owner_of_isFree (h : r.isFree name disc = true) : r.dir.owner (nameKey (name, disc)) = none := by
  unfold isFree at h
  exact Option.isNone_iff_eq_none.1 h

/-- A registration under a given discriminator is nothing, or a gift of a free key. -/
theorem dir_registerWithDiscriminator (r : UsernameRegistry) (U : Unicode) (name : String) (disc : UInt32)
    (did : Did) : (r.registerWithDiscriminator U name disc did).2.dir = r.dir ∨
    r.lookupExact U name disc = none ∧ (r.registerWithDiscriminator U name disc did).2.dir =
      r.dir.give nameKey (U.toLowercase name, disc) did := by
  unfold registerWithDiscriminator
  dsimp only
  split_ifs with h
  · exact Or.inr ⟨owner_of_isFree h, dir_insert⟩
  · exact Or.inl rfl

/-- A name kept as text is read back. -/
theorem rsplitOnce_formatUsername : Text.rsplitOnce '#' (formatUsername name disc) =
    some (name, Text.padded 4 disc.toNat) := by
  refine Text.rsplitOnce_append fun hmem => ?_
  have := Text.isDigit_padded hmem
  simp at this

end UsernameRegistry

namespace NameNode
variable {n : NameNode} {d : Did} {name : String} {disc : UInt32}

/-- The name kept for a peer, when it parses. -/
def peerName (n : NameNode) (d : Did) : Option (String × UInt32) :=
  (n.peerNames[d]?).bind fun v => (Text.rsplitOnce '#' v).bind fun p =>
    (Text.parseU32 p.2).map fun disc => (p.1, disc)

theorem mem_loadAllPeerNames {x : Did × String × UInt32} :
    x ∈ n.loadAllPeerNames ↔ n.peerName x.1 = some x.2 := by
  unfold loadAllPeerNames peerName
  rw [List.mem_filterMap]
  constructor
  · rintro ⟨e, he, hx⟩
    obtain ⟨p, hp, hd⟩ := Option.bind_eq_some_iff.1 hx
    obtain ⟨disc, hdisc, rfl⟩ := Option.map_eq_some_iff.1 hd
    rw [(mem_iter _).1 he]
    simp [hp, hdisc]
  · intro h
    obtain ⟨v, hv, h⟩ := Option.bind_eq_some_iff.1 h
    obtain ⟨p, hp, hd⟩ := Option.bind_eq_some_iff.1 h
    obtain ⟨disc, hdisc, heq⟩ := Option.map_eq_some_iff.1 hd
    refine ⟨(x.1, v), (mem_iter _).2 hv, ?_⟩
    dsimp only
    rw [hp, Option.bind_some, hdisc, Option.map_some]
    exact congrArg some (Prod.ext rfl heq)

theorem peerName_storePeerName {f : Faults} (hf : f "peer_names" d = false) :
    (n.storePeerName f d name disc).peerName = Function.update n.peerName d (some (name, disc)) := by
  funext a
  unfold peerName storePeerName
  dsimp only
  rw [treeInsert_ok hf, get_insert, Function.update_apply]
  by_cases ha : d = a
  · rw [if_pos ha, if_pos ha.symm, Option.bind_some, UsernameRegistry.rsplitOnce_formatUsername, Option.bind_some,
      Text.parseU32_padded]
    rfl
  · rw [if_neg ha, if_neg (Ne.symm ha)]

end NameNode
end Variance
