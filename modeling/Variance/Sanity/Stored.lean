import Mathlib.Data.Set.Insert
import Variance.Sanity.Slot
import Variance.Spec.MlsState

/-! Along every run of a handler its live groups are in its key store as they stand, under their ids. -/

namespace Variance

/-- The key store has every live group, and the keypair. -/
structure MlsGroupHandler.Stored {M : OpenMls} (K : MlsKeyStore M) (h : MlsGroupHandler M) : Prop where
  keypair : K.storeKeypair h.localDid h.provider = .ok h.provider
  desync : h.desyncCounters = ∅
  holds : ∀ gid g, h.groups[gid]? = some g → M.groupId g = gid ∧ K.Holds h.provider g

namespace MlsKeyStore
variable {M : OpenMls} {K : MlsKeyStore M} {p p' p'' : M.Provider} {but but' : Set String} {g : M.Group}

theorem Spares.mono (hs : K.Spares p p' but) (hb : but ⊆ but') : K.Spares p p' but' :=
  ⟨fun id hid => hs.loads id fun h => hid (hb h), hs.keypair⟩

theorem Spares.trans (h₁ : K.Spares p p' but) (h₂ : K.Spares p' p'' but) : K.Spares p p'' but :=
  ⟨fun id hid => (h₂.loads id hid).trans (h₁.loads id hid), fun did h => h₂.keypair did (h₁.keypair did h)⟩

theorem Holds.spared (hg : K.Holds p g) (hs : K.Spares p p' but) (hid : M.groupId g ∉ but) : K.Holds p' g :=
  ⟨hg.1, (hs.loads _ hid).trans hg.2⟩

end MlsKeyStore

namespace MlsGroupHandler.Stored
variable {M : OpenMls} {K : MlsKeyStore M} {h h' : MlsGroupHandler M} {p : M.Provider} {gid : String}

/-- No group is touched. -/
theorem quiet (hs : h.Stored K) (hp : K.Spares h.provider p ∅) :
    ({ h with provider := p } : MlsGroupHandler M).Stored K :=
  ⟨hp.keypair _ hs.keypair, hs.desync, fun gid g hg =>
    ⟨(hs.holds gid g hg).1, (hs.holds gid g hg).2.spared hp (Set.notMem_empty _)⟩⟩

/-- One group is written, and is live as it is written. -/
theorem insert (hs : h.Stored K) (hp : K.Spares h.provider p {gid}) {g : M.Group} (hid : M.groupId g = gid)
    (hg : K.Holds p g) :
    ({ h with provider := p, groups := h.groups.insert gid g } : MlsGroupHandler M).Stored K := by
  refine ⟨hp.keypair _ hs.keypair, hs.desync, fun gid' g' hg' => ?_⟩
  rw [Std.ExtTreeMap.getElem?_insert] at hg'
  split_ifs at hg' with heq
  · obtain rfl : gid = gid' := by simpa using heq
    obtain rfl := Option.some.inj hg'
    exact ⟨hid, hg⟩
  · obtain ⟨hid', hold⟩ := hs.holds gid' g' hg'
    have hne : gid' ≠ gid := fun he => heq (by simp [he])
    exact ⟨hid', hold.spared hp (by simpa [hid'] using hne)⟩

/-- One group is deleted, and is live no more. -/
theorem erase (hs : h.Stored K) (hp : K.Spares h.provider p {gid}) :
    ({ h with provider := p, groups := h.groups.erase gid } : MlsGroupHandler M).Stored K := by
  refine ⟨hp.keypair _ hs.keypair, hs.desync, fun gid' g' hg' => ?_⟩
  rw [Std.ExtTreeMap.getElem?_erase] at hg'
  split_ifs at hg' with heq
  obtain ⟨hid', hold⟩ := hs.holds gid' g' hg'
  have hne : gid' ≠ gid := fun he => heq (by simp [he])
  exact ⟨hid', hold.spared hp (by simpa [hid'] using hne)⟩

theorem withGroup {α : Type} (hs : h.Stored K) (gid : String) (wrap : String → MsgError) {op : M.GroupOp α}
    (hop : K.Durable op) : (h.withGroup gid wrap op).2.Stored K := by
  cases hg : h.groups[gid]? with
  | none => simpa [MlsGroupHandler.withGroup, hg] using hs
  | some g =>
    obtain ⟨hid, hold⟩ := hs.holds gid g hg
    obtain ⟨hid', hold', hspares⟩ := hop h.provider g hold
    rw [withGroup_some hg]
    exact hs.insert (hid ▸ hspares) (hid'.trans hid) hold'

/-- The handler that a match binds. -/
theorem bound {α : Type} {r : Except MsgError α × MlsGroupHandler M} {a : Except MsgError α} (hs : r.2.Stored K)
    (heq : r = (a, h')) : h'.Stored K := by
  rwa [heq] at hs

/-! The handler's operations -/

theorem generateKeyPackage (hK : K.Lawful) (hs : h.Stored K) (rng : ℕ) : (h.generateKeyPackage rng).2.Stored K :=
  hs.quiet (hK.buildKeyPackage h.localDid rng h.provider)

theorem createGroup (hK : K.Lawful) (hs : h.Stored K) (gid : String) (rng : ℕ) :
    (h.createGroup gid rng).2.Stored K := by
  unfold MlsGroupHandler.createGroup
  split
  · rename_i e p heq
    exact hs.quiet (hK.create_error _ _ _ _ _ _ heq)
  · rename_i g p heq
    obtain ⟨hid, hold, hspares⟩ := hK.create _ _ _ _ _ _ heq
    exact hs.insert hspares hid hold

theorem joinGroupFromWelcome (hK : K.Lawful) (hs : h.Stored K) {m : M.Message}
    (hm : h.JoinsText K (.joinGroupFromWelcome m)) : (h.joinGroupFromWelcome m).2.Stored K := by
  unfold MlsGroupHandler.joinGroupFromWelcome
  split
  · exact hs
  rename_i w hw
  have hstage := hK.stage w h.provider
  split
  · rename_i e p heq
    exact hs.quiet (by rwa [heq] at hstage)
  rename_i staged p hp
  rw [hp] at hstage
  split
  · rename_i e p' heq
    exact hs.quiet (hstage.trans (hK.join_error _ _ _ _ heq))
  rename_i g p' hg
  obtain ⟨hold, hspares⟩ := hK.join _ _ _ _ hg
  exact (hs.quiet hstage).insert hspares rfl (hold (hm w staged p g p' hw hp hg))

theorem addMember (hK : K.Lawful) (hs : h.Stored K) (gid : String) (kp : M.KeyPackage) (rng : ℕ) :
    (h.addMember gid kp rng).2.Stored K := by
  unfold MlsGroupHandler.addMember
  have hadd := hs.withGroup gid (fun e => .mlsCommit ("Failed to add member: " ++ e))
    (hK.addMembers h.localDid rng [kp])
  split
  · exact hadd.bound ‹_›
  · exact (hadd.bound ‹_›).withGroup gid _ hK.mergePendingCommit

theorem addMemberDeferred (hK : K.Lawful) (hs : h.Stored K) (gid : String) (kp : M.KeyPackage) (rng : ℕ) :
    (h.addMemberDeferred gid kp rng).2.Stored K := by
  unfold MlsGroupHandler.addMemberDeferred
  split
  · exact hs
  · split_ifs
    · exact hs
    · exact hs.withGroup gid _ (hK.addMembers h.localDid rng [kp])

theorem confirmAddMember (hK : K.Lawful) (hs : h.Stored K) (gid : String) : (h.confirmAddMember gid).2.Stored K := by
  unfold MlsGroupHandler.confirmAddMember
  split
  · exact hs
  · split_ifs
    · exact hs
    · exact hs.withGroup gid _ hK.mergePendingCommit

theorem cancelAddMember (hK : K.Lawful) (hs : h.Stored K) (gid : String) : (h.cancelAddMember gid).2.Stored K := by
  unfold MlsGroupHandler.cancelAddMember
  split
  · exact hs
  · split_ifs
    · exact hs
    · exact hs.withGroup gid _ hK.clearPendingCommit

theorem removeMember (hK : K.Lawful) (hs : h.Stored K) (gid : String) (i rng : ℕ) :
    (h.removeMember gid i rng).2.Stored K := by
  unfold MlsGroupHandler.removeMember
  have hremove := hs.withGroup gid (fun e => .mlsCommit ("Failed to remove member: " ++ e))
    (hK.removeMembers h.localDid rng [i])
  split
  · exact hremove.bound ‹_›
  · exact (hremove.bound ‹_›).withGroup gid _ hK.mergePendingCommit

theorem selfUpdate (hK : K.Lawful) (hs : h.Stored K) (gid : String) (rng : ℕ) :
    (h.selfUpdate gid rng).2.Stored K := by
  unfold MlsGroupHandler.selfUpdate
  have hupdate := hs.withGroup gid (fun e => .mlsGroup ("Failed to self-update group: " ++ e))
    (hK.selfUpdate h.localDid rng)
  split
  · exact hupdate.bound ‹_›
  · exact (hupdate.bound ‹_›).withGroup gid _ hK.mergePendingCommit

theorem commitPendingProposals (hK : K.Lawful) (hs : h.Stored K) (gid : String) (rng : ℕ) :
    (h.commitPendingProposals gid rng).2.Stored K := by
  unfold MlsGroupHandler.commitPendingProposals
  split
  · exact hs
  · split_ifs
    · exact hs
    · have hcommit := hs.withGroup gid (fun e => .mlsCommit ("Failed to commit pending proposals: " ++ e))
        (hK.commitToPendingProposals h.localDid rng)
      split
      · exact hcommit.bound ‹_›
      · exact (hcommit.bound ‹_›).withGroup gid _ hK.mergePendingCommit

theorem processMessage (hK : K.Lawful) (hs : h.Stored K) (gid : String) (m : M.Message) :
    (h.processMessage gid m).2.Stored K := by
  unfold MlsGroupHandler.processMessage
  split
  · exact hs
  split
  · exact hs
  rename_i pm _
  have hprocess := hs.withGroup gid (fun e => .decryption ("MLS process_message failed: " ++ e)) (hK.processMessage pm)
  split
  · exact hprocess.bound ‹_›
  · exact hprocess.bound ‹_›
  · exact (hprocess.bound ‹_›).withGroup gid _ (hK.storePendingProposal _)
  · exact (hprocess.bound ‹_›).withGroup gid _ (hK.mergeStagedCommit _)
  · exact hprocess.bound ‹_›

theorem removeGroup (hK : K.Lawful) (hs : h.Stored K) (gid : String) : (h.removeGroup gid).Stored K := by
  unfold MlsGroupHandler.removeGroup
  split
  · exact hs
  · rename_i g hg
    obtain ⟨hid, hold⟩ := hs.holds gid g hg
    exact hs.erase (hid ▸ hK.delete h.provider g hold)

theorem next (hK : K.Lawful) (hs : h.Stored K) (e : MlsStep M) (he : h.JoinsText K e) : (h.next e).Stored K := by
  cases e with
  | generateKeyPackage rng => exact hs.generateKeyPackage hK rng
  | createGroup gid rng => exact hs.createGroup hK gid rng
  | joinGroupFromWelcome m => exact hs.joinGroupFromWelcome hK he
  | addMember gid kp rng => exact hs.addMember hK gid kp rng
  | addMemberDeferred gid kp rng => exact hs.addMemberDeferred hK gid kp rng
  | confirmAddMember gid => exact hs.confirmAddMember hK gid
  | cancelAddMember gid => exact hs.cancelAddMember hK gid
  | removeMember gid i rng => exact hs.removeMember hK gid i rng
  | encryptMessage gid b rng => exact hs.withGroup gid _ (hK.createMessage h.localDid rng b)
  | processMessage gid m => exact hs.processMessage hK gid m
  | leaveGroup gid rng => exact hs.withGroup gid _ (hK.leaveGroup h.localDid rng)
  | selfUpdate gid rng => exact hs.selfUpdate hK gid rng
  | commitPendingProposals gid rng => exact hs.commitPendingProposals hK gid rng
  | removeGroup gid => exact hs.removeGroup hK gid

/-- A new handler, with nothing in it but the keypair. -/
theorem of_new (hK : K.Lawful) {did : Did} (hn : MlsGroupHandler.new K did = .ok h) : h.Stored K := by
  obtain ⟨p, hp, hstored, -⟩ := hK.storeKeypair did K.default
  simp only [MlsGroupHandler.new, hp, Except.ok.injEq] at hn
  subst hn
  exact ⟨hstored, rfl, fun gid g hg => by simp at hg⟩

theorem of_reach (hK : K.Lawful) {did : Did} (hr : StepSystem.Reach (mlsStateSys K did) (JoinsText K) h) : h.Stored K :=
  hr.invariant (fun _ hn => of_new hK hn) fun _ e hs he => hs.next hK e he

end MlsGroupHandler.Stored
end Variance
