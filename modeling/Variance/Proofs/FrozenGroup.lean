import Variance.Proofs.RemoteAuthority
import Variance.Sanity.Clients

/-! A frozen group. The handlers that send, invite, kick and change roles ask whether the group is frozen; the
reactions, the WebSocket and the inbound path do not, and an accepted invitation starts the metadata anew. -/

namespace Variance
namespace Node
variable {M : OpenMls} {n n' n'' : Node M} {W : Wire} {env : Env} {gid g : String}
  {A : String → GroupCall M → Prop} {B : String → M.Group → Prop}

open LocalMessageStorage MlsGroupHandler

/-- The content leaves the members and their roles as they are, if only because the write fails. -/
def Neutral (n : Node M) (env : Env) (gid : String) (content : MessageContent) : Prop :=
  match content.metadata["type"]? with
  | some "admin_abandoned" => ∀ group adminDid, n.storage.fetchGroupMetadata gid = some group →
      content.metadata["admin_did"]? = some adminDid → env.faults "group_metadata" gid = false →
      ∀ m ∈ group.members, m.did ≠ adminDid
  | some "role_change" => ∀ group targetDid newRole, n.storage.fetchGroupMetadata gid = some group →
      content.metadata["target_did"]? = some targetDid → content.metadata["new_role"]? = some newRole →
      env.faults "group_metadata" gid = false →
      setRole targetDid (roleOfLabel newRole) group.members = group.members
  | _ => True

/-- The condition: no reaction and no message of the WebSocket that could be encrypted, no Welcome that brings the
group in anew, and no inbound content that would change a role or strike a member. -/
def Unstirred (W : Wire) (gid : String) (n : Node M) : ClientEvent → Prop
  | .addGroupReaction env _ messageId emoji => (emoji = "" ∨ 8 < emoji.utf8ByteSize) ∨
      ¬ n.Encrypts gid (W.encodeGroupPayload (.message (reactionContent messageId emoji "add"))) env.rng
  | .removeGroupReaction env _ messageId emoji =>
      ¬ n.Encrypts gid (W.encodeGroupPayload (.message (reactionContent messageId emoji "remove"))) env.rng
  | .wsSendGroupMessage env _ text replyTo => ¬ n.Encrypts gid (W.encodeMessageContent
      { text, attachments := [], mentions := [], replyTo, metadata := ∅ }) env.rng
  | .event (.op (.accept _ g)) => ∀ i m, n.storage.fetchPendingInvitation g = some i →
      M.deserializeMessage i.mlsWelcome = .ok m → (n.mls.joinGroupFromWelcome m).1 ≠ .ok gid
  | .event (.op (.acceptWelcome _ hex)) => (∃ group, n.storage.fetchGroupMetadata gid = some group) ∨
      ∀ b m, W.hexDecode hex = some b → M.deserializeMessage b = .ok m → (n.mls.joinGroupFromWelcome m).1 ≠ .ok gid
  | .event (.op (.group env message)) => message.groupId = gid → ∀ d content, n.Decrypts gid message d →
      livePayload W d.plaintext = some (.message content) → n.Neutral env gid content
  | _ => True

/-! What becomes of the group -/

/-- Metadata there is says frozen, and where there is none there is no group. -/
structure Held (gid : String) (n : Node M) : Prop where
  frozen : ∀ group, n.storage.fetchGroupMetadata gid = some group → group.frozen = true
  gone : n.storage.fetchGroupMetadata gid = none → n.mls.groups[gid]? = none

theorem Frozen.held (h : n.Frozen gid) : n.Held gid := by
  obtain ⟨group, hm, hf⟩ := h
  refine ⟨fun group' hm' => ?_, fun hm' => ?_⟩
  · obtain rfl := Option.some.inj (hm.symm.trans hm')
    exact hf
  · cases hm.symm.trans hm'

/-- The metadata stays, and no group comes in where there was none; or both are gone. -/
def Passes (gid : String) (n n' : Node M) : Prop :=
  n'.storage.fetchGroupMetadata gid = n.storage.fetchGroupMetadata gid ∧
      (n.storage.fetchGroupMetadata gid = none → n.mls.groups[gid]? = none → n'.mls.groups[gid]? = none) ∨
    n'.storage.fetchGroupMetadata gid = none ∧ n'.mls.groups[gid]? = none

namespace Passes

theorem refl (gid : String) (n : Node M) : Passes gid n n := Or.inl ⟨rfl, fun _ h => h⟩

theorem trans (h₁ : Passes gid n n') (h₂ : Passes gid n' n'') : Passes gid n n'' := by
  rcases h₂ with ⟨hm, hg⟩ | hgone
  · rcases h₁ with ⟨hm', hg'⟩ | ⟨hm', hg'⟩
    · exact Or.inl ⟨hm.trans hm', fun h₀ h₁ => hg (hm'.trans h₀) (hg' h₀ h₁)⟩
    · exact Or.inr ⟨hm.trans hm', hg hm' hg'⟩
  · exact Or.inr hgone

theorem held (h : Passes gid n n') (hn : n.Held gid) : n'.Held gid := by
  rcases h with ⟨hm, hg⟩ | ⟨hm, hg⟩
  · refine ⟨fun group h => hn.frozen group (hm ▸ h), fun h => ?_⟩
    rw [hm] at h
    exact hg h (hn.gone h)
  · refine ⟨fun group h => ?_, fun _ => hg⟩
    cases hm.symm.trans h

end Passes

/-- No call brings a group in. -/
theorem calls_gone {h h' : MlsGroupHandler M} (hc : Calls A B h h') (hb : ∀ x, ¬ B gid x)
    (h₀ : h.groups[gid]? = none) : h'.groups[gid]? = none := by
  have hne := hc.invariant (P := fun k _ => k ≠ gid) (fun _ _ _ _ _ hk => hk)
    (fun k x hk heq => hb x (heq ▸ hk)) fun k x hx heq => by
      rw [heq, h₀] at hx
      cases hx
  cases hx : h'.groups[gid]? with
  | none => rfl
  | some x => exact (hne gid x hx rfl).elim

theorem passes_of_calls (hc : Calls A B n.mls n'.mls) (hb : ∀ x, ¬ B gid x)
    (hs : n'.storage.fetchGroupMetadata gid = n.storage.fetchGroupMetadata gid) : Passes gid n n' :=
  Or.inl ⟨hs, fun _ => calls_gone hc hb⟩

/-! The handlers that are refused -/

theorem requireNotFrozen_error {group : Group} (hm : n.storage.fetchGroupMetadata gid = some group)
    (hf : group.frozen = true) : ∃ e, n.requireNotFrozen gid = .error e := by
  cases hr : n.requireNotFrozen gid with
  | error e => exact ⟨e, rfl⟩
  | ok => exact absurd (requireNotFrozen_iff.1 hr group hm) (by simp [hf])

theorem requireRole_error {role : String} (hm : n.storage.fetchGroupMetadata gid = none) (hr : 1 < roleRank role) :
    ∃ e, n.requireRole gid role = .error e := by
  unfold requireRole
  rw [hm]
  dsimp only
  rw [if_pos (show roleRank (memberRoleFromMetadata none n.localDid) < roleRank role from hr)]
  exact ⟨_, rfl⟩

/-- A group that is held is frozen, or nobody has a role in it and there is nothing to encrypt to. -/
theorem Held.refuses (h : n.Held gid) : (∃ e, n.requireNotFrozen gid = .error e) ∨
    n.mls.groups[gid]? = none ∧ ∀ role, 1 < roleRank role → ∃ e, n.requireRole gid role = .error e := by
  cases hm : n.storage.fetchGroupMetadata gid with
  | none => exact Or.inr ⟨h.gone hm, fun _ hr => requireRole_error hm hr⟩
  | some group => exact Or.inl (requireNotFrozen_error hm (h.frozen group hm))

theorem encryptMessage_gone {b : Bytes} {rng : ℕ} (h : n.mls.groups[gid]? = none) :
    n.mls.encryptMessage gid b rng = (.error (.groupNotFound gid), n.mls) := by
  simp [encryptMessage, withGroup, h]

theorem Held.send_refused {text : String} {replyTo : Option String} {md : SledTree String} (h : n.Held gid) :
    (n.mlsSendGroupMessage W env gid text replyTo md).2 = n := by
  unfold mlsSendGroupMessage
  split_ifs
  · rfl
  · rcases h.refuses with ⟨e, he⟩ | ⟨hg, -⟩
    · rw [he]
    · split
      · rfl
      · unfold sendGroupContent
        rw [encryptMessage_gone hg]

/-- Nobody is past both checks. -/
theorem Held.barred {role : String} (h : n.Held gid) (hr : 1 < roleRank role) {u u' : Unit}
    (hf : n.requireNotFrozen gid = .ok u) : n.requireRole gid role ≠ .ok u' := by
  intro hok
  rcases h.refuses with ⟨e, he⟩ | ⟨-, hroles⟩
  · cases he.symm.trans hf
  · obtain ⟨e, he⟩ := hroles role hr
    cases he.symm.trans hok

theorem Held.invite_refused {net : InviteNet} {invitee : String} (h : n.Held gid) :
    (n.mlsInviteToGroup W env net gid invitee).2 = n := by
  cases hk : n.inviteKeyPackage net gid invitee with
  | error e =>
    unfold mlsInviteToGroup
    rw [hk]
  | ok x =>
    unfold inviteKeyPackage at hk
    dsimp only at hk
    split at hk
    · cases hk
    obtain ⟨u, hf, hk⟩ := of_bind_ok hk
    obtain ⟨u', hr, -⟩ := of_bind_ok hk
    exact (h.barred (by decide) hf hr).elim

theorem Held.remove_refused {d : Did} (h : n.Held gid) : (n.mlsRemoveMember env gid d).2 = n := by
  cases hi : n.removalIndex gid d with
  | error e =>
    unfold mlsRemoveMember
    rw [hi]
  | ok i =>
    obtain ⟨u, hf, hi⟩ := of_bind_ok hi
    obtain ⟨u', hr, -⟩ := of_bind_ok hi
    exact (h.barred (by decide) hf hr).elim

theorem Held.changeRole_refused {d : Did} {role : String} (h : n.Held gid) :
    (n.mlsChangeMemberRole W env gid d role).2 = n := by
  cases hc : n.checkRoleChange gid d role with
  | error e =>
    unfold mlsChangeMemberRole
    rw [hc]
  | ok u =>
    obtain ⟨u, hf, hc⟩ := of_bind_ok hc
    obtain ⟨u', hr, -⟩ := of_bind_ok hc
    exact (h.barred (by decide) hf hr).elim

theorem Held.refused {e : ClientEvent} (h : n.Held gid) (he : e.Changes gid) : n.serve W e = n := by
  cases e with
  | event e =>
    cases e with
    | op o =>
      cases o with
      | send env g text replyTo md =>
        obtain rfl : g = gid := he
        exact h.send_refused
      | invite env net g invitee =>
        obtain rfl : g = gid := he
        exact h.invite_refused
      | removeMember env g d =>
        obtain rfl : g = gid := he
        exact h.remove_refused
      | changeRole env g d role =>
        obtain rfl : g = gid := he
        exact h.changeRole_refused
      | _ => exact he.elim
    | _ => exact he.elim
  | _ => exact he.elim

/-! What becomes of the group in a step -/

/-- A purge of another group leaves this one's metadata. -/
theorem fetch_purged (h : Acts (PurgeWrite g) n n') :
    n'.storage.fetchGroupMetadata gid = n.storage.fetchGroupMetadata gid ∨
      g = gid ∧ n'.storage.fetchGroupMetadata gid = none := by
  refine h.invariant (P := fun s => s.fetchGroupMetadata gid = n.storage.fetchGroupMetadata gid ∨
    g = gid ∧ s.fetchGroupMetadata gid = none) (fun s f w hw hs => ?_) (Or.inl rfl)
  rcases hw with rfl | rfl | ⟨d, rfl⟩ | rfl
  · rwa [fetchGroupMetadata, apply, deleteGroupMessages_metadata]
  · change (treeRemove f "group_metadata" g s.groupMetadata).2[gid]? = _ ∨
      g = gid ∧ (treeRemove f "group_metadata" g s.groupMetadata).2[gid]? = none
    rw [get_treeRemove]
    split_ifs with hg
    · exact Or.inr ⟨hg.1, rfl⟩
    · exact hs
  · exact hs
  · exact hs

/-- A step that only purges, and where it purges this group has left it. -/
theorem passes_of_purge (ha : Acts (PurgeWrite g) n n') (hc : Calls A B n.mls n'.mls) (hb : ∀ x, ¬ B gid x)
    (hs : g = gid → n'.storage = n.storage ∨ n'.mls.groups[gid]? = none) : Passes gid n n' := by
  have hpurged : n'.storage.fetchGroupMetadata gid = n.storage.fetchGroupMetadata gid ∨
      g = gid ∧ n'.storage.fetchGroupMetadata gid = none := fetch_purged ha
  rcases hpurged with hm | ⟨hg, hm⟩
  · exact passes_of_calls hc hb hm
  · rcases hs hg with hst | hgone
    · exact passes_of_calls hc hb (by rw [hst])
    · exact Or.inr ⟨hm, hgone⟩

theorem passes_leave (W : Wire) : Passes gid n (n.mlsLeaveGroup env gid).2 := by
  refine passes_of_purge (acts_mlsLeaveGroup n env gid) (calls_react n W (.op (.leave env gid))) (fun _ => id)
    fun _ => ?_
  unfold mlsLeaveGroup
  split_ifs
  · exact Or.inl rfl
  · exact departGroup_stored

theorem passes_abandon : Passes gid n (n.mlsAbandonGroup W env gid).2 := by
  refine passes_of_purge (acts_mlsAbandonGroup n W env gid) (calls_react n W (.op (.abandon env gid)))
    (fun _ => id) fun _ => ?_
  unfold mlsAbandonGroup
  split
  · exact Or.inl rfl
  · have hsaid : (n.sendGroupContent W env gid (.control [("type", "admin_abandoned"), ("admin_did", n.localDid)])
        false).2.storage = n.storage := sendGroupContent_storage
    rw [← hsaid]
    exact departGroup_stored

theorem passes_decline (W : Wire) : Passes gid n (n.declineInvitation env g).2 := by
  refine passes_of_calls (calls_react n W (.op (.decline env g))) (fun _ => id) ?_
  change (n.declineInvitation env g).2.storage.groupMetadata[gid]? = n.storage.groupMetadata[gid]?
  unfold declineInvitation
  split
  · rfl
  · dsimp only
    split_ifs
    · rfl
    · rfl

/-- Metadata stored under another id. -/
theorem fetch_store_other {s : LocalMessageStorage} {f : Faults} {group : Group} (h : group.id ≠ gid) :
    (s.storeGroupMetadata f group).2.fetchGroupMetadata gid = s.fetchGroupMetadata gid := by
  change (treeInsert f "group_metadata" group.id group s.groupMetadata).2[gid]? = _
  rw [get_treeInsert, if_neg fun hk => h hk.1]
  rfl

theorem joined_other {m : M.Message} {joined : String} {mls : MlsGroupHandler M}
    (hj : n.mls.joinGroupFromWelcome m = (.ok joined, mls)) (hne : joined ≠ gid) :
    mls.groups[gid]? = n.mls.groups[gid]? := by
  rcases n.mls.joinGroupFromWelcome_cases m with ⟨e, mls', he, -⟩ | ⟨x, mls', -, hok, hgs⟩
  · cases hj.symm.trans he
  · obtain ⟨hid, rfl⟩ := Prod.mk.inj (hj.symm.trans hok)
    obtain rfl := Except.ok.inj hid
    rw [hgs, Std.ExtTreeMap.getElem?_insert, if_neg (by simpa using hne)]

theorem join_error_groups {m : M.Message} {e : MsgError} {mls : MlsGroupHandler M}
    (hj : n.mls.joinGroupFromWelcome m = (.error e, mls)) : mls.groups = n.mls.groups := by
  rcases n.mls.joinGroupFromWelcome_cases m with ⟨e', mls', he, hgs⟩ | ⟨x, mls', -, hok, -⟩
  · obtain ⟨-, rfl⟩ := Prod.mk.inj (hj.symm.trans he)
    exact hgs
  · cases hj.symm.trans hok

theorem passes_accept (hq : ∀ i m, n.storage.fetchPendingInvitation g = some i →
    M.deserializeMessage i.mlsWelcome = .ok m → (n.mls.joinGroupFromWelcome m).1 ≠ .ok gid) :
    Passes gid n (n.acceptInvitation env g).2 := by
  unfold acceptInvitation
  split
  · exact .refl gid n
  rename_i i hi
  split
  · exact .refl gid n
  rename_i m hm
  split
  · rename_i e mls hj
    exact Or.inl ⟨rfl, fun _ hg => by rw [join_error_groups hj, hg]⟩
  · rename_i joined mls hj
    have hne : joined ≠ gid := by
      rintro rfl
      exact hq i m hi hm (by rw [hj])
    refine Or.inl ⟨?_, fun _ hg => ?_⟩
    · have hanswer (n : Node M) : (n.answerInvitation env i g joined).storage.groupMetadata =
          n.storage.groupMetadata := by
        unfold answerInvitation
        dsimp only
        split_ifs
        · rfl
        · rfl
      unfold finishAccept
      rw [fetchGroupMetadata, hanswer, refreshKeyPackage_storage]
      exact fetch_store_other (s := n.storage) hne
    · have hanswer (n : Node M) : (n.answerInvitation env i g joined).mls = n.mls := by
        unfold answerInvitation
        dsimp only
        split_ifs
        · rfl
        · rfl
      unfold finishAccept
      rw [hanswer, refreshKeyPackage_groups]
      exact (joined_other hj hne).trans hg

theorem passes_acceptWelcome {hex : String} (hq : (∃ group, n.storage.fetchGroupMetadata gid = some group) ∨
    ∀ b m, W.hexDecode hex = some b → M.deserializeMessage b = .ok m → (n.mls.joinGroupFromWelcome m).1 ≠ .ok gid) :
    Passes gid n (n.mlsAcceptWelcome W env hex).2 := by
  unfold mlsAcceptWelcome
  split
  · exact .refl gid n
  rename_i b hb
  split
  · exact .refl gid n
  rename_i m hm
  split
  · rename_i e mls hj
    exact Or.inl ⟨rfl, fun _ hg => by rw [join_error_groups hj, hg]⟩
  · rename_i joined mls hj
    dsimp only
    by_cases hne : joined = gid
    · subst hne
      obtain ⟨group, hgroup⟩ := hq.resolve_right fun h => h b m hb hm (by rw [hj])
      refine Or.inl ⟨?_, fun hnone => ?_⟩
      · split
        · rfl
        · rename_i hnone
          cases hgroup.symm.trans hnone
      · cases hgroup.symm.trans hnone
    · refine Or.inl ⟨?_, fun _ hg => ?_⟩
      · split
        · rfl
        · exact fetch_store_other (s := n.storage) hne
      · refine Eq.trans ?_ ((joined_other hj hne).trans hg)
        split
        · rfl
        · rfl

/-! Inbound messages -/

theorem frozenWithout_self {group : Group} {adminDid : Option Did} (hf : group.frozen = true)
    (hm : ∀ d, adminDid = some d → ∀ m ∈ group.members, m.did ≠ d) : frozenWithout group adminDid = group := by
  have hmembers : (frozenWithout group adminDid).members = group.members := by
    cases adminDid with
    | none => rfl
    | some d => exact List.filter_eq_self.2 fun m hin => by simpa using hm d rfl m hin
  change ({ group with frozen := true, members := (frozenWithout group adminDid).members } : Group) = group
  rw [hmembers, ← hf]

/-- Content that is neutral, or of another group, leaves the metadata of a frozen group. -/
theorem fetch_content {m : GroupMessage} {content : MessageContent} (hk : n.storage.Keyed)
    (hn : ∀ group, n.storage.fetchGroupMetadata gid = some group → group.frozen = true)
    (hq : m.groupId = gid → n.Neutral env gid content) :
    (n.handleGroupMessageContent W env m content).storage.fetchGroupMetadata gid =
      n.storage.fetchGroupMetadata gid := by
  change (n.handleGroupMessageContent W env m content).storage.groupMetadata[gid]? = n.storage.groupMetadata[gid]?
  by_cases ha : content.metadata["type"]? = some "admin_abandoned"
  · rw [handleGroupMessageContent_abandoned ha, emit_storage, freezeGroup_metadata _ _ rfl]
    cases hm : n.storage.groupMetadata[m.groupId]? with
    | none => rfl
    | some group =>
      dsimp only
      have hid : group.id = m.groupId := hk.metadata _ _ hm
      split_ifs with hf
      · rfl
      · by_cases hg : m.groupId = gid
        · rw [hid, hg, get_insert, if_pos rfl]
          rw [hg] at hm
          have hmembers := hq hg
          unfold Neutral at hmembers
          rw [ha] at hmembers
          rw [frozenWithout_self (hn group hm) fun d hd => hmembers group d hm hd ?_, hm]
          rwa [Bool.not_eq_true, hid, hg] at hf
        · rw [hid, get_insert, if_neg hg]
  by_cases hr : content.metadata["type"]? = some "role_change"
  · cases ht : content.metadata["target_did"]? with
    | none => rw [handleGroupMessageContent_incomplete hr fun _ _ h => by cases ht.symm.trans h]
    | some d =>
    cases hrole : content.metadata["new_role"]? with
    | none => rw [handleGroupMessageContent_incomplete hr fun _ _ _ h => by cases hrole.symm.trans h]
    | some role =>
    rw [handleGroupMessageContent_role hr ht hrole, emit_storage, updateMemberRole_metadata]
    cases hm : n.storage.groupMetadata[m.groupId]? with
    | none => rfl
    | some group =>
      dsimp only
      split_ifs with hf
      · rfl
      · by_cases hg : m.groupId = gid
        · rw [hg] at hm hf
          have hroles := hq hg
          unfold Neutral at hroles
          rw [hr] at hroles
          rw [hg, get_insert, if_pos rfl, hroles group d role hm ht hrole (by simpa using hf), hm]
        · rw [get_insert, if_neg hg]
  · rw [handleGroupMessageContent_kept ha hr, storeGroupContent_metadata]

theorem fetch_payload {m : GroupMessage} {d : DecryptedMessage} (hk : n.storage.Keyed)
    (hn : ∀ group, n.storage.fetchGroupMetadata gid = some group → group.frozen = true)
    (hq : m.groupId = gid → ∀ content, livePayload W d.plaintext = some (.message content) →
      n.Neutral env gid content) :
    (n.handleGroupPlaintext W env m d.plaintext).storage.fetchGroupMetadata gid =
      n.storage.fetchGroupMetadata gid := by
  rw [handleGroupPlaintext_eq]
  cases hp : livePayload W d.plaintext with
  | none => rfl
  | some p =>
    cases p with
    | receipt r =>
      dsimp only
      rw [fetchGroupMetadata, handleGroupReceipt_metadata]
      rfl
    | message content => exact fetch_content hk hn fun hg => hq hg content hp

/-- A message that decrypts to nothing leaves the stores, or is a handshake. -/
theorem handleGroupMessage_undecrypted {m : GroupMessage} (h : ¬ ∃ d, n.Decrypts m.groupId m d) :
    (n.handleGroupMessage W env m).storage = n.storage ∨ ∃ mls, n.handleGroupMessage W env m =
      afterHandshake { n with mls := mls } env m.groupId (n.mls.membersOrDefault m.groupId) := by
  have hfailed (n : Node M) : (n.recordLiveFailure m.groupId).storage = n.storage := idle_recordLiveFailure.2.1
  unfold handleGroupMessage
  by_cases hnil : m.mlsCiphertext = []
  · rw [if_pos hnil]
    exact Or.inl rfl
  rw [if_neg hnil]
  cases hd : M.deserializeMessage m.mlsCiphertext with
  | error e => exact Or.inl (hfailed n)
  | ok msg =>
    dsimp only
    rcases hp : n.mls.processMessage m.groupId msg with ⟨e | _ | d, mls⟩
    · exact Or.inl (hfailed _)
    · exact Or.inr ⟨_, rfl⟩
    · exact (h ⟨d, hnil, msg, hd, by rw [hp]⟩).elim

theorem passes_group {m : GroupMessage} (hk : n.storage.Keyed) (hn : n.Held gid)
    (hq : m.groupId = gid → ∀ d content, n.Decrypts gid m d →
      livePayload W d.plaintext = some (.message content) → n.Neutral env gid content) :
    Passes gid n (n.handleGroupMessage W env m) := by
  have hcalls := calls_react n W (.op (.group env m))
  by_cases hd : ∃ d, n.Decrypts m.groupId m d
  · obtain ⟨d, hd⟩ := hd
    refine passes_of_calls hcalls (fun _ => id) ?_
    obtain ⟨mls, hlive⟩ := hd.live W env
    rw [hlive, emit_storage]
    exact fetch_payload (n := { n with mls := mls }) hk hn.frozen fun hg content hp => hq hg d content (hg ▸ hd) hp
  · rcases handleGroupMessage_undecrypted hd with hs | ⟨mls, hs⟩
    · exact passes_of_calls hcalls (fun _ => id) (by rw [hs])
    · refine passes_of_purge (g := m.groupId) ?_ hcalls (fun _ => id) fun hg => ?_
      · rw [hs]
        exact (Acts.mls _ n mls).trans (acts_afterHandshake _ _ _ _)
      · rw [← hg, hs]
        exact afterHandshake_stored { n with mls := mls } env m.groupId _

/-! The requests -/

theorem fetch_sendGroupContent {content : MessageContent} {keep : Bool} :
    (n.sendGroupContent W env g content keep).2.storage.groupMetadata = n.storage.groupMetadata := by
  refine (acts_sendGroupContent n W env g content keep).invariant
    (P := fun s => s.groupMetadata = n.storage.groupMetadata) (fun s f w hw hs => ?_) rfl
  rcases hw with ⟨m, -, -, rfl⟩ | ⟨id, c, rfl⟩
  · exact hs
  · exact hs

theorem passes_sendGroupContent {content : MessageContent} {keep : Bool} :
    Passes gid n (n.sendGroupContent W env g content keep).2 :=
  passes_of_calls (A := fun _ _ => True) (B := fun _ _ => False)
    (calls_sendGroupContent (fun _ _ _ => trivial) (.refl _ _ _)) (fun _ => id)
    (by rw [fetchGroupMetadata, fetch_sendGroupContent]; rfl)

theorem passes_wsSendGroupMessage {text : String} {replyTo : Option String} :
    Passes gid n (n.wsSendGroupMessage W env g text replyTo) := by
  refine passes_of_calls (A := fun _ _ => True) (B := fun _ _ => False) ?_ (fun _ => id) ?_
  · have he := calls_encryptMessage (A := fun _ _ => True) (B := fun _ _ => False) g env.rng (W.encodeMessageContent
      { text, attachments := [], mentions := [], replyTo, metadata := ∅ }) trivial (.refl _ _ n.mls)
    unfold wsSendGroupMessage
    dsimp only
    split
    · rename_i heq
      rw [heq] at he
      exact he
    · rename_i heq
      rw [heq] at he
      split
      · exact he
      · exact he
  · unfold wsSendGroupMessage
    dsimp only
    split
    · rfl
    · split
      · rfl
      · rfl

theorem passes_readMessages (ids : List (Env × String)) (n : Node M) :
    Passes gid n (readMessages W g ids n).2 := by
  induction ids generalizing n with
  | nil => exact .refl gid n
  | cons x ids ih =>
    obtain ⟨env, messageId⟩ := x
    have hread : Passes gid n (n.sendGroupRead W env g messageId).2 := Or.inl ⟨rfl, fun _ h => h⟩
    rw [readMessages]
    rcases hr : n.sendGroupRead W env g messageId with ⟨e | r, n₁⟩
    · rw [hr] at hread
      exact hread
    · rw [hr] at hread
      have hpub : Passes gid n₁ (n₁.publishGroupReceipt W env g r) :=
        passes_of_calls (A := fun _ _ => True) (B := fun _ _ => False)
          (calls_publishGroupReceipt (fun _ _ _ => trivial) (.refl _ _ _)) (fun _ => id)
          (by rw [publishGroupReceipt, publishGroupReceipt_storage])
      exact (hread.trans hpub).trans (ih _)

/-- In a quiet step the metadata stays, or is gone with the group. -/
theorem passes_serve {e : ClientEvent} (hk : n.storage.Keyed) (hn : n.Held gid) (he : e.On gid)
    (hq : n.Unstirred W gid e) : Passes gid n (n.serve W e) := by
  have hrefused (hc : e.Changes gid) : Passes gid n (n.serve W e) := by
    rw [hn.refused hc]
    exact .refl gid n
  cases e with
  | event e =>
    cases e with
    | op o =>
      cases o with
      | send => exact hrefused he
      | invite => exact hrefused he
      | removeMember => exact hrefused he
      | changeRole => exact hrefused he
      | decline env g => exact passes_decline W
      | leave env g =>
        obtain rfl : g = gid := he
        exact passes_leave W
      | abandon env g =>
        obtain rfl : g = gid := he
        exact passes_abandon
      | accept env g => exact passes_accept hq
      | acceptWelcome env hex => exact passes_acceptWelcome hq
      | group env m => exact passes_group hk hn hq
      | sync g xs =>
        refine passes_of_calls (calls_react n W (.op (.sync g xs))) (fun _ => id) ?_
        change (n.handleSyncReceived W g xs).storage.groupMetadata[gid]? = _
        rw [handleSyncReceived_metadata]
        rfl
      | _ => exact he.elim
    | _ => exact he.elim
  | addGroupReaction env g id emoji =>
    change Passes gid n (n.addGroupReaction W env g id emoji).2
    unfold addGroupReaction
    split_ifs
    · exact .refl gid n
    · exact passes_sendGroupContent
  | removeGroupReaction env g id emoji => exact passes_sendGroupContent
  | wsSendGroupMessage env g text replyTo => exact passes_wsSendGroupMessage
  | sendGroupReadReceipts g ids =>
    change Passes gid n (n.sendGroupReadReceipts W g ids).2
    unfold sendGroupReadReceipts
    split_ifs
    · exact .refl gid n
    · exact passes_readMessages ids n

/-! What is published in a quiet step -/

/-- What cannot be encrypted is not sent. -/
theorem hushed_sendGroupContent {content : MessageContent} {keep : Bool}
    (h : ¬ n.Encrypts g (W.encodeGroupPayload (.message content)) env.rng) :
    Hushed gid n (n.sendGroupContent W env g content keep).2 := by
  have hn := Hushed.refl gid n
  unfold sendGroupContent
  split
  · exact hn.mls _
  · rename_i m mls he
    dsimp only
    split
    · exact hn.mls mls
    · rename_i b hb
      exact (h ⟨m, b, by rw [he], hb⟩).elim

theorem hushed_wsSendGroupMessage {text : String} {replyTo : Option String} (h : ¬ n.Encrypts g
    (W.encodeMessageContent { text, attachments := [], mentions := [], replyTo, metadata := ∅ }) env.rng) :
    Hushed gid n (n.wsSendGroupMessage W env g text replyTo) := by
  have hn := Hushed.refl gid n
  unfold wsSendGroupMessage
  dsimp only
  split
  · exact hn.mls _
  · rename_i m mls he
    split
    · exact hn.mls mls
    · rename_i b hb
      exact (h ⟨m, b, by rw [he], hb⟩).elim

theorem sendGroupContent_effects (n : Node M) (W : Wire) (env : Env) (g : String) (content : MessageContent)
    (keep : Bool) : ∃ es, (n.sendGroupContent W env g content keep).2.effects = n.effects ++ es := by
  unfold sendGroupContent
  split
  · exact ⟨[], by simp⟩
  · dsimp only
    split
    · exact ⟨[], by simp⟩
    · split_ifs
      · exact ⟨_, List.append_assoc n.effects [_] [_]⟩
      · exact ⟨_, List.append_assoc n.effects [_] [_]⟩

theorem mlsAbandonGroup_effects (n : Node M) (W : Wire) (env : Env) (g : String) :
    ∃ es, (n.mlsAbandonGroup W env g).2.effects = n.effects ++ es := by
  unfold mlsAbandonGroup
  split
  · exact ⟨[], by simp⟩
  · obtain ⟨es, hes⟩ := sendGroupContent_effects n W env g
      (.control [("type", "admin_abandoned"), ("admin_did", n.localDid)]) false
    have hleft (n : Node M) : Hushed g n (n.departGroup env g).2 := (Hushed.refl g n).departGroup
    obtain ⟨es', hes', -⟩ := hleft (n.sendGroupContent W env g
      (.control [("type", "admin_abandoned"), ("admin_did", n.localDid)]) false).2
    exact ⟨es ++ es', by rw [hes', hes, List.append_assoc]⟩

/-- A quiet step says nothing to the group, but for the farewell of an abandon. -/
theorem silent_serve {e : ClientEvent} (hn : n.Held gid) (he : e.On gid) (hq : n.Unstirred W gid e) :
    ∃ es, (n.serve W e).effects = n.effects ++ es ∧
      ∀ x ∈ es, x.Speaks gid → ∃ env, e = .event (.op (.abandon env gid)) := by
  have hhushed (h : Hushed gid n (n.serve W e)) : ∃ es, (n.serve W e).effects = n.effects ++ es ∧
      ∀ x ∈ es, x.Speaks gid → ∃ env, e = .event (.op (.abandon env gid)) := by
    obtain ⟨es, hes, hall⟩ := h
    exact ⟨es, hes, fun x hx hs => (hall x hx hs).elim⟩
  have hr := Hushed.refl gid n
  have hrefused (hc : e.Changes gid) : Hushed gid n (n.serve W e) := by
    rw [hn.refused hc]
    exact hr
  cases e with
  | event e =>
    cases e with
    | op o =>
      cases o with
      | send => exact hhushed (hrefused he)
      | invite => exact hhushed (hrefused he)
      | removeMember => exact hhushed (hrefused he)
      | changeRole => exact hhushed (hrefused he)
      | decline env g => exact hhushed hr.declineInvitation
      | leave env g =>
        refine hhushed ?_
        change Hushed gid n (n.mlsLeaveGroup env g).2
        unfold mlsLeaveGroup
        split_ifs
        · exact hr
        · exact hr.departGroup
      | abandon env g =>
        obtain rfl : g = gid := he
        obtain ⟨es, hes⟩ := mlsAbandonGroup_effects n W env g
        exact ⟨es, hes, fun _ _ _ => ⟨env, rfl⟩⟩
      | accept env g => exact hhushed hr.acceptInvitation
      | acceptWelcome env hex => exact hhushed hr.acceptWelcome
      | group env m => exact hhushed hr.handleGroupMessage
      | sync g xs => exact hhushed hr.handleSyncReceived
      | _ => exact he.elim
    | _ => exact he.elim
  | addGroupReaction env g id emoji =>
    obtain rfl : g = gid := he
    refine hhushed ?_
    change Hushed g n (n.addGroupReaction W env g id emoji).2
    unfold addGroupReaction
    by_cases hemoji : emoji = "" ∨ 8 < emoji.utf8ByteSize
    · rw [if_pos hemoji]
      exact hr
    · rw [if_neg hemoji]
      exact hushed_sendGroupContent (hq.resolve_left hemoji)
  | removeGroupReaction env g id emoji =>
    obtain rfl : g = gid := he
    exact hhushed (hushed_sendGroupContent hq)
  | wsSendGroupMessage env g text replyTo =>
    obtain rfl : g = gid := he
    exact hhushed (hushed_wsSendGroupMessage hq)
  | sendGroupReadReceipts g ids =>
    refine hhushed ?_
    change Hushed gid n (n.sendGroupReadReceipts W g ids).2
    unfold sendGroupReadReceipts
    split_ifs
    · exact hr
    · exact hr.readMessages ids

/-! Runs -/

theorem inert_serve {e : ClientEvent} (hk : n.storage.Keyed) (hn : n.Held gid) (he : e.On gid)
    (hq : n.Unstirred W gid e) : n.Inert W gid e where
  refused hc := hn.refused hc
  silent := silent_serve hn he hq
  members group hm := by
    rcases passes_serve hk hn he hq with ⟨hsame, -⟩ | ⟨hnone, -⟩
    · exact ⟨group, hsame ▸ hm, rfl⟩
    · cases hm.symm.trans hnone
  frozen := ((passes_serve hk hn he hq).held hn).frozen

theorem inert_run (es : List ClientEvent) (hk : n.storage.Keyed) (hn : n.Held gid) (hon : ∀ e ∈ es, e.On gid)
    (hq : StepSystem.Guarded (clientSys M W) (fun n e => n.Unstirred W gid e) n es) :
    StepSystem.Guarded (clientSys M W) (fun n e => n.Inert W gid e) n es := by
  induction es generalizing n with
  | nil => trivial
  | cons e es ih =>
    have he := hon e (List.mem_cons_self ..)
    refine ⟨inert_serve hk hn he hq.1, ih (keyed_serve e hk) ((passes_serve hk hn he hq.1).held hn) ?_ hq.2⟩
    exact fun e' he' => hon e' (List.mem_cons_of_mem e he')

/-- A frozen group is inert along every quiet run on it. -/
theorem frozen_inert {es : List ClientEvent} (hr : StepSystem.Reachable (clientSys M W) n) (hf : n.Frozen gid)
    (hon : ∀ e ∈ es, e.On gid) (hq : StepSystem.Guarded (clientSys M W) (fun n e => n.Unstirred W gid e) n es) :
    StepSystem.Guarded (clientSys M W) (fun n e => n.Inert W gid e) n es :=
  inert_run es (keyed_served hr) hf.held hon hq

end Node

/-! The group of three, frozen by `did:b` -/

namespace FrozenGroup
open IdealGroup

instance decidableSpeaks (gid : String) : ∀ x : Effect, Decidable (x.Speaks gid)
  | .publish topic m => inferInstanceAs (Decidable (topic = groupTopic gid ∧ m.type = 1))
  | .ws _ | .subscribe _ | .unsubscribe _ | .updateMlsKeyPackage _ | .schedulePersist | .sendDm .. |
    .deliveredReceipt .. => isFalse id

def farewell : MessageContent := .control [("type", "admin_abandoned"), ("admin_did", "did:b")]

def frozen : Node idealMls := group.exec idealWire (.group (env 6) (sent "did:b" "did:b" (payload farewell)))

theorem reachable_frozen : StepSystem.Reachable (clientSys idealMls idealWire) frozen :=
  Node.served_exec (Node.served_of_reachable reachable_group) _

theorem frozen_frozen : frozen.Frozen "g" := by
  have hfrozen : (frozen.storage.fetchGroupMetadata "g").map (·.frozen) = some true := by decide +kernel
  obtain ⟨group, hg, hf⟩ := Option.map_eq_some_iff.1 hfrozen
  exact ⟨group, hg, hf⟩

/-- What the API refuses the owner of the group says with a reaction or over the WebSocket, and a member's payload
still changes roles. -/
def slips : List ClientEvent :=
  [.addGroupReaction (env 7) "g" "x" "+", .removeGroupReaction (env 7) "g" "x" "+",
    .wsSendGroupMessage (env 7) "g" "hello" none,
    .event (.op (.group (env 7) (sent "did:c" "did:c" (payload (RemoteAuthority.promotion "did:c" "admin")))))]

theorem spoken {n : Node idealMls} {e : ClientEvent} (hne : ∀ env, e ≠ .event (.op (.abandon env "g")))
    (hs : ∃ x ∈ (n.serve idealWire e).effects.drop n.effects.length, x.Speaks "g") : ¬ n.Inert idealWire "g" e := by
  intro h
  obtain ⟨es, hes, hall⟩ := h.silent
  obtain ⟨x, hx, hspeaks⟩ := hs
  rw [hes, List.drop_left] at hx
  obtain ⟨env, he⟩ := hall x hx hspeaks
  exact hne env he

/-- A frozen group takes reactions, WebSocket messages and role changes. -/
theorem frozen_stirs : ∃ n, StepSystem.Reachable (clientSys idealMls idealWire) n ∧ n.Frozen "g" ∧
    ∀ e ∈ slips, e.On "g" ∧ ¬ n.Inert idealWire "g" e := by
  refine ⟨frozen, reachable_frozen, frozen_frozen, ?_⟩
  simp only [slips, List.forall_mem_cons, List.not_mem_nil, false_implies, implies_true, and_true]
  refine ⟨⟨rfl, spoken (by simp) (by decide +kernel)⟩, ⟨rfl, spoken (by simp) (by decide +kernel)⟩,
    ⟨rfl, spoken (by simp) (by decide +kernel)⟩, trivial, fun h => ?_⟩
  have hroles : ((frozen.serve idealWire (.event (.op (.group (env 7) (sent "did:c" "did:c"
      (payload (RemoteAuthority.promotion "did:c" "admin"))))))).storage.fetchGroupMetadata "g").map
      (fun g => g.members.map (·.role)) = some [3, 3] := by decide +kernel
  have hbefore : (frozen.storage.fetchGroupMetadata "g").map (fun g => g.members.map (·.role)) = some [3, 1] := by
    decide +kernel
  obtain ⟨group, hg, hr⟩ := Option.map_eq_some_iff.1 hroles
  obtain ⟨before, hb, hm⟩ := h.members group hg
  rw [hb, Option.map_some, ← hm, hr] at hbefore
  simp at hbefore

/-- A message refused, an emoji that is none, and the owner leaves. -/
theorem refused_and_left : StepSystem.Guarded (clientSys idealMls idealWire) (fun n e => n.Inert idealWire "g" e)
    frozen [.event (.op (.send (env 7) "g" "hello" none ∅)), .addGroupReaction (env 8) "g" "x" "",
      .event (.op (.leave (env 9) "g"))] := by
  refine Node.frozen_inert reachable_frozen frozen_frozen ?_ ⟨trivial, Or.inl (Or.inl rfl), trivial, trivial⟩
  simp only [List.forall_mem_cons, List.not_mem_nil, false_implies, implies_true, and_true]
  exact ⟨rfl, rfl, rfl⟩

end FrozenGroup
end Variance
