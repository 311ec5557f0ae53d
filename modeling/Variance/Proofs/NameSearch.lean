import Variance.Proofs.NameAuthority

/-! The two resolvers of a name, `resolve_username` and `resolve_invitee_did`, and what they take from the
providers they ask. -/

namespace Variance

open UsernameRegistry NameNode

variable {E : Ed25519} {U : Unicode} {n : NameNode} {net : UsernameNet} {cacheFirst : Bool}
  {ask : PeerId → Except String (Option FoundName)} {base : String} {requested : Option UInt32}
  {r : UsernameRegistry} {d : Did} {disc : UInt32} {p : PeerId}

/-- The answer is the peer's own verified document, and names `d` as the one asked for. -/
structure FoundName.Qualifies (E : Ed25519) (found : FoundName) (peer : PeerId) (base : String)
    (requested : Option UInt32) (d : Did) (disc : UInt32) : Prop where
  authentic : found.Authentic E peer d
  username : found.username = some base
  discriminator : found.discriminator = some disc
  asked : requested.all (· = disc)

namespace NameNode

/-- What asking `p` brings about: a did is returned or registered only if the answer qualifies, and otherwise the
registry stays. -/
structure SoundAnswer (E : Ed25519) (U : Unicode) (ask : PeerId → Except String (Option FoundName)) (p : PeerId)
    (base : String) (requested : Option UInt32) (r : UsernameRegistry)
    (outcome : Option (Did × UInt32) × UsernameRegistry) : Prop where
  returned : ∀ d disc, outcome.1 = some (d, disc) →
    ∃ found, ask p = .ok (some found) ∧ found.Qualifies E p base requested d disc
  registered : ∀ d disc, r.lookupExact U base disc ≠ some d → outcome.2.lookupExact U base disc = some d →
    ∃ found, ask p = .ok (some found) ∧ found.Qualifies E p base requested d disc
  unchanged : (¬ ∃ found d disc, ask p = .ok (some found) ∧ found.Qualifies E p base requested d disc) →
    outcome.2 = r

/-- Every provider that comes to be asked. -/
def SoundSearch (E : Ed25519) (U : Unicode) (cacheFirst : Bool) (ask : PeerId → Except String (Option FoundName))
    (base : String) (requested : Option UInt32) (providers : List PeerId) (r : UsernameRegistry) : Prop :=
  ∀ before p after r', providers = before ++ p :: after →
    askProviders U cacheFirst ask base requested before r = (none, r') →
    SoundAnswer E U ask p base requested r' (askProviders U cacheFirst ask base requested [p] r')

/-- The same did, or both fail; where several share the name, the second resolver fails. -/
def SameDid : Except AppError (List (UInt32 × Did)) → Except AppError Did → Prop
  | .ok [(_, did)], .ok did' => did = did'
  | .ok (_ :: _ :: _), .error _ => True
  | .error _, .error _ => True
  | _, _ => False

/-- The resolvers agree, and each takes from the providers what it may. -/
structure SoundlyResolved (E : Ed25519) (U : Unicode) (n : NameNode) (net : UsernameNet) (username : String) :
    Prop where
  same : SameDid (n.resolveUsername U net username).1 (n.resolveInviteeDid U net username).1
  registry : (n.resolveUsername U net username).2.registry = (n.resolveInviteeDid U net username).2.registry
  sound : ∀ providers, n.lookup U (query username).1 (query username).2 = [] →
    net.findUsernameProviders (query username).1 = .ok providers → ∀ cacheFirst,
    SoundSearch E U cacheFirst net.sendIdentityRequest (query username).1 (query username).2 providers n.registry

/-- An answer with a document, under the discriminator asked for if one was. -/
def Taken (ask : PeerId → Except String (Option FoundName)) (requested : Option UInt32) (p : PeerId) : Prop :=
  ∃ found doc, ask p = .ok (some found) ∧ found.didDocument = some doc ∧
    requested.all (· = found.discriminator.getD 1)

/-- The condition: the answer that is taken is authentic and names name and discriminator; the name in one that
is passed over is registered already. -/
def AnswersProperly (E : Ed25519) (U : Unicode) (ask : PeerId → Except String (Option FoundName)) (base : String)
    (requested : Option UInt32) (r : UsernameRegistry) (p : PeerId) : Prop :=
  ∀ found doc, ask p = .ok (some found) → found.didDocument = some doc →
    if requested.all (· = found.discriminator.getD 1) then
      found.Authentic E p doc.id ∧ found.username = some base ∧ found.discriminator ≠ none
    else r.lookupExact U base (found.discriminator.getD 1) ≠ none

/-- The providers up to the one whose answer is taken answer properly. -/
def ProperSearch (E : Ed25519) (U : Unicode) (ask : PeerId → Except String (Option FoundName)) (base : String)
    (requested : Option UInt32) (providers : List PeerId) (r : UsernameRegistry) : Prop :=
  ∀ before p after, providers = before ++ p :: after → (∀ q ∈ before, ¬ Taken ask requested q) →
    AnswersProperly E U ask base requested r p

/-- The registry has the name, or the providers answer properly. -/
def ProperlyAnswered (E : Ed25519) (U : Unicode) (n : NameNode) (net : UsernameNet) (username : String) : Prop :=
  ∀ providers, n.lookup U (query username).1 (query username).2 = [] →
    net.findUsernameProviders (query username).1 = .ok providers →
    ProperSearch E U net.sendIdentityRequest (query username).1 (query username).2 providers n.registry

/-! The registry -/

theorem compoundKey_inj {name : String} {a b : UInt32} (h : compoundKey name a = compoundKey name b) : a = b := by
  have := Text.append_right_inj.1 h
  exact Option.some.inj ((Text.parseU32_padded 0 a).symm.trans (this ▸ Text.parseU32_padded 0 b))

theorem registerWithDiscriminator_taken (h : r.lookupExact U base disc ≠ none) :
    (r.registerWithDiscriminator U base disc d).2 = r := by
  unfold registerWithDiscriminator
  rw [if_neg]
  rw [Bool.not_eq_true]
  exact Option.isNone_eq_false_iff.2 (Option.isSome_iff_ne_none.2 h)

theorem lookupExact_register {disc' : UInt32} :
    (r.registerWithDiscriminator U base disc d).2.lookupExact U base disc' =
      if disc = disc' ∧ r.lookupExact U base disc = none then some d else r.lookupExact U base disc' := by
  by_cases hfree : r.lookupExact U base disc = none
  · have hins : (r.registerWithDiscriminator U base disc d).2 = r.insert (U.toLowercase base) disc d := by
      unfold registerWithDiscriminator
      dsimp only
      rw [if_pos (show r.isFree (U.toLowercase base) disc = true from Option.isNone_iff_eq_none.2 hfree)]
    rw [hins, lookupExact, UsernameRegistry.insert, get_insert]
    by_cases hd : disc = disc'
    · rw [if_pos (by rw [hd]), if_pos ⟨hd, hfree⟩]
    · rw [if_neg fun h => hd (compoundKey_inj h), if_neg fun h => hd h.1, lookupExact]
  · rw [registerWithDiscriminator_taken hfree, if_neg fun h => hfree h.2]

/-! One provider -/

/-- Without a document there is nothing to take. -/
theorem ask_nothing (h : ∀ found doc, ask p = .ok (some found) → found.didDocument ≠ some doc) :
    askProviders U cacheFirst ask base requested [p] r = (none, r) := by
  unfold askProviders
  split
  · rename_i found hfound
    split
    · rename_i doc hdoc
      exact (h found doc hfound hdoc).elim
    · rfl
  · rfl

theorem ask_taken {found : FoundName} {doc : DidDocument} (hf : ask p = .ok (some found))
    (hd : found.didDocument = some doc) (hr : requested.all (· = found.discriminator.getD 1)) :
    askProviders U cacheFirst ask base requested [p] r =
      (some (doc.id, found.discriminator.getD 1),
        (r.registerWithDiscriminator U base (found.discriminator.getD 1) doc.id).2) := by
  simp [askProviders, hf, hd, hr]

theorem ask_passed {found : FoundName} {doc : DidDocument} (hf : ask p = .ok (some found))
    (hd : found.didDocument = some doc) (hr : ¬ requested.all (· = found.discriminator.getD 1)) :
    askProviders U cacheFirst ask base requested [p] r =
      (none, if cacheFirst then
        (r.registerWithDiscriminator U base (found.discriminator.getD 1) doc.id).2 else r) := by
  simp [askProviders, hf, hd, hr]

/-- The search goes on where it has found nothing yet. -/
theorem askProviders_append (xs ys : List PeerId) :
    askProviders U cacheFirst ask base requested (xs ++ ys) r =
      match askProviders U cacheFirst ask base requested xs r with
      | (some x, r') => (some x, r')
      | (none, r') => askProviders U cacheFirst ask base requested ys r' := by
  induction xs generalizing r with
  | nil => rfl
  | cons q xs ih =>
    simp only [List.cons_append, askProviders]
    split
    · split
      · split_ifs
        · rfl
        · exact ih
        · exact ih
      · exact ih
    · exact ih

theorem askProviders_cons (q : PeerId) (ys : List PeerId) :
    askProviders U cacheFirst ask base requested (q :: ys) r =
      match askProviders U cacheFirst ask base requested [q] r with
      | (some x, r') => (some x, r')
      | (none, r') => askProviders U cacheFirst ask base requested ys r' :=
  askProviders_append [q] ys

/-! The search -/

/-- While nothing is taken and what is passed over is registered already, the registry stays. -/
theorem askProviders_skips {before : List PeerId} (hq : ∀ q ∈ before, ¬ Taken ask requested q)
    (hp : ∀ q ∈ before, AnswersProperly E U ask base requested r q) :
    askProviders U cacheFirst ask base requested before r = (none, r) := by
  induction before with
  | nil => rfl
  | cons q before ih =>
    have hskip : askProviders U cacheFirst ask base requested [q] r = (none, r) := by
      by_cases hans : ∃ found doc, ask q = .ok (some found) ∧ found.didDocument = some doc
      · obtain ⟨found, doc, hf, hd⟩ := hans
        have hr : ¬ requested.all (· = found.discriminator.getD 1) :=
          fun hr => hq q (by simp) ⟨found, doc, hf, hd, hr⟩
        have hreg := hp q (by simp) found doc hf hd
        rw [if_neg hr] at hreg
        rw [ask_passed hf hd hr, registerWithDiscriminator_taken hreg, ite_self]
      · exact ask_nothing fun found doc hf hd => hans ⟨found, doc, hf, hd⟩
    rw [askProviders_cons, hskip]
    exact ih (fun q h => hq q (List.mem_cons_of_mem _ h)) fun q h => hp q (List.mem_cons_of_mem _ h)

theorem soundAnswer_nothing : SoundAnswer E U ask p base requested r (none, r) := by
  refine ⟨?_, fun _ _ hne heq => (hne heq).elim, fun _ => rfl⟩
  intro d disc heq
  cases heq

/-- A proper answer brings about what it may. -/
theorem AnswersProperly.sound (h : AnswersProperly E U ask base requested r p) :
    SoundAnswer E U ask p base requested r (askProviders U cacheFirst ask base requested [p] r) := by
  by_cases hans : ∃ found doc, ask p = .ok (some found) ∧ found.didDocument = some doc
  · obtain ⟨found, doc, hf, hd⟩ := hans
    have hp := h found doc hf hd
    by_cases hr : requested.all (· = found.discriminator.getD 1) = true
    · rw [if_pos hr] at hp
      obtain ⟨hauth, hname, hdisc⟩ := hp
      obtain ⟨disc, hdisc⟩ := Option.ne_none_iff_exists'.1 hdisc
      have hq : found.Qualifies E p base requested doc.id disc :=
        ⟨hauth, hname, hdisc, by rw [hdisc] at hr; exact hr⟩
      rw [ask_taken hf hd hr, hdisc, Option.getD_some]
      refine ⟨?_, ?_, ?_⟩
      · intro d disc' heq
        cases heq
        exact ⟨found, hf, hq⟩
      · intro d disc' hne heq
        rw [lookupExact_register] at heq
        split_ifs at heq with hcase
        · cases heq
          exact ⟨found, hf, hcase.1 ▸ hq⟩
        · exact (hne heq).elim
      · intro hnone
        exact (hnone ⟨found, doc.id, disc, hf, hq⟩).elim
    · rw [if_neg hr] at hp
      rw [ask_passed hf hd hr, registerWithDiscriminator_taken hp, ite_self]
      exact soundAnswer_nothing
  · rw [ask_nothing fun found doc hf hd => hans ⟨found, doc, hf, hd⟩]
    exact soundAnswer_nothing

/-- Where the resolver caches first, only a proper answer brings about no more than it may. -/
theorem SoundAnswer.proper
    (h : SoundAnswer E U ask p base requested r (askProviders U true ask base requested [p] r)) :
    AnswersProperly E U ask base requested r p := by
  intro found doc hf hd
  split_ifs with hr
  · rw [ask_taken hf hd hr] at h
    obtain ⟨found', hf', hq⟩ := h.returned _ _ rfl
    cases hf.symm.trans hf'
    exact ⟨hq.authentic, hq.username, by rw [hq.discriminator]; exact Option.some_ne_none _⟩
  · intro hfree
    rw [ask_passed hf hd hr, if_pos rfl] at h
    obtain ⟨found', hf', hq⟩ := h.registered doc.id (found.discriminator.getD 1)
      (by rw [hfree]; exact (Option.some_ne_none _).symm) (by rw [lookupExact_register, if_pos ⟨rfl, hfree⟩])
    cases hf.symm.trans hf'
    have := hq.asked
    rw [hq.discriminator, Option.getD_some] at hr
    exact hr this

/-- A sound search that caches first is at its first registry as long as nothing is taken. -/
theorem SoundSearch.before {providers before after : List PeerId}
    (h : SoundSearch E U true ask base requested providers r) (heq : providers = before ++ after)
    (hq : ∀ q ∈ before, ¬ Taken ask requested q) : ∀ q ∈ before, AnswersProperly E U ask base requested r q := by
  induction before using List.reverseRecOn generalizing after with
  | nil => simp
  | append_singleton before p ih =>
    have hbefore : ∀ q ∈ before, ¬ Taken ask requested q := fun q hm => hq q (List.mem_append_left _ hm)
    have hsplit : providers = before ++ p :: after := by
      rw [heq, List.append_assoc]
      rfl
    have hproper := ih hsplit hbefore
    intro q hm
    rcases List.mem_append.1 hm with hm | hm
    · exact hproper q hm
    · rw [List.mem_singleton.1 hm]
      exact (h before p after r hsplit (askProviders_skips hbefore hproper)).proper

theorem SoundSearch.proper {providers : List PeerId}
    (h : SoundSearch E U true ask base requested providers r) : ProperSearch E U ask base requested providers r :=
  fun before p after heq hq =>
    (h before p after r heq (askProviders_skips hq (h.before heq hq))).proper

theorem ProperSearch.head {q : PeerId} {ps : List PeerId} (h : ProperSearch E U ask base requested (q :: ps) r) :
    AnswersProperly E U ask base requested r q :=
  h [] q ps rfl (by simp)

theorem ProperSearch.tail {q : PeerId} {ps : List PeerId} (h : ProperSearch E U ask base requested (q :: ps) r)
    (hq : ¬ Taken ask requested q) : ProperSearch E U ask base requested ps r := by
  intro before p after heq hbefore
  refine h (q :: before) p after (by rw [heq]; rfl) ?_
  intro a ha
  rcases List.mem_cons.1 ha with rfl | ha
  · exact hq
  · exact hbefore a ha

/-- What has found nothing has taken nothing. -/
theorem not_taken_of_none {before : List PeerId} {r' : UsernameRegistry}
    (h : askProviders U cacheFirst ask base requested before r = (none, r')) :
    ∀ q ∈ before, ¬ Taken ask requested q := by
  induction before generalizing r with
  | nil => simp
  | cons q before ih =>
    have hq : ¬ Taken ask requested q := by
      rintro ⟨found, doc, hf, hd, hr⟩
      rw [askProviders_cons, ask_taken hf hd hr] at h
      cases h
    rw [askProviders_cons] at h
    split at h
    · cases h
    · intro a ha
      rcases List.mem_cons.1 ha with rfl | ha
      · exact hq
      · exact ih h a ha

theorem ProperSearch.before {providers before after : List PeerId}
    (h : ProperSearch E U ask base requested providers r) (heq : providers = before ++ after)
    (hq : ∀ q ∈ before, ¬ Taken ask requested q) : ∀ q ∈ before, AnswersProperly E U ask base requested r q := by
  intro q hm
  obtain ⟨front, back, rfl⟩ := List.append_of_mem hm
  refine h front q (back ++ after) (by rw [heq, List.append_assoc]; rfl) ?_
  exact fun a ha => hq a (List.mem_append_left _ ha)

theorem ProperSearch.sound {providers : List PeerId} (h : ProperSearch E U ask base requested providers r)
    (cacheFirst : Bool) : SoundSearch E U cacheFirst ask base requested providers r := by
  intro before p after r' heq hnone
  have hq := not_taken_of_none hnone
  have hr : r' = r := by
    rw [askProviders_skips hq (h.before heq hq)] at hnone
    exact (Prod.ext_iff.1 hnone).2.symm
  rw [hr]
  exact (h before p after heq hq).sound

/-- Then it makes no difference which of the two comes first. -/
theorem ProperSearch.agree {providers : List PeerId} (h : ProperSearch E U ask base requested providers r) :
    askProviders U true ask base requested providers r = askProviders U false ask base requested providers r := by
  induction providers with
  | nil => rfl
  | cons q ps ih =>
    rw [askProviders_cons, askProviders_cons q ps]
    by_cases hq : Taken ask requested q
    · obtain ⟨found, doc, hf, hd, hr⟩ := hq
      rw [ask_taken hf hd hr, ask_taken hf hd hr]
    · have hskip : ∀ cacheFirst, askProviders U cacheFirst ask base requested [q] r = (none, r) := fun cacheFirst =>
        askProviders_skips (by simpa using hq) (by simpa using h.head)
      rw [hskip, hskip]
      exact ih (h.tail hq)

/-! The resolvers -/

theorem resolveInviteeDid_of_name (U : Unicode) (n : NameNode) (net : UsernameNet) {invitee : String} (hname : ¬ Text.HasPrefix "did:" invitee) :
    (n.resolveInviteeDid U net invitee).2 =
      (n.resolveThrough U false (fun baseName => "DHT lookup failed for '" ++ baseName ++ "'") net invitee).2 ∧
    (SameDid (n.resolveThrough U false (fun baseName => "DHT lookup failed for '" ++ baseName ++ "'") net invitee).1
      (n.resolveInviteeDid U net invitee).1 ∨
    (n.resolveThrough U false (fun baseName => "DHT lookup failed for '" ++ baseName ++ "'") net invitee).1 = .ok []) := by
  unfold resolveInviteeDid
  rw [if_neg hname]
  split
  · rename_i heq
    rw [heq]
    exact ⟨rfl, Or.inl trivial⟩
  · rename_i heq
    rw [heq]
    exact ⟨rfl, Or.inl rfl⟩
  · rename_i found _ hne heq
    rw [heq]
    refine ⟨rfl, ?_⟩
    match found, hne with
    | [], _ => exact Or.inr rfl
    | [(disc, did)], hne => exact (hne disc did rfl).elim
    | _ :: _ :: _, _ => exact Or.inl trivial

/-- The same holders, or both fail. -/
def SameHolders : Except AppError (List (UInt32 × Did)) → Except AppError (List (UInt32 × Did)) → Prop
  | .ok l, .ok l' => l = l' ∧ l ≠ []
  | .error _, .error _ => True
  | _, _ => False

theorem ProperlyAnswered.agree {username : String} (h : ProperlyAnswered E U n net username)
    (text text' : String → String) :
    SameHolders (n.resolveThrough U true text net username).1 (n.resolveThrough U false text' net username).1 ∧
      (n.resolveThrough U true text net username).2 = (n.resolveThrough U false text' net username).2 := by
  unfold resolveThrough
  dsimp only
  by_cases hl : n.lookup U (query username).1 (query username).2 ≠ []
  · rw [if_pos hl, if_pos hl]
    exact ⟨⟨rfl, hl⟩, rfl⟩
  rw [if_neg hl, if_neg hl]
  cases hp : net.findUsernameProviders (query username).1 with
  | error e => exact ⟨trivial, rfl⟩
  | ok providers =>
    dsimp only
    by_cases hnil : providers = []
    · rw [if_pos hnil, if_pos hnil]
      exact ⟨trivial, rfl⟩
    · rw [if_neg hnil, if_neg hnil, (h providers (not_not.1 hl) hp).agree]
      split
      · exact ⟨⟨rfl, by simp⟩, rfl⟩
      · exact ⟨trivial, rfl⟩

theorem ProperlyAnswered.sameDid {invitee : String} (h : ProperlyAnswered E U n net invitee)
    (hname : ¬ Text.HasPrefix "did:" invitee) :
    SameDid (n.resolveUsername U net invitee).1 (n.resolveInviteeDid U net invitee).1 := by
  have hagree := (h.agree (fun _ => "DHT lookup failed")
    fun baseName => "DHT lookup failed for '" ++ baseName ++ "'").1
  have hinv := (resolveInviteeDid_of_name U n net hname).2
  unfold resolveUsername
  revert hagree hinv
  generalize (n.resolveThrough U true (fun _ => "DHT lookup failed") net invitee).1 = mine
  generalize (n.resolveThrough U false (fun baseName => "DHT lookup failed for '" ++ baseName ++ "'") net
    invitee).1 = theirs
  intro hagree hinv
  cases mine with
  | error e =>
    cases theirs with
    | error e' =>
      rcases hinv with hinv | hinv
      · cases hdid : (n.resolveInviteeDid U net invitee).1 with
        | error _ => trivial
        | ok did =>
          rw [hdid] at hinv
          exact hinv.elim
      · cases hinv
    | ok l => exact hagree.elim
  | ok l =>
    cases theirs with
    | error e' => exact hagree.elim
    | ok l' =>
      obtain ⟨rfl, hne⟩ := hagree
      rcases hinv with hinv | hinv
      · exact hinv
      · cases hinv
        exact (hne rfl).elim

/-- A name is resolved soundly, and alike by both, just when the providers answer properly. -/
theorem soundlyResolved_iff (E : Ed25519) (U : Unicode) (n : NameNode) (net : UsernameNet) (username : String)
    (hname : ¬ Text.HasPrefix "did:" username) :
    SoundlyResolved E U n net username ↔ ProperlyAnswered E U n net username := by
  constructor
  · intro h providers hl hp
    exact (h.sound providers hl hp true).proper
  · intro h
    refine ⟨h.sameDid hname, ?_, fun providers hl hp cacheFirst => (h providers hl hp).sound cacheFirst⟩
    rw [(resolveInviteeDid_of_name U n net hname).1]
    exact congrArg NameNode.registry (h.agree _ _).2

end NameNode

namespace NameSearch

open NameAuthority

/-- One provider, who answers everybody alike. -/
def provided (peer : PeerId) (found : FoundName) : UsernameNet :=
  ⟨fun _ => .ok [peer], fun _ => .ok (some found)⟩

/-- Asked for `bob#0007`, a provider answers with another discriminator; only one of the resolvers registers it. -/
theorem other_registered : ¬ SoundlyResolved ideal ascii fresh
    (provided "p" ⟨some ⟨"did:x", [], none⟩, none, some 2, []⟩) "bob#0007" := by
  intro h
  have hreg := congrArg (fun r => r.lookupExact ascii "bob" 2) h.registry
  exact absurd hreg (by decide +kernel)

/-- Bob's own node answers for `Bob#0007`. -/
theorem bob_resolved : SoundlyResolved ideal ascii fresh
    (provided (ideal.peerId (List.replicate 32 1)) answer) "Bob#0007" :=
  (soundlyResolved_iff ideal ascii fresh _ _ (by decide)).2 fun providers _ hp before p after heq _ found doc hf hd => by
    obtain rfl : providers = [ideal.peerId (List.replicate 32 1)] := (Except.ok.inj hp).symm
    have hpeer : p ∈ [ideal.peerId (List.replicate 32 1)] := heq ▸ by simp
    obtain rfl : answer = found := Option.some.inj (Except.ok.inj hf)
    obtain rfl : document = doc := Option.some.inj hd
    have hq : query "Bob#0007" = ("Bob", some 7) := by decide +kernel
    rw [hq, if_pos (by decide)]
    refine ⟨⟨document, rfl, rfl, document_verifies, by decide +kernel, ?_⟩, rfl, by decide⟩
    rw [List.mem_singleton.1 hpeer]
    rfl

end NameSearch
end Variance
