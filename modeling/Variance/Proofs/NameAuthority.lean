import Variance.Sanity.Names

/-! Whose word names a did. The listeners take what they are told; as long as what they are told is the did's
own, nobody is renamed by another, and no name goes from one did to another. -/

namespace Variance

open UsernameRegistry

variable {E : Ed25519} {U : Unicode} {w : NameWorld} {n : NameNode} {d : Did}

/-- Nobody but the did itself, and the user for the local one, changes a name; no name changes hands. -/
structure NameWorld.Respects (E : Ed25519) (U : Unicode) (w : NameWorld) (e : NameEvent) : Prop where
  peers : ∀ d, d ≠ w.node.localDid →
    (w.node.exec E U e).registry.getUsername d ≠ w.node.registry.getUsername d →
    w.node.SpeaksFor E d e ∨
      e = .start ∧ ∀ nm, (w.node.exec E U e).registry.getUsername d = some nm → w.vouched d nm
  own : (w.node.exec E U e).registry.getUsername w.node.localDid ≠
      w.node.registry.getUsername w.node.localDid → ∃ username draws persisted, e = .register username draws persisted
  claims : ∀ name disc d c, w.node.registry.lookupExact U name disc = some d →
    (w.node.exec E U e).registry.lookupExact U name disc = some c → c = d

namespace NameNode

/-- The name is free or the did's own, the did is a peer, and the name can be kept. -/
def MayLearn (n : NameNode) (U : Unicode) (f : Faults) (did : Did) (name : String) (disc : UInt32) : Prop :=
  did ≠ n.localDid ∧ (∀ d, n.registry.lookupExact U name disc = some d → d = did) ∧ f "peer_names" did = false

/-- What a resolver is answered is the peer's own, unless somebody has the name already. -/
def HonestProviders (E : Ed25519) (n : NameNode) (U : Unicode) (net : UsernameNet) (username : String) : Prop :=
  ∀ providers peer found doc, net.findUsernameProviders (query username).1 = .ok providers → peer ∈ providers →
    net.sendIdentityRequest peer = .ok (some found) → found.didDocument = some doc →
    n.registry.lookupExact U (query username).1 (found.discriminator.getD 1) = none →
    doc.id ≠ n.localDid ∧ found.Authentic E peer doc.id

/-- The condition on a step. -/
def Sound (E : Ed25519) (U : Unicode) (n : NameNode) : NameEvent → Prop
  | .rename r now allowed => allowed = true → n.verifyRename E r now = true →
      (∃ c, n.didCache[r.did]? = some c ∧ c.id = r.did) ∨ r.Signed E
  | .routeRename f => ∀ r ∈ n.renames.head?, n.MayLearn U f r.did r.username r.discriminator
  | .response peer found f => ∀ doc name disc, found.didDocument = some doc → found.cached doc = some (name, disc) →
      found.Authentic E peer doc.id ∧ n.MayLearn U f doc.id name disc
  | .verified found => ∀ doc key, found.didDocument = some doc →
      (CachedDid.ofProto doc found.documentSignature).verifyDocument E = true →
      (CachedDid.ofProto doc found.documentSignature).getVerifyingKey E = some key → key = E.keyOf doc.id
  | .resolve net username => n.HonestProviders E U net username
  | .resolveInvitee net invitee => n.HonestProviders E U net invitee
  | .register username draws persisted => validateUsername U username = .ok () → persisted = true ∧
      ∃ disc ∈ draws.take maxDiscriminatorAttempts,
        (n.registry.evict n.localDid).isFree (U.toLowercase username) disc = true
  | .missed _ | .start => True

/-- The name a start would give a peer. -/
def known (n : NameNode) (U : Unicode) (d : Did) : Option (String × UInt32) :=
  (n.peerName d).map fun nm => (U.toLowercase nm.1, nm.2)

def ownName (n : NameNode) (U : Unicode) : Option (String × UInt32) :=
  n.identityName.map fun nm => (U.toLowercase nm.1, nm.2)

end NameNode

/-- What is called something, now or after the next start, has that name. -/
structure NameNode.Linked (U : Unicode) (n : NameNode) : Prop where
  covers : n.registry.dir.Covers nameKey n.registry.dir.name
  kept : n.registry.dir.Covers nameKey (n.known U)
  own : n.registry.dir.name n.localDid = n.ownName U
  notOwn : n.peerName n.localDid = none

namespace NameNode
variable {f : Faults} {name : String} {disc : UInt32}

theorem dir_learnName : (n.learnName U f d name disc).registry.dir =
    n.registry.dir.load nameKey (d, (U.toLowercase name, disc)) :=
  dir_cacheMapping

theorem peerName_learnName (hf : f "peer_names" d = false) :
    (n.learnName U f d name disc).peerName = Function.update n.peerName d (some (name, disc)) :=
  peerName_storePeerName (n := { n with registry := n.registry.cacheMapping U name disc d }) hf

theorem known_learnName (hf : f "peer_names" d = false) :
    (n.learnName U f d name disc).known U = Function.update (n.known U) d (some (U.toLowercase name, disc)) := by
  funext a
  unfold known
  rw [peerName_learnName hf, Function.update_apply, Function.update_apply]
  split_ifs <;> rfl

theorem Linked.learnName (h : n.Linked U) (hm : n.MayLearn U f d name disc) :
    (n.learnName U f d name disc).Linked U := by
  obtain ⟨hne, hopen, hf⟩ := hm
  have ho : n.registry.dir.Open nameKey (U.toLowercase name, disc) d := hopen
  refine ⟨?_, ?_, ?_, ?_⟩
  · rw [dir_learnName]
    exact h.covers.load_name ho
  · rw [dir_learnName, known_learnName hf]
    exact h.kept.load h.covers ho
  · rw [dir_learnName, Directory.load_name]
    exact (Function.update_of_ne hne.symm _ _).trans h.own
  · rw [peerName_learnName hf]
    exact (Function.update_of_ne hne.symm _ _).trans h.notOwn

theorem steady_learnName (hm : n.MayLearn U f d name disc) :
    n.registry.dir.Steady (n.learnName U f d name disc).registry.dir := by
  rw [dir_learnName]
  exact (Directory.Steady.refl _).load hm.2.1

/-! The resolvers -/

/-- Along the providers, what every registration keeps is kept. -/
theorem askProviders_keeps {P : UsernameRegistry → Prop} (U : Unicode) (cacheFirst : Bool)
    (ask : PeerId → Except String (Option FoundName)) (base : String) (requested : Option UInt32)
    (providers : List PeerId) {r : UsernameRegistry} (hr : P r)
    (hs : ∀ r peer found doc, P r → peer ∈ providers → ask peer = .ok (some found) → found.didDocument = some doc →
      P (r.registerWithDiscriminator U base (found.discriminator.getD 1) doc.id).2) :
    P (askProviders U cacheFirst ask base requested providers r).2 := by
  induction providers generalizing r with
  | nil => exact hr
  | cons p ps ih =>
    have hrest : ∀ r peer found doc, P r → peer ∈ ps → ask peer = .ok (some found) →
        found.didDocument = some doc →
        P (r.registerWithDiscriminator U base (found.discriminator.getD 1) doc.id).2 :=
      fun r peer found doc h hp => hs r peer found doc h (List.mem_cons_of_mem _ hp)
    unfold askProviders
    split
    · rename_i found hfound
      split
      · rename_i doc hdoc
        have hreg := hs r p found doc hr (by simp) hfound hdoc
        dsimp only
        split_ifs
        · exact hreg
        · exact ih hreg hrest
        · exact ih hr hrest
      · exact ih hr hrest
    · exact ih hr hrest

/-- What a resolver makes of the registry. -/
structure Resolved (E : Ed25519) (n : NameNode) (U : Unicode) (net : UsernameNet) (r : UsernameRegistry) : Prop where
  covers : r.dir.Covers nameKey r.dir.name
  kept : r.dir.Covers nameKey (n.known U)
  steady : n.registry.dir.Steady r.dir
  grows : ∀ k a, n.registry.dir.owner k = some a → r.dir.owner k = some a
  names : ∀ d, r.dir.name d = n.registry.dir.name d ∨ d ≠ n.localDid ∧
    ∃ peer found, net.sendIdentityRequest peer = .ok (some found) ∧ found.Authentic E peer d

theorem Resolved.register {net : UsernameNet} {r : UsernameRegistry} (h : n.Resolved E U net r)
    (hd : n.registry.lookupExact U name disc = none → d ≠ n.localDid ∧
      ∃ peer found, net.sendIdentityRequest peer = .ok (some found) ∧ found.Authentic E peer d) :
    n.Resolved E U net (r.registerWithDiscriminator U name disc d).2 := by
  rcases dir_registerWithDiscriminator r U name disc d with heq | ⟨hfree, heq⟩
  · exact ⟨heq ▸ h.covers, heq ▸ h.kept, heq ▸ h.steady, heq ▸ h.grows, heq ▸ h.names⟩
  have ho : r.dir.Open nameKey (U.toLowercase name, disc) d := Directory.open_of_none hfree
  have hbefore : n.registry.lookupExact U name disc = none := by
    cases hl : n.registry.lookupExact U name disc with
    | none => rfl
    | some a =>
      have := h.grows (nameKey (U.toLowercase name, disc)) a hl
      rw [show r.dir.owner (nameKey (U.toLowercase name, disc)) = none from hfree] at this
      cases this
  refine ⟨?_, heq ▸ h.kept.give ho, heq ▸ h.steady.give (Directory.open_of_none hbefore), ?_, ?_⟩
  · rw [heq]
    exact h.covers.give_update ho
  · intro k a hk
    rw [heq, Directory.give_owner]
    split_ifs with hkn
    · have := h.grows k a hk
      rw [hkn, show r.dir.owner (nameKey (U.toLowercase name, disc)) = none from hfree] at this
      cases this
    · exact h.grows k a hk
  · intro a
    rw [heq, Directory.give_name]
    split_ifs with had
    · exact Or.inr (had ▸ hd hbefore)
    · exact h.names a

theorem Linked.resolved (h : n.Linked U) (net : UsernameNet) : n.Resolved E U net n.registry :=
  ⟨h.covers, h.kept, .refl _, fun _ _ hk => hk, fun _ => Or.inl rfl⟩

/-- A resolver only touches the registry, and that by registrations. -/
theorem resolved_resolveThrough {net : UsernameNet} {username : String} (cacheFirst : Bool) (text : String → String)
    (h : n.Linked U) (hs : n.HonestProviders E U net username) :
    ∃ r, (n.resolveThrough U cacheFirst text net username).2 = { n with registry := r } ∧ n.Resolved E U net r := by
  have hsame : ∃ r, n = { n with registry := r } ∧ n.Resolved E U net r := ⟨n.registry, rfl, h.resolved net⟩
  unfold resolveThrough
  dsimp only
  split_ifs
  · exact hsame
  split
  · exact hsame
  rename_i providers hp
  split_ifs
  · exact hsame
  have hask := askProviders_keeps (P := n.Resolved E U net) U cacheFirst net.sendIdentityRequest (query username).1
    (query username).2 providers (h.resolved net) fun r peer found doc hr hmem hans hdoc =>
      hr.register fun hnone =>
        have := hs providers peer found doc hp hmem hans hdoc hnone
        ⟨this.1, peer, found, hans, this.2⟩
  split
  · rename_i heq
    exact ⟨_, rfl, by rw [heq] at hask; exact hask⟩
  · rename_i heq
    exact ⟨_, rfl, by rw [heq] at hask; exact hask⟩

theorem resolveInviteeDid_cases (U : Unicode) (net : UsernameNet) (invitee : String) :
    (n.resolveInviteeDid U net invitee).2 = n ∨
      ∃ text, (n.resolveInviteeDid U net invitee).2 = (n.resolveThrough U false text net invitee).2 := by
  unfold resolveInviteeDid
  split_ifs
  · exact Or.inl rfl
  · refine Or.inr ⟨fun baseName => "DHT lookup failed for '" ++ baseName ++ "'", ?_⟩
    split
    · rename_i heq
      rw [heq]
    · rename_i heq
      rw [heq]
    · rename_i heq
      rw [heq]

theorem Linked.withRegistry {net : UsernameNet} {r : UsernameRegistry} (h : n.Linked U) (hr : n.Resolved E U net r) :
    Linked U { n with registry := r } := by
  refine ⟨hr.covers, hr.kept, ?_, h.notOwn⟩
  rcases hr.names n.localDid with hl | ⟨hne, -⟩
  · exact hl.trans h.own
  · exact (hne rfl).elim

/-! Our own name -/

/-- A registration that succeeds: the local did goes by a name that was free, on disk as well. -/
theorem registerUsername_cases {username : String} {draws : List UInt32} {persisted : Bool}
    (hs : n.Sound E U (.register username draws persisted)) :
    (n.registerUsername U username draws persisted).2 = n ∨
    ∃ disc, (n.registry.evict n.localDid).isFree (U.toLowercase username) disc = true ∧
      (n.registerUsername U username draws persisted).2 = { n with
        registry := (n.registry.evict n.localDid).insert (U.toLowercase username) disc n.localDid
        identityName := some (username, disc) } := by
  unfold registerUsername
  cases hv : validateUsername U username with
  | error e => exact Or.inl rfl
  | ok u =>
    obtain ⟨rfl, disc₀, hmem, hfree₀⟩ := hs hv
    unfold registerLocal
    rw [hv]
    dsimp only
    cases hf : (draws.take maxDiscriminatorAttempts).find?
        ((n.registry.evict n.localDid).isFree (U.toLowercase username)) with
    | none =>
      have := List.find?_eq_none.1 hf disc₀ hmem
      exact (this hfree₀).elim
    | some disc => exact Or.inr ⟨disc, List.find?_some hf, rfl⟩

theorem Linked.steady_register {name : String} (h : n.Linked U)
    (hfree : (n.registry.evict n.localDid).isFree name disc = true) :
    n.registry.dir.Steady ((n.registry.evict n.localDid).insert name disc n.localDid).dir := by
  rw [dir_insert, dir_evict]
  refine (Directory.Steady.refl _).drop.give ?_
  intro a ha
  by_contra hne
  have hdrop := Directory.drop_owner_other h.covers ha hne
  rw [← dir_evict, owner_of_isFree hfree] at hdrop
  cases hdrop

theorem Linked.register {username : String} (h : n.Linked U)
    (hfree : (n.registry.evict n.localDid).isFree (U.toLowercase username) disc = true) :
    Linked U { n with
      registry := (n.registry.evict n.localDid).insert (U.toLowercase username) disc n.localDid
      identityName := some (username, disc) } := by
  have ho : (n.registry.dir.drop nameKey n.localDid).Open nameKey (U.toLowercase username, disc) n.localDid := by
    rw [← dir_evict]
    exact Directory.open_of_none (owner_of_isFree hfree)
  have hknown : n.known U n.localDid = none := by
    unfold known
    rw [h.notOwn]
    rfl
  refine ⟨?_, ?_, ?_, h.notOwn⟩
  · dsimp only
    rw [dir_insert, dir_evict]
    exact h.covers.drop_name.give_update ho
  · dsimp only
    rw [dir_insert, dir_evict]
    exact (h.kept.drop h.covers hknown).give ho
  · dsimp only
    rw [dir_insert, Directory.give_name, if_pos rfl]
    rfl

/-! The start -/

/-- What a start loads: the local name, and the peers'. -/
def loaded (n : NameNode) (U : Unicode) : Did → Option (String × UInt32) :=
  Function.update (n.known U) n.localDid (n.ownName U)

theorem dir_foldl {l : List (Did × String × UInt32)} {r : UsernameRegistry} :
    (l.foldl (fun r x => r.cacheMapping U x.2.1 x.2.2 x.1) r).dir =
      (l.map fun x => (x.1, (U.toLowercase x.2.1, x.2.2))).foldl (Directory.load nameKey) r.dir := by
  induction l generalizing r with
  | nil => rfl
  | cons x l ih => rw [List.foldl_cons, ih, dir_cacheMapping, List.map_cons, List.foldl_cons]

theorem Linked.covers_loaded (h : n.Linked U) : n.registry.dir.Covers nameKey (n.loaded U) := by
  intro d nm hd
  unfold loaded at hd
  rw [Function.update_apply] at hd
  split_ifs at hd with hl
  · rw [← h.own] at hd
    exact hl ▸ h.covers n.localDid nm hd
  · exact h.kept d nm hd

theorem within_own (n : NameNode) (U : Unicode) (ha : Directory.Apart nameKey (n.loaded U)) :
    Directory.Within nameKey (n.loaded U) (match n.identityName with
      | some (username, disc) => (new.registerWithDiscriminator U username disc n.localDid).2
      | none => new).dir ∧
    ∀ nm, n.ownName U = some nm → (match n.identityName with
      | some (username, disc) => (new.registerWithDiscriminator U username disc n.localDid).2
      | none => new).dir.name n.localDid = some nm := by
  cases hi : n.identityName with
  | none =>
    refine ⟨by rw [dir_new]; exact .empty, ?_⟩
    simp [ownName, hi]
  | some own =>
    obtain ⟨username, disc⟩ := own
    have hown : n.ownName U = some (U.toLowercase username, disc) := by
      unfold ownName
      rw [hi]
      rfl
    have hreg : (new.registerWithDiscriminator U username disc n.localDid).2.dir =
        Directory.empty.load nameKey (n.localDid, (U.toLowercase username, disc)) := by
      have hfree : new.isFree (U.toLowercase username) disc = true := by simp [isFree, new]
      unfold registerWithDiscriminator
      dsimp only
      rw [if_pos hfree, dir_insert, dir_new]
      rfl
    dsimp only
    rw [hreg]
    refine ⟨Directory.Within.empty.load ha ?_, fun nm hnm => ?_⟩
    · unfold loaded
      rw [Function.update_self, hown]
    · rw [Directory.load_name, Function.update_self, ← hown, hnm]

/-- After a start everybody is called what was loaded. -/
theorem start_names (h : n.Linked U) : Directory.Within nameKey (n.loaded U) (n.start U).registry.dir ∧
    ∀ d, (n.start U).registry.dir.name d = n.loaded U d := by
  have ha := h.covers_loaded.apart
  obtain ⟨hw, hown⟩ := within_own n U ha
  have hl : ∀ x ∈ n.loadAllPeerNames.map (fun x => (x.1, (U.toLowercase x.2.1, x.2.2))),
      n.loaded U x.1 = some x.2 := by
    intro x hx
    obtain ⟨y, hy, rfl⟩ := List.mem_map.1 hx
    have hy := mem_loadAllPeerNames.1 hy
    unfold loaded
    rw [Function.update_of_ne]
    · unfold known
      rw [hy]
      rfl
    · intro hyl
      rw [hyl, h.notOwn] at hy
      cases hy
  obtain ⟨hall, hold, hnew⟩ := hw.loadAll ha hl
  rw [← dir_foldl] at hall hold hnew
  refine ⟨hall, fun d => ?_⟩
  cases hd : n.loaded U d with
  | none =>
    cases hnm : (n.start U).registry.dir.name d with
    | none => rfl
    | some nm =>
      rw [hall.name d nm hnm] at hd
      cases hd
  | some nm =>
    unfold loaded at hd
    rw [Function.update_apply] at hd
    split_ifs at hd with hdl
    · rw [hdl]
      exact hold _ nm (hown nm hd)
    · unfold known at hd
      obtain ⟨raw, hraw, rfl⟩ := Option.map_eq_some_iff.1 hd
      exact hnew (d, (U.toLowercase raw.1, raw.2))
        (List.mem_map.2 ⟨(d, raw), mem_loadAllPeerNames.2 hraw, rfl⟩)

theorem Linked.start (h : n.Linked U) : (n.start U).Linked U := by
  obtain ⟨hw, hnames⟩ := start_names h
  refine ⟨hw.covers, ?_, ?_, h.notOwn⟩
  · intro d nm hd
    have hd' : n.known U d = some nm := hd
    refine hw.covers d nm ((hnames d).trans ?_)
    unfold loaded
    rw [Function.update_of_ne, hd']
    rintro rfl
    unfold known at hd'
    rw [h.notOwn] at hd'
    cases hd'
  · refine (hnames n.localDid).trans ?_
    unfold loaded
    rw [Function.update_self]
    rfl

end NameNode

/-- The invariant of a sound run: besides, every name is one its did was given, and what waits or is cached is
the did's own. -/
structure NameWorld.Kept (E : Ed25519) (U : Unicode) (w : NameWorld) : Prop where
  linked : w.node.Linked U
  vouchedName : ∀ d, d ≠ w.node.localDid → ∀ nm, w.node.registry.getUsername d = some nm → w.vouched d nm
  vouchedKnown : ∀ d nm, w.node.known U d = some nm → w.vouched d nm
  signed : ∀ r ∈ w.node.renames, r.Signed E
  docs : ∀ (k : String) (c : CachedDid), w.node.didCache[k]? = some c → c.getVerifyingKey E = some (E.keyOf c.id)

namespace NameWorld

theorem Respects.of_registry {e : NameEvent} (h : (w.node.exec E U e).registry = w.node.registry) :
    w.Respects E U e := by
  refine ⟨fun d _ hne => ?_, fun hne => ?_, fun name disc d c hd hc => ?_⟩
  · exact (hne (by rw [h])).elim
  · exact (hne (by rw [h])).elim
  · rw [h, hd] at hc
    exact (Option.some.inj hc).symm

theorem Respects.of_steady {e : NameEvent}
    (hs : w.node.registry.dir.Steady (w.node.exec E U e).registry.dir)
    (hn : ∀ d, (w.node.exec E U e).registry.getUsername d = w.node.registry.getUsername d ∨
      d ≠ w.node.localDid ∧ w.node.SpeaksFor E d e) : w.Respects E U e := by
  refine ⟨fun d _ hne => ?_, fun hne => ?_, fun name disc d c hd hc => hs _ d c hd hc⟩
  · rcases hn d with h | ⟨-, h⟩
    · exact (hne h).elim
    · exact Or.inl h
  · rcases hn w.node.localDid with h | ⟨h, -⟩
    · exact (hne h).elim
    · exact (h rfl).elim

/-- A rename that is let through was signed by its did. -/
theorem Kept.signed_of_verify {r : UsernameChanged} {now : ℤ} (h : w.Kept E U)
    (hc : (∃ c, w.node.didCache[r.did]? = some c ∧ c.id = r.did) ∨ r.Signed E)
    (hv : w.node.verifyRename E r now = true) : r.Signed E := by
  rcases hc with ⟨c, hcache, hid⟩ | hsigned
  swap
  · exact hsigned
  unfold NameNode.verifyRename at hv
  split_ifs at hv
  rw [hcache] at hv
  dsimp only at hv
  rw [h.docs _ c hcache, hid] at hv
  exact hv

/-- A step that respects the names keeps them vouched for. -/
theorem Kept.of_respects {e : NameEvent} (h : w.Kept E U) (hr : w.Respects E U e)
    (hl : (w.node.exec E U e).localDid = w.node.localDid) (hlinked : (w.node.exec E U e).Linked U)
    (hknown : ∀ d nm, (w.node.exec E U e).known U d = some nm →
      w.vouched d nm ∨ w.node.SpeaksFor E d e ∧ (w.node.exec E U e).registry.getUsername d = some nm)
    (hsigned : ∀ r ∈ (w.node.exec E U e).renames, r.Signed E)
    (hdocs : ∀ (k : String) (c : CachedDid), (w.node.exec E U e).didCache[k]? = some c →
      c.getVerifyingKey E = some (E.keyOf c.id)) : ((nameSys E U).step w e).Kept E U := by
  refine ⟨hlinked, fun d hd nm hnm => ?_, hknown, hsigned, hdocs⟩
  have hd' : d ≠ w.node.localDid := fun heq => hd (heq.trans hl.symm)
  by_cases hsame : (w.node.exec E U e).registry.getUsername d = w.node.registry.getUsername d
  · exact Or.inl (h.vouchedName d hd' nm (hsame ▸ hnm))
  · rcases hr.peers d hd' hsame with hs | ⟨-, hv⟩
    · exact Or.inr ⟨hs, hnm⟩
    · exact Or.inl (hv nm hnm)

/-- What speaks for a did learns its name, and leaves the rest alone. -/
theorem Kept.learn {f : Faults} {name : String} {disc : UInt32} {e : NameEvent} (rs : List UsernameChanged)
    (h : w.Kept E U) (hn : w.node.exec E U e = NameNode.learnName { w.node with renames := rs } U f d name disc)
    (hrs : ∀ r ∈ rs, r.Signed E) (hm : w.node.MayLearn U f d name disc) (hs : w.node.SpeaksFor E d e) :
    w.Respects E U e ∧ ((nameSys E U).step w e).Kept E U := by
  have hlinked : NameNode.Linked U { w.node with renames := rs } :=
    ⟨h.linked.covers, h.linked.kept, h.linked.own, h.linked.notOwn⟩
  have hr : w.Respects E U e := by
    refine .of_steady (hn ▸ NameNode.steady_learnName hm) fun a => ?_
    by_cases ha : a = d
    · exact Or.inr ⟨ha ▸ hm.1, ha ▸ hs⟩
    · refine Or.inl ?_
      rw [hn]
      show (NameNode.learnName _ U f d name disc).registry.dir.name a = _
      rw [NameNode.dir_learnName, Directory.load_name, Function.update_of_ne ha]
      rfl
  refine ⟨hr, h.of_respects hr (by rw [hn]; rfl) (hn ▸ hlinked.learnName hm) (fun a nm ha => ?_) (hn ▸ hrs)
    (hn ▸ h.docs)⟩
  rw [hn, NameNode.known_learnName hm.2.2, Function.update_apply] at ha
  split_ifs at ha with had
  · refine Or.inr ⟨had ▸ hs, ?_⟩
    rw [hn, had]
    show (NameNode.learnName _ U f d name disc).registry.dir.name d = _
    rw [NameNode.dir_learnName, Directory.load_name, Function.update_self, ha]
  · exact Or.inl (h.vouchedKnown a nm ha)

/-- A document that verifies is cached, under its did and its display name. -/
theorem Kept.docs_cacheDid {c₀ : CachedDid} (h : w.Kept E U) (hc₀ : c₀.getVerifyingKey E = some (E.keyOf c₀.id))
    (k : String) (c : CachedDid) (hk : (w.node.cacheDid c₀).didCache[k]? = some c) :
    c.getVerifyingKey E = some (E.keyOf c.id) := by
  have hid : ∀ c : CachedDid, (w.node.didCache.insert c₀.id c₀)[k]? = some c →
      c.getVerifyingKey E = some (E.keyOf c.id) := by
    intro c hk
    rw [get_insert] at hk
    split_ifs at hk
    · cases hk
      exact hc₀
    · exact h.docs k c hk
  unfold NameNode.cacheDid at hk
  dsimp only at hk
  split at hk
  · rw [get_insert] at hk
    split_ifs at hk
    · cases hk
      exact hc₀
    · exact hid c hk
  · exact hid c hk

/-- A step that touches neither the registry nor the files. -/
theorem Kept.quiet {e : NameEvent} (rs : List UsernameChanged) (cache : SledTree CachedDid) (h : w.Kept E U)
    (hn : w.node.exec E U e = { w.node with renames := rs, didCache := cache }) (hrs : ∀ r ∈ rs, r.Signed E)
    (hdocs : ∀ (k : String) (c : CachedDid), cache[k]? = some c → c.getVerifyingKey E = some (E.keyOf c.id)) :
    w.Respects E U e ∧ ((nameSys E U).step w e).Kept E U := by
  have hr : w.Respects E U e := .of_registry (by rw [hn])
  refine ⟨hr, h.of_respects hr (by rw [hn]) ?_ (fun d nm hd => Or.inl ?_) (hn ▸ hrs) (hn ▸ hdocs)⟩
  · rw [hn]
    exact ⟨h.linked.covers, h.linked.kept, h.linked.own, h.linked.notOwn⟩
  · rw [hn] at hd
    exact h.vouchedKnown d nm hd

theorem Kept.still {e : NameEvent} (h : w.Kept E U) (hn : w.node.exec E U e = w.node) :
    w.Respects E U e ∧ ((nameSys E U).step w e).Kept E U :=
  h.quiet w.node.renames w.node.didCache hn h.signed h.docs

theorem Kept.resolved {e : NameEvent} {net : UsernameNet} {r : UsernameRegistry} (h : w.Kept E U)
    (hn : w.node.exec E U e = { w.node with registry := r }) (hr : w.node.Resolved E U net r)
    (hs : ∀ d, (∃ peer found, net.sendIdentityRequest peer = .ok (some found) ∧ found.Authentic E peer d) →
      w.node.SpeaksFor E d e) : w.Respects E U e ∧ ((nameSys E U).step w e).Kept E U := by
  have hres : w.Respects E U e := by
    refine .of_steady (hn ▸ hr.steady) fun d => ?_
    rw [hn]
    exact (hr.names d).imp_right fun ⟨hne, ha⟩ => ⟨hne, hs d ha⟩
  refine ⟨hres, h.of_respects hres (by rw [hn]) (hn ▸ h.linked.withRegistry hr) (fun d nm hd => Or.inl ?_)
    (hn ▸ h.signed) (hn ▸ h.docs)⟩
  rw [hn] at hd
  exact h.vouchedKnown d nm hd

theorem Kept.registered {username : String} {draws : List UInt32} {persisted : Bool} {disc : UInt32} (h : w.Kept E U)
    (hfree : (w.node.registry.evict w.node.localDid).isFree (U.toLowercase username) disc = true)
    (hn : w.node.exec E U (.register username draws persisted) = { w.node with
      registry := (w.node.registry.evict w.node.localDid).insert (U.toLowercase username) disc w.node.localDid
      identityName := some (username, disc) }) :
    w.Respects E U (.register username draws persisted) ∧
      ((nameSys E U).step w (.register username draws persisted)).Kept E U := by
  have hother : ∀ d, d ≠ w.node.localDid →
      ((w.node.registry.evict w.node.localDid).insert (U.toLowercase username) disc w.node.localDid).dir.name d =
        w.node.registry.dir.name d := by
    intro d hd
    rw [dir_insert, dir_evict, Directory.give_name, if_neg hd, Directory.drop_name, Function.update_of_ne hd]
  have hr : w.Respects E U (.register username draws persisted) := by
    refine ⟨fun d hd hne => ?_, fun _ => ⟨_, _, _, rfl⟩, fun name disc' d c hd hc => ?_⟩
    · rw [hn] at hne
      exact (hne (hother d hd)).elim
    · rw [hn] at hc
      exact h.linked.steady_register hfree _ d c hd hc
  refine ⟨hr, h.of_respects hr (by rw [hn]) ?_ (fun d nm hd => Or.inl ?_) (hn ▸ h.signed) (hn ▸ h.docs)⟩
  · rw [hn]
    exact h.linked.register hfree
  · rw [hn] at hd
    exact h.vouchedKnown d nm hd

theorem Kept.started (h : w.Kept E U) :
    w.Respects E U .start ∧ ((nameSys E U).step w .start).Kept E U := by
  obtain ⟨hw, hnames⟩ := NameNode.start_names h.linked
  have hr : w.Respects E U .start := by
    refine ⟨fun d hd _ => Or.inr ⟨rfl, fun nm hnm => ?_⟩, fun hne => ?_, fun name disc d c hd hc => ?_⟩
    · have hload := (hnames d).symm.trans hnm
      unfold NameNode.loaded at hload
      rw [Function.update_of_ne hd] at hload
      exact h.vouchedKnown d nm hload
    · refine (hne ?_).elim
      refine (hnames w.node.localDid).trans ?_
      unfold NameNode.loaded
      rw [Function.update_self]
      exact h.linked.own.symm
    · exact hw.steady h.linked.covers_loaded _ d c hd hc
  refine ⟨hr, h.of_respects hr rfl h.linked.start (fun d nm hd => Or.inl (h.vouchedKnown d nm hd)) ?_ ?_⟩
  · intro r hr
    cases hr
  · intro k c hk
    simp [NameNode.exec, NameNode.start] at hk

/-- A sound step respects the names, and keeps the invariant. -/
theorem Kept.step {e : NameEvent} (h : w.Kept E U) (hs : w.node.Sound E U e) :
    w.Respects E U e ∧ ((nameSys E U).step w e).Kept E U := by
  cases e with
  | rename r now allowed =>
    by_cases hok : (allowed && w.node.verifyRename E r now) = true
    · refine h.quiet (w.node.renames ++ [r]) w.node.didCache ?_ ?_ h.docs
      · simp only [NameNode.exec, NameNode.handleRenameEvent, hok, if_true]
      · obtain ⟨ha, hv⟩ := Bool.and_eq_true_iff.1 hok
        intro r' hr'
        rcases List.mem_append.1 hr' with hr' | hr'
        · exact h.signed r' hr'
        · obtain rfl := List.mem_singleton.1 hr'
          exact h.signed_of_verify (hs ha hv) hv
    · refine h.still ?_
      simp only [NameNode.exec, NameNode.handleRenameEvent, hok]
      rfl
  | routeRename f =>
    cases hq : w.node.renames with
    | nil =>
      refine h.still ?_
      simp only [NameNode.exec, NameNode.routeRename, hq]
    | cons r rest =>
      have hsigned := h.signed r (by simp [hq])
      refine h.learn rest ?_ ?_ (hs r (by simp [hq])) ⟨r, by simp [hq], rfl, hsigned⟩
      · simp only [NameNode.exec, NameNode.routeRename, hq]
      · exact fun r' hr' => h.signed r' (by simp [hq, hr'])
  | missed k =>
    refine h.quiet (w.node.renames.drop k) w.node.didCache rfl ?_ h.docs
    exact fun r hr => h.signed r (List.mem_of_mem_drop hr)
  | response peer found f =>
    cases hdoc : found.didDocument with
    | none =>
      refine h.still ?_
      simp only [NameNode.exec, NameNode.routeResponse, hdoc]
    | some doc =>
      cases hc : found.cached doc with
      | none =>
        refine h.still ?_
        simp only [NameNode.exec, NameNode.routeResponse, hdoc, hc]
      | some nm =>
        obtain ⟨ha, hm⟩ := hs doc nm.1 nm.2 hdoc hc
        refine h.learn w.node.renames ?_ h.signed hm ha
        simp only [NameNode.exec, NameNode.routeResponse, hdoc, hc]
  | verified found =>
    cases hdoc : found.didDocument with
    | none =>
      refine h.still ?_
      simp only [NameNode.exec, NameNode.handleIdentityResponse, hdoc]
    | some doc =>
      by_cases hv : (CachedDid.ofProto doc found.documentSignature).verifyDocument E = true
      · have hkey : (CachedDid.ofProto doc found.documentSignature).getVerifyingKey E =
            some (E.keyOf (CachedDid.ofProto doc found.documentSignature).id) := by
          have hv' := hv
          unfold CachedDid.verifyDocument at hv'
          split at hv'
          · rename_i key _ hkey
            rw [hkey, hs doc key hdoc hv hkey]
            rfl
          · cases hv'
        refine h.quiet w.node.renames (w.node.cacheDid (.ofProto doc found.documentSignature)).didCache ?_ h.signed
          (h.docs_cacheDid hkey)
        simp only [NameNode.exec, NameNode.handleIdentityResponse, hdoc, hv, if_true]
        rfl
      · refine h.still ?_
        simp only [NameNode.exec, NameNode.handleIdentityResponse, hdoc, hv]
        rfl
  | resolve net username =>
    obtain ⟨r, hn, hr⟩ := NameNode.resolved_resolveThrough true (fun _ => "DHT lookup failed") h.linked hs
    exact h.resolved hn hr fun d hd => hd
  | resolveInvitee net invitee =>
    rcases NameNode.resolveInviteeDid_cases (n := w.node) U net invitee with hn | ⟨text, hn⟩
    · exact h.still hn
    · obtain ⟨r, hr', hr⟩ := NameNode.resolved_resolveThrough false text h.linked hs
      exact h.resolved (hn.trans hr') hr fun d hd => hd
  | register username draws persisted =>
    rcases NameNode.registerUsername_cases hs with hn | ⟨disc, hfree, hn⟩
    · exact h.still hn
    · exact h.registered hfree hn
  | start => exact h.started

/-- In every run whose steps are sound, each step changes a name only by the word of its did, and takes no name
from anybody. -/
theorem sound_runs_respect {e : NameEvent}
    (h : StepSystem.Reach (nameSys E U) (fun w e => w.node.Sound E U e) w) (hs : w.node.Sound E U e) :
    w.Respects E U e := by
  refine (Kept.step (h.invariant (I := NameWorld.Kept E U) ?_ fun w e hk hg => (hk.step hg).2) hs).1
  intro w hinit
  obtain ⟨hr, hp, hi, hc, hq, hv⟩ := hinit
  have hpeer : w.node.peerName = fun _ => none := by
    funext d
    simp [NameNode.peerName, hp]
  have hknown : w.node.known U = fun _ => none := by
    funext d
    simp [NameNode.known, hpeer]
  refine ⟨⟨?_, ?_, ?_, ?_⟩, ?_, ?_, ?_, ?_⟩
  · rw [hr, dir_new]
    exact Directory.Within.covers (p := fun _ => none) .empty
  · intro d nm hd
    simp [hknown] at hd
  · rw [hr, dir_new]
    simp [NameNode.ownName, hi, Directory.empty]
  · rw [hpeer]
  · intro d _ nm hd
    simp [hr, getUsername, new] at hd
  · intro d nm hd
    simp [hknown] at hd
  · intro r hr'
    simp [hq] at hr'
  · intro k c hk
    simp [hc] at hk

end NameWorld

/-! A peer that is renamed by a stranger -/

namespace NameAuthority

/-- A signature is the key before the message. -/
def ideal : Ed25519 where
  validKey _ := true
  verify key message signature := signature = key ++ message
  encodeDocument doc := utf8Bytes doc.id
  keyOf d := if d = "did:b" then List.replicate 32 1 else List.replicate 32 0
  peerId key := String.ofList (key.map fun b => Char.ofNat b.toNat)

def ascii : Unicode := ⟨String.toLower, Char.isAlphanum⟩

def fresh : NameNode :=
  { localDid := "did:a", registry := .new, peerNames := ∅, identityName := none, didCache := ∅, renames := [] }

def blank : NameWorld := ⟨fresh, fun _ _ => False⟩

theorem blank_init : (nameSys ideal ascii).init blank := ⟨rfl, rfl, rfl, rfl, rfl, fun _ _ h => h⟩

def document : DidDocument := ⟨"did:b", [⟨"Ed25519VerificationKey2020", List.replicate 32 1⟩], none⟩

/-- What did:b answers about itself. -/
def answer : FoundName :=
  ⟨some document, some "Bob", some 7, List.replicate 32 1 ++ utf8Bytes "did:b"⟩

def introduces : NameEvent := .response (ideal.peerId (List.replicate 32 1)) answer noFaults

/-- Nobody signed this. -/
def forged : UsernameChanged := ⟨"did:b", "mallory", 1, [0], 1⟩

def run (es : List NameEvent) : NameWorld := es.foldl (nameSys ideal ascii).step blank

/-- Before its document is cached did:b is renamed by whoever likes. -/
theorem stranger_renames : ¬ ∀ (w : NameWorld) (e : NameEvent), StepSystem.Reachable (nameSys ideal ascii) w →
    w.Respects ideal ascii e := by
  intro h
  have hr := h (run [introduces, .rename forged 1 true]) (.routeRename noFaults)
    (StepSystem.reachable_foldl (.init blank_init) _)
  rcases hr.peers "did:b" (by decide +kernel) (by decide +kernel) with hs | ⟨hs, -⟩
  · obtain ⟨r, hmem, -, hsigned⟩ := hs
    have hq : (run [introduces, .rename forged 1 true]).node.renames.head?.map (·.signature) = some [0] := by
      decide +kernel
    rw [Option.mem_def.1 hmem] at hq
    have hsig : r.signature = [0] := by simpa using hq
    have heq : r.signature = ideal.keyOf r.did ++ r.payload := of_decide_eq_true hsigned
    have hlen : 32 ≤ r.signature.length := by
      rw [heq, List.length_append]
      have : (ideal.keyOf r.did).length = 32 := by
        unfold ideal
        dsimp only
        split_ifs <;> simp
      omega
    rw [hsig] at hlen
    simp at hlen
  · cases hs

theorem document_verifies :
    (CachedDid.ofProto document (List.replicate 32 1 ++ utf8Bytes "did:b")).verifyDocument ideal = true := by
  decide +kernel

/-- did:b is called what it says it is called. -/
theorem answer_respected : blank.Respects ideal ascii introduces :=
  NameWorld.sound_runs_respect (.init blank_init) (by
    intro doc name disc hdoc hname
    obtain rfl : document = doc := Option.some.inj hdoc
    refine ⟨⟨document, rfl, rfl, document_verifies, by decide +kernel, rfl⟩, by decide, ?_, rfl⟩
    intro d hd
    simp [blank, fresh, lookupExact, new] at hd)

end NameAuthority

end Variance
