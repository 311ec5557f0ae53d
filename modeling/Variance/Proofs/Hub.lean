import Variance.Proofs.PresenceTracking
import Variance.Spec.Hub

/-! A page that was told who is connected ends where the node is: what the node has sent since waits for it in the
queue that was there before, and the last word on a peer is the right one. -/

namespace Variance

/-! The page -/

namespace PresencePage
variable {p : PresencePage} {did d : Did} {b : Bool} {m : WsFrame}

theorem isOnline_setPresence : (p.setPresence did b).isOnline = Function.update p.isOnline did b := by
  funext d
  unfold isOnline setPresence
  rw [InsertionMap.get_set, Function.update_apply]
  by_cases hd : d = did
  · rw [if_pos hd.symm, if_pos hd]
    rfl
  · rw [if_neg (Ne.symm hd), if_neg hd]

theorem isOnline_handle : (p.handle m).isOnline = Replay.apply p.isOnline m.write.toList := by
  cases m with
  | presenceUpdated did online displayName =>
    refine Eq.trans ?_ isOnline_setPresence
    unfold handle
    dsimp only
    split
    · split_ifs
      · rfl
      · rfl
    · rfl
  | peerRenamed did displayName => rfl
  | other variant data => rfl

theorem get_foldl_true {dids : List Did} {m : InsertionMap Did Bool} :
    (dids.foldl (fun m did => m.set did true) m).get d = if d ∈ dids then some true else m.get d := by
  induction dids generalizing m with
  | nil => simp
  | cons did dids ih =>
    rw [List.foldl_cons, ih, InsertionMap.get_set]
    by_cases hd : d ∈ dids
    · rw [if_pos hd, if_pos (List.mem_cons_of_mem _ hd)]
    · by_cases heq : did = d
      · rw [if_neg hd, if_pos heq, if_pos (List.mem_cons.2 (Or.inl heq.symm))]
      · rw [if_neg hd, if_neg heq, if_neg fun h => (List.mem_cons.1 h).elim (fun h => heq h.symm) hd]

theorem isOnline_syncPresence {dids : List Did} : (p.syncPresence dids).isOnline d = decide (d ∈ dids) := by
  unfold isOnline syncPresence
  dsimp only
  rw [get_foldl_true, InsertionMap.get_filterMap]
  by_cases hd : d ∈ dids
  · rw [if_pos hd, decide_eq_true hd]
    rfl
  · rw [if_neg hd, decide_eq_false hd]
    cases p.presenceMap.get d <;> rfl

end PresencePage

/-! The node -/

namespace PresenceNode
variable {E : Ed25519} {n n' : PresenceNode} {d : Did} {new : List MapEvent}

def Online (n : PresenceNode) (d : Did) : Prop := d ∈ n.map.didToPeer.keys

instance (n : PresenceNode) (d : Did) : Decidable (n.Online d) := inferInstanceAs (Decidable (d ∈ n.map.didToPeer.keys))

theorem online_iff : n.Online d ↔ n.map.didToPeer[d]? ≠ none := by
  unfold Online
  rw [Std.ExtTreeMap.mem_keys, Std.ExtTreeMap.mem_iff_isSome_getElem?, Option.isSome_iff_ne_none]

/-- Of whom the node is about to say that they are connected. -/
def Announces (n : PresenceNode) (d : Did) : Prop := .didCached d ∈ n.announcing

/-- A step that sends these events: whoever they are about, and is not announced again, is as they say; nothing has
changed for the others. -/
structure Says (n n' : PresenceNode) (new : List MapEvent) : Prop where
  events : n'.map.events = n.map.events ++ new
  told : ∀ d view, ¬ n'.Announces d → Replay.Writes (MapEvent.writes new) d →
    Replay.apply view (MapEvent.writes new) d = decide (n'.Online d)
  same : ∀ d, ¬ n'.Announces d → ¬ Replay.Writes (MapEvent.writes new) d → ¬ n.Announces d ∧ (n'.Online d ↔ n.Online d)
  announced : ∀ d, n'.Announces d → n'.Online d
  cached : ∀ e ∈ n'.announcing, ∃ d, e = .didCached d

/-- What a node keeps: who is about to be announced is connected, and whoever is not is as was last said. -/
structure Honest (n : PresenceNode) : Prop where
  cached : ∀ e ∈ n.announcing, ∃ d, e = .didCached d
  announced : ∀ d, n.Announces d → n.Online d
  told : ∀ d, ¬ n.Announces d → Replay.apply (fun _ => false) (MapEvent.writes n.map.events) d = decide (n.Online d)

theorem writes_cached {dids : List Did} : Replay.Writes (MapEvent.writes (dids.map .didCached)) d ↔ d ∈ dids := by
  unfold Replay.Writes
  rw [List.map_map, List.map_map]
  simp [MapEvent.write]

theorem writes_offline {dids : List Did} : Replay.Writes (MapEvent.writes (dids.map .peerOffline)) d ↔ d ∈ dids := by
  unfold Replay.Writes
  rw [List.map_map, List.map_map]
  simp [MapEvent.write]

theorem apply_cached {dids : List Did} {view : Did → Bool} (h : d ∈ dids) :
    Replay.apply view (MapEvent.writes (dids.map .didCached)) d = true := by
  refine Replay.apply_eq_of_forall (writes_cached.2 h) fun w hw _ => ?_
  rw [MapEvent.writes, List.map_map] at hw
  obtain ⟨d', -, rfl⟩ := List.mem_map.1 hw
  rfl

theorem apply_offline {dids : List Did} {view : Did → Bool} (h : d ∈ dids) :
    Replay.apply view (MapEvent.writes (dids.map .peerOffline)) d = false := by
  refine Replay.apply_eq_of_forall (writes_offline.2 h) fun w hw _ => ?_
  rw [MapEvent.writes, List.map_map] at hw
  obtain ⟨d', -, rfl⟩ := List.mem_map.1 hw
  rfl

/-! An operation of the map -/

/-- An operation that opens the map, and says so of nobody else. -/
theorem Says.of_opens (hn : n.Honest) {dids : List Did} (hm : n.map.Opens n'.map dids)
    (hmapped : ∀ d ∈ dids, n'.Online d) (hann : n'.announcing = n.announcing) :
    n.Says n' (dids.map .didCached) where
  events := hm.events
  told d view _ hd := by
    rw [writes_cached] at hd
    rw [apply_cached hd, decide_eq_true (hmapped d hd)]
  same d hd hw := by
    rw [writes_cached] at hw
    unfold Announces at hd ⊢
    rw [hann] at hd
    refine ⟨hd, ?_⟩
    rw [online_iff, online_iff]
    constructor
    · intro h hnone
      exact hw (hm.fresh d hnone h)
    · intro h hnone
      exact h (hm.kept d hnone)
  announced d hd := by
    have hold : n.Announces d := by
      unfold Announces at hd ⊢
      rwa [hann] at hd
    rw [online_iff]
    exact fun hnone => online_iff.1 (hn.announced d hold) (hm.kept d hnone)
  cached := by
    rw [hann]
    exact hn.cached

theorem opens_learn_mapped (n : MapNode) (f : Faults) (did : Did) (peer : PeerId) :
    ∃ dids, n.Opens (n.learn f did peer) dids ∧ ∀ d ∈ dids, (n.learn f did peer).didToPeer[d]? ≠ none := by
  by_cases hnew : n.didToPeer[did]? ≠ some peer
  · refine ⟨[did], .insert rfl (if_pos hnew), fun d hd => ?_⟩
    obtain rfl := List.mem_singleton.1 hd
    change (n.didToPeer.insert d peer)[d]? ≠ none
    rw [get_insert, if_pos rfl]
    exact Option.some_ne_none _
  · obtain ⟨dids, hm⟩ := MapNode.Opens.learn n f did peer
    have hsame : (n.learn f did peer).events = n.events := if_neg hnew
    have hempty : dids = [] := by
      have hlength := congrArg List.length (hsame.symm.trans hm.events)
      simpa using hlength
    subst hempty
    exact ⟨[], hm, by simp⟩

theorem opens_runTask_mapped (E : Ed25519) (n : MapNode) (f : Faults) (task : MapTask) :
    ∃ dids, n.Opens (n.runTask E f task) dids ∧ ∀ d ∈ dids, (n.runTask E f task).didToPeer[d]? ≠ none := by
  cases task with
  | learn did peer => exact opens_learn_mapped n f did peer
  | verify document signature peer =>
    unfold MapNode.runTask
    dsimp only
    split_ifs
    · refine ⟨[document.id], .insert rfl rfl, fun d hd => ?_⟩
      obtain rfl := List.mem_singleton.1 hd
      rw [get_insert, if_pos rfl]
      exact Option.some_ne_none _
    · exact ⟨[], .same rfl rfl, by simp⟩

/-! The steps -/

/-- One that changes neither the map nor what is said of it. -/
theorem Says.same_map (hn : n.Honest) {map : MapNode} {limiter : PeerRateLimiter} {connections : PeerId → ℕ}
    (hm : n.map.Opens map []) : n.Says { n with map, limiter, connections } [] :=
  @of_opens n { n with map, limiter, connections } hn [] hm (by simp) rfl

theorem says_runTask (hn : n.Honest) (f : Faults) (i : ℕ) : n.Says (n.runTask E f i) [] := by
  unfold PresenceNode.runTask
  cases n.map.tasks[i]? with
  | none => exact .same_map hn (.same rfl rfl)
  | some task =>
    obtain ⟨dids, hm, hmapped⟩ :=
      opens_runTask_mapped E { n.map with tasks := n.map.tasks.eraseIdx i, events := [] } f task
    dsimp only at hm ⊢
    refine ⟨(List.append_nil _).symm, fun d view _ hd => absurd hd Replay.not_writes_nil, fun d hd _ => ?_,
      fun d hd => ?_, fun e he => ?_⟩
    · unfold Announces at hd
      dsimp only at hd
      rw [hm.events, List.mem_append, not_or] at hd
      refine ⟨hd.1, ?_⟩
      rw [online_iff, online_iff]
      constructor
      · intro h hnone
        exact hd.2 (by simpa using hm.fresh d hnone h)
      · intro h hnone
        exact h (hm.kept d hnone)
    · unfold Announces at hd
      dsimp only at hd
      rw [hm.events, List.mem_append] at hd
      rw [online_iff]
      rcases hd with hold | hnew
      · exact fun hnone => online_iff.1 (hn.announced d hold) (hm.kept d hnone)
      · exact hmapped d (by simpa using hnew)
    · rcases List.mem_append.1 he with hold | hnew
      · exact hn.cached e hold
      · rw [hm.events] at hnew
        obtain ⟨d, -, rfl⟩ := List.mem_map.1 hnew
        exact ⟨d, rfl⟩

theorem says_announce (hn : n.Honest) (i : ℕ) : ∃ new, n.Says (n.announce i) new := by
  unfold PresenceNode.announce
  cases hi : n.announcing[i]? with
  | none => exact ⟨[], .same_map hn (.same rfl rfl)⟩
  | some e =>
    obtain ⟨d₀, rfl⟩ := hn.cached e (List.mem_of_getElem? hi)
    have hmem : MapEvent.didCached d₀ ∈ n.announcing := List.mem_of_getElem? hi
    refine ⟨[d₀].map .didCached, rfl, fun d view _ hd => ?_, fun d hd hw => ?_, fun d hd => ?_,
      fun e he => hn.cached e (List.mem_of_mem_eraseIdx he)⟩
    · rw [writes_cached] at hd
      rw [apply_cached hd]
      obtain rfl := List.mem_singleton.1 hd
      exact (decide_eq_true (hn.announced d hmem)).symm
    · rw [writes_cached, List.mem_singleton] at hw
      refine ⟨fun hold => hd ?_, Iff.rfl⟩
      exact StepSystem.mem_eraseIdx_of_ne hi hold fun heq => hw (MapEvent.didCached.inj heq)
    · exact hn.announced d (List.mem_of_mem_eraseIdx hd)

theorem says_closed (hn : n.Honest) {peer : PeerId} (hg : ∀ d, n.Maps d peer → ¬ n.Announces d) :
    ∃ new, n.Says (n.step E (.connectionClosed peer)) new := by
  have honline : ∀ d, (n.step E (.connectionClosed peer)).Online d ↔ n.Online d ∧ ¬ n.Maps d peer := by
    intro d
    rw [online_iff, online_iff]
    have hget : (n.step E (.connectionClosed peer)).map.didToPeer[d]? = none ↔
        ∀ p, n.map.didToPeer[d]? = some p → p = peer := get_filter_ne
    rw [ne_eq, hget]
    unfold Maps
    cases n.map.didToPeer[d]? <;> simp
  have hmem : ∀ d, d ∈ (n.map.didToPeer.filter fun _ p => p = peer).keys ↔ n.Maps d peer := fun d => mem_offline_keys
  refine ⟨_, closed_events n peer, fun d view _ hd => ?_, fun d hd hw => ?_, fun d hd => ?_, hn.cached⟩
  · rw [writes_offline] at hd
    rw [apply_offline hd, eq_comm, decide_eq_false_iff_not, honline]
    exact fun h => h.2 ((hmem d).1 hd)
  · rw [writes_offline, hmem] at hw
    exact ⟨hd, by rw [honline]; exact and_iff_left hw⟩
  · rw [honline]
    exact ⟨hn.announced d hd, fun hmaps => hg d hmaps hd⟩

/-- Whatever comes to the node. -/
theorem says_step (hn : n.Honest) {e : PresenceEvent}
    (hg : ∀ peer, e = .connectionClosed peer → ∀ d, n.Maps d peer → ¬ n.Announces d) :
    ∃ new, n.Says (n.step E e) new := by
  cases e with
  | connectionEstablished peer => exact ⟨[], .same_map hn (.same rfl rfl)⟩
  | connectionClosed peer => exact says_closed hn (hg peer rfl)
  | gossip source message tokens => exact ⟨[], .same_map hn (.handleGossip ..)⟩
  | directMessage peer request tokens f =>
    unfold step
    dsimp only
    unfold MapNode.handleDirectMessage
    split_ifs
    · obtain ⟨dids, hm, hmapped⟩ := opens_learn_mapped n.map f request.senderDid peer
      exact ⟨_, .of_opens hn hm (fun d hd => online_iff.2 (hmapped d hd)) rfl⟩
    · exact ⟨[], .same_map hn (.same rfl rfl)⟩
  | identityRequest peer query tokens => exact ⟨[], .same_map hn (.handleIdentityRequest ..)⟩
  | request peer label tokens => exact ⟨[], .same_map hn (.same rfl rfl)⟩
  | identityResponse peer result => exact ⟨[], .same_map hn (.handleIdentityResponse ..)⟩
  | runTask i f => exact ⟨[], says_runTask hn f i⟩
  | announce i => exact says_announce hn i

theorem Says.honest (h : n.Says n' new) (hn : n.Honest) : n'.Honest where
  cached := h.cached
  announced := h.announced
  told d hd := by
    rw [h.events, MapEvent.writes, List.map_append]
    by_cases hw : Replay.Writes (MapEvent.writes new) d
    · rw [Replay.apply_append]
      exact h.told d _ hd hw
    · obtain ⟨hd', honline⟩ := h.same d hd hw
      rw [Replay.apply_append, Replay.apply_of_not_writes hw, hn.told d hd', decide_eq_decide]
      exact honline.symm

end PresenceNode

/-! The manager -/

namespace WebSocketManager
variable {m : WebSocketManager} {id clientId : String} {frame : WsFrame} {client : ConnectedClient}
  {f : ConnectedClient → ConnectedClient}

theorem get_broadcast : (m.broadcast frame).clients.get id = (m.clients.get id).map fun client =>
    if client.subscriptions.accepts frame.category then client.send frame else client := by
  unfold broadcast
  dsimp only
  rw [InsertionMap.get_filterMap]
  cases m.clients.get id <;> rfl

theorem get_modify : (m.modify clientId f).clients.get id =
    if clientId = id then (m.clients.get id).map f else m.clients.get id := by
  unfold modify
  cases hget : m.clients.get clientId with
  | none =>
    split_ifs with hid
    · rw [← hid, hget]
      rfl
    · rfl
  | some client =>
    dsimp only
    rw [InsertionMap.get_set]
    split_ifs with hid
    · rw [← hid, hget]
      rfl
    · rfl

end WebSocketManager

namespace PresenceHub
variable {E : Ed25519} {w w' : PresenceHub} {s s' : Socket} {client client' : ConnectedClient} {id : String} {d : Did}

/-- What a connection keeps. -/
structure Link (w : PresenceHub) (s : Socket) (client : ConnectedClient) : Prop where
  subscribed : client.subscriptions.presence = true
  told : ∀ d view, ¬ w.node.Announces d → Replay.Writes (w.underWay s client) d →
    Replay.apply view (w.underWay s client) d = decide (w.node.Online d)
  shown : Told s → ∀ d, d ≠ w.localDid → ¬ w.node.Announces d → ¬ Replay.Writes (w.underWay s client) d →
    s.page.isOnline d = decide (w.node.Online d)
  early : s.serving = false → s.wire.filterMap WsFrame.write = []
  blank : s.blank = true → s.polled = false → s.serving = false → ∀ d, s.page.isOnline d = false
  polls : ∀ p ∈ s.polls, p.at_ ≤ w.node.map.events.length ∧ ∀ d, ¬ w.node.Announces d →
    ¬ Replay.Writes (MapEvent.writes (w.node.map.events.drop p.at_)) d → (d ∈ p.online ↔ w.node.Online d)

structure Inv (w : PresenceHub) : Prop where
  honest : w.node.Honest
  routed : w.routed ≤ w.node.map.events.length
  links : ∀ id s, w.sockets.get id = some s → ∃ client, w.manager.clients.get id = some client ∧ w.Link s client

theorem Link.agrees (h : w.Link s client) (ht : Told s) : w.Agrees s client := by
  have harrives : ∀ did, did ≠ w.localDid → ¬ w.node.Announces did →
      Replay.apply s.page.isOnline (w.underWay s client) did = decide (w.node.Online did) := by
    intro did hl ha
    by_cases hw : Replay.Writes (w.underWay s client) did
    · exact h.told did _ ha hw
    · rw [Replay.apply_of_not_writes hw]
      exact h.shown ht did hl ha hw
  refine ⟨harrives, fun hnone did hl ha => ?_⟩
  have hnow := harrives did hl ha
  rwa [hnone] at hnow

/-- Nothing about a connection changes that is seen from it. -/
theorem Link.congr (h : w.Link s client) (hnode : w'.node = w.node) (hlocal : w'.localDid = w.localDid)
    (hsub : client'.subscriptions.presence = true) (hway : w'.underWay s' client' = w.underWay s client)
    (hpage : s'.page = s.page) (hserving : s'.serving = s.serving) (hblank : s'.blank = s.blank)
    (hpolled : s'.polled = s.polled) (hpolls : s'.polls = s.polls)
    (hearly : s.serving = false → s'.wire.filterMap WsFrame.write = s.wire.filterMap WsFrame.write) :
    w'.Link s' client' where
  subscribed := hsub
  told := by
    rw [hnode, hway]
    exact h.told
  shown ht := by
    rw [hnode, hlocal, hway, hpage]
    refine h.shown ?_
    unfold Told at ht ⊢
    rwa [hpolled, hserving, hblank] at ht
  early hs := by
    rw [hserving] at hs
    rw [hearly hs]
    exact h.early hs
  blank hb hp hs := by
    rw [hpage]
    exact h.blank (hblank ▸ hb) (hpolled ▸ hp) (hserving ▸ hs)
  polls := by
    rw [hpolls, hnode]
    exact h.polls

/-! The node -/

theorem underWay_node {n : PresenceNode} {new : List MapEvent} (hr : w.routed ≤ w.node.map.events.length)
    (hsay : w.node.Says n new) :
    underWay { w with node := n } s client = w.underWay s client ++ MapEvent.writes new := by
  unfold underWay
  dsimp only
  rw [hsay.events, List.drop_append_of_le_length hr, MapEvent.writes, List.map_append, List.append_assoc]

theorem Link.node {n : PresenceNode} {new : List MapEvent} (h : w.Link s client)
    (hr : w.routed ≤ w.node.map.events.length) (hsay : w.node.Says n new) : Link { w with node := n } s client where
  subscribed := h.subscribed
  told d view ha hw := by
    rw [underWay_node hr hsay] at hw ⊢
    rw [Replay.apply_append]
    by_cases hnew : Replay.Writes (MapEvent.writes new) d
    · exact hsay.told d _ ha hnew
    · obtain ⟨ha', honline⟩ := hsay.same d ha hnew
      rw [Replay.apply_of_not_writes hnew, h.told d view ha' ((Replay.writes_append.1 hw).resolve_right hnew),
        decide_eq_decide]
      exact honline.symm
  shown ht d hl ha hw := by
    rw [underWay_node hr hsay, Replay.writes_append, not_or] at hw
    obtain ⟨ha', honline⟩ := hsay.same d ha hw.2
    rw [h.shown ht d hl ha' hw.1, decide_eq_decide]
    exact honline.symm
  early := h.early
  blank := h.blank
  polls p hp := by
    obtain ⟨hle, hright⟩ := h.polls p hp
    dsimp only
    rw [hsay.events]
    refine ⟨hle.trans (by rw [List.length_append]; exact Nat.le_add_right _ _), fun d ha hw => ?_⟩
    rw [List.drop_append_of_le_length hle, MapEvent.writes, List.map_append, Replay.writes_append, not_or] at hw
    obtain ⟨ha', honline⟩ := hsay.same d ha hw.2
    rw [hright d ha' hw.1]
    exact honline.symm

theorem Inv.node (h : w.Inv) {e : PresenceEvent} (hg : w.Orderly (.node e)) : (w.step E (.node e)).Inv := by
  obtain ⟨new, hsay⟩ := PresenceNode.says_step (E := E) h.honest (e := e) (by
    rintro peer rfl
    exact hg)
  refine ⟨hsay.honest h.honest, ?_, fun id s hs => ?_⟩
  · show w.routed ≤ (w.node.step E e).map.events.length
    rw [hsay.events, List.length_append]
    exact h.routed.trans (Nat.le_add_right _ _)
  · obtain ⟨client, hclient, hlink⟩ := h.links id s hs
    exact ⟨client, hclient, hlink.node h.routed hsay⟩

/-! What the clients are told -/

theorem queued_send {m : WsFrame} : queued s (client.send m) = queued s client ++ m.write.toList := by
  unfold queued ConnectedClient.send
  dsimp only
  rw [← List.append_assoc, List.filterMap_append]
  cases m <;> rfl

/-- Whoever is subscribed to presences has a frame queued that is about one; other frames matter to nobody. -/
theorem queued_broadcast {m : WsFrame} (hsub : client.subscriptions.presence = true) :
    queued s (if client.subscriptions.accepts m.category then client.send m else client) =
      queued s client ++ m.write.toList := by
  cases m with
  | presenceUpdated did online name =>
    have haccepts : client.subscriptions.accepts (WsFrame.presenceUpdated did online name).category = true := hsub
    rw [if_pos haccepts, queued_send]
  | peerRenamed did name =>
    split_ifs
    · exact queued_send
    · exact (List.append_nil _).symm
  | other variant data =>
    split_ifs
    · exact queued_send
    · exact (List.append_nil _).symm

theorem subscriptions_broadcast {m : WsFrame} :
    (if client.subscriptions.accepts m.category then client.send m else client).subscriptions =
      client.subscriptions := by
  split_ifs
  · rfl
  · rfl

theorem write_frame (e : MapEvent) (displayName : Option String) : (e.frame displayName).write = some e.write := by
  cases e <;> rfl

theorem Inv.route (h : w.Inv) (displayName : Option String) : (w.step E (.route displayName)).Inv := by
  unfold step
  dsimp only
  cases he : w.node.map.events[w.routed]? with
  | none => exact h
  | some e =>
    obtain ⟨hlt, hget⟩ := List.getElem?_eq_some_iff.1 he
    refine ⟨h.honest, hlt, fun id s hs => ?_⟩
    obtain ⟨client, hclient, hlink⟩ := h.links id s hs
    dsimp only
    rw [WebSocketManager.get_broadcast, hclient]
    refine ⟨_, rfl, hlink.congr rfl rfl ?_ ?_ rfl rfl rfl rfl rfl fun _ => rfl⟩
    · rw [subscriptions_broadcast]
      exact hlink.subscribed
    · unfold underWay
      dsimp only
      rw [queued_broadcast hlink.subscribed, write_frame, List.drop_eq_getElem_cons hlt, hget, List.append_assoc]
      rfl

/-- A frame that says nothing of presences. -/
theorem Inv.tell (h : w.Inv) {m : WsFrame} (hm : m.write = none) : Inv { w with manager := w.manager.broadcast m } := by
  refine ⟨h.honest, h.routed, fun id s hs => ?_⟩
  obtain ⟨client, hclient, hlink⟩ := h.links id s hs
  dsimp only
  rw [WebSocketManager.get_broadcast, hclient]
  refine ⟨_, rfl, hlink.congr rfl rfl ?_ ?_ rfl rfl rfl rfl rfl fun _ => rfl⟩
  · rw [subscriptions_broadcast]
    exact hlink.subscribed
  · unfold underWay
    rw [queued_broadcast hlink.subscribed, hm, Option.toList_none, List.append_nil]

theorem Inv.modify (h : w.Inv) {clientId : String} {f : ConnectedClient → ConnectedClient}
    (hsub : ∀ client, client.subscriptions.presence = true → (f client).subscriptions.presence = true)
    (htx : ∀ client, (f client).tx.filterMap WsFrame.write = client.tx.filterMap WsFrame.write) :
    Inv { w with manager := w.manager.modify clientId f } := by
  refine ⟨h.honest, h.routed, fun id s hs => ?_⟩
  obtain ⟨client, hclient, hlink⟩ := h.links id s hs
  dsimp only
  rw [WebSocketManager.get_modify]
  split_ifs with hid
  · rw [hclient]
    refine ⟨_, rfl, hlink.congr rfl rfl (hsub client hlink.subscribed) ?_ rfl rfl rfl rfl rfl fun _ => rfl⟩
    unfold underWay queued
    rw [List.filterMap_append, htx, ← List.filterMap_append]
  · exact ⟨client, hclient, hlink.congr rfl rfl hlink.subscribed rfl rfl rfl rfl rfl rfl fun _ => rfl⟩

theorem filterMap_send {m : WsFrame} (hm : m.write = none) :
    (client.send m).tx.filterMap WsFrame.write = client.tx.filterMap WsFrame.write := by
  unfold ConnectedClient.send
  dsimp only
  rw [List.filterMap_append, List.filterMap_cons_none hm, List.filterMap_nil, List.append_nil]

theorem Inv.clientMessage (h : w.Inv) {clientId : String} {message : ClientMessage}
    (hg : w.Orderly (.clientMessage clientId message)) : (w.step E (.clientMessage clientId message)).Inv := by
  cases message with
  | authenticate did => exact absurd hg id
  | subscribe signaling messages presence =>
    refine h.modify (fun client hsub => ?_) fun client => rfl
    cases presence with
    | none => exact hsub
    | some b =>
      cases b with
      | false => exact absurd rfl hg
      | true => rfl
  | ping => exact h.modify (fun client hsub => hsub) fun client => filterMap_send rfl
  | sendDirectMessage => exact h
  | sendGroupMessage answer =>
    cases answer with
    | none => exact h
    | some data => exact h.modify (fun client hsub => hsub) fun client => filterMap_send rfl

/-! The connections -/

/-- Only one connection changes, by a step of its own. -/
theorem Inv.onSocket (h : w.Inv) {f : Socket → Socket} {clientId : String}
    (hf : ∀ s client, w.sockets.get clientId = some s → w.manager.clients.get clientId = some client →
      w.Link s client → w.Link (f s) client) : (w.onSocket clientId f).Inv := by
  unfold PresenceHub.onSocket
  cases hget : w.sockets.get clientId with
  | none => exact h
  | some s₀ =>
    refine ⟨h.honest, h.routed, fun id s hs => ?_⟩
    dsimp only at hs
    rw [InsertionMap.get_set] at hs
    split_ifs at hs with hid
    · obtain rfl := Option.some.inj hs
      subst hid
      obtain ⟨client, hclient, hlink⟩ := h.links clientId s₀ hget
      have hnew := hf s₀ client hget hclient hlink
      exact ⟨client, hclient, hnew.congr rfl rfl hnew.subscribed rfl rfl rfl rfl rfl rfl fun _ => rfl⟩
    · obtain ⟨client, hclient, hlink⟩ := h.links id s hs
      exact ⟨client, hclient, hlink.congr rfl rfl hlink.subscribed rfl rfl rfl rfl rfl rfl fun _ => rfl⟩

theorem Inv.connect (h : w.Inv) (clientId : String) (page : PresencePage) : (w.connect clientId page).Inv := by
  unfold PresenceHub.connect
  cases hget : w.sockets.get clientId with
  | some s => exact h
  | none =>
    refine ⟨h.honest, h.routed, fun id s hs => ?_⟩
    dsimp only at hs ⊢
    unfold WebSocketManager.register
    dsimp only
    rw [InsertionMap.get_set] at hs ⊢
    split_ifs at hs ⊢ with hid
    · obtain rfl := Option.some.inj hs
      have hsuffix : MapEvent.writes (w.node.map.events.drop w.routed) <:+ MapEvent.writes w.node.map.events :=
        (List.drop_suffix _ _).map _
      refine ⟨_, rfl, rfl, fun d view ha hw => ?_, fun ht => ?_, fun _ => rfl, fun hb _ _ d => ?_, by simp⟩
      · rw [← h.honest.told d ha]
        exact Replay.apply_suffix hsuffix hw
      · rcases ht with hp | ⟨hs, -⟩
        · cases hp
        · cases hs
      · have hempty : page.presenceMap.entries = [] := of_decide_eq_true hb
        unfold PresencePage.isOnline InsertionMap.get
        dsimp only
        rw [hempty]
        rfl
    · obtain ⟨client, hclient, hlink⟩ := h.links id s hs
      exact ⟨client, hclient, hlink.congr rfl rfl hlink.subscribed rfl rfl rfl rfl rfl rfl fun _ => rfl⟩

theorem Inv.close (h : w.Inv) (clientId : String) : (w.step E (.close clientId)).Inv := by
  refine ⟨h.honest, h.routed, fun id s hs => ?_⟩
  simp only [step, WebSocketManager.unregister] at hs ⊢
  rw [InsertionMap.get_delete] at hs ⊢
  split_ifs at hs ⊢ with hid
  obtain ⟨client, hclient, hlink⟩ := h.links id s hs
  exact ⟨client, hclient, hlink.congr rfl rfl hlink.subscribed rfl rfl rfl rfl rfl rfl fun _ => rfl⟩

theorem Inv.forward (h : w.Inv) (clientId : String) : (w.forward clientId).Inv := by
  unfold PresenceHub.forward
  split
  · rename_i s client hs hclient
    split
    · rename_i m rest hserving htx
      obtain ⟨client₀, hclient₀, hlink⟩ := h.links clientId s hs
      obtain rfl := Option.some.inj (hclient.symm.trans hclient₀)
      refine ⟨h.honest, h.routed, fun id s' hs' => ?_⟩
      dsimp only at hs' ⊢
      rw [InsertionMap.get_set] at hs' ⊢
      split_ifs at hs' ⊢ with hid
      · obtain rfl := Option.some.inj hs'
        refine ⟨_, rfl, hlink.congr rfl rfl hlink.subscribed ?_ rfl rfl rfl rfl rfl fun hnot => ?_⟩
        · unfold underWay queued
          dsimp only
          rw [htx, List.append_assoc]
          rfl
        · rw [hserving] at hnot
          cases hnot
      · obtain ⟨client', hclient', hlink'⟩ := h.links id s' hs'
        exact ⟨client', hclient', hlink'.congr rfl rfl hlink'.subscribed rfl rfl rfl rfl rfl rfl fun _ => rfl⟩
    · exact h
  · exact h

theorem mem_connectedDids : d ∈ w.connectedDids ↔ w.node.Online d := Iff.rfl

/-- The frames that say who is connected. -/
theorem filterMap_greeting {dids : List Did} {displayName : Did → Option String} :
    (dids.map fun did => WsFrame.presenceUpdated did true (displayName did)).filterMap WsFrame.write =
      MapEvent.writes (dids.map .didCached) := by
  rw [List.filterMap_map, MapEvent.writes, List.map_map, ← List.filterMap_eq_map]
  rfl

/-- What is queued already comes after the greeting, and so has the last word. -/
theorem Link.greet (h : w.Link s client) (hserving : s.serving = false) {displayName : Did → Option String} :
    w.Link { s with
      serving := true
      wire := s.wire ++ w.connectedDids.map fun did => .presenceUpdated did true (displayName did) } client := by
  set s' : Socket := { s with
      serving := true
      wire := s.wire ++ w.connectedDids.map fun did => .presenceUpdated did true (displayName did) }
  have hold : w.underWay s client =
      client.tx.filterMap WsFrame.write ++ MapEvent.writes (w.node.map.events.drop w.routed) := by
    unfold underWay queued
    rw [List.filterMap_append, h.early hserving, List.nil_append]
  have hnew : w.underWay s' client = MapEvent.writes (w.connectedDids.map .didCached) ++ w.underWay s client := by
    rw [hold]
    unfold underWay queued
    rw [List.filterMap_append, List.filterMap_append, h.early hserving, List.nil_append, filterMap_greeting,
      List.append_assoc]
  have hdone : s'.serving ≠ false := by
    intro hnot
    cases hnot
  refine ⟨h.subscribed, fun d view ha hw => ?_, fun ht d hl ha hw => ?_, fun hnot => absurd hnot hdone,
    fun _ _ hnot => absurd hnot hdone, h.polls⟩
  · rw [hnew, Replay.apply_append]
    by_cases hlater : Replay.Writes (w.underWay s client) d
    · exact h.told d _ ha hlater
    · rw [hnew, Replay.writes_append] at hw
      have hgreeted := hw.resolve_right hlater
      rw [PresenceNode.writes_cached] at hgreeted
      rw [Replay.apply_of_not_writes hlater, PresenceNode.apply_cached hgreeted]
      exact (decide_eq_true (mem_connectedDids.1 hgreeted)).symm
  · rw [hnew, Replay.writes_append, not_or, PresenceNode.writes_cached, mem_connectedDids] at hw
    cases hp : s.polled with
    | true => exact h.shown (Or.inl hp) d hl ha hw.2
    | false =>
      have hblank : s.blank = true := by
        rcases ht with hpolled | ⟨-, hblank⟩
        · exact absurd (hp.symm.trans hpolled) Bool.false_ne_true
        · exact hblank
      rw [decide_eq_false hw.1]
      exact h.blank hblank hp hserving d

theorem Link.receive (h : w.Link s client) {m : WsFrame} {rest : List WsFrame} (hwire : s.wire = m :: rest) :
    w.Link { s with page := s.page.handle m, wire := rest } client := by
  set s' : Socket := { s with page := s.page.handle m, wire := rest }
  have hway : w.underWay s client = m.write.toList ++ w.underWay s' client := by
    unfold underWay queued
    rw [hwire]
    cases m <;> rfl
  have hearly : s.serving = false → m.write.toList = [] := by
    intro hs
    have hnone := h.early hs
    rw [hwire] at hnone
    cases hm : m.write with
    | none => rfl
    | some x =>
      rw [List.filterMap_cons_some hm] at hnone
      cases hnone
  have hpage : s'.page.isOnline = Replay.apply s.page.isOnline m.write.toList := PresencePage.isOnline_handle
  refine ⟨h.subscribed, fun d view ha hw => ?_, fun ht d hl ha hw => ?_, fun hs => ?_, fun hb hp hs d => ?_, h.polls⟩
  · have hold := h.told d view ha (by rw [hway]; exact Replay.writes_append.2 (Or.inr hw))
    rw [hway, Replay.apply_append] at hold
    rw [← hold]
    exact Replay.apply_of_writes hw
  · -- the frame was the last word on the peer, or says nothing of it
    have hnow := (h.agrees ht).arrives d hl ha
    rw [hway, Replay.apply_append, Replay.apply_of_not_writes hw] at hnow
    rw [hpage]
    exact hnow
  · have hnone := h.early hs
    rw [hwire] at hnone
    cases hm : m.write with
    | none => rwa [List.filterMap_cons_none hm] at hnone
    | some x =>
      rw [List.filterMap_cons_some hm] at hnone
      cases hnone
  · rw [hpage, hearly hs]
    exact h.blank hb hp hs d

theorem Link.poll (h : w.Link s client) :
    w.Link { s with polls := s.polls ++ [⟨w.connectedDids, w.node.map.events.length⟩] } client where
  subscribed := h.subscribed
  told := h.told
  shown := h.shown
  early := h.early
  blank := h.blank
  polls p hp := by
    rcases List.mem_append.1 hp with hold | hnew
    · exact h.polls p hold
    · obtain rfl := List.mem_singleton.1 hnew
      exact ⟨le_rfl, fun d _ _ => Iff.rfl⟩

/-- What the node has sent since the answer is still to come. -/
theorem writes_drop_at {at_ : ℕ} (hq : MapEvent.writes ((w.node.map.events.take w.routed).drop at_) <:+ queued s client)
    (hw : Replay.Writes (MapEvent.writes (w.node.map.events.drop at_)) d) :
    Replay.Writes (w.underWay s client) d := by
  rw [← List.take_append_drop w.routed w.node.map.events, List.drop_append, MapEvent.writes, List.map_append,
    Replay.writes_append] at hw
  rw [underWay, Replay.writes_append]
  rcases hw with hqueued | hlater
  · exact Or.inl (hqueued.suffix hq)
  · exact Or.inr (hlater.suffix ((List.drop_suffix _ _).map _))

theorem Link.polled (h : w.Link s client) {i : ℕ} {p : PresencePoll} (hp : s.polls[i]? = some p)
    (hq : MapEvent.writes ((w.node.map.events.take w.routed).drop p.at_) <:+ queued s client) :
    w.Link { s with
      page := s.page.syncPresence (p.online ++ [w.localDid]), polls := s.polls.eraseIdx i, polled := true } client where
  subscribed := h.subscribed
  told := h.told
  shown _ d hl ha hw := by
    have hright := (h.polls p (List.mem_of_getElem? hp)).2 d ha fun hlater => hw (writes_drop_at hq hlater)
    dsimp only
    rw [PresencePage.isOnline_syncPresence, decide_eq_decide, List.mem_append, List.mem_singleton, hright]
    exact or_iff_left hl
  early := h.early
  blank _ hnot := by cases hnot
  polls p' hp' := h.polls p' (List.mem_of_mem_eraseIdx hp')

theorem Inv.step (h : w.Inv) {e : HubEvent} (hg : w.Orderly e) : (w.step E e).Inv := by
  cases e with
  | node e => exact h.node hg
  | route displayName => exact h.route displayName
  | lagged missed => exact absurd hg id
  | renamed did displayName => exact h.tell rfl
  | broadcast variant data => exact h.tell rfl
  | connect clientId page => exact h.connect clientId page
  | greet clientId answered displayName =>
    refine h.onSocket fun s client _ _ hlink => ?_
    obtain rfl : answered = true := hg
    cases hserving : s.serving with
    | true => exact hlink
    | false => exact hlink.greet hserving
  | forward clientId => exact h.forward clientId
  | receive clientId =>
    refine h.onSocket fun s client _ _ hlink => ?_
    cases hwire : s.wire with
    | nil => exact hlink
    | cons m rest => exact hlink.receive hwire
  | clientMessage clientId message => exact h.clientMessage hg
  | close clientId => exact h.close clientId
  | poll clientId => exact h.onSocket fun s client _ _ hlink => hlink.poll
  | polled clientId i =>
    refine h.onSocket fun s client hs hclient hlink => ?_
    cases hp : s.polls[i]? with
    | none => exact hlink
    | some p => exact hlink.polled hp (hg s client hs hclient p hp)

theorem inv_init (h : (hubSys E).init w) : w.Inv := by
  obtain ⟨hfresh, hrouted, -, hsockets⟩ := h
  refine ⟨⟨fun e he => ?_, fun d hd => ?_, fun d _ => ?_⟩, ?_, fun id s hs => ?_⟩
  · rw [hfresh.announcing] at he
    cases he
  · unfold PresenceNode.Announces at hd
    rw [hfresh.announcing] at hd
    cases hd
  · rw [hfresh.events, eq_comm]
    refine decide_eq_false ?_
    rw [PresenceNode.online_iff, hfresh.didToPeer]
    simp
  · rw [hrouted]
    exact Nat.zero_le _
  · rw [hsockets] at hs
    cases hs

/-- In every run that keeps the rules, whatever the peers do and however the steps of the clients fall between theirs,
each page that has been told shows its peers as the node has them. -/
theorem presence_agrees (E : Ed25519) (h : StepSystem.Reach (hubSys E) Orderly w) (hs : w.sockets.get id = some s)
    (ht : Told s) : ∃ client, w.manager.clients.get id = some client ∧ w.Agrees s client := by
  have hinv : w.Inv := h.invariant (fun _ => inv_init) fun _ _ hi hg => hi.step hg
  obtain ⟨client, hclient, hlink⟩ := hinv.links id s hs
  exact ⟨client, hclient, hlink.agrees ht⟩

/-- did:b has written over a connection when the page comes. -/
def arrival : List HubEvent :=
  [.node (.connectionEstablished "p"), .node PresenceNode.writes, .connect "c" .new, .greet "c" true fun _ => none]

def quiet : PresenceHub := ⟨PresenceNode.started, 0, .new, ∅, "did:a"⟩

def greeted : PresenceHub := arrival.foldl (hubSys PresenceNode.trusting).step quiet

theorem greeted_reach : StepSystem.Reach (hubSys PresenceNode.trusting) Orderly greeted := by
  have hg : StepSystem.Guarded (hubSys PresenceNode.trusting) Orderly quiet arrival :=
    ⟨trivial, trivial, trivial, rfl, trivial⟩
  have hquiet : (hubSys PresenceNode.trusting).init quiet := ⟨PresenceNode.started_fresh, rfl, rfl, rfl⟩
  exact StepSystem.reach_foldl (.init hquiet) hg

theorem presence_agrees_greeted : ∃ s client, greeted.sockets.get "c" = some s ∧
    greeted.manager.clients.get "c" = some client ∧ greeted.Agrees s client := by
  have hs : ∃ s, greeted.sockets.get "c" = some s ∧ s.serving = true ∧ s.blank = true := ⟨_, rfl, rfl, rfl⟩
  obtain ⟨s, hs, hserving, hblank⟩ := hs
  obtain ⟨client, hclient, hagrees⟩ :=
    presence_agrees PresenceNode.trusting greeted_reach hs (Or.inr ⟨hserving, hblank⟩)
  exact ⟨s, client, hs, hclient, hagrees⟩

end PresenceHub
end Variance
