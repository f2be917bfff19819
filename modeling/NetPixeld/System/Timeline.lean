import NetPixeld.Json.Reference
import NetPixeld.System.Following

/-!
# What a client shows of its account

However the steps of the server and of any number of clients interleave, the totals a client shows
are zero or were stored for its uuid by a tick, the updates it applies come in the order in which
the ticks stored them, and a uuid that it knows stays. This holds between frames and in the middle
of a frame.
-/

namespace NetPixeld

/-! ## What the records mean -/

/-- A written account is found again by its uuid. -/
theorem JsonDB.scan_insert {accounts : Accounts} {order : List Bytes} {uuid user : Bytes}
    {acc written : Account} (h : scan accounts order uuid = some (user, acc))
    (hwritten : written.uuid = uuid) :
    scan (accounts.insert user written) order uuid = some (user, written) := by
  induction order with
  | nil => cases h
  | cons other order ih =>
    unfold scan at h ih ⊢
    rw [List.findSome?_cons] at h ⊢
    by_cases hother : other = user
    · subst hother
      rw [SortedMap.find_insert_self]
      simp [hwritten]
    · rw [SortedMap.find_insert_of_ne _ (Ne.symm hother)]
      split at h
      · next found hfound =>
        cases h
        split at hfound
        · split at hfound
          · cases hfound
            exact absurd rfl hother
          · cases hfound
        · cases hfound
      · exact ih h

theorem JsonDB.getResources_updateResources {lib : JsonLib} {db : JsonDB} {walk : List Bytes}
    {uuid : Bytes} {pool : Resources} {io : SaveIO}
    (h : (db.updateResources lib walk uuid pool io).2 = .returned ()) :
    (db.updateResources lib walk uuid pool io).1.getResources walk uuid = .ok pool := by
  unfold updateResources modifyAccount at h ⊢
  split at h
  · next user acc hscan =>
    have hwritten : ({ acc with resources := pool } : Account).uuid = uuid :=
      (scan_eq_some hscan).2
    simp only [getResources, readAccount, commit, scan_insert hscan hwritten]
  · cases h

namespace Server

/-- A round of a tick records nothing, or totals that the store then has under the uuid. -/
theorem serveAccount_stores {lib : JsonLib} {server : Server} {walk : List Bytes} {io : SaveIO}
    {clientId : UInt8} {index : ℕ} {uuid : Bytes} {pool : Resources}
    {result : Server × Outcome Unit}
    (h : server.serveAccount lib walk io clientId index uuid pool = result) :
    result.1.stores = server.stores ∧ result.2 ≠ .returned () ∨
      result.1.stores = server.stores ++ [(uuid, pool)] ∧
        result.1.db.getResources walk uuid = .ok pool := by
  unfold serveAccount at h
  dsimp only at h
  split at h
  · next hreturned =>
    have hread := JsonDB.getResources_updateResources hreturned
    right
    unfold send at h
    split at h
    · cases h
      refine ⟨?_, hread⟩
      rw [stores, update_log, record_log, List.filterMap_append]
      rfl
    · cases h
      refine ⟨?_, hread⟩
      rw [stores, record_log, List.filterMap_append]
      rfl
  · next hfailed =>
    cases h
    exact Or.inl ⟨rfl, hfailed⟩

/-- Only what a tick stores counts. -/
theorem stores_of_log {server next : Server} {action : Action}
    (hlog : next.log = server.log ++ [action]) (haction : action.totals = none) :
    next.stores = server.stores := by
  have hnone : [action].filterMap Action.totals = [] := List.filterMap_cons_none haction
  rw [stores, stores, hlog, List.filterMap_append, hnone, List.append_nil]

/-- Totals are recorded in a round behind which the store has them. -/
theorem serve_stores {lib : JsonLib} {server : Server} {walk : List Bytes} {io : SaveIO}
    {clientId : UInt8} {entry : Bytes × Resources}
    (h : entry ∈ (server.serve lib walk io clientId).1.stores) :
    entry ∈ server.stores ∨
      (server.serve lib walk io clientId).1.db.getResources walk entry.1 = .ok entry.2 := by
  unfold serve at h ⊢
  split at h
  · exact Or.inl h
  · exact Or.inl h
  split at h
  · exact Or.inl h
  next session _ =>
  split at h
  · exact Or.inl h
  next huuid =>
  split at h
  · exact Or.inl h
  next pool _ =>
  rw [if_neg huuid]
  rcases serveAccount_stores rfl with ⟨hstores, _⟩ | ⟨hstores, hread⟩
  · rw [hstores] at h
    exact Or.inl h
  · rw [hstores] at h
    rcases List.mem_append.mp h with h | h
    · exact Or.inl h
    · obtain rfl := List.mem_singleton.mp h
      exact Or.inr hread

/-- Totals recorded by a tick are in the store between two of its rounds. -/
theorem serveAll_stores {lib : JsonLib} {walk : List Bytes} {io : UInt8 → SaveIO}
    {order : List UInt8} {server : Server} {entry : Bytes × Resources}
    (h : entry ∈ (serveAll lib walk io order server).1.stores) :
    entry ∈ server.stores ∨ ∃ served rest, order = served ++ rest ∧
      (serveAll lib walk io served server).1.db.getResources walk entry.1 = .ok entry.2 := by
  induction order generalizing server with
  | nil => exact Or.inl h
  | cons clientId rest ih =>
    have hround : ∀ {next outcome}, server.serve lib walk (io clientId) clientId = (next, outcome) →
        entry ∈ next.stores → entry ∈ server.stores ∨ ∃ served others,
          clientId :: rest = served ++ others ∧
          (serveAll lib walk io served server).1.db.getResources walk entry.1 = .ok entry.2 := by
      intro next outcome hserve hentry
      have hnext : (serveAll lib walk io [clientId] server).1 = next := by
        rw [serveAll, hserve]
        cases outcome <;> rfl
      have hstores := @serve_stores lib server walk (io clientId) clientId entry
      rw [hserve] at hstores
      rcases hstores hentry with hearlier | hread
      · exact Or.inl hearlier
      · exact Or.inr ⟨[clientId], rest, rfl, by rw [hnext]; exact hread⟩
    rw [serveAll] at h
    split at h
    · next next hserve =>
      rcases ih h with hentry | ⟨served, others, rfl, hread⟩
      · exact hround hserve hentry
      · refine Or.inr ⟨clientId :: served, others, rfl, ?_⟩
        rw [serveAll, hserve]
        exact hread
    · next result hfailed =>
      exact hround rfl h

/-- Totals are recorded by ticks only, when the store has them. -/
theorem step_stores {lib : JsonLib} {server next : Server} {event : Event}
    {entry : Bytes × Resources} (hstep : server.step lib event = some next)
    (h : entry ∈ next.stores) :
    entry ∈ server.stores ∨ ∃ order walk io served rest, event = .tick order walk io ∧
      order = served ++ rest ∧
      (serveAll lib walk io served server).1.db.getResources walk entry.1 = .ok entry.2 := by
  let recorded (now : Server) : Prop := entry ∈ now.stores → entry ∈ server.stores ∨
    ∃ order walk io served rest, event = .tick order walk io ∧ order = served ++ rest ∧
      (serveAll lib walk io served server).1.db.getResources walk entry.1 = .ok entry.2
  have hsame : ∀ {now later : Server}, recorded now → later.stores = now.stores →
      recorded later := fun hnow hstores hentry ↦ hnow (hstores ▸ hentry)
  refine @step_invariant lib recorded (fun now other ↦ now = server ∧ other = event)
    ?_ ?_ ?_ ?_ ?_ ?_ server next event (fun hentry ↦ Or.inl hentry) ⟨rfl, rfl⟩ hstep h
  · exact fun _ _ _ hnow ↦ hsame hnow rfl
  · exact fun hnow _ ↦ hsame hnow (stores_of_log rfl rfl)
  · exact fun hnow _ _ ↦ hsame hnow rfl
  · exact fun hnow _ ↦ hsame hnow (stores_of_log rfl rfl)
  · intro now index draw io before after line result hnow _ _ _ hhandled
    have hread : recorded ((now.update index fun _ ↦ after).record (.received index line)) :=
      hsame hnow (stores_of_log rfl rfl)
    cases hhandled with
    | ignored => exact hread
    | refused | unregistered | null | unsent | answered => exact hsame hread rfl
  · rintro now order walk io _ ⟨rfl, hevent⟩ _ status _ hentry
    rcases serveAll_stores hentry with hearlier | ⟨served, rest, horder, hread⟩
    · exact Or.inl hearlier
    · exact Or.inr ⟨order, walk, io, served, rest, hevent.symm, horder, hread⟩

end Server

/-! ## In the middle of a frame -/

/-- What the client shows when a frame has polled some messages of the queue. -/
def Application.polling (app : Application) (count : ℕ) : GameContext :=
  (app.pollLoop (app.ctx.net.recvQueue.take count)).1.ctx

theorem Application.polling_notices {app : Application} (hready : app.Ready)
    {notices : List Notice} (hqueue : app.ctx.net.recvQueue = notices.map Notice.message)
    (count : ℕ) :
    ∃ net, app.polling count = { (notices.take count).foldl (GameContext.receive app.ctx.shown)
      app.ctx with net := net } := by
  obtain ⟨scene, hscene, hid⟩ := hready.shown
  rw [polling, hqueue, ← List.map_take]
  cases hpolled : notices.take count with
  | nil => exact ⟨app.ctx.net, rfl⟩
  | cons notice rest =>
    let queued : Application :=
      { app with ctx.net.recvQueue := (notice :: rest).map Notice.message }
    have hloop := @pollLoop_notices queued scene hscene (notice :: rest) rfl
    have hsame : app.pollLoop ((notice :: rest).map Notice.message) =
        queued.pollLoop ((notice :: rest).map Notice.message) := rfl
    have hnet := GameContext.foldl_receive_net scene.id app.ctx queued.ctx.net (notice :: rest)
    rw [hsame, hloop, ← hid]
    refine ⟨{ queued.ctx.net with recvQueue := [] }, ?_⟩
    change ({ List.foldl _ ({ app.ctx with net := queued.ctx.net } : GameContext) _ with
      net := _ } : GameContext) = _
    rw [hnet]

/-- The state of a client follows the server. -/
structure GameContext.Truthful (ctx : GameContext) (stores : List (Bytes × Resources)) : Prop where
  /-- The totals are zero, or a tick stored them for the uuid. -/
  resources : ctx.resources = {} ∨ (ctx.uuid, ctx.resources) ∈ stores
  /-- The totals are those of the last update that was applied. -/
  last : ctx.resources = (ctx.applied.getLast?.map Prod.snd).getD {}
  /-- The applied updates are in the order of the ticks. -/
  applied : ctx.applied.Sublist stores
  own : ∀ entry ∈ ctx.applied, entry.1 = ctx.uuid

theorem GameContext.Shows.truthful {ctx : GameContext} {polled : List Notice}
    (h : ctx.Shows polled) {stores : List (Bytes × Resources)}
    (hstores : (polled.filterMap Notice.totals).Sublist stores) : ctx.Truthful stores := by
  have happlied := h.applied.trans hstores
  refine ⟨?_, h.resources, happlied, h.own⟩
  rw [h.resources]
  cases hlast : ctx.applied.getLast? with
  | none => exact Or.inl rfl
  | some entry =>
    have hmem := List.mem_of_getLast? hlast
    right
    rw [← h.own entry hmem]
    exact happlied.subset hmem

theorem Peer.Attached.stored {lib : JsonLib} {server : Server} {peer : Peer}
    {heard : List Notice} (h : peer.Attached lib server heard) :
    (heard.filterMap Notice.totals).Sublist server.stores := by
  cases hsession : peer.session with
  | none =>
    rw [(h.waiting hsession).1]
    exact List.nil_sublist _
  | some index =>
    obtain ⟨session, rest, _, hannounces, _⟩ := h.connected index hsession
    refine List.Sublist.trans ?_ hannounces.stored
    rw [List.filterMap_append]
    exact List.sublist_append_left _ _

/-- A client that has polled some messages of its queue. -/
theorem Peer.Follows.polling {lib : JsonLib} {server : Server} {peer : Peer}
    {polled queued : List Notice} (h : peer.Follows lib server polled queued) (count : ℕ) :
    (peer.app.polling count).Shows (polled ++ queued.take count) := by
  obtain ⟨net, hnet⟩ := Application.polling_notices h.ready h.queue count
  have hsingle : ∀ notice ∈ queued.take count, notice.Single := fun notice hnotice ↦
    h.attached.single notice (List.mem_append_right polled (List.mem_of_mem_take hnotice))
  rw [hnet]
  exact (h.shows.foldl_receive h.shows.fits hsingle).of_net net

/-! ## Every run -/

namespace System

/-- Between two rounds of a tick of the run, the store has the totals under the uuid. -/
def StoredDuring (lib : JsonLib) (start : System) (events : List Event) (uuid : Bytes)
    (pool : Resources) : Prop :=
  ∃ earlier order walk io later now served rest,
    events = earlier ++ .server (.tick order walk io) :: later ∧
    Transition.run (step lib) start earlier = some now ∧ order = served ++ rest ∧
    (Server.serveAll lib walk io served now.server).1.db.getResources walk uuid = .ok pool

theorem StoredDuring.append {lib : JsonLib} {start : System} {events : List Event} {uuid : Bytes}
    {pool : Resources} (h : StoredDuring lib start events uuid pool) (event : Event) :
    StoredDuring lib start (events ++ [event]) uuid pool := by
  obtain ⟨earlier, order, walk, io, later, now, served, rest, rfl, h⟩ := h
  exact ⟨earlier, order, walk, io, later ++ [event], now, served, rest, by simp, h⟩

/-- The totals recorded along a run are those the store had. -/
theorem run_stores {lib : JsonLib} {start visited : System} {events : List Event}
    (hrun : Transition.run (step lib) start events = some visited) {entry : Bytes × Resources}
    (hentry : entry ∈ visited.server.stores) :
    entry ∈ start.server.stores ∨ StoredDuring lib start events entry.1 entry.2 := by
  induction events using List.reverseRecOn generalizing visited with
  | nil =>
    cases hrun
    exact Or.inl hentry
  | append_singleton events event ih =>
    obtain ⟨now, hnow, hlast⟩ := Transition.run_append_eq_some.mp hrun
    obtain ⟨next, hnext, hnil⟩ := Transition.run_cons_eq_some.mp hlast
    cases hnil
    have hearlier (h : entry ∈ now.server.stores) : entry ∈ start.server.stores ∨
        StoredDuring lib start (events ++ [event]) entry.1 entry.2 :=
      (ih hnow h).imp_right fun hstored ↦ hstored.append event
    cases step_stepped hnext with
    | launch | download | client => exact hearlier hentry
    | accept _ _ hserver | upload _ hserver =>
      rcases Server.step_stores hserver hentry with h | ⟨_, _, _, _, _, hevent, _⟩
      · exact hearlier h
      · cases hevent
    | server hserver =>
      rcases Server.step_stores hserver hentry with h | ⟨order, walk, io, served, rest, rfl, h⟩
      · exact hearlier h
      · exact Or.inr ⟨events, order, walk, io, [], now, served, rest, rfl, hnow, h⟩

/-- At every point of every run, a client shows zeros or totals that a tick stored for its uuid, has
applied updates in the order of the ticks, and keeps the uuid once it knows one. What counts as
stored was in the store between two rounds of a tick. -/
theorem shown_truthful {lib : JsonLib} (hlib : lib.Lawful) {server : Server} {before : List Event}
    {visited : System} (hvisited : Transition.run (step lib) ⟨server, []⟩ before = some visited)
    {place : ℕ} {peer : Peer} (hpeer : visited.peers[place]? = some peer) :
    (∀ count, (peer.app.polling count).Truthful visited.server.stores) ∧
      (∀ entry ∈ visited.server.stores, entry ∈ server.stores ∨
        StoredDuring lib ⟨server, []⟩ before entry.1 entry.2) ∧
      (∀ count later, count ≤ later → (peer.app.polling count).uuid ≠ [] →
        (peer.app.polling later).uuid = (peer.app.polling count).uuid) ∧
      (∀ input next, peer.app.step lib (.frame input) = some next →
        next.ctx.uuid = (peer.app.polling peer.app.ctx.net.recvQueue.length).uuid) ∧
      ∀ after final, Transition.run (step lib) visited after = some final →
        ∃ peer', final.peers[place]? = some peer' ∧ (peer.app.ctx.uuid ≠ [] →
          ∀ count, (peer'.app.polling count).uuid = peer.app.ctx.uuid) := by
  obtain ⟨found, polled, queued, hfound, hfollows⟩ :=
    consistent_run hlib hvisited place (List.getElem?_eq_some_iff.mp hpeer).1
  cases hpeer.symm.trans hfound
  rw [List.nil_append] at hfollows
  refine ⟨fun count ↦ ?_, fun entry hentry ↦ run_stores hvisited hentry,
    fun count later hle hne ↦ ?_, fun input next hnext ↦ ?_, fun after final hrun ↦ ?_⟩
  · refine (hfollows.polling count).truthful (List.Sublist.trans ?_ hfollows.attached.stored)
    rw [List.filterMap_append, List.filterMap_append]
    exact (List.Sublist.refl _).append ((List.take_sublist count queued).filterMap _)
  · have hlater := hfollows.polling later
    rw [← Nat.add_sub_cancel' hle, List.take_add, ← List.append_assoc,
      Nat.add_sub_cancel' hle] at hlater
    exact (hfollows.polling count).uuid_append hne hlater
  · obtain ⟨_, ⟨_, _, hevent⟩ | ⟨_, hinput, _, rfl⟩⟩ := Application.step_spec hnext
    · exact absurd rfl (hevent input)
    · cases hinput
      have hlength : peer.app.ctx.net.recvQueue.length = queued.length := by
        rw [hfollows.queue, List.length_map]
      have hpolling := (hfollows.polling queued.length).uuid
      rw [List.take_length] at hpolling
      rw [hlength]
      exact (hfollows.frame input).shows.uuid.trans hpolling.symm
  · have honward : visited.Onward lib place polled :=
      ⟨peer, [], queued, hpeer, by rwa [List.append_nil]⟩
    obtain ⟨peer', more, queued', hpeer', hfollows'⟩ := run_onward hlib honward hrun
    refine ⟨peer', hpeer', fun hne count ↦ ?_⟩
    have hpolling := hfollows'.polling count
    rw [List.append_assoc] at hpolling
    exact hfollows.shows.uuid_append hne hpolling

/-- A client that logs in, is served by a tick and polls the update. -/
theorem shown_truthful_harvest :
    let before : List Event := [.launch true, .accept 0,
      .client 0 (.frame { username := text "ana" }),
      .client 0 (.frame { username := text "ana", pass := text "pw" }),
      .client 0 (.frame { username := text "ana", pass := text "pw", clicked := true }),
      .upload 0 200, .server (.readDone 0 (1, 2) {}), .server (.strand 0), .server (.strand 0),
      .server (.writeDone 0), .download 0 500, .client 0 .takeLine, .client 0 .takeLine,
      .client 0 (.frame {}), .server (.tick [1] [text "ana"] fun _ ↦ {}), .server (.writeDone 0),
      .server (.strand 0), .download 0 500, .client 0 .takeLine, .client 0 (.frame {})]
    ∃ visited peer, Transition.run (step JsonLib.reference) ⟨{}, []⟩ before = some visited ∧
      visited.peers[0]? = some peer ∧ peer.app.ctx.uuid = JsonDB.generateUuid (1, 2) ∧
      peer.app.ctx.resources = ⟨10, 10, 10⟩ ∧
      (∀ count, (peer.app.polling count).Truthful visited.server.stores) ∧
      StoredDuring JsonLib.reference ⟨{}, []⟩ before (JsonDB.generateUuid (1, 2)) ⟨10, 10, 10⟩ := by
  intro before
  have hrun : (Transition.run (step JsonLib.reference) ⟨{}, []⟩ before).map (fun visited ↦
      (visited.peers[0]?.map fun peer ↦ (peer.app.ctx.uuid, peer.app.ctx.resources),
        visited.server.stores)) =
      some (some (JsonDB.generateUuid (1, 2), ⟨10, 10, 10⟩),
        [(JsonDB.generateUuid (1, 2), ⟨10, 10, 10⟩)]) := by
    decide +kernel
  obtain ⟨visited, hvisited, hfinal⟩ := Option.map_eq_some_iff.mp hrun
  obtain ⟨hpeers, hstores⟩ := Prod.mk.inj hfinal
  obtain ⟨peer, hpeer, hshown⟩ := Option.map_eq_some_iff.mp hpeers
  obtain ⟨huuid, hresources⟩ := Prod.mk.inj hshown
  obtain ⟨htruthful, hstored, _⟩ := shown_truthful JsonLib.reference_lawful hvisited hpeer
  refine ⟨visited, peer, hvisited, hpeer, huuid, hresources, htruthful, ?_⟩
  refine (hstored (JsonDB.generateUuid (1, 2), ⟨10, 10, 10⟩) ?_).resolve_left List.not_mem_nil
  rw [hstores]
  exact List.mem_singleton.mpr rfl

end System

end NetPixeld
