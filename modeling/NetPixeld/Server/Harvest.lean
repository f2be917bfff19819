import NetPixeld.Server.Handling
import NetPixeld.Server.UuidView
import Mathlib.Data.List.Induction

/-!
# What a tick adds up to

A tick is a loop over the sessions that reads and rewrites the store once for each logged-in one.
After any number of rounds an account has gained ten of each resource for every session served so
far that holds its uuid, so the totals after the loop do not depend on either iteration order. The
induction is on the sessions served; the store with distinct uuids is used through its view by uuid.
-/

namespace NetPixeld

/-- What a number of harvests adds. -/
def Resources.gain (count : ℕ) (resources : Resources) : Resources :=
  ⟨resources.wood + UInt64.ofNat (10 * count), resources.food + UInt64.ofNat (10 * count),
    resources.iron + UInt64.ofNat (10 * count)⟩

theorem Resources.gain_zero (resources : Resources) : resources.gain 0 = resources := by
  simp [gain]

namespace Server

theorem harvest_gain (count : ℕ) (resources : Resources) :
    harvest (resources.gain count) = resources.gain (count + 1) := by
  have hnext : ∀ total : UInt64,
      total + UInt64.ofNat (10 * count) + 10 = total + UInt64.ofNat (10 * (count + 1)) := by
    intro total
    rw [Nat.mul_succ, UInt64.ofNat_add, UInt64.add_assoc]
    rfl
  simp only [harvest, Resources.gain, hnext]

/-! ## The sessions a tick serves -/

/-- The uuid that the session registered under an id is logged in with. -/
def holder (server : Server) (clientId : UInt8) : Option Bytes :=
  match server.sessions.find clientId with
  | some (some index) =>
      match server.object index with
      | some session => if session.uuid = [] then none else some session.uuid
      | none => none
  | _ => none

/-- The number of ids in a range whose session is logged in with a uuid. -/
def holders (server : Server) (range : List UInt8) (uuid : Bytes) : ℕ :=
  range.countP fun clientId ↦ server.holder clientId = some uuid

/-- An account after the sessions of a range were served. -/
def harvested (server : Server) (range : List UInt8) (acc : Account) : Account :=
  { acc with resources := acc.resources.gain (server.holders range acc.uuid) }

/-- The update queued on a session when the sessions before it have been served. -/
def Notified (lib : JsonLib) (server next : Server) (order : List UInt8) (clientId : UInt8)
    (index : ℕ) (session : Session) : Prop :=
  ∃ before after username acc serialized, order = before ++ clientId :: after ∧
    server.db.accounts.find username = some acc ∧ acc.uuid = session.uuid ∧
    (server.nextUpdate clientId session.uuid
      (server.harvested (before ++ [clientId]) acc).resources).serialize lib = .ok serialized ∧
    ∃ served, next.object index = some served ∧
      served = { session with posted := served.posted } ∧
      served.sent = session.sent ++ [⟨server.nextUpdate clientId session.uuid
        (server.harvested (before ++ [clientId]) acc).resources, serialized⟩]

/-- The effect of the loop over a range of ids. -/
structure Harvested (lib : JsonLib) (server : Server) (range : List UInt8) (next : Server) :
    Prop where
  /-- Ten of each resource for every session that holds the uuid, and nothing else. -/
  accounts : ∀ username, next.db.accounts.find username =
    (server.db.accounts.find username).map (server.harvested range)
  /-- One update on every logged-in session, with the totals stored right after its own round. -/
  notified : ∀ clientId ∈ range, ∀ index session, Subscribed server clientId index session →
    Notified lib server next range clientId index session
  /-- None on any other session object. -/
  others : ∀ index, (∀ clientId ∈ range, ∀ session, ¬Subscribed server clientId index session) →
    next.object index = server.object index
  counters : ∀ clientId, next.counter clientId =
    if clientId ∈ range ∧ server.holder clientId ≠ none then server.counter clientId + 1
    else server.counter clientId
  sessions : next.sessions = server.sessions
  armed : next.armed = server.armed
  status : next.status = server.status

theorem holder_of_subscribed {server : Server} {clientId : UInt8} {index : ℕ} {session : Session}
    (h : Subscribed server clientId index session) :
    server.holder clientId = some session.uuid := by
  simp only [holder, h.entry, h.object, if_neg h.uuid]

theorem subscribed_of_holder {server : Server} {clientId : UInt8}
    (h : server.holder clientId ≠ none) :
    ∃ index session, Subscribed server clientId index session := by
  unfold holder at h
  split at h
  · next index hentry =>
    split at h
    · next session hobject =>
      split at h
      · exact absurd rfl h
      · next huuid => exact ⟨index, session, hentry, hobject, huuid⟩
    · exact absurd rfl h
  · exact absurd rfl h

theorem holders_append_singleton (server : Server) (range : List UInt8) (clientId : UInt8)
    (uuid : Bytes) :
    server.holders (range ++ [clientId]) uuid =
      server.holders range uuid + if server.holder clientId = some uuid then 1 else 0 := by
  simp [holders, List.countP_append, List.countP_singleton]

/-! ## One round -/

/-- What a tick relies on. -/
structure Ready (server : Server) : Prop where
  enrolled : server.Enrolled
  indexed : server.Indexed
  distinct : JsonDB.Distinct server.db.accounts
  noNull : ∀ clientId, server.sessions.find clientId ≠ some none

/-- An object is registered under one id only. -/
theorem Ready.clientId_eq {server : Server} (h : server.Ready) {clientId other : UInt8} {index : ℕ}
    {session session' : Session} (hsubscribed : Subscribed server clientId index session)
    (hsubscribed' : Subscribed server other index session') : clientId = other := by
  have hid := (h.indexed.latest clientId index hsubscribed.entry).1
  have hid' := (h.indexed.latest other index hsubscribed'.entry).1
  exact Option.some.inj (hid.symm.trans hid')

section Round

variable {lib : JsonLib} {server now : Server} {range : List UInt8} {walk : List Bytes}

/-- The uuids and the texts of the store are those of before the loop. -/
theorem Harvested.store (h : Harvested lib server range now) (hready : server.Ready) :
    JsonDB.Distinct now.db.accounts ∧ JsonDB.Valid now.db.accounts := by
  have hback : ∀ {username found}, now.db.accounts.find username = some found →
      ∃ acc, server.db.accounts.find username = some acc ∧ server.harvested range acc = found := by
    intro username found hfound
    rw [h.accounts] at hfound
    exact Option.map_eq_some_iff.mp hfound
  constructor
  · intro user other found found' hfound hfound' hsame
    obtain ⟨acc, hfind, rfl⟩ := hback hfound
    obtain ⟨acc', hfind', rfl⟩ := hback hfound'
    exact hready.distinct user other acc acc' hfind hfind' hsame
  · intro username found hfound
    obtain ⟨acc, hfind, rfl⟩ := hback hfound
    have hacc := hready.enrolled.valid username acc hfind
    exact ⟨hacc.username, hacc.password, hacc.uuid, hacc.camps⟩

/-- A round for an id whose session is not logged in. -/
theorem serve_idle (h : Harvested lib server range now) (hready : server.Ready)
    {clientId : UInt8} (hidle : server.holder clientId = none) (io : SaveIO) :
    now.serve lib walk io clientId = (now, .returned ()) := by
  have hunsubscribed : ∀ {index session}, ¬Subscribed server clientId index session := by
    intro index session hsubscribed
    cases hidle.symm.trans (holder_of_subscribed hsubscribed)
  unfold serve
  rw [h.sessions]
  split
  · rfl
  · next hnull => exact absurd hnull (hready.noNull clientId)
  next index hentry =>
  obtain ⟨hid, _⟩ := hready.indexed.latest clientId index hentry
  obtain ⟨session, hobject, _⟩ := Option.map_eq_some_iff.mp hid
  have huuid : session.uuid = [] := by
    by_contra hne
    exact hunsubscribed ⟨hentry, hobject, hne⟩
  have hnow : now.object index = some session := by
    rw [h.others index, hobject]
    intro other _ session' hsubscribed
    cases hobject.symm.trans hsubscribed.object
    exact hsubscribed.uuid huuid
  simp [hnow, huuid]

/-- A round for a logged-in session whose account is found and saved. -/
theorem serve_eq {clientId : UInt8} {index : ℕ} {session : Session} {pool : Resources}
    {db : JsonDB} {io : SaveIO} {serialized : Bytes}
    (hsubscribed : Subscribed now clientId index session)
    (hpool : now.db.getResources walk session.uuid = .ok pool)
    (hupdate : now.db.updateResources lib walk session.uuid (harvest pool) io =
      (db, .returned ()))
    (hserialize : (now.nextUpdate clientId session.uuid (harvest pool)).serialize lib =
      .ok serialized) :
    now.serve lib walk io clientId =
      ((({ now.advanceCounter clientId with db := db } : Server).record
        (.stored session.uuid (harvest pool))).update index
          (·.post ⟨now.nextUpdate clientId session.uuid (harvest pool), serialized⟩),
        .returned ()) := by
  have hcounter : (now.advanceCounter clientId).counter clientId = now.counter clientId + 1 := by
    rw [counter_advanceCounter, if_pos rfl]
  unfold serve
  simp only [hsubscribed.entry, hsubscribed.object, if_neg hsubscribed.uuid, hpool, serveAccount,
    advanceCounter_db, hupdate, send, hcounter]
  unfold nextUpdate at hserialize ⊢
  simp only [hserialize]

/-- The next round of an account is one more harvest. -/
theorem harvested_append {clientId : UInt8} {acc : Account}
    (hholder : server.holder clientId = some acc.uuid) :
    server.harvested (range ++ [clientId]) acc =
      { server.harvested range acc with
        resources := harvest (server.harvested range acc).resources } := by
  have hcount : server.holders (range ++ [clientId]) acc.uuid =
      server.holders range acc.uuid + 1 := by
    rw [holders_append_singleton, if_pos hholder]
  simp only [harvested, hcount, harvest_gain]

theorem Harvested.subscribed (h : Harvested lib server range now) (hready : server.Ready)
    {clientId : UInt8} {index : ℕ} {session : Session}
    (hsubscribed : Subscribed server clientId index session) (hnew : clientId ∉ range) :
    Subscribed now clientId index session := by
  refine ⟨by rw [h.sessions, hsubscribed.entry], ?_, hsubscribed.uuid⟩
  rw [h.others index, hsubscribed.object]
  intro other hother session' hsubscribed'
  exact hnew (hready.clientId_eq hsubscribed hsubscribed' ▸ hother)

theorem Harvested.scan (h : Harvested lib server range now) (hready : server.Ready)
    {username : Bytes} {acc : Account} (hfind : server.db.accounts.find username = some acc)
    (hwalk : username ∈ walk) :
    JsonDB.scan now.db.accounts walk acc.uuid = some (username, server.harvested range acc) := by
  have hfound : now.db.accounts.find username = some (server.harvested range acc) := by
    rw [h.accounts, hfind]
    rfl
  exact JsonDB.scan_of_find (h.store hready).1 hwalk hfound

/-- A round for a logged-in session reads its totals, adds a harvest, saves and queues the
update. -/
theorem serve_subscribed (hlib : lib.Lawful) (h : Harvested lib server range now)
    (hready : server.Ready) {clientId : UInt8} {index : ℕ} {session : Session}
    (hsubscribed : Subscribed server clientId index session) (hnew : clientId ∉ range)
    {username : Bytes} {acc : Account} (hfind : server.db.accounts.find username = some acc)
    (huuid : acc.uuid = session.uuid) (hwalk : username ∈ walk) :
    ∃ serialized files, (server.nextUpdate clientId session.uuid
        (server.harvested (range ++ [clientId]) acc).resources).serialize lib = .ok serialized ∧
      now.serve lib walk {} clientId =
        ((({ now.advanceCounter clientId with
          db := ⟨now.db.accounts.insert username (server.harvested (range ++ [clientId]) acc),
            files⟩ } : Server).record
          (.stored session.uuid (server.harvested (range ++ [clientId]) acc).resources)).update
            index (·.post ⟨server.nextUpdate clientId session.uuid
              (server.harvested (range ++ [clientId]) acc).resources, serialized⟩),
          .returned ()) := by
  have hacc := hready.enrolled.valid username acc hfind
  have hscan := h.scan hready hfind hwalk
  have hwritten : server.harvested (range ++ [clientId]) acc = _ :=
    harvested_append ((holder_of_subscribed hsubscribed).trans (congrArg some huuid.symm))
  have hcounter : now.counter clientId = server.counter clientId := by
    rw [h.counters, if_neg fun hmem ↦ hnew hmem.1]
  have hmessage : ∀ pool, now.nextUpdate clientId session.uuid pool =
      server.nextUpdate clientId session.uuid pool := by
    intro pool
    rw [nextUpdate, nextUpdate, hcounter]
  rw [huuid] at hscan
  rw [hwritten]
  obtain ⟨serialized, hserialized⟩ := Protocol.Message.serialize_ok lib
    (Protocol.wellFormed_resourceUpdate (server.counter clientId + 1) (huuid ▸ hacc.uuid)
      (harvest (server.harvested range acc).resources).wood
      (harvest (server.harvested range acc).resources).food
      (harvest (server.harvested range acc).resources).iron)
  have hvalid : JsonDB.AccountValid username { server.harvested range acc with
      resources := harvest (server.harvested range acc).resources } :=
    ⟨hacc.username, hacc.password, hacc.uuid, hacc.camps⟩
  obtain ⟨files, hcommit, _⟩ :=
    JsonDB.commit_ok hlib now.db (JsonDB.valid_insert (h.store hready).2 hvalid)
  have hread : now.db.getResources walk session.uuid =
      .ok (server.harvested range acc).resources := by
    rw [JsonDB.getResources, JsonDB.readAccount, hscan]
  have hupdate : now.db.updateResources lib walk session.uuid
      (harvest (server.harvested range acc).resources) {} =
      (⟨now.db.accounts.insert username { server.harvested range acc with
        resources := harvest (server.harvested range acc).resources }, files⟩, .returned ()) := by
    rw [JsonDB.updateResources, JsonDB.modifyAccount, hscan]
    exact hcommit
  have hserve := serve_eq (h.subscribed hready hsubscribed hnew) hread hupdate
    ((congrArg (Protocol.Message.serialize lib) (hmessage _)).trans hserialized)
  rw [hmessage] at hserve
  exact ⟨serialized, files, hserialized, hserve⟩

theorem harvested_append_of_ne {clientId : UInt8} {acc : Account}
    (hholder : server.holder clientId ≠ some acc.uuid) :
    server.harvested (range ++ [clientId]) acc = server.harvested range acc := by
  rw [harvested, holders_append_singleton, if_neg hholder]
  rfl

/-- An update stays on its session during the rounds of the others. -/
theorem Notified.append {clientId other : UInt8} {index : ℕ} {session : Session} {next : Server}
    (h : Notified lib server now range clientId index session)
    (hobject : next.object index = now.object index) :
    Notified lib server next (range ++ [other]) clientId index session := by
  obtain ⟨before, after, username, acc, serialized, rfl, hfind, huuid, hserialized, hnow⟩ := h
  refine ⟨before, after ++ [other], username, acc, serialized, ?_, hfind, huuid, hserialized, ?_⟩
  · rw [List.append_assoc, List.cons_append]
  · rw [hobject]
    exact hnow

theorem Harvested.idle (h : Harvested lib server range now) {clientId : UInt8}
    (hidle : server.holder clientId = none) : Harvested lib server (range ++ [clientId]) now where
  accounts username := by
    rw [h.accounts]
    refine congrArg (fun change ↦ Option.map change _) (funext fun acc ↦ ?_)
    exact (harvested_append_of_ne (by rw [hidle]; exact (Option.some_ne_none _).symm)).symm
  notified other hother index session hsubscribed := by
    rcases List.mem_append.mp hother with hother | hother
    · exact (h.notified other hother index session hsubscribed).append rfl
    · cases List.mem_singleton.mp hother
      cases hidle.symm.trans (holder_of_subscribed hsubscribed)
  others index hothers := h.others index fun other hother ↦
    hothers other (List.mem_append_left _ hother)
  counters other := by
    rw [h.counters]
    refine if_congr (and_congr_left fun hholder ↦ ?_) rfl rfl
    rw [List.mem_append, List.mem_singleton, or_iff_left]
    rintro rfl
    exact hholder hidle
  sessions := h.sessions
  armed := h.armed
  status := h.status

theorem Harvested.extend (h : Harvested lib server range now) (hready : server.Ready)
    {clientId : UInt8} {index : ℕ} {session : Session}
    (hsubscribed : Subscribed server clientId index session) (hnew : clientId ∉ range)
    {username : Bytes} {acc : Account} (hfind : server.db.accounts.find username = some acc)
    (huuid : acc.uuid = session.uuid) {serialized : Bytes} {files : Files}
    (hserialized : (server.nextUpdate clientId session.uuid
      (server.harvested (range ++ [clientId]) acc).resources).serialize lib = .ok serialized) :
    Harvested lib server (range ++ [clientId])
      ((({ now.advanceCounter clientId with
        db := ⟨now.db.accounts.insert username (server.harvested (range ++ [clientId]) acc),
          files⟩ } : Server).record
        (.stored session.uuid (server.harvested (range ++ [clientId]) acc).resources)).update
          index (·.post ⟨server.nextUpdate clientId session.uuid
            (server.harvested (range ++ [clientId]) acc).resources, serialized⟩)) where
  accounts other := by
    simp only [update_db, record_db, SortedMap.find_insert]
    split
    · next heq =>
      rw [← heq, hfind]
      rfl
    · next hne =>
      rw [h.accounts]
      cases hother : server.db.accounts.find other with
      | none => rfl
      | some acc' =>
        rw [Option.map_some, Option.map_some, harvested_append_of_ne]
        rw [holder_of_subscribed hsubscribed, ← huuid]
        intro hsame
        exact hne (hready.distinct username other acc acc' hfind hother (Option.some.inj hsame))
  notified other hother index' session' hsubscribed' := by
    rcases List.mem_append.mp hother with hother | hother
    · refine (h.notified other hother index' session' hsubscribed').append ?_
      rw [object_update, if_neg]
      · rfl
      · rintro rfl
        exact hnew (hready.clientId_eq hsubscribed hsubscribed' ▸ hother)
    · cases List.mem_singleton.mp hother
      cases hsubscribed.entry.symm.trans hsubscribed'.entry
      cases hsubscribed.object.symm.trans hsubscribed'.object
      refine ⟨range, [], username, acc, serialized, rfl, hfind, huuid, hserialized, _, ?_, rfl,
        Session.sent_post ..⟩
      have hnow := (h.subscribed hready hsubscribed hnew).object
      rw [object_update, if_pos rfl]
      exact congrArg (Option.map _) hnow
  others index' hothers := by
    rw [object_update, if_neg]
    · exact h.others index' fun other hother ↦ hothers other (List.mem_append_left _ hother)
    · rintro rfl
      exact hothers clientId (List.mem_append_right _ (List.mem_singleton.mpr rfl)) session
        hsubscribed
  counters other := by
    change (now.advanceCounter clientId).counter other = _
    have hholder := holder_of_subscribed hsubscribed
    rw [counter_advanceCounter, h.counters]
    by_cases hother : clientId = other
    · subst hother
      simp [hnew, hholder]
    · simp [hother, Ne.symm hother]
  sessions := h.sessions
  armed := h.armed
  status := h.status

end Round

/-! ## The whole loop -/

theorem harvested_nil {lib : JsonLib} (server : Server) : Harvested lib server [] server where
  accounts username := by
    cases server.db.accounts.find username with
    | none => rfl
    | some acc => simp [harvested, holders, Resources.gain_zero]
  notified _ h := by cases h
  others _ _ := rfl
  counters _ := by simp
  sessions := rfl
  armed := rfl
  status := rfl

theorem serveAll_append_singleton (lib : JsonLib) (walk : List Bytes) (io : UInt8 → SaveIO)
    (range : List UInt8) (clientId : UInt8) {server now : Server}
    (h : serveAll lib walk io range server = (now, .returned ())) :
    serveAll lib walk io (range ++ [clientId]) server =
      now.serve lib walk (io clientId) clientId := by
  induction range generalizing server with
  | nil =>
    cases h
    rw [List.nil_append, serveAll]
    split
    · next next hnext => rw [hnext]; rfl
    · rfl
  | cons other range ih =>
    rw [serveAll] at h
    rw [List.cons_append, serveAll]
    split at h
    · next next hnext =>
      exact ih h
    · next failed hfailed =>
      exact absurd h (hfailed now)

/-- The loop returns after every range of ids, with the totals of that range. -/
theorem serveAll_harvested {lib : JsonLib} (hlib : lib.Lawful) {server : Server}
    (hready : server.Ready) {walk : List Bytes} (hwalk : walk.Perm server.db.accounts.keys)
    {range : List UInt8} (hrange : range.Nodup) :
    ∃ next, serveAll lib walk (fun _ ↦ {}) range server = (next, .returned ()) ∧
      Harvested lib server range next := by
  induction range using List.reverseRecOn with
  | nil => exact ⟨server, rfl, harvested_nil server⟩
  | append_singleton range clientId ih =>
    obtain ⟨hnodup, _, hdisjoint⟩ := List.nodup_append.mp hrange
    obtain ⟨now, hnow, hharvested⟩ := ih hnodup
    rw [serveAll_append_singleton lib walk _ range clientId hnow]
    by_cases hholder : server.holder clientId = none
    · exact ⟨now, serve_idle hharvested hready hholder {}, hharvested.idle hholder⟩
    · obtain ⟨index, session, hsubscribed⟩ := subscribed_of_holder hholder
      have hnew : clientId ∉ range := fun hmem ↦
        hdisjoint clientId hmem clientId (List.mem_singleton.mpr rfl) rfl
      obtain ⟨username, acc, hfind, huuid⟩ :=
        hready.enrolled.account index session hsubscribed.object hsubscribed.uuid
      obtain ⟨serialized, files, hserialized, hserve⟩ := serve_subscribed hlib hharvested hready
        hsubscribed hnew hfind huuid (JsonDB.mem_of_perm hwalk hfind)
      exact ⟨_, hserve,
        hharvested.extend hready hsubscribed hnew hfind huuid hserialized⟩

/-- One tick with successful saves, in any iteration orders: it returns, the timer is armed again,
and totals, updates and counters are those of the sessions served. -/
theorem tick_harvested {lib : JsonLib} (hlib : lib.Lawful) {files : Files} {first server : Server}
    (hstart : start lib files = .ok first) {events : List Event}
    (hrun : Transition.run (step lib) first events = some server)
    (hdistinct : JsonDB.Distinct server.db.accounts)
    (hnull : ∀ clientId, server.sessions.find clientId ≠ some none)
    (hrunning : server.status = .running) (harmed : server.armed = true) {order : List UInt8}
    (horder : order.Perm server.sessions.keys) {walk : List Bytes}
    (hwalk : walk.Perm server.db.accounts.keys) :
    ∃ next, server.step lib (.tick order walk fun _ ↦ {}) = some next ∧
      next.status = .running ∧ next.armed = true ∧ Harvested lib server order next ∧
      (∀ uuid, server.holders order uuid = server.holders server.sessions.keys uuid) ∧
      ∀ before after, order = before ++ after →
        Harvested lib server before (serveAll lib walk (fun _ ↦ {}) before server).1 := by
  have hindexed : server.Indexed :=
    Transition.invariant_run step_indexed (fresh_of_start hstart).indexed hrun
  have hready : server.Ready := ⟨enrolled_run hlib hstart hrun, hindexed, hdistinct, hnull⟩
  have hnodup : order.Nodup := horder.nodup_iff.mpr server.sessions.sorted.nodup
  obtain ⟨next, hnext, hharvested⟩ := serveAll_harvested hlib hready hwalk hnodup
  refine ⟨next, ?_, hharvested.status.trans hrunning, hharvested.armed.trans harmed, hharvested,
    fun uuid ↦ horder.countP_eq _, ?_⟩
  · simp only [step, hrunning, if_true, tick, harmed, horder, hwalk, and_self, hnext, conclude]
  · rintro before after rfl
    obtain ⟨middle, hmiddle, hbefore⟩ :=
      serveAll_harvested hlib hready hwalk (List.nodup_append.mp hnodup).1
    rw [hmiddle]
    exact hbefore

/-- A tick with one logged-in session. -/
theorem tick_harvested_login :
    ∃ server next, Transition.run (step JsonLib.reference) {}
        [.accept, .receive 0 (((Protocol.loginRequest (text "ana") (text "pass")).serialize
          JsonLib.reference).toOption.getD []), .readDone 0 (1, 2) {}] = some server ∧
      server.holders [1] (JsonDB.generateUuid (1, 2)) = 1 ∧
      server.step JsonLib.reference (.tick [1] [text "ana"] fun _ ↦ {}) = some next ∧
      next.status = .running ∧ Harvested JsonLib.reference server [1] next := by
  let login : Bytes := ((Protocol.loginRequest (text "ana") (text "pass")).serialize
    JsonLib.reference).toOption.getD []
  have hend : (Transition.run (step JsonLib.reference) {}
      [.accept, .receive 0 login, .readDone 0 (1, 2) {}]).map (fun server ↦
        (server.sessions.items, server.db.accounts.keys, server.status, server.armed,
          server.holders [1] (JsonDB.generateUuid (1, 2)))) =
      some ([(1, some 0)], [text "ana"], .running, true, 1) := by decide +kernel
  obtain ⟨server, hrun, hserver⟩ := Option.map_eq_some_iff.mp hend
  simp only [Prod.mk.injEq] at hserver
  obtain ⟨hsessions, haccounts, hrunning, harmed, hholders⟩ := hserver
  have hstart : start JsonLib.reference {} = .ok {} := rfl
  have hdistinct : JsonDB.Distinct server.db.accounts := by
    intro user other acc acc' hfind hfind' _
    have huser := JsonDB.mem_of_perm (List.Perm.refl _) hfind
    have hother := JsonDB.mem_of_perm (List.Perm.refl _) hfind'
    rw [haccounts, List.mem_singleton] at huser hother
    rw [huser, hother]
  have hnull : ∀ clientId, server.sessions.find clientId ≠ some none := by
    intro clientId
    rw [SortedMap.find, hsessions]
    simp
  have hkeys : [1].Perm server.sessions.keys := by
    rw [SortedMap.keys, hsessions]
    exact List.Perm.refl _
  have hwalk : [text "ana"].Perm server.db.accounts.keys := haccounts ▸ List.Perm.refl _
  obtain ⟨next, hstep, hstatus, _, hharvested, _⟩ := tick_harvested JsonLib.reference_lawful hstart
    hrun hdistinct hnull hrunning harmed hkeys hwalk
  exact ⟨server, next, hrun, hholders, hstep, hstatus, hharvested⟩

end Server

end NetPixeld
