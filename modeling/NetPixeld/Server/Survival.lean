import NetPixeld.Server.Handling
import NetPixeld.Server.NullSafety
import NetPixeld.Server.UuidView

/-!
# How long the server lives

An exception inside a read handler is caught, one inside a tick ends the process, and a null session
ends it anywhere. A tick finds the account of every session that is logged in and can serialize what
it writes, so its only exceptions are those of the file operations. What remains is the null session
that `operator[]` makes up for a login from a connection without an entry.
-/

namespace NetPixeld

/-- A save comes to its end: the file is opened and renamed. How much of the text reaches the file
does not matter. -/
structure SaveIO.Finishes (io : SaveIO) : Prop where
  opens : io.opens = true
  renames : io.renames = true
  stop : io.stop = none

namespace JsonDB

variable {lib : JsonLib} {io : SaveIO}

theorem save_returned {accounts : Accounts} (hvalid : Valid accounts) (hio : io.Finishes)
    (files : Files) : (save lib accounts io files).2 = .returned () := by
  obtain ⟨content, hcontent⟩ := serialization_ok lib hvalid
  obtain ⟨hopens, hrenames, hstop⟩ := hio
  simp [save, hcontent, rename, writeTmp, openTmp, hopens, hrenames, hstop]

theorem save_ne_died (accounts : Accounts) (hio : io.stop = none) (files : Files) :
    (save lib accounts io files).2 ≠ .died := by
  unfold save
  rw [hio]
  split
  · contradiction
  split
  · contradiction
  split
  · simp
  split
  · contradiction
  · unfold rename
    split
    · simp
    split
    · simp [hio]
    · simp

/-- The search over all accounts finds every uuid in use. -/
theorem scan_of_mem {accounts : Accounts} {walk : List Bytes} {username : Bytes} {acc : Account}
    (hfind : accounts.find username = some acc) (hwalk : username ∈ walk) :
    ∃ found, scan accounts walk acc.uuid = some found := by
  refine Option.isSome_iff_exists.mp (List.findSome?_isSome_iff.mpr ⟨username, hwalk, ?_⟩)
  simp [hfind]

end JsonDB

namespace Server

variable {lib : JsonLib}

/-! ## Reads -/

theorem login_ne_died (db : JsonDB) (user pass : Bytes) (draw : UInt64 × UInt64) {io : SaveIO}
    (hio : io.stop = none) : (login lib db user pass draw io).2 ≠ .died := by
  have hmap : ∀ {α β : Type} (convert : α → β) {outcome : Outcome α}, outcome ≠ .died →
      outcome.map convert ≠ .died := by
    intro α β convert outcome houtcome
    cases outcome with
    | died => exact absurd rfl houtcome
    | returned _ | threw _ | crashed => simp [Outcome.map]
  unfold login
  split
  · split
    · refine hmap _ ?_
      cases db.getUser user pass <;> simp [Outcome.ofExcept]
    · simp
  · refine hmap _ ?_
    unfold JsonDB.addUser
    split
    · simp
    · exact hmap _ (JsonDB.save_ne_died _ hio _)

theorem reply_ne_died (server : Server) (clientId : UInt8) (uuid : Bytes) :
    (server.reply lib clientId uuid).2 ≠ .died := by
  unfold reply
  split
  · simp
  · unfold sendToClient
    split
    · simp
    · simp
    · unfold send
      split <;> simp

/-- Where no save is interrupted, a line does not kill the process. -/
theorem onLine_ne_died (server : Server) (clientId : UInt8) (line : Bytes)
    (draw : UInt64 × UInt64) {io : SaveIO} (hio : io.stop = none) :
    (server.onLine lib clientId line draw io).2 ≠ .died := by
  unfold onLine
  split
  · simp
  unfold onClientMessage
  split
  swap
  · simp
  unfold onLoginRequest
  split
  · simp
  next user pass _ =>
  dsimp only
  split
  · exact reply_ne_died _ _ _
  · simp
  · simp
  · next hdied => exact absurd hdied (login_ne_died server.db user pass draw hio)
  · simp

/-- A login that the store admits, read from a connection without an entry. -/
theorem onLine_unregistered {server : Server} {clientId : UInt8} {line user pass uuid : Bytes}
    {draw : UInt64 × UInt64} {io : SaveIO} (hrequest : Requests lib line user pass)
    (hlogin : (login lib server.db user pass draw io).2 = .returned (some uuid))
    (hfind : server.sessions.find clientId = none) :
    (server.onLine lib clientId line draw io).2 = .crashed := by
  obtain ⟨msg, hread, htype, hcredentials⟩ := hrequest
  simp only [onLine, hread, onClientMessage, htype, if_true, onLoginRequest, hcredentials, hlogin,
    reply, getSession, hfind]

/-! ## Ticks -/

/-- What the server relies on. -/
structure Sane (server : Server) : Prop where
  enrolled : server.Enrolled
  indexed : server.Indexed
  entries : ∀ clientId, server.sessions.find clientId ≠ some none

/-- A walk over the accounts meets all of them. -/
def Covers (walk : List Bytes) (accounts : Accounts) : Prop :=
  ∀ username, accounts.find username ≠ none → username ∈ walk

theorem covers_of_perm {walk : List Bytes} {accounts : Accounts}
    (h : walk.Perm accounts.keys) : Covers walk accounts := by
  intro username hfind
  obtain ⟨acc, hacc⟩ := Option.ne_none_iff_exists'.mp hfind
  exact JsonDB.mem_of_perm h hacc

/-- A round returns when its save completes. -/
theorem serve_finishes {server : Server} (h : server.Sane) {walk : List Bytes}
    (hwalk : Covers walk server.db.accounts) {io : SaveIO} (hio : io.Finishes)
    (clientId : UInt8) : (server.serve lib walk io clientId).2 = .returned () := by
  unfold serve
  split
  · rfl
  · next hnull => exact absurd hnull (h.entries clientId)
  next index hentry =>
  obtain ⟨session, hobject, _⟩ :=
    Option.map_eq_some_iff.mp (h.indexed.latest clientId index hentry).1
  simp only [hobject]
  split
  · rfl
  next hne =>
  obtain ⟨username, acc, hfind, huuid⟩ := h.enrolled.account index session hobject hne
  have hmem := hwalk username (by rw [hfind]; exact Option.some_ne_none acc)
  obtain ⟨⟨user, found⟩, hscan⟩ := JsonDB.scan_of_mem hfind hmem
  rw [huuid] at hscan
  obtain ⟨hfound, hsame⟩ := JsonDB.scan_eq_some hscan
  have hacc := h.enrolled.valid user found hfound
  have hvalid : JsonDB.Valid (server.db.accounts.insert user
      { found with resources := harvest found.resources }) :=
    JsonDB.valid_insert h.enrolled.valid ⟨hacc.username, hacc.password, hacc.uuid, hacc.camps⟩
  obtain ⟨serialized, hserialized⟩ := Protocol.Message.serialize_ok lib
    (Protocol.wellFormed_resourceUpdate ((server.advanceCounter clientId).counter clientId)
      (hsame ▸ hacc.uuid) (harvest found.resources).wood (harvest found.resources).food
      (harvest found.resources).iron)
  simp only [JsonDB.getResources, JsonDB.readAccount, hscan, serveAccount, advanceCounter_db,
    JsonDB.updateResources, JsonDB.modifyAccount, JsonDB.commit,
    JsonDB.save_returned hvalid hio, send, hserialized]

/-- A round brings no account in. -/
theorem Served.covers {server : Server} {walk : List Bytes} {io : SaveIO} {clientId : UInt8}
    {result : Server × Outcome Unit} (h : Served lib server walk io clientId result)
    (hwalk : Covers walk server.db.accounts) : Covers walk result.1.db.accounts := by
  have hupdate : ∀ uuid pool,
      Covers walk (server.db.updateResources lib walk uuid pool io).1.accounts := by
    intro uuid pool
    unfold JsonDB.updateResources JsonDB.modifyAccount
    split
    · next user acc hscan =>
      intro username hfind
      refine hwalk username fun hnone ↦ hfind ?_
      change (server.db.accounts.insert user _).find username = none
      rw [SortedMap.find_insert_of_ne, hnone]
      rintro rfl
      cases hnone.symm.trans (JsonDB.scan_eq_some hscan).1
    · exact hwalk
  cases h with
  | idle | broken | unknown => exact hwalk
  | unsaved | unsent | updated => exact hupdate _ _

theorem Served.sane {server : Server} {walk : List Bytes} {io : SaveIO} {clientId : UInt8}
    {result : Server × Outcome Unit} (h : Served lib server walk io clientId result)
    (hsane : server.Sane) : result.1.Sane := by
  refine ⟨hsane.enrolled.served h, hsane.indexed.same h.sameRegistry, fun other ↦ ?_⟩
  rw [h.sessions]
  exact hsane.entries other

/-- A tick returns when its saves complete. -/
theorem serveAll_finishes {walk : List Bytes} {io : UInt8 → SaveIO}
    (hio : ∀ clientId, (io clientId).Finishes) {order : List UInt8} {server : Server}
    (h : server.Sane) (hwalk : Covers walk server.db.accounts) :
    (serveAll lib walk io order server).2 = .returned () := by
  induction order generalizing server with
  | nil => rfl
  | cons clientId rest ih =>
    have hreturned := @serve_finishes lib server h walk hwalk _ (hio clientId) clientId
    have hserved := serve_served lib server walk (io clientId) clientId
    rw [serveAll]
    split
    · next next hserve =>
      rw [hserve] at hserved
      exact ih (hserved.sane h) (hserved.covers hwalk)
    · next hfailed => exact (hfailed _ (Prod.ext rfl hreturned)).elim

/-! ## One step -/

/-- No save of the event interrupts the process, and those of a tick complete. -/
def Event.Finishes : Event → Prop
  | .readDone _ _ io => io.stop = none
  | .tick _ _ io => ∀ clientId, (io clientId).Finishes
  | _ => True

/-- Every login that the store admits is read from a connection whose id has an entry. -/
def AdmitsEntered (lib : JsonLib) (server : Server) (event : Event) : Prop :=
  ∀ index draw io session line after user pass uuid, event = .readDone index draw io →
    server.object index = some session → session.takeLine = some (line, after) →
    Requests lib line user pass →
    (login lib server.db user pass draw io).2 = .returned (some uuid) →
    server.sessions.find session.clientId ≠ none

theorem readDone_eq_some {server next : Server} {index : ℕ} {draw : UInt64 × UInt64}
    {io : SaveIO} (h : server.step lib (.readDone index draw io) = some next) :
    ∃ session line after, server.object index = some session ∧
      session.takeLine = some (line, after) ∧
      next = guarded (((server.update index fun _ ↦ after).record (.received index line)).onLine
        lib session.clientId line draw io) := by
  obtain ⟨hrunning, _⟩ := step_stepped h
  simp only [step, hrunning, if_true] at h
  obtain ⟨session, hobject, h⟩ := Option.bind_eq_some_iff.mp h
  obtain ⟨⟨line, after⟩, hline, h⟩ := Option.bind_eq_some_iff.mp h
  exact ⟨session, line, after, hobject, hline, (Option.some.inj h).symm⟩

/-- A handler that is neither killed nor crashed leaves the server running. -/
theorem guarded_running {result : Server × Outcome Unit} (hdied : result.2 ≠ .died)
    (hcrashed : result.2 ≠ .crashed) : guarded result = result.1 := by
  obtain ⟨server, outcome⟩ := result
  cases outcome with
  | returned _ | threw _ => rfl
  | died => exact absurd rfl hdied
  | crashed => exact absurd rfl hcrashed

/-- The entries stay when every admitted login has one. -/
theorem Handled.entered {server : Server} {clientId : UInt8} {line : Bytes}
    {draw : UInt64 × UInt64} {io : SaveIO} {result : Server × Outcome Unit}
    (h : Handled lib server clientId line draw io result)
    (hnull : server.sessions.find clientId ≠ some none)
    (hentry : ∀ user pass uuid, Requests lib line user pass →
      (login lib server.db user pass draw io).2 = .returned (some uuid) →
      server.sessions.find clientId ≠ none) :
    result.1.sessions = server.sessions ∧ result.2 ≠ .crashed := by
  cases h with
  | ignored houtcome => exact ⟨rfl, houtcome⟩
  | refused _ houtcome => exact ⟨rfl, houtcome⟩
  | unregistered hrequest hlogin hfind => exact absurd hfind (hentry _ _ _ hrequest hlogin)
  | null _ _ hfind => exact absurd hfind hnull
  | unsent => exact ⟨rfl, by simp⟩
  | answered => exact ⟨rfl, by simp⟩

theorem tick_eq_some {server next : Server} {order : List UInt8} {walk : List Bytes}
    {io : UInt8 → SaveIO} (h : server.step lib (.tick order walk io) = some next) :
    walk.Perm server.db.accounts.keys ∧ next = conclude (serveAll lib walk io order server) := by
  obtain ⟨hrunning, _⟩ := step_stepped h
  simp only [step, hrunning, if_true, tick] at h
  split at h
  · next horder => exact ⟨horder.2.2, (Option.some.inj h).symm⟩
  · cases h

/-- Disconnect callbacks only erase entries. -/
theorem entries_disconnect {server : Server} (h : ∀ clientId,
    server.sessions.find clientId ≠ some none) {index : ℕ} {before after : Session} :
    ∀ clientId, ((server.update index fun _ ↦ after).onClientDisconnect index
      before.clientId).sessions.find clientId ≠ some none := by
  intro clientId
  rw [find_disconnect]
  split
  · exact (Option.some_ne_none _).symm
  · exact h clientId

/-- The server goes on in a sane state. -/
structure Alive (server : Server) : Prop where
  sane : server.Sane
  running : server.status = .running

theorem Alive.step (hlib : lib.Lawful) {server next : Server} {event : Event} (h : server.Alive)
    (hstep : server.step lib event = some next)
    (hentries : ∀ clientId, next.sessions.find clientId ≠ some none)
    (hrunning : next.status = .running) : next.Alive :=
  ⟨⟨step_enrolled hlib h.sane.enrolled hstep, step_indexed h.sane.indexed hstep, hentries⟩,
    hrunning⟩

theorem Alive.readDone (hlib : lib.Lawful) {server next : Server} {index : ℕ}
    {draw : UInt64 × UInt64} {io : SaveIO} (h : server.Alive) (hio : io.stop = none)
    (hentered : AdmitsEntered lib server (.readDone index draw io))
    (hstep : server.step lib (.readDone index draw io) = some next) : next.Alive := by
  obtain ⟨session, line, after, hobject, hline, hnext⟩ := readDone_eq_some hstep
  have hhandled := onLine_handled lib
    ((server.update index fun _ ↦ after).record (.received index line)) session.clientId line draw
    io
  obtain ⟨hsessions, hcrashed⟩ := hhandled.entered (h.sane.entries session.clientId)
    fun user pass uuid hrequest hlogin ↦
      hentered index draw io session line after user pass uuid rfl hobject hline hrequest hlogin
  have hstatus := hhandled.status.trans h.running
  rw [guarded_running (onLine_ne_died _ _ _ _ hio) hcrashed] at hnext
  refine h.step hlib hstep (fun clientId ↦ ?_) (hnext ▸ hstatus)
  rw [hnext, hsessions]
  exact h.sane.entries clientId

theorem Alive.tick (hlib : lib.Lawful) {server next : Server} {order : List UInt8}
    {walk : List Bytes} {io : UInt8 → SaveIO} (h : server.Alive)
    (hio : ∀ clientId, (io clientId).Finishes)
    (hstep : server.step lib (.tick order walk io) = some next) : next.Alive := by
  obtain ⟨hwalk, hnext⟩ := tick_eq_some hstep
  have hreturned : (serveAll lib walk io order server).2 = .returned () :=
    serveAll_finishes hio h.sane (covers_of_perm hwalk)
  have hsessions := (@serveAll_ne_crashed lib walk io order server h.sane.indexed
    ⟨h.sane.entries, by rw [h.running]; decide⟩).1
  have hconclude : next = (serveAll lib walk io order server).1 := by
    rw [hnext, conclude, hreturned]
  refine h.step hlib hstep (fun clientId ↦ ?_) ?_
  · rw [hconclude, hsessions]
    exact h.sane.entries clientId
  · rw [hconclude, serveAll_status]
    exact h.running

theorem step_alive (hlib : lib.Lawful) {server next : Server} {event : Event}
    (h : server.Alive) (hfinishes : event.Finishes) (hentered : AdmitsEntered lib server event)
    (hstep : server.step lib event = some next) : next.Alive := by
  cases event with
  | readDone index draw io => exact h.readDone hlib hfinishes hentered hstep
  | tick order walk io => exact h.tick hlib hfinishes hstep
  | accept =>
    cases (step_stepped hstep).2
    refine h.step hlib hstep (fun clientId ↦ ?_) h.running
    rw [find_register]
    split
    · simp
    · exact h.sane.entries clientId
  | acceptFailed =>
    cases (step_stepped hstep).2
    exact h
  | receive | strand | writeDone | timerCanceled =>
    cases (step_stepped hstep).2
    exact h.step hlib hstep h.sane.entries h.running
  | readFailed | writeFailed =>
    cases (step_stepped hstep).2
    exact h.step hlib hstep (entries_disconnect h.sane.entries) h.running

/-- A server that is still running has not admitted a login without an entry. -/
theorem admitsEntered_of_running {server next : Server} {event : Event}
    (hstep : server.step lib event = some next) (hrunning : next.status = .running) :
    AdmitsEntered lib server event := by
  rintro index draw io session line after user pass uuid rfl hobject hline hrequest hlogin hfind
  obtain ⟨session', line', after', hobject', hline', rfl⟩ := readDone_eq_some hstep
  cases hobject.symm.trans hobject'
  cases hline.symm.trans hline'
  have hcrashed : (((server.update index fun _ ↦ after).record (.received index line)).onLine lib
      session.clientId line draw io).2 = .crashed := onLine_unregistered hrequest hlogin hfind
  rw [guarded, hcrashed, conclude, hcrashed] at hrunning
  cases hrunning

/-! ## Every run -/

theorem alive_of_start (hlib : lib.Lawful) {files : Files} {first : Server}
    (hstart : start lib files = .ok first) : first.Alive := by
  have hfresh := fresh_of_start hstart
  refine ⟨⟨@enrolled_run lib hlib files first first hstart [] rfl, hfresh.indexed, ?_⟩, ?_⟩
  · exact hfresh.tracked.noNull.entries
  · obtain ⟨db, rfl⟩ := hfresh
    rfl

/-- A run whose saves complete is survived exactly when every login that the store admits is read
from a connection whose id has an entry. -/
theorem survives_iff_entered (hlib : lib.Lawful) {files : Files} {first final : Server}
    (hstart : start lib files = .ok first) {events : List Event}
    (hfinishes : ∀ event ∈ events, event.Finishes)
    (hrun : Transition.run (step lib) first events = some final) :
    Transition.Always (step lib) (AdmitsEntered lib) first events ↔ final.status = .running := by
  have halive := alive_of_start hlib hstart
  clear hstart
  induction events generalizing first with
  | nil =>
    cases hrun
    exact iff_of_true trivial halive.running
  | cons event rest ih =>
    obtain ⟨next, hnext, hrest⟩ := Transition.run_cons_eq_some.mp hrun
    obtain ⟨hevent, hlater⟩ := List.forall_mem_cons.mp hfinishes
    constructor
    · rintro ⟨hentered, halways⟩
      exact (ih hlater hrest (step_alive hlib halive hevent hentered hnext)).mp (halways next hnext)
    · intro hrunning
      have hentered := admitsEntered_of_running hnext (running_of_run hrest hrunning)
      refine ⟨hentered, fun other hother ↦ ?_⟩
      cases hnext.symm.trans hother
      exact (ih hlater hrest (step_alive hlib halive hevent hentered hnext)).mpr hrunning

/-- A login of which nothing reaches the file, and a tick. -/
theorem survives_iff_entered_short :
    let login : Bytes := ((Protocol.loginRequest (text "ana") (text "pass")).serialize
      JsonLib.reference).toOption.getD []
    let events : List Event := [.accept, .receive 0 login, .readDone 0 (1, 2) { short := some 0 },
      .tick [1] [text "ana"] fun _ ↦ {}]
    ∃ final, start JsonLib.reference {} = .ok {} ∧
      Transition.run (step JsonLib.reference) {} events = some final ∧
      final.status = .running ∧
      Transition.Always (step JsonLib.reference) (AdmitsEntered JsonLib.reference) {} events := by
  intro login events
  have hend : (Transition.run (step JsonLib.reference) {} events).map Server.status =
      some .running := by decide +kernel
  obtain ⟨final, hrun, hrunning⟩ := Option.map_eq_some_iff.mp hend
  have hstart : start JsonLib.reference {} = .ok {} := rfl
  have hfinishes : ∀ event ∈ events, event.Finishes := by
    intro event hevent
    simp only [events, List.mem_cons, List.not_mem_nil, or_false] at hevent
    rcases hevent with rfl | rfl | rfl | rfl
    · trivial
    · trivial
    · rfl
    · exact fun _ ↦ ⟨rfl, rfl, rfl⟩
  exact ⟨final, hstart, hrun, hrunning,
    (survives_iff_entered JsonLib.reference_lawful hstart hfinishes hrun).mpr hrunning⟩

end Server

end NetPixeld
