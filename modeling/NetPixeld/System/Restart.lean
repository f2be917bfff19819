import NetPixeld.Server.AtomicSave
import NetPixeld.Server.Survival
import NetPixeld.System.Ledger

/-!
# What a restart finds

The process can be killed anywhere, also inside a save. What the file then holds is the store before
or after the change that was being saved, and a change is announced only when its save is over. So a
server started on the file knows every account that a session was logged in with and every harvest
that was announced, and at most one harvest that was not.
-/

namespace NetPixeld

/-- Nothing fails in a save but, perhaps, the process. -/
structure SaveIO.Undisturbed (io : SaveIO) : Prop where
  opens : io.opens = true
  renames : io.renames = true
  short : io.short = none

namespace JsonDB

/-- Such a save completes, or the file is as it was or as it should be. -/
theorem commit_undisturbed {lib : JsonLib} (hlib : lib.Lawful) (db : JsonDB) {accounts : Accounts}
    (hvalid : Valid accounts) {io : SaveIO} (hio : io.Undisturbed) :
    (commit lib db accounts io).2 = .returned () ∧ (commit lib db accounts io).1.Saved lib ∨
      (commit lib db accounts io).2 = .died ∧
        ((commit lib db accounts io).1.files.target = db.files.target ∨
          load lib (commit lib db accounts io).1.files.target = .ok accounts) := by
  obtain ⟨content, hcontent⟩ := serialization_ok lib hvalid
  obtain ⟨hopens, hrenames, hshort⟩ := hio
  have hreaching : io.reaching content = content := by
    unfold SaveIO.reaching
    rw [hshort]
  have hload := load_serialization hlib hvalid hcontent
  by_cases hearly : io.stop = some .start ∨ io.stop = some .opened ∨ io.stop = some .written
  · right
    constructor
    · rcases hearly with hstop | hstop | hstop <;> simp [commit, save, hstop, hcontent]
    · left
      exact save_target_of_not_renamed lib accounts io db.files (by tauto)
  · simp only [not_or] at hearly
    have htarget := save_target_of_renamed lib accounts io db.files hearly.1 hearly.2.1 hearly.2.2
      hrenames hcontent
    rw [if_pos hopens, hreaching] at htarget
    have hloaded : load lib (commit lib db accounts io).1.files.target = .ok accounts := by
      rw [← hload]
      exact congrArg (load lib) htarget
    by_cases hstop : io.stop = some .renamed
    · right
      refine ⟨?_, Or.inr hloaded⟩
      simp [commit, save, hstop, hcontent, rename, writeTmp, hopens, hrenames]
    · left
      refine ⟨?_, hvalid, hloaded⟩
      simp [commit, save, hearly, hstop, hcontent, rename, writeTmp, hopens, hrenames]

end JsonDB

namespace Server

variable {lib : JsonLib} {first : Accounts}

/-- Memory and file agree, and the books are balanced. -/
structure Durable (lib : JsonLib) (first : Accounts) (server : Server) : Prop where
  saved : server.db.Saved lib
  balanced : Balanced first server.db.accounts server.stores

/-- What the file holds when the process was killed inside a save. -/
structure FileHolds (lib : JsonLib) (first : Accounts) (server : Server) (saved : Accounts)
    (extra : List (Bytes × Resources)) : Prop where
  loaded : JsonDB.load lib server.db.files.target = .ok saved
  balanced : Balanced first saved (server.stores ++ extra)
  extra : extra.length ≤ 1
  accounts : ∀ index session, server.object index = some session → session.uuid ≠ [] →
    JsonDB.HasUuid saved session.uuid

/-- The file is good for a restart. -/
def Recoverable (lib : JsonLib) (first : Accounts) (server : Server) : Prop :=
  ∃ saved extra, FileHolds lib first server saved extra ∧
    (server.status ≠ .killed → extra = [] ∧ saved = server.db.accounts)

theorem Durable.recoverable {server : Server} (h : server.Durable lib first)
    (henrolled : server.Enrolled) : server.Recoverable lib first := by
  refine ⟨server.db.accounts, [], ⟨h.saved.loaded, ?_, Nat.zero_le 1, henrolled.account⟩,
    fun _ ↦ ⟨rfl, rfl⟩⟩
  rw [List.append_nil]
  exact h.balanced

theorem Recoverable.durable {server : Server} (h : server.Recoverable lib first)
    (henrolled : server.Enrolled) (hstatus : server.status ≠ .killed) :
    server.Durable lib first := by
  obtain ⟨saved, extra, hholds, hsame⟩ := h
  obtain ⟨rfl, rfl⟩ := hsame hstatus
  refine ⟨⟨henrolled.valid, hholds.loaded⟩, ?_⟩
  have hbalanced := hholds.balanced
  rwa [List.append_nil] at hbalanced

/-- The accounts of before are in whatever a save of one more change leaves behind. -/
theorem hasUuid_insert {accounts : Accounts} {username : Bytes} {written : Account}
    (hsame : ∀ acc, accounts.find username = some acc → written.uuid = acc.uuid) {uuid : Bytes}
    (h : JsonDB.HasUuid accounts uuid) :
    JsonDB.HasUuid (accounts.insert username written) uuid := by
  obtain ⟨user, acc, hfind, rfl⟩ := h
  by_cases heq : username = user
  · subst heq
    exact ⟨username, written, SortedMap.find_insert_self .., hsame acc hfind⟩
  · exact ⟨user, acc, by rw [SortedMap.find_insert_of_ne _ heq, hfind], rfl⟩

/-! ## Logins -/

/-- What a login leaves in a store whose file agrees with it. -/
theorem login_undisturbed (hlib : lib.Lawful) {db : JsonDB} (hsaved : db.Saved lib)
    {stores : List (Bytes × Resources)} (hbalanced : Balanced first db.accounts stores)
    {user pass : Bytes} (huser : Utf8.Valid user) (hpass : Utf8.Valid pass)
    {draw : UInt64 × UInt64} (hfresh : ¬JsonDB.HasUuid db.accounts (JsonDB.generateUuid draw))
    {io : SaveIO} (hio : io.Undisturbed) :
    (login lib db user pass draw io).2 ≠ .died ∧ (login lib db user pass draw io).1.Saved lib ∧
        Balanced first (login lib db user pass draw io).1.accounts stores ∨
      (login lib db user pass draw io).2 = .died ∧ ∃ saved,
        JsonDB.load lib (login lib db user pass draw io).1.files.target = .ok saved ∧
        Balanced first saved stores ∧
        ∀ uuid, JsonDB.HasUuid db.accounts uuid → JsonDB.HasUuid saved uuid := by
  unfold login JsonDB.userExists
  cases hfind : db.accounts.find user with
  | some acc =>
    left
    simp only [Option.isSome_some, if_true]
    split
    · refine ⟨?_, hsaved, hbalanced⟩
      cases db.getUser user pass <;> simp [Outcome.ofExcept, Outcome.map]
    · exact ⟨by simp, hsaved, hbalanced⟩
  | none =>
    have hadded : Balanced first (db.accounts.insert user
        { password := pass, uuid := JsonDB.generateUuid draw }) stores :=
      hbalanced.register hfind hfresh
    have hvalid : JsonDB.Valid (db.accounts.insert user
        { password := pass, uuid := JsonDB.generateUuid draw }) :=
      JsonDB.valid_insert hsaved.valid
        ⟨huser, hpass, JsonDB.generateUuid_valid draw, by simp⟩
    simp only [Option.isSome_none, Bool.false_eq_true, if_false, JsonDB.addUser, hfind]
    rcases JsonDB.commit_undisturbed hlib db hvalid hio with ⟨hreturned, hcommitted⟩ |
      ⟨hdied, htarget⟩
    · left
      rw [hreturned]
      exact ⟨by simp [Outcome.map], hcommitted, hadded⟩
    · right
      rw [hdied]
      refine ⟨rfl, ?_⟩
      rcases htarget with htarget | hloaded
      · exact ⟨db.accounts, by rw [htarget]; exact hsaved.loaded, hbalanced, fun _ h ↦ h⟩
      · refine ⟨_, hloaded, hadded, fun uuid h ↦ hasUuid_insert (fun acc hacc ↦ ?_) h⟩
        cases hfind.symm.trans hacc

/-- A line whose login dies in its save. -/
theorem onLine_died {server : Server} {clientId : UInt8} {line user pass : Bytes}
    {draw : UInt64 × UInt64} {io : SaveIO} (hrequest : Requests lib line user pass)
    (hdied : (login lib server.db user pass draw io).2 = .died) :
    server.onLine lib clientId line draw io =
      ({ server with db := (login lib server.db user pass draw io).1 }, .died) := by
  obtain ⟨msg, hread, htype, hcredentials⟩ := hrequest
  simp only [onLine, hread, onClientMessage, htype, if_true, onLoginRequest, hcredentials, hdied]

/-- A line changes the store by a login, if at all. -/
theorem Handled.database {server : Server} {clientId : UInt8} {line : Bytes}
    {draw : UInt64 × UInt64} {io : SaveIO} {result : Server × Outcome Unit}
    (h : Handled lib server clientId line draw io result) :
    result.1.stores = server.stores ∧ (result.1.db = server.db ∨ ∃ user pass,
      Requests lib line user pass ∧
        result.1.db = (login lib server.db user pass draw io).1) := by
  cases h with
  | ignored => exact ⟨rfl, Or.inl rfl⟩
  | refused hrequest | unregistered hrequest | null hrequest | unsent hrequest
  | answered hrequest => exact ⟨rfl, Or.inr ⟨_, _, hrequest, rfl⟩⟩

theorem Durable.readDone (hlib : lib.Lawful) {server next : Server}
    (h : server.Durable lib first) (henrolled : server.Enrolled) {index : ℕ}
    {draw : UInt64 × UInt64} {io : SaveIO}
    (hfresh : ¬JsonDB.HasUuid server.db.accounts (JsonDB.generateUuid draw))
    (hio : io.Undisturbed) (hstep : server.step lib (.readDone index draw io) = some next) :
    next.Recoverable lib first := by
  have hnext := step_enrolled hlib henrolled hstep
  obtain ⟨session, line, after, hobject, hline, rfl⟩ := readDone_eq_some hstep
  let read := (server.update index fun _ ↦ after).record (.received index line)
  have hstores : read.stores = server.stores := stores_of_log rfl rfl
  have hstatus : read.status = .running := (step_stepped hstep).1
  by_cases hdies : ∃ user pass, Requests lib line user pass ∧
      (login lib server.db user pass draw io).2 = .died
  · obtain ⟨user, pass, hrequest, hdied⟩ := hdies
    obtain ⟨huser, hpass⟩ := hrequest.valid hlib
    rcases login_undisturbed hlib h.saved h.balanced huser hpass hfresh hio with ⟨halive, _⟩ |
      ⟨_, saved, hloaded, hbalanced, hkept⟩
    · exact absurd hdied halive
    have honLine : read.onLine lib session.clientId line draw io = _ := onLine_died hrequest hdied
    rw [honLine]
    refine ⟨saved, [], ⟨hloaded, ?_, Nat.zero_le 1, fun other session' hobject' hne ↦ ?_⟩,
      fun hkilled ↦ absurd rfl hkilled⟩
    · rw [List.append_nil]
      exact hstores.symm ▸ hbalanced
    · have hread : (server.update index fun _ ↦ after).Enrolled :=
        henrolled.update fun session'' hobject'' ↦ by
          cases hobject.symm.trans hobject''
          exact (Session.takeLine_same hline).uuid
      exact hkept _ (hread.account other session' hobject' hne)
  · have hhandled := onLine_handled lib read session.clientId line draw io
    obtain ⟨status, hguarded, _⟩ := guarded_eq (hhandled.status.trans hstatus)
    obtain ⟨hsame, hdatabase⟩ := hhandled.database
    have halive : ∀ user pass, Requests lib line user pass →
        (login lib server.db user pass draw io).1.Saved lib ∧
          Balanced first (login lib server.db user pass draw io).1.accounts server.stores := by
      intro user pass hrequest
      obtain ⟨huser, hpass⟩ := hrequest.valid hlib
      rcases login_undisturbed hlib h.saved h.balanced huser hpass hfresh hio with ⟨_, hboth⟩ |
        ⟨hdied, _⟩
      · exact hboth
      · exact absurd ⟨user, pass, hrequest, hdied⟩ hdies
    refine Durable.recoverable ⟨?_, ?_⟩ hnext
    · rw [hguarded]
      rcases hdatabase with hdb | ⟨user, pass, hrequest, hdb⟩
      · exact hdb ▸ h.saved
      · exact hdb ▸ (halive user pass hrequest).1
    · rw [hguarded]
      change Balanced first (read.onLine lib session.clientId line draw io).1.db.accounts
        (read.onLine lib session.clientId line draw io).1.stores
      rw [hsame, hstores]
      rcases hdatabase with hdb | ⟨user, pass, hrequest, hdb⟩
      · exact hdb ▸ h.balanced
      · exact hdb ▸ (halive user pass hrequest).2

/-! ## Ticks -/

/-- What a round, or a whole tick, leaves. -/
def Rounded (lib : JsonLib) (first : Accounts) (result : Server × Outcome Unit) : Prop :=
  result.2 ≠ .died ∧ result.1.Durable lib first ∨
    result.2 = .died ∧ ∃ saved extra, FileHolds lib first result.1 saved extra

/-- A round whose account was found. -/
theorem Durable.serveAccount (hlib : lib.Lawful) {server : Server} (h : server.Durable lib first)
    (henrolled : server.Enrolled) {walk : List Bytes} {io : SaveIO} (hio : io.Undisturbed)
    (clientId : UInt8) (index : ℕ) {uuid username : Bytes} {acc : Account}
    (hscan : JsonDB.scan server.db.accounts walk uuid = some (username, acc)) :
    Rounded lib first
      (server.serveAccount lib walk io clientId index uuid (harvest acc.resources)) := by
  obtain ⟨hfind, rfl⟩ := JsonDB.scan_eq_some hscan
  have hacc := h.saved.valid username acc hfind
  have hvalid : JsonDB.Valid (server.db.accounts.insert username
      { acc with resources := harvest acc.resources }) :=
    JsonDB.valid_insert h.saved.valid ⟨hacc.username, hacc.password, hacc.uuid, hacc.camps⟩
  have hbalanced := h.balanced.harvest hfind
  unfold Server.serveAccount JsonDB.updateResources JsonDB.modifyAccount
  simp only [advanceCounter_db, hscan]
  rcases JsonDB.commit_undisturbed hlib server.db hvalid hio with ⟨hreturned, hsaved⟩ |
    ⟨hdied, htarget⟩
  · left
    have hstores : (server.record (.stored acc.uuid (harvest acc.resources))).stores =
        server.stores ++ [(acc.uuid, harvest acc.resources)] := by
      rw [stores, record_log, List.filterMap_append]
      rfl
    simp only [hreturned, send]
    split
    · exact ⟨by simp, hsaved, hstores ▸ hbalanced⟩
    · exact ⟨by simp, hsaved, hstores ▸ hbalanced⟩
  · right
    simp only [hdied]
    refine ⟨trivial, ?_⟩
    rcases htarget with htarget | hloaded
    · refine ⟨server.db.accounts, [], ?_, ?_, Nat.zero_le 1, henrolled.account⟩
      · rw [← h.saved.loaded]
        exact congrArg (JsonDB.load lib) htarget
      · rw [List.append_nil]
        exact h.balanced
    · refine ⟨_, _, hloaded, hbalanced, le_refl 1, fun other session hobject hne ↦ ?_⟩
      refine hasUuid_insert (fun found hfound ↦ ?_) (henrolled.account other session hobject hne)
      cases hfind.symm.trans hfound
      rfl

theorem Durable.serve (hlib : lib.Lawful) {server : Server} (h : server.Durable lib first)
    (henrolled : server.Enrolled) {walk : List Bytes} {io : SaveIO} (hio : io.Undisturbed)
    (clientId : UInt8) : Rounded lib first (server.serve lib walk io clientId) := by
  unfold Server.serve
  split
  · exact Or.inl ⟨by simp, h⟩
  · exact Or.inl ⟨by simp, h⟩
  next index hentry =>
  split
  · exact Or.inl ⟨by simp, h⟩
  next session hobject =>
  split
  · exact Or.inl ⟨by simp, h⟩
  split
  · exact Or.inl ⟨by simp, h⟩
  next pool hpool =>
  unfold JsonDB.getResources JsonDB.readAccount at hpool
  split at hpool
  · next username acc hscan =>
    cases hpool
    exact h.serveAccount hlib henrolled hio clientId index hscan
  · cases hpool

theorem Durable.serveAll (hlib : lib.Lawful) {walk : List Bytes} {io : UInt8 → SaveIO}
    (hio : ∀ clientId, (io clientId).Undisturbed) {order : List UInt8} {server : Server}
    (h : server.Durable lib first) (henrolled : server.Enrolled) :
    Rounded lib first (serveAll lib walk io order server) := by
  induction order generalizing server with
  | nil => exact Or.inl ⟨by simp [Server.serveAll], h⟩
  | cons clientId rest ih =>
    have hround := @Durable.serve lib first hlib server h henrolled walk _ (hio clientId) clientId
    have hnext := henrolled.served (serve_served lib server walk (io clientId) clientId)
    rw [Server.serveAll]
    split
    · next next hserve =>
      rw [hserve] at hround hnext
      rcases hround with ⟨_, hdurable⟩ | ⟨hdied, _⟩
      · exact ih hdurable hnext
      · cases hdied
    · exact hround

theorem Durable.tick (hlib : lib.Lawful) {server next : Server} (h : server.Durable lib first)
    (henrolled : server.Enrolled) {order : List UInt8} {walk : List Bytes} {io : UInt8 → SaveIO}
    (hio : ∀ clientId, (io clientId).Undisturbed)
    (hstep : server.step lib (.tick order walk io) = some next) : next.Recoverable lib first := by
  have hnext := step_enrolled hlib henrolled hstep
  obtain ⟨_, rfl⟩ := tick_eq_some hstep
  have hrunning := (serveAll_status lib walk io order server).trans (step_stepped hstep).1
  have hround : Rounded lib first (Server.serveAll lib walk io order server) :=
    h.serveAll hlib hio henrolled
  obtain ⟨status, hconclude, _⟩ := conclude_eq hrunning
  rcases hround with ⟨_, hdurable⟩ | ⟨hdied, saved, extra, hholds⟩
  · refine Durable.recoverable ⟨?_, ?_⟩ hnext
    · rw [hconclude]
      exact hdurable.saved
    · rw [hconclude]
      exact hdurable.balanced
  · have hkilled : (conclude (Server.serveAll lib walk io order server)).status = .killed := by
      rw [conclude, hdied]
    refine ⟨saved, extra, ?_, fun halive ↦ absurd hkilled halive⟩
    rw [hconclude]
    exact ⟨hholds.loaded, hholds.balanced, hholds.extra, hholds.accounts⟩

/-! ## Every run -/

/-- Nothing fails in the saves of an event but, perhaps, the process. -/
def Event.Undisturbed : Event → Prop
  | .readDone _ _ io => io.Undisturbed
  | .tick _ _ io => ∀ clientId, (io clientId).Undisturbed
  | _ => True

/-- The store and what was stored stay. -/
theorem Durable.same {server next : Server} (h : server.Durable lib first)
    (hdb : next.db = server.db) (hstores : next.stores = server.stores) :
    next.Durable lib first := by
  refine ⟨hdb ▸ h.saved, ?_⟩
  rw [hdb, hstores]
  exact h.balanced

theorem step_recoverable (hlib : lib.Lawful) {server next : Server} {event : Event}
    (h : server.Recoverable lib first) (henrolled : server.Enrolled)
    (hfresh : FreshDraw server event) (hio : event.Undisturbed)
    (hstep : server.step lib event = some next) : next.Recoverable lib first := by
  have hrunning := (step_stepped hstep).1
  have hdurable := h.durable henrolled (by rw [hrunning]; decide)
  have hnext := step_enrolled hlib henrolled hstep
  cases event with
  | readDone index draw io => exact hdurable.readDone hlib henrolled hfresh hio hstep
  | tick order walk io => exact hdurable.tick hlib henrolled hio hstep
  | accept | readFailed | writeFailed =>
    cases (step_stepped hstep).2
    refine Durable.recoverable ?_ hnext
    exact hdurable.same rfl (stores_of_log rfl rfl)
  | acceptFailed =>
    cases (step_stepped hstep).2
    exact h
  | receive | strand | writeDone | timerCanceled =>
    cases (step_stepped hstep).2
    refine Durable.recoverable ?_ hnext
    exact hdurable.same rfl rfl

/-- Whenever and wherever the process stops, a server can be started on what the file holds. It
knows every account a session was logged in with, and the books of its accounts are balanced with
everything that was stored and at most one harvest more. Where the process was not killed, it has
the accounts that were in memory. -/
theorem restart_balanced (hlib : lib.Lawful) {files : Files} {opened final : Server}
    (hstart : start lib files = .ok opened) (hdistinct : JsonDB.Distinct opened.db.accounts)
    {events : List Event}
    (hevents : Transition.Always (step lib)
      (fun server event ↦ FreshDraw server event ∧ event.Undisturbed) opened events)
    (hrun : Transition.run (step lib) opened events = some final) :
    ∃ restarted extra, start lib final.db.files = .ok restarted ∧
      Balanced opened.db.accounts restarted.db.accounts (final.stores ++ extra) ∧
      extra.length ≤ 1 ∧
      (∀ index session, final.object index = some session → session.uuid ≠ [] →
        JsonDB.HasUuid restarted.db.accounts session.uuid) ∧
      (final.status ≠ .killed → extra = [] ∧ restarted.db.accounts = final.db.accounts) := by
  have henrolled := @enrolled_run lib hlib files opened opened hstart [] rfl
  have hrecoverable : opened.Recoverable lib opened.db.accounts := by
    refine Durable.recoverable ⟨?_, ?_⟩ henrolled
    · obtain ⟨db, hdb, rfl⟩ := map_eq_ok.mp hstart
      obtain ⟨accounts, hload, rfl⟩ := map_eq_ok.mp hdb
      exact ⟨henrolled.valid, hload⟩
    · obtain ⟨db, _, rfl⟩ := map_eq_ok.mp hstart
      exact Balanced.init hdistinct
  have hkept : ∀ {server next : Server} {event : Event},
      server.Recoverable lib opened.db.accounts ∧ server.Enrolled →
      FreshDraw server event ∧ event.Undisturbed → server.step lib event = some next →
      next.Recoverable lib opened.db.accounts ∧ next.Enrolled := by
    intro server next event h hcondition hstep
    exact ⟨step_recoverable hlib h.1 h.2 hcondition.1 hcondition.2 hstep,
      step_enrolled hlib h.2 hstep⟩
  obtain ⟨⟨saved, extra, hholds, hsame⟩, _⟩ :=
    Transition.invariant_run_of_always hkept ⟨hrecoverable, henrolled⟩ hevents hrun
  refine ⟨{ db := ⟨saved, final.db.files⟩ }, extra, ?_, hholds.balanced, hholds.extra,
    hholds.accounts, hsame⟩
  rw [start, JsonDB.new, hholds.loaded]
  rfl

/-- The process is killed right behind the rename of a tick's save. -/
theorem restart_balanced_killed :
    ∃ final restarted extra, Transition.run (step JsonLib.reference) {}
        [.accept, .receive 0 (((Protocol.loginRequest (text "ana") (text "pass")).serialize
          JsonLib.reference).toOption.getD []), .readDone 0 (1, 2) {},
          .tick [1] [text "ana"] fun _ ↦ { stop := some .renamed }] = some final ∧
      final.status = .killed ∧ start JsonLib.reference final.db.files = .ok restarted ∧
      Balanced ∅ restarted.db.accounts (final.stores ++ extra) := by
  let login : Bytes := ((Protocol.loginRequest (text "ana") (text "pass")).serialize
    JsonLib.reference).toOption.getD []
  have hbefore : (Transition.run (step JsonLib.reference) {} [.accept, .receive 0 login]).map
      (fun server ↦ server.db.accounts.items) = some [] := by decide +kernel
  have hend : (Transition.run (step JsonLib.reference) {} ([.accept, .receive 0 login] ++
      [.readDone 0 (1, 2) {}, .tick [1] [text "ana"] fun _ ↦ { stop := some .renamed }])).map
        Server.status = some .killed := by decide +kernel
  obtain ⟨final, hrun, hkilled⟩ := Option.map_eq_some_iff.mp hend
  have hstart : start JsonLib.reference {} = .ok {} := rfl
  have hdistinct : JsonDB.Distinct ({} : Server).db.accounts := fun _ _ _ _ h ↦ by cases h
  have hevents : Transition.Always (step JsonLib.reference)
      (fun server event ↦ FreshDraw server event ∧ event.Undisturbed) {}
      ([.accept, .receive 0 login] ++
        [.readDone 0 (1, 2) {}, .tick [1] [text "ana"] fun _ ↦ { stop := some .renamed }]) := by
    refine Transition.always_append
      ⟨⟨trivial, trivial⟩, fun _ _ ↦ ⟨⟨trivial, trivial⟩, fun _ _ ↦ trivial⟩⟩ ?_
    intro middle hmiddle
    rw [hmiddle] at hbefore
    refine ⟨⟨?_, ⟨rfl, rfl, rfl⟩⟩, fun _ _ ↦ ⟨⟨trivial, fun _ ↦ ⟨rfl, rfl, rfl⟩⟩,
      fun _ _ ↦ trivial⟩⟩
    rintro ⟨username, acc, hfind, _⟩
    have hnone : middle.db.accounts.items = [] := Option.some.inj hbefore
    rw [SortedMap.find, hnone] at hfind
    cases hfind
  obtain ⟨restarted, extra, hrestarted, hbalanced, _⟩ :=
    restart_balanced JsonLib.reference_lawful hstart hdistinct hevents hrun
  exact ⟨final, restarted, extra, hrun, hkilled, hrestarted, hbalanced⟩

end Server

end NetPixeld
