import NetPixeld.System.Ledger
import NetPixeld.System.Requests

/-!
# Where accounts come from

An account is one that the store was loaded with, or a line read on a connection named it with its
password. The connection of a client brings the clicks of its user only. So behind every new account
stands a click, or a connection that is not a client's.
-/

namespace NetPixeld

namespace JsonDB

/-- There was such an account: under this name, with this uuid and this password. -/
def Had (accounts : Accounts) (username : Bytes) (acc : Account) : Prop :=
  ∃ old, accounts.find username = some old ∧ old.uuid = acc.uuid ∧ old.password = acc.password

theorem had_of_find {accounts : Accounts} {username : Bytes} {acc : Account}
    (h : accounts.find username = some acc) : Had accounts username acc :=
  ⟨acc, h, rfl, rfl⟩

/-- There is no account that was not there before. -/
def Inherited (before after : Accounts) : Prop :=
  ∀ username acc, after.find username = some acc → Had before username acc

theorem Inherited.refl (accounts : Accounts) : Inherited accounts accounts :=
  fun _ _ ↦ had_of_find

theorem Inherited.had {before after : Accounts} (h : Inherited before after) {username : Bytes}
    {acc : Account} (hhad : Had after username acc) : Had before username acc := by
  obtain ⟨old, hfind, huuid, hpassword⟩ := hhad
  obtain ⟨oldest, holdest, huuid', hpassword'⟩ := h username old hfind
  exact ⟨oldest, holdest, huuid'.trans huuid, hpassword'.trans hpassword⟩

theorem Inherited.trans {first second third : Accounts} (h : Inherited first second)
    (h' : Inherited second third) : Inherited first third :=
  fun username acc hfind ↦ h.had (h' username acc hfind)

/-- New totals are given to an account that was there. -/
theorem updateResources_inherited (lib : JsonLib) (db : JsonDB) (walk : List Bytes) (uuid : Bytes)
    (pool : Resources) (io : SaveIO) :
    Inherited db.accounts (db.updateResources lib walk uuid pool io).1.accounts := by
  unfold updateResources modifyAccount
  split
  · next user found hscan =>
    intro username acc hfind
    change (db.accounts.insert user { found with resources := pool }).find username = some acc
      at hfind
    rw [SortedMap.find_insert] at hfind
    split at hfind
    · next heq =>
      subst heq
      cases hfind
      exact ⟨found, (scan_eq_some hscan).1, rfl, rfl⟩
    · exact had_of_find hfind
  · exact .refl _

end JsonDB

namespace Server

open JsonDB (Had Inherited had_of_find)

variable {lib : JsonLib} {server next : Server} {username : Bytes} {acc : Account}

/-- A line read on a connection named a user and a password. -/
def Named (lib : JsonLib) (server : Server) (user pass : Bytes) : Prop :=
  ∃ index, ∃ line ∈ server.linesOf index, Requests lib line user pass

/-- A line asks for one login at most. -/
theorem Requests.unique {line user pass user' pass' : Bytes} (h : Requests lib line user pass)
    (h' : Requests lib line user' pass') : (user, pass) = (user', pass') := by
  obtain ⟨msg, hread, _, hcredentials⟩ := h
  obtain ⟨msg', hread', _, hcredentials'⟩ := h'
  cases hread.symm.trans hread'
  exact Except.ok.inj (hcredentials.symm.trans hcredentials')

/-- Every account was there at first, or it was named together with its password. -/
def Sourced (lib : JsonLib) (first : Accounts) (server : Server) : Prop :=
  ∀ username acc, server.db.accounts.find username = some acc →
    Had first username acc ∨ server.Named lib username acc.password

/-! ## One step -/

theorem login_had {db : JsonDB} {user pass : Bytes} {draw : UInt64 × UInt64} {io : SaveIO}
    (h : (login lib db user pass draw io).1.accounts.find username = some acc) :
    Had db.accounts username acc ∨ user = username ∧ pass = acc.password := by
  rcases login_accounts lib db user pass draw io with hsame | ⟨_, hadded⟩
  · rw [hsame] at h
    exact Or.inl (had_of_find h)
  · rw [hadded, SortedMap.find_insert] at h
    split at h
    · next heq =>
      cases h
      exact Or.inr ⟨heq, rfl⟩
    · exact Or.inl (had_of_find h)

theorem Handled.had {clientId : UInt8} {line : Bytes} {draw : UInt64 × UInt64} {io : SaveIO}
    {result : Server × Outcome Unit} (h : Handled lib server clientId line draw io result)
    (hfind : result.1.db.accounts.find username = some acc) :
    Had server.db.accounts username acc ∨ Requests lib line username acc.password := by
  have hlogin : ∀ {user pass}, Requests lib line user pass →
      (login lib server.db user pass draw io).1.accounts.find username = some acc →
      Had server.db.accounts username acc ∨ Requests lib line username acc.password := by
    intro user pass hrequest hfound
    rcases login_had hfound with hhad | ⟨rfl, rfl⟩
    · exact Or.inl hhad
    · exact Or.inr hrequest
  cases h with
  | ignored => exact Or.inl (had_of_find hfind)
  | refused hrequest | unregistered hrequest | null hrequest | unsent hrequest
  | answered hrequest => exact hlogin hrequest hfind

theorem Served.inherited {walk : List Bytes} {io : SaveIO} {clientId : UInt8}
    {result : Server × Outcome Unit} (h : Served lib server walk io clientId result) :
    Inherited server.db.accounts result.1.db.accounts := by
  cases h with
  | idle | broken | unknown => exact .refl _
  | unsaved | unsent | updated => exact JsonDB.updateResources_inherited lib server.db walk _ _ io

theorem serveAll_inherited (lib : JsonLib) (walk : List Bytes) (io : UInt8 → SaveIO)
    (order : List UInt8) (server : Server) :
    Inherited server.db.accounts (serveAll lib walk io order server).1.db.accounts := by
  refine serveAll_rule (fun _ next ↦ Inherited server.db.accounts next.db.accounts)
    (fun result ↦ Inherited server.db.accounts result.1.db.accounts) (fun _ h ↦ h) ?_ (.refl _)
  intro clientId rest next result h hserved
  have hresult := h.trans hserved.inherited
  split
  · exact hresult
  · exact hresult

/-- Lines that were read stay read. -/
theorem step_named {event : Event} (hstep : server.step lib event = some next) {user pass : Bytes}
    (h : server.Named lib user pass) : next.Named lib user pass := by
  obtain ⟨index, line, hline, hrequest⟩ := h
  obtain ⟨lines, hlines, _⟩ := step_reads hstep index
  refine ⟨index, line, ?_, hrequest⟩
  rw [hlines]
  exact List.mem_append_left _ hline

/-- The accounts behind a step were there before it, or the line it read named them. -/
theorem step_had {event : Event} (hstep : server.step lib event = some next)
    (hfind : next.db.accounts.find username = some acc) :
    Had server.db.accounts username acc ∨ next.Named lib username acc.password := by
  cases (step_stepped hstep).2 with
  | accept | acceptFailed | receive | strand | writeDone | readFailed | writeFailed
  | timerCanceled => exact Or.inl (had_of_find hfind)
  | tick _ hresult =>
    subst hresult
    exact Or.inl (serveAll_inherited _ _ _ _ _ _ _ hfind)
  | @readDone index _ _ before after line result _ _ _ hhandled _ =>
    rcases hhandled.had hfind with hhad | hrequest
    · exact Or.inl hhad
    · have hread : result.1.linesOf index =
          ((server.update index fun _ ↦ after).record (.received index line)).linesOf index :=
        hhandled.unread.lines index
      refine Or.inr ⟨index, line, ?_, hrequest⟩
      change line ∈ result.1.linesOf index
      rw [hread, linesOf, record_log, List.filterMap_append]
      exact List.mem_append_right _ (by simp [Action.lineOf])

theorem step_sourced {first : Accounts} {event : Event} (h : server.Sourced lib first)
    (hstep : server.step lib event = some next) : next.Sourced lib first := by
  intro username acc hfind
  rcases step_had hstep hfind with ⟨old, hold, huuid, hpassword⟩ | hnamed
  · rcases h username old hold with ⟨oldest, holdest, huuid', hpassword'⟩ | hnamed
    · exact Or.inl ⟨oldest, holdest, huuid'.trans huuid, hpassword'.trans hpassword⟩
    · exact Or.inr (hpassword ▸ step_named hstep hnamed)
  · exact Or.inr hnamed

end Server

/-- The uuid of a client is one that its session was told. -/
theorem Peer.Follows.told {lib : JsonLib} {server : Server} {peer : Peer}
    {polled queued : List Notice} (h : peer.Follows lib server polled queued)
    (huuid : peer.app.ctx.uuid ≠ []) :
    ∃ index session packet, peer.session = some index ∧ server.object index = some session ∧
      packet ∈ session.sent ∧ Server.Carries packet.message peer.app.ctx.uuid := by
  have hanswer : peer.app.ctx.uuid ∈ polled.filterMap Notice.answer := by
    have hshown := h.shows.uuid
    cases hanswers : polled.filterMap Notice.answer with
    | nil => exact absurd (hshown.trans (by rw [hanswers]; rfl)) huuid
    | cons first rest =>
      rw [hshown, hanswers]
      exact List.mem_cons_self ..
  obtain ⟨notice, hpolled, hnotice⟩ := List.mem_filterMap.mp hanswer
  have hheard : notice ∈ polled ++ queued := List.mem_append_left queued hpolled
  cases hsession : peer.session with
  | none =>
    rw [(h.attached.waiting hsession).1] at hheard
    cases hheard
  | some index =>
    obtain ⟨session, rest, hobject, hannounces, _⟩ := h.attached.connected index hsession
    obtain ⟨packet, hpacket, hcarries⟩ :=
      Packet.exists_packet hannounces.packets (List.mem_append_left rest hheard)
    refine ⟨index, session, packet, rfl, hobject, hpacket, ?_⟩
    cases notice with
    | assign | update => cases hnotice
    | result sequence uuid =>
      cases hnotice
      rw [hcarries.message]
      exact ⟨rfl, .str _, rfl, rfl⟩

namespace System

variable {lib : JsonLib}

theorem sourced_run {server : Server} {events : List Event} {final : System}
    (hrun : Transition.run (step lib) ⟨server, []⟩ events = some final) :
    final.server.Sourced lib server.db.accounts := by
  have hkeeps : ∀ {system next : System} {event : Event},
      system.server.Sourced lib server.db.accounts → system.step lib event = some next →
      next.server.Sourced lib server.db.accounts := by
    intro system next event h hstep
    cases step_stepped hstep with
    | launch | download | client => exact h
    | accept _ _ hserver | upload _ hserver | server hserver => exact Server.step_sourced h hserver
  exact Transition.invariant_run hkeeps
    (fun username acc hfind ↦ Or.inl (JsonDB.had_of_find hfind)) hrun

theorem authenticated_run {files : Files} {server : Server}
    (hstart : Server.start lib files = .ok server) {events : List Event} {final : System}
    (hown : Transition.Always (step lib) (OfServer (Server.LoginOwn lib)) ⟨server, []⟩ events)
    (hrun : Transition.run (step lib) ⟨server, []⟩ events = some final) :
    Server.Authenticated lib final.server := by
  have hkeeps : ∀ {system next : System} {event : Event},
      Server.Authenticated lib system.server → system.OfServer (Server.LoginOwn lib) event →
      system.step lib event = some next → Server.Authenticated lib next.server := by
    intro system next event h hcondition hstep
    refine step_server Server.step_authenticated (fun _ ↦ ?_) (fun _ _ _ ↦ ?_) h hcondition hstep
    · intro index draw io session line rest user pass uuid other hevent
      cases hevent
    · intro index draw io session line rest user pass uuid other hevent
      cases hevent
  exact Transition.invariant_run_of_always hkeeps (Server.fresh_of_start hstart).authenticated
    hown hrun

/-! ## Clicks -/

/-- In a frame of the client at a place, its user clicked for a login with these two texts. -/
def Clicked (place : ℕ) (events : List Event) (user pass : Bytes) : Prop :=
  ∃ input, Event.client place (.frame input) ∈ events ∧ input.Sends ∧ input.username = user ∧
    input.pass = pass

theorem clicked_of_mem_requests {place : ℕ} {system : System} {events : List Event}
    {request : Bytes × Bytes} (h : request ∈ requests lib place system events) :
    Clicked place events request.1 request.2 := by
  obtain ⟨visited, event, hevent, hrequest⟩ := Transition.exists_of_mem_observed h
  cases event with
  | client other event =>
    rw [requestsAt] at hrequest
    split at hrequest
    swap
    · cases hrequest
    next heq =>
    subst heq
    cases hpeer : visited.peers[other]? with
    | none =>
      rw [hpeer] at hrequest
      cases hrequest
    | some peer =>
      rw [hpeer] at hrequest
      cases event with
      | frame input =>
        obtain ⟨hsends, rfl⟩ := Application.mem_asks hrequest
        exact ⟨input, hevent, hsends, rfl, rfl⟩
      | receive | takeLine | failRead => cases hrequest
  | launch | accept | server | upload | download => cases hrequest

/-- A login that was read from the connection of a client was clicked for. -/
theorem clicked_of_line (hlib : lib.Lawful) {files : Files} {server : Server}
    (hstart : Server.start lib files = .ok server) {events : List Event} {final : System}
    (hrun : Transition.run (step lib) ⟨server, []⟩ events = some final) {place index : ℕ}
    {peer : Peer} (hpeer : final.peers[place]? = some peer) (hsession : peer.session = some index)
    {line user pass : Bytes} (hline : line ∈ final.server.linesOf index)
    (hrequest : Server.Requests lib line user pass) : Clicked place events user pass := by
  obtain ⟨lines, hasking, hread, _⟩ := asked_lines hlib hstart hrun hpeer hsession
  obtain ⟨request, hmem, hasked⟩ := exists_of_forall₂ hasking (hread.subset hline)
  cases hrequest.unique hasked
  exact clicked_of_mem_requests hmem

/-- Every account was loaded when the server started, or a user of a client clicked for it with its
password, or a connection that is not a client's named it with its password. -/
theorem accounts_clicked (hlib : lib.Lawful) {files : Files} {server : Server}
    (hstart : Server.start lib files = .ok server) {events : List Event} {final : System}
    (hrun : Transition.run (step lib) ⟨server, []⟩ events = some final) {username : Bytes}
    {acc : Account} (hfind : final.server.db.accounts.find username = some acc) :
    JsonDB.Had server.db.accounts username acc ∨
      (∃ place, Clicked place events username acc.password) ∨
      ∃ index, (∀ peer ∈ final.peers, peer.session ≠ some index) ∧
        ∃ line ∈ final.server.linesOf index,
          Server.Requests lib line username acc.password := by
  rcases sourced_run hrun username acc hfind with hhad | ⟨index, line, hline, hrequest⟩
  · exact Or.inl hhad
  right
  by_cases hclient : ∃ peer ∈ final.peers, peer.session = some index
  · obtain ⟨peer, hmem, hsession⟩ := hclient
    obtain ⟨place, hpeer⟩ := List.getElem?_of_mem hmem
    exact Or.inl ⟨place, clicked_of_line hlib hstart hrun hpeer hsession hline hrequest⟩
  · exact Or.inr ⟨index, fun peer hmem hsession ↦ hclient ⟨peer, hmem, hsession⟩, line, hline,
      hrequest⟩

/-- A click creates an account. -/
theorem accounts_clicked_ana :
    let events : List Event := [.launch true, .accept 0,
      .client 0 (.frame { username := text "ana" }),
      .client 0 (.frame { username := text "ana", pass := text "pw" }),
      .client 0 (.frame { username := text "ana", pass := text "pw", clicked := true }),
      .upload 0 200, .server (.readDone 0 (1, 2) {})]
    ∃ final acc, Server.start JsonLib.reference {} = .ok {} ∧
      Transition.run (step JsonLib.reference) ⟨{}, []⟩ events = some final ∧
      final.server.db.accounts.find (text "ana") = some acc ∧
      (JsonDB.Had ∅ (text "ana") acc ∨
        (∃ place, Clicked place events (text "ana") acc.password) ∨
        ∃ index, (∀ peer ∈ final.peers, peer.session ≠ some index) ∧
          ∃ line ∈ final.server.linesOf index,
            Server.Requests JsonLib.reference line (text "ana") acc.password) := by
  intro events
  have hend : ((Transition.run (step JsonLib.reference) ⟨{}, []⟩ events).bind fun final ↦
      final.server.db.accounts.find (text "ana")).isSome = true := by
    decide +kernel
  obtain ⟨acc, hacc⟩ := Option.isSome_iff_exists.mp hend
  obtain ⟨final, hrun, hfind⟩ := Option.bind_eq_some_iff.mp hacc
  have hstart : Server.start JsonLib.reference {} = .ok {} := rfl
  exact ⟨final, acc, hstart, hrun, hfind,
    accounts_clicked JsonLib.reference_lawful hstart hrun hfind⟩

/-! ## Whose account a client shows -/

/-- As long as logins are read from connections whose id is their own, a client has the uuid of an
account only after its own user clicked for it with its password. -/
theorem uuid_clicked (hlib : lib.Lawful) {files : Files} {server : Server}
    (hstart : Server.start lib files = .ok server) {events : List Event} {final : System}
    (hown : Transition.Always (step lib) (OfServer (Server.LoginOwn lib)) ⟨server, []⟩ events)
    (hrun : Transition.run (step lib) ⟨server, []⟩ events = some final) {place : ℕ} {peer : Peer}
    (hpeer : final.peers[place]? = some peer) (huuid : peer.app.ctx.uuid ≠ []) :
    ∃ username acc, final.server.db.accounts.find username = some acc ∧
      acc.uuid = peer.app.ctx.uuid ∧ Clicked place events username acc.password := by
  obtain ⟨found, polled, queued, hfound, hfollows⟩ :=
    consistent_run hlib hrun place (List.getElem?_eq_some_iff.mp hpeer).1
  cases hpeer.symm.trans hfound
  obtain ⟨index, session, packet, hsession, hobject, hpacket, hcarries⟩ := hfollows.told huuid
  obtain ⟨line, username, acc, hreceived, hrequest, hfind, heq⟩ :=
    (authenticated_run hstart hown hrun index session hobject).2 packet hpacket _ hcarries
  have hline : line ∈ final.server.linesOf index :=
    List.mem_filterMap.mpr ⟨_, hreceived, if_pos rfl⟩
  exact ⟨username, acc, hfind, heq,
    clicked_of_line hlib hstart hrun hpeer hsession hline hrequest⟩

/-- One login whose reply is polled. -/
theorem uuid_clicked_ana :
    let click : List Event := [.launch true, .accept 0,
      .client 0 (.frame { username := text "ana" }),
      .client 0 (.frame { username := text "ana", pass := text "pw" }),
      .client 0 (.frame { username := text "ana", pass := text "pw", clicked := true }),
      .upload 0 200]
    let replies : List Event := [.server (.strand 0), .server (.strand 0), .server (.writeDone 0),
      .server (.writeDone 0), .download 0 500, .client 0 .takeLine, .client 0 .takeLine,
      .client 0 (.frame {})]
    let events : List Event := click ++ .server (.readDone 0 (1, 2) {}) :: replies
    ∃ final peer, Server.start JsonLib.reference {} = .ok {} ∧
      Transition.run (step JsonLib.reference) ⟨{}, []⟩ events = some final ∧
      final.peers[0]? = some peer ∧ peer.app.ctx.uuid = JsonDB.generateUuid (1, 2) ∧
      ∃ username acc, final.server.db.accounts.find username = some acc ∧
        acc.uuid = peer.app.ctx.uuid ∧ Clicked 0 events username acc.password := by
  intro click replies events
  have hclick : (Transition.run (step JsonLib.reference) ⟨{}, []⟩ click).map (fun middle ↦
      ((middle.server.object 0).map Session.clientId, middle.server.sessions.find 1)) =
      some (some 1, some (some 0)) := by
    decide +kernel
  have hend : (Transition.run (step JsonLib.reference) ⟨{}, []⟩
      (click ++ .server (.readDone 0 (1, 2) {}) :: replies)).bind (fun final ↦
        (final.peers[0]?).map fun peer ↦ peer.app.ctx.uuid) =
      some (JsonDB.generateUuid (1, 2)) := by
    decide +kernel
  obtain ⟨final, hrun, hpeers⟩ := Option.bind_eq_some_iff.mp hend
  obtain ⟨peer, hpeer, huuid⟩ := Option.map_eq_some_iff.mp hpeers
  have hown : Transition.Always (step JsonLib.reference)
      (OfServer (Server.LoginOwn JsonLib.reference)) ⟨{}, []⟩
      (click ++ .server (.readDone 0 (1, 2) {}) :: replies) := by
    refine Transition.always_append (Transition.always_of_forall ?_ _)
      fun middle hmiddle ↦ ⟨?_, fun next _ ↦ Transition.always_of_forall ?_ _⟩
    · simp [click, OfServer]
    · rw [hmiddle] at hclick
      obtain ⟨hclientId, hentry⟩ := Prod.mk.inj (Option.some.inj hclick)
      intro index draw io session line rest user pass uuid other hevent hobject _ _ _ hfind
      cases hevent
      rw [hobject] at hclientId
      rw [Option.some.inj hclientId, hentry] at hfind
      exact (Option.some.inj (Option.some.inj hfind)).symm
    · simp [replies, OfServer, Server.LoginOwn]
  have hstart : Server.start JsonLib.reference {} = .ok {} := rfl
  have hne : peer.app.ctx.uuid ≠ [] := by
    rw [huuid]
    decide
  exact ⟨final, peer, hstart, hrun, hpeer, huuid,
    uuid_clicked JsonLib.reference_lawful hstart hown hrun hpeer hne⟩

end System

end NetPixeld
