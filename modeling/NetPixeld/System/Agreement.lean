import NetPixeld.Json.Reference
import NetPixeld.Server.Answers
import NetPixeld.System.Following

/-!
# Agreement about the login

The client keeps the uuid of the first login result, all of which have the number one, and the
session keeps that of the last successful login. When nothing is on its way the two agree as long as
no login result followed another one for a different uuid.
-/

namespace NetPixeld

/-- Nothing is queued or in flight on a connection, and the client has polled what it received. -/
structure Peer.Quiet (peer : Peer) (session : Session) : Prop where
  posted : session.posted = []
  outgoing : session.outgoing = []
  downloaded : peer.downloaded = session.wire.length
  incoming : newline ∉ peer.app.ctx.net.incoming
  polled : peer.app.ctx.net.recvQueue = []
  uploaded : peer.uploaded = peer.app.ctx.net.written.length
  requests : newline ∉ session.incoming

instance (peer : Peer) (session : Session) : Decidable (peer.Quiet session) :=
  decidable_of_iff (session.posted.isEmpty = true ∧ session.outgoing.isEmpty = true ∧
      peer.downloaded = session.wire.length ∧ newline ∉ peer.app.ctx.net.incoming ∧
      peer.app.ctx.net.recvQueue.isEmpty = true ∧
      peer.uploaded = peer.app.ctx.net.written.length ∧ newline ∉ session.incoming)
    ⟨fun ⟨hposted, houtgoing, hdownloaded, hincoming, hpolled, huploaded, hrequests⟩ ↦
      ⟨List.isEmpty_iff.mp hposted, List.isEmpty_iff.mp houtgoing, hdownloaded, hincoming,
        List.isEmpty_iff.mp hpolled, huploaded, hrequests⟩,
    fun h ↦ ⟨List.isEmpty_iff.mpr h.posted, List.isEmpty_iff.mpr h.outgoing, h.downloaded,
      h.incoming, List.isEmpty_iff.mpr h.polled, h.uploaded, h.requests⟩⟩

/-- Everything queued on the session arrived at the client and was polled. -/
structure Peer.Drained (peer : Peer) (session : Session) : Prop where
  posted : session.posted = []
  outgoing : session.outgoing = []
  downloaded : peer.downloaded = session.wire.length
  incoming : newline ∉ peer.app.ctx.net.incoming
  polled : peer.app.ctx.net.recvQueue = []

theorem Peer.Quiet.drained {peer : Peer} {session : Session} (h : peer.Quiet session) :
    peer.Drained session :=
  ⟨h.posted, h.outgoing, h.downloaded, h.incoming, h.polled⟩

/-- Both sides know the same uuid, and none before a login succeeded. -/
structure Peer.Agrees (peer : Peer) (session : Session) : Prop where
  uuid : peer.app.ctx.uuid = session.uuid
  unanswered : ¬session.Answered → session.uuid = []

/-! ## A quiet connection -/

section Quiet

variable {lib : JsonLib} {server : Server} {peer : Peer} {session : Session}

theorem Session.wire_of_empty (hposted : session.posted = []) (houtgoing : session.outgoing = []) :
    session.wire = session.sent.flatMap Packet.text := by
  rw [wire, sent, hposted, houtgoing, List.take_nil, List.append_nil, List.append_nil]

/-- Everything that was sent has been polled. -/
theorem Peer.Drained.announces (hlib : lib.Lawful) (h : peer.Drained session)
    {polled queued : List Notice} (hfollows : peer.Follows lib server polled queued) {index : ℕ}
    (hsession : peer.session = some index) (hobject : server.object index = some session) :
    session.Announces lib server.stores polled := by
  have hqueued : queued = [] := List.map_eq_nil_iff.mp (hfollows.queue.symm.trans h.polled)
  subst hqueued
  have hattached := hfollows.attached
  rw [List.append_nil] at hattached
  obtain ⟨session', rest, hobject', hannounces, hread⟩ := hattached.connected index hsession
  cases hobject.symm.trans hobject'
  have htexts := Packet.texts_of_carries hannounces.packets
  have hlength : (peer.read lib polled).length = (session.sent.flatMap Packet.text).length := by
    rw [hattached.length, h.downloaded, Session.wire_of_empty h.posted h.outgoing]
  have hall := hread.eq_of_length hlength
  rw [Peer.read, htexts, List.flatMap_append, List.append_cancel_left_eq] at hall
  cases rest with
  | nil =>
    rw [List.append_nil] at hannounces
    exact hannounces
  | cons notice rest =>
    have hnotice : notice ∈ polled ++ notice :: rest :=
      List.mem_append_right polled (List.mem_cons_self ..)
    obtain ⟨packet, _, hcarries⟩ := Packet.exists_packet hannounces.packets hnotice
    obtain ⟨line, hline, _⟩ := Notice.line hlib hcarries.text
    refine absurd ?_ h.incoming
    rw [hall, List.flatMap_cons, hline]
    simp

/-- Login results for the uuid of the session, of which the client kept the first. -/
theorem Peer.Quiet.agrees (hlib : lib.Lawful) (h : peer.Quiet session)
    {polled queued : List Notice} (hfollows : peer.Follows lib server polled queued) {index : ℕ}
    (hsession : peer.session = some index) (hobject : server.object index = some session)
    (hsteady : session.Steady) : peer.Agrees session := by
  have hannounces := h.drained.announces hlib hfollows hsession hobject
  refine ⟨?_, hsteady.unanswered⟩
  have hanswers : ∀ uuid ∈ polled.filterMap Notice.answer, uuid = session.uuid := by
    intro uuid huuid
    obtain ⟨notice, hnotice, hanswer⟩ := List.mem_filterMap.mp huuid
    obtain ⟨packet, hpacket, hcarries⟩ := Packet.exists_packet hannounces.packets hnotice
    cases notice with
    | assign => cases hanswer
    | update => cases hanswer
    | result sequence told =>
      cases hanswer
      have hmessage := hsteady.answers packet hpacket (by rw [hcarries.message]; rfl)
      apply Server.carries_loginResult
      rw [← hmessage, hcarries.message]
      exact ⟨rfl, .str _, rfl, rfl⟩
  rw [hfollows.shows.uuid]
  cases hpolled : polled.filterMap Notice.answer with
  | cons uuid rest => exact hanswers uuid (by rw [hpolled]; exact List.mem_cons_self ..)
  | nil =>
    refine (hsteady.unanswered fun ⟨packet, hpacket, htype⟩ ↦ ?_).symm
    obtain ⟨notice, hnotice, hcarries⟩ := Packet.exists_notice hannounces.packets hpacket
    rw [hcarries.message] at htype
    cases notice with
    | assign =>
      exact absurd htype (by decide : Protocol.msgAssignClientId ≠ Protocol.msgLoginResult)
    | update =>
      exact absurd htype (by decide : Protocol.msgResourceUpdate ≠ Protocol.msgLoginResult)
    | result sequence uuid =>
      have hmem : uuid ∈ polled.filterMap Notice.answer :=
        List.mem_filterMap.mpr ⟨_, hnotice, rfl⟩
      rw [hpolled] at hmem
      cases hmem

end Quiet

/-! ## Runs -/

namespace System

/-- The condition on a step of the server; the other steps meet it. -/
def SameLogin (lib : JsonLib) (system : System) : Event → Prop
  | .server event => system.server.SameLogin lib event
  | _ => True

variable {lib : JsonLib}

theorem step_steady (hlib : lib.Lawful) {system next : System} {event : Event}
    (h : system.server.Steady ∧ system.server.Enrolled) (hsame : system.SameLogin lib event)
    (hstep : system.step lib event = some next) :
    next.server.Steady ∧ next.server.Enrolled := by
  have hkeeps : ∀ {server next : Server} {event : Server.Event},
      server.Steady ∧ server.Enrolled → server.SameLogin lib event →
      server.step lib event = some next → next.Steady ∧ next.Enrolled := by
    intro server next event ⟨hsteady, henrolled⟩ hsame hserver
    exact ⟨Server.step_steady hlib hsteady henrolled hsame hserver,
      Server.step_enrolled hlib henrolled hserver⟩
  refine step_server hkeeps (fun _ ↦ trivial) (fun _ _ _ ↦ trivial) h ?_ hstep
  cases event with
  | server => exact hsame
  | launch | accept | upload | download | client => trivial

/-- In every run in which no login result follows another one for a different uuid, client and
session agree whenever the connection is quiet. -/
theorem agrees_of_sameLogin (hlib : lib.Lawful) {files : Files} {server : Server}
    (hstart : Server.start lib files = .ok server) {events : List Event}
    (hsame : Transition.Always (step lib) (SameLogin lib) ⟨server, []⟩ events) {visited : System}
    (hvisited : Transition.Visited (step lib) ⟨server, []⟩ events visited) {place index : ℕ}
    {peer : Peer} {session : Session} (hpeer : visited.peers[place]? = some peer)
    (hsession : peer.session = some index)
    (hobject : visited.server.object index = some session) (hquiet : peer.Quiet session) :
    peer.Agrees session := by
  obtain ⟨before, after, rfl, hrun⟩ := hvisited
  have hinit : server.Steady ∧ server.Enrolled := by
    refine ⟨?_, Server.enrolled_run hlib hstart (Transition.run_nil _ server)⟩
    obtain ⟨db, rfl⟩ := Server.fresh_of_start hstart
    intro index session hobject
    cases hobject
  have hsteady := (Transition.invariant_run_of_always (step_steady hlib) hinit
    (Transition.always_of_append hsame) hrun).1
  obtain ⟨found, polled, queued, hfound, hfollows⟩ :=
    consistent_run hlib hrun place (List.getElem?_eq_some_iff.mp hpeer).1
  cases hpeer.symm.trans hfound
  exact hquiet.agrees hlib hfollows hsession hobject (hsteady index session hobject)

/-- One login whose reply is polled. -/
theorem agrees_of_sameLogin_login :
    let click : List Event := [.launch true, .accept 0,
      .client 0 (.frame { username := text "ana" }),
      .client 0 (.frame { username := text "ana", pass := text "pw" }),
      .client 0 (.frame { username := text "ana", pass := text "pw", clicked := true }),
      .upload 0 200]
    let replies : List Event := [.server (.strand 0), .server (.strand 0), .server (.writeDone 0),
      .server (.writeDone 0), .download 0 500, .client 0 .takeLine, .client 0 .takeLine,
      .client 0 (.frame {})]
    ∃ server visited peer session, Server.start JsonLib.reference {} = .ok server ∧
      Transition.Visited (step JsonLib.reference) ⟨server, []⟩
        (click ++ .server (.readDone 0 (1, 2) {}) :: replies) visited ∧
      visited.peers[0]? = some peer ∧ visited.server.object 0 = some session ∧
      peer.Quiet session ∧ session.uuid = JsonDB.generateUuid (1, 2) ∧ peer.Agrees session := by
  intro click replies
  have hclick : (Transition.run (step JsonLib.reference) ⟨{}, []⟩ click).map
      (fun middle ↦ middle.server.objects.all fun session ↦ session.sent.all fun packet ↦
        packet.message.type ≠ Protocol.msgLoginResult) = some true := by
    decide +kernel
  have hfinal : (Transition.run (step JsonLib.reference) ⟨{}, []⟩
      (click ++ .server (.readDone 0 (1, 2) {}) :: replies)).bind (fun visited ↦
        visited.peers[0]?.bind fun peer ↦ (visited.server.object 0).map fun session ↦
          (peer.session, decide (peer.Quiet session), session.uuid)) =
      some (some 0, true, JsonDB.generateUuid (1, 2)) := by
    decide +kernel
  obtain ⟨visited, hvisited, hpeers⟩ := Option.bind_eq_some_iff.mp hfinal
  obtain ⟨peer, hpeer, hobjects⟩ := Option.bind_eq_some_iff.mp hpeers
  obtain ⟨session, hobject, hshown⟩ := Option.map_eq_some_iff.mp hobjects
  obtain ⟨hsession, hrest⟩ := Prod.mk.inj hshown
  obtain ⟨hquiet, huuid⟩ := Prod.mk.inj hrest
  have hsame : Transition.Always (step JsonLib.reference) (SameLogin JsonLib.reference) ⟨{}, []⟩
      (click ++ .server (.readDone 0 (1, 2) {}) :: replies) := by
    refine Transition.always_append (Transition.always_of_forall ?_ _)
      fun middle hmiddle ↦ ⟨?_, fun next _ ↦ Transition.always_of_forall ?_ _⟩
    · simp [click, SameLogin]
    · intro first line rest user pass target answered _ _ _ _ hanswered hresult
      rw [hmiddle] at hclick
      obtain ⟨packet, hpacket, htype⟩ := hresult
      have hnone := List.all_eq_true.mp (List.all_eq_true.mp (Option.some.inj hclick) answered
        (List.mem_of_getElem? hanswered)) packet hpacket
      exact absurd htype (of_decide_eq_true hnone)
    · simp [replies, SameLogin, Server.SameLogin]
  have hstart : Server.start JsonLib.reference {} = .ok {} := rfl
  have hstate := Transition.visited_final hvisited
  have hquiet := of_decide_eq_true hquiet
  exact ⟨{}, visited, peer, session, hstart, hstate, hpeer, hobject, hquiet, huuid,
    agrees_of_sameLogin JsonLib.reference_lawful hstart hsame hstate hpeer hsession hobject hquiet⟩

/-- Two clicks with different accounts before the first reply, and the name is edited in between:
the session has the uuid of the second login, and the client keeps that of the first. -/
theorem not_agrees_two_accounts :
    let typed (username pass : String) : Event :=
      .client 0 (.frame { username := text username, pass := text pass })
    let click (username pass : String) : Event :=
      .client 0 (.frame { username := text username, pass := text pass, clicked := true })
    let events : List Event := [.launch true, .accept 0, typed "ana" "", typed "ana" "pw",
      click "ana" "pw", typed "an" "pw", typed "a" "pw", typed "" "pw", typed "bob" "pw",
      click "bob" "pw", .upload 0 200, .server (.readDone 0 (1, 2) {}),
      .server (.readDone 0 (3, 4) {}), .server (.strand 0), .server (.strand 0),
      .server (.strand 0), .server (.writeDone 0), .server (.writeDone 0), .server (.writeDone 0),
      .download 0 500, .client 0 .takeLine, .client 0 .takeLine, .client 0 .takeLine,
      .client 0 (.frame {})]
    ∃ final peer session, Server.start JsonLib.reference {} = .ok {} ∧
      Transition.run (step JsonLib.reference) ⟨{}, []⟩ events = some final ∧
      final.peers[0]? = some peer ∧ peer.session = some 0 ∧
      final.server.object 0 = some session ∧ peer.Quiet session ∧
      peer.app.ctx.uuid = JsonDB.generateUuid (1, 2) ∧
      session.uuid = JsonDB.generateUuid (3, 4) ∧ ¬peer.Agrees session := by
  intro typed click events
  have hrun : (Transition.run (step JsonLib.reference) ⟨{}, []⟩ events).bind (fun final ↦
      final.peers[0]?.bind fun peer ↦ (final.server.object 0).map fun session ↦
        (peer.session, decide (peer.Quiet session), peer.app.ctx.uuid, session.uuid)) =
      some (some 0, true, JsonDB.generateUuid (1, 2), JsonDB.generateUuid (3, 4)) := by
    decide +kernel
  obtain ⟨final, hfinal, hpeers⟩ := Option.bind_eq_some_iff.mp hrun
  obtain ⟨peer, hpeer, hobjects⟩ := Option.bind_eq_some_iff.mp hpeers
  obtain ⟨session, hobject, hshown⟩ := Option.map_eq_some_iff.mp hobjects
  simp only [Prod.mk.injEq, decide_eq_true_eq] at hshown
  obtain ⟨hsession, hquiet, hclient, hserver⟩ := hshown
  refine ⟨final, peer, session, rfl, hfinal, hpeer, hsession, hobject, hquiet, hclient, hserver,
    fun hagrees ↦ ?_⟩
  have huuid := hclient.symm.trans (hagrees.uuid.trans hserver)
  exact absurd huuid (by decide)

end System

end NetPixeld
