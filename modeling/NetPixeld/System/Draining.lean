import NetPixeld.System.Agreement

/-!
# Nothing gets stuck

What is queued on a session can always reach its client. As long as no write failed and the client
reads, the closures of the strand, the writes, the arrivals, the lines and one idle frame bring all
of it there. Each of these steps is possible as long as there is something for it to do, and none of
them fails.
-/

namespace NetPixeld

namespace Peer

/-- A connection on which nothing failed: the server runs, the write chain goes on, and the client
lives and reads. -/
structure Flowing (server : Server) (peer : Peer) (index : ℕ) (session : Session) : Prop where
  registered : peer.session = some index
  object : server.object index = some session
  status : server.status = .running
  writing : session.outgoing ≠ [] → session.writing = true
  alive : peer.app.alive = true
  reading : peer.app.ctx.net.running = true

/-- What is still to do, with more for what has further to go. -/
def pending (peer : Peer) (session : Session) : ℕ :=
  2 * session.posted.length + session.outgoing.length +
    3 * ((session.sent.flatMap Packet.text).length - peer.downloaded) +
    2 * peer.app.ctx.net.incoming.count newline + peer.app.ctx.net.recvQueue.length

variable {lib : JsonLib} {server : Server} {peer : Peer} {index : ℕ} {session : Session}

/-- No more arrived than was sent. -/
theorem Attached.downloaded_le {heard : List Notice} (h : peer.Attached lib server heard)
    (hsession : peer.session = some index) (hobject : server.object index = some session) :
    peer.downloaded ≤ (session.sent.flatMap Packet.text).length := by
  obtain ⟨session', _, hobject', _, hread⟩ := h.connected index hsession
  cases hobject.symm.trans hobject'
  rw [← h.length]
  exact hread.length_le

theorem drained_of_pending (hle : peer.downloaded ≤ (session.sent.flatMap Packet.text).length)
    (h : peer.pending session = 0) : peer.Drained session := by
  unfold pending at h
  have hposted : session.posted = [] := List.length_eq_zero_iff.mp (by omega)
  have houtgoing : session.outgoing = [] := List.length_eq_zero_iff.mp (by omega)
  refine ⟨hposted, houtgoing, ?_, List.count_eq_zero.mp (by omega),
    List.length_eq_zero_iff.mp (by omega)⟩
  rw [Session.wire_of_empty hposted houtgoing]
  omega

end Peer

/-! ## Steps that can be made -/

theorem Server.advance_of_object {server : Server} {index : ℕ} {before after : Session}
    {completion : Session → Option Session} (hobject : server.object index = some before)
    (h : completion before = some after) :
    server.advance index completion = some (server.update index fun _ ↦ after) := by
  simp [advance, hobject, h]

theorem Protocol.length_deliver_le (lib : JsonLib) (delivered : List Message) (line : Bytes) :
    (deliver lib delivered line).length ≤ delivered.length + 1 := by
  unfold deliver
  split
  · rw [List.length_append, List.length_singleton]
  · exact Nat.le_add_right ..

namespace System

variable {lib : JsonLib} {system : System} {place index : ℕ} {peer : Peer} {session : Session}

/-- The steps that bring something to the client at a place. -/
inductive Delivers (place index : ℕ) : Event → Prop
  | strand : Delivers place index (.server (.strand index))
  | writeDone : Delivers place index (.server (.writeDone index))
  | download (count : ℕ) : Delivers place index (.download place count)
  | takeLine : Delivers place index (.client place .takeLine)
  | frame : Delivers place index (.client place (.frame {}))

/-- A step leads on. -/
def Progress (lib : JsonLib) (system : System) (place index : ℕ) (peer : Peer)
    (session : Session) : Prop :=
  ∃ event next peer' session', Delivers place index event ∧ system.step lib event = some next ∧
    next.peers[place]? = some peer' ∧ peer'.Flowing next.server index session' ∧
    session'.sent = session.sent ∧ peer'.pending session' < peer.pending session

/-- A completion of the session. -/
theorem progress_server (hpeer : system.peers[place]? = some peer)
    (hflowing : peer.Flowing system.server index session) {event : Server.Event}
    {completion : Session → Option Session} {next : Session}
    (hdelivers : Delivers place index (.server event))
    (hevent : system.step lib (.server event) =
      (system.server.advance index completion).map fun server ↦ { system with server := server })
    (hnext : completion session = some next) (hsent : next.sent = session.sent)
    (hwriting : next.outgoing ≠ [] → next.writing = true)
    (hlower : 2 * next.posted.length + next.outgoing.length <
      2 * session.posted.length + session.outgoing.length) :
    Progress lib system place index peer session := by
  rw [Server.advance_of_object hflowing.object hnext] at hevent
  have hobject : (system.server.update index fun _ ↦ next).object index = some next := by
    rw [Server.object_update, if_pos rfl, hflowing.object]
    rfl
  refine ⟨_, _, peer, next, hdelivers, hevent, hpeer, ⟨hflowing.registered, hobject,
    hflowing.status, hwriting, hflowing.alive, hflowing.reading⟩, hsent, ?_⟩
  unfold Peer.pending
  rw [hsent]
  omega

/-- A step of the client. -/
theorem progress_client (hpeer : system.peers[place]? = some peer)
    (hflowing : peer.Flowing system.server index session) {event : Event} {moved : Peer}
    (hdelivers : Delivers place index event)
    (hevent : system.step lib event = some { system with peers := system.peers.set place moved })
    (hsession : moved.session = peer.session) (halive : moved.app.alive = true)
    (hreading : moved.app.ctx.net.running = true)
    (hlower : moved.pending session < peer.pending session) :
    Progress lib system place index peer session := by
  have hlt := (List.getElem?_eq_some_iff.mp hpeer).1
  exact ⟨event, _, moved, session, hdelivers, hevent, List.getElem?_set_self hlt,
    ⟨hsession.trans hflowing.registered, hflowing.object, hflowing.status, hflowing.writing, halive,
      hreading⟩, rfl, hlower⟩

theorem progress_posted (hpeer : system.peers[place]? = some peer)
    (hflowing : peer.Flowing system.server index session) (hposted : session.posted ≠ []) :
    Progress lib system place index peer session := by
  obtain ⟨packet, posted, hcons⟩ := List.exists_cons_of_ne_nil hposted
  have hnext : session.runPosted = some { session with
      posted := posted
      outgoing := session.outgoing ++ [packet]
      writing := session.writing || session.outgoing.isEmpty } := by
    rw [Session.runPosted, hcons]
  have hevent : system.step lib (.server (.strand index)) =
      (system.server.advance index Session.runPosted).map fun server ↦
        { system with server := server } := by
    simp [step, foreign, Server.step, hflowing.status]
  refine progress_server hpeer hflowing .strand hevent hnext (Session.runPosted_same hnext).sent
    ?_ ?_
  · intro _
    cases houtgoing : session.outgoing with
    | nil => exact Bool.or_true _
    | cons first rest =>
      have hwriting := hflowing.writing (by rw [houtgoing]; exact List.cons_ne_nil _ _)
      simp [hwriting]
  · rw [hcons]
    simp only [List.length_append, List.length_cons, List.length_nil]
    omega

theorem progress_outgoing (hpeer : system.peers[place]? = some peer)
    (hflowing : peer.Flowing system.server index session) (houtgoing : session.outgoing ≠ []) :
    Progress lib system place index peer session := by
  obtain ⟨packet, outgoing, hcons⟩ := List.exists_cons_of_ne_nil houtgoing
  have hnext : session.finishWrite = some { session with
      outgoing := outgoing
      written := session.written ++ [packet]
      writing := !outgoing.isEmpty } := by
    rw [Session.finishWrite, hflowing.writing houtgoing, hcons]
  have hevent : system.step lib (.server (.writeDone index)) =
      (system.server.advance index Session.finishWrite).map fun server ↦
        { system with server := server } := by
    simp [step, foreign, Server.step, hflowing.status]
  refine progress_server hpeer hflowing .writeDone hevent hnext
    (Session.finishWrite_same hnext).sent ?_ ?_
  · intro hne
    simpa using hne
  · rw [hcons]
    simp only [List.length_cons]
    omega

theorem progress_incoming (hpeer : system.peers[place]? = some peer)
    (hflowing : peer.Flowing system.server index session)
    (hincoming : newline ∈ peer.app.ctx.net.incoming) :
    Progress lib system place index peer session := by
  obtain ⟨⟨line, rest⟩, hcut⟩ := Option.ne_none_iff_exists'.mp
    fun hnone ↦ Lines.cut_eq_none.mp hnone hincoming
  let net : NetworkClient := { peer.app.ctx.net with
    incoming := rest
    recvQueue := Protocol.deliver lib peer.app.ctx.net.recvQueue line }
  let app : Application := { peer.app with ctx := { peer.app.ctx with net := net } }
  have hnet : peer.app.ctx.net.takeLine lib = some net := by
    rw [NetworkClient.takeLine, if_pos hflowing.reading, hcut]
    rfl
  have happ : peer.app.step lib .takeLine = some app := by
    rw [Application.step, if_pos hflowing.alive]
    simp only [Application.advance, hnet]
    rfl
  have hevent : system.step lib (.client place .takeLine) =
      some { system with peers := system.peers.set place { peer with app := app } } := by
    simp [step, hpeer, arrives, happ]
  refine progress_client hpeer hflowing .takeLine hevent rfl hflowing.alive hflowing.reading ?_
  obtain ⟨hbuffer, hfree⟩ := Lines.cut_eq_some hcut
  have hcount : peer.app.ctx.net.incoming.count newline = rest.count newline + 1 := by
    rw [hbuffer, List.count_append, List.count_eq_zero_of_not_mem hfree, List.count_cons_self]
    omega
  have hqueue := Protocol.length_deliver_le lib peer.app.ctx.net.recvQueue line
  unfold Peer.pending
  dsimp only [app, net]
  omega

theorem progress_download (hpeer : system.peers[place]? = some peer)
    (hflowing : peer.Flowing system.server index session)
    (hincoming : newline ∉ peer.app.ctx.net.incoming)
    (hwire : session.wire = session.sent.flatMap Packet.text)
    (hlt : peer.downloaded < (session.sent.flatMap Packet.text).length) :
    Progress lib system place index peer session := by
  let bytes := (session.wire.drop peer.downloaded).take session.wire.length
  let app : Application := { peer.app with
    ctx.net.incoming := peer.app.ctx.net.incoming ++ bytes }
  have hlength : bytes.length =
      (session.sent.flatMap Packet.text).length - peer.downloaded := by
    rw [List.length_take, List.length_drop, hwire]
    omega
  have hnet : peer.app.ctx.net.receive bytes = some app.ctx.net := by
    rw [NetworkClient.receive, if_pos ⟨hflowing.reading, hincoming⟩]
  have happ : peer.app.step lib (.receive bytes) = some app := by
    rw [Application.step, if_pos hflowing.alive]
    simp only [Application.advance, hnet]
    rfl
  have hevent : system.step lib (.download place session.wire.length) = some { system with
      peers := system.peers.set place { peer with
        app := app
        downloaded := peer.downloaded + bytes.length } } := by
    simp only [step, hpeer, hflowing.registered, hflowing.object, Option.bind_eq_bind,
      Option.bind_some]
    rw [happ]
    rfl
  refine progress_client hpeer hflowing (.download _) hevent rfl hflowing.alive hflowing.reading ?_
  have hcount : (peer.app.ctx.net.incoming ++ bytes).count newline ≤ bytes.length := by
    rw [List.count_append, List.count_eq_zero_of_not_mem hincoming, Nat.zero_add]
    exact List.count_le_length
  unfold Peer.pending
  dsimp only [app]
  omega

/-- An idle frame polls the queue, and returns. -/
theorem progress_frame (hpeer : system.peers[place]? = some peer)
    (hflowing : peer.Flowing system.server index session) {polled queued : List Notice}
    (hfollows : peer.Follows lib system.server polled queued)
    (hqueue : peer.app.ctx.net.recvQueue ≠ []) :
    Progress lib system place index peer session := by
  have hidle : ({} : FrameInput).Sendable peer.app.ctx.net.connected := fun hclicked ↦ by
    cases hclicked
  let app := Application.conclude (peer.app.update lib {})
  have halive : app.alive = true := (Application.conclude_alive hflowing.alive {}).mpr
    (Application.update_returned lib hfollows.ready hfollows.queue hidle)
  obtain ⟨written, hnet⟩ : ∃ written, app.ctx.net =
      { peer.app.ctx.net with recvQueue := [], written := written } := by
    obtain ⟨alive, hconclude⟩ := Application.conclude_eq (peer.app.update lib {})
    refine ⟨(peer.app.update lib {}).1.ctx.net.written, ?_⟩
    change (Application.conclude (peer.app.update lib {})).ctx.net = _
    rw [hconclude]
    exact (Application.update_framed lib hfollows.ready hfollows.queue {}).net.same
  have happ : peer.app.step lib (.frame {}) = some app := by
    rw [Application.step, if_pos hflowing.alive]
    exact if_pos (by decide)
  have hevent : system.step lib (.client place (.frame {})) =
      some { system with peers := system.peers.set place { peer with app := app } } := by
    simp [step, hpeer, arrives, happ]
  refine progress_client hpeer hflowing .frame hevent rfl halive ?_ ?_
  · dsimp only
    rw [hnet]
    exact hflowing.reading
  · have hpositive := List.length_pos_iff.mpr hqueue
    unfold Peer.pending
    dsimp only
    rw [hnet]
    dsimp only [List.length_nil]
    omega

/-- As long as something is pending, a step leads on. -/
theorem progress_of_pending (hconsistent : system.Consistent lib)
    (hpeer : system.peers[place]? = some peer)
    (hflowing : peer.Flowing system.server index session) (hpending : peer.pending session ≠ 0) :
    Progress lib system place index peer session := by
  obtain ⟨found, polled, queued, hfound, hfollows⟩ :=
    hconsistent place (List.getElem?_eq_some_iff.mp hpeer).1
  cases hpeer.symm.trans hfound
  by_cases hposted : session.posted = []
  swap
  · exact progress_posted hpeer hflowing hposted
  by_cases houtgoing : session.outgoing = []
  swap
  · exact progress_outgoing hpeer hflowing houtgoing
  by_cases hincoming : newline ∈ peer.app.ctx.net.incoming
  · exact progress_incoming hpeer hflowing hincoming
  by_cases hqueue : peer.app.ctx.net.recvQueue = []
  swap
  · exact progress_frame hpeer hflowing hfollows hqueue
  -- the only thing left are bytes on their way
  refine progress_download hpeer hflowing hincoming (Session.wire_of_empty hposted houtgoing) ?_
  by_contra hge
  refine hpending ?_
  unfold Peer.pending
  rw [hposted, houtgoing, hqueue, List.count_eq_zero_of_not_mem hincoming]
  dsimp only [List.length_nil]
  omega

/-- From every state that a run reaches, what was queued on the session of a client can be brought
to it, as long as the server runs, no write failed, and the client lives and reads: deliveries alone
lead to a state in which all of it was polled and nothing was added. What the client shows then is
what all these notices say. -/
theorem drained_reachable (hlib : lib.Lawful) {server : Server} {events : List Event}
    {reached : System} (hrun : Transition.run (step lib) ⟨server, []⟩ events = some reached)
    (hpeer : reached.peers[place]? = some peer)
    (hflowing : peer.Flowing reached.server index session) :
    ∃ deliveries final peer' session', (∀ event ∈ deliveries, Delivers place index event) ∧
      Transition.run (step lib) reached deliveries = some final ∧
      final.peers[place]? = some peer' ∧ peer'.Flowing final.server index session' ∧
      session'.sent = session.sent ∧ peer'.Drained session' ∧
      ∃ polled, session'.Announces lib final.server.stores polled ∧
        peer'.app.ctx.Shows polled := by
  let invariant (weight : ℕ) (system : System) : Prop := system.Consistent lib ∧
    ∃ peer' session', system.peers[place]? = some peer' ∧
      peer'.Flowing system.server index session' ∧ session'.sent = session.sent ∧
      peer'.pending session' = weight
  have hstep : ∀ {weight : ℕ} {system : System}, invariant weight system → weight ≠ 0 →
      ∃ event next less, Delivers place index event ∧ system.step lib event = some next ∧
        less < weight ∧ invariant less next := by
    rintro _ system ⟨hconsistent, peer', session', hpeer', hflowing', hsent, rfl⟩ hpending
    obtain ⟨event, next, peer'', session'', hdelivers, hnext, hpeer'', hflowing'', hsent',
      hlower⟩ := progress_of_pending hconsistent hpeer' hflowing' hpending
    exact ⟨event, next, _, hdelivers, hnext, hlower, step_consistent hlib hconsistent hnext, peer'',
      session'', hpeer'', hflowing'', hsent'.trans hsent, rfl⟩
  have hinit : invariant (peer.pending session) reached :=
    ⟨consistent_run hlib hrun, peer, session, hpeer, hflowing, rfl, rfl⟩
  obtain ⟨deliveries, final, hdelivers, hfinal, hconsistent, peer', session', hpeer', hflowing',
    hsent, hpending⟩ := Transition.exists_run_of_weight hstep hinit
  obtain ⟨found, polled, queued, hfound, hfollows⟩ :=
    hconsistent place (List.getElem?_eq_some_iff.mp hpeer').1
  cases hpeer'.symm.trans hfound
  have hle := hfollows.attached.downloaded_le hflowing'.registered hflowing'.object
  have hdrained := Peer.drained_of_pending hle hpending
  exact ⟨deliveries, final, peer', session', hdelivers, hfinal, hpeer', hflowing', hsent, hdrained,
    polled, hdrained.announces hlib hfollows hflowing'.registered hflowing'.object, hfollows.shows⟩

/-- The handshake and a login result that were only posted. -/
theorem drained_reachable_login :
    let events : List Event := [.launch true, .accept 0,
      .client 0 (.frame { username := text "ana" }),
      .client 0 (.frame { username := text "ana", pass := text "pw" }),
      .client 0 (.frame { username := text "ana", pass := text "pw", clicked := true }),
      .upload 0 200, .server (.readDone 0 (1, 2) {})]
    ∃ (reached : System) (peer : Peer) (session : Session),
      Transition.run (step JsonLib.reference) ⟨{}, []⟩ events = some reached ∧
      reached.peers[0]? = some peer ∧ session.posted.length = 2 ∧ peer.app.ctx.uuid = [] ∧
      ∃ deliveries final peer' session', (∀ event ∈ deliveries, Delivers 0 0 event) ∧
        Transition.run (step JsonLib.reference) reached deliveries = some final ∧
        final.peers[0]? = some peer' ∧ peer'.Flowing final.server 0 session' ∧
        session'.sent = session.sent ∧ peer'.Drained session' ∧
        ∃ polled, session'.Announces JsonLib.reference final.server.stores polled ∧
          peer'.app.ctx.Shows polled := by
  intro events
  have hend : (Transition.run (step JsonLib.reference) ⟨{}, []⟩ events).bind (fun reached ↦
      reached.peers[0]?.bind fun peer ↦ (reached.server.object 0).map fun session ↦
        (peer.session, session.posted.length, decide (reached.server.status = .running ∧
          session.outgoing.isEmpty = true ∧ peer.app.alive = true ∧
          peer.app.ctx.net.running = true ∧ peer.app.ctx.uuid = []))) =
      some (some 0, 2, true) := by
    decide +kernel
  obtain ⟨reached, hrun, hpeers⟩ := Option.bind_eq_some_iff.mp hend
  obtain ⟨peer, hpeer, hobjects⟩ := Option.bind_eq_some_iff.mp hpeers
  obtain ⟨session, hobject, hshown⟩ := Option.map_eq_some_iff.mp hobjects
  obtain ⟨hregistered, hrest⟩ := Prod.mk.inj hshown
  obtain ⟨hposted, hflows⟩ := Prod.mk.inj hrest
  obtain ⟨hstatus, houtgoing, halive, hreading, huuid⟩ := of_decide_eq_true hflows
  have hflowing : peer.Flowing reached.server 0 session :=
    ⟨hregistered, hobject, hstatus, fun hne ↦ absurd (List.isEmpty_iff.mp houtgoing) hne, halive,
      hreading⟩
  exact ⟨reached, peer, session, hrun, hpeer, hposted, huuid,
    drained_reachable JsonLib.reference_lawful hrun hpeer hflowing⟩

end System

end NetPixeld
