import NetPixeld.System.Network

/-!
# How far the notices got

What arrived at a client is the beginning of what was sent on its session: the lines of some notices
and an incomplete line. The client has polled the first of these notices, and the others wait in its
queue.
-/

namespace NetPixeld

/-- Reading on in a stream of which a part starts early enough. -/
theorem prefix_append_take_drop {α : Type} {before whole stream : List α}
    (hbefore : before <+: stream) (hwhole : whole <+: stream) (count : ℕ) :
    before ++ (whole.drop before.length).take count <+: stream := by
  rcases Nat.le_total whole.length before.length with hle | hle
  · rw [List.drop_of_length_le hle, List.take_nil, List.append_nil]
    exact hbefore
  · obtain ⟨rest, rfl⟩ := List.prefix_of_prefix_length_le hbefore hwhole hle
    rw [List.drop_left]
    exact ((List.prefix_append_right_inj before).mpr (List.take_prefix count rest)).trans hwhole

theorem Session.wire_prefix (session : Session) :
    session.wire <+: session.sent.flatMap Packet.text := by
  obtain ⟨rest, hrest⟩ := List.take_prefix 1 session.outgoing
  refine ⟨(rest ++ session.posted).flatMap Packet.text, ?_⟩
  rw [wire, ← List.flatMap_append, sent]
  conv_rhs => rw [← hrest]
  simp only [List.append_assoc]

/-! ## The client -/

namespace Application

theorem step_receive {lib : JsonLib} {app next : Application} {bytes : Bytes}
    (h : app.step lib (.receive bytes) = some next) :
    next = { app with ctx.net.incoming := app.ctx.net.incoming ++ bytes } := by
  unfold step at h
  split at h
  · obtain ⟨net, hnet, rfl⟩ := advance_eq_some h
    rw [NetworkClient.receive_eq_some hnet]
  · cases h

/-- Where the connection and the scenes matter, only the scenes do. -/
theorem Ready.of_net {app : Application} (h : app.Ready) (net : NetworkClient) :
    ({ app with ctx := { app.ctx with net := net } } : Application).Ready :=
  ⟨h.shown, h.game⟩

end Application

/-! ## What arrived -/

namespace Peer

/-- The bytes of the notices heard and of the buffer. -/
def read (lib : JsonLib) (peer : Peer) (heard : List Notice) : Bytes :=
  heard.flatMap (Notice.text lib) ++ peer.app.ctx.net.incoming

/-- A client has heard the first notices of its session. -/
structure Attached (lib : JsonLib) (server : Server) (peer : Peer) (heard : List Notice) :
    Prop where
  length : (peer.read lib heard).length = peer.downloaded
  waiting : peer.session = none → heard = [] ∧ peer.app.ctx.net.incoming = []
  connected : ∀ index, peer.session = some index → ∃ session rest,
    server.object index = some session ∧ session.Announces lib server.stores (heard ++ rest) ∧
      peer.read lib heard <+: session.sent.flatMap Packet.text

variable {lib : JsonLib} {server : Server} {peer : Peer} {heard : List Notice}

theorem Attached.single (h : peer.Attached lib server heard) :
    ∀ notice ∈ heard, notice.Single := by
  cases hsession : peer.session with
  | none =>
    rw [(h.waiting hsession).1]
    exact fun _ hnotice ↦ absurd hnotice List.not_mem_nil
  | some index =>
    obtain ⟨session, rest, _, hannounces, _⟩ := h.connected index hsession
    exact fun notice hnotice ↦ hannounces.single notice (List.mem_append_left rest hnotice)

/-- Only the session and the buffer matter. -/
theorem Attached.same (h : peer.Attached lib server heard) {next : Peer}
    (hsession : next.session = peer.session) (hdownloaded : next.downloaded = peer.downloaded)
    (hincoming : next.app.ctx.net.incoming = peer.app.ctx.net.incoming) :
    next.Attached lib server heard := by
  have hread : next.read lib heard = peer.read lib heard := by rw [read, read, hincoming]
  constructor
  · rw [hread, hdownloaded, h.length]
  · rw [hsession, hincoming]
    exact h.waiting
  · rw [hsession, hread]
    exact h.connected

/-- What the server says in the meantime comes later. -/
theorem Attached.extends (h : peer.Attached lib server heard) {next : Server}
    (hnext : Server.Extends lib server next) : peer.Attached lib next heard := by
  refine ⟨h.length, h.waiting, fun index hsession ↦ ?_⟩
  obtain ⟨session, rest, hobject, hannounces, hread⟩ := h.connected index hsession
  obtain ⟨session', more, hobject', hannounces'⟩ := hnext index session _ hobject hannounces
  rw [List.append_assoc] at hannounces'
  refine ⟨session', rest ++ more, hobject', hannounces', hread.trans ?_⟩
  rw [Packet.texts_of_carries hannounces.packets, Packet.texts_of_carries hannounces'.packets,
    ← List.append_assoc heard, @List.flatMap_append _ _ (heard ++ rest)]
  exact List.prefix_append _ _

/-- The next bytes of the session arrive. -/
theorem Attached.receive (h : peer.Attached lib server heard) {index : ℕ} {session : Session}
    (hsession : peer.session = some index) (hobject : server.object index = some session)
    (count : ℕ) {next : Peer} (hnext : next.session = peer.session)
    (hincoming : next.app.ctx.net.incoming = peer.app.ctx.net.incoming ++
      (session.wire.drop peer.downloaded).take count)
    (hdownloaded : next.downloaded =
      peer.downloaded + ((session.wire.drop peer.downloaded).take count).length) :
    next.Attached lib server heard := by
  have hread : next.read lib heard =
      peer.read lib heard ++ (session.wire.drop peer.downloaded).take count := by
    rw [read, read, hincoming, List.append_assoc]
  refine ⟨?_, fun hwaiting ↦ ?_, fun other hother ↦ ?_⟩
  · rw [hread, List.length_append, h.length, hdownloaded]
  · rw [hnext, hsession] at hwaiting
    cases hwaiting
  · rw [hnext] at hother
    obtain ⟨session', rest, hobject', hannounces, hprefix⟩ := h.connected other hother
    cases hsession.symm.trans hother
    cases hobject.symm.trans hobject'
    refine ⟨session, rest, hobject, hannounces, ?_⟩
    rw [hread, ← h.length]
    exact prefix_append_take_drop hprefix session.wire_prefix count

/-- The line at the beginning of the buffer is that of the next notice. -/
theorem Attached.takeLine (hlib : lib.Lawful) (h : peer.Attached lib server heard)
    {line rest : Bytes} (hcut : Lines.cut newline peer.app.ctx.net.incoming = some (line, rest))
    {next : Peer} (hsession : next.session = peer.session)
    (hincoming : next.app.ctx.net.incoming = rest)
    (hdownloaded : next.downloaded = peer.downloaded) :
    ∃ notice, Protocol.readLine lib line = .ok notice.message ∧
      next.Attached lib server (heard ++ [notice]) := by
  cases hpeer : peer.session with
  | none =>
    rw [(h.waiting hpeer).2] at hcut
    cases hcut
  | some index =>
  obtain ⟨session, unheard, hobject, hannounces, hread⟩ := h.connected index hpeer
  have htexts := Packet.texts_of_carries hannounces.packets
  -- the buffer is a beginning of the texts that were not heard
  have hbuffer : peer.app.ctx.net.incoming <+: unheard.flatMap (Notice.text lib) := by
    rw [read, htexts, List.flatMap_append] at hread
    exact (List.prefix_append_right_inj _).mp hread
  obtain ⟨later, hlater⟩ := hbuffer
  have hstream := Lines.cut_append_right hcut later
  rw [hlater] at hstream
  cases unheard with
  | nil => cases hstream
  | cons notice unheard =>
  have hnotice : notice ∈ heard ++ notice :: unheard :=
    List.mem_append_right heard (List.mem_cons_self ..)
  obtain ⟨packet, _, hcarries⟩ := Packet.exists_packet hannounces.packets hnotice
  obtain ⟨line', hline', hfree, hreadLine⟩ := Notice.line hlib hcarries.text
  have hcut' := Lines.cut_append hfree (unheard.flatMap (Notice.text lib))
  rw [List.flatMap_cons, hline', List.append_assoc, List.singleton_append, hcut'] at hstream
  obtain ⟨rfl, hrest⟩ := Prod.mk.inj (Option.some.inj hstream)
  have hbytes : next.read lib (heard ++ [notice]) = peer.read lib heard := by
    rw [read, read, hincoming, (Lines.cut_eq_some hcut).1, List.flatMap_append,
      List.flatMap_singleton, hline', List.append_assoc, List.append_assoc]
    rfl
  refine ⟨notice, hreadLine, ?_, fun hwaiting ↦ ?_, fun other hother ↦ ?_⟩
  · rw [hbytes, h.length, hdownloaded]
  · rw [hsession, hpeer] at hwaiting
    cases hwaiting
  · rw [hsession, hpeer] at hother
    cases hother
    refine ⟨session, unheard, hobject, ?_, ?_⟩
    · rw [List.append_assoc]
      exact hannounces
    · rw [hbytes]
      exact hread

/-! ## What was polled -/

/-- A client has polled some notices of its session, and some others wait in its queue. -/
structure Follows (lib : JsonLib) (server : Server) (peer : Peer) (polled queued : List Notice) :
    Prop where
  ready : peer.app.Ready
  shows : peer.app.ctx.Shows polled
  queue : peer.app.ctx.net.recvQueue = queued.map Notice.message
  attached : peer.Attached lib server (polled ++ queued)

theorem follows_start (lib : JsonLib) (server : Server) (connected : Bool) :
    ({ app := .start connected } : Peer).Follows lib server [] [] := by
  have hattached : ({ app := .start connected } : Peer).Attached lib server [] :=
    ⟨rfl, fun _ ↦ ⟨rfl, rfl⟩, nofun⟩
  exact ⟨Application.ready_start connected, ⟨rfl, rfl, .refl _, nofun, fun _ ↦ rfl, rfl⟩, rfl,
    hattached⟩

variable {polled queued : List Notice}

theorem Follows.extends (h : peer.Follows lib server polled queued) {next : Server}
    (hnext : Server.Extends lib server next) : peer.Follows lib next polled queued :=
  ⟨h.ready, h.shows, h.queue, h.attached.extends hnext⟩

/-- The connection is accepted. -/
theorem Follows.accept (h : peer.Follows lib server polled queued) (hsession : peer.session = none)
    {next : Server} (hnext : server.step lib .accept = some next) :
    ({ peer with session := some server.objects.length } : Peer).Follows lib next polled
      queued := by
  obtain ⟨hheard, hincoming⟩ := h.attached.waiting hsession
  obtain ⟨rfl, rfl⟩ := List.append_eq_nil_iff.mp hheard
  cases (Server.step_stepped hnext).2 with
  | @accept serialized hserialized =>
  obtain ⟨session, hobject, hannounces⟩ := server.register_announces hserialized
  have hread : peer.read lib [] <+: session.sent.flatMap Packet.text := by
    rw [read, hincoming]
    exact List.nil_prefix
  have hattached : ({ peer with session := some server.objects.length } : Peer).Attached lib
      (server.register serialized) [] := by
    refine ⟨h.attached.length, nofun, fun index hindex ↦ ?_⟩
    cases hindex
    exact ⟨session, [.assign 1 server.nextClientId], hobject, hannounces, hread⟩
  exact ⟨h.ready, h.shows, h.queue, hattached⟩

/-- A frame polls the whole queue. -/
theorem Follows.frame (h : peer.Follows lib server polled queued) (input : FrameInput) :
    ({ peer with app := Application.conclude (peer.app.update lib input) } : Peer).Follows lib
      server (polled ++ queued) [] := by
  have hframed := Application.update_framed lib h.ready h.queue input
  obtain ⟨alive, halive⟩ := Application.conclude_eq (peer.app.update lib input)
  have hsingle : ∀ notice ∈ queued, notice.Single := fun notice hnotice ↦
    h.attached.single notice (List.mem_append_right polled hnotice)
  have hnet := hframed.net.same
  rw [halive]
  refine ⟨⟨hframed.ready.shown, hframed.ready.game⟩, ?_, ?_, ?_⟩
  · have hshows := (h.shows.foldl_receive h.shows.fits hsingle).of_net
      (peer.app.update lib input).1.ctx.net
    rw [← hframed.ctx] at hshows
    exact hshows
  · change (peer.app.update lib input).1.ctx.net.recvQueue = []
    rw [hnet]
  · rw [List.append_nil]
    refine h.attached.same rfl rfl ?_
    change (peer.app.update lib input).1.ctx.net.incoming = _
    rw [hnet]

/-- The next line is pushed to the queue. -/
theorem Follows.takeLine (hlib : lib.Lawful) (h : peer.Follows lib server polled queued)
    {net : NetworkClient} (hnet : peer.app.ctx.net.takeLine lib = some net) :
    ∃ queued', ({ peer with app := { peer.app with ctx := { peer.app.ctx with net := net } } } :
      Peer).Follows lib server polled queued' := by
  obtain ⟨line, rest, hcut, rfl⟩ := NetworkClient.takeLine_eq_some hnet
  let taken : Peer := { peer with app := { peer.app with ctx := { peer.app.ctx with net :=
    { peer.app.ctx.net with
      incoming := rest
      recvQueue := Protocol.deliver lib peer.app.ctx.net.recvQueue line } } } }
  obtain ⟨notice, hline, hattached⟩ := @Attached.takeLine _ _ _ _ hlib h.attached _ _ hcut taken
    rfl rfl rfl
  refine ⟨queued ++ [notice], h.ready.of_net _, h.shows.of_net _, ?_, ?_⟩
  · simp only [Protocol.deliver, hline, h.queue, List.map_append]
    rfl
  · rw [← List.append_assoc]
    exact hattached

theorem Follows.failRead (h : peer.Follows lib server polled queued) {net : NetworkClient}
    (hnet : peer.app.ctx.net.failRead = some net) :
    ({ peer with app := { peer.app with ctx := { peer.app.ctx with net := net } } } :
      Peer).Follows lib server polled queued := by
  cases NetworkClient.failRead_eq_some hnet
  exact ⟨h.ready.of_net _, h.shows.of_net _, h.queue, h.attached.same rfl rfl rfl⟩

/-- One step of the client in which nothing arrives. -/
theorem Follows.client (hlib : lib.Lawful) (h : peer.Follows lib server polled queued)
    {event : Application.Event} (harrives : System.arrives event = false) {app : Application}
    (happ : peer.app.step lib event = some app) :
    ∃ more queued', ({ peer with app := app } : Peer).Follows lib server (polled ++ more)
      queued' := by
  unfold Application.step at happ
  split at happ
  swap
  · cases happ
  cases event with
  | receive bytes => cases harrives
  | takeLine =>
    obtain ⟨net, hnet, rfl⟩ := Application.advance_eq_some happ
    obtain ⟨queued', hfollows⟩ := h.takeLine hlib hnet
    refine ⟨[], queued', ?_⟩
    rw [List.append_nil]
    exact hfollows
  | failRead =>
    obtain ⟨net, hnet, rfl⟩ := Application.advance_eq_some happ
    refine ⟨[], queued, ?_⟩
    rw [List.append_nil]
    exact h.failRead hnet
  | frame input =>
    simp only at happ
    split at happ
    · cases happ
      exact ⟨queued, [], h.frame input⟩
    · cases happ

end Peer

/-! ## Steps of the system -/

namespace System

variable {lib : JsonLib}

/-- The client at a place has polled some notices, and perhaps more. -/
def Onward (lib : JsonLib) (place : ℕ) (polled : List Notice) (system : System) : Prop :=
  ∃ (peer : Peer) (more queued : List Notice), system.peers[place]? = some peer ∧
    peer.Follows lib system.server (polled ++ more) queued

variable {system next : System} {place : ℕ} {polled : List Notice}

/-- One client moves, or the server does, or both. -/
theorem Onward.set (h : system.Onward lib place polled) {other : ℕ} {peer moved : Peer}
    {server : Server} (hpeer : system.peers[other]? = some peer)
    (hserver : Server.Extends lib system.server server)
    (hmoved : ∀ polled queued, peer.Follows lib system.server polled queued →
      ∃ more queued', moved.Follows lib server (polled ++ more) queued') :
    Onward lib place polled ⟨server, system.peers.set other moved⟩ := by
  obtain ⟨found, more, queued, hfound, hfollows⟩ := h
  by_cases hplace : other = place
  · subst hplace
    cases hpeer.symm.trans hfound
    obtain ⟨more', queued', hfollows'⟩ := hmoved _ _ hfollows
    have hlt := (List.getElem?_eq_some_iff.mp hpeer).1
    refine ⟨moved, more ++ more', queued', List.getElem?_set_self hlt, ?_⟩
    rw [← List.append_assoc]
    exact hfollows'
  · exact ⟨found, more, queued, (List.getElem?_set_ne hplace).trans hfound,
      hfollows.extends hserver⟩

theorem step_onward (hlib : lib.Lawful) {event : Event} (h : system.Onward lib place polled)
    (hstep : system.step lib event = some next) : next.Onward lib place polled := by
  have hstays : ∀ {peer moved : Peer} {server : Server} {polled queued},
      peer.Follows lib system.server polled queued → moved.Follows lib server polled queued →
      ∃ more queued', moved.Follows lib server (polled ++ more) queued' := by
    intro peer moved server polled queued _ hmoved
    exact ⟨[], queued, by rwa [List.append_nil]⟩
  cases step_stepped hstep with
  | launch =>
    obtain ⟨peer, more, queued, hpeer, hfollows⟩ := h
    have hlt := (List.getElem?_eq_some_iff.mp hpeer).1
    exact ⟨peer, more, queued, (List.getElem?_append_left hlt).trans hpeer, hfollows⟩
  | accept hpeer hsession hserver =>
    exact h.set hpeer (Server.step_extends hserver) fun _ _ hfollows ↦
      hstays hfollows (hfollows.accept hsession hserver)
  | server hserver =>
    obtain ⟨peer, more, queued, hpeer, hfollows⟩ := h
    exact ⟨peer, more, queued, hpeer, hfollows.extends (Server.step_extends hserver)⟩
  | upload hpeer hserver =>
    refine h.set hpeer (Server.step_extends hserver) fun _ _ hfollows ↦ hstays hfollows ?_
    have hextended := hfollows.extends (Server.step_extends hserver)
    exact ⟨hextended.ready, hextended.shows, hextended.queue,
      hextended.attached.same rfl rfl rfl⟩
  | download hpeer hsession hobject hbytes happ =>
    refine h.set hpeer (.refl _) fun _ _ hfollows ↦ hstays hfollows ?_
    rw [Application.step_receive happ, hbytes]
    exact ⟨hfollows.ready.of_net _, hfollows.shows.of_net _, hfollows.queue,
      hfollows.attached.receive hsession hobject _ rfl rfl rfl⟩
  | client hpeer harrives happ =>
    exact h.set hpeer (.refl _) fun _ _ hfollows ↦ hfollows.client hlib harrives happ

theorem run_onward (hlib : lib.Lawful) {events : List Event}
    (h : system.Onward lib place polled)
    (hrun : Transition.run (step lib) system events = some next) :
    next.Onward lib place polled :=
  Transition.invariant_run (step_onward hlib) h hrun

/-- Every client follows its session. -/
def Consistent (lib : JsonLib) (system : System) : Prop :=
  ∀ place, place < system.peers.length → system.Onward lib place []

/-- A step keeps the places of the clients, and adds at most one. -/
theorem step_length {event : Event} (hstep : system.step lib event = some next) :
    next.peers.length = system.peers.length ∨
      ∃ connected, next =
        { system with peers := system.peers ++ [{ app := .start connected }] } := by
  cases step_stepped hstep with
  | launch => exact Or.inr ⟨_, rfl⟩
  | server => exact Or.inl rfl
  | accept | upload | download | client => exact Or.inl (List.length_set ..)

theorem step_consistent (hlib : lib.Lawful) {event : Event} (h : system.Consistent lib)
    (hstep : system.step lib event = some next) : next.Consistent lib := by
  intro place hplace
  rcases Nat.lt_or_ge place system.peers.length with hlt | hge
  · exact step_onward hlib (h place hlt) hstep
  · rcases step_length hstep with hlength | ⟨connected, rfl⟩
    · omega
    · rw [List.length_append, List.length_singleton] at hplace
      have hlast : place = system.peers.length := by omega
      subst hlast
      exact ⟨_, [], [], List.getElem?_concat_length, Peer.follows_start lib _ connected⟩

/-- The clients of every run. -/
theorem consistent_run (hlib : lib.Lawful) {server : Server} {events : List Event}
    (hrun : Transition.run (step lib) ⟨server, []⟩ events = some next) : next.Consistent lib := by
  refine Transition.invariant_run (step_consistent hlib) ?_ hrun
  intro place hplace
  exact absurd hplace (Nat.not_lt_zero place)

end System

end NetPixeld
