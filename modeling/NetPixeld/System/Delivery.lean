import NetPixeld.System.Agreement
import NetPixeld.System.Numbering

/-!
# No update is lost

As long as the updates of a session are numbered from one on, they all pass the filter of its
client: from the moment the client knows its uuid, it applies every update for its account exactly
once, in the order in which the server queued them.
-/

namespace NetPixeld

namespace Notice

/-- How many updates there are among some notices. -/
def tally (notices : List Notice) : ℕ := (notices.filterMap totals).length

/-- The updates for an account. -/
def own (uuid : Bytes) (notices : List Notice) : List (Bytes × Resources) :=
  (notices.filterMap totals).filter fun entry ↦ entry.1 = uuid

/-- The updates among some notices carry the numbers that follow a count. -/
def NumberedFrom (count : ℕ) : List Notice → Prop
  | [] => True
  | notice :: rest =>
      (∀ sequence uuid pool, notice = .update sequence uuid pool →
        sequence = UInt32.ofNat (count + 1)) ∧ NumberedFrom (count + tally [notice]) rest

@[simp]
theorem tally_append (notices more : List Notice) :
    tally (notices ++ more) = tally notices + tally more := by
  rw [tally, List.filterMap_append, List.length_append]
  rfl

theorem tally_cons (notice : Notice) (rest : List Notice) :
    tally (notice :: rest) = tally [notice] + tally rest := tally_append [notice] rest

@[simp]
theorem own_append (uuid : Bytes) (notices more : List Notice) :
    own uuid (notices ++ more) = own uuid notices ++ own uuid more := by
  rw [own, List.filterMap_append, List.filter_append]
  rfl

theorem own_cons (uuid : Bytes) (notice : Notice) (rest : List Notice) :
    own uuid (notice :: rest) = own uuid [notice] ++ own uuid rest := own_append uuid [notice] rest

theorem numberedFrom_append {count : ℕ} {notices more : List Notice} :
    NumberedFrom count (notices ++ more) ↔
      NumberedFrom count notices ∧ NumberedFrom (count + tally notices) more := by
  induction notices generalizing count with
  | nil => exact ⟨fun h ↦ ⟨trivial, h⟩, fun h ↦ h.2⟩
  | cons notice rest ih =>
    rw [List.cons_append, NumberedFrom, NumberedFrom, ih, tally_cons notice rest, ← Nat.add_assoc,
      and_assoc]

/-- The numbers of the messages. -/
theorem numberedFrom_of_messages {count : ℕ} {notices : List Notice}
    (h : ∀ place msg, ((notices.map message).filter Protocol.Message.isUpdate)[place]? = some msg →
      msg.sequence = UInt32.ofNat (count + place + 1)) : NumberedFrom count notices := by
  induction notices generalizing count with
  | nil => trivial
  | cons notice rest ih =>
    cases notice with
    | assign sequence clientId =>
      exact ⟨nofun, ih h⟩
    | result sequence uuid =>
      exact ⟨nofun, ih h⟩
    | update sequence uuid pool =>
      refine ⟨fun _ _ _ heq ↦ ?_, ih fun place msg hmsg ↦ ?_⟩
      · cases heq
        exact h 0 _ rfl
      · rw [h (place + 1) msg hmsg]
        exact congrArg UInt32.ofNat (by simp [tally, totals]; omega)

/-- The updates are the messages of their type. -/
theorem tally_eq_length (notices : List Notice) :
    tally notices = ((notices.map message).filter Protocol.Message.isUpdate).length := by
  induction notices with
  | nil => rfl
  | cons notice rest ih =>
    rw [tally_cons, ih]
    cases notice with
    | assign => exact Nat.zero_add _
    | result => exact Nat.zero_add _
    | update => exact Nat.add_comm 1 _

end Notice

theorem Packet.messages_of_carries {lib : JsonLib} {sent : List Packet} {notices : List Notice}
    (h : List.Forall₂ (Packet.Carries lib) sent notices) :
    sent.map Packet.message = notices.map Notice.message := by
  induction h with
  | nil => rfl
  | cons hpacket _ ih => rw [List.map_cons, List.map_cons, hpacket.message, ih]

/-! ## What the filter lets through -/

namespace GameContext

open Notice

/-- The client has counted the updates of the connection, as long as they are numbered. -/
def Tallied (ctx : GameContext) (polled : List Notice) : Prop :=
  NumberedFrom 0 polled → tally polled < 2 ^ 32 →
    lastSeq ctx.lastSeqByType Protocol.msgResourceUpdate = UInt32.ofNat (tally polled)

/-- The next update passes the filter, and is applied in the game when it is for the account. -/
theorem receive_update {ctx : GameContext} {count : ℕ}
    (hcount : lastSeq ctx.lastSeqByType Protocol.msgResourceUpdate = UInt32.ofNat count)
    (hbound : count + 1 < 2 ^ 32) (scene : SceneID) (uuid : Bytes) (pool : Resources) :
    let notice := Notice.update (UInt32.ofNat (count + 1)) uuid pool
    ctx.receive scene notice = GameContext.absorb scene { ctx with
      lastSeqByType := ctx.lastSeqByType.insert Protocol.msgResourceUpdate
        (UInt32.ofNat (count + 1)) } notice := by
  dsimp only
  have hlt : UInt32.ofNat count < UInt32.ofNat (count + 1) := by
    rw [UInt32.lt_iff_toNat_lt, UInt32.toNat_ofNat', UInt32.toNat_ofNat']
    omega
  rcases Application.filterSequence_spec ctx.lastSeqByType
      (Notice.update (UInt32.ofNat (count + 1)) uuid pool).message with
    ⟨hpasses, _, _, hfiltered⟩ | ⟨_, hdropped, _⟩
  · unfold receive
    rw [if_pos hpasses, hfiltered]
    rfl
  · rw [type_update, hcount] at hdropped
    rcases hdropped with hle | hne
    · exact absurd hlt (UInt32.not_lt.mpr hle)
    · exact absurd (UInt32.ofNat_add count 1) hne

/-- A notice of another type leaves the count of the updates alone, and applies nothing. -/
theorem receive_other {ctx : GameContext} {notice : Notice} (h : notice.totals = none)
    (scene : SceneID) :
    lastSeq (ctx.receive scene notice).lastSeqByType Protocol.msgResourceUpdate =
        lastSeq ctx.lastSeqByType Protocol.msgResourceUpdate ∧
      (ctx.receive scene notice).applied = ctx.applied := by
  have htype : notice.message.type ≠ Protocol.msgResourceUpdate := by
    cases notice with
    | assign => exact (by decide : Protocol.msgAssignClientId ≠ Protocol.msgResourceUpdate)
    | result => exact (by decide : Protocol.msgLoginResult ≠ Protocol.msgResourceUpdate)
    | update => cases h
  constructor
  · rw [lastSeqByType_receive]
    rcases Application.filterSequence_spec ctx.lastSeqByType notice.message with
      ⟨_, _, _, hfiltered⟩ | ⟨_, _, hfiltered⟩
    · rw [hfiltered, lastSeq_insert, if_neg htype]
    · rw [hfiltered, lastSeq_insert, if_neg htype]
  · unfold receive
    dsimp only
    split
    · cases notice with
      | assign => rfl
      | result => cases scene <;> rfl
      | update => cases h
    · rfl

/-- One notice, in either scene. -/
theorem receive_numbered {ctx : GameContext} {count : ℕ} {notice : Notice}
    (hcount : lastSeq ctx.lastSeqByType Protocol.msgResourceUpdate = UInt32.ofNat count)
    (hnumbered : NumberedFrom count [notice]) (hbound : count + tally [notice] < 2 ^ 32)
    (scene : SceneID) :
    lastSeq (ctx.receive scene notice).lastSeqByType Protocol.msgResourceUpdate =
        UInt32.ofNat (count + tally [notice]) ∧
      (scene = .game →
        (ctx.receive scene notice).applied = ctx.applied ++ own ctx.uuid [notice]) := by
  have hother : notice.totals = none → _ := fun hnone ↦ @receive_other ctx notice hnone scene
  cases notice with
  | assign sequence clientId =>
    obtain ⟨hlast, happlied⟩ := hother rfl
    exact ⟨hlast.trans hcount, fun _ ↦ happlied.trans (List.append_nil _).symm⟩
  | result sequence uuid =>
    obtain ⟨hlast, happlied⟩ := hother rfl
    exact ⟨hlast.trans hcount, fun _ ↦ happlied.trans (List.append_nil _).symm⟩
  | update sequence uuid pool =>
    cases hnumbered.1 sequence uuid pool rfl
    rw [receive_update hcount hbound scene uuid pool]
    cases scene with
    | login =>
      refine ⟨?_, nofun⟩
      exact (lastSeq_insert ..).trans (if_pos rfl)
    | game =>
      unfold absorb
      dsimp only
      by_cases hown : uuid = ctx.uuid
      · rw [if_pos hown]
        refine ⟨(lastSeq_insert ..).trans (if_pos rfl), fun _ ↦ ?_⟩
        simp [own, totals, hown]
      · rw [if_neg hown]
        refine ⟨(lastSeq_insert ..).trans (if_pos rfl), fun _ ↦ ?_⟩
        simp [own, totals, hown]

/-- The notices of a frame. -/
theorem foldl_receive_numbered {ctx : GameContext} {count : ℕ} {notices : List Notice}
    (hcount : lastSeq ctx.lastSeqByType Protocol.msgResourceUpdate = UInt32.ofNat count)
    (hnumbered : NumberedFrom count notices) (hbound : count + tally notices < 2 ^ 32)
    (scene : SceneID) :
    lastSeq (notices.foldl (receive scene) ctx).lastSeqByType Protocol.msgResourceUpdate =
        UInt32.ofNat (count + tally notices) ∧
      (scene = .game →
        (notices.foldl (receive scene) ctx).applied = ctx.applied ++ own ctx.uuid notices) := by
  induction notices generalizing ctx count with
  | nil => exact ⟨hcount, fun _ ↦ (List.append_nil _).symm⟩
  | cons notice rest ih =>
    have hsplit :=
      numberedFrom_append.mp (show NumberedFrom count ([notice] ++ rest) from hnumbered)
    rw [tally_cons notice rest, ← Nat.add_assoc] at hbound ⊢
    obtain ⟨hlast, happlied⟩ := receive_numbered hcount hsplit.1 (by omega) scene
    obtain ⟨hlast', happlied'⟩ := ih hlast hsplit.2 hbound
    refine ⟨hlast', fun hscene ↦ ?_⟩
    have huuid : (ctx.receive scene notice).uuid = ctx.uuid := by
      rw [hscene]
      exact uuid_receive_game ctx notice
    rw [List.foldl_cons, happlied' hscene, happlied hscene, huuid, own_cons ctx.uuid notice rest,
      List.append_assoc]

/-- What is known of a client and the notices it polled, and lasts over a frame. -/
structure Lasting (relation : GameContext → List Notice → Prop) : Prop where
  net : ∀ {ctx polled} net, relation ctx polled → relation { ctx with net := net } polled
  frame : ∀ {ctx polled} queued, relation ctx polled →
    relation (queued.foldl (receive ctx.shown) ctx) (polled ++ queued)

theorem lasting_tallied : Lasting Tallied := by
  refine ⟨fun net h ↦ h, fun queued h hnumbered hbound ↦ ?_⟩
  obtain ⟨hpolled, hqueued⟩ := numberedFrom_append.mp hnumbered
  rw [tally_append] at hbound ⊢
  rw [Nat.zero_add] at hqueued
  exact (foldl_receive_numbered (h hpolled (by omega)) hqueued hbound _).1

/-- The updates for the account that were polled since a moment were applied since then. -/
def Applying (before : GameContext) (earlier : List Notice) (ctx : GameContext)
    (polled : List Notice) : Prop :=
  ctx.Tallied polled ∧ ctx.uuid = before.uuid ∧ ∃ later, polled = earlier ++ later ∧
    (NumberedFrom 0 polled → tally polled < 2 ^ 32 →
      ctx.applied = before.applied ++ own before.uuid later)

theorem lasting_applying {before : GameContext} (huuid : before.uuid ≠ [])
    (earlier : List Notice) : Lasting (Applying before earlier) := by
  refine ⟨fun net h ↦ h, fun {ctx polled} queued h ↦ ?_⟩
  obtain ⟨htallied, hsame, later, rfl, happlied⟩ := h
  have hshown : ctx.shown = .game := if_neg (hsame ▸ huuid)
  refine ⟨lasting_tallied.frame queued htallied, ?_, later ++ queued, List.append_assoc .., ?_⟩
  · rw [hshown]
    exact (uuid_foldl_receive_game ctx queued).trans hsame
  · intro hnumbered hbound
    obtain ⟨hpolled, hqueued⟩ := numberedFrom_append.mp hnumbered
    rw [tally_append] at hbound
    rw [Nat.zero_add] at hqueued
    have hless : tally (earlier ++ later) < 2 ^ 32 := by omega
    rw [(foldl_receive_numbered (htallied hpolled hless) hqueued hbound _).2 hshown,
      happlied hpolled hless, hsame, own_append, List.append_assoc]

end GameContext

/-! ## Along the runs of the system -/

namespace System

variable {lib : JsonLib} {relation : GameContext → List Notice → Prop}

/-- A relation holds of the client at a place and the notices that it polled. -/
def Tracks (lib : JsonLib) (relation : GameContext → List Notice → Prop) (place : ℕ)
    (system : System) : Prop :=
  ∃ (peer : Peer) (polled queued : List Notice), system.peers[place]? = some peer ∧
    peer.Follows lib system.server polled queued ∧ relation peer.app.ctx polled

variable {system next : System} {place : ℕ}

/-- One client moves, or the server does, or both. -/
theorem Tracks.set (h : system.Tracks lib relation place) {other : ℕ} {peer moved : Peer}
    {server : Server} (hpeer : system.peers[other]? = some peer)
    (hserver : Server.Extends lib system.server server)
    (hmoved : ∀ polled queued, peer.Follows lib system.server polled queued →
      relation peer.app.ctx polled → ∃ polled' queued',
        moved.Follows lib server polled' queued' ∧ relation moved.app.ctx polled') :
    Tracks lib relation place ⟨server, system.peers.set other moved⟩ := by
  obtain ⟨found, polled, queued, hfound, hfollows, hrelation⟩ := h
  by_cases hplace : other = place
  · subst hplace
    cases hpeer.symm.trans hfound
    obtain ⟨polled', queued', hfollows', hrelation'⟩ := hmoved _ _ hfollows hrelation
    have hlt := (List.getElem?_eq_some_iff.mp hpeer).1
    exact ⟨moved, polled', queued', List.getElem?_set_self hlt, hfollows', hrelation'⟩
  · exact ⟨found, polled, queued, (List.getElem?_set_ne hplace).trans hfound,
      hfollows.extends hserver, hrelation⟩

/-- A step of a client in which nothing arrives. -/
theorem follows_client (hlib : lib.Lawful) (hlasting : GameContext.Lasting relation)
    {server : Server} {peer : Peer} {polled queued : List Notice}
    (h : peer.Follows lib server polled queued) (hrelation : relation peer.app.ctx polled)
    {event : Application.Event} (harrives : arrives event = false) {app : Application}
    (happ : peer.app.step lib event = some app) :
    ∃ polled' queued', ({ peer with app := app } : Peer).Follows lib server polled' queued' ∧
      relation app.ctx polled' := by
  unfold Application.step at happ
  split at happ
  swap
  · cases happ
  cases event with
  | receive bytes => cases harrives
  | takeLine =>
    obtain ⟨net, hnet, rfl⟩ := Application.advance_eq_some happ
    obtain ⟨queued', hfollows⟩ := h.takeLine hlib hnet
    exact ⟨polled, queued', hfollows, hlasting.net net hrelation⟩
  | failRead =>
    obtain ⟨net, hnet, rfl⟩ := Application.advance_eq_some happ
    exact ⟨polled, queued, h.failRead hnet, hlasting.net net hrelation⟩
  | frame input =>
    simp only at happ
    split at happ
    · cases happ
      refine ⟨polled ++ queued, [], h.frame input, ?_⟩
      have hframed := Application.update_framed lib h.ready h.queue input
      obtain ⟨alive, halive⟩ := Application.conclude_eq (peer.app.update lib input)
      rw [halive]
      show relation (peer.app.update lib input).1.ctx _
      rw [hframed.ctx]
      exact hlasting.net _ (hlasting.frame queued hrelation)
    · cases happ

theorem step_tracks (hlib : lib.Lawful) (hlasting : GameContext.Lasting relation) {event : Event}
    (h : system.Tracks lib relation place) (hstep : system.step lib event = some next) :
    next.Tracks lib relation place := by
  cases step_stepped hstep with
  | launch =>
    obtain ⟨peer, polled, queued, hpeer, hfollows⟩ := h
    have hlt := (List.getElem?_eq_some_iff.mp hpeer).1
    exact ⟨peer, polled, queued, (List.getElem?_append_left hlt).trans hpeer, hfollows⟩
  | accept hpeer hsession hserver =>
    exact h.set hpeer (Server.step_extends hserver) fun polled queued hfollows hrelation ↦
      ⟨polled, queued, hfollows.accept hsession hserver, hrelation⟩
  | server hserver =>
    obtain ⟨peer, polled, queued, hpeer, hfollows, hrelation⟩ := h
    exact ⟨peer, polled, queued, hpeer, hfollows.extends (Server.step_extends hserver), hrelation⟩
  | upload hpeer hserver =>
    refine h.set hpeer (Server.step_extends hserver) fun polled queued hfollows hrelation ↦
      ⟨polled, queued, ?_, hrelation⟩
    have hextended := hfollows.extends (Server.step_extends hserver)
    exact ⟨hextended.ready, hextended.shows, hextended.queue,
      hextended.attached.same rfl rfl rfl⟩
  | download hpeer hsession hobject hbytes happ =>
    refine h.set hpeer (.refl _) fun polled queued hfollows hrelation ↦ ⟨polled, queued, ?_, ?_⟩
    · rw [Application.step_receive happ, hbytes]
      exact ⟨hfollows.ready.of_net _, hfollows.shows.of_net _, hfollows.queue,
        hfollows.attached.receive hsession hobject _ rfl rfl rfl⟩
    · rw [Application.step_receive happ]
      exact hlasting.net _ hrelation
  | client hpeer harrives happ =>
    exact h.set hpeer (.refl _) fun polled queued hfollows hrelation ↦
      follows_client hlib hlasting hfollows hrelation harrives happ

theorem run_tracks (hlib : lib.Lawful) (hlasting : GameContext.Lasting relation)
    {events : List Event} (h : system.Tracks lib relation place)
    (hrun : Transition.run (step lib) system events = some next) :
    next.Tracks lib relation place :=
  Transition.invariant_run (step_tracks hlib hlasting) h hrun

/-- Every client is tracked from its start. -/
theorem tracks_run (hlib : lib.Lawful) (hlasting : GameContext.Lasting relation)
    (hstart : ∀ connected, relation (Application.start connected).ctx []) {server : Server}
    {events : List Event} (hrun : Transition.run (step lib) ⟨server, []⟩ events = some next)
    (hplace : place < next.peers.length) : next.Tracks lib relation place := by
  refine @Transition.invariant_run _ _ _
    (fun system ↦ ∀ place, place < system.peers.length → Tracks lib relation place system)
    (fun {system event next} h hstep place hplace ↦ ?_) _ _ _
    (fun place hplace ↦ absurd hplace (Nat.not_lt_zero place)) hrun place hplace
  rcases Nat.lt_or_ge place system.peers.length with hlt | hge
  · exact step_tracks hlib hlasting (h place hlt) hstep
  · rcases step_length hstep with hlength | ⟨connected, rfl⟩
    · omega
    · rw [List.length_append, List.length_singleton] at hplace
      have hlast : place = system.peers.length := by omega
      subst hlast
      exact ⟨_, [], [], List.getElem?_concat_length, Peer.follows_start lib _ connected,
        hstart connected⟩

/-- A client keeps the session that it was accepted with. -/
theorem step_session {event : Event} {index : ℕ}
    (h : ∃ peer : Peer, system.peers[place]? = some peer ∧ peer.session = some index)
    (hstep : system.step lib event = some next) :
    ∃ peer : Peer, next.peers[place]? = some peer ∧ peer.session = some index := by
  obtain ⟨peer, hpeer, hsession⟩ := h
  have hlt := (List.getElem?_eq_some_iff.mp hpeer).1
  have hset : ∀ {other : ℕ} {found moved : Peer}, system.peers[other]? = some found →
      (found.session = some index → moved.session = some index) →
      ∃ peer : Peer, (system.peers.set other moved)[place]? = some peer ∧
        peer.session = some index := by
    intro other found moved hfound hmoved
    by_cases hplace : other = place
    · subst hplace
      cases hpeer.symm.trans hfound
      exact ⟨moved, List.getElem?_set_self hlt, hmoved hsession⟩
    · exact ⟨peer, (List.getElem?_set_ne hplace).trans hpeer, hsession⟩
  cases step_stepped hstep with
  | launch => exact ⟨peer, (List.getElem?_append_left hlt).trans hpeer, hsession⟩
  | server => exact ⟨peer, hpeer, hsession⟩
  | accept hfound hnone =>
    refine hset hfound fun hsome ↦ ?_
    cases hnone.symm.trans hsome
  | upload hfound => exact hset hfound id
  | download hfound => exact hset hfound id
  | client hfound => exact hset hfound id

/-! ## The numbers on the server -/

/-- Every tick finds the counters fresh. -/
def CountersFresh : System → Event → Prop := OfServer Server.CountersFresh

/-- The updates are counted in every run. -/
theorem counted_run {files : Files} {server : Server}
    (hstart : Server.start lib files = .ok server) {events : List Event}
    (hfresh : Transition.Always (step lib) CountersFresh ⟨server, []⟩ events)
    (hrun : Transition.run (step lib) ⟨server, []⟩ events = some next) : next.server.Counted := by
  have hkeeps : ∀ {system next : System} {event : Event},
      system.server.Indexed ∧ system.server.Counted → system.CountersFresh event →
      system.step lib event = some next → next.server.Indexed ∧ next.server.Counted :=
    step_server (fun h hcondition hserver ↦ Server.step_counted h hcondition hserver)
      (fun _ _ _ _ _ _ _ hevent ↦ by cases hevent)
      (fun _ _ _ _ _ _ _ _ _ hevent ↦ by cases hevent)
  have hinit : server.Indexed ∧ server.Counted := by
    refine ⟨(Server.fresh_of_start hstart).indexed, ?_⟩
    obtain ⟨db, rfl⟩ := Server.fresh_of_start hstart
    exact ⟨fun index session hobject ↦ (by cases hobject),
      fun _ clientId index session hfind ↦ (by cases hfind)⟩
  exact (Transition.invariant_run_of_always hkeeps hinit hfresh hrun).2

/-- What is announced on a session is numbered. -/
theorem numberedFrom_of_announces {server : Server} (h : server.Counted) {index : ℕ}
    {session : Session} (hobject : server.object index = some session)
    {stores : List (Bytes × Resources)} {notices : List Notice}
    (hannounces : session.Announces lib stores notices) :
    Notice.NumberedFrom 0 notices ∧ Notice.tally notices = session.updates.length := by
  have hupdates : (notices.map Notice.message).filter Protocol.Message.isUpdate =
      session.updates := by
    rw [Session.updates, Packet.messages_of_carries hannounces.packets]
  refine ⟨Notice.numberedFrom_of_messages fun place msg hmsg ↦ ?_, ?_⟩
  · rw [hupdates] at hmsg
    rw [Nat.zero_add]
    exact h.numbered index session hobject place msg hmsg
  · rw [← hupdates]
    exact Notice.tally_eq_length notices

/-- What a client applies between two quiet moments of a connection with numbered updates. -/
theorem applied_between (hlib : lib.Lawful) {server : Server} {before after : List Event}
    {middle final : System} (hbefore : Transition.run (step lib) ⟨server, []⟩ before = some middle)
    (hafter : Transition.run (step lib) middle after = some final)
    (hcounted : final.server.Counted) {index : ℕ} {peer peer' : Peer} {session session' : Session}
    (hpeer : middle.peers[place]? = some peer) (huuid : peer.app.ctx.uuid ≠ [])
    (hsession : peer.session = some index) (hobject : middle.server.object index = some session)
    (hquiet : peer.Quiet session) (hpeer' : final.peers[place]? = some peer')
    (hobject' : final.server.object index = some session') (hquiet' : peer'.Quiet session')
    (hbound : session'.updates.length < 2 ^ 32) :
    ∃ earlier later, session.Announces lib middle.server.stores earlier ∧
      session'.Announces lib final.server.stores (earlier ++ later) ∧
      peer'.app.ctx.uuid = peer.app.ctx.uuid ∧
      peer'.app.ctx.applied = peer.app.ctx.applied ++ Notice.own peer.app.ctx.uuid later ∧
      peer'.app.ctx.resources = ((Notice.own peer.app.ctx.uuid later).getLast?.map Prod.snd).getD
        peer.app.ctx.resources := by
  -- the client at the moment between the two runs
  have hlt := (List.getElem?_eq_some_iff.mp hpeer).1
  obtain ⟨found, earlier, queued, hfound, hfollows, htallied⟩ :=
    tracks_run hlib GameContext.lasting_tallied (fun _ _ _ ↦ rfl) hbefore hlt
  cases hpeer.symm.trans hfound
  -- and at the end
  have happlying : middle.Tracks lib (GameContext.Applying peer.app.ctx earlier) place :=
    ⟨peer, earlier, queued, hpeer, hfollows, htallied, rfl, [], (List.append_nil _).symm,
      fun _ _ ↦ (List.append_nil _).symm⟩
  obtain ⟨found', polled, queued', hfound', hfollows', _, hsame, later, rfl, happlied⟩ :=
    run_tracks hlib (GameContext.lasting_applying huuid earlier) happlying hafter
  cases hpeer'.symm.trans hfound'
  obtain ⟨found', hfound', hsession'⟩ :=
    Transition.invariant_run step_session ⟨peer, hpeer, hsession⟩ hafter
  cases hpeer'.symm.trans hfound'
  have hannounces := hquiet'.drained.announces hlib hfollows' hsession' hobject'
  obtain ⟨hnumbered, htally⟩ := numberedFrom_of_announces hcounted hobject' hannounces
  have hlater := happlied hnumbered (htally ▸ hbound)
  refine ⟨earlier, later, hquiet.drained.announces hlib hfollows hsession hobject, hannounces,
    hsame, hlater, ?_⟩
  rw [hfollows'.shows.resources, hlater, hfollows.shows.resources, List.getLast?_append]
  cases (Notice.own peer.app.ctx.uuid later).getLast? with
  | none => rfl
  | some entry => rfl

/-- From the moment a client knows its uuid, no update is lost, none is applied twice, and their
order is kept: between two moments at which its connection is quiet it applies exactly the updates
for its account that the server queued in between, and then it shows the last of them. -/
theorem updates_delivered (hlib : lib.Lawful) {files : Files} {server : Server}
    (hstart : Server.start lib files = .ok server) {before after : List Event}
    {middle final : System} (hbefore : Transition.run (step lib) ⟨server, []⟩ before = some middle)
    (hafter : Transition.run (step lib) middle after = some final)
    (hfresh : Transition.Always (step lib) CountersFresh ⟨server, []⟩ (before ++ after))
    {index : ℕ} {peer peer' : Peer} {session session' : Session}
    (hpeer : middle.peers[place]? = some peer) (huuid : peer.app.ctx.uuid ≠ [])
    (hsession : peer.session = some index) (hobject : middle.server.object index = some session)
    (hquiet : peer.Quiet session) (hpeer' : final.peers[place]? = some peer')
    (hobject' : final.server.object index = some session') (hquiet' : peer'.Quiet session')
    (hbound : session'.updates.length < 2 ^ 32) :
    ∃ earlier later, session.Announces lib middle.server.stores earlier ∧
      session'.Announces lib final.server.stores (earlier ++ later) ∧
      peer'.app.ctx.applied = peer.app.ctx.applied ++ Notice.own peer.app.ctx.uuid later ∧
      peer'.app.ctx.resources = ((Notice.own peer.app.ctx.uuid later).getLast?.map Prod.snd).getD
        peer.app.ctx.resources := by
  have hrun := Transition.run_append_eq_some.mpr ⟨middle, hbefore, hafter⟩
  have hcounted := counted_run hstart hfresh hrun
  obtain ⟨earlier, later, hearlier, hannounces, _, happlied, hshown⟩ :=
    applied_between hlib hbefore hafter hcounted hpeer huuid hsession hobject hquiet hpeer' hobject'
      hquiet' hbound
  exact ⟨earlier, later, hearlier, hannounces, happlied, hshown⟩

/-- One login, and one tick behind it. -/
theorem updates_delivered_tick :
    let before : List Event := [.launch true, .accept 0,
      .client 0 (.frame { username := text "ana" }),
      .client 0 (.frame { username := text "ana", pass := text "pw" }),
      .client 0 (.frame { username := text "ana", pass := text "pw", clicked := true }),
      .upload 0 200, .server (.readDone 0 (1, 2) {}), .server (.strand 0), .server (.strand 0),
      .server (.writeDone 0), .server (.writeDone 0), .download 0 500, .client 0 .takeLine,
      .client 0 .takeLine, .client 0 (.frame {})]
    let tick : Event := .server (.tick [1] [text "ana"] fun _ ↦ {})
    let deliver : List Event := [.server (.strand 0), .server (.writeDone 0), .download 0 500,
      .client 0 .takeLine, .client 0 (.frame {})]
    ∃ middle final peer peer' session session',
      Server.start JsonLib.reference {} = .ok {} ∧
      Transition.run (step JsonLib.reference) ⟨{}, []⟩ before = some middle ∧
      Transition.run (step JsonLib.reference) middle (tick :: deliver) = some final ∧
      middle.peers[0]? = some peer ∧ peer.app.ctx.applied = [] ∧ peer.Quiet session ∧
      final.peers[0]? = some peer' ∧ peer'.Quiet session' ∧ session'.updates.length = 1 ∧
      ∃ earlier later, session.Announces JsonLib.reference middle.server.stores earlier ∧
        session'.Announces JsonLib.reference final.server.stores (earlier ++ later) ∧
        peer'.app.ctx.applied = peer.app.ctx.applied ++ Notice.own peer.app.ctx.uuid later ∧
        peer'.app.ctx.resources =
          ((Notice.own peer.app.ctx.uuid later).getLast?.map Prod.snd).getD
            peer.app.ctx.resources := by
  intro before tick deliver
  have hbefore : (Transition.run (step JsonLib.reference) ⟨{}, []⟩ before).bind (fun middle ↦
      middle.peers[0]?.bind fun peer ↦ (middle.server.object 0).map fun session ↦
        (peer.session, decide (peer.Quiet session), peer.app.ctx.uuid,
          peer.app.ctx.applied.isEmpty, middle.server.lastSeqByType.items.isEmpty)) =
      some (some 0, true, JsonDB.generateUuid (1, 2), true, true) := by
    decide +kernel
  have hfinal : (Transition.run (step JsonLib.reference) ⟨{}, []⟩ (before ++ tick :: deliver)).bind
      (fun final ↦ final.peers[0]?.bind fun peer ↦ (final.server.object 0).map fun session ↦
        (decide (peer.Quiet session), session.updates.length)) = some (true, 1) := by
    decide +kernel
  obtain ⟨middle, hmiddle, hpeers⟩ := Option.bind_eq_some_iff.mp hbefore
  obtain ⟨peer, hpeer, hobjects⟩ := Option.bind_eq_some_iff.mp hpeers
  obtain ⟨session, hobject, hshown⟩ := Option.map_eq_some_iff.mp hobjects
  simp only [Prod.mk.injEq, decide_eq_true_eq, List.isEmpty_iff] at hshown
  obtain ⟨hsession, hquiet, huuid, happlied, hcounters⟩ := hshown
  obtain ⟨final, hrun, hpeers'⟩ := Option.bind_eq_some_iff.mp hfinal
  obtain ⟨peer', hpeer', hobjects'⟩ := Option.bind_eq_some_iff.mp hpeers'
  obtain ⟨session', hobject', hshown'⟩ := Option.map_eq_some_iff.mp hobjects'
  simp only [Prod.mk.injEq, decide_eq_true_eq] at hshown'
  obtain ⟨hquiet', hcount⟩ := hshown'
  obtain ⟨middle', hmiddle', hafter⟩ := Transition.run_append_eq_some.mp hrun
  cases hmiddle.symm.trans hmiddle'
  have hfresh : Transition.Always (step JsonLib.reference) CountersFresh ⟨{}, []⟩
      (before ++ tick :: deliver) := by
    refine Transition.always_append (Transition.always_of_forall ?_ _)
      fun reached hreached ↦ ⟨?_, fun next _ ↦ Transition.always_of_forall ?_ _⟩
    · simp [before, CountersFresh, OfServer, Server.CountersFresh]
    · cases hmiddle.symm.trans hreached
      intro order walk io clientId index session _ _ _
      have hnone : middle.server.lastSeqByType.find clientId = none := by
        rw [SortedMap.find, hcounters]
        rfl
      rw [Server.counter, Server.counters, hnone]
      rfl
    · simp [deliver, CountersFresh, OfServer, Server.CountersFresh]
  have hstart : Server.start JsonLib.reference {} = .ok {} := rfl
  have hknown : peer.app.ctx.uuid ≠ [] := by
    rw [huuid]
    decide
  exact ⟨middle, final, peer, peer', session, session', hstart, hmiddle, hafter, hpeer, happlied,
    hquiet, hpeer', hquiet', hcount,
    updates_delivered JsonLib.reference_lawful hstart hmiddle hafter hfresh hpeer hknown hsession
      hobject hquiet hpeer' hobject' hquiet' (by rw [hcount]; decide)⟩

end System

end NetPixeld
