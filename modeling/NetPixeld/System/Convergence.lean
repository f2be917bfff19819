import NetPixeld.System.Delivery
import NetPixeld.System.Ledger

/-!
# What is shown is what is stored

Where no other session is registered with the uuid of a client, its session is told of every total
that a tick stores for the uuid. So when nothing is on its way, the client has applied exactly the
totals that were stored since it knew the uuid, and after at least one of them it shows those of its
account.
-/

namespace NetPixeld

namespace Notice

/-- Notices with one message are about the same totals. -/
theorem totals_of_message {notice other : Notice} (h : notice.message = other.message) :
    notice.totals = other.totals := by
  have htype := congrArg Protocol.Message.type h
  cases notice with
  | assign =>
    cases other with
    | assign | result => rfl
    | update =>
      exact absurd htype (by decide : Protocol.msgAssignClientId ≠ Protocol.msgResourceUpdate)
  | result =>
    cases other with
    | assign | result => rfl
    | update =>
      exact absurd htype (by decide : Protocol.msgLoginResult ≠ Protocol.msgResourceUpdate)
  | update sequence uuid pool =>
    cases other with
    | assign =>
      exact absurd htype (by decide : Protocol.msgResourceUpdate ≠ Protocol.msgAssignClientId)
    | result =>
      exact absurd htype (by decide : Protocol.msgResourceUpdate ≠ Protocol.msgLoginResult)
    | update sequence' uuid' pool' =>
      obtain ⟨huuid, hwood, hfood, hiron⟩ := update_fields sequence uuid pool
      obtain ⟨huuid', hwood', hfood', hiron'⟩ := update_fields sequence' uuid' pool'
      rw [h] at huuid hwood hfood hiron
      have hsame := Json.str.inj (Except.ok.inj (huuid.symm.trans huuid'))
      have hnumber : ∀ {total total' : UInt64}, (Except.ok (.num total.toNat) : Except Exn Json) =
          .ok (.num total'.toNat) → total = total' := by
        intro total total' heq
        exact UInt64.toNat_inj.mp (Int.ofNat.inj (Json.num.inj (Except.ok.inj heq)))
      have hpool : pool = pool' := by
        rw [Resources.mk.injEq]
        exact ⟨hnumber (hwood.symm.trans hwood'), hnumber (hfood.symm.trans hfood'),
          hnumber (hiron.symm.trans hiron')⟩
      rw [hsame, hpool]
      rfl

theorem totals_of_messages {notices others : List Notice}
    (h : notices.map message = others.map message) :
    notices.filterMap totals = others.filterMap totals := by
  induction notices generalizing others with
  | nil =>
    cases List.map_eq_nil_iff.mp h.symm
    rfl
  | cons notice rest ih =>
    cases others with
    | nil => cases h
    | cons other others =>
      obtain ⟨hhead, htail⟩ := List.cons.inj h
      rw [List.filterMap_cons, List.filterMap_cons, totals_of_message hhead, ih htail]

theorem own_of_none {notice : Notice} (h : notice.totals = none) (uuid : Bytes) :
    own uuid [notice] = [] := by
  rw [own, List.filterMap_cons_none h]
  rfl

end Notice

namespace Server

/-! ## What a session is told -/

/-- No session but one is registered with a uuid. -/
def Sole (uuid : Bytes) (index : ℕ) (server : Server) : Prop :=
  ∀ clientId other session, Subscribed server clientId other session → session.uuid = uuid →
    other = index

/-- From one moment to another a session is told of the totals stored for a uuid, and of no others
for it. -/
def Tells (lib : JsonLib) (uuid : Bytes) (index : ℕ) (before after : Server) : Prop :=
  ∃ newer, after.stores = before.stores ++ newer ∧
    ∀ session notices, before.object index = some session →
      session.Announces lib before.stores notices →
      ∃ session' more, after.object index = some session' ∧
        session'.Announces lib after.stores (notices ++ more) ∧
        Notice.own uuid more = newer.filter fun entry ↦ entry.1 = uuid

section Tells

variable {lib : JsonLib} {uuid : Bytes} {index : ℕ}

theorem Tells.trans {first second third : Server} (h : Tells lib uuid index first second)
    (h' : Tells lib uuid index second third) : Tells lib uuid index first third := by
  obtain ⟨newer, hstores, htold⟩ := h
  obtain ⟨newer', hstores', htold'⟩ := h'
  refine ⟨newer ++ newer', by rw [hstores', hstores, List.append_assoc], ?_⟩
  intro session notices hobject hannounces
  obtain ⟨session', more, hobject', hannounces', hown⟩ := htold session notices hobject hannounces
  obtain ⟨session'', more', hobject'', hannounces'', hown'⟩ :=
    htold' session' _ hobject' hannounces'
  refine ⟨session'', more ++ more', hobject'', by rwa [← List.append_assoc], ?_⟩
  rw [Notice.own_append, hown, hown', List.filter_append]

/-- Nothing is sent, and nothing is stored. -/
theorem tells_of_sent {before after : Server}
    (hobjects : ∀ session, before.object index = some session →
      ∃ session', after.object index = some session' ∧ session'.sent = session.sent)
    (hstores : after.stores = before.stores) : Tells lib uuid index before after := by
  refine ⟨[], by rw [hstores, List.append_nil], fun session notices hobject hannounces ↦ ?_⟩
  obtain ⟨session', hobject', hsent⟩ := hobjects session hobject
  refine ⟨session', [], hobject', ?_, rfl⟩
  rw [List.append_nil, hstores]
  exact hannounces.of_sent hsent (.refl _)

/-- Neither the sessions nor what was stored changes. -/
theorem tells_of_eq {before after : Server} (hobjects : after.objects = before.objects)
    (hstores : after.stores = before.stores) : Tells lib uuid index before after := by
  refine tells_of_sent (fun session hobject ↦ ⟨session, ?_, rfl⟩) hstores
  rw [object, hobjects]
  exact hobject

theorem tells_update {server : Server} {other : ℕ} {change : Session → Session}
    (h : ∀ session, server.object other = some session → (change session).sent = session.sent) :
    Tells lib uuid index server (server.update other change) := by
  refine tells_of_sent (fun session hobject ↦ ?_) rfl
  rw [object_update]
  split
  · next heq =>
    subst heq
    exact ⟨change session, by rw [hobject]; rfl, h session hobject⟩
  · exact ⟨session, hobject, rfl⟩

/-- A notice that is about no totals is queued on some session. -/
theorem tells_post (server : Server) (other : ℕ) {packet : Packet} {notice : Notice}
    (hpacket : packet.Carries lib notice) (hsingle : notice.Single)
    (htotals : notice.totals = none) :
    Tells lib uuid index server (server.update other (·.post packet)) := by
  refine ⟨[], (List.append_nil _).symm, fun session notices hobject hannounces ↦ ?_⟩
  rw [object_update]
  split
  · next heq =>
    subst heq
    have hpost := hannounces.post hpacket hsingle
    rw [htotals, Option.toList_none, List.append_nil] at hpost
    exact ⟨session.post packet, [notice], by rw [hobject]; rfl, hpost,
      Notice.own_of_none htotals uuid⟩
  · exact ⟨session, [], hobject, by rwa [List.append_nil], rfl⟩

/-- Totals are stored and some session is told, the session where they are for the uuid. -/
theorem tells_record_post (server : Server) {other : ℕ} {packet : Packet} {sequence : UInt32}
    {holder : Bytes} {pool : Resources}
    (hpacket : packet.Carries lib (.update sequence holder pool))
    (hsole : holder = uuid → other = index) :
    Tells lib uuid index server
      ((server.record (.stored holder pool)).update other (·.post packet)) := by
  have hstores : ((server.record (.stored holder pool)).update other (·.post packet)).stores =
      server.stores ++ [(holder, pool)] := by
    rw [stores, update_log, record_log, List.filterMap_append]
    rfl
  refine ⟨[(holder, pool)], hstores, fun session notices hobject hannounces ↦ ?_⟩
  rw [object_update, record_object, hstores]
  split
  · next heq =>
    subst heq
    exact ⟨session.post packet, [.update sequence holder pool], by rw [hobject]; rfl,
      hannounces.post hpacket fun _ _ hresult ↦ (by cases hresult), rfl⟩
  · next hne =>
    refine ⟨session, [], hobject, ?_, ?_⟩
    · rw [List.append_nil]
      exact hannounces.of_sent rfl (List.sublist_append_left _ _)
    · have hother : holder ≠ uuid := fun heq ↦ hne (hsole heq)
      simp [Notice.own, hother]

/-! ## Steps -/

theorem Handled.tells {server : Server} {clientId : UInt8} {line : Bytes}
    {draw : UInt64 × UInt64} {io : SaveIO} {result : Server × Outcome Unit}
    (h : Handled lib server clientId line draw io result) :
    Tells lib uuid index server result.1 := by
  have hlogged : ∀ (db : JsonDB) other told, Tells lib uuid index server
      (({ server with db := db } : Server).update other (Session.setUUID told)) := by
    intro db other told
    have hdatabase : Tells lib uuid index server { server with db := db } := tells_of_eq rfl rfl
    exact hdatabase.trans (tells_update fun _ _ ↦ rfl)
  cases h with
  | ignored => exact tells_of_eq rfl rfl
  | refused | unregistered | null => exact tells_of_eq rfl rfl
  | unsent => exact hlogged _ _ _
  | @answered _ _ told _ _ _ _ _ hserialize =>
    have hsingle : (Notice.result 1 told).Single := by
      rintro _ _ ⟨⟩
      rfl
    have hpacket : Packet.Carries lib ⟨Protocol.loginResult told, _⟩ (.result 1 told) :=
      ⟨rfl, hserialize⟩
    exact (hlogged _ _ told).trans (tells_post _ _ hpacket hsingle rfl)

/-- A round of a tick that returns. -/
theorem Served.tells {server next : Server} {walk : List Bytes} {io : SaveIO} {clientId : UInt8}
    (h : Served lib server walk io clientId (next, .returned ()))
    (hsole : server.Sole uuid index) : Tells lib uuid index server next ∧ next.Sole uuid index := by
  cases h with
  | idle => exact ⟨tells_of_eq rfl rfl, hsole⟩
  | unsaved _ houtcome => exact absurd rfl houtcome.1
  | @updated other session pool serialized hsession hserialize =>
    have hcollected : Tells lib uuid index server
        (server.collected lib walk io clientId session.uuid pool) := tells_of_eq rfl rfl
    refine ⟨hcollected.trans (tells_record_post _ ⟨rfl, hserialize⟩
      (hsole clientId other session hsession)), fun id registered session' hsubscribed huuid ↦ ?_⟩
    have hobject := hsubscribed.object
    rw [object_update] at hobject
    split at hobject
    · obtain ⟨found, hfound, rfl⟩ := Option.map_eq_some_iff.mp hobject
      exact hsole id registered found ⟨hsubscribed.entry, hfound, hsubscribed.uuid⟩ huuid
    · exact hsole id registered session' ⟨hsubscribed.entry, hobject, hsubscribed.uuid⟩ huuid

theorem serveAll_tells (walk : List Bytes) (io : UInt8 → SaveIO) (order : List UInt8)
    {server : Server} (hsole : server.Sole uuid index) :
    (serveAll lib walk io order server).2 = .returned () →
      Tells lib uuid index server (serveAll lib walk io order server).1 := by
  refine serveAll_rule
    (fun _ next ↦ Tells lib uuid index server next ∧ next.Sole uuid index)
    (fun result ↦ result.2 = .returned () → Tells lib uuid index server result.1)
    (fun _ h _ ↦ h.1) ?_ ⟨tells_of_eq rfl rfl, hsole⟩
  intro clientId rest next result h hserved
  split
  · next hreturned =>
    have hresult : result = (result.1, .returned ()) := Prod.ext rfl hreturned
    rw [hresult] at hserved
    obtain ⟨htells, hnext⟩ := hserved.tells h.2
    exact ⟨h.1.trans htells, hnext⟩
  · next hfailed => exact fun hreturned ↦ absurd hreturned hfailed

/-- A tick finds no other session registered with the uuid. -/
def SoleTick (uuid : Bytes) (index : ℕ) (server : Server) (event : Event) : Prop :=
  ∀ order walk io, event = .tick order walk io → server.Sole uuid index

theorem step_tells {base server next : Server} {event : Event}
    (h : server.status = .running → Tells lib uuid index base server)
    (hsole : SoleTick uuid index server event) (hstep : server.step lib event = some next) :
    next.status = .running → Tells lib uuid index base next := by
  refine @step_invariant lib
    (fun server ↦ server.status = .running → Tells lib uuid index base server)
    (fun server event ↦ server.status = .running ∧ SoleTick uuid index server event)
    ?_ ?_ ?_ ?_ ?_ ?_ server next event h ⟨(step_stepped hstep).1, hsole⟩ hstep
  · exact fun _ _ hrunning h _ ↦ (h hrunning).trans (tells_of_eq rfl rfl)
  · intro server serialized h _ hrunning
    refine (h hrunning).trans (tells_of_sent (fun session hobject ↦ ⟨session, ?_, rfl⟩)
      (stores_of_log rfl rfl))
    rw [object_register, if_neg (Nat.ne_of_lt (lt_of_isSome (by rw [hobject]; rfl)))]
    exact hobject
  · intro server other before after h hobject hsame hrunning
    refine (h hrunning).trans (tells_update fun session hsession ↦ ?_)
    cases hobject.symm.trans hsession
    exact hsame.sent
  · exact fun h _ hrunning ↦ (h hrunning).trans (tells_of_eq rfl (stores_of_log rfl rfl))
  · intro server other draw io before after line result h hcondition hobject hline hhandled _
    have hread : Tells lib uuid index server (server.update other fun _ ↦ after) := by
      refine tells_update fun session hsession ↦ ?_
      cases hobject.symm.trans hsession
      exact (Session.takeLine_same hline).sent
    have hrecorded : Tells lib uuid index (server.update other fun _ ↦ after)
        ((server.update other fun _ ↦ after).record (.received other line)) :=
      tells_of_eq rfl (stores_of_log rfl rfl)
    exact (h hcondition.1).trans ((hread.trans hrecorded).trans hhandled.tells)
  · intro server order walk io h hcondition _ status hstatus hrunning
    have htold := serveAll_tells walk io order (hcondition.2 order walk io rfl) (hstatus hrunning)
    exact ((h hcondition.1).trans htold).trans (tells_of_eq rfl rfl)

end Tells

end Server

/-! ## What the account has -/

theorem totalsOf_eq (stores : List (Bytes × Resources)) (uuid : Bytes) :
    totalsOf stores uuid = (stores.filter fun entry ↦ entry.1 = uuid).map Prod.snd := by
  induction stores with
  | nil => rfl
  | cons entry rest ih =>
    unfold totalsOf at ih ⊢
    by_cases h : entry.1 = uuid
    · simp [h, ih]
    · simp [h, ih]

theorem totalsOf_append (stores newer : List (Bytes × Resources)) (uuid : Bytes) :
    totalsOf (stores ++ newer) uuid = totalsOf stores uuid ++ totalsOf newer uuid :=
  List.filterMap_append ..

/-- An account has the last of the totals stored for it. -/
theorem Booked.last {first : Accounts} {stores : List (Bytes × Resources)} {username : Bytes}
    {acc : Account} (h : Booked first stores username acc) (hne : totalsOf stores acc.uuid ≠ []) :
    (totalsOf stores acc.uuid).getLast? = some acc.resources := by
  obtain ⟨count, hcount⟩ := Nat.exists_eq_succ_of_ne_zero
    (fun hzero ↦ hne (List.length_eq_zero_iff.mp hzero) : (totalsOf stores acc.uuid).length ≠ 0)
  have hresources := congrArg Account.resources h.account
  rw [hcount] at hresources
  rw [h.totals, hcount, List.range_succ, List.map_append, List.map_singleton,
    List.getLast?_concat, hresources]

/-- The account of a uuid for which something was stored. -/
theorem Balanced.holds {first accounts : Accounts} {stores newer : List (Bytes × Resources)}
    (h : Balanced first accounts (stores ++ newer)) {uuid : Bytes}
    (hne : totalsOf newer uuid ≠ []) :
    ∃ username acc, accounts.find username = some acc ∧ acc.uuid = uuid ∧
      (totalsOf newer uuid).getLast? = some acc.resources := by
  have hall : totalsOf (stores ++ newer) uuid ≠ [] := by
    rw [totalsOf_append]
    exact List.append_ne_nil_of_right_ne_nil _ hne
  obtain ⟨username, acc, hfind, rfl⟩ := h.known uuid hall
  have hlast := (h.booked username acc hfind).last hall
  rw [totalsOf_append, List.getLast?_append_of_ne_nil _ hne] at hlast
  exact ⟨username, acc, hfind, rfl, hlast⟩

/-! ## Along the runs of the system -/

namespace System

variable {lib : JsonLib}

/-- The uuids that are drawn are not in use. -/
def FreshDraws : System → Event → Prop := OfServer Server.FreshDraw

/-- No tick finds another session registered with the uuid. -/
def SoleTicks (uuid : Bytes) (index : ℕ) : System → Event → Prop :=
  OfServer (Server.SoleTick uuid index)

theorem run_balanced {files : Files} {server : Server}
    (hstart : Server.start lib files = .ok server)
    (hdistinct : JsonDB.Distinct server.db.accounts) {events : List Event}
    (hdraws : Transition.Always (step lib) FreshDraws ⟨server, []⟩ events) {final : System}
    (hrun : Transition.run (step lib) ⟨server, []⟩ events = some final)
    (hrunning : final.server.status = .running) :
    Balanced server.db.accounts final.server.db.accounts final.server.stores := by
  have hkeeps : ∀ {system next : System} {event : Event},
      system.server.InBalance server.db.accounts [] → system.FreshDraws event →
      system.step lib event = some next → next.server.InBalance server.db.accounts [] :=
    step_server Server.step_inBalance (fun _ ↦ trivial) (fun _ _ _ ↦ trivial)
  have hinit : server.InBalance server.db.accounts [] := by
    obtain ⟨db, rfl⟩ := Server.fresh_of_start hstart
    exact fun _ ↦ ⟨[], rfl, Balanced.init hdistinct⟩
  obtain ⟨newer, hnewer, hbalanced⟩ :=
    Transition.invariant_run_of_always hkeeps hinit hdraws hrun hrunning
  rw [hnewer]
  exact hbalanced

theorem run_tells {uuid : Bytes} {index : ℕ} {middle final : System} {events : List Event}
    (hsole : Transition.Always (step lib) (SoleTicks uuid index) middle events)
    (hrun : Transition.run (step lib) middle events = some final)
    (hrunning : final.server.status = .running) :
    Server.Tells lib uuid index middle.server final.server := by
  have hkeeps : ∀ {system next : System} {event : Event},
      (system.server.status = .running → Server.Tells lib uuid index middle.server system.server) →
      system.SoleTicks uuid index event → system.step lib event = some next →
      next.server.status = .running → Server.Tells lib uuid index middle.server next.server :=
    step_server Server.step_tells (fun _ _ _ _ hevent ↦ by cases hevent)
      (fun _ _ _ _ _ _ hevent ↦ by cases hevent)
  exact Transition.invariant_run_of_always hkeeps (fun _ ↦ Server.tells_of_eq rfl rfl) hsole hrun
    hrunning

/-- A client whose session is the only one with its uuid has, when nothing is on its way, applied
the totals that were stored for the uuid since it knew it: all of them, once and in order. After at
least one of them it shows what its account has. -/
theorem shown_stored (hlib : lib.Lawful) {files : Files} {server : Server}
    (hstart : Server.start lib files = .ok server)
    (hdistinct : JsonDB.Distinct server.db.accounts) {before after : List Event}
    {middle final : System} (hbefore : Transition.run (step lib) ⟨server, []⟩ before = some middle)
    (hafter : Transition.run (step lib) middle after = some final)
    (hfresh : Transition.Always (step lib) CountersFresh ⟨server, []⟩ (before ++ after))
    (hdraws : Transition.Always (step lib) FreshDraws ⟨server, []⟩ (before ++ after))
    {place index : ℕ} {peer peer' : Peer} {session session' : Session}
    (hpeer : middle.peers[place]? = some peer) (huuid : peer.app.ctx.uuid ≠ [])
    (hsession : peer.session = some index) (hobject : middle.server.object index = some session)
    (hquiet : peer.Quiet session)
    (hsole : Transition.Always (step lib) (SoleTicks peer.app.ctx.uuid index) middle after)
    (hpeer' : final.peers[place]? = some peer')
    (hobject' : final.server.object index = some session') (hquiet' : peer'.Quiet session')
    (hbound : session'.updates.length < 2 ^ 32) (hrunning : final.server.status = .running) :
    ∃ newer, final.server.stores = middle.server.stores ++ newer ∧
      peer'.app.ctx.applied = peer.app.ctx.applied ++
        newer.filter (fun entry ↦ entry.1 = peer.app.ctx.uuid) ∧
      (totalsOf newer peer.app.ctx.uuid ≠ [] → ∃ username acc,
        final.server.db.accounts.find username = some acc ∧ acc.uuid = peer'.app.ctx.uuid ∧
          acc.resources = peer'.app.ctx.resources) := by
  have hrun := Transition.run_append_eq_some.mpr ⟨middle, hbefore, hafter⟩
  obtain ⟨earlier, later, hearlier, hannounces, hsame, happlied, hshown⟩ :=
    applied_between hlib hbefore hafter (counted_run hstart hfresh hrun) hpeer huuid hsession
      hobject hquiet hpeer' hobject' hquiet' hbound
  obtain ⟨newer, hstores, htold⟩ := run_tells hsole hafter hrunning
  -- what the session was told is what the client heard
  obtain ⟨found, more, hfound, hmore, hown⟩ := htold session earlier hobject hearlier
  cases hobject'.symm.trans hfound
  have hmessages := (Packet.messages_of_carries hannounces.packets).symm.trans
    (Packet.messages_of_carries hmore.packets)
  rw [List.map_append, List.map_append, List.append_cancel_left_eq] at hmessages
  have hlater : Notice.own peer.app.ctx.uuid later =
      newer.filter fun entry ↦ entry.1 = peer.app.ctx.uuid := by
    rw [← hown, Notice.own, Notice.own, Notice.totals_of_messages hmessages]
  refine ⟨newer, hstores, by rw [happlied, hlater], fun hne ↦ ?_⟩
  have hbalanced := run_balanced hstart hdistinct hdraws hrun hrunning
  rw [hstores] at hbalanced
  obtain ⟨username, acc, hfind, hacc, hlast⟩ := hbalanced.holds hne
  refine ⟨username, acc, hfind, hacc.trans hsame.symm, ?_⟩
  rw [hshown, hlater, ← List.getLast?_map, ← totalsOf_eq, hlast]
  rfl

/-- One login, and one tick behind it. -/
theorem shown_stored_tick :
    let connect : List Event := [.launch true, .accept 0,
      .client 0 (.frame { username := text "ana" }),
      .client 0 (.frame { username := text "ana", pass := text "pw" }),
      .client 0 (.frame { username := text "ana", pass := text "pw", clicked := true }),
      .upload 0 200]
    let login : Event := .server (.readDone 0 (1, 2) {})
    let replies : List Event := [.server (.strand 0), .server (.strand 0), .server (.writeDone 0),
      .server (.writeDone 0), .download 0 500, .client 0 .takeLine, .client 0 .takeLine,
      .client 0 (.frame {})]
    let tick : Event := .server (.tick [1] [text "ana"] fun _ ↦ {})
    let deliver : List Event := [.server (.strand 0), .server (.writeDone 0), .download 0 500,
      .client 0 .takeLine, .client 0 (.frame {})]
    ∃ middle final peer peer', Server.start JsonLib.reference {} = .ok {} ∧
      Transition.run (step JsonLib.reference) ⟨{}, []⟩ (connect ++ login :: replies) =
        some middle ∧
      Transition.run (step JsonLib.reference) middle (tick :: deliver) = some final ∧
      middle.peers[0]? = some peer ∧ final.peers[0]? = some peer' ∧
      peer.app.ctx.resources = ⟨0, 0, 0⟩ ∧ final.server.status = .running ∧
      ∃ newer, final.server.stores = middle.server.stores ++ newer ∧
        peer'.app.ctx.applied = peer.app.ctx.applied ++
          newer.filter (fun entry ↦ entry.1 = peer.app.ctx.uuid) ∧
        ∃ username acc, final.server.db.accounts.find username = some acc ∧
          acc.uuid = peer'.app.ctx.uuid ∧ acc.resources = peer'.app.ctx.resources := by
  intro connect login replies tick deliver
  have hconnect : (Transition.run (step JsonLib.reference) ⟨{}, []⟩ connect).map (fun connected ↦
      connected.server.db.accounts.items) = some [] := by
    decide +kernel
  have hbefore : (Transition.run (step JsonLib.reference) ⟨{}, []⟩
      (connect ++ login :: replies)).bind (fun middle ↦
        middle.peers[0]?.bind fun peer ↦ (middle.server.object 0).map fun session ↦
          (peer.session, decide (peer.Quiet session), peer.app.ctx.uuid, peer.app.ctx.resources,
            middle.server.lastSeqByType.items.isEmpty)) =
      some (some 0, true, JsonDB.generateUuid (1, 2), ⟨0, 0, 0⟩, true) := by
    decide +kernel
  have hone : (Transition.run (step JsonLib.reference) ⟨{}, []⟩
      (connect ++ login :: replies)).map
        (fun middle ↦ (middle.server.objects.length, middle.server.stores)) = some (1, []) := by
    decide +kernel
  have hfinal : (Transition.run (step JsonLib.reference) ⟨{}, []⟩
      ((connect ++ login :: replies) ++ tick :: deliver)).bind
      (fun final ↦ final.peers[0]?.bind fun peer ↦ (final.server.object 0).map fun session ↦
        (decide (peer.Quiet session), session.updates.length)) = some (true, 1) := by
    decide +kernel
  have hend : (Transition.run (step JsonLib.reference) ⟨{}, []⟩
      ((connect ++ login :: replies) ++ tick :: deliver)).map
        (fun final ↦ (final.server.status, final.server.stores)) =
      some (.running, [(JsonDB.generateUuid (1, 2), ⟨10, 10, 10⟩)]) := by
    decide +kernel
  obtain ⟨middle, hmiddle, hpeers⟩ := Option.bind_eq_some_iff.mp hbefore
  obtain ⟨peer, hpeer, hobjects⟩ := Option.bind_eq_some_iff.mp hpeers
  obtain ⟨session, hobject, hshown⟩ := Option.map_eq_some_iff.mp hobjects
  simp only [Prod.mk.injEq, decide_eq_true_eq, List.isEmpty_iff] at hshown
  obtain ⟨hsession, hquiet, huuid, hresources, hcounters⟩ := hshown
  rw [hmiddle] at hone
  obtain ⟨hlength, hstores⟩ := Prod.mk.inj (Option.some.inj hone)
  obtain ⟨final, hrun, hpeers'⟩ := Option.bind_eq_some_iff.mp hfinal
  obtain ⟨peer', hpeer', hobjects'⟩ := Option.bind_eq_some_iff.mp hpeers'
  obtain ⟨session', hobject', hshown'⟩ := Option.map_eq_some_iff.mp hobjects'
  simp only [Prod.mk.injEq, decide_eq_true_eq] at hshown'
  obtain ⟨hquiet', hcount⟩ := hshown'
  rw [hrun] at hend
  obtain ⟨hrunning, hstores'⟩ := Prod.mk.inj (Option.some.inj hend)
  obtain ⟨middle', hmiddle', hafter⟩ := Transition.run_append_eq_some.mp hrun
  cases hmiddle.symm.trans hmiddle'
  have hfresh : Transition.Always (step JsonLib.reference) CountersFresh ⟨{}, []⟩
      ((connect ++ login :: replies) ++ tick :: deliver) := by
    refine Transition.always_append (Transition.always_of_forall ?_ _)
      fun reached hreached ↦ ⟨?_, fun next _ ↦ Transition.always_of_forall ?_ _⟩
    · simp [connect, login, replies, CountersFresh, OfServer, Server.CountersFresh]
    · cases hmiddle.symm.trans hreached
      intro order walk io clientId index session _ _ _
      have hnone : middle.server.lastSeqByType.find clientId = none := by
        rw [SortedMap.find, hcounters]
        rfl
      rw [Server.counter, Server.counters, hnone]
      rfl
    · simp [deliver, CountersFresh, OfServer, Server.CountersFresh]
  have hdraws : Transition.Always (step JsonLib.reference) FreshDraws ⟨{}, []⟩
      ((connect ++ login :: replies) ++ tick :: deliver) := by
    rw [List.append_assoc]
    refine Transition.always_append (Transition.always_of_forall ?_ _)
      fun connected hconnected ↦ ⟨?_, fun next _ ↦ Transition.always_of_forall ?_ _⟩
    · simp [connect, FreshDraws, OfServer]
    · rintro ⟨username, acc, hfind, _⟩
      have hnone : connected.server.db.accounts.items = [] := by
        rw [hconnected] at hconnect
        exact Option.some.inj hconnect
      rw [SortedMap.find, hnone] at hfind
      cases hfind
    · simp [replies, tick, deliver, FreshDraws, OfServer, Server.FreshDraw]
  have hsole : Transition.Always (step JsonLib.reference) (SoleTicks peer.app.ctx.uuid 0) middle
      (tick :: deliver) := by
    refine ⟨fun _ _ _ _ clientId other session hsubscribed _ ↦ ?_,
      fun next _ ↦ Transition.always_of_forall ?_ _⟩
    · have hlt := (List.getElem?_eq_some_iff.mp hsubscribed.object).1
      omega
    · simp [deliver, SoleTicks, OfServer, Server.SoleTick]
  have hstart : Server.start JsonLib.reference {} = .ok {} := rfl
  have hdistinct : JsonDB.Distinct ({} : Server).db.accounts := fun _ _ _ _ h ↦ by cases h
  have hknown : peer.app.ctx.uuid ≠ [] := by
    rw [huuid]
    decide
  obtain ⟨newer, hnewer, happlied, hshown⟩ := shown_stored JsonLib.reference_lawful hstart hdistinct
    hmiddle hafter hfresh hdraws hpeer hknown hsession hobject hquiet hsole hpeer' hobject' hquiet'
    (by rw [hcount]; decide) hrunning
  refine ⟨middle, final, peer, peer', hstart, hmiddle, hafter, hpeer, hpeer', hresources, hrunning,
    newer, hnewer, happlied, hshown ?_⟩
  rw [hstores, hstores', List.nil_append] at hnewer
  rw [← hnewer, huuid]
  exact List.cons_ne_nil _ _

end System

end NetPixeld
