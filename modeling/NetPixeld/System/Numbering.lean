import NetPixeld.Client.Frames
import NetPixeld.Server.Registry

/-!
# The numbers of the updates

The server counts the updates of a client id and the client counts those of its connection. The
counter of an id outlives its session, so the two agree exactly as long as no tick serves a
logged-in session for the first time while the counter of its id is not zero.
-/

namespace NetPixeld

/-- A message is a resource update. -/
def Protocol.Message.isUpdate (msg : Protocol.Message) : Bool :=
  msg.type = Protocol.msgResourceUpdate

/-- The updates queued on a session, in that order. -/
def Session.updates (session : Session) : List Protocol.Message :=
  (session.sent.map Packet.message).filter Protocol.Message.isUpdate

/-- The updates of a list carry the numbers from one on. -/
def Numbered (updates : List Protocol.Message) : Prop :=
  ∀ place msg, updates[place]? = some msg → msg.sequence = UInt32.ofNat (place + 1)

/-! ## What the filter does with numbered updates -/

theorem numbered_nil : Numbered [] := fun _ _ h ↦ by cases h

theorem Numbered.append {updates : List Protocol.Message} (h : Numbered updates)
    {msg : Protocol.Message} (hmsg : msg.sequence = UInt32.ofNat (updates.length + 1)) :
    Numbered (updates ++ [msg]) := by
  intro place other hother
  rw [List.getElem?_append] at hother
  split at hother
  · exact h place other hother
  · next hge =>
    obtain ⟨hplace, hvalue⟩ := List.getElem?_eq_some_iff.mp hother
    have hplace' : place = updates.length := by
      simp only [List.length_singleton] at hplace
      omega
    subst hplace'
    rw [← hvalue]
    simpa using hmsg

/-- Updates numbered on from the last one that passed all pass, whatever other messages lie between
them. -/
theorem passed_of_numbered {received : List Protocol.Message}
    {lastSeqByType : SortedMap Bytes UInt32} (count : ℕ)
    (hcount : lastSeq lastSeqByType Protocol.msgResourceUpdate = UInt32.ofNat count)
    (hbound : count + (received.filter Protocol.Message.isUpdate).length < 2 ^ 32)
    (hnumbered : ∀ place msg, (received.filter Protocol.Message.isUpdate)[place]? = some msg →
      msg.sequence = UInt32.ofNat (count + place + 1)) :
    (Application.passed lastSeqByType received).filter Protocol.Message.isUpdate =
      received.filter Protocol.Message.isUpdate := by
  induction received generalizing lastSeqByType count with
  | nil => rfl
  | cons msg received ih =>
    cases hupdate : msg.isUpdate with
    | false =>
      have htype : msg.type ≠ Protocol.msgResourceUpdate := of_decide_eq_false hupdate
      rw [List.filter_cons_of_neg (by simp [hupdate])] at hbound hnumbered ⊢
      have hcount' : lastSeq (Application.filterSequence lastSeqByType msg).1
          Protocol.msgResourceUpdate = UInt32.ofNat count := by
        rcases Application.filterSequence_spec lastSeqByType msg with
          ⟨_, _, _, hfiltered⟩ | ⟨_, _, hfiltered⟩
        · rw [hfiltered, lastSeq_insert, if_neg htype, hcount]
        · rw [hfiltered, lastSeq_insert, if_neg htype, hcount]
      rw [← ih count hcount' hbound hnumbered, Application.passed]
      split
      · rw [List.filter_cons_of_neg (by simp [hupdate])]
      · rfl
    | true =>
      have htype : msg.type = Protocol.msgResourceUpdate := of_decide_eq_true hupdate
      rw [List.filter_cons_of_pos hupdate] at hbound hnumbered ⊢
      rw [List.length_cons] at hbound
      have hsequence : msg.sequence = UInt32.ofNat (count + 1) := hnumbered 0 msg rfl
      have hnext : UInt32.ofNat (count + 1) = UInt32.ofNat count + 1 := UInt32.ofNat_add count 1
      have hlt : UInt32.ofNat count < UInt32.ofNat (count + 1) := by
        rw [UInt32.lt_iff_toNat_lt, UInt32.toNat_ofNat', UInt32.toNat_ofNat']
        omega
      rcases Application.filterSequence_spec lastSeqByType msg with
        ⟨hpasses, _, _, hfiltered⟩ | ⟨_, hdropped, _⟩
      · have hcount' : lastSeq (Application.filterSequence lastSeqByType msg).1
            Protocol.msgResourceUpdate = UInt32.ofNat (count + 1) := by
          rw [hfiltered, lastSeq_insert, if_pos htype, hsequence]
        have hrest : (Application.passed (Application.filterSequence lastSeqByType msg).1
            received).filter Protocol.Message.isUpdate =
              received.filter Protocol.Message.isUpdate := by
          refine ih (count + 1) hcount' (by omega) fun place other hother ↦ ?_
          rw [hnumbered (place + 1) other hother]
          exact congrArg UInt32.ofNat (by omega)
        rw [Application.passed, if_pos hpasses, List.filter_cons_of_pos hupdate, hrest]
      · rw [htype, hcount, hsequence, ← hnext] at hdropped
        rcases hdropped with hle | hne
        · exact absurd hlt (UInt32.not_lt.mpr hle)
        · exact absurd rfl hne

/-! ## The counters of the server -/

namespace Server

/-- The updates of every session are numbered from one on, and a client that receives any beginning
of what is queued on the session loses none of them to its filter. -/
def UpdatesNumbered (server : Server) : Prop :=
  ∀ index session, server.object index = some session → Numbered session.updates ∧
    ∀ received, received <+: session.sent.map Packet.message →
      (received.filter Protocol.Message.isUpdate).length < 2 ^ 32 →
      (Application.passed ∅ received).filter Protocol.Message.isUpdate =
        received.filter Protocol.Message.isUpdate

/-- A tick finds the counter of an id at zero when the session registered under it is logged in and
has not had an update. -/
def CountersFresh (server : Server) (event : Event) : Prop :=
  ∀ order walk io clientId index session, event = .tick order walk io →
    Subscribed server clientId index session → session.updates = [] → server.counter clientId = 0

/-- The updates of every session are numbered, and the counter of an id is the number of updates of
the session registered under it, unless that is none. A tick that ends the server can leave a
counter ahead. -/
structure Counted (server : Server) : Prop where
  numbered : ∀ index session, server.object index = some session → Numbered session.updates
  counter : server.status = .running → ∀ clientId index session,
    server.sessions.find clientId = some (some index) → server.object index = some session →
    session.updates = [] ∨ server.counter clientId = UInt32.ofNat session.updates.length

/-- Counting is kept when every session keeps its updates and no entry is new. -/
theorem Counted.of_objects {server next : Server} (h : Counted server)
    (hobjects : ∀ index session', next.object index = some session' →
      ∃ session, server.object index = some session ∧ session'.updates = session.updates)
    (hsessions : ∀ clientId index, next.sessions.find clientId = some (some index) →
      server.sessions.find clientId = some (some index))
    (hcounter : ∀ clientId, next.counter clientId = server.counter clientId)
    (hstatus : next.status = .running → server.status = .running) : Counted next := by
  refine ⟨fun index session' hobject ↦ ?_,
    fun hrunning clientId index session' hfind hobject ↦ ?_⟩
  · obtain ⟨session, hsession, hupdates⟩ := hobjects index session' hobject
    rw [hupdates]
    exact h.numbered index session hsession
  · obtain ⟨session, hsession, hupdates⟩ := hobjects index session' hobject
    rw [hupdates, hcounter]
    exact h.counter (hstatus hrunning) clientId index session (hsessions clientId index hfind)
      hsession

theorem updates_of_same {before after : Session} (h : Session.Same before after) :
    after.updates = before.updates := by
  rw [Session.updates, Session.updates, h.sent]

theorem updates_post (session : Session) (packet : Packet) :
    (session.post packet).updates =
      if packet.message.isUpdate = true then session.updates ++ [packet.message]
      else session.updates := by
  simp only [Session.updates, Session.sent_post, List.map_append, List.filter_append,
    List.map_singleton]
  cases hupdate : packet.message.isUpdate <;> simp [hupdate]

/-- Changing a session without its updates. -/
theorem Counted.update {server : Server} (h : Counted server) {index : ℕ}
    {change : Session → Session}
    (hchange : ∀ session, server.object index = some session →
      (change session).updates = session.updates) :
    Counted (server.update index change) := by
  refine h.of_objects (fun other session' hobject ↦ ?_) (fun _ _ hfind ↦ hfind) (fun _ ↦ rfl) id
  rw [object_update] at hobject
  split at hobject
  · next heq =>
    subst heq
    obtain ⟨session, hsession, rfl⟩ := Option.map_eq_some_iff.mp hobject
    exact ⟨session, hsession, hchange session hsession⟩
  · exact ⟨session', hobject, rfl⟩

theorem Counted.quiet {server : Server} (h : Counted server) {index : ℕ}
    {before after : Session} (hobject : server.object index = some before)
    (hsame : Session.Same before after) : Counted (server.update index fun _ ↦ after) := by
  refine h.update fun session hsession ↦ ?_
  cases hobject.symm.trans hsession
  exact updates_of_same hsame

theorem Counted.database {server : Server} (h : Counted server) (db : JsonDB) :
    Counted { server with db := db } :=
  h.of_objects (fun _ session hobject ↦ ⟨session, hobject, rfl⟩) (fun _ _ hfind ↦ hfind)
    (fun _ ↦ rfl) id

/-- A new session has no updates. -/
theorem Counted.register {server : Server} (h : Counted server) (serialized : Bytes) :
    Counted (server.register serialized) := by
  refine ⟨fun index session hobject ↦ ?_,
    fun hrunning clientId index session hfind hobject ↦ ?_⟩
  · rw [object_register] at hobject
    split at hobject
    · cases hobject
      exact numbered_nil
    · exact h.numbered index session hobject
  · rw [object_register] at hobject
    split at hobject
    · cases hobject
      exact Or.inl rfl
    · next hne =>
      rw [find_register] at hfind
      split at hfind
      · cases hfind
        exact absurd rfl hne
      · exact h.counter hrunning clientId index session hfind hobject

theorem Counted.disconnect {server : Server} (h : Counted server) (index : ℕ)
    (clientId : UInt8) : Counted (server.onClientDisconnect index clientId) := by
  refine h.of_objects (fun _ session hobject ↦ ⟨session, hobject, rfl⟩) (fun other entry hfind ↦ ?_)
    (fun _ ↦ rfl) id
  rw [onClientDisconnect, SortedMap.find_erase] at hfind
  split at hfind
  · cases hfind
  · exact hfind

theorem Counted.handled {lib : JsonLib} {server : Server} (h : Counted server)
    {clientId : UInt8} {line : Bytes} {draw : UInt64 × UInt64} {io : SaveIO}
    {result : Server × Outcome Unit}
    (hhandled : Handled lib server clientId line draw io result) : Counted result.1 := by
  have hlogged : ∀ db index uuid, Counted
      (({ server with db := db } : Server).update index (Session.setUUID uuid)) :=
    fun db index uuid ↦ (h.database db).update fun _ _ ↦ rfl
  cases hhandled with
  | ignored => exact h
  | refused => exact h.database _
  | null => exact h.database _
  | unregistered =>
    refine h.of_objects (fun _ session hobject ↦ ⟨session, hobject, rfl⟩)
      (fun other index hfind ↦ ?_) (fun _ ↦ rfl) id
    rw [SortedMap.find_insert] at hfind
    split at hfind
    · cases hfind
    · exact hfind
  | unsent => exact hlogged _ _ _
  | @answered _ _ uuid =>
    have hother : (Protocol.loginResult uuid).isUpdate = false :=
      decide_eq_false (by decide : Protocol.msgLoginResult ≠ Protocol.msgResourceUpdate)
    refine (hlogged _ _ uuid).update fun session _ ↦ ?_
    rw [updates_post]
    simp [hother]

/-! ## A tick -/

/-- While a tick runs: the ids still to be served are distinct, and those that have had no update
have their counter at zero. -/
structure Ticking (server next : Server) (rest : List UInt8) : Prop where
  counted : Counted next
  running : next.status = .running
  same : SameRegistry server next
  nodup : rest.Nodup
  fresh : ∀ clientId ∈ rest, ∀ index session, Subscribed next clientId index session →
    session.updates = [] → next.counter clientId = 0

/-- The number of the next update of the session that is served. -/
theorem Ticking.next_number {server next : Server} {clientId : UInt8} {rest : List UInt8}
    (h : Ticking server next (clientId :: rest)) {index : ℕ} {session : Session}
    (hsession : Subscribed next clientId index session) :
    next.counter clientId = UInt32.ofNat session.updates.length := by
  rcases h.counted.counter h.running clientId index session hsession.entry hsession.object with
    hempty | hcounter
  · rw [h.fresh clientId (List.mem_cons_self ..) index session hsession hempty, hempty]
    rfl
  · exact hcounter

theorem Ticking.next_sequence {server next : Server} {clientId : UInt8} {rest : List UInt8}
    (h : Ticking server next (clientId :: rest)) {index : ℕ} {session : Session}
    (hsession : Subscribed next clientId index session) (pool : Resources) :
    (next.nextUpdate clientId session.uuid pool).sequence =
      UInt32.ofNat (session.updates.length + 1) := by
  rw [UInt32.ofNat_add, ← h.next_number hsession]
  rfl

theorem updates_post_nextUpdate (next : Server) (clientId : UInt8) (session : Session)
    (pool : Resources) (serialized : Bytes) :
    (session.post ⟨next.nextUpdate clientId session.uuid pool, serialized⟩).updates =
      session.updates ++ [next.nextUpdate clientId session.uuid pool] := by
  rw [updates_post]
  exact if_pos rfl

/-- Different ids stand for different sessions. -/
theorem Ticking.entry_ne {server next : Server} (hindexed : server.Indexed) {rest : List UInt8}
    (h : Ticking server next rest) {clientId other : UInt8} {index entry : ℕ}
    (hfind : next.sessions.find clientId = some (some index))
    (hfind' : next.sessions.find other = some (some entry)) (hne : clientId ≠ other) :
    index ≠ entry := by
  rintro rfl
  have hid := (hindexed.latest _ _ ((h.same.entries _ _).mp hfind)).1
  have hid' := (hindexed.latest _ _ ((h.same.entries _ _).mp hfind')).1
  exact hne (Option.some.inj (hid.symm.trans hid'))

/-- The session that is served gets its next update. -/
theorem Ticking.updated {server next : Server} (hindexed : server.Indexed) {clientId : UInt8}
    {rest : List UInt8} (h : Ticking server next (clientId :: rest)) {lib : JsonLib}
    {walk : List Bytes} {io : SaveIO} {index : ℕ} {session : Session} {pool : Resources}
    {serialized : Bytes} (hsession : Subscribed next clientId index session)
    (hsame : SameRegistry server
      (((next.collected lib walk io clientId session.uuid pool).record
        (.stored session.uuid pool)).update index
          (·.post ⟨next.nextUpdate clientId session.uuid pool, serialized⟩))) :
    Ticking server (((next.collected lib walk io clientId session.uuid pool).record
      (.stored session.uuid pool)).update index
        (·.post ⟨next.nextUpdate clientId session.uuid pool, serialized⟩)) rest := by
  set final := ((next.collected lib walk io clientId session.uuid pool).record
    (.stored session.uuid pool)).update index
      (·.post ⟨next.nextUpdate clientId session.uuid pool, serialized⟩) with hfinal
  have hobject : ∀ other, final.object other =
      if index = other then (next.object other).map
        (·.post ⟨next.nextUpdate clientId session.uuid pool, serialized⟩)
      else next.object other := fun other ↦ object_update _ _ _ _
  have hcounter : ∀ other, final.counter other =
      if clientId = other then next.counter other + 1 else next.counter other :=
    fun other ↦ counter_advanceCounter next clientId other
  have hupdates := updates_post_nextUpdate next clientId session pool serialized
  refine ⟨⟨fun other session' hobject' ↦ ?_, fun _ other entry session' hfind hobject' ↦ ?_⟩,
    h.running, hsame, h.nodup.of_cons, fun other hother entry session' hsession' hempty ↦ ?_⟩
  · rw [hobject] at hobject'
    split at hobject'
    · next heq =>
      subst heq
      rw [hsession.object] at hobject'
      cases hobject'
      rw [hupdates]
      exact (h.counted.numbered index session hsession.object).append
        (h.next_sequence hsession pool)
    · exact h.counted.numbered other session' hobject'
  · rw [hobject] at hobject'
    rw [hcounter]
    by_cases hid : clientId = other
    · subst hid
      cases hsession.entry.symm.trans hfind
      rw [if_pos rfl, hsession.object] at hobject'
      cases hobject'
      rw [if_pos rfl, h.next_number hsession, hupdates, List.length_append,
        List.length_singleton, UInt32.ofNat_add]
      exact Or.inr rfl
    · rw [if_neg (h.entry_ne hindexed hsession.entry hfind hid)] at hobject'
      rw [if_neg hid]
      exact h.counted.counter h.running other entry session' hfind hobject'
  · have hne : clientId ≠ other := by
      rintro rfl
      exact (List.nodup_cons.mp h.nodup).1 hother
    have hobject' := hsession'.object
    rw [hobject, if_neg (h.entry_ne hindexed hsession.entry hsession'.entry hne)] at hobject'
    rw [hcounter, if_neg hne]
    exact h.fresh other (List.mem_cons_of_mem _ hother) entry session'
      ⟨hsession'.entry, hobject', hsession'.uuid⟩ hempty

/-- A whole tick. -/
theorem counted_serveAll {lib : JsonLib} {walk : List Bytes} {io : UInt8 → SaveIO}
    {order : List UInt8} {server : Server} (hindexed : server.Indexed)
    (h : Ticking server server order) (status : Status)
    (hstatus : status = .running → (serveAll lib walk io order server).2 = .returned ()) :
    Counted { (serveAll lib walk io order server).1 with status := status } := by
  have hended : ∀ {next : Server}, Counted next → next.status = .running →
      Counted { next with status := status } := fun h hrunning ↦
    h.of_objects (fun _ session hobject ↦ ⟨session, hobject, rfl⟩) (fun _ _ hfind ↦ hfind)
      (fun _ ↦ rfl) fun _ ↦ hrunning
  refine serveAll_rule (fun rest next ↦ Ticking server next rest)
    (fun result ↦ (status = .running → result.2 = .returned ()) →
      Counted { result.1 with status := status })
    (fun next h _ ↦ hended h.counted h.running) ?_ h hstatus
  intro clientId rest next result h hserved
  have hsame := h.same.trans hserved.sameRegistry
  have hfailed : result.2 ≠ .returned () →
      (∀ index, result.1.object index = next.object index) →
      (status = .running → result.2 = .returned ()) →
      Counted { result.1 with status := status } := by
    intro houtcome hobjects hreturned
    refine ⟨fun index session hobject ↦ ?_, fun hrunning ↦ absurd (hreturned hrunning) houtcome⟩
    exact h.counted.numbered index session ((hobjects index).symm.trans hobject)
  cases hserved with
  | idle =>
    rw [if_pos rfl]
    exact ⟨h.counted, h.running, h.same, h.nodup.of_cons,
      fun other hother ↦ h.fresh other (List.mem_cons_of_mem _ hother)⟩
  | broken | unknown | unsent =>
    rw [if_neg (by simp)]
    exact hfailed (by simp) fun _ ↦ rfl
  | unsaved _ houtcome =>
    rw [if_neg houtcome.1]
    exact hfailed houtcome.1 fun _ ↦ rfl
  | updated hsession =>
    rw [if_pos rfl]
    exact h.updated hindexed hsession hsame

/-! ## Runs -/

theorem step_counted {lib : JsonLib} {server next : Server} {event : Event}
    (h : server.Indexed ∧ Counted server) (hfresh : server.CountersFresh event)
    (hstep : server.step lib event = some next) : next.Indexed ∧ Counted next := by
  obtain ⟨hindexed, hcounted⟩ := h
  have hrunning := (step_stepped hstep).1
  have hrecord : ∀ {server : Server} (action : Action), Counted server →
      Counted (server.record action) := fun action h ↦
    h.of_objects (fun _ session hobject ↦ ⟨session, hobject, rfl⟩) (fun _ _ hfind ↦ hfind)
      (fun _ ↦ rfl) id
  refine ⟨step_indexed hindexed hstep, step_invariant
    (fun server event ↦ server.CountersFresh event ∧ server.Indexed ∧ server.status = .running)
    ?_ ?_ ?_ ?_ ?_ ?_ hcounted ⟨hfresh, hindexed, hrunning⟩ hstep⟩
  · intro server status armed hrunning h
    exact h.of_objects (fun _ session hobject ↦ ⟨session, hobject, rfl⟩) (fun _ _ hfind ↦ hfind)
      (fun _ ↦ rfl) fun _ ↦ hrunning
  · exact fun h _ ↦ h.register _
  · exact fun h hobject hsame ↦ h.quiet hobject hsame
  · exact fun h _ ↦ h.disconnect _ _
  · intro server index draw io before after line result h _ hobject hline hhandled
    exact (hrecord _ (h.quiet hobject (Session.takeLine_same hline))).handled hhandled
  · intro server order walk io h hcondition horder status hstatus
    obtain ⟨hfresh, hindexed, hrunning⟩ := hcondition
    exact counted_serveAll hindexed ⟨h, hrunning, .refl server,
      horder.nodup_iff.mpr server.sessions.sorted.nodup,
      fun clientId _ index session hsession hempty ↦
        hfresh order walk io clientId index session rfl hsession hempty⟩ status hstatus

/-- As long as every session is served for the first time with the counter of its id at zero, the
updates queued on it are numbered from one on and none is lost to the filter of its client. -/
theorem updatesNumbered_of_countersFresh {lib : JsonLib} {files : Files} {server : Server}
    (hstart : start lib files = .ok server) {events : List Event}
    (hfresh : Transition.Always (step lib) CountersFresh server events) {visited : Server}
    (hvisited : Transition.Visited (step lib) server events visited) :
    visited.UpdatesNumbered := by
  obtain ⟨before, after, rfl, hrun⟩ := hvisited
  have hinit : server.Indexed ∧ Counted server := by
    refine ⟨(fresh_of_start hstart).indexed, ?_⟩
    obtain ⟨db, rfl⟩ := fresh_of_start hstart
    exact ⟨fun index session hobject ↦ (by cases hobject),
      fun _ clientId index session hfind ↦ (by cases hfind)⟩
  have hcounted := (Transition.invariant_run_of_always step_counted hinit
    (Transition.always_of_append hfresh) hrun).2
  intro index session hobject
  have hnumbered := hcounted.numbered index session hobject
  refine ⟨hnumbered, fun received hreceived hbound ↦ ?_⟩
  obtain ⟨rest, hrest⟩ := hreceived.filter Protocol.Message.isUpdate
  refine passed_of_numbered 0 rfl (by omega) fun place msg hmsg ↦ ?_
  have hplace := (List.getElem?_eq_some_iff.mp hmsg).1
  rw [hnumbered place msg]
  · exact congrArg UInt32.ofNat (by omega)
  · rw [Session.updates, ← hrest, List.getElem?_append_left hplace, hmsg]

/-- An account that is logged in once and served once. -/
theorem updatesNumbered_of_countersFresh_first :
    ∃ server visited, start JsonLib.reference {} = .ok server ∧
      Transition.Visited (step JsonLib.reference) server
        [.accept, .receive 0 (((Protocol.loginRequest (text "ana") (text "pass")).serialize
          JsonLib.reference).toOption.getD []), .readDone 0 (1, 2) {},
          .tick [1] [text "ana"] fun _ ↦ {}] visited ∧
      ((visited.object 0).map fun session ↦ session.updates.map Protocol.Message.sequence) =
        some [1] ∧
      visited.UpdatesNumbered := by
  let login : Bytes := ((Protocol.loginRequest (text "ana") (text "pass")).serialize
    JsonLib.reference).toOption.getD []
  have hrun : (Transition.run (step JsonLib.reference) { db := {} }
      [.accept, .receive 0 login, .readDone 0 (1, 2) {}, .tick [1] [text "ana"] fun _ ↦ {}]).map
      (fun final ↦ (final.object 0).map fun session ↦
        session.updates.map Protocol.Message.sequence) = some (some [1]) := by
    decide +kernel
  have hbefore : (Transition.run (step JsonLib.reference) { db := {} }
      [.accept, .receive 0 login, .readDone 0 (1, 2) {}]).map lastSeqByType = some ∅ := by
    decide +kernel
  obtain ⟨final, hfinal, hserved⟩ := Option.map_eq_some_iff.mp hrun
  have hquiet : ∀ {server : Server} {event : Event},
      (∀ order walk io, event ≠ .tick order walk io) → server.CountersFresh event :=
    fun h order walk io _ _ _ hevent ↦ absurd hevent (h order walk io)
  have hfresh : Transition.Always (step JsonLib.reference) CountersFresh { db := {} }
      [.accept, .receive 0 login, .readDone 0 (1, 2) {}, .tick [1] [text "ana"] fun _ ↦ {}] := by
    refine ⟨hquiet nofun, fun first hfirst ↦ ⟨hquiet nofun, fun second hsecond ↦
      ⟨hquiet nofun, fun third hthird ↦ ⟨?_, fun _ _ ↦ trivial⟩⟩⟩⟩
    rw [Transition.run_cons_eq_some.mpr ⟨first, hfirst, Transition.run_cons_eq_some.mpr
      ⟨second, hsecond, Transition.run_cons_eq_some.mpr ⟨third, hthird, rfl⟩⟩⟩] at hbefore
    intro order walk io clientId index session _ _ _
    rw [counter, counters, Option.some.inj hbefore]
    rfl
  have hvisited := Transition.visited_final hfinal
  have hstart : start JsonLib.reference {} = .ok { db := {} } := rfl
  exact ⟨{ db := {} }, final, hstart, hvisited, hserved,
    updatesNumbered_of_countersFresh hstart hfresh hvisited⟩

/-- The id of a session that was served once and disconnected comes around after 255 further
connections: the first update of the new session is number two. -/
theorem not_updatesNumbered_after_reuse :
    ∃ server final, start JsonLib.reference {} = .ok server ∧
      Transition.run (step JsonLib.reference) server
        ([.accept, .receive 0 (((Protocol.loginRequest (text "ana") (text "pass")).serialize
            JsonLib.reference).toOption.getD []), .readDone 0 (1, 2) {},
            .tick [1] [text "ana"] (fun _ ↦ {}), .readFailed 0] ++
          (List.range 255).flatMap (fun earlier ↦ [.accept, .readFailed (earlier + 1)]) ++
          [.accept, .receive 256 (((Protocol.loginRequest (text "ana") (text "pass")).serialize
            JsonLib.reference).toOption.getD []), .readDone 256 (1, 2) {},
            .tick [1] [text "ana"] (fun _ ↦ {})]) = some final ∧
      ¬final.UpdatesNumbered := by
  have hrun : (Transition.run (step JsonLib.reference) { db := {} }
      ([.accept, .receive 0 (((Protocol.loginRequest (text "ana") (text "pass")).serialize
          JsonLib.reference).toOption.getD []), .readDone 0 (1, 2) {},
          .tick [1] [text "ana"] (fun _ ↦ {}), .readFailed 0] ++
        (List.range 255).flatMap (fun earlier ↦ [.accept, .readFailed (earlier + 1)]) ++
        [.accept, .receive 256 (((Protocol.loginRequest (text "ana") (text "pass")).serialize
          JsonLib.reference).toOption.getD []), .readDone 256 (1, 2) {},
          .tick [1] [text "ana"] (fun _ ↦ {})])).map
      (fun final ↦ (final.object 256).map fun session ↦
        session.updates.map Protocol.Message.sequence) = some (some [2]) := by
    decide +kernel
  obtain ⟨final, hfinal, hserved⟩ := Option.map_eq_some_iff.mp hrun
  obtain ⟨session, hobject, hsequences⟩ := Option.map_eq_some_iff.mp hserved
  refine ⟨{ db := {} }, final, rfl, hfinal, fun hnumbered ↦ ?_⟩
  obtain ⟨msg, hmsg, hsequence⟩ := List.map_eq_singleton_iff.mp hsequences
  have hone := (hnumbered 256 session hobject).1 0 msg (by rw [hmsg]; rfl)
  rw [hsequence] at hone
  exact absurd hone (by decide)

end Server

end NetPixeld
