import NetPixeld.Server.Registry

/-!
# What arrives on a connection

Every session reads its own stream of bytes. Whatever else the event loop does in between, the bytes
that arrived on a connection are the lines read from it, each with its newline, and the buffer.
-/

namespace NetPixeld

/-- Only arriving bytes and completed reads change the buffer. -/
theorem Session.incoming_eq {session next : Session}
    (h : session.runPosted = some next ∨ session.finishWrite = some next ∨
      session.failRead = some next ∨ session.failWrite = some next) :
    next.incoming = session.incoming := by
  rcases h with h | h | h | h
  · unfold runPosted at h
    split at h <;> cases h
    rfl
  · unfold finishWrite at h
    split at h <;> cases h
    rfl
  · unfold failRead at h
    split at h <;> cases h
    rfl
  · unfold failWrite at h
    split at h <;> cases h
    rfl

/-- The line that was read on a connection. -/
def Action.lineOf (index : ℕ) : Action → Option Bytes
  | .received other line => if other = index then some line else none
  | .accepted _ _ | .disconnected _ _ | .stored _ _ => none

namespace Server

/-- The bytes that an event brings to a connection. -/
def Event.arriving (index : ℕ) : Event → Bytes
  | .receive other bytes => if other = index then bytes else []
  | _ => []

/-- The lines read on a connection, in that order. -/
def linesOf (server : Server) (index : ℕ) : List Bytes :=
  server.log.filterMap (Action.lineOf index)

/-- The bytes in the buffer of a session. -/
def buffered (server : Server) (index : ℕ) : Bytes :=
  ((server.object index).map Session.incoming).getD []

/-- Lines are read on a connection, on which bytes arrive. -/
def Reads (index : ℕ) (bytes : Bytes) (before after : Server) : Prop :=
  ∃ lines, after.linesOf index = before.linesOf index ++ lines ∧
    (∀ line ∈ lines, newline ∉ line) ∧
    lines.flatMap (fun line ↦ line ++ [newline]) ++ after.buffered index =
      before.buffered index ++ bytes

theorem Reads.trans {index : ℕ} {bytes more : Bytes} {first second third : Server}
    (h : Reads index bytes first second) (h' : Reads index more second third) :
    Reads index (bytes ++ more) first third := by
  obtain ⟨lines, hlines, hfree, hbytes⟩ := h
  obtain ⟨lines', hlines', hfree', hbytes'⟩ := h'
  refine ⟨lines ++ lines', ?_, ?_, ?_⟩
  · rw [hlines', hlines, List.append_assoc]
  · exact List.forall_mem_append.mpr ⟨hfree, hfree'⟩
  · calc
      _ = lines.flatMap (fun line ↦ line ++ [newline]) ++
            (lines'.flatMap (fun line ↦ line ++ [newline]) ++ third.buffered index) := by
        rw [List.flatMap_append, List.append_assoc]
      _ = lines.flatMap (fun line ↦ line ++ [newline]) ++ second.buffered index ++ more := by
        rw [hbytes', List.append_assoc]
      _ = first.buffered index ++ (bytes ++ more) := by
        rw [hbytes, List.append_assoc]

/-! ## What leaves the streams alone -/

/-- Nothing was read, and the buffers are the same. -/
structure Unread (before after : Server) : Prop where
  lines : ∀ index, after.linesOf index = before.linesOf index
  buffers : ∀ index, after.buffered index = before.buffered index

namespace Unread

theorem refl (server : Server) : Unread server server := ⟨fun _ ↦ rfl, fun _ ↦ rfl⟩

theorem trans {first second third : Server} (h : Unread first second) (h' : Unread second third) :
    Unread first third :=
  ⟨fun index ↦ (h'.lines index).trans (h.lines index),
    fun index ↦ (h'.buffers index).trans (h.buffers index)⟩

/-- Only the objects and the log matter. -/
theorem of_eq {before after : Server} (hobjects : after.objects = before.objects)
    (hlog : after.log = before.log) : Unread before after := by
  constructor
  · intro index
    rw [linesOf, linesOf, hlog]
  · intro index
    rw [buffered, buffered, object, object, hobjects]

/-- Something else than a line is recorded. -/
theorem record (server : Server) {action : Action} (h : ∀ index, action.lineOf index = none) :
    Unread server (server.record action) := by
  refine ⟨fun index ↦ ?_, fun _ ↦ rfl⟩
  have hnone : [action].filterMap (Action.lineOf index) = [] := List.filterMap_cons_none (h index)
  rw [linesOf, record_log, List.filterMap_append, hnone, List.append_nil, linesOf]

/-- A session object changes outside of its buffer. -/
theorem update (server : Server) {index : ℕ} {change : Session → Session}
    (h : ∀ session, server.object index = some session →
      (change session).incoming = session.incoming) :
    Unread server (server.update index change) := by
  refine ⟨fun _ ↦ rfl, fun other ↦ ?_⟩
  rw [buffered, buffered, object_update]
  split
  · next heq =>
    subst heq
    cases hobject : server.object index with
    | none => rfl
    | some session => exact h session hobject
  · rfl

end Unread

theorem Handled.unread {lib : JsonLib} {server : Server} {clientId : UInt8} {line : Bytes}
    {draw : UInt64 × UInt64} {io : SaveIO} {result : Server × Outcome Unit}
    (h : Handled lib server clientId line draw io result) : Unread server result.1 := by
  have hlogged : ∀ (db : JsonDB) index uuid, Unread server
      (({ server with db := db } : Server).update index (Session.setUUID uuid)) := by
    intro db index uuid
    have hdatabase : Unread server { server with db := db } := .of_eq rfl rfl
    exact hdatabase.trans (.update _ fun _ _ ↦ rfl)
  cases h with
  | ignored => exact .refl server
  | refused | unregistered | null => exact .of_eq rfl rfl
  | unsent => exact hlogged _ _ _
  | answered => exact (hlogged _ _ _).trans (.update _ fun _ _ ↦ rfl)

theorem Served.unread {lib : JsonLib} {server : Server} {walk : List Bytes} {io : SaveIO}
    {clientId : UInt8} {result : Server × Outcome Unit}
    (h : Served lib server walk io clientId result) : Unread server result.1 := by
  have hcollected : ∀ uuid pool, Unread server (server.collected lib walk io clientId uuid pool) :=
    fun _ _ ↦ .of_eq rfl rfl
  cases h with
  | idle | broken | unknown => exact .refl server
  | unsaved => exact hcollected _ _
  | unsent => exact (hcollected _ _).trans (.record _ fun _ ↦ rfl)
  | updated =>
    exact ((hcollected _ _).trans (.record _ fun _ ↦ rfl)).trans (.update _ fun _ _ ↦ rfl)

theorem serveAll_unread (lib : JsonLib) (walk : List Bytes) (io : UInt8 → SaveIO)
    (order : List UInt8) (server : Server) :
    Unread server (serveAll lib walk io order server).1 := by
  refine serveAll_rule (fun _ next ↦ Unread server next) (fun result ↦ Unread server result.1)
    (fun _ h ↦ h) ?_ (.refl server)
  intro clientId rest next result h hserved
  have hresult := h.trans hserved.unread
  split
  · exact hresult
  · exact hresult

/-! ## One step -/

theorem Unread.reads {before after : Server} (h : Unread before after) (index : ℕ) :
    Reads index [] before after := by
  refine ⟨[], ?_, nofun, ?_⟩
  · rw [h.lines, List.append_nil]
  · rw [h.buffers, List.append_nil]
    rfl

/-- A new connection has an empty buffer. -/
theorem buffered_register (server : Server) (serialized : Bytes) (index : ℕ) :
    (server.register serialized).buffered index = server.buffered index := by
  rw [buffered, buffered, object_register]
  split
  · next heq =>
    subst heq
    have hnone : server.object server.objects.length = none := List.getElem?_eq_none (le_refl _)
    rw [hnone]
    rfl
  · rfl

/-- A line moves from the buffer to the lines. -/
theorem reads_takeLine {server : Server} {index : ℕ} {session after : Session} {line : Bytes}
    (hobject : server.object index = some session)
    (hline : session.takeLine = some (line, after)) (other : ℕ) :
    Reads other [] server
      ((server.update index fun _ ↦ after).record (.received index line)) := by
  obtain ⟨_, rest, hcut, rfl⟩ := Session.takeLine_eq_some hline
  obtain ⟨hincoming, hfree⟩ := Lines.cut_eq_some hcut
  refine ⟨if index = other then [line] else [], ?_, ?_, ?_⟩
  · rw [linesOf, record_log, List.filterMap_append, update_log, linesOf]
    by_cases heq : index = other <;> simp [Action.lineOf, heq]
  · split
    · exact List.forall_mem_singleton.mpr hfree
    · exact nofun
  · rw [buffered, buffered, record_object, object_update]
    split
    · next heq =>
      subst heq
      simp [hobject, hincoming]
    · rw [List.append_nil]
      rfl

/-- Bytes arrive in the buffer. -/
theorem reads_receive {server : Server} {index : ℕ} {session after : Session} {bytes : Bytes}
    (hobject : server.object index = some session) (hnext : session.receive bytes = some after)
    (other : ℕ) :
    Reads other ((Event.receive index bytes).arriving other) server
      (server.update index fun _ ↦ after) := by
  unfold Session.receive at hnext
  split at hnext
  swap
  · cases hnext
  cases hnext
  refine ⟨[], (List.append_nil _).symm, nofun, ?_⟩
  rw [buffered, buffered, object_update, Event.arriving]
  split
  · next heq =>
    subst heq
    simp [hobject]
  · rw [List.append_nil]
    rfl

/-- Each step brings to a connection what arrives on it. -/
theorem step_reads {lib : JsonLib} {server next : Server} {event : Event}
    (hstep : server.step lib event = some next) (index : ℕ) :
    Reads index (event.arriving index) server next := by
  have hquiet : ∀ {other before after}, server.object other = some before →
      after.incoming = before.incoming → Unread server (server.update other fun _ ↦ after) := by
    intro other before after hobject hsame
    refine .update _ fun session hsession ↦ ?_
    cases hobject.symm.trans hsession
    exact hsame
  have hended : ∀ {other before after}, server.object other = some before →
      after.incoming = before.incoming → Unread server
        ((server.update other fun _ ↦ after).onClientDisconnect other before.clientId) := by
    intro other before after hobject hsame
    exact ((hquiet hobject hsame).trans (.record _ fun _ ↦ rfl)).trans (.of_eq rfl rfl)
  cases (step_stepped hstep).2 with
  | @accept serialized _ =>
    refine Unread.reads ⟨fun other ↦ ?_, fun other ↦ ?_⟩ index
    · rw [linesOf, register, List.filterMap_append]
      exact List.append_nil _
    · exact buffered_register server serialized other
  | acceptFailed => exact (Unread.refl server).reads index
  | receive hobject hnext => exact reads_receive hobject hnext index
  | strand hobject hnext =>
    exact (hquiet hobject (Session.incoming_eq (.inl hnext))).reads index
  | writeDone hobject hnext =>
    exact (hquiet hobject (Session.incoming_eq (.inr (.inl hnext)))).reads index
  | readFailed hobject hnext =>
    exact (hended hobject (Session.incoming_eq (.inr (.inr (.inl hnext))))).reads index
  | writeFailed hobject hnext =>
    exact (hended hobject (Session.incoming_eq (.inr (.inr (.inr hnext))))).reads index
  | readDone hobject hline hhandled =>
    exact (reads_takeLine hobject hline index).trans (hhandled.unread.reads index)
  | @tick order walk io _ status _ hresult =>
    subst hresult
    have hunread := serveAll_unread lib walk io order server
    exact Unread.reads ⟨hunread.lines, hunread.buffers⟩ index
  | timerCanceled => exact Unread.reads ⟨fun _ ↦ rfl, fun _ ↦ rfl⟩ index

/-! ## Every run -/

theorem run_reads {lib : JsonLib} {server final : Server} {events : List Event}
    (hrun : Transition.run (step lib) server events = some final) (index : ℕ) :
    Reads index (events.flatMap (Event.arriving index)) server final := by
  induction events generalizing server with
  | nil =>
    cases hrun
    exact (Unread.refl final).reads index
  | cons event rest ih =>
    obtain ⟨next, hnext, hrest⟩ := Transition.run_cons_eq_some.mp hrun
    rw [List.flatMap_cons]
    exact (step_reads hnext index).trans (ih hrest)

/-- Along every run, the bytes that arrived on a connection are the lines that were read from it,
each with its newline, and what is still in its buffer. None of the lines has a newline in it, so
they are the lines of the stream. -/
theorem inbox_run {lib : JsonLib} {files : Files} {first final : Server}
    (hstart : start lib files = .ok first) {events : List Event}
    (hrun : Transition.run (step lib) first events = some final) {index : ℕ} {session : Session}
    (hobject : final.object index = some session) :
    events.flatMap (Event.arriving index) =
        (final.linesOf index).flatMap (fun line ↦ line ++ [newline]) ++ session.incoming ∧
      ∀ line ∈ final.linesOf index, newline ∉ line := by
  obtain ⟨lines, hlines, hfree, hbytes⟩ := run_reads hrun index
  obtain ⟨db, rfl⟩ := fresh_of_start hstart
  have hbuffered : final.buffered index = session.incoming := by
    rw [buffered, hobject]
    rfl
  have hnone : final.linesOf index = lines := hlines
  rw [hnone]
  refine ⟨?_, hfree⟩
  rw [← hbuffered, hbytes]
  rfl

/-- Two connections whose bytes arrive in turn. -/
theorem inbox_run_two :
    ∃ final session, Transition.run (step JsonLib.reference) {}
        [.accept, .accept, .receive 0 (text "\x7b\x7d\r"), .receive 1 (text "x\n"),
          .receive 0 (text "\n[]"), .readDone 1 (1, 2) {}, .readDone 0 (1, 2) {}] = some final ∧
      final.object 0 = some session ∧ final.linesOf 0 = [text "\x7b\x7d\r"] ∧
      text "\x7b\x7d\r\n[]" =
        (final.linesOf 0).flatMap (fun line ↦ line ++ [newline]) ++ session.incoming := by
  let events : List Event := [.accept, .accept, .receive 0 (text "\x7b\x7d\r"),
    .receive 1 (text "x\n"), .receive 0 (text "\n[]"), .readDone 1 (1, 2) {},
    .readDone 0 (1, 2) {}]
  have hend : (Transition.run (step JsonLib.reference) {} events).map
      (fun final ↦ ((final.object 0).isSome, final.linesOf 0)) =
      some (true, [text "\x7b\x7d\r"]) := by decide +kernel
  obtain ⟨final, hrun, hfinal⟩ := Option.map_eq_some_iff.mp hend
  obtain ⟨hsome, hlines⟩ := Prod.mk.inj hfinal
  obtain ⟨session, hobject⟩ := Option.isSome_iff_exists.mp hsome
  have hstart : start JsonLib.reference {} = .ok {} := rfl
  have hstream : events.flatMap (Event.arriving 0) = text "\x7b\x7d\r\n[]" := by decide +kernel
  exact ⟨final, session, hrun, hobject, hlines,
    hstream ▸ (inbox_run hstart hrun hobject).1⟩

end Server

end NetPixeld
