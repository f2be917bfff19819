import NetPixeld.Json.Reference
import NetPixeld.Server.Effects

/-!
# The session registry

`m_sessions` is keyed by an 8-bit id that is handed out again after 256 accepts, and a session can
report its end twice, once from each of its chains. Every entry points to the latest session with
its id, and that session has not reported its end. The converse, that every live session keeps its
entry, holds exactly as long as no id is handed out or erased while a live session has it.
-/

namespace NetPixeld.Server

/-! ## Sessions and their ids -/

/-- The id of a session object. -/
def idOf (server : Server) (index : ℕ) : Option UInt8 :=
  (server.object index).map Session.clientId

/-- From `onAccept` until the first call of `m_onDisconnect`. -/
def Live (server : Server) (index : ℕ) : Prop :=
  (server.object index).isSome = true ∧
    ∀ clientId, Action.disconnected index clientId ∉ server.log

/-- Live sessions have distinct ids and are the entries under them. -/
structure Registry (server : Server) : Prop where
  distinct : ∀ index other clientId, server.Live index → server.Live other →
    server.idOf index = some clientId → server.idOf other = some clientId → index = other
  entry : ∀ index clientId, server.Live index → server.idOf index = some clientId →
    server.sessions.find clientId = some (some index)

/-- An accept replaces no entry of a live session, and a disconnect callback erases no entry of
another session. -/
def EntrySafe (server : Server) : Event → Prop
  | .accept => ∀ index, server.sessions.find server.nextClientId = some (some index) →
      ¬server.Live index
  | .readFailed index | .writeFailed index => ∀ clientId other,
      server.idOf index = some clientId → server.sessions.find clientId = some (some other) →
      other = index
  | _ => True

/-- No live session has the id that an accept hands out, and no session reports its end again while
another live session has its id. -/
def IdFree (server : Server) : Event → Prop
  | .accept => ∀ index, server.Live index → server.idOf index ≠ some server.nextClientId
  | .readFailed index | .writeFailed index => ¬server.Live index → ∀ clientId other,
      server.idOf index = some clientId → server.Live other → server.idOf other ≠ some clientId
  | _ => True

/-! ## Steps that leave the registry alone -/

/-- Nothing is accepted or disconnected: ids, entries and the accepts and disconnects so far stay.
Only a null pointer can appear. -/
structure SameRegistry (before after : Server) : Prop where
  ids : ∀ index, after.idOf index = before.idOf index
  entries : ∀ clientId index, after.sessions.find clientId = some (some index) ↔
    before.sessions.find clientId = some (some index)
  nextClientId : after.nextClientId = before.nextClientId
  log : ∃ extra, after.log = before.log ++ extra ∧ ∀ action ∈ extra, action.registers = false

theorem SameRegistry.refl (server : Server) : SameRegistry server server :=
  ⟨fun _ ↦ rfl, fun _ _ ↦ Iff.rfl, rfl, [], (List.append_nil _).symm, by simp⟩

theorem SameRegistry.trans {first second third : Server} (h : SameRegistry first second)
    (h' : SameRegistry second third) : SameRegistry first third := by
  obtain ⟨extra, hlog, hextra⟩ := h.log
  obtain ⟨extra', hlog', hextra'⟩ := h'.log
  refine ⟨fun index ↦ (h'.ids index).trans (h.ids index),
    fun clientId index ↦ (h'.entries clientId index).trans (h.entries clientId index),
    h'.nextClientId.trans h.nextClientId, extra ++ extra', ?_, ?_⟩
  · rw [hlog', hlog, List.append_assoc]
  · intro action haction
    rcases List.mem_append.mp haction with haction | haction
    · exact hextra action haction
    · exact hextra' action haction

/-- Changing the store, the counters, the timer or the status. -/
theorem sameRegistry_of_eq {before after : Server} (hobjects : after.objects = before.objects)
    (hsessions : after.sessions = before.sessions)
    (hnext : after.nextClientId = before.nextClientId) (hlog : after.log = before.log) :
    SameRegistry before after := by
  refine ⟨fun index ↦ ?_, fun clientId index ↦ by rw [hsessions], hnext, [], ?_, by simp⟩
  · rw [idOf, idOf, object, object, hobjects]
  · rw [hlog, List.append_nil]

theorem sameRegistry_update {server : Server} {index : ℕ} {change : Session → Session}
    (h : ∀ session, server.object index = some session →
      (change session).clientId = session.clientId) :
    SameRegistry server (server.update index change) := by
  refine ⟨fun other ↦ ?_, fun _ _ ↦ Iff.rfl, rfl, [], (List.append_nil _).symm, by simp⟩
  rw [idOf, idOf, object_update]
  split
  · next heq =>
    subst heq
    cases hobject : server.object index with
    | none => rfl
    | some session => exact congrArg some (h session hobject)
  · rfl

theorem sameRegistry_record {server : Server} {action : Action} (h : action.registers = false) :
    SameRegistry server (server.record action) :=
  ⟨fun _ ↦ rfl, fun _ _ ↦ Iff.rfl, rfl, [action], rfl, fun other hother ↦ by
    rw [List.mem_singleton.mp hother, h]⟩

/-- Inserting a null pointer under a free id. -/
theorem sameRegistry_insert_null {server : Server} {clientId : UInt8}
    (h : server.sessions.find clientId = none) (db : JsonDB) :
    SameRegistry server
      { server with db := db, sessions := server.sessions.insert clientId none } := by
  refine ⟨fun _ ↦ rfl, fun other index ↦ ?_, rfl, [], (List.append_nil _).symm, by simp⟩
  by_cases hother : clientId = other
  · subst hother
    simp [h]
  · simp [SortedMap.find_insert_of_ne _ hother]

theorem Handled.sameRegistry {lib : JsonLib} {server : Server} {clientId : UInt8} {line : Bytes}
    {draw : UInt64 × UInt64} {io : SaveIO} {result : Server × Outcome Unit}
    (h : Handled lib server clientId line draw io result) : SameRegistry server result.1 := by
  cases h with
  | ignored => exact .refl server
  | refused => exact sameRegistry_of_eq rfl rfl rfl rfl
  | unregistered _ _ hfind => exact sameRegistry_insert_null hfind _
  | null => exact sameRegistry_of_eq rfl rfl rfl rfl
  | unsent =>
    refine .trans (sameRegistry_of_eq ?_ ?_ ?_ ?_) (sameRegistry_update ?_)
    iterate 4 rfl
    exact fun _ _ ↦ rfl
  | answered =>
    refine .trans (.trans (sameRegistry_of_eq ?_ ?_ ?_ ?_) (sameRegistry_update ?_))
      (sameRegistry_update ?_)
    iterate 4 rfl
    · exact fun _ _ ↦ rfl
    · exact fun _ _ ↦ rfl

theorem Served.sameRegistry {lib : JsonLib} {server : Server} {walk : List Bytes} {io : SaveIO}
    {clientId : UInt8} {result : Server × Outcome Unit}
    (h : Served lib server walk io clientId result) : SameRegistry server result.1 := by
  have hcollected : ∀ uuid pool,
      SameRegistry server (server.collected lib walk io clientId uuid pool) :=
    fun _ _ ↦ sameRegistry_of_eq rfl rfl rfl rfl
  cases h with
  | idle | broken | unknown => exact .refl server
  | unsaved => exact hcollected _ _
  | unsent => exact (hcollected _ _).trans (sameRegistry_record rfl)
  | updated =>
    exact ((hcollected _ _).trans (sameRegistry_record rfl)).trans
      (sameRegistry_update fun _ _ ↦ rfl)

theorem serveAll_sameRegistry (lib : JsonLib) (walk : List Bytes) (io : UInt8 → SaveIO)
    (order : List UInt8) (server : Server) :
    SameRegistry server (serveAll lib walk io order server).1 := by
  refine serveAll_rule (fun _ next ↦ SameRegistry server next)
    (fun result ↦ SameRegistry server result.1) (fun _ h ↦ h) ?_ (.refl server)
  intro clientId rest next result h hserved
  have hresult := h.trans hserved.sameRegistry
  split
  · exact hresult
  · exact hresult

/-- A disconnect callback is raised by an event. -/
def Disconnects (event : Event) (index : ℕ) : Prop :=
  event = .readFailed index ∨ event = .writeFailed index

/-- A step accepts, disconnects, or leaves the registry alone. -/
theorem Stepped.registry {lib : JsonLib} {server next : Server} {event : Event}
    (h : Stepped lib server event next) :
    (∃ serialized, event = .accept ∧ next = server.register serialized) ∨
      (∃ index before after, Disconnects event index ∧ server.object index = some before ∧
        Session.Same before after ∧
        next = (server.update index fun _ ↦ after).onClientDisconnect index before.clientId) ∨
      (event ≠ .accept ∧ (∀ index, ¬Disconnects event index) ∧ SameRegistry server next) := by
  have hquiet : ∀ {index before after}, server.object index = some before →
      Session.Same before after → SameRegistry server (server.update index fun _ ↦ after) := by
    intro index before after hobject hsame
    refine sameRegistry_update fun session hsession ↦ ?_
    cases hobject.symm.trans hsession
    exact hsame.clientId
  cases h with
  | accept => exact Or.inl ⟨_, rfl, rfl⟩
  | readFailed hobject hnext =>
    exact Or.inr (Or.inl ⟨_, _, _, Or.inl rfl, hobject, Session.failRead_same hnext, rfl⟩)
  | writeFailed hobject hnext =>
    exact Or.inr (Or.inl ⟨_, _, _, Or.inr rfl, hobject, Session.failWrite_same hnext, rfl⟩)
  | acceptFailed =>
    exact Or.inr (Or.inr ⟨by simp, by simp [Disconnects], .refl server⟩)
  | receive hobject hnext =>
    exact Or.inr (Or.inr ⟨by simp, by simp [Disconnects],
      hquiet hobject (Session.receive_same hnext)⟩)
  | strand hobject hnext =>
    exact Or.inr (Or.inr ⟨by simp, by simp [Disconnects],
      hquiet hobject (Session.runPosted_same hnext)⟩)
  | writeDone hobject hnext =>
    exact Or.inr (Or.inr ⟨by simp, by simp [Disconnects],
      hquiet hobject (Session.finishWrite_same hnext)⟩)
  | readDone hobject hline hhandled =>
    have hread := (hquiet hobject (Session.takeLine_same hline)).trans
      ((sameRegistry_record rfl).trans hhandled.sameRegistry)
    exact Or.inr (Or.inr ⟨by simp, by simp [Disconnects],
      hread.trans (sameRegistry_of_eq rfl rfl rfl rfl)⟩)
  | tick horder hresult =>
    subst hresult
    exact Or.inr (Or.inr ⟨by simp, by simp [Disconnects],
      (serveAll_sameRegistry ..).trans (sameRegistry_of_eq rfl rfl rfl rfl)⟩)
  | timerCanceled =>
    exact Or.inr (Or.inr ⟨by simp, by simp [Disconnects], sameRegistry_of_eq rfl rfl rfl rfl⟩)

/-! ## Entries point to the latest session -/

/-- What holds of the entries in every run. -/
structure Indexed (server : Server) : Prop where
  /-- An entry is the latest session with its id. -/
  latest : ∀ clientId index, server.sessions.find clientId = some (some index) →
    server.idOf index = some clientId ∧
      ∀ other, server.idOf other = some clientId → other ≤ index
  /-- An entry has not reported its end. -/
  live : ∀ clientId index, server.sessions.find clientId = some (some index) →
    server.Live index
  /-- Only existing sessions have reported their end. -/
  logged : ∀ index clientId, Action.disconnected index clientId ∈ server.log →
    (server.object index).isSome = true

theorem idOf_eq_some {server : Server} {index : ℕ} {session : Session}
    (h : server.object index = some session) : server.idOf index = some session.clientId := by
  rw [idOf, h]
  rfl

theorem isSome_idOf (server : Server) (index : ℕ) :
    (server.idOf index).isSome = (server.object index).isSome :=
  Option.isSome_map

theorem object_register (server : Server) (serialized : Bytes) (index : ℕ) :
    (server.register serialized).object index =
      if index = server.objects.length then
        some { clientId := server.nextClientId
               reading := true
               posted := [⟨Protocol.assignClientId server.nextClientId, serialized⟩] }
      else server.object index := by
  simp only [object, register, List.getElem?_append]
  split
  · next hlt => rw [if_neg (Nat.ne_of_lt hlt)]
  · next hge =>
    split
    · next heq => simp [heq]
    · next hne =>
      rw [List.getElem?_eq_none (by simp; omega), List.getElem?_eq_none (by omega)]

theorem idOf_register (server : Server) (serialized : Bytes) (index : ℕ) :
    (server.register serialized).idOf index =
      if index = server.objects.length then some server.nextClientId else server.idOf index := by
  rw [idOf, object_register]
  split <;> rfl

theorem lt_of_isSome {server : Server} {index : ℕ} (h : (server.object index).isSome = true) :
    index < server.objects.length := by
  obtain ⟨session, hsession⟩ := Option.isSome_iff_exists.mp h
  exact (List.getElem?_eq_some_iff.mp hsession).1

theorem lt_of_idOf {server : Server} {index : ℕ} {clientId : UInt8}
    (h : server.idOf index = some clientId) : index < server.objects.length := by
  apply lt_of_isSome
  rw [← isSome_idOf, h]
  rfl

theorem find_register (server : Server) (serialized : Bytes) (clientId : UInt8) :
    (server.register serialized).sessions.find clientId =
      if server.nextClientId = clientId then some (some server.objects.length)
      else server.sessions.find clientId :=
  SortedMap.find_insert ..

theorem disconnected_mem_register {server : Server} {serialized : Bytes} {index : ℕ}
    {clientId : UInt8} :
    Action.disconnected index clientId ∈ (server.register serialized).log ↔
      Action.disconnected index clientId ∈ server.log := by
  simp [register]

theorem disconnected_mem_same {before after : Server} (h : SameRegistry before after) {index : ℕ}
    {clientId : UInt8} :
    Action.disconnected index clientId ∈ after.log ↔
      Action.disconnected index clientId ∈ before.log := by
  obtain ⟨extra, hlog, hextra⟩ := h.log
  rw [hlog, List.mem_append]
  constructor
  · rintro (hmem | hmem)
    · exact hmem
    · exact absurd (hextra _ hmem) (by simp [Action.registers])
  · exact Or.inl

theorem live_same {before after : Server} (h : SameRegistry before after) (index : ℕ) :
    after.Live index ↔ before.Live index := by
  rw [Live, Live, ← isSome_idOf, ← isSome_idOf, h.ids]
  simp only [disconnected_mem_same h]

/-- The sessions live after an accept. -/
theorem live_register {server : Server} (hindexed : server.Indexed) (serialized : Bytes)
    (index : ℕ) :
    (server.register serialized).Live index ↔
      index = server.objects.length ∨ server.Live index := by
  rw [Live, Live, object_register]
  simp only [disconnected_mem_register]
  split
  · next heq =>
    subst heq
    refine ⟨fun _ ↦ Or.inl rfl, fun _ ↦ ⟨rfl, fun clientId hmem ↦ ?_⟩⟩
    exact absurd (lt_of_isSome (hindexed.logged _ _ hmem)) (Nat.lt_irrefl _)
  · next hne => simp [hne]

section Disconnect

variable {server : Server} {index : ℕ} {before after : Session}

theorem idOf_disconnect (hobject : server.object index = some before)
    (hsame : Session.Same before after) (other : ℕ) :
    ((server.update index fun _ ↦ after).onClientDisconnect index before.clientId).idOf other =
      server.idOf other := by
  change (server.update index fun _ ↦ after).idOf other = server.idOf other
  refine (sameRegistry_update fun session hsession ↦ ?_).ids other
  cases hobject.symm.trans hsession
  exact hsame.clientId

/-- The sessions live after a disconnect callback. -/
theorem live_disconnect (hobject : server.object index = some before)
    (hsame : Session.Same before after) (other : ℕ) :
    ((server.update index fun _ ↦ after).onClientDisconnect index before.clientId).Live other ↔
      server.Live other ∧ other ≠ index := by
  rw [Live, Live, ← isSome_idOf, idOf_disconnect hobject hsame, isSome_idOf]
  simp only [onClientDisconnect, update_log, List.mem_append, List.mem_singleton,
    Action.disconnected.injEq, not_or, not_and]
  constructor
  · rintro ⟨hsome, hlog⟩
    exact ⟨⟨hsome, fun clientId ↦ (hlog clientId).1⟩, fun heq ↦ (hlog before.clientId).2 heq rfl⟩
  · rintro ⟨⟨hsome, hlog⟩, hne⟩
    exact ⟨hsome, fun clientId ↦ ⟨hlog clientId, fun heq _ ↦ hne heq⟩⟩

theorem find_disconnect (clientId : UInt8) :
    ((server.update index fun _ ↦ after).onClientDisconnect index before.clientId).sessions.find
        clientId =
      if before.clientId = clientId then none else server.sessions.find clientId :=
  SortedMap.find_erase ..

end Disconnect

namespace Indexed

/-- A new session is the latest one with its id. -/
theorem register {server : Server} (h : server.Indexed) (serialized : Bytes) :
    (server.register serialized).Indexed where
  latest clientId index hfind := by
    rw [find_register] at hfind
    rw [idOf_register]
    split at hfind
    · next heq =>
      cases hfind
      refine ⟨by rw [if_pos rfl, heq], fun other hother ↦ ?_⟩
      rw [idOf_register] at hother
      split at hother
      · next heq' => exact le_of_eq heq'
      · exact (lt_of_idOf hother).le
    · next hne =>
      obtain ⟨hid, hlatest⟩ := h.latest clientId index hfind
      refine ⟨by rw [if_neg (Nat.ne_of_lt (lt_of_idOf hid)), hid], fun other hother ↦ ?_⟩
      rw [idOf_register] at hother
      split at hother
      · exact absurd (Option.some.inj hother) hne
      · exact hlatest other hother
  live clientId index hfind := by
    rw [live_register h]
    rw [find_register] at hfind
    split at hfind
    · cases hfind
      exact Or.inl rfl
    · exact Or.inr (h.live clientId index hfind)
  logged index clientId hlog := by
    rw [disconnected_mem_register] at hlog
    rw [object_register]
    split
    · rfl
    · exact h.logged index clientId hlog

/-- A session that reports its end takes the entry of its id with it. -/
theorem disconnect {server : Server} (h : server.Indexed) {index : ℕ} {before after : Session}
    (hobject : server.object index = some before) (hsame : Session.Same before after) :
    ((server.update index fun _ ↦ after).onClientDisconnect index before.clientId).Indexed where
  latest clientId other hfind := by
    rw [find_disconnect] at hfind
    split at hfind
    · cases hfind
    · simp only [idOf_disconnect hobject hsame]
      exact h.latest clientId other hfind
  live clientId other hfind := by
    rw [find_disconnect] at hfind
    split at hfind
    · cases hfind
    · next hne =>
      refine (live_disconnect hobject hsame other).mpr
        ⟨h.live clientId other hfind, fun heq ↦ hne ?_⟩
      have hid := (h.latest clientId other hfind).1
      rw [heq, idOf_eq_some hobject] at hid
      exact Option.some.inj hid
  logged other clientId hlog := by
    rw [← isSome_idOf, idOf_disconnect hobject hsame, isSome_idOf]
    rcases List.mem_append.mp hlog with hlog | hlog
    · exact h.logged other clientId hlog
    · cases List.mem_singleton.mp hlog
      rw [hobject]
      rfl

theorem same {server next : Server} (h : server.Indexed) (hsame : SameRegistry server next) :
    next.Indexed where
  latest clientId index hfind := by
    simp only [hsame.ids]
    exact h.latest clientId index ((hsame.entries clientId index).mp hfind)
  live clientId index hfind := by
    rw [live_same hsame]
    exact h.live clientId index ((hsame.entries clientId index).mp hfind)
  logged index clientId hlog := by
    rw [← isSome_idOf, hsame.ids, isSome_idOf]
    exact h.logged index clientId ((disconnected_mem_same hsame).mp hlog)

end Indexed

/-- The entries stay the latest sessions, whatever happens. -/
theorem step_indexed {lib : JsonLib} {server next : Server} {event : Event}
    (hindexed : server.Indexed) (h : server.step lib event = some next) : next.Indexed := by
  rcases (step_stepped h).2.registry with ⟨serialized, _, rfl⟩ |
    ⟨index, before, after, _, hobject, hsame, rfl⟩ | ⟨_, _, hsame⟩
  · exact hindexed.register serialized
  · exact hindexed.disconnect hobject hsame
  · exact hindexed.same hsame

/-- A server that has just been started. -/
def Fresh (server : Server) : Prop := ∃ db, server = { db := db }

theorem Fresh.indexed {server : Server} (h : server.Fresh) : server.Indexed := by
  obtain ⟨db, rfl⟩ := h
  refine ⟨fun clientId index hfind ↦ ?_, fun clientId index hfind ↦ ?_,
    fun index clientId hlog ↦ ?_⟩
  · cases hfind
  · cases hfind
  · cases hlog

theorem fresh_of_start {lib : JsonLib} {files : Files} {server : Server}
    (h : start lib files = .ok server) : server.Fresh := by
  obtain ⟨db, _, rfl⟩ := map_eq_ok.mp h
  exact ⟨db, rfl⟩

/-! ## When live sessions keep their entries -/

/-- What holds as long as ids are only handed out and erased when they are free. -/
structure Sound (server : Server) : Prop where
  indexed : server.Indexed
  registry : server.Registry

/-- Live sessions with entries of their own have distinct ids. -/
theorem registry_of_entry {server : Server}
    (h : ∀ index clientId, server.Live index → server.idOf index = some clientId →
      server.sessions.find clientId = some (some index)) : server.Registry := by
  refine ⟨fun index other clientId hindex hother hid hid' ↦ ?_, h⟩
  have hentry := (h index clientId hindex hid).symm.trans (h other clientId hother hid')
  exact Option.some.inj (Option.some.inj hentry)

theorem step_sound {lib : JsonLib} {server next : Server} {event : Event}
    (hsound : server.Sound) (hfree : server.IdFree event) (h : server.step lib event = some next) :
    next.Sound := by
  refine ⟨step_indexed hsound.indexed h, registry_of_entry ?_⟩
  rcases (step_stepped h).2.registry with ⟨serialized, rfl, rfl⟩ |
    ⟨index, before, after, hevent, hobject, hsame, rfl⟩ | ⟨_, _, hsame⟩
  · intro other clientId hlive hid
    rw [idOf_register] at hid
    rw [find_register]
    rcases (live_register hsound.indexed serialized other).mp hlive with rfl | hlive
    · rw [if_pos rfl] at hid
      rw [if_pos (Option.some.inj hid)]
    · rw [if_neg (Nat.ne_of_lt (lt_of_isSome hlive.1))] at hid
      rw [if_neg]
      · exact hsound.registry.entry other clientId hlive hid
      · intro heq
        exact hfree other hlive (by rw [hid, heq])
  · intro other clientId hlive hid
    rw [idOf_disconnect hobject hsame] at hid
    rw [find_disconnect]
    obtain ⟨hlive, hne⟩ := (live_disconnect hobject hsame other).mp hlive
    rw [if_neg]
    · exact hsound.registry.entry other clientId hlive hid
    · intro heq
      have hindex : server.idOf index = some clientId := by rw [idOf_eq_some hobject, heq]
      have hfree' : ¬server.Live index → ∀ clientId other, server.idOf index = some clientId →
          server.Live other → server.idOf other ≠ some clientId := by
        rcases hevent with rfl | rfl
        · exact hfree
        · exact hfree
      by_cases hindexLive : server.Live index
      · exact hne (hsound.registry.distinct other index clientId hlive hindexLive hid hindex)
      · exact hfree' hindexLive clientId other hindex hlive hid
  · intro index clientId hlive hid
    rw [hsame.ids] at hid
    exact (hsame.entries clientId index).mpr
      (hsound.registry.entry index clientId ((live_same hsame index).mp hlive) hid)

/-- A step after which live sessions still have their entries used free ids only. -/
theorem idFree_of_registry {lib : JsonLib} {server next : Server} {event : Event}
    (hsound : server.Sound) (h : server.step lib event = some next) (hnext : next.Registry) :
    server.IdFree event := by
  rcases (step_stepped h).2.registry with ⟨serialized, rfl, rfl⟩ |
    ⟨index, before, after, hevent, hobject, hsame, rfl⟩ | ⟨haccept, hdisconnect, _⟩
  · intro index hlive hid
    have hne := Nat.ne_of_lt (lt_of_isSome hlive.1)
    have hentry := hnext.entry index server.nextClientId
      ((live_register hsound.indexed serialized index).mpr (Or.inr hlive))
      (by rw [idOf_register, if_neg hne, hid])
    rw [find_register, if_pos rfl] at hentry
    exact hne (Option.some.inj (Option.some.inj hentry)).symm
  · have hfree : ¬server.Live index → ∀ clientId other, server.idOf index = some clientId →
        server.Live other → server.idOf other ≠ some clientId := by
      intro hindex clientId other hid hlive hother
      have hne : other ≠ index := by
        rintro rfl
        exact hindex hlive
      have hentry := hnext.entry other clientId
        ((live_disconnect hobject hsame other).mpr ⟨hlive, hne⟩)
        (by rw [idOf_disconnect hobject hsame, hother])
      rw [idOf_eq_some hobject] at hid
      rw [find_disconnect, if_pos (Option.some.inj hid)] at hentry
      cases hentry
    rcases hevent with rfl | rfl
    · exact hfree
    · exact hfree
  · cases event with
    | accept => exact absurd rfl haccept
    | readFailed index => exact absurd (Or.inl rfl) (hdisconnect index)
    | writeFailed index => exact absurd (Or.inr rfl) (hdisconnect index)
    | acceptFailed | receive _ _ | readDone _ _ _ | strand _ | writeDone _ | tick _ _ _
    | timerCanceled => trivial

/-- With free ids no step touches an entry that is not its own. -/
theorem entrySafe_of_idFree {server : Server} {event : Event} (hsound : server.Sound)
    (hfree : server.IdFree event) : server.EntrySafe event := by
  have hdisconnect : ∀ index, (¬server.Live index → ∀ clientId other,
      server.idOf index = some clientId → server.Live other →
      server.idOf other ≠ some clientId) → ∀ clientId other,
      server.idOf index = some clientId → server.sessions.find clientId = some (some other) →
      other = index := by
    intro index hindex clientId other hid hfind
    have hother := (hsound.indexed.latest clientId other hfind).1
    have hlive := hsound.indexed.live clientId other hfind
    by_cases hindexLive : server.Live index
    · exact hsound.registry.distinct other index clientId hlive hindexLive hother hid
    · exact absurd hother (hindex hindexLive clientId other hid hlive)
  cases event with
  | accept =>
    intro index hfind hlive
    exact hfree index hlive (hsound.indexed.latest _ index hfind).1
  | readFailed index => exact hdisconnect index hfree
  | writeFailed index => exact hdisconnect index hfree
  | acceptFailed | receive _ _ | readDone _ _ _ | strand _ | writeDone _ | tick _ _ _
  | timerCanceled => trivial

theorem Fresh.sound {server : Server} (h : server.Fresh) : server.Sound := by
  refine ⟨h.indexed, registry_of_entry fun index clientId hlive ↦ ?_⟩
  obtain ⟨db, rfl⟩ := h
  exact absurd hlive.1 (by simp [object])

/-! ## Accepting in a row -/

theorem step_accept (lib : JsonLib) {server : Server} (hrunning : server.status = .running) :
    ∃ serialized, server.step lib .accept = some (server.register serialized) := by
  obtain ⟨serialized, _, haccept⟩ := server.onAccept_eq lib
  refine ⟨serialized, ?_⟩
  rw [step, if_pos hrunning]
  simp only [haccept, conclude]

/-- Accepting a number of connections in a row. -/
theorem run_accepts (lib : JsonLib) {server : Server} (hrunning : server.status = .running)
    (hindexed : server.Indexed) (count : ℕ) :
    ∃ final, Transition.run (step lib) server (List.replicate count .accept) = some final ∧
      final.status = .running ∧ final.Indexed ∧
      final.objects.length = server.objects.length + count ∧
      final.nextClientId = server.nextClientId + UInt8.ofNat count ∧
      (∀ index, server.Live index → final.Live index) ∧
      ∀ index clientId, server.idOf index = some clientId →
        final.idOf index = some clientId := by
  induction count generalizing server with
  | zero =>
    exact ⟨server, rfl, hrunning, hindexed, rfl, (UInt8.add_zero _).symm, fun _ h ↦ h,
      fun _ _ h ↦ h⟩
  | succ count ih =>
    obtain ⟨serialized, hstep⟩ := step_accept lib hrunning
    have hrunning' : (server.register serialized).status = .running := hrunning
    obtain ⟨final, hrun, hstatus, hindexed', hlength, hnext, hlive, hid⟩ :=
      ih hrunning' (step_indexed hindexed hstep)
    refine ⟨final, Transition.run_cons_eq_some.mpr ⟨_, hstep, hrun⟩, hstatus, hindexed', ?_, ?_,
      fun index h ↦ hlive index ((live_register hindexed serialized index).mpr (Or.inr h)),
      fun index clientId h ↦ hid index clientId ?_⟩
    · rw [hlength]
      simp only [register, List.length_append, List.length_singleton]
      omega
    · rw [hnext, UInt8.ofNat_add, UInt8.add_comm (UInt8.ofNat count)]
      exact UInt8.add_assoc ..
    · rw [idOf_register, if_neg (Nat.ne_of_lt (lt_of_idOf h)), h]

/-- Ids that no live session has are free until they come around. -/
theorem always_accepts (lib : JsonLib) {server : Server} (hrunning : server.status = .running)
    (hindexed : server.Indexed) {count : ℕ} (hcount : count ≤ 256)
    (hfree : ∀ offset < count, ∀ index, server.Live index →
      server.idOf index ≠ some (server.nextClientId + UInt8.ofNat offset)) :
    Transition.Always (step lib) IdFree server (List.replicate count .accept) := by
  induction count generalizing server with
  | zero => trivial
  | succ count ih =>
    rw [List.replicate_succ]
    refine ⟨fun index hlive ↦ ?_, fun next hnext ↦ ?_⟩
    · have hfirst := hfree 0 (Nat.succ_pos count) index hlive
      have hzero : UInt8.ofNat 0 = 0 := rfl
      rw [hzero, UInt8.add_zero] at hfirst
      exact hfirst
    · obtain ⟨serialized, hstep⟩ := step_accept lib hrunning
      obtain rfl := Option.some.inj (hstep.symm.trans hnext)
      refine ih hrunning (step_indexed hindexed hstep) (by omega) ?_
      intro offset hoffset index hlive
      have hnextId : (server.register serialized).nextClientId + UInt8.ofNat offset =
          server.nextClientId + UInt8.ofNat (offset + 1) := by
        rw [UInt8.ofNat_add, UInt8.add_comm (UInt8.ofNat offset)]
        exact UInt8.add_assoc ..
      rw [hnextId, idOf_register]
      split
      · intro hsame
        have hvalue := congrArg UInt8.toNat (Option.some.inj hsame)
        rw [UInt8.toNat_add, UInt8.toNat_ofNat'] at hvalue
        have hlt := server.nextClientId.toNat_lt
        omega
      · next hne =>
        refine hfree (offset + 1) (by omega) index ?_
        exact ((live_register hindexed serialized index).mp hlive).resolve_left hne

/-! ## Every run -/

/-- The registry is right throughout a run, and no step of it touches the entry of another live
session, exactly when ids are handed out and erased only while no other live session has them. -/
theorem registry_iff_idFree {lib : JsonLib} {files : Files} {server final : Server}
    (hstart : start lib files = .ok server) {events : List Event}
    (hrun : Transition.run (step lib) server events = some final) :
    Transition.Always (step lib) IdFree server events ↔
      (∀ visited, Transition.Visited (step lib) server events visited → visited.Registry) ∧
        Transition.Always (step lib) EntrySafe server events := by
  have hsound := (fresh_of_start hstart).sound
  have hiff := Transition.always_iff_visited (fun h : Sound _ ↦ h.registry) step_sound
    idFree_of_registry hsound hrun
  constructor
  · intro halways
    exact ⟨hiff.mp halways, Transition.always_mono entrySafe_of_idFree step_sound hsound halways⟩
  · rintro ⟨hvisited, _⟩
    exact hiff.mpr hvisited

/-- The first connection ends, and 256 accepts later its id is handed out again. -/
theorem registry_iff_idFree_reused :
    ∃ server final, start JsonLib.reference {} = .ok server ∧
      Transition.run (step JsonLib.reference) server
        ([.accept, .readFailed 0] ++ List.replicate 256 .accept) = some final ∧
      final.idOf 0 = some 1 ∧ final.idOf 256 = some 1 ∧ final.Live 256 ∧
      (∀ visited, Transition.Visited (step JsonLib.reference) server
        ([.accept, .readFailed 0] ++ List.replicate 256 .accept) visited → visited.Registry) ∧
      Transition.Always (step JsonLib.reference) EntrySafe server
        ([.accept, .readFailed 0] ++ List.replicate 256 .accept) := by
  have hstart : start JsonLib.reference {} = .ok { db := {} } := rfl
  have hindexed₀ : Indexed { db := {} } := (fresh_of_start hstart).indexed
  have hended : (Transition.run (step JsonLib.reference) { db := {} } [.accept, .readFailed 0]).map
      (fun server ↦ (server.status, server.objects.length, server.nextClientId, server.idOf 0,
        decide (Action.disconnected 0 1 ∈ server.log))) =
      some (.running, 1, 2, some 1, true) := by decide +kernel
  obtain ⟨ended, hbefore, hended⟩ := Option.map_eq_some_iff.mp hended
  simp only [Prod.mk.injEq, decide_eq_true_eq] at hended
  obtain ⟨hrunning, hlength, hnext, hfirst, hlogged⟩ := hended
  have hindexed := Transition.invariant_run step_indexed hindexed₀ hbefore
  have hdead : ∀ index, ¬ended.Live index := by
    rintro index ⟨hobject, hlive⟩
    obtain rfl : index = 0 := by
      have hlt := lt_of_isSome hobject
      omega
    exact hlive 1 hlogged
  -- the last accept hands out the first id
  obtain ⟨second, hrun, hrunning', hindexed', hlength', hnext', _, hid⟩ :=
    run_accepts JsonLib.reference hrunning hindexed 255
  obtain ⟨serialized, hstep⟩ := step_accept JsonLib.reference hrunning'
  have hcount : second.objects.length = 256 := by rw [hlength', hlength]
  have hafter : Transition.run (step JsonLib.reference) ended (List.replicate 256 .accept) =
      some (second.register serialized) := by
    rw [show (256 : ℕ) = 255 + 1 from rfl, List.replicate_succ']
    exact Transition.run_append_eq_some.mpr
      ⟨second, hrun, Transition.run_cons_eq_some.mpr ⟨_, hstep, rfl⟩⟩
  have hall := Transition.run_append_eq_some.mpr ⟨ended, hbefore, hafter⟩
  have hfree : Transition.Always (step JsonLib.reference) IdFree { db := {} }
      ([.accept, .readFailed 0] ++ List.replicate 256 .accept) := by
    refine Transition.always_append ⟨?_, fun next hnext ↦ ⟨?_, fun _ _ ↦ trivial⟩⟩ ?_
    · intro index hlive
      exact absurd hlive.1 (by simp [object])
    · intro hlive
      obtain ⟨serialized, hstep⟩ := @step_accept JsonLib.reference { db := {} } rfl
      obtain rfl := Option.some.inj (hstep.symm.trans hnext)
      exact absurd ((live_register hindexed₀ serialized 0).mpr (Or.inl rfl)) hlive
    · intro middle hmiddle
      obtain rfl := Option.some.inj (hbefore.symm.trans hmiddle)
      exact always_accepts JsonLib.reference hrunning hindexed le_rfl
        fun _ _ index hlive ↦ absurd hlive (hdead index)
  refine ⟨_, _, hstart, hall, ?_, ?_, ?_, (registry_iff_idFree hstart hall).mp hfree⟩
  · rw [idOf_register, if_neg (by omega), hid 0 1 hfirst]
  · have hwrap : (2 : UInt8) + UInt8.ofNat 255 = 1 := by decide
    rw [idOf_register, if_pos hcount.symm, hnext', hnext, hwrap]
  · exact (live_register hindexed' serialized 256).mpr (Or.inl hcount.symm)

/-! ## Ids come around -/

/-- The 257th connection gets the id of the first, which is still open. -/
theorem not_registry_after_wrap :
    ∃ server final, start JsonLib.reference {} = .ok server ∧
      Transition.run (step JsonLib.reference) server (List.replicate 257 .accept) = some final ∧
      ¬final.Registry := by
  have hfresh : Fresh { db := {} } := ⟨{}, rfl⟩
  have hindexed := hfresh.indexed
  have hrunning₀ : ({ db := {} } : Server).status = .running := rfl
  obtain ⟨text₁, hstep₁⟩ := step_accept JsonLib.reference hrunning₀
  have hrunning₁ : (register { db := {} } text₁).status = .running := rfl
  obtain ⟨second, hrun, hrunning, hindexed₂, hlength, hnext, hlive, hid⟩ :=
    run_accepts JsonLib.reference hrunning₁ (step_indexed hindexed hstep₁) 255
  obtain ⟨text₂, hstep₂⟩ := step_accept JsonLib.reference hrunning
  have hevents : List.replicate 257 Event.accept =
      [.accept] ++ (List.replicate 255 .accept ++ [.accept]) := by
    rw [← List.replicate_succ', List.singleton_append, ← List.replicate_succ]
  refine ⟨{ db := {} }, second.register text₂, rfl, ?_, fun hregistry ↦ ?_⟩
  · have hlast : Transition.run (step JsonLib.reference) (register { db := {} } text₁)
        (List.replicate 255 .accept ++ [.accept]) = some (second.register text₂) :=
      Transition.run_append_eq_some.mpr
        ⟨second, hrun, Transition.run_cons_eq_some.mpr ⟨_, hstep₂, rfl⟩⟩
    rw [hevents]
    exact Transition.run_cons_eq_some.mpr ⟨_, hstep₁, hlast⟩
  · have hlive₀ := hlive 0 ((live_register hindexed text₁ 0).mpr (Or.inl rfl))
    have hid₀ := hid 0 1 (idOf_register ..)
    have hne : 0 ≠ second.objects.length := by
      rw [hlength]
      simp
    have hlast : (second.register text₂).idOf second.objects.length = some 1 := by
      have hwrap : (1 : UInt8) + 1 + UInt8.ofNat 255 = 1 := by decide
      rw [idOf_register, if_pos rfl, hnext]
      exact congrArg some hwrap
    exact hne (hregistry.distinct 0 second.objects.length 1
      ((live_register hindexed₂ text₂ 0).mpr (Or.inr hlive₀))
      ((live_register hindexed₂ text₂ _).mpr (Or.inl rfl))
      (by rw [idOf_register, if_neg hne, hid₀]) hlast)

end NetPixeld.Server
