import NetPixeld.Client.Requests
import NetPixeld.Server.Inbound
import NetPixeld.System.Agreement
import NetPixeld.System.Credentials

/-!
# Requests on their way to the server

What a client writes arrives on its session only, and nothing else does. So the lines that the
server reads from the session of a client are the requests of its clicks: none is lost, doubled or
changed, and their order is kept.
-/

namespace NetPixeld

/-! ## The lines of requests -/

/-- What `sendMessage` writes is a line that the server reads as the two texts. -/
theorem requestText_line {lib : JsonLib} (hlib : lib.Lawful) {request : Bytes × Bytes}
    (hvalid : Utf8.Valid request.1 ∧ Utf8.Valid request.2) :
    ∃ line, requestText lib request = line ++ [newline] ∧ newline ∉ line ∧
      Server.Requests lib line request.1 request.2 := by
  have hwellFormed := Protocol.wellFormed_loginRequest hvalid.1 hvalid.2
  obtain ⟨serialized, hserialized⟩ := Protocol.Message.serialize_ok lib hwellFormed
  obtain ⟨line, rfl, hprintable, hparse⟩ :=
    Protocol.Message.serialize_line hlib hwellFormed hserialized
  refine ⟨line, ?_, hprintable.newline_notMem, Protocol.loginRequest request.1 request.2, ?_, rfl,
    LoginScene.credentials_loginRequest request.1 request.2⟩
  · rw [requestText, hserialized]
    rfl
  · rw [Protocol.readLine, Protocol.stripReturn_of_printable hprintable, hparse]

/-- Lines ask for these logins. -/
def Asking (lib : JsonLib) (lines : List Bytes) (requests : List (Bytes × Bytes)) : Prop :=
  List.Forall₂ (fun line request ↦ Server.Requests lib line request.1 request.2) lines requests

theorem requestTexts_lines {lib : JsonLib} (hlib : lib.Lawful) {requests : List (Bytes × Bytes)}
    (hvalid : ∀ request ∈ requests, Utf8.Valid request.1 ∧ Utf8.Valid request.2) :
    ∃ lines, requests.flatMap (requestText lib) = lines.flatMap (fun line ↦ line ++ [newline]) ∧
      (∀ line ∈ lines, newline ∉ line) ∧ Asking lib lines requests := by
  induction requests with
  | nil => exact ⟨[], rfl, nofun, .nil⟩
  | cons request requests ih =>
    obtain ⟨hhead, htail⟩ := List.forall_mem_cons.mp hvalid
    obtain ⟨line, hline, hfree, hasks⟩ := requestText_line hlib hhead
    obtain ⟨lines, hlines, hfrees, hasking⟩ := ih htail
    refine ⟨line :: lines, ?_, List.forall_mem_cons.mpr ⟨hfree, hfrees⟩, .cons hasks hasking⟩
    rw [List.flatMap_cons, List.flatMap_cons, hline, hlines]

/-! ## What arrives at the server -/

namespace Server

/-- The bytes that arrived on a connection: the lines read from it, and its buffer. -/
def stream (server : Server) (index : ℕ) : Bytes :=
  (server.linesOf index).flatMap (fun line ↦ line ++ [newline]) ++ server.buffered index

/-- Nothing arrives for a session that does not exist, and lines are lines. -/
structure Streamed (server : Server) : Prop where
  absent : ∀ index, server.object index = none → server.stream index = []
  free : ∀ index, ∀ line ∈ server.linesOf index, newline ∉ line

variable {lib : JsonLib} {server next : Server} {event : Event}

theorem step_stream (hstep : server.step lib event = some next) (index : ℕ) :
    next.stream index = server.stream index ++ event.arriving index := by
  obtain ⟨lines, hlines, _, hbytes⟩ := step_reads hstep index
  rw [stream, hlines, List.flatMap_append, List.append_assoc, hbytes, ← List.append_assoc]
  rfl

/-- Session objects stay. -/
theorem step_isSome (hstep : server.step lib event = some next) {index : ℕ}
    (h : (server.object index).isSome = true) : (next.object index).isSome = true := by
  rcases (step_stepped hstep).2.registry with
    ⟨serialized, _, rfl⟩ | ⟨other, before, after, _, hobject, _, rfl⟩ | ⟨_, _, hsame⟩
  · rw [object_register, if_neg (Nat.ne_of_lt (lt_of_isSome h))]
    exact h
  · change ((server.update other fun _ ↦ after).object index).isSome = true
    rw [object_update]
    split
    · rw [Option.isSome_map]
      exact h
    · exact h
  · rw [← isSome_idOf, hsame.ids, isSome_idOf]
    exact h

theorem Streamed.step (h : server.Streamed) (hstep : server.step lib event = some next) :
    next.Streamed := by
  constructor
  · intro index hnone
    have hbefore : server.object index = none := by
      by_contra hsome
      have hkept := step_isSome hstep (Option.isSome_iff_ne_none.mpr hsome)
      rw [hnone] at hkept
      cases hkept
    have harriving : event.arriving index = [] := by
      cases (step_stepped hstep).2 with
      | @receive other _ _ _ hobject =>
        refine if_neg fun heq ↦ ?_
        rw [heq, hbefore] at hobject
        cases hobject
      | accept | acceptFailed | strand | writeDone | readFailed | writeFailed | readDone | tick
      | timerCanceled => rfl
    rw [step_stream hstep, h.absent index hbefore, harriving]
    rfl
  · intro index
    obtain ⟨lines, hlines, hfree, _⟩ := step_reads hstep index
    rw [hlines]
    exact List.forall_mem_append.mpr ⟨h.free index, hfree⟩

theorem streamed_of_start {files : Files} (hstart : start lib files = .ok server) :
    server.Streamed := by
  obtain ⟨db, rfl⟩ := fresh_of_start hstart
  exact ⟨fun _ _ ↦ rfl, fun _ ↦ nofun⟩

end Server

/-! ## The connections -/

/-- What arrived at the session of a client is the beginning of what the client wrote. -/
structure Peer.Wired (server : Server) (peer : Peer) : Prop where
  waiting : peer.session = none → peer.uploaded = 0
  uploaded : peer.uploaded ≤ peer.app.ctx.net.written.length
  object : ∀ index, peer.session = some index → (server.object index).isSome = true
  stream : ∀ index, peer.session = some index →
    server.stream index = peer.app.ctx.net.written.take peer.uploaded

namespace Peer.Wired

variable {lib : JsonLib} {server next : Server} {peer : Peer}

theorem start (server : Server) (connected : Bool) :
    ({ app := .start connected } : Peer).Wired server :=
  ⟨fun _ ↦ rfl, Nat.le_refl 0, nofun, nofun⟩

/-- The server does something else. -/
theorem serves (h : peer.Wired server) {event : Server.Event}
    (hstep : server.step lib event = some next)
    (hquiet : ∀ index, peer.session = some index → event.arriving index = []) :
    peer.Wired next := by
  refine ⟨h.waiting, h.uploaded, fun index hsession ↦ ?_, fun index hsession ↦ ?_⟩
  · exact Server.step_isSome hstep (h.object index hsession)
  · rw [Server.step_stream hstep, hquiet index hsession, List.append_nil, h.stream index hsession]

/-- The connection is accepted. -/
theorem accept (h : peer.Wired server) (hstreamed : server.Streamed)
    (hsession : peer.session = none) (hstep : server.step lib .accept = some next) :
    ({ peer with session := some server.objects.length } : Peer).Wired next := by
  have hnone : server.object server.objects.length = none := List.getElem?_eq_none (Nat.le_refl _)
  refine ⟨nofun, h.uploaded, fun index hindex ↦ ?_, fun index hindex ↦ ?_⟩
  · cases hindex
    cases (Server.step_stepped hstep).2 with
    | accept =>
      rw [Server.object_register, if_pos rfl]
      rfl
  · cases hindex
    rw [Server.step_stream hstep, hstreamed.absent _ hnone]
    change [] = peer.app.ctx.net.written.take peer.uploaded
    rw [h.waiting hsession, List.take_zero]

/-- The next bytes of the client arrive. -/
theorem upload (h : peer.Wired server) {index : ℕ} (hsession : peer.session = some index)
    (count : ℕ)
    (hstep : server.step lib (.receive index
      ((peer.app.ctx.net.written.drop peer.uploaded).take count)) = some next) :
    ({ peer with uploaded := peer.uploaded +
      ((peer.app.ctx.net.written.drop peer.uploaded).take count).length } : Peer).Wired next := by
  have hlength := h.uploaded
  refine ⟨fun hnone ↦ ?_, ?_, fun other hother ↦ ?_, fun other hother ↦ ?_⟩
  · cases hsession.symm.trans hnone
  · dsimp only
    rw [List.length_take, List.length_drop]
    omega
  · exact Server.step_isSome hstep (h.object other hother)
  · cases hsession.symm.trans hother
    rw [Server.step_stream hstep, h.stream index hsession, Server.Event.arriving, if_pos rfl]
    dsimp only
    rw [List.take_add, List.append_cancel_left_eq, List.length_take]
    exact List.take_eq_take_min ..

/-- The client does something. -/
theorem client (h : peer.Wired server) {event : Application.Event} {app : Application}
    (happ : peer.app.step lib event = some app) :
    ({ peer with app := app } : Peer).Wired server := by
  obtain ⟨bytes, hbytes, _⟩ := Application.step_writes happ
  have hlength := h.uploaded
  refine ⟨h.waiting, ?_, h.object, fun index hsession ↦ ?_⟩
  · dsimp only
    rw [hbytes, List.length_append]
    omega
  · dsimp only
    rw [h.stream index hsession, hbytes, List.take_append_of_le_length hlength]

end Peer.Wired

namespace System

variable {lib : JsonLib} {system next : System}

/-- Every client is wired to a session of its own. -/
structure Wired (system : System) : Prop where
  streamed : system.server.Streamed
  peers : ∀ (place : ℕ) (peer : Peer), system.peers[place]? = some peer →
    peer.Wired system.server
  apart : ∀ (place other : ℕ) (peer peer' : Peer) (index : ℕ),
    system.peers[place]? = some peer → system.peers[other]? = some peer' →
    peer.session = some index → peer'.session = some index → place = other

/-- One client changes, with the server or without. -/
theorem Wired.set (h : system.Wired) {place : ℕ} {peer moved : Peer} {server : Server}
    (hpeer : system.peers[place]? = some peer) (hserver : server.Streamed)
    (hmoved : moved.Wired server)
    (hothers : ∀ (other : ℕ) (peer' : Peer), other ≠ place → system.peers[other]? = some peer' →
      peer'.Wired server ∧ ∀ index, moved.session = some index → peer'.session ≠ some index) :
    Wired ⟨server, system.peers.set place moved⟩ := by
  have hlt := (List.getElem?_eq_some_iff.mp hpeer).1
  have hself : (system.peers.set place moved)[place]? = some moved := List.getElem?_set_self hlt
  refine ⟨hserver, fun other found hfound ↦ ?_, fun first second found found' index hfirst hsecond
    hsession hsession' ↦ ?_⟩
  · by_cases hplace : other = place
    · subst hplace
      cases hself.symm.trans hfound
      exact hmoved
    · exact (hothers other found hplace ((List.getElem?_set_ne (Ne.symm hplace)).symm.trans
        hfound)).1
  · by_cases hplace : first = place
    · subst hplace
      cases hself.symm.trans hfirst
      by_contra hne
      have hother := (List.getElem?_set_ne hne).symm.trans hsecond
      exact (hothers second found' (Ne.symm hne) hother).2 index hsession hsession'
    · have hother := (List.getElem?_set_ne (Ne.symm hplace)).symm.trans hfirst
      by_cases hplace' : second = place
      · subst hplace'
        cases hself.symm.trans hsecond
        exact absurd hsession ((hothers first found hplace hother).2 index hsession')
      · have hother' := (List.getElem?_set_ne (Ne.symm hplace')).symm.trans hsecond
        exact h.apart first second found found' index hother hother' hsession hsession'

/-- The other clients, when only one of them moves. -/
theorem Wired.others (h : system.Wired) {place : ℕ} {peer moved : Peer}
    (hpeer : system.peers[place]? = some peer) (hsession : moved.session = peer.session)
    {other : ℕ} {peer' : Peer} (hne : other ≠ place) (hpeer' : system.peers[other]? = some peer') :
    ∀ index, moved.session = some index → peer'.session ≠ some index := by
  intro index hindex hindex'
  exact hne (h.apart other place peer' peer index hpeer' hpeer hindex' (hsession ▸ hindex))

theorem Wired.step (h : system.Wired) {event : Event} (hstep : system.step lib event = some next) :
    next.Wired := by
  cases event with
  | launch connected =>
    cases hstep
    have hnew : ∀ {place : ℕ} {peer : Peer},
        (system.peers ++ [{ app := Application.start connected }])[place]? = some peer →
        system.peers[place]? = some peer ∨ peer = { app := Application.start connected } := by
      intro place peer hpeer
      rw [List.getElem?_append] at hpeer
      split at hpeer
      · exact Or.inl hpeer
      · exact Or.inr (List.mem_singleton.mp (List.mem_of_getElem? hpeer))
    refine ⟨h.streamed, fun place peer hpeer ↦ ?_, fun place other peer peer' index hpeer hpeer'
      hsession hsession' ↦ ?_⟩
    · rcases hnew hpeer with hold | rfl
      · exact h.peers place peer hold
      · exact .start _ connected
    · rcases hnew hpeer with hold | rfl
      · rcases hnew hpeer' with hold' | rfl
        · exact h.apart place other peer peer' index hold hold' hsession hsession'
        · cases hsession'
      · cases hsession
  | accept place =>
    cases step_stepped hstep with
    | @accept _ peer _ hpeer hsession hserver =>
    refine h.set hpeer (h.streamed.step hserver)
      ((h.peers place peer hpeer).accept h.streamed hsession hserver) fun other peer' _ hpeer' ↦
        ⟨(h.peers other peer' hpeer').serves hserver fun _ _ ↦ rfl, fun index hindex hindex' ↦ ?_⟩
    cases hindex
    exact absurd (Server.lt_of_isSome ((h.peers other peer' hpeer').object _ hindex'))
      (Nat.lt_irrefl _)
  | server event =>
    simp only [System.step] at hstep
    split at hstep
    swap
    · cases hstep
    next hforeign =>
    obtain ⟨server, hserver, rfl⟩ := Option.map_eq_some_iff.mp hstep
    refine ⟨h.streamed.step hserver, fun place peer hpeer ↦ ?_, h.apart⟩
    refine (h.peers place peer hpeer).serves hserver fun index hsession ↦ ?_
    cases event with
    | receive other bytes =>
      refine if_neg fun heq ↦ ?_
      have hother := of_decide_eq_true
        (List.all_eq_true.mp hforeign peer (List.mem_of_getElem? hpeer))
      exact hother (heq ▸ hsession)
    | accept | acceptFailed | readDone | readFailed | strand | writeDone | writeFailed | tick
    | timerCanceled => rfl
  | upload place count =>
    obtain ⟨peer, hpeer, hstep⟩ := Option.bind_eq_some_iff.mp hstep
    obtain ⟨index, hsession, hstep⟩ := Option.bind_eq_some_iff.mp hstep
    obtain ⟨server, hserver, hnext⟩ := Option.bind_eq_some_iff.mp hstep
    cases hnext
    refine h.set hpeer (h.streamed.step hserver)
      ((h.peers place peer hpeer).upload hsession count hserver) fun other peer' hne hpeer' ↦ ?_
    have hothers : ∀ index, peer.session = some index → peer'.session ≠ some index :=
      h.others hpeer rfl hne hpeer'
    refine ⟨(h.peers other peer' hpeer').serves hserver fun index' hsession' ↦ ?_, hothers⟩
    refine if_neg fun heq ↦ ?_
    subst heq
    exact hothers index hsession hsession'
  | download place count =>
    cases step_stepped hstep with
    | @download _ _ _ peer _ _ _ hpeer _ _ _ happ =>
    have hmoved := (h.peers place peer hpeer).client happ
    exact h.set hpeer h.streamed ⟨hmoved.waiting, hmoved.uploaded, hmoved.object, hmoved.stream⟩
      fun other peer' hne hpeer' ↦ ⟨h.peers other peer' hpeer', h.others hpeer rfl hne hpeer'⟩
  | client place event =>
    cases step_stepped hstep with
    | @client _ _ peer _ hpeer _ happ =>
    exact h.set hpeer h.streamed ((h.peers place peer hpeer).client happ)
      fun other peer' hne hpeer' ↦ ⟨h.peers other peer' hpeer', h.others hpeer rfl hne hpeer'⟩

theorem wired_run {files : Files} {server : Server} (hstart : Server.start lib files = .ok server)
    {events : List Event} (hrun : Transition.run (step lib) ⟨server, []⟩ events = some next) :
    next.Wired := by
  have hinit : Wired ⟨server, []⟩ := by
    refine ⟨Server.streamed_of_start hstart, fun place peer hpeer ↦ ?_,
      fun place other peer peer' index hpeer ↦ ?_⟩
    · cases hpeer
    · cases hpeer
  exact Transition.invariant_run (fun h hstep ↦ h.step hstep) hinit hrun

/-! ## The requests of a client -/

/-- The logins that a step of the client at a place asks for. -/
def requestsAt (place : ℕ) (system : System) : Event → List (Bytes × Bytes)
  | .client other event =>
      if other = place then
        ((system.peers[place]?).map fun peer ↦ peer.app.asked event).getD []
      else []
  | .launch _ | .accept _ | .server _ | .upload _ _ | .download _ _ => []

/-- The client at a place, if it was started, has written the requests it was asked for. -/
structure Asked (lib : JsonLib) (place : ℕ) (system : System) (requests : List (Bytes × Bytes)) :
    Prop where
  absent : system.peers[place]? = none → requests = []
  wrote : ∀ peer : Peer, system.peers[place]? = some peer → peer.app.Wrote lib requests

/-- A client changes. -/
theorem Asked.set {place : ℕ} {requests more : List (Bytes × Bytes)}
    (h : system.Asked lib place requests) {other : ℕ} {peer moved : Peer} {server : Server}
    (hpeer : system.peers[other]? = some peer)
    (hmoved : other = place → peer.app.Wrote lib requests →
      moved.app.Wrote lib (requests ++ more))
    (hothers : other ≠ place → more = []) :
    Asked lib place ⟨server, system.peers.set other moved⟩ (requests ++ more) := by
  have hlt := (List.getElem?_eq_some_iff.mp hpeer).1
  by_cases hplace : other = place
  · subst hplace
    have hself : (system.peers.set other moved)[other]? = some moved := List.getElem?_set_self hlt
    refine ⟨fun hnone ↦ ?_, fun found hfound ↦ ?_⟩
    · cases hself.symm.trans hnone
    · cases hself.symm.trans hfound
      exact hmoved rfl (h.wrote peer hpeer)
  · have hsame : (system.peers.set other moved)[place]? = system.peers[place]? :=
      List.getElem?_set_ne hplace
    rw [hothers hplace, List.append_nil]
    exact ⟨fun hnone ↦ h.absent (hsame ▸ hnone), fun found hfound ↦ h.wrote found (hsame ▸ hfound)⟩

theorem Asked.step {place : ℕ} {requests : List (Bytes × Bytes)}
    (h : system.Asked lib place requests) {event : Event}
    (hstep : system.step lib event = some next) :
    next.Asked lib place (requests ++ system.requestsAt place event) := by
  cases step_stepped hstep with
  | @launch connected =>
    rw [requestsAt, List.append_nil]
    refine ⟨fun hnone ↦ h.absent ?_, fun peer hpeer ↦ ?_⟩
    · have hlength := List.getElem?_eq_none_iff.mp hnone
      rw [List.length_append] at hlength
      exact List.getElem?_eq_none (Nat.le_trans (Nat.le_add_right ..) hlength)
    · dsimp only at hpeer
      rw [List.getElem?_append] at hpeer
      split at hpeer
      · exact h.wrote peer hpeer
      · next hge =>
        cases List.mem_singleton.mp (List.mem_of_getElem? hpeer)
        rw [h.absent (List.getElem?_eq_none (Nat.le_of_not_lt hge))]
        exact Application.wrote_start lib connected
  | server =>
    rw [requestsAt, List.append_nil]
    exact ⟨h.absent, h.wrote⟩
  | accept hpeer _ _ =>
    exact h.set hpeer (fun _ hwrote ↦ by rwa [requestsAt, List.append_nil]) fun _ ↦ rfl
  | upload hpeer _ =>
    exact h.set hpeer (fun _ hwrote ↦ by rwa [requestsAt, List.append_nil]) fun _ ↦ rfl
  | download hpeer _ _ _ happ =>
    exact h.set hpeer (fun _ hwrote ↦ hwrote.step happ) fun _ ↦ rfl
  | @client other event peer app hpeer _ happ =>
    refine h.set hpeer (fun hplace hwrote ↦ ?_) fun hplace ↦ if_neg hplace
    subst hplace
    rw [requestsAt, if_pos rfl, hpeer]
    exact hwrote.step happ

/-- What a client is asked for along a run. -/
def requests (lib : JsonLib) (place : ℕ) : System → List Event → List (Bytes × Bytes) :=
  Transition.observed (step lib) (requestsAt place)

theorem asked_run {server : Server} {events : List Event} {final : System}
    (hrun : Transition.run (step lib) ⟨server, []⟩ events = some final) (place : ℕ) :
    final.Asked lib place (requests lib place ⟨server, []⟩ events) := by
  have hinit : Asked lib place ⟨server, []⟩ [] := ⟨fun _ ↦ rfl, fun peer hpeer ↦ by cases hpeer⟩
  exact Transition.invariant_observed (fun h hstep ↦ h.step hstep) hinit hrun

/-- The lines of the requests, of which the server has read the first. -/
theorem asked_lines (hlib : lib.Lawful) {files : Files} {server : Server}
    (hstart : Server.start lib files = .ok server) {events : List Event} {final : System}
    (hrun : Transition.run (step lib) ⟨server, []⟩ events = some final) {place index : ℕ}
    {peer : Peer} (hpeer : final.peers[place]? = some peer) (hsession : peer.session = some index) :
    ∃ lines, Asking lib lines (requests lib place ⟨server, []⟩ events) ∧
      final.server.linesOf index <+: lines ∧
      (peer.app.alive = true → peer.uploaded = peer.app.ctx.net.written.length →
        newline ∉ final.server.buffered index → final.server.linesOf index = lines) := by
  have hwired := wired_run hstart hrun
  have hwrote := (asked_run hrun place).wrote peer hpeer
  obtain ⟨lines, hlines, hfree, hasking⟩ := requestTexts_lines hlib hwrote.valid
  have hstream := (hwired.peers place peer hpeer).stream index hsession
  rw [Server.stream] at hstream
  have harrived : (final.server.linesOf index).flatMap (fun line ↦ line ++ [newline]) ++
      final.server.buffered index <+: lines.flatMap fun line ↦ line ++ [newline] := by
    rw [hstream, ← hlines]
    exact (List.take_prefix ..).trans hwrote.written
  refine ⟨lines, hasking, Lines.prefix_of_terminated hfree (hwired.streamed.free index) harrived,
    fun halive huploaded hbuffered ↦ ?_⟩
  refine Lines.eq_of_terminated hfree (hwired.streamed.free index) hbuffered ?_
  rw [hstream, huploaded, List.take_length, hwrote.complete halive, hlines]

/-- The lines that the server reads from the session of a client ask for the first logins that the
user of the client clicked for, in order: each once, with the two texts, and nothing else. When the
client lives and its connection is quiet they are all of them. -/
theorem requests_delivered (hlib : lib.Lawful) {files : Files} {server : Server}
    (hstart : Server.start lib files = .ok server) {events : List Event} {final : System}
    (hrun : Transition.run (step lib) ⟨server, []⟩ events = some final) {place index : ℕ}
    {peer : Peer} {session : Session} (hpeer : final.peers[place]? = some peer)
    (hsession : peer.session = some index)
    (hobject : final.server.object index = some session) :
    ∃ read unread, requests lib place ⟨server, []⟩ events = read ++ unread ∧
      Asking lib (final.server.linesOf index) read ∧
      (peer.app.alive = true → peer.Quiet session → unread = []) := by
  obtain ⟨lines, hasking, ⟨later, rfl⟩, hall⟩ := asked_lines hlib hstart hrun hpeer hsession
  let count := (final.server.linesOf index).length
  have hread := List.forall₂_take_append _ (final.server.linesOf index) later hasking.flip
  refine ⟨_, _, (List.take_append_drop count _).symm, hread.flip, fun halive hquiet ↦ ?_⟩
  have hbuffered : newline ∉ final.server.buffered index := by
    rw [Server.buffered, hobject]
    exact hquiet.requests
  have hlength := congrArg List.length (hall halive hquiet.uploaded hbuffered)
  rw [hasking.length_eq] at hlength
  exact List.drop_of_length_le (Nat.le_of_eq hlength.symm)

/-- Two clicks, one without a password, and one whose request is still on its way. -/
theorem requests_delivered_clicks :
    let typed (username pass : String) : Event :=
      .client 0 (.frame { username := text username, pass := text pass })
    let click (username pass : String) : Event :=
      .client 0 (.frame { username := text username, pass := text pass, clicked := true })
    let events : List Event := [.launch true, .accept 0, typed "ana" "", typed "ana" "pw",
      click "ana" "pw", typed "an" "pw", typed "anna" "pw", click "anna" "pw", typed "anna" "p",
      typed "anna" "", click "anna" "", .upload 0 200, .server (.readDone 0 (1, 2) {}),
      typed "anna" "x", click "anna" "x", .server (.readDone 0 (3, 4) {})]
    ∃ final peer session, Server.start JsonLib.reference {} = .ok {} ∧
      Transition.run (step JsonLib.reference) ⟨{}, []⟩ events = some final ∧
      final.peers[0]? = some peer ∧ final.server.object 0 = some session ∧
      requests JsonLib.reference 0 ⟨{}, []⟩ events =
        [(text "ana", text "pw"), (text "anna", text "pw"), (text "anna", text "x")] ∧
      (final.server.linesOf 0).length = 2 ∧
      ∃ read unread, requests JsonLib.reference 0 ⟨{}, []⟩ events = read ++ unread ∧
        Asking JsonLib.reference (final.server.linesOf 0) read ∧
        (peer.app.alive = true → peer.Quiet session → unread = []) := by
  intro typed click events
  have hend : (Transition.run (step JsonLib.reference) ⟨{}, []⟩ events).bind (fun final ↦
      final.peers[0]?.bind fun peer ↦ (final.server.object 0).map fun _ ↦
        (peer.session, (final.server.linesOf 0).length)) = some (some 0, 2) := by
    decide +kernel
  have hrequests : requests JsonLib.reference 0 ⟨{}, []⟩ events =
      [(text "ana", text "pw"), (text "anna", text "pw"), (text "anna", text "x")] := by
    decide +kernel
  obtain ⟨final, hrun, hpeers⟩ := Option.bind_eq_some_iff.mp hend
  obtain ⟨peer, hpeer, hobjects⟩ := Option.bind_eq_some_iff.mp hpeers
  obtain ⟨session, hobject, hshown⟩ := Option.map_eq_some_iff.mp hobjects
  obtain ⟨hsession, hlines⟩ := Prod.mk.inj hshown
  have hstart : Server.start JsonLib.reference {} = .ok {} := rfl
  exact ⟨final, peer, session, hstart, hrun, hpeer, hobject, hrequests, hlines,
    requests_delivered JsonLib.reference_lawful hstart hrun hpeer hsession hobject⟩

end System

end NetPixeld
