import NetPixeld.Client.Process
import NetPixeld.System.Announcements

/-!
# Clients and server together

A system is a server and any number of clients, each with the session object that its connection got
when the server accepted it. Bytes arrive on either side in the order in which they were written,
after any delay and in any pieces. Other programs can be connected as well and send what they like.
-/

namespace NetPixeld

/-- The bytes of the writes that were started, in order. -/
def Session.wire (session : Session) : Bytes :=
  (session.written ++ session.outgoing.take 1).flatMap Packet.text

/-- A client with its session, once it is accepted, and the numbers of bytes that arrived at the
session and at the client. -/
structure Peer where
  app : Application
  session : Option ℕ := none
  uploaded : ℕ := 0
  downloaded : ℕ := 0

structure System where
  server : Server
  peers : List Peer := []

namespace System

inductive Event where
  /-- A client is started, with the outcome of its `connect`. -/
  | launch (connected : Bool)
  /-- The connection of a client is accepted. -/
  | accept (place : ℕ)
  /-- A step of the server in which no client takes part. -/
  | server (event : Server.Event)
  /-- The next bytes that a client wrote arrive at its session. -/
  | upload (place count : ℕ)
  /-- The next bytes that the server wrote arrive at a client. -/
  | download (place count : ℕ)
  /-- A step of a client in which nothing arrives. -/
  | client (place : ℕ) (event : Application.Event)

/-- What arrives at the session of a client comes from the client. -/
def foreign (system : System) : Server.Event → Bool
  | .receive index _ => system.peers.all fun peer ↦ peer.session ≠ some index
  | _ => true

def arrives : Application.Event → Bool
  | .receive _ => true
  | _ => false

/-- One step of the system, where it can happen. -/
def step (lib : JsonLib) (system : System) : Event → Option System
  | .launch connected =>
      some { system with peers := system.peers ++ [{ app := .start connected }] }
  | .accept place => do
      let peer ← system.peers[place]?
      if peer.session = none ∧ peer.app.ctx.net.connected = true then
        let server ← system.server.step lib .accept
        let accepted := { peer with session := some system.server.objects.length }
        some ⟨server, system.peers.set place accepted⟩
      else none
  | .server event =>
      if system.foreign event = true then
        (system.server.step lib event).map fun server ↦ { system with server := server }
      else none
  | .upload place count => do
      let peer ← system.peers[place]?
      let index ← peer.session
      let bytes := (peer.app.ctx.net.written.drop peer.uploaded).take count
      let server ← system.server.step lib (.receive index bytes)
      let next := { peer with uploaded := peer.uploaded + bytes.length }
      some ⟨server, system.peers.set place next⟩
  | .download place count => do
      let peer ← system.peers[place]?
      let index ← peer.session
      let session ← system.server.object index
      let bytes := (session.wire.drop peer.downloaded).take count
      let app ← peer.app.step lib (.receive bytes)
      let next := { peer with app := app, downloaded := peer.downloaded + bytes.length }
      some { system with peers := system.peers.set place next }
  | .client place event => do
      let peer ← system.peers[place]?
      if arrives event = true then none
      else
        let app ← peer.app.step lib event
        some { system with peers := system.peers.set place { peer with app := app } }

/-- The steps of a system. -/
inductive Stepped (lib : JsonLib) (system : System) : Event → System → Prop
  | launch {connected : Bool} :
      Stepped lib system (.launch connected)
        { system with peers := system.peers ++ [{ app := .start connected }] }
  | accept {place : ℕ} {peer : Peer} {server : Server}
      (hpeer : system.peers[place]? = some peer) (hsession : peer.session = none)
      (hserver : system.server.step lib .accept = some server) :
      Stepped lib system (.accept place) ⟨server,
        system.peers.set place { peer with session := some system.server.objects.length }⟩
  | server {event : Server.Event} {server : Server}
      (hserver : system.server.step lib event = some server) :
      Stepped lib system (.server event) { system with server := server }
  | upload {place count index : ℕ} {peer : Peer} {bytes : Bytes} {server : Server}
      (hpeer : system.peers[place]? = some peer)
      (hserver : system.server.step lib (.receive index bytes) = some server) :
      Stepped lib system (.upload place count) ⟨server,
        system.peers.set place { peer with uploaded := peer.uploaded + bytes.length }⟩
  | download {place count index : ℕ} {peer : Peer} {session : Session} {bytes : Bytes}
      {app : Application} (hpeer : system.peers[place]? = some peer)
      (hsession : peer.session = some index) (hobject : system.server.object index = some session)
      (hbytes : bytes = (session.wire.drop peer.downloaded).take count)
      (happ : peer.app.step lib (.receive bytes) = some app) :
      Stepped lib system (.download place count) { system with
        peers := system.peers.set place { peer with
          app := app
          downloaded := peer.downloaded + bytes.length } }
  | client {place : ℕ} {event : Application.Event} {peer : Peer} {app : Application}
      (hpeer : system.peers[place]? = some peer) (harrives : arrives event = false)
      (happ : peer.app.step lib event = some app) :
      Stepped lib system (.client place event)
        { system with peers := system.peers.set place { peer with app := app } }

theorem step_stepped {lib : JsonLib} {system next : System} {event : Event}
    (h : system.step lib event = some next) : Stepped lib system event next := by
  cases event with
  | launch connected =>
    cases h
    exact .launch
  | accept place =>
    obtain ⟨peer, hpeer, h⟩ := Option.bind_eq_some_iff.mp h
    split at h
    · next hopen =>
      obtain ⟨server, hserver, h⟩ := Option.bind_eq_some_iff.mp h
      cases h
      exact .accept hpeer hopen.1 hserver
    · cases h
  | server event =>
    simp only [step] at h
    split at h
    · obtain ⟨server, hserver, rfl⟩ := Option.map_eq_some_iff.mp h
      exact .server hserver
    · cases h
  | upload place count =>
    obtain ⟨peer, hpeer, h⟩ := Option.bind_eq_some_iff.mp h
    obtain ⟨index, _, h⟩ := Option.bind_eq_some_iff.mp h
    obtain ⟨server, hserver, h⟩ := Option.bind_eq_some_iff.mp h
    cases h
    exact .upload hpeer hserver
  | download place count =>
    obtain ⟨peer, hpeer, h⟩ := Option.bind_eq_some_iff.mp h
    obtain ⟨index, hsession, h⟩ := Option.bind_eq_some_iff.mp h
    obtain ⟨session, hobject, h⟩ := Option.bind_eq_some_iff.mp h
    obtain ⟨app, happ, h⟩ := Option.bind_eq_some_iff.mp h
    cases h
    exact .download hpeer hsession hobject rfl happ
  | client place event =>
    obtain ⟨peer, hpeer, h⟩ := Option.bind_eq_some_iff.mp h
    split at h
    · cases h
    · next harrives =>
      obtain ⟨app, happ, h⟩ := Option.bind_eq_some_iff.mp h
      cases h
      exact .client hpeer (Bool.eq_false_iff.mpr harrives) happ

/-! ## The server -/

/-- A condition on the steps of the server; the other steps meet it. -/
def OfServer (condition : Server → Server.Event → Prop) (system : System) : Event → Prop
  | .server event => condition system.server event
  | _ => True

/-- What the steps of the server keep, the steps of the system keep. -/
theorem step_server {lib : JsonLib} {system next : System} {invariant : Server → Prop}
    {condition : Server → Server.Event → Prop}
    (hkeeps : ∀ {server next event}, invariant server → condition server event →
      server.step lib event = some next → invariant next)
    (haccept : ∀ server, condition server .accept)
    (hreceive : ∀ server index bytes, condition server (.receive index bytes)) {event : Event}
    (h : invariant system.server) (hcondition : system.OfServer condition event)
    (hstep : system.step lib event = some next) : invariant next.server := by
  cases step_stepped hstep with
  | launch | download | client => exact h
  | accept _ _ hserver => exact hkeeps h (haccept _) hserver
  | upload _ hserver => exact hkeeps h (hreceive _ _ _) hserver
  | server hserver => exact hkeeps h hcondition hserver

end System

end NetPixeld
