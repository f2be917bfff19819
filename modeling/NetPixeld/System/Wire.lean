import NetPixeld.Client.NetworkClient
import NetPixeld.Json.Reference
import NetPixeld.Server.Session

/-!
# Messages across the wire

The reading loops of the two sides as step functions: a segment arrives, or a line is taken out of
the buffer and its message delivered. Whatever the segments, each loop delivers exactly the complete
messages of the stream.
-/

namespace NetPixeld

/-- The read chain of a session, with the messages given to `m_onMessage` so far. -/
def Session.readStep (lib : JsonLib) (state : Session × List Protocol.Message) :
    Lines.ReadEvent UInt8 → Option (Session × List Protocol.Message)
  | .receive segment => (state.1.receive segment).map fun next ↦ (next, state.2)
  | .takeRecord => state.1.takeLine.map fun taken ↦
      (taken.2, Protocol.deliver lib state.2 taken.1)

/-- The receiving thread of the client. -/
def NetworkClient.readStep (lib : JsonLib) (net : NetworkClient) :
    Lines.ReadEvent UInt8 → Option NetworkClient
  | .receive segment => net.receive segment
  | .takeRecord => net.takeLine lib

namespace Wire

/-- A reading loop can read a stream that arrives in these segments to its end, and has then
delivered exactly these messages. -/
def Delivers {σ : Type} (step : σ → Lines.ReadEvent UInt8 → Option σ) (buffer : σ → Bytes)
    (delivered : σ → List Protocol.Message) (state : σ) (segments : List Bytes)
    (messages : List Protocol.Message) : Prop :=
  (∃ events final, Lines.segmentsOf events = segments ∧
    Transition.run step state events = some final ∧ newline ∉ buffer final) ∧
  ∀ events final, Lines.segmentsOf events = segments →
    Transition.run step state events = some final → newline ∉ buffer final →
    delivered final = messages

/-- A loop that reads line by line delivers what the abstract reader handles. -/
theorem delivers_of_view {σ : Type} {step : σ → Lines.ReadEvent UInt8 → Option σ}
    {buffer : σ → Bytes} {delivered : σ → List Protocol.Message} {lib : JsonLib}
    {invariant : σ → Prop}
    (hview : ∀ {state event}, invariant state →
      (step state event).map (fun next ↦ (delivered next, buffer next)) =
        Lines.step newline (Protocol.deliver lib) (delivered state, buffer state) event)
    (hstep : ∀ {state event next}, invariant state → step state event = some next →
      invariant next)
    {state : σ} (hinit : invariant state) {segments : List Bytes}
    {messages : List Protocol.Message} {incomplete : Bytes}
    (hread : Lines.readLoop newline (Protocol.deliver lib) (delivered state) (buffer state)
      segments = (messages, incomplete))
    (hincomplete : newline ∉ incomplete) :
    Delivers step buffer delivered state segments messages := by
  have hrun := Transition.run_map hview hstep hinit
  constructor
  · obtain ⟨events, hsegments, hevents⟩ :=
      Lines.exists_run (Protocol.deliver lib) (delivered state) (buffer state) segments
    rw [hread, ← hrun events] at hevents
    obtain ⟨final, hfinal, hviewed⟩ := Option.map_eq_some_iff.mp hevents
    refine ⟨events, final, hsegments, hfinal, ?_⟩
    rw [(Prod.mk.inj hviewed).2]
    exact hincomplete
  · intro events final hsegments hfinal hcomplete
    have hviewed := hrun events
    rw [hfinal] at hviewed
    have hdrained := Lines.drain_run hviewed.symm
    rw [hsegments, ← Lines.readLoop_eq_drain, hread, Lines.drain_of_notMem hcomplete] at hdrained
    exact (Prod.mk.inj hdrained).1.symm

/-! ## The two loops -/

theorem session_view {lib : JsonLib} {state : Session × List Protocol.Message}
    {event : Lines.ReadEvent UInt8} (h : state.1.reading = true) :
    (Session.readStep lib state event).map (fun next ↦ (next.2, next.1.incoming)) =
      Lines.step newline (Protocol.deliver lib) (state.2, state.1.incoming) event := by
  cases event with
  | receive segment =>
    simp only [Session.readStep, Session.receive, Lines.step, h, true_and]
    split <;> simp_all
  | takeRecord => simp [Session.readStep, Session.takeLine, Lines.step, h, Function.comp_def]

theorem session_reading {lib : JsonLib} {state next : Session × List Protocol.Message}
    {event : Lines.ReadEvent UInt8} (h : state.1.reading = true)
    (hstep : Session.readStep lib state event = some next) : next.1.reading = true := by
  cases event with
  | receive segment =>
    obtain ⟨after, hafter, rfl⟩ := Option.map_eq_some_iff.mp hstep
    simp only [Session.receive] at hafter
    split at hafter
    · cases hafter
      exact h
    · cases hafter
  | takeRecord =>
    obtain ⟨taken, htaken, rfl⟩ := Option.map_eq_some_iff.mp hstep
    simp only [Session.takeLine, if_pos h] at htaken
    obtain ⟨parts, _, rfl⟩ := Option.map_eq_some_iff.mp htaken
    exact h

theorem client_view {lib : JsonLib} {net : NetworkClient} {event : Lines.ReadEvent UInt8}
    (h : net.running = true) :
    (net.readStep lib event).map (fun next ↦ (next.recvQueue, next.incoming)) =
      Lines.step newline (Protocol.deliver lib) (net.recvQueue, net.incoming) event := by
  cases event with
  | receive segment =>
    simp only [NetworkClient.readStep, NetworkClient.receive, Lines.step, h, true_and]
    split <;> simp_all
  | takeRecord =>
    simp [NetworkClient.readStep, NetworkClient.takeLine, Lines.step, h, Function.comp_def]

theorem client_running {lib : JsonLib} {net next : NetworkClient} {event : Lines.ReadEvent UInt8}
    (h : net.running = true) (hstep : net.readStep lib event = some next) :
    next.running = true := by
  cases event with
  | receive segment =>
    simp only [NetworkClient.readStep, NetworkClient.receive] at hstep
    split at hstep
    · cases hstep
      exact h
    · cases hstep
  | takeRecord =>
    simp only [NetworkClient.readStep, NetworkClient.takeLine, if_pos h] at hstep
    obtain ⟨parts, _, rfl⟩ := Option.map_eq_some_iff.mp hstep
    exact h

/-! ## The round trip -/

/-- However the texts of some messages, and possibly the beginning of one more, are cut into
segments, both loops deliver exactly the complete messages, in order. -/
theorem round_trip {lib : JsonLib} (hlib : lib.Lawful)
    {entries : List (Protocol.Message × Protocol.LineEnd)} {texts : List Bytes}
    (hentries : ∀ entry ∈ entries, entry.1.WellFormed)
    (htexts : List.Forall₂
      (fun entry encoded ↦ Protocol.encode lib entry.1 entry.2 = .ok encoded) entries texts)
    {incomplete : Bytes} (hincomplete : incomplete = [] ∨ Protocol.Incomplete lib incomplete)
    {segments : List Bytes} (hsegments : segments.flatten = texts.flatten ++ incomplete)
    (clientId : UInt8) :
    Delivers (Session.readStep lib) (fun state ↦ state.1.incoming) Prod.snd
        (({ clientId := clientId } : Session).start, []) segments (entries.map Prod.fst) ∧
      Delivers (NetworkClient.readStep lib) NetworkClient.incoming NetworkClient.recvQueue
        (.connect true) segments (entries.map Prod.fst) := by
  have hnewline : newline ∉ incomplete := by
    rcases hincomplete with rfl | hincomplete
    · exact List.not_mem_nil
    · exact Protocol.newline_notMem_of_incomplete hlib hincomplete
  have hread := Protocol.readLoop_deliver hlib hentries htexts hnewline hsegments []
  exact ⟨delivers_of_view session_view session_reading rfl hread hnewline,
    delivers_of_view client_view client_running rfl hread hnewline⟩

/-- A password with a line break, ended by CR LF and cut into two segments, the second of which goes
on with the next message up to its newline. -/
theorem round_trip_crlf :
    ∃ first second, Protocol.encode JsonLib.reference
        (Protocol.loginRequest (text "ana") (text "a\r\nb")) .crlf = .ok first ∧
      Protocol.encode JsonLib.reference (Protocol.loginResult (text "u")) .lf = .ok second ∧
      Delivers (Session.readStep JsonLib.reference) (fun state ↦ state.1.incoming) Prod.snd
        (({ clientId := 1 } : Session).start, []) [first.take 9, first.drop 9 ++ second.dropLast]
        [Protocol.loginRequest (text "ana") (text "a\r\nb")] ∧
      Delivers (NetworkClient.readStep JsonLib.reference) NetworkClient.incoming
        NetworkClient.recvQueue (.connect true) [first.take 9, first.drop 9 ++ second.dropLast]
        [Protocol.loginRequest (text "ana") (text "a\r\nb")] := by
  have hrequest : (Protocol.loginRequest (text "ana") (text "a\r\nb")).WellFormed :=
    Protocol.wellFormed_loginRequest (Utf8.valid_text (by decide)) (Utf8.valid_text (by decide))
  have hresult : (Protocol.loginResult (text "u")).WellFormed :=
    Protocol.wellFormed_loginResult (Utf8.valid_text (by decide))
  obtain ⟨first, hfirst⟩ := Protocol.encode_ok JsonLib.reference hrequest .crlf
  obtain ⟨second, hsecond⟩ := Protocol.encode_ok JsonLib.reference hresult .lf
  have hentries : ∀ entry ∈ [(Protocol.loginRequest (text "ana") (text "a\r\nb"),
      Protocol.LineEnd.crlf)], entry.1.WellFormed :=
    List.forall_mem_singleton.mpr hrequest
  have hincomplete := Protocol.incomplete_dropLast JsonLib.reference_lawful hresult hsecond
  have hsegments : [first.take 9, first.drop 9 ++ second.dropLast].flatten =
      [first].flatten ++ second.dropLast := by
    simp [← List.append_assoc]
  have htrip := round_trip JsonLib.reference_lawful hentries (.cons hfirst .nil)
    (Or.inr hincomplete) hsegments 1
  exact ⟨first, second, hfirst, hsecond, htrip⟩

end Wire

end NetPixeld
