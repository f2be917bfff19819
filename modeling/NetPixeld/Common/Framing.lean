import NetPixeld.Common.Protocol
import NetPixeld.Foundation.Lines

/-!
# Messages on a byte stream

Server and client read the same way: up to the next newline, without a carriage return before it,
and then the line is parsed. A line that does not parse is skipped. The messages read from a stream
of serialized messages are those messages, however the stream is cut into segments.
-/

namespace NetPixeld.Protocol

/-- `if (!line.empty() && line.back() == '\r') line.pop_back();` -/
def stripReturn (line : Bytes) : Bytes :=
  if line.getLast? = some carriageReturn then line.dropLast else line

/-- The message of one line of the stream, without its newline. -/
def readLine (lib : JsonLib) (line : Bytes) : Except Exn Message :=
  Message.parse lib (stripReturn line)

/-- Append the message of a line to those delivered so far. -/
def deliver (lib : JsonLib) (delivered : List Message) (line : Bytes) : List Message :=
  match readLine lib line with
  | .ok message => delivered ++ [message]
  | .error _ => delivered

/-- How a sender ends its lines. -/
inductive LineEnd where
  | lf
  | crlf
deriving DecidableEq

/-- A serialized message with this line end in place of its newline. -/
def LineEnd.finish : LineEnd → Bytes → Bytes
  | .lf, serialized => serialized
  | .crlf, serialized => serialized.dropLast ++ [carriageReturn, newline]

/-- The text of a message on the wire, with either line end. -/
def encode (lib : JsonLib) (message : Message) (ending : LineEnd) : Except Exn Bytes :=
  (message.serialize lib).map ending.finish

/-- The beginning of the text of a message, without its end. -/
def Incomplete (lib : JsonLib) (bytes : Bytes) : Prop :=
  ∃ message ending encoded, message.WellFormed ∧ encode lib message ending = .ok encoded ∧
    bytes <+: encoded ∧ bytes ≠ encoded

/-! ## One line -/

theorem stripReturn_of_printable {line : Bytes} (h : Printable line) : stripReturn line = line := by
  unfold stripReturn
  split
  · next hlast => exact absurd (List.mem_of_getLast? hlast) h.carriageReturn_notMem
  · rfl

theorem stripReturn_append (line : Bytes) : stripReturn (line ++ [carriageReturn]) = line := by
  simp [stripReturn]

theorem encode_ok (lib : JsonLib) {message : Message} (h : message.WellFormed)
    (ending : LineEnd) : ∃ encoded, encode lib message ending = .ok encoded := by
  obtain ⟨serialized, hserialized⟩ := Message.serialize_ok lib h
  exact ⟨_, map_eq_ok.mpr ⟨serialized, hserialized, rfl⟩⟩

/-- A message on the wire is a record without newline that is read back as the message. -/
theorem encode_line {lib : JsonLib} (hlib : lib.Lawful) {message : Message}
    (h : message.WellFormed) {ending : LineEnd} {encoded : Bytes}
    (hencoded : encode lib message ending = .ok encoded) :
    ∃ line, encoded = line ++ [newline] ∧ newline ∉ line ∧ readLine lib line = .ok message := by
  obtain ⟨serialized, hserialized, hending⟩ := map_eq_ok.mp hencoded
  obtain ⟨line, rfl, hprintable, hparse⟩ := Message.serialize_line hlib h hserialized
  cases ending with
  | lf =>
    refine ⟨line, hending.symm, hprintable.newline_notMem, ?_⟩
    rw [readLine, stripReturn_of_printable hprintable, hparse]
  | crlf =>
    refine ⟨line ++ [carriageReturn], ?_, ?_, ?_⟩
    · rw [← hending, LineEnd.finish, List.dropLast_concat, List.append_assoc]
      rfl
    · intro hmem
      rcases List.mem_append.mp hmem with hmem | hmem
      · exact hprintable.newline_notMem hmem
      · exact absurd hmem (by decide)
    · rw [readLine, stripReturn_append, hparse]

/-- A message whose newline is still missing. -/
theorem incomplete_dropLast {lib : JsonLib} (hlib : lib.Lawful) {message : Message}
    (h : message.WellFormed) {ending : LineEnd} {encoded : Bytes}
    (hencoded : encode lib message ending = .ok encoded) : Incomplete lib encoded.dropLast := by
  obtain ⟨line, rfl, _⟩ := encode_line hlib h hencoded
  refine ⟨message, ending, _, h, hencoded, ?_, ?_⟩
  · rw [List.dropLast_concat]
    exact List.prefix_append line [newline]
  · simp

theorem newline_notMem_of_incomplete {lib : JsonLib} (hlib : lib.Lawful) {bytes : Bytes}
    (h : Incomplete lib bytes) : newline ∉ bytes := by
  obtain ⟨message, ending, encoded, hmessage, hencoded, ⟨rest, hrest⟩, hne⟩ := h
  obtain ⟨line, rfl, hline, _⟩ := encode_line hlib hmessage hencoded
  rcases List.eq_nil_or_concat rest with rfl | ⟨middle, last, rfl⟩
  · exact absurd (by simpa using hrest) hne
  · rw [List.concat_eq_append, ← List.append_assoc] at hrest
    have hbegins := (List.append_inj' hrest rfl).1
    intro hmem
    exact hline (hbegins ▸ List.mem_append_left middle hmem)

/-! ## The stream -/

/-- The records of a list of messages on the wire. -/
theorem records_of_encoded {lib : JsonLib} (hlib : lib.Lawful)
    {entries : List (Message × LineEnd)} {texts : List Bytes}
    (hentries : ∀ entry ∈ entries, entry.1.WellFormed)
    (h : List.Forall₂ (fun entry encoded ↦ encode lib entry.1 entry.2 = .ok encoded) entries
      texts) :
    ∃ lines : List Bytes, texts = lines.map (fun line ↦ line ++ [newline]) ∧
      (∀ line ∈ lines, newline ∉ line) ∧
      ∀ delivered, lines.foldl (deliver lib) delivered = delivered ++ entries.map Prod.fst := by
  induction h with
  | nil =>
    refine ⟨[], rfl, ?_, fun delivered ↦ by simp⟩
    intro line hline
    cases hline
  | @cons entry encoded entries texts hencoded _ ih =>
    obtain ⟨line, rfl, hnewline, hread⟩ :=
      encode_line hlib (hentries entry (List.mem_cons_self ..)) hencoded
    obtain ⟨lines, rfl, hlines, hfold⟩ :=
      ih fun other hother ↦ hentries other (List.mem_cons_of_mem _ hother)
    refine ⟨line :: lines, rfl, ?_, fun delivered ↦ ?_⟩
    · intro other hother
      rcases List.mem_cons.mp hother with rfl | hother
      · exact hnewline
      · exact hlines other hother
    · have hdeliver : deliver lib delivered line = delivered ++ [entry.1] := by
        rw [deliver, hread]
      rw [List.foldl_cons, hdeliver, hfold, List.append_assoc]
      rfl

/-- Reading a stream in segments delivers the complete messages in it, once each and in order. -/
theorem readLoop_deliver {lib : JsonLib} (hlib : lib.Lawful)
    {entries : List (Message × LineEnd)} {texts : List Bytes}
    (hentries : ∀ entry ∈ entries, entry.1.WellFormed)
    (htexts : List.Forall₂ (fun entry encoded ↦ encode lib entry.1 entry.2 = .ok encoded) entries
      texts)
    {incomplete : Bytes} (hincomplete : newline ∉ incomplete) {segments : List Bytes}
    (hsegments : segments.flatten = texts.flatten ++ incomplete) (delivered : List Message) :
    Lines.readLoop newline (deliver lib) delivered [] segments =
      (delivered ++ entries.map Prod.fst, incomplete) := by
  obtain ⟨lines, rfl, hlines, hfold⟩ := records_of_encoded hlib hentries htexts
  rw [Lines.readLoop_eq_drain, List.nil_append, hsegments,
    Lines.drain_records delivered hlines hincomplete, hfold]

end NetPixeld.Protocol
