import NetPixeld.Foundation.Transition

/-!
# Delimited records over a stream that arrives in pieces

A reader keeps a buffer. It takes a record whenever the buffer holds a delimiter and otherwise waits
for the next segment. How the stream is cut into segments does not matter: the records handled and
the bytes left over are those of the whole stream.
-/

namespace NetPixeld.Lines

variable {α σ : Type} [DecidableEq α] (delimiter : α)

/-- The record before the first delimiter and everything behind it. -/
def cut : List α → Option (List α × List α)
  | [] => none
  | item :: rest =>
      if item = delimiter then some ([], rest)
      else (cut rest).map fun parts ↦ (item :: parts.1, parts.2)

variable {delimiter}

theorem cut_eq_some {buffer record rest : List α} (h : cut delimiter buffer = some (record, rest)) :
    buffer = record ++ delimiter :: rest ∧ delimiter ∉ record := by
  induction buffer generalizing record rest with
  | nil => cases h
  | cons item buffer ih =>
    simp only [cut] at h
    split at h
    · next hitem =>
      cases h
      exact ⟨by rw [hitem]; rfl, List.not_mem_nil⟩
    · next hitem =>
      obtain ⟨⟨record', rest'⟩, hcut, hparts⟩ := Option.map_eq_some_iff.mp h
      cases hparts
      obtain ⟨hbuffer, hrecord⟩ := ih hcut
      refine ⟨by rw [hbuffer]; rfl, ?_⟩
      simp only [List.mem_cons, not_or]
      exact ⟨fun heq ↦ hitem heq.symm, hrecord⟩

theorem cut_eq_none {buffer : List α} : cut delimiter buffer = none ↔ delimiter ∉ buffer := by
  induction buffer with
  | nil => simp [cut]
  | cons item buffer ih =>
    simp only [cut]
    split
    · next hitem => simp [hitem]
    · next hitem =>
      rw [Option.map_eq_none_iff, ih, List.mem_cons, not_or]
      exact ⟨fun h ↦ ⟨fun heq ↦ hitem heq.symm, h⟩, fun h ↦ h.2⟩

/-- A record free of the delimiter is cut off exactly. -/
theorem cut_append {record : List α} (h : delimiter ∉ record) (rest : List α) :
    cut delimiter (record ++ delimiter :: rest) = some (record, rest) := by
  induction record with
  | nil => simp [cut]
  | cons item record ih =>
    simp only [List.mem_cons, not_or] at h
    simp only [List.cons_append, cut, if_neg (Ne.symm h.1), ih h.2, Option.map_some]

theorem cut_append_right {buffer record rest : List α}
    (h : cut delimiter buffer = some (record, rest)) (more : List α) :
    cut delimiter (buffer ++ more) = some (record, rest ++ more) := by
  obtain ⟨rfl, hrecord⟩ := cut_eq_some h
  simpa using cut_append hrecord (rest ++ more)

theorem length_lt_of_cut {buffer record rest : List α}
    (h : cut delimiter buffer = some (record, rest)) : rest.length < buffer.length := by
  obtain ⟨rfl, _⟩ := cut_eq_some h
  simp only [List.length_append, List.length_cons]
  omega

variable (delimiter) (handle : σ → List α → σ)

/-- Handle every complete record of a buffer; the rest stays. -/
def drain (state : σ) (buffer : List α) : σ × List α :=
  match hcut : cut delimiter buffer with
  | none => (state, buffer)
  | some (record, rest) =>
      have := length_lt_of_cut hcut
      drain (handle state record) rest
termination_by buffer.length

/-- Read segments until the stream ends, handling each record as soon as it is complete. -/
def readLoop (state : σ) (buffer : List α) : List (List α) → σ × List α
  | [] => drain delimiter handle state buffer
  | segment :: segments =>
      let drained := drain delimiter handle state buffer
      readLoop drained.1 (drained.2 ++ segment) segments

variable {delimiter handle}

theorem drain_of_cut {state : σ} {buffer record rest : List α}
    (h : cut delimiter buffer = some (record, rest)) :
    drain delimiter handle state buffer = drain delimiter handle (handle state record) rest := by
  rw [drain]
  split
  · next hnone => rw [hnone] at h; cases h
  · next hsome => rw [hsome] at h; cases h; rfl

theorem drain_of_notMem {state : σ} {buffer : List α} (h : delimiter ∉ buffer) :
    drain delimiter handle state buffer = (state, buffer) := by
  rw [drain]
  split
  · rfl
  · next hsome =>
    rw [cut_eq_none.mpr h] at hsome
    cases hsome

/-- Draining before more input arrives changes nothing. -/
theorem drain_append (state : σ) (buffer more : List α) :
    drain delimiter handle state (buffer ++ more) =
      drain delimiter handle (drain delimiter handle state buffer).1
        ((drain delimiter handle state buffer).2 ++ more) := by
  induction state, buffer using drain.induct delimiter handle with
  | case1 state buffer hcut => rw [drain_of_notMem (cut_eq_none.mp hcut)]
  | case2 state buffer record rest hcut _ ih =>
    rw [drain_of_cut hcut, drain_of_cut (cut_append_right hcut more)]
    exact ih

/-- The segmentation of the stream is irrelevant. -/
theorem readLoop_eq_drain (state : σ) (buffer : List α) (segments : List (List α)) :
    readLoop delimiter handle state buffer segments =
      drain delimiter handle state (buffer ++ segments.flatten) := by
  induction segments generalizing state buffer with
  | nil => simp [readLoop]
  | cons segment segments ih =>
    rw [readLoop, ih, List.append_assoc]
    exact (drain_append state buffer (segment ++ segments.flatten)).symm

/-- A stream of terminated records followed by an incomplete one. -/
theorem drain_records (state : σ) {records : List (List α)} {incomplete : List α}
    (hrecords : ∀ record ∈ records, delimiter ∉ record) (hincomplete : delimiter ∉ incomplete) :
    drain delimiter handle state
        ((records.map fun record ↦ record ++ [delimiter]).flatten ++ incomplete) =
      (records.foldl handle state, incomplete) := by
  induction records generalizing state with
  | nil => exact drain_of_notMem hincomplete
  | cons record records ih =>
    have hcut := cut_append (hrecords record (List.mem_cons_self ..))
      ((records.map fun record ↦ record ++ [delimiter]).flatten ++ incomplete)
    have hrest := ih (handle state record) fun other hother ↦
      hrecords other (List.mem_cons_of_mem _ hother)
    calc
      _ = drain delimiter handle state (record ++ delimiter ::
            ((records.map fun record ↦ record ++ [delimiter]).flatten ++ incomplete)) := by
        simp
      _ = _ := (drain_of_cut hcut).trans hrest

/-- Records that were read from the beginning of a stream are the first records of the stream. -/
theorem prefix_of_terminated {records read : List (List α)} {incomplete : List α}
    (hrecords : ∀ record ∈ records, delimiter ∉ record)
    (hread : ∀ record ∈ read, delimiter ∉ record)
    (h : read.flatMap (fun record ↦ record ++ [delimiter]) ++ incomplete <+:
      records.flatMap fun record ↦ record ++ [delimiter]) : read <+: records := by
  induction read generalizing records with
  | nil => exact List.nil_prefix
  | cons first read ih =>
    obtain ⟨more, hmore⟩ := h
    cases records with
    | nil => simp at hmore
    | cons record records =>
      have hfirst := cut_append (hread first (List.mem_cons_self ..))
        (read.flatMap (fun record ↦ record ++ [delimiter]) ++ incomplete ++ more)
      have hrecord := cut_append (hrecords record (List.mem_cons_self ..))
        (records.flatMap fun record ↦ record ++ [delimiter])
      simp only [List.flatMap_cons, List.append_assoc, List.cons_append, List.nil_append]
        at hmore hfirst
      rw [hmore, hrecord] at hfirst
      obtain ⟨rfl, hrest⟩ := Prod.mk.inj (Option.some.inj hfirst)
      rw [List.cons_prefix_cons]
      refine ⟨rfl, ih (fun other hother ↦ hrecords other (List.mem_cons_of_mem _ hother))
        (fun other hother ↦ hread other (List.mem_cons_of_mem _ hother)) ⟨more, ?_⟩⟩
      rw [hrest, List.append_assoc]

/-- All of them, where nothing but a part of a record is left. -/
theorem eq_of_terminated {records read : List (List α)} {incomplete : List α}
    (hrecords : ∀ record ∈ records, delimiter ∉ record)
    (hread : ∀ record ∈ read, delimiter ∉ record)
    (hincomplete : delimiter ∉ incomplete)
    (h : read.flatMap (fun record ↦ record ++ [delimiter]) ++ incomplete =
      records.flatMap fun record ↦ record ++ [delimiter]) : read = records := by
  obtain ⟨later, rfl⟩ := prefix_of_terminated hrecords hread ⟨[], by rw [h, List.append_nil]⟩
  cases later with
  | nil => rw [List.append_nil]
  | cons record later =>
    rw [List.flatMap_append, List.append_cancel_left_eq] at h
    refine absurd ?_ hincomplete
    rw [h]
    simp

/-! ## A reader that takes steps -/

/-- What a reader does: a segment arrives, or a complete record is handled. -/
inductive ReadEvent (α : Type) where
  | receive (segment : List α)
  | takeRecord

/-- The segments that arrive. -/
def segmentsOf : List (ReadEvent α) → List (List α)
  | [] => []
  | .receive segment :: events => segment :: segmentsOf events
  | .takeRecord :: events => segmentsOf events

variable (delimiter handle)

/-- A segment is read only while no record is complete. -/
def step (state : σ × List α) : ReadEvent α → Option (σ × List α)
  | .receive segment =>
      if delimiter ∈ state.2 then none else some (state.1, state.2 ++ segment)
  | .takeRecord => (cut delimiter state.2).map fun parts ↦ (handle state.1 parts.1, parts.2)

variable {delimiter handle}

omit [DecidableEq α] in
@[simp]
theorem segmentsOf_append (first second : List (ReadEvent α)) :
    segmentsOf (first ++ second) = segmentsOf first ++ segmentsOf second := by
  induction first with
  | nil => rfl
  | cons event first ih => cases event <;> simp [segmentsOf, ih]

/-- Along a run the records still to come are those of the rest of the stream. -/
theorem drain_run {state final : σ × List α} {events : List (ReadEvent α)}
    (hrun : Transition.run (step delimiter handle) state events = some final) :
    drain delimiter handle state.1 (state.2 ++ (segmentsOf events).flatten) =
      drain delimiter handle final.1 final.2 := by
  induction events generalizing state with
  | nil =>
    cases hrun
    simp [segmentsOf]
  | cons event events ih =>
    obtain ⟨next, hnext, hrest⟩ := Transition.run_cons_eq_some.mp hrun
    cases event with
    | receive segment =>
      simp only [step] at hnext
      split at hnext
      · cases hnext
      · cases hnext
        rw [← ih hrest]
        simp [segmentsOf]
    | takeRecord =>
      obtain ⟨parts, hcut, hparts⟩ := Option.map_eq_some_iff.mp hnext
      cases hparts
      rw [← ih hrest]
      exact drain_of_cut (cut_append_right hcut _)

variable (handle) in
/-- A reader handles the records of its buffer one after the other. -/
theorem exists_run_drain (state : σ) (buffer : List α) :
    ∃ events, segmentsOf events = [] ∧
      Transition.run (step delimiter handle) (state, buffer) events =
        some (drain delimiter handle state buffer) := by
  induction state, buffer using drain.induct delimiter handle with
  | case1 state buffer hcut =>
    exact ⟨[], rfl, by rw [drain_of_notMem (cut_eq_none.mp hcut)]; rfl⟩
  | case2 state buffer record rest hcut _ ih =>
    obtain ⟨events, hsegments, hrun⟩ := ih
    refine ⟨.takeRecord :: events, hsegments, ?_⟩
    rw [drain_of_cut hcut]
    exact Transition.run_cons_eq_some.mpr ⟨_, by rw [step, hcut]; rfl, hrun⟩

theorem notMem_drain (state : σ) (buffer : List α) :
    delimiter ∉ (drain delimiter handle state buffer).2 := by
  induction state, buffer using drain.induct delimiter handle with
  | case1 state buffer hcut =>
    rw [drain_of_notMem (cut_eq_none.mp hcut)]
    exact cut_eq_none.mp hcut
  | case2 state buffer record rest hcut _ ih =>
    rw [drain_of_cut hcut]
    exact ih

variable (handle) in
/-- Every way of cutting the stream into segments can be read to its end. -/
theorem exists_run (state : σ) (buffer : List α) (segments : List (List α)) :
    ∃ events, segmentsOf events = segments ∧
      Transition.run (step delimiter handle) (state, buffer) events =
        some (readLoop delimiter handle state buffer segments) := by
  induction segments generalizing state buffer with
  | nil => exact exists_run_drain handle state buffer
  | cons segment segments ih =>
    obtain ⟨before, hbefore, hdrained⟩ := exists_run_drain handle state buffer
    obtain ⟨after, hafter, hrun⟩ := ih (drain delimiter handle state buffer).1
      ((drain delimiter handle state buffer).2 ++ segment)
    refine ⟨before ++ .receive segment :: after, by simp [segmentsOf, hbefore, hafter], ?_⟩
    refine Transition.run_append_eq_some.mpr ⟨_, hdrained,
      Transition.run_cons_eq_some.mpr ⟨_, ?_, hrun⟩⟩
    exact if_neg (notMem_drain state buffer)

end NetPixeld.Lines
