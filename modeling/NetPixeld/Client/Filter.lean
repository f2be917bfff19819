import NetPixeld.Client.Batching
import NetPixeld.Client.Dispatch
import NetPixeld.Foundation.Sequenced

/-!
# The duplicate filter

`lastSeqByType` holds, for each type, the number of messages that passed, so that a message passes
exactly when its number comes next. The verdicts of the filter over any frames are those of
`Sequenced.judge` on the messages, whatever the handlers do.
-/

namespace NetPixeld.Application

open Protocol (Message)

/-- The number of a message without its width. -/
def numberOf (msg : Message) : ℕ := msg.sequence.toNat

/-- The messages a poll loop takes from a queue, each with the verdict of the filter. -/
def pollVerdicts (app : Application) : List Message → List (Message × Bool)
  | [] => []
  | msg :: queue =>
      let polled := { app with ctx.net.recvQueue := queue }
      (msg, (filterSequence app.ctx.lastSeqByType msg).2) ::
        match polled.onMessage msg with
        | (app, .returned ()) => pollVerdicts app queue
        | _ => []

/-- The messages polled in consecutive frames, each with the verdict of the filter. -/
def verdicts (lib : JsonLib) (app : Application) :
    List (List Message × FrameInput) → List (Message × Bool)
  | [] => []
  | batch :: rest =>
      let queued := { app with ctx.net.recvQueue := app.ctx.net.recvQueue ++ batch.1 }
      queued.pollVerdicts queued.ctx.net.recvQueue ++
        match app.frame lib batch with
        | (app, .returned ()) => verdicts lib app rest
        | _ => []

/-- The counters hold how many messages of each type passed. -/
def Counts (lastSeqByType : SortedMap Bytes UInt32) (judged : List (Message × Bool)) : Prop :=
  ∀ type, (lastSeq lastSeqByType type).toNat = Sequenced.count Message.type judged type

/-! ## One message -/

/-- The two tests on 32-bit numbers ask for the next number, which does not wrap. -/
theorem filterSequence_passes (lastSeqByType : SortedMap Bytes UInt32) (msg : Message) :
    (filterSequence lastSeqByType msg).2 = true ↔
      numberOf msg = (lastSeq lastSeqByType msg.type).toNat + 1 := by
  have hbound := (lastSeq lastSeqByType msg.type).toNat_lt
  have hnumber := msg.sequence.toNat_lt
  have hsucc : (lastSeq lastSeqByType msg.type + 1).toNat =
      ((lastSeq lastSeqByType msg.type).toNat + 1) % 2 ^ 32 := UInt32.toNat_add ..
  rcases filterSequence_spec lastSeqByType msg with
    ⟨hpasses, hlt, heq, _⟩ | ⟨hdropped, hreason, _⟩
  · apply iff_of_true hpasses
    rw [UInt32.lt_iff_toNat_lt, heq, hsucc] at hlt
    rw [numberOf, heq, hsucc]
    omega
  · apply iff_of_false (by rw [hdropped]; exact Bool.false_ne_true)
    intro hnext
    rw [numberOf] at hnext
    rcases hreason with hle | hne
    · rw [UInt32.le_iff_toNat_le] at hle
      omega
    · apply hne
      apply UInt32.toNat.inj
      rw [hsucc]
      omega

/-- The filter gives the verdict of the counted messages, and counts it. -/
theorem Counts.filterSequence {lastSeqByType : SortedMap Bytes UInt32}
    {judged : List (Message × Bool)} (h : Counts lastSeqByType judged) (msg : Message) :
    judged ++ [(msg, (filterSequence lastSeqByType msg).2)] =
        Sequenced.extend Message.type numberOf judged msg ∧
      Counts (filterSequence lastSeqByType msg).1
        (Sequenced.extend Message.type numberOf judged msg) := by
  have hverdict : (Application.filterSequence lastSeqByType msg).2 =
      Sequenced.passes Message.type numberOf judged msg := by
    rw [Bool.eq_iff_iff, filterSequence_passes, h msg.type, Sequenced.passes, decide_eq_true_iff]
  refine ⟨by rw [hverdict, Sequenced.extend], fun type ↦ ?_⟩
  rw [Sequenced.extend, Sequenced.count_append_singleton, ← hverdict]
  rcases filterSequence_spec lastSeqByType msg with
    ⟨hpasses, _, _, hfiltered⟩ | ⟨hdropped, _, hfiltered⟩
  · rw [hfiltered, lastSeq_insert, hpasses]
    by_cases htype : msg.type = type
    · have hnext := (filterSequence_passes lastSeqByType msg).mp hpasses
      rw [numberOf] at hnext
      rw [if_pos htype, if_pos ⟨rfl, htype⟩, hnext, h msg.type, htype]
    · simp [htype, h type]
  · rw [hfiltered, lastSeq_insert, hdropped]
    by_cases htype : msg.type = type
    · simp [htype, h type]
    · simp [htype, h type]

/-- Whatever a handler does, the counters behind a message are those of the filter. -/
theorem lastSeqByType_onMessage (app : Application) (msg : Message) :
    (app.onMessage msg).1.ctx.lastSeqByType = (filterSequence app.ctx.lastSeqByType msg).1 := by
  rcases app.onMessage_spec msg with
    ⟨_, hmessage⟩ | ⟨_, _, next, hmessage, hnext⟩ | ⟨_, _, exception, hmessage⟩
  · rw [hmessage]
  · rw [hmessage, hnext.lastSeqByType]
  · rw [hmessage]

/-! ## Frames -/

/-- A poll loop that returns judges all its messages. -/
theorem pollVerdicts_judge {app next : Application} {queue judged : List Message}
    (hcounts : Counts app.ctx.lastSeqByType (Sequenced.judge Message.type numberOf judged))
    (hreturned : app.pollLoop queue = (next, .returned ())) :
    Sequenced.judge Message.type numberOf judged ++ app.pollVerdicts queue =
        Sequenced.judge Message.type numberOf (judged ++ queue) ∧
      Counts next.ctx.lastSeqByType
        (Sequenced.judge Message.type numberOf (judged ++ queue)) := by
  induction queue generalizing app judged with
  | nil =>
    cases hreturned
    simpa [pollVerdicts] using hcounts
  | cons msg queue ih =>
    let polled : Application := { app with ctx.net.recvQueue := queue }
    obtain ⟨hverdict, hcounts'⟩ := hcounts.filterSequence msg
    rw [← Sequenced.judge_append_singleton] at hverdict hcounts'
    cases hmessage : polled.onMessage msg with
    | mk handled outcome =>
      have hlast := lastSeqByType_onMessage polled msg
      rw [hmessage] at hlast
      rw [pollLoop, hmessage] at hreturned
      cases outcome with
      | returned _ =>
        obtain ⟨hjudged, hfinal⟩ := ih (by rw [hlast]; exact hcounts') hreturned
        rw [List.append_assoc] at hjudged hfinal
        refine ⟨?_, hfinal⟩
        rw [pollVerdicts, hmessage]
        rw [← hverdict, List.append_assoc] at hjudged
        exact hjudged
      | threw _ | died | crashed => cases hreturned

/-- A frame that returns has polled its queue. -/
theorem frame_polled {lib : JsonLib} {app next : Application} {batch : List Message × FrameInput}
    (h : app.frame lib batch = (next, .returned ())) :
    ∃ polled, ({ app with ctx.net.recvQueue := app.ctx.net.recvQueue ++ batch.1 } :
        Application).pollLoop (app.ctx.net.recvQueue ++ batch.1) = (polled, .returned ()) ∧
      next.ctx.lastSeqByType = polled.ctx.lastSeqByType ∧ next.ctx.net.recvQueue = [] := by
  rcases update_spec lib { app with
      ctx.net.recvQueue := app.ctx.net.recvQueue ++ batch.1 } batch.2 with
    ⟨_, polled, hpolled, hreturned, hupdate⟩ | ⟨_, _, _, hthrew, _⟩
  · rw [frame, hupdate] at h
    obtain ⟨_, hctx, hsent⟩ := polled.enterGame.updateScenes_spec lib batch.2
    rw [h, enterGame_ctx] at hctx hsent
    refine ⟨polled, hreturned, ?_, ?_⟩
    · rw [hctx]
    · rw [hsent.same, hpolled.net]
  · rw [frame, hthrew] at h
    cases h

/-- Frames that return judge all messages of their batches. -/
theorem verdicts_judge (lib : JsonLib) {app next : Application}
    {batches : List (List Message × FrameInput)} {judged : List Message}
    (hqueue : app.ctx.net.recvQueue = [])
    (hcounts : Counts app.ctx.lastSeqByType (Sequenced.judge Message.type numberOf judged))
    (hreturned : app.frames lib batches = (next, .returned ())) :
    Sequenced.judge Message.type numberOf judged ++ app.verdicts lib batches =
        Sequenced.judge Message.type numberOf (judged ++ (batches.map Prod.fst).flatten) ∧
      Counts next.ctx.lastSeqByType
        (Sequenced.judge Message.type numberOf (judged ++ (batches.map Prod.fst).flatten)) := by
  induction batches generalizing app judged with
  | nil =>
    cases hreturned
    simpa [verdicts] using hcounts
  | cons batch rest ih =>
    let queued : Application :=
      { app with ctx.net.recvQueue := app.ctx.net.recvQueue ++ batch.1 }
    cases hframe : app.frame lib batch with
    | mk shown outcome =>
      rw [frames, hframe] at hreturned
      cases outcome with
      | returned _ =>
        obtain ⟨polled, hpolled, hlast, hempty⟩ := frame_polled hframe
        have hqueued : Counts queued.ctx.lastSeqByType _ := hcounts
        obtain ⟨hjudged, hcounts'⟩ := pollVerdicts_judge hqueued hpolled
        rw [hqueue, List.nil_append] at hjudged hcounts'
        obtain ⟨hrest, hfinal⟩ := ih hempty (by rw [hlast]; exact hcounts') hreturned
        rw [List.map_cons, List.flatten_cons, ← List.append_assoc]
        refine ⟨?_, hfinal⟩
        have hverdicts : app.verdicts lib (batch :: rest) =
            queued.pollVerdicts batch.1 ++ shown.verdicts lib rest := by
          rw [verdicts, hframe]
          simp only [queued, hqueue, List.nil_append]
        rw [hverdicts, ← List.append_assoc, hjudged]
        exact hrest
      | threw _ | died | crashed => cases hreturned

/-! ## The filter over a run -/

/-- However messages are spread over frames that return, a message passes exactly when its number is
one more than the number of messages of its type that passed before it, and the counters end with
the numbers of messages that passed. The messages of one type that pass are numbered from one
without a gap, no wrapped number is among them, and messages of other types have no part in which
of them pass. -/
theorem frames_exactlyOnce (lib : JsonLib) {app final : Application}
    {batches : List (List Message × FrameInput)}
    (hempty : app.ctx.lastSeqByType = ∅) (hqueue : app.ctx.net.recvQueue = [])
    (hreturned : app.frames lib batches = (final, .returned ())) :
    let judged := app.verdicts lib batches
    judged.map Prod.fst = (batches.map Prod.fst).flatten ∧
      (∀ type, ((Sequenced.restrict Message.type type judged).filter Prod.snd).map (fun verdict ↦
        numberOf verdict.1) = List.range' 1 (Sequenced.count Message.type judged type)) ∧
      (∀ before msg passes after, judged = before ++ (msg, passes) :: after →
        (passes = true ↔
          msg.sequence.toNat = Sequenced.count Message.type before msg.type + 1)) ∧
      (∀ type, (lastSeq final.ctx.lastSeqByType type).toNat =
        Sequenced.count Message.type judged type) ∧
      (∀ type, Sequenced.restrict Message.type type judged =
        Sequenced.judge Message.type numberOf
          ((batches.map Prod.fst).flatten.filter fun msg ↦ msg.type = type)) ∧
      ∀ msg, (msg, true) ∈ judged → msg.sequence ≠ 0 := by
  have hcounts : Counts app.ctx.lastSeqByType (Sequenced.judge Message.type numberOf []) := by
    intro type
    rw [hempty]
    rfl
  obtain ⟨hjudged, hfinal⟩ := verdicts_judge lib hqueue hcounts hreturned
  change app.verdicts lib batches = _ at hjudged
  rw [List.nil_append] at hjudged hfinal
  have hpasses : ∀ before msg passes after,
      app.verdicts lib batches = before ++ (msg, passes) :: after →
      (passes = true ↔
        msg.sequence.toNat = Sequenced.count Message.type before msg.type + 1) := by
    intro before msg passes after hsplit
    rw [Sequenced.judge_verdict Message.type numberOf (hjudged.symm.trans hsplit),
      Sequenced.passes, decide_eq_true_iff]
    rfl
  refine ⟨?_, fun type ↦ ?_, hpasses, fun type ↦ ?_, fun type ↦ ?_, fun msg hmsg hzero ↦ ?_⟩
  · rw [hjudged, Sequenced.map_fst_judge]
  · rw [hjudged, Sequenced.numbers_judge]
  · rw [hjudged, hfinal type]
  · rw [hjudged, Sequenced.restrict_judge]
  · obtain ⟨before, after, hsplit⟩ := List.append_of_mem hmsg
    have hnumber := (hpasses before msg true after hsplit).mp rfl
    rw [hzero] at hnumber
    exact absurd hnumber (Nat.succ_ne_zero _).symm

/-- A duplicate, a gap and another type, in two frames: two messages of the first type pass. -/
theorem frames_exactlyOnce_gap :
    let judged := (start true).verdicts JsonLib.reference
      [([⟨text "x", 1, .null⟩, ⟨text "y", 1, .null⟩, ⟨text "x", 1, .null⟩], {}),
        ([⟨text "x", 3, .null⟩, ⟨text "x", 2, .null⟩], {})]
    ((Sequenced.restrict Message.type (text "x") judged).filter Prod.snd).map (fun verdict ↦
      numberOf verdict.1) = [1, 2] := by
  have hspec := @frames_exactlyOnce JsonLib.reference (start true) _
    [([⟨text "x", 1, .null⟩, ⟨text "y", 1, .null⟩, ⟨text "x", 1, .null⟩], {}),
      ([⟨text "x", 3, .null⟩, ⟨text "x", 2, .null⟩], {})] rfl rfl
    (Prod.ext rfl (by decide +kernel))
  exact (hspec.2.1 (text "x")).trans (by decide +kernel)

end NetPixeld.Application
