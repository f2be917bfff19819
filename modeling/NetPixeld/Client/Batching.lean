import NetPixeld.Client.Frames
import NetPixeld.Json.Reference

/-!
# How messages are spread over frames

The same messages of the server, polled in different frames. The frame at whose end a uuid is first
known splits them: up to its end they are handled by the login scene, behind it by the game scene.
The client id, the counters of the filter and the uuid do not depend on the split, but an update
that is polled no later than this frame is dropped.
-/

namespace NetPixeld

namespace Application

/-- The messages pushed since the last frame, and the frame that polls them. -/
def frame (lib : JsonLib) (app : Application) (batch : List Protocol.Message × FrameInput) :
    Application × Outcome Unit :=
  ({ app with ctx.net.recvQueue := app.ctx.net.recvQueue ++ batch.1 } : Application).update lib
    batch.2

/-- Consecutive frames. -/
def frames (lib : JsonLib) (app : Application) :
    List (List Protocol.Message × FrameInput) → Application × Outcome Unit
  | [] => (app, .returned ())
  | batch :: rest =>
      match app.frame lib batch with
      | (app, .returned ()) => frames lib app rest
      | failed => failed

/-- How many messages are polled up to the end of the frame that ends with a uuid. -/
def loginEnd (lib : JsonLib) (app : Application) :
    List (List Protocol.Message × FrameInput) → ℕ
  | [] => 0
  | batch :: rest =>
      let next := (app.frame lib batch).1
      batch.1.length + if next.ctx.uuid = [] then loginEnd lib next rest else 0

end Application

/-- The messages up to a point handled by the login scene, and the others by the game scene. -/
def GameContext.settle (ctx : GameContext) (notices : List Notice) (split : ℕ) : GameContext :=
  (notices.drop split).foldl (GameContext.receive .game)
    ((notices.take split).foldl (GameContext.receive .login) ctx)

theorem GameContext.settle_append (ctx : GameContext) (polled later : List Notice) (split : ℕ) :
    ctx.settle (polled ++ later) (polled.length + split) =
      (polled.foldl (receive .login) ctx).settle later split := by
  simp only [settle, List.take_length_add_append, List.drop_length_add_append, List.foldl_append]

theorem GameContext.settle_net (ctx : GameContext) (net : NetworkClient) (notices : List Notice)
    (split : ℕ) :
    ({ ctx with net := net } : GameContext).settle notices split =
      { ctx.settle notices split with net := net } := by
  simp only [settle, foldl_receive_net]

namespace Application

/-- One of these frames. -/
theorem frame_framed (lib : JsonLib) {app : Application} (hready : app.Ready)
    (hqueue : app.ctx.net.recvQueue = []) (notices : List Notice) {input : FrameInput}
    (hinput : input.Sendable app.ctx.net.connected) :
    ∃ next, app.frame lib (notices.map Notice.message, input) = (next, .returned ()) ∧
      next.Ready ∧ next.ctx.net.recvQueue = [] ∧ next.ctx.net.connected = app.ctx.net.connected ∧
      next.ctx = { notices.foldl (GameContext.receive app.ctx.shown) app.ctx with
        net := next.ctx.net } := by
  let polling : Application := { app with
    ctx.net.recvQueue := app.ctx.net.recvQueue ++ notices.map Notice.message }
  have hready' : polling.Ready := ⟨hready.shown, hready.game⟩
  have hqueue' : polling.ctx.net.recvQueue = notices.map Notice.message := by
    simp [polling, hqueue]
  have hframed := update_framed lib hready' hqueue' input
  refine ⟨(polling.update lib input).1,
    Prod.ext rfl (update_returned lib hready' hqueue' hinput), hframed.ready, ?_, ?_, ?_⟩
  · rw [hframed.net.same]
  · rw [hframed.net.same]
  · have hctx := hframed.ctx
    rw [GameContext.foldl_receive_net] at hctx
    exact hctx

/-- The first of some frames polls the first of the notices. -/
theorem frames_first (lib : JsonLib) {app : Application} (hready : app.Ready)
    (hqueue : app.ctx.net.recvQueue = []) {batch : List Protocol.Message × FrameInput}
    {rest : List (List Protocol.Message × FrameInput)} {notices : List Notice}
    (hbatches : ((batch :: rest).map Prod.fst).flatten = notices.map Notice.message)
    (hinputs : ∀ other ∈ batch :: rest, other.2.Sendable app.ctx.net.connected) :
    ∃ polled later next, notices = polled ++ later ∧ batch.1.length = polled.length ∧
      (rest.map Prod.fst).flatten = later.map Notice.message ∧
      app.frame lib batch = (next, .returned ()) ∧ next.Ready ∧ next.ctx.net.recvQueue = [] ∧
      (∀ other ∈ rest, other.2.Sendable next.ctx.net.connected) ∧
      next.ctx = { polled.foldl (GameContext.receive app.ctx.shown) app.ctx with
        net := next.ctx.net } := by
  rw [List.map_cons, List.flatten_cons, eq_comm, List.map_eq_append_iff] at hbatches
  obtain ⟨polled, later, rfl, hpolled, hlater⟩ := hbatches
  obtain ⟨next, hframe, hready', hqueue', hconnected, hctx⟩ :=
    frame_framed lib hready hqueue polled (hinputs batch (List.mem_cons_self ..))
  have hbatch : batch = (polled.map Notice.message, batch.2) := Prod.ext hpolled.symm rfl
  refine ⟨polled, later, next, rfl, ?_, hlater.symm, ?_, hready', hqueue', ?_, hctx⟩
  · rw [← hpolled, List.length_map]
  · rw [hbatch]
    exact hframe
  · exact fun other hother ↦ hconnected.symm ▸ hinputs other (List.mem_cons_of_mem _ hother)

theorem frames_cons {lib : JsonLib} {app next : Application}
    {batch : List Protocol.Message × FrameInput}
    (h : app.frame lib batch = (next, .returned ()))
    (rest : List (List Protocol.Message × FrameInput)) :
    app.frames lib (batch :: rest) = next.frames lib rest := by
  rw [frames, h]

/-- Frames in the game. -/
theorem frames_game (lib : JsonLib) {app : Application} (hready : app.Ready)
    (hqueue : app.ctx.net.recvQueue = []) (huuid : app.ctx.uuid ≠ [])
    {batches : List (List Protocol.Message × FrameInput)} {notices : List Notice}
    (hbatches : (batches.map Prod.fst).flatten = notices.map Notice.message)
    (hinputs : ∀ batch ∈ batches, batch.2.Sendable app.ctx.net.connected) :
    ∃ final, app.frames lib batches = (final, .returned ()) ∧
      final.ctx = { notices.foldl (GameContext.receive .game) app.ctx with
        net := final.ctx.net } := by
  induction batches generalizing app notices with
  | nil =>
    rw [List.map_nil, List.flatten_nil, eq_comm, List.map_eq_nil_iff] at hbatches
    subst hbatches
    exact ⟨app, rfl, rfl⟩
  | cons batch rest ih =>
    obtain ⟨polled, later, next, rfl, _, hlater, hframe, hready', hqueue', hinputs', hctx⟩ :=
      frames_first lib hready hqueue hbatches hinputs
    have hshown : app.ctx.shown = .game := if_neg huuid
    rw [hshown] at hctx
    have huuid' : next.ctx.uuid ≠ [] := by
      rw [hctx]
      exact (GameContext.uuid_foldl_receive_game app.ctx polled).symm ▸ huuid
    obtain ⟨final, hfinal, hctx'⟩ := ih hready' hqueue' huuid' hlater hinputs'
    refine ⟨final, (frames_cons hframe rest).trans hfinal, ?_⟩
    rw [hctx, GameContext.foldl_receive_net] at hctx'
    rw [hctx', List.foldl_append]

/-- Frames that begin before the login. -/
theorem frames_settle (lib : JsonLib) {app : Application} (hready : app.Ready)
    (hqueue : app.ctx.net.recvQueue = []) (huuid : app.ctx.uuid = [])
    {batches : List (List Protocol.Message × FrameInput)} {notices : List Notice}
    (hbatches : (batches.map Prod.fst).flatten = notices.map Notice.message)
    (hinputs : ∀ batch ∈ batches, batch.2.Sendable app.ctx.net.connected) :
    ∃ final, app.frames lib batches = (final, .returned ()) ∧
      final.ctx = { app.ctx.settle notices (app.loginEnd lib batches) with
        net := final.ctx.net } ∧
      (app.loginEnd lib batches = notices.length ∨
        ((notices.take (app.loginEnd lib batches)).foldl (GameContext.receive .login)
          app.ctx).uuid ≠ []) := by
  induction batches generalizing app notices with
  | nil =>
    rw [List.map_nil, List.flatten_nil, eq_comm, List.map_eq_nil_iff] at hbatches
    subst hbatches
    exact ⟨app, rfl, rfl, Or.inl rfl⟩
  | cons batch rest ih =>
    obtain ⟨polled, later, next, rfl, hlength, hlater, hframe, hready', hqueue', hinputs', hctx⟩ :=
      frames_first lib hready hqueue hbatches hinputs
    have hshown : app.ctx.shown = .login := if_pos huuid
    rw [hshown] at hctx
    have hnext : (app.frame lib batch).1 = next := congrArg Prod.fst hframe
    rw [frames_cons hframe, loginEnd, hnext, hlength]
    have huuid_eq : next.ctx.uuid =
        (polled.foldl (GameContext.receive .login) app.ctx).uuid := by rw [hctx]
    split
    · next hempty =>
      obtain ⟨final, hfinal, hctx', hend⟩ := ih hready' hqueue' hempty hlater hinputs'
      refine ⟨final, hfinal, ?_, ?_⟩
      · rw [GameContext.settle_append]
        rw [hctx, GameContext.settle_net] at hctx'
        exact hctx'
      · rw [List.length_append, List.take_length_add_append, List.foldl_append]
        rw [hctx, GameContext.foldl_receive_net] at hend
        exact hend.imp (congrArg _) id
    · next hknown =>
      obtain ⟨final, hfinal, hctx'⟩ :=
        frames_game lib hready' hqueue' hknown hlater hinputs'
      refine ⟨final, hfinal, ?_, Or.inr ?_⟩
      · rw [hctx, GameContext.foldl_receive_net] at hctx'
        simpa [GameContext.settle] using hctx'
      · rw [huuid_eq] at hknown
        simpa using hknown

end Application

/-! ## What the split does not touch -/

namespace GameContext

/-- The same handshake and the same counters. -/
structure Agree (ctx other : GameContext) : Prop where
  clientId : ctx.clientId = other.clientId
  lastSeqByType : ctx.lastSeqByType = other.lastSeqByType

/-- The scene has no part in either. -/
theorem Agree.receive {ctx other : GameContext} (h : Agree ctx other) (scene scene' : SceneID)
    (notice : Notice) : Agree (ctx.receive scene notice) (other.receive scene' notice) := by
  constructor
  · have hclientId : ∀ (ctx : GameContext) (scene : SceneID) (notice : Notice),
        (ctx.absorb scene notice).clientId = (ctx.absorb .login notice).clientId := by
      intro ctx scene notice
      cases notice with
      | assign => rfl
      | result => cases scene <;> rfl
      | update =>
        cases scene with
        | login => rfl
        | game =>
          simp only [absorb]
          split <;> rfl
    unfold GameContext.receive
    dsimp only
    rw [h.lastSeqByType]
    split
    · rw [hclientId _ scene, hclientId _ scene']
      cases notice with
      | assign => rfl
      | result | update => exact h.clientId
    · exact h.clientId
  · rw [lastSeqByType_receive, lastSeqByType_receive, h.lastSeqByType]

theorem Agree.foldl_receive {ctx other : GameContext} (h : Agree ctx other)
    (scene scene' : SceneID) (notices : List Notice) :
    Agree (notices.foldl (GameContext.receive scene) ctx)
      (notices.foldl (GameContext.receive scene') other) := by
  induction notices generalizing ctx other with
  | nil => exact h
  | cons notice notices ih => exact ih (h.receive scene scene' notice)

theorem settle_agree (ctx : GameContext) (notices : List Notice) (split : ℕ) :
    Agree (ctx.settle notices split) (notices.foldl (receive .login) ctx) := by
  have hall : notices.foldl (receive .login) ctx =
      (notices.drop split).foldl (receive .login)
        ((notices.take split).foldl (receive .login) ctx) := by
    rw [← List.foldl_append, List.take_append_drop]
  rw [hall]
  exact Agree.foldl_receive ⟨rfl, rfl⟩ .game .login _

/-- With the numbers of the server the uuid is that of the first login result. -/
theorem settle_uuid {ctx : GameContext} (htold : ctx.Told) {notices : List Notice}
    (hsingle : ∀ notice ∈ notices, notice.Single) {split : ℕ}
    (hsplit : split = notices.length ∨
      ((notices.take split).foldl (receive .login) ctx).uuid ≠ []) :
    (ctx.settle notices split).uuid = (notices.foldl (receive .login) ctx).uuid := by
  rcases hsplit with rfl | hknown
  · rw [settle, List.take_length, List.drop_length]
    rfl
  · have hanswered := htold.foldl_receive .login (notices.take split) hknown
    have hrest : ∀ notice ∈ notices.drop split, notice.Single := fun notice hnotice ↦
      hsingle notice (List.mem_of_mem_drop hnotice)
    calc
      _ = ((notices.take split).foldl (receive .login) ctx).uuid :=
        hanswered.uuid_foldl_receive .game hrest
      _ = _ := by
        conv_rhs => rw [← List.take_append_drop split notices, List.foldl_append]
        exact (hanswered.uuid_foldl_receive .login hrest).symm

/-- After the login, what is no update does the same in both scenes. -/
theorem Answered.receive_scene {ctx : GameContext} (h : ctx.Answered) {notice : Notice}
    (hsingle : notice.Single)
    (hupdate : ∀ sequence uuid pool, notice ≠ .update sequence uuid pool) :
    ctx.receive .login notice = ctx.receive .game notice := by
  cases notice with
  | assign => rfl
  | update sequence uuid pool => exact absurd rfl (hupdate sequence uuid pool)
  | result sequence uuid =>
    rcases Application.filterSequence_spec ctx.lastSeqByType
      (Notice.result sequence uuid).message with
      ⟨_, hlt, _⟩ | ⟨hdropped, _⟩
    · have hone : (Notice.result sequence uuid).message.sequence = 1 := hsingle sequence uuid rfl
      rw [hone] at hlt
      exact absurd (UInt32.lt_one_iff.mp hlt) h
    · simp [GameContext.receive, hdropped]

theorem Answered.foldl_receive_scene {ctx : GameContext} (h : ctx.Answered)
    {notices : List Notice} (hsingle : ∀ notice ∈ notices, notice.Single)
    (hupdate : ∀ sequence uuid pool, Notice.update sequence uuid pool ∉ notices) :
    notices.foldl (GameContext.receive .login) ctx =
      notices.foldl (GameContext.receive .game) ctx := by
  induction notices generalizing ctx with
  | nil => rfl
  | cons notice notices ih =>
    rw [List.foldl_cons, List.foldl_cons,
      h.receive_scene (hsingle notice (List.mem_cons_self ..)) fun sequence uuid pool heq ↦
        hupdate sequence uuid pool (heq ▸ List.mem_cons_self ..)]
    exact ih (h.receive .game notice)
      (fun other hother ↦ hsingle other (List.mem_cons_of_mem _ hother))
      fun sequence uuid pool hmem ↦ hupdate sequence uuid pool (List.mem_cons_of_mem _ hmem)

/-- Splits with no update between them are the same. -/
theorem settle_of_le {ctx : GameContext} (htold : ctx.Told) {notices : List Notice}
    (hsingle : ∀ notice ∈ notices, notice.Single) {split split' : ℕ} (hle : split ≤ split')
    (hsplit : split = notices.length ∨
      ((notices.take split).foldl (receive .login) ctx).uuid ≠ [])
    (hupdate : ∀ sequence uuid pool,
      Notice.update sequence uuid pool ∉ (notices.take split').drop split) :
    ctx.settle notices split = ctx.settle notices split' := by
  rcases hsplit with rfl | hknown
  · simp [settle, List.take_of_length_le hle, List.drop_eq_nil_of_le hle]
  · have hanswered := htold.foldl_receive .login (notices.take split) hknown
    have hmiddle : ∀ notice ∈ (notices.take split').drop split, notice.Single :=
      fun notice hnotice ↦ hsingle notice (List.mem_of_mem_take (List.mem_of_mem_drop hnotice))
    have htake : notices.take split' = notices.take split ++ (notices.take split').drop split := by
      conv_lhs => rw [← List.take_append_drop split (notices.take split'), List.take_take,
        min_eq_left hle]
    have hdrop : notices.drop split =
        (notices.take split').drop split ++ notices.drop split' := by
      rw [List.drop_take]
      conv_lhs => rw [← List.take_append_drop (split' - split) (notices.drop split),
        List.drop_drop, Nat.add_sub_of_le hle]
    rw [settle, settle, htake, hdrop, List.foldl_append, List.foldl_append,
      hanswered.foldl_receive_scene hmiddle hupdate]

end GameContext

/-! ## Two ways of batching -/

namespace Application

/-- No update is among the messages behind the nearer and up to the farther of two points. -/
def NoUpdateBetween (notices : List Notice) (split split' : ℕ) : Prop :=
  ∀ sequence uuid pool, Notice.update sequence uuid pool ∉
    (notices.take (max split split')).drop (min split split')

/-- However the messages of the server are spread over frames, no frame throws, the messages up to
the end of the frame that ends with a uuid are handled by the login scene and the others by the game
scene, and the client id and the counters are the same in the end. With login results numbered one,
as the server numbers them, the uuid is the same, and so are the resources when no update lies
between the ends of the two frames that end with a uuid. With any numbers uuid and resources are the
same when these frames end behind the same message. -/
theorem frames_batching (lib : JsonLib) (connected : Bool)
    {batches batches' : List (List Protocol.Message × FrameInput)} {notices : List Notice}
    (hbatches : (batches.map Prod.fst).flatten = notices.map Notice.message)
    (hbatches' : (batches'.map Prod.fst).flatten = notices.map Notice.message)
    (hinputs : ∀ batch ∈ batches, batch.2.Sendable connected)
    (hinputs' : ∀ batch ∈ batches', batch.2.Sendable connected) :
    ∃ final final', (start connected).frames lib batches = (final, .returned ()) ∧
      (start connected).frames lib batches' = (final', .returned ()) ∧
      final.ctx = { (start connected).ctx.settle notices ((start connected).loginEnd lib batches)
        with net := final.ctx.net } ∧
      final'.ctx = { (start connected).ctx.settle notices ((start connected).loginEnd lib batches')
        with net := final'.ctx.net } ∧
      final.ctx.clientId = final'.ctx.clientId ∧
      final.ctx.lastSeqByType = final'.ctx.lastSeqByType ∧
      ((∀ notice ∈ notices, notice.Single) → final.ctx.uuid = final'.ctx.uuid ∧
        (NoUpdateBetween notices ((start connected).loginEnd lib batches)
          ((start connected).loginEnd lib batches') →
          final.ctx.resources = final'.ctx.resources)) ∧
      ((start connected).loginEnd lib batches = (start connected).loginEnd lib batches' →
        final.ctx.uuid = final'.ctx.uuid ∧ final.ctx.resources = final'.ctx.resources) := by
  obtain ⟨final, hfinal, hctx, hend⟩ :=
    frames_settle lib (ready_start connected) rfl rfl hbatches hinputs
  obtain ⟨final', hfinal', hctx', hend'⟩ :=
    frames_settle lib (ready_start connected) rfl rfl hbatches' hinputs'
  have htold : (start connected).ctx.Told := fun hne ↦ absurd rfl hne
  have hagree := GameContext.settle_agree (start connected).ctx notices
  refine ⟨final, final', hfinal, hfinal', hctx, hctx', ?_, ?_, fun hsingle ↦ ?_, fun heq ↦ ?_⟩
  · rw [hctx, hctx']
    exact (hagree _).clientId.trans (hagree _).clientId.symm
  · rw [hctx, hctx']
    exact (hagree _).lastSeqByType.trans (hagree _).lastSeqByType.symm
  · rw [hctx, hctx']
    refine ⟨(GameContext.settle_uuid htold hsingle hend).trans
      (GameContext.settle_uuid htold hsingle hend').symm, fun hupdate ↦ ?_⟩
    rcases le_total ((start connected).loginEnd lib batches)
      ((start connected).loginEnd lib batches') with hle | hle
    · rw [NoUpdateBetween, max_eq_right hle, min_eq_left hle] at hupdate
      rw [GameContext.settle_of_le htold hsingle hle hend hupdate]
    · rw [NoUpdateBetween, max_eq_left hle, min_eq_right hle] at hupdate
      rw [GameContext.settle_of_le htold hsingle hle hend' hupdate]
  · rw [hctx, hctx', heq]
    exact ⟨rfl, rfl⟩

/-- A login, a handshake and an update in three frames; the handshake in the frame of the login; and
the handshake in the frame of the update. -/
theorem frames_batching_spread :
    let result := (Notice.result 1 (text "u")).message
    let assign := (Notice.assign 1 7).message
    let update := (Notice.update 1 (text "u") ⟨10, 20, 30⟩).message
    let apart : List (List Protocol.Message × FrameInput) := [([result], {}), ([assign], {}),
      ([update], {})]
    let early : List (List Protocol.Message × FrameInput) := [([result, assign], {}),
      ([update], {})]
    let late : List (List Protocol.Message × FrameInput) := [([result], {}),
      ([assign, update], {})]
    (start true).loginEnd JsonLib.reference apart = 1 ∧
      (start true).loginEnd JsonLib.reference early = 2 ∧
      (start true).loginEnd JsonLib.reference late = 1 ∧
      (∃ final final', (start true).frames JsonLib.reference apart = (final, .returned ()) ∧
        (start true).frames JsonLib.reference early = (final', .returned ()) ∧
        final.ctx.uuid = final'.ctx.uuid ∧ final.ctx.resources = final'.ctx.resources) ∧
      ∃ final final', (start true).frames JsonLib.reference apart = (final, .returned ()) ∧
        (start true).frames JsonLib.reference late = (final', .returned ()) ∧
        final.ctx.uuid = final'.ctx.uuid ∧ final.ctx.resources = final'.ctx.resources := by
  intro result assign update apart early late
  have hidle : ({} : FrameInput).Sendable true := fun hclicked ↦ by cases hclicked
  let notices : List Notice := [.result 1 (text "u"), .assign 1 7,
    .update 1 (text "u") ⟨10, 20, 30⟩]
  have hapart : (apart.map Prod.fst).flatten = notices.map Notice.message := rfl
  have hearly : (early.map Prod.fst).flatten = notices.map Notice.message := rfl
  have hlate : (late.map Prod.fst).flatten = notices.map Notice.message := rfl
  have hone : (start true).loginEnd JsonLib.reference apart = 1 := by decide +kernel
  have htwo : (start true).loginEnd JsonLib.reference early = 2 := by decide +kernel
  have hlast : (start true).loginEnd JsonLib.reference late = 1 := by decide +kernel
  have hsingle : ∀ notice ∈ notices, notice.Single := by
    intro notice hnotice sequence uuid heq
    subst heq
    simp only [notices, List.mem_cons, Notice.result.injEq, reduceCtorEq, List.not_mem_nil,
      or_false] at hnotice
    exact hnotice.1
  have hbetween : NoUpdateBetween notices ((start true).loginEnd JsonLib.reference apart)
      ((start true).loginEnd JsonLib.reference early) := by
    rw [hone, htwo]
    intro sequence uuid pool hmem
    have hassign : (notices.take (max 1 2)).drop (min 1 2) = [Notice.assign 1 7] := rfl
    rw [hassign] at hmem
    cases List.mem_singleton.mp hmem
  refine ⟨hone, htwo, hlast, ?_, ?_⟩
  · obtain ⟨final, final', hfinal, hfinal', _, _, _, _, hnumbered, _⟩ :=
      frames_batching JsonLib.reference true hapart hearly (by simpa [apart] using hidle)
        (by simpa [early] using hidle)
    obtain ⟨huuid, hresources⟩ := hnumbered hsingle
    exact ⟨final, final', hfinal, hfinal', huuid, hresources hbetween⟩
  · obtain ⟨final, final', hfinal, hfinal', _, _, _, _, _, hsame⟩ :=
      frames_batching JsonLib.reference true hapart hlate (by simpa [apart] using hidle)
        (by simpa [late] using hidle)
    exact ⟨final, final', hfinal, hfinal', hsame (hone.trans hlast.symm)⟩

/-- An update that is polled in the frame of the login is dropped, and applied when it is polled one
frame later. -/
theorem not_batching_independent :
    ∃ final final',
      (start true).frames JsonLib.reference
        [([(Notice.result 1 (text "u")).message,
          (Notice.update 1 (text "u") ⟨10, 20, 30⟩).message], {})] = (final, .returned ()) ∧
      (start true).frames JsonLib.reference
        [([(Notice.result 1 (text "u")).message], {}),
          ([(Notice.update 1 (text "u") ⟨10, 20, 30⟩).message], {})] = (final', .returned ()) ∧
      final.ctx.resources = {} ∧ final'.ctx.resources = ⟨10, 20, 30⟩ := by
  have hone : ((start true).frames JsonLib.reference
      [([(Notice.result 1 (text "u")).message,
        (Notice.update 1 (text "u") ⟨10, 20, 30⟩).message], {})]).1.ctx.resources = {} := by
    decide +kernel
  have htwo : ((start true).frames JsonLib.reference
      [([(Notice.result 1 (text "u")).message], {}),
        ([(Notice.update 1 (text "u") ⟨10, 20, 30⟩).message], {})]).1.ctx.resources =
      ⟨10, 20, 30⟩ := by
    decide +kernel
  exact ⟨_, _, Prod.ext rfl (by decide +kernel), Prod.ext rfl (by decide +kernel), hone, htwo⟩

end Application

end NetPixeld
