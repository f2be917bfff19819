import NetPixeld.Client.Frames

/-!
# What a client shows

The uuid is that of the first login result that was polled, and the totals are those of the last
update that was applied. The applied updates are among the polled ones, in their order, and all of
them are for the uuid.
-/

namespace NetPixeld

namespace Notice

/-- The uuid and the totals of an update. -/
def totals : Notice → Option (Bytes × Resources)
  | assign _ _ | result _ _ => none
  | update _ uuid pool => some (uuid, pool)

/-- The uuid of a login result. -/
def answer : Notice → Option Bytes
  | result _ uuid => some uuid
  | assign _ _ | update _ _ _ => none

end Notice

namespace GameContext

/-- What a client shows that has polled some notices. -/
structure Shows (ctx : GameContext) (polled : List Notice) : Prop where
  uuid : ctx.uuid = (polled.filterMap Notice.answer).headD []
  answered : lastSeq ctx.lastSeqByType Protocol.msgLoginResult =
    if polled.filterMap Notice.answer = [] then 0 else 1
  applied : ctx.applied.Sublist (polled.filterMap Notice.totals)
  own : ∀ entry ∈ ctx.applied, entry.1 = ctx.uuid
  unknown : ctx.uuid = [] → ctx.applied = []
  resources : ctx.resources = (ctx.applied.getLast?.map Prod.snd).getD {}

/-- The scene at the beginning of a frame fits what was shown then. -/
def Fits (ctx : GameContext) : SceneID → Prop
  | .login => ctx.applied = []
  | .game => ctx.uuid ≠ []

variable {ctx : GameContext} {polled : List Notice}

theorem Shows.fits (h : ctx.Shows polled) : ctx.Fits ctx.shown := by
  unfold shown
  split
  · next huuid => exact h.unknown huuid
  · next huuid => exact huuid

/-- A notice that changes nothing of this, and is no login result. -/
theorem Shows.of_same (h : ctx.Shows polled) {next : GameContext} {notice : Notice}
    (huuid : next.uuid = ctx.uuid) (happlied : next.applied = ctx.applied)
    (hresources : next.resources = ctx.resources)
    (hlast : lastSeq next.lastSeqByType Protocol.msgLoginResult =
      lastSeq ctx.lastSeqByType Protocol.msgLoginResult)
    (hanswer : notice.answer = none) : next.Shows (polled ++ [notice]) := by
  have hanswers : (polled ++ [notice]).filterMap Notice.answer =
      polled.filterMap Notice.answer := by
    rw [List.filterMap_append, List.filterMap_cons_none hanswer, List.filterMap_nil,
      List.append_nil]
  constructor
  · rw [huuid, hanswers, h.uuid]
  · rw [hlast, hanswers, h.answered]
  · rw [happlied, List.filterMap_append]
    exact h.applied.trans (List.sublist_append_left _ _)
  · rw [happlied, huuid]
    exact h.own
  · rw [happlied, huuid]
    exact h.unknown
  · rw [hresources, happlied, h.resources]

/-- The number of the last login result changes with login results only. -/
theorem lastSeq_receive (scene : SceneID) (ctx : GameContext) {notice : Notice}
    (h : notice.answer = none) :
    lastSeq (ctx.receive scene notice).lastSeqByType Protocol.msgLoginResult =
      lastSeq ctx.lastSeqByType Protocol.msgLoginResult := by
  have htype : notice.message.type ≠ Protocol.msgLoginResult := by
    cases notice with
    | assign => exact (by decide : Protocol.msgAssignClientId ≠ Protocol.msgLoginResult)
    | result => cases h
    | update => exact (by decide : Protocol.msgResourceUpdate ≠ Protocol.msgLoginResult)
  rw [lastSeqByType_receive]
  rcases Application.filterSequence_spec ctx.lastSeqByType notice.message with
    ⟨_, _, _, hfiltered⟩ | ⟨_, _, hfiltered⟩
  · rw [hfiltered, lastSeq_insert, if_neg htype]
  · rw [hfiltered, lastSeq_insert, if_neg htype]

theorem Shows.receive_assign (h : ctx.Shows polled) (scene : SceneID) (sequence : UInt32)
    (clientId : UInt8) :
    (ctx.receive scene (.assign sequence clientId)).Shows
      (polled ++ [.assign sequence clientId]) := by
  have hlast := @lastSeq_receive scene ctx (.assign sequence clientId) rfl
  unfold receive at hlast ⊢
  dsimp only at hlast ⊢
  split
  · next hpasses =>
    rw [if_pos hpasses] at hlast
    exact h.of_same rfl rfl rfl hlast rfl
  · next hdropped =>
    rw [if_neg hdropped] at hlast
    exact h.of_same rfl rfl rfl hlast rfl

/-- The first login result passes the filter. -/
theorem receive_first_result (h : lastSeq ctx.lastSeqByType Protocol.msgLoginResult = 0)
    (uuid : Bytes) :
    ctx.receive .login (.result 1 uuid) = { ctx with
      lastSeqByType := ctx.lastSeqByType.insert Protocol.msgLoginResult 1, uuid := uuid } := by
  rcases Application.filterSequence_spec ctx.lastSeqByType (Notice.result 1 uuid).message with
    ⟨hpasses, _, _, hfiltered⟩ | ⟨_, hseen, _⟩
  · unfold receive
    rw [if_pos hpasses, hfiltered]
    rfl
  · rw [Notice.type_result, h] at hseen
    rcases hseen with hseen | hseen
    · exact absurd (show (1 : UInt32) ≤ 0 from hseen) (by decide)
    · exact absurd rfl hseen

/-- Every later one has the same number, and is dropped. -/
theorem receive_later_result (h : lastSeq ctx.lastSeqByType Protocol.msgLoginResult = 1)
    (scene : SceneID) (uuid : Bytes) :
    ctx.receive scene (.result 1 uuid) = { ctx with
      lastSeqByType := ctx.lastSeqByType.insert Protocol.msgLoginResult 1 } := by
  rcases Application.filterSequence_spec ctx.lastSeqByType (Notice.result 1 uuid).message with
    ⟨_, hlt, _, _⟩ | ⟨hdropped, _, hfiltered⟩
  · rw [Notice.type_result, h] at hlt
    exact absurd (show (1 : UInt32) < 1 from hlt) (by decide)
  · unfold receive
    dsimp only
    rw [hdropped, hfiltered, Notice.type_result, h]
    rfl

/-- Only the first login result changes what is shown, and it is polled by the login scene. -/
theorem Shows.receive_result (h : ctx.Shows polled) {scene : SceneID} (hfits : ctx.Fits scene)
    (uuid : Bytes) :
    (ctx.receive scene (.result 1 uuid)).Shows (polled ++ [.result 1 uuid]) := by
  have hanswers : (polled ++ [Notice.result 1 uuid]).filterMap Notice.answer =
      polled.filterMap Notice.answer ++ [uuid] := by
    rw [List.filterMap_append]
    rfl
  have htotals : (polled ++ [Notice.result 1 uuid]).filterMap Notice.totals =
      polled.filterMap Notice.totals := by
    rw [List.filterMap_append]
    exact List.append_nil _
  have hlast := h.answered
  cases hpolled : polled.filterMap Notice.answer with
  | nil =>
    have hempty : ctx.uuid = [] := by rw [h.uuid, hpolled]; rfl
    have hlogin : scene = .login := by
      cases scene with
      | login => rfl
      | game => exact absurd hempty hfits
    subst hlogin
    have happlied : ctx.applied = [] := hfits
    rw [if_pos hpolled] at hlast
    rw [receive_first_result hlast]
    refine ⟨?_, ?_, ?_, ?_, fun _ ↦ happlied, h.resources⟩
    · rw [hanswers, hpolled]
      rfl
    · rw [hanswers, if_neg (by simp), lastSeq_insert, if_pos rfl]
    · rw [htotals]
      exact h.applied
    · intro entry hentry
      rw [show ctx.applied = [] from happlied] at hentry
      cases hentry
  | cons first rest =>
    rw [hpolled, if_neg (List.cons_ne_nil first rest)] at hlast
    rw [receive_later_result hlast]
    refine ⟨?_, ?_, ?_, h.own, h.unknown, h.resources⟩
    · rw [hanswers, h.uuid, hpolled]
      rfl
    · rw [hanswers, if_neg (by simp), lastSeq_insert, if_pos rfl]
    · rw [htotals]
      exact h.applied

/-- An update is applied by the game scene, when it passes the filter and is for the uuid. -/
theorem Shows.receive_update (h : ctx.Shows polled) (scene : SceneID) (sequence : UInt32)
    (uuid : Bytes) (pool : Resources) (hfits : ctx.Fits scene) :
    (ctx.receive scene (.update sequence uuid pool)).Shows
      (polled ++ [.update sequence uuid pool]) := by
  have hlast := @lastSeq_receive scene ctx (.update sequence uuid pool) rfl
  unfold receive at hlast ⊢
  dsimp only at hlast ⊢
  split
  swap
  · next hdropped =>
    rw [if_neg hdropped] at hlast
    exact h.of_same rfl rfl rfl hlast rfl
  next hpasses =>
  rw [if_pos hpasses] at hlast
  cases scene with
  | login => exact h.of_same rfl rfl rfl hlast rfl
  | game =>
    simp only [absorb] at hlast ⊢
    split
    swap
    · next hother =>
      rw [if_neg hother] at hlast
      exact h.of_same rfl rfl rfl hlast rfl
    next hown =>
    rw [if_pos hown] at hlast
    have hanswers : (polled ++ [Notice.update sequence uuid pool]).filterMap Notice.answer =
        polled.filterMap Notice.answer := by
      rw [List.filterMap_append]
      exact List.append_nil _
    refine ⟨?_, ?_, ?_, ?_, fun hempty ↦ absurd hempty hfits, ?_⟩
    · rw [hanswers]
      exact h.uuid
    · rw [hanswers]
      exact hlast.trans h.answered
    · rw [List.filterMap_append]
      exact h.applied.append (.refl _)
    · intro entry hentry
      rcases List.mem_append.mp hentry with hentry | hentry
      · exact h.own entry hentry
      · rw [List.mem_singleton.mp hentry]
        exact hown
    · simp

theorem Fits.receive {scene : SceneID} (h : ctx.Fits scene) (notice : Notice) :
    (ctx.receive scene notice).Fits scene := by
  cases scene with
  | game =>
    rw [Fits, uuid_receive_game]
    exact h
  | login =>
    have happlied : ctx.applied = [] := h
    rw [Fits, ← happlied]
    unfold GameContext.receive
    dsimp only
    split
    · cases notice <;> rfl
    · rfl

theorem Shows.receive (h : ctx.Shows polled) {scene : SceneID} (hfits : ctx.Fits scene)
    {notice : Notice} (hsingle : notice.Single) :
    (ctx.receive scene notice).Shows (polled ++ [notice]) := by
  cases notice with
  | assign sequence clientId => exact h.receive_assign scene sequence clientId
  | result sequence uuid =>
    rw [hsingle sequence uuid rfl]
    exact h.receive_result hfits uuid
  | update sequence uuid pool => exact h.receive_update scene sequence uuid pool hfits

/-- Polling some more notices in one frame. -/
theorem Shows.foldl_receive (h : ctx.Shows polled) {scene : SceneID} (hfits : ctx.Fits scene)
    {notices : List Notice} (hsingle : ∀ notice ∈ notices, notice.Single) :
    (notices.foldl (GameContext.receive scene) ctx).Shows (polled ++ notices) := by
  induction notices generalizing ctx polled with
  | nil =>
    rw [List.append_nil]
    exact h
  | cons notice notices ih =>
    have hrest := ih (h.receive hfits (hsingle notice (List.mem_cons_self ..)))
      (hfits.receive notice) fun other hother ↦ hsingle other (List.mem_cons_of_mem _ hother)
    rw [List.append_assoc] at hrest
    exact hrest

/-- The connection does not matter. -/
theorem Shows.of_net (h : ctx.Shows polled) (net : NetworkClient) :
    ({ ctx with net := net } : GameContext).Shows polled :=
  ⟨h.uuid, h.answered, h.applied, h.own, h.unknown, h.resources⟩

/-- A known uuid stays, whatever is polled. -/
theorem Shows.uuid_append (h : ctx.Shows polled) (hne : ctx.uuid ≠ []) {next : GameContext}
    {more : List Notice} (hnext : next.Shows (polled ++ more)) : next.uuid = ctx.uuid := by
  rw [hnext.uuid, h.uuid, List.filterMap_append]
  rw [h.uuid] at hne
  cases hpolled : polled.filterMap Notice.answer with
  | nil =>
    rw [hpolled] at hne
    exact absurd rfl hne
  | cons first rest => rfl

end GameContext

end NetPixeld
