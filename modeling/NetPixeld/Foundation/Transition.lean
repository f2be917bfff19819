import Mathlib.Data.List.Basic

/-!
# Runs of a deterministic system under a schedule

`step state event` is the state after one event, or nothing where the event cannot happen. A run is
a list of events; everything nondeterministic is in the choice of the events. The rules carry an
invariant along a run, either unconditionally or under a condition on each step, and characterize
the runs that meet a step condition by the states they visit; they compare the runs of two systems,
carry what was observed along a run, and bound the runs that lower a weight.
-/

namespace NetPixeld.Transition

variable {σ ε : Type} (step : σ → ε → Option σ)

/-- The state after a list of events. -/
def run (state : σ) : List ε → Option σ
  | [] => some state
  | event :: rest => (step state event).bind fun next ↦ run next rest

/-- The states of a run, at every prefix of its events. -/
def Visited (state : σ) (events : List ε) (visited : σ) : Prop :=
  ∃ before after, events = before ++ after ∧ run step state before = some visited

/-- What is observed at the steps of a run, in that order. -/
def observed {ω : Type} (observe : σ → ε → List ω) (state : σ) : List ε → List ω
  | [] => []
  | event :: rest =>
      observe state event ++
        match step state event with
        | some next => observed observe next rest
        | none => []

/-- Every step of a run meets a condition on the state before it and its event. -/
def Always (condition : σ → ε → Prop) (state : σ) : List ε → Prop
  | [] => True
  | event :: rest =>
      condition state event ∧ ∀ next, step state event = some next → Always condition next rest

@[simp]
theorem run_nil (state : σ) : run step state [] = some state := rfl

@[simp]
theorem run_cons (state : σ) (event : ε) (rest : List ε) :
    run step state (event :: rest) = (step state event).bind fun next ↦ run step next rest := rfl

theorem run_append (state : σ) (before after : List ε) :
    run step state (before ++ after) =
      (run step state before).bind fun middle ↦ run step middle after := by
  induction before generalizing state with
  | nil => rfl
  | cons event before ih =>
    simp only [List.cons_append, run_cons, Option.bind_assoc]
    exact congrArg _ (funext fun next ↦ ih next)

variable {step}

theorem run_cons_eq_some {state final : σ} {event : ε} {rest : List ε} :
    run step state (event :: rest) = some final ↔
      ∃ next, step state event = some next ∧ run step next rest = some final :=
  Option.bind_eq_some_iff

theorem run_append_eq_some {state final : σ} {before after : List ε} :
    run step state (before ++ after) = some final ↔
      ∃ middle, run step state before = some middle ∧ run step middle after = some final := by
  rw [run_append]
  exact Option.bind_eq_some_iff

/-- An invariant of every step is an invariant of every run. -/
theorem invariant_run {invariant : σ → Prop}
    (hstep : ∀ {state event next}, invariant state → step state event = some next →
      invariant next)
    {state final : σ} {events : List ε} (hinit : invariant state)
    (hrun : run step state events = some final) : invariant final := by
  induction events generalizing state with
  | nil =>
    cases hrun
    exact hinit
  | cons event rest ih =>
    obtain ⟨next, hnext, hrest⟩ := run_cons_eq_some.mp hrun
    exact ih (hstep hinit hnext) hrest

/-- An invariant of the steps that meet a condition is an invariant of the runs that meet it. -/
theorem invariant_run_of_always {invariant : σ → Prop} {condition : σ → ε → Prop}
    (hstep : ∀ {state event next}, invariant state → condition state event →
      step state event = some next → invariant next)
    {state final : σ} {events : List ε} (hinit : invariant state)
    (halways : Always step condition state events)
    (hrun : run step state events = some final) : invariant final := by
  induction events generalizing state with
  | nil =>
    cases hrun
    exact hinit
  | cons event rest ih =>
    obtain ⟨next, hnext, hrest⟩ := run_cons_eq_some.mp hrun
    exact ih (hstep hinit halways.1 hnext) (halways.2 next hnext) hrest

/-- An invariant of the state and of what was observed so far. -/
theorem invariant_observed {ω : Type} {observe : σ → ε → List ω} {invariant : σ → List ω → Prop}
    (hstep : ∀ {state event next seen}, invariant state seen → step state event = some next →
      invariant next (seen ++ observe state event))
    {state final : σ} {events : List ε} {seen : List ω} (hinit : invariant state seen)
    (hrun : run step state events = some final) :
    invariant final (seen ++ observed step observe state events) := by
  induction events generalizing state seen with
  | nil =>
    cases hrun
    rw [observed, List.append_nil]
    exact hinit
  | cons event rest ih =>
    obtain ⟨next, hnext, hrest⟩ := run_cons_eq_some.mp hrun
    rw [observed, hnext, ← List.append_assoc]
    exact ih (hstep hinit hnext) hrest

/-- What is observed along a run comes from one of its events. -/
theorem exists_of_mem_observed {ω : Type} {observe : σ → ε → List ω} {state : σ} {events : List ε}
    {item : ω} (h : item ∈ observed step observe state events) :
    ∃ visited, ∃ event ∈ events, item ∈ observe visited event := by
  induction events generalizing state with
  | nil => cases h
  | cons event rest ih =>
    rcases List.mem_append.mp h with hhead | htail
    · exact ⟨state, event, List.mem_cons_self .., hhead⟩
    · split at htail
      · obtain ⟨visited, other, hother, hitem⟩ := ih htail
        exact ⟨visited, other, List.mem_cons_of_mem _ hother, hitem⟩
      · cases htail

/-- Forward simulation of a total machine: a related pair can always make the step of the abstract
side, so every list of admissible events has a run, and it ends in a related pair. -/
theorem simulation_run {τ : Type} {relation : σ → τ → Prop} {perform : τ → ε → τ}
    {admissible : ε → Prop}
    (hstep : ∀ {state abstract event}, relation state abstract → admissible event →
      ∃ next, step state event = some next ∧ relation next (perform abstract event))
    {state : σ} {abstract : τ} {events : List ε} (hinit : relation state abstract)
    (hevents : ∀ event ∈ events, admissible event) :
    ∃ final, run step state events = some final ∧
      relation final (events.foldl perform abstract) := by
  induction events generalizing state abstract with
  | nil => exact ⟨state, rfl, hinit⟩
  | cons event rest ih =>
    obtain ⟨next, hnext, hrelation⟩ := hstep hinit (hevents event (List.mem_cons_self ..))
    obtain ⟨final, hrest, hfinal⟩ :=
      ih hrelation fun other hother ↦ hevents other (List.mem_cons_of_mem _ hother)
    exact ⟨final, run_cons_eq_some.mpr ⟨next, hnext, hrest⟩, hfinal⟩

/-- When every step of one system can be answered by steps of another, so can every run. -/
theorem refinement_run {τ δ : Type} {coarse : τ → δ → Option τ} {relation : σ → τ → Prop}
    (hstep : ∀ {state abstract event next}, relation state abstract →
      step state event = some next →
      ∃ answer reached, run coarse abstract answer = some reached ∧ relation next reached)
    {state final : σ} {abstract : τ} {events : List ε} (hinit : relation state abstract)
    (hrun : run step state events = some final) :
    ∃ answer reached, run coarse abstract answer = some reached ∧ relation final reached := by
  induction events generalizing state abstract with
  | nil =>
    cases hrun
    exact ⟨[], abstract, rfl, hinit⟩
  | cons event rest ih =>
    obtain ⟨next, hnext, hrest⟩ := run_cons_eq_some.mp hrun
    obtain ⟨first, middle, hfirst, hmiddle⟩ := hstep hinit hnext
    obtain ⟨later, reached, hlater, hreached⟩ := ih hmiddle hrest
    exact ⟨first ++ later, reached, run_append_eq_some.mpr ⟨middle, hfirst, hlater⟩, hreached⟩

/-- Steps that lower a weight are no more than the weight. -/
theorem length_run_le {invariant : σ → Prop} {weight : σ → ℕ}
    (hstep : ∀ {state event next}, invariant state → step state event = some next →
      invariant next ∧ weight next < weight state)
    {state final : σ} {events : List ε} (hinit : invariant state)
    (hrun : run step state events = some final) :
    events.length + weight final ≤ weight state := by
  induction events generalizing state with
  | nil =>
    cases hrun
    exact Nat.le_of_eq (Nat.zero_add _)
  | cons event rest ih =>
    obtain ⟨next, hnext, hrest⟩ := run_cons_eq_some.mp hrun
    obtain ⟨hinvariant, hlower⟩ := hstep hinit hnext
    have hbound := ih hinvariant hrest
    rw [List.length_cons]
    omega

/-- A graded invariant: where every state of a positive weight can make an allowed step to one of a
smaller weight, allowed steps lead to a state of weight zero. -/
theorem exists_run_of_weight {invariant : ℕ → σ → Prop} {allowed : ε → Prop}
    (hstep : ∀ {weight state}, invariant weight state → weight ≠ 0 → ∃ event next less,
      allowed event ∧ step state event = some next ∧ less < weight ∧ invariant less next)
    {weight : ℕ} {state : σ} (hinit : invariant weight state) :
    ∃ events final, (∀ event ∈ events, allowed event) ∧ run step state events = some final ∧
      invariant 0 final := by
  induction weight using Nat.strongRecOn generalizing state with
  | ind weight ih =>
    by_cases hzero : weight = 0
    · subst hzero
      exact ⟨[], state, fun _ hevent ↦ absurd hevent List.not_mem_nil, rfl, hinit⟩
    · obtain ⟨event, next, less, hallowed, hnext, hless, hinvariant⟩ := hstep hinit hzero
      obtain ⟨events, final, hevents, hrun, hfinal⟩ := ih less hless hinvariant
      exact ⟨event :: events, final, List.forall_mem_cons.mpr ⟨hallowed, hevents⟩,
        run_cons_eq_some.mpr ⟨next, hnext, hrun⟩, hfinal⟩

/-- When a view of the states takes the steps of another system, it has the runs of that system. -/
theorem run_map {τ : Type} {view : σ → τ} {viewed : τ → ε → Option τ} {invariant : σ → Prop}
    (hview : ∀ {state event}, invariant state →
      (step state event).map view = viewed (view state) event)
    (hstep : ∀ {state event next}, invariant state → step state event = some next →
      invariant next)
    {state : σ} (hinit : invariant state) (events : List ε) :
    (run step state events).map view = run viewed (view state) events := by
  induction events generalizing state with
  | nil => rfl
  | cons event rest ih =>
    rw [run_cons, run_cons, ← hview hinit]
    cases hnext : step state event with
    | none => rfl
    | some next => exact ih (hstep hinit hnext)

/-- A condition that can be checked at a step can be checked along a run. -/
instance decidableAlways {condition : σ → ε → Prop}
    [hdecidable : ∀ state event, Decidable (condition state event)] :
    ∀ (state : σ) (events : List ε), Decidable (Always step condition state events)
  | _, [] => inferInstanceAs (Decidable True)
  | state, event :: rest =>
      match hnext : step state event with
      | none => decidable_of_iff (condition state event) (by simp [Always, hnext])
      | some next =>
          have : Decidable (Always step condition next rest) := decidableAlways next rest
          decidable_of_iff (condition state event ∧ Always step condition next rest)
            (by simp [Always, hnext])

theorem always_of_append {condition : σ → ε → Prop} {state : σ} {before after : List ε}
    (h : Always step condition state (before ++ after)) : Always step condition state before := by
  induction before generalizing state with
  | nil => trivial
  | cons event before ih => exact ⟨h.1, fun next hnext ↦ ih (h.2 next hnext)⟩

theorem always_behind {condition : σ → ε → Prop} {state middle : σ} {before after : List ε}
    (h : Always step condition state (before ++ after))
    (hrun : run step state before = some middle) : Always step condition middle after := by
  induction before generalizing state with
  | nil =>
    cases hrun
    exact h
  | cons event before ih =>
    obtain ⟨next, hnext, hrest⟩ := run_cons_eq_some.mp hrun
    exact ih (h.2 next hnext) hrest

/-- A condition that the events meet in every state. -/
theorem always_of_forall {condition : σ → ε → Prop} {events : List ε}
    (h : ∀ event ∈ events, ∀ state, condition state event) (state : σ) :
    Always step condition state events := by
  induction events generalizing state with
  | nil => trivial
  | cons event rest ih =>
    exact ⟨h event (List.mem_cons_self ..) state,
      fun next _ ↦ ih (fun other hother ↦ h other (List.mem_cons_of_mem _ hother)) next⟩

theorem always_append {condition : σ → ε → Prop} {state : σ} {before after : List ε}
    (hbefore : Always step condition state before)
    (hafter : ∀ middle, run step state before = some middle → Always step condition middle after) :
    Always step condition state (before ++ after) := by
  induction before generalizing state with
  | nil => exact hafter state rfl
  | cons event before ih =>
    refine ⟨hbefore.1, fun next hnext ↦ ih (hbefore.2 next hnext) fun middle hmiddle ↦ ?_⟩
    exact hafter middle (run_cons_eq_some.mpr ⟨next, hnext, hmiddle⟩)

/-- Along a run that meets a condition keeping an invariant, whatever the two imply is met too. -/
theorem always_mono {invariant : σ → Prop} {condition weaker : σ → ε → Prop}
    (himplies : ∀ {state event}, invariant state → condition state event → weaker state event)
    (hstep : ∀ {state event next}, invariant state → condition state event →
      step state event = some next → invariant next)
    {state : σ} {events : List ε} (hinit : invariant state)
    (halways : Always step condition state events) : Always step weaker state events := by
  induction events generalizing state with
  | nil => trivial
  | cons event rest ih =>
    exact ⟨himplies hinit halways.1,
      fun next hnext ↦ ih (hstep hinit halways.1 hnext) (halways.2 next hnext)⟩

theorem visited_self (state : σ) (events : List ε) : Visited step state events state :=
  ⟨[], events, rfl, rfl⟩

theorem visited_final {state final : σ} {events : List ε}
    (h : run step state events = some final) : Visited step state events final :=
  ⟨events, [], (List.append_nil events).symm, h⟩

theorem visited_cons {state next visited : σ} {event : ε} {rest : List ε}
    (hnext : step state event = some next) (h : Visited step next rest visited) :
    Visited step state (event :: rest) visited := by
  obtain ⟨before, after, rfl, hrun⟩ := h
  exact ⟨event :: before, after, rfl, run_cons_eq_some.mpr ⟨next, hnext, hrun⟩⟩

/-- When a step out of a good state keeps the property exactly if it meets the condition, the runs
whose steps all meet the condition are the runs that visit only states with the property. -/
theorem always_iff_visited {invariant property : σ → Prop} {condition : σ → ε → Prop}
    (hproperty : ∀ {state}, invariant state → property state)
    (hgood : ∀ {state event next}, invariant state → condition state event →
      step state event = some next → invariant next)
    (hbad : ∀ {state event next}, invariant state → step state event = some next →
      property next → condition state event)
    {state final : σ} {events : List ε} (hinit : invariant state)
    (hrun : run step state events = some final) :
    Always step condition state events ↔
      ∀ visited, Visited step state events visited → property visited := by
  constructor
  · rintro halways visited ⟨before, after, rfl, hvisited⟩
    exact hproperty
      (invariant_run_of_always hgood hinit (always_of_append halways) hvisited)
  · intro hvisits
    induction events generalizing state with
    | nil => trivial
    | cons event rest ih =>
      obtain ⟨next, hnext, hrest⟩ := run_cons_eq_some.mp hrun
      have hcondition := hbad hinit hnext
        (hvisits next (visited_cons hnext (visited_self next rest)))
      refine ⟨hcondition, fun other hother ↦ ?_⟩
      cases hnext.symm.trans hother
      exact ih (hgood hinit hcondition hnext) hrest
        fun visited hvisited ↦ hvisits visited (visited_cons hnext hvisited)

end NetPixeld.Transition
