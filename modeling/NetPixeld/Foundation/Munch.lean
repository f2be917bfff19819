import NetPixeld.Foundation.Transition

/-!
# Scanning without backtracking

A scanner driven by a deterministic automaton reads for as long as the automaton has a transition
and looks only at the state it stops in. When every state can still reach an accepting one, such a
scan is characterized by the words accepted alone: it reads an accepted word that no accepted word
extends by the next letter.
-/

namespace NetPixeld.Munch

open Transition

variable {σ α : Type} (next : σ → α → Option σ) (accepting : σ → Prop)

/-- Read as long as there is a transition: the state reached, what was read, and the rest. -/
def munch (state : σ) : List α → σ × List α × List α
  | [] => (state, [], [])
  | letter :: rest =>
      match next state letter with
      | some following =>
          match munch following rest with
          | (final, word, rest) => (final, letter :: word, rest)
      | none => (state, [], letter :: rest)

/-- The words read from a state into an accepting one. -/
def Accepts (state : σ) (word : List α) : Prop :=
  ∃ final, run next state word = some final ∧ accepting final

/-- No accepted word goes on with the first letter of the rest. -/
def Complete (state : σ) (word rest : List α) : Prop :=
  ∀ letter ∈ rest.head?, ∀ more, ¬Accepts next accepting state (word ++ letter :: more)

/-- Every state can still reach an accepting one. -/
def Live : Prop := ∀ state, ∃ word, Accepts next accepting state word

variable {next accepting}

/-- A scan follows the transitions and stops where there is none. -/
theorem munch_eq_iff {state final : σ} {input word rest : List α} :
    munch next state input = (final, word, rest) ↔
      input = word ++ rest ∧ run next state word = some final ∧
        ∀ letter ∈ rest.head?, next final letter = none := by
  induction input generalizing state word with
  | nil =>
    constructor
    · rintro ⟨⟩
      refine ⟨rfl, rfl, ?_⟩
      rintro _ ⟨⟩
    · rintro ⟨happend, hrun, _⟩
      obtain ⟨rfl, rfl⟩ := List.append_eq_nil_iff.mp happend.symm
      cases hrun
      rfl
  | cons letter input ih =>
    rw [munch]
    cases hnext : next state letter with
    | none =>
      constructor
      · rintro ⟨⟩
        refine ⟨rfl, rfl, ?_⟩
        rintro _ ⟨⟩
        exact hnext
      · rintro ⟨happend, hrun, hstop⟩
        cases word with
        | nil =>
          cases hrun
          exact Prod.ext rfl (Prod.ext rfl happend)
        | cons head word =>
          obtain ⟨rfl, rfl⟩ := List.cons.inj happend
          obtain ⟨following, hfollowing, _⟩ := run_cons_eq_some.mp hrun
          rw [hnext] at hfollowing
          cases hfollowing
    | some following =>
      have hscan := fun scanned ↦ @ih following scanned
      constructor
      · rintro ⟨⟩
        obtain ⟨happend, hrun, hstop⟩ := (hscan _).mp rfl
        exact ⟨congrArg _ happend, run_cons_eq_some.mpr ⟨following, hnext, hrun⟩, hstop⟩
      · rintro ⟨happend, hrun, hstop⟩
        cases word with
        | nil =>
          subst happend
          cases hrun
          rw [hstop letter rfl] at hnext
          cases hnext
        | cons head word =>
          obtain ⟨rfl, hrest⟩ := List.cons.inj happend
          obtain ⟨other, hother, hrun⟩ := run_cons_eq_some.mp hrun
          rw [hnext] at hother
          cases hother
          simp only [(hscan word).mpr ⟨hrest, hrun, hstop⟩]

/-- In a live automaton, a missing transition rules out every accepted extension. -/
theorem next_eq_none_iff (hlive : Live next accepting) {state final : σ} {word : List α}
    (hrun : run next state word = some final) (letter : α) :
    next final letter = none ↔
      ∀ more, ¬Accepts next accepting state (word ++ letter :: more) := by
  constructor
  · rintro hnone more ⟨_, hmore, _⟩
    obtain ⟨middle, hmiddle, hrest⟩ := run_append_eq_some.mp hmore
    rw [hrun] at hmiddle
    cases hmiddle
    obtain ⟨following, hfollowing, _⟩ := run_cons_eq_some.mp hrest
    rw [hnone] at hfollowing
    cases hfollowing
  · intro h
    by_contra hsome
    obtain ⟨following, hfollowing⟩ := Option.ne_none_iff_exists'.mp hsome
    obtain ⟨more, accepted, hmore, haccepted⟩ := hlive following
    refine h more ⟨accepted, run_append_eq_some.mpr ⟨final, hrun, ?_⟩, haccepted⟩
    exact run_cons_eq_some.mpr ⟨following, hfollowing, hmore⟩

/-- A scan of a live automaton in the terms of its accepted words. -/
theorem munch_accepting_iff (hlive : Live next accepting) {state final : σ}
    {input word rest : List α} :
    munch next state input = (final, word, rest) ∧ accepting final ↔
      input = word ++ rest ∧ run next state word = some final ∧ accepting final ∧
        Complete next accepting state word rest := by
  rw [munch_eq_iff]
  constructor
  · rintro ⟨⟨happend, hrun, hstop⟩, hfinal⟩
    refine ⟨happend, hrun, hfinal, fun letter hletter ↦ ?_⟩
    exact (next_eq_none_iff hlive hrun letter).mp (hstop letter hletter)
  · rintro ⟨happend, hrun, hfinal, hcomplete⟩
    refine ⟨⟨happend, hrun, fun letter hletter ↦ ?_⟩, hfinal⟩
    exact (next_eq_none_iff hlive hrun letter).mpr (hcomplete letter hletter)

end NetPixeld.Munch
