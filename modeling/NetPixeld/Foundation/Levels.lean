import Mathlib.Data.Nat.Notation

/-!
# Levels and their edges

A level is sampled once in every frame. It rises in a frame in which it is high and was low in the
frame before, and falls in one in which it is low and was high; before the first frame it was low. A
memory of one bit that a trigger sets, and that is kept only as long as a condition holds, knows
whether the condition has held since a trigger.
-/

namespace NetPixeld.Level

/-! ## Memories -/

/-- The condition has held since a frame with a trigger, that frame and this one included. -/
def Since (condition trigger : ℕ → Prop) (frame : ℕ) : Prop :=
  ∃ first ≤ frame, trigger first ∧
    ∀ between, first ≤ between → between ≤ frame → condition between

variable {condition trigger : ℕ → Prop}

theorem since_zero : Since condition trigger 0 ↔ condition 0 ∧ trigger 0 := by
  constructor
  · rintro ⟨first, hfirst, htrigger, hcondition⟩
    cases Nat.le_zero.mp hfirst
    exact ⟨hcondition 0 (Nat.le_refl 0) (Nat.le_refl 0), htrigger⟩
  · rintro ⟨hcondition, htrigger⟩
    refine ⟨0, Nat.le_refl 0, htrigger, fun between _ hbetween ↦ ?_⟩
    cases Nat.le_zero.mp hbetween
    exact hcondition

theorem since_succ (frame : ℕ) :
    Since condition trigger (frame + 1) ↔
      condition (frame + 1) ∧ (trigger (frame + 1) ∨ Since condition trigger frame) := by
  constructor
  · rintro ⟨first, hfirst, htrigger, hcondition⟩
    refine ⟨hcondition (frame + 1) hfirst (Nat.le_refl _), ?_⟩
    rcases Nat.le_succ_iff.mp hfirst with hearlier | rfl
    · exact Or.inr ⟨first, hearlier, htrigger, fun between hafter hbefore ↦
        hcondition between hafter (Nat.le_succ_of_le hbefore)⟩
    · exact Or.inl htrigger
  · rintro ⟨hcondition, htrigger | ⟨first, hfirst, htrigger, hheld⟩⟩
    · refine ⟨frame + 1, Nat.le_refl _, htrigger, fun between hafter hbefore ↦ ?_⟩
      cases Nat.le_antisymm hbefore hafter
      exact hcondition
    · refine ⟨first, Nat.le_succ_of_le hfirst, htrigger, fun between hafter hbefore ↦ ?_⟩
      rcases Nat.le_succ_iff.mp hbefore with hearlier | rfl
      · exact hheld between hafter hearlier
      · exact hcondition

/-- The memory of a frame tells whether the condition has held since a trigger. -/
theorem memory_iff_since {memory : ℕ → Bool} (hinit : memory 0 = false)
    (hstep : ∀ frame, memory (frame + 1) = true ↔
      condition frame ∧ (trigger frame ∨ memory frame = true)) (frame : ℕ) :
    memory (frame + 1) = true ↔ Since condition trigger frame := by
  induction frame with
  | zero =>
    rw [hstep, since_zero, hinit]
    simp
  | succ frame ih => rw [hstep, since_succ, ih]

/-! ## Edges -/

/-- The level in the frame before. -/
def previous (level : ℕ → Bool) : ℕ → Bool
  | 0 => false
  | frame + 1 => level frame

def rises (level : ℕ → Bool) (frame : ℕ) : Bool := level frame && !previous level frame

def falls (level : ℕ → Bool) (frame : ℕ) : Bool := !level frame && previous level frame

/-- The level rises in the first frame, and is high from then on up to the last one. -/
structure Held (level : ℕ → Bool) (first last : ℕ) : Prop where
  rises : rises level first = true
  lt : first < last
  high : ∀ between, first ≤ between → between < last → level between = true

variable {level : ℕ → Bool}

theorem not_rises_succ {frame : ℕ} (h : level frame = true) : rises level (frame + 1) = false := by
  simp [rises, previous, h]

/-- One rise begins at most one hold that ends with a fall. -/
theorem Held.last_unique {first last other : ℕ} (hlast : Held level first last)
    (hother : Held level first other) (hfalls : falls level last = true)
    (hfalls' : falls level other = true) : last = other := by
  have hlow : ∀ {frame}, falls level frame = true → level frame ≠ true := by
    intro frame hframe
    simp [falls] at hframe
    simp [hframe.1]
  rcases Nat.lt_trichotomy last other with hlt | heq | hlt
  · exact absurd (hother.high last (Nat.le_of_lt hlast.lt) hlt) (hlow hfalls)
  · exact heq
  · exact absurd (hlast.high other (Nat.le_of_lt hother.lt) hlt) (hlow hfalls')

/-- One hold has one beginning. -/
theorem Held.first_unique {first other last : ℕ} (hfirst : Held level first last)
    (hother : Held level other last) : first = other := by
  have hlater : ∀ {first other}, Held level first last → Held level other last →
      ¬first < other := by
    intro first other hfirst hother hlt
    obtain ⟨frame, rfl⟩ := Nat.exists_eq_succ_of_ne_zero (Nat.ne_of_gt (Nat.zero_lt_of_lt hlt))
    have hhigh := hfirst.high frame (Nat.lt_succ_iff.mp hlt) (Nat.lt_of_succ_lt hother.lt)
    have hrises := hother.rises
    rw [not_rises_succ hhigh] at hrises
    cases hrises
  exact Nat.le_antisymm (Nat.not_lt.mp (hlater hother hfirst))
    (Nat.not_lt.mp (hlater hfirst hother))

/-- The hold that a memory of high frames remembers is the one that ends now. -/
theorem since_iff_held {condition : ℕ → Prop} {last : ℕ} :
    (∃ frame, last = frame + 1 ∧
      Since (fun between ↦ condition between ∧ level between = true)
        (fun between ↦ rises level between = true) frame) ↔
      ∃ first, Held level first last ∧
        ∀ between, first ≤ between → between < last → condition between := by
  constructor
  · rintro ⟨frame, rfl, first, hfirst, hrises, hheld⟩
    refine ⟨first, ⟨hrises, Nat.lt_succ_of_le hfirst, fun between hafter hbefore ↦ ?_⟩,
      fun between hafter hbefore ↦ ?_⟩
    · exact (hheld between hafter (Nat.lt_succ_iff.mp hbefore)).2
    · exact (hheld between hafter (Nat.lt_succ_iff.mp hbefore)).1
  · rintro ⟨first, hheld, hcondition⟩
    obtain ⟨frame, rfl⟩ := Nat.exists_eq_succ_of_ne_zero (Nat.ne_of_gt (Nat.zero_lt_of_lt hheld.lt))
    refine ⟨frame, rfl, first, Nat.lt_succ_iff.mp hheld.lt, hheld.rises,
      fun between hafter hbefore ↦ ?_⟩
    have hlt := Nat.lt_succ_of_le hbefore
    exact ⟨hcondition between hafter hlt, hheld.high between hafter hlt⟩

end NetPixeld.Level
