import Mathlib.Data.Nat.Notation

/-!
# Going down to the first admitted number

A loop that starts at the top and decreases a number as long as it is not admitted stops at the
largest admitted one, or at the floor where it stops in any case.
-/

namespace NetPixeld.Descent

/-- `while (!admits(size) && size > floor) --size;` -/
def descend (admits : ℕ → Prop) [DecidablePred admits] (floor : ℕ) : ℕ → ℕ
  | 0 => 0
  | size + 1 =>
      if ¬admits (size + 1) ∧ floor < size + 1 then descend admits floor size else size + 1

/-- The largest admitted number above the floor and up to the top, or the floor if there is none. -/
structure Largest (admits : ℕ → Prop) (floor top size : ℕ) : Prop where
  le_top : size ≤ top
  floor_or_admits : size = floor ∨ floor < size ∧ admits size
  not_admits : ∀ larger, size < larger → larger ≤ top → ¬admits larger

/-- Going down from the top, the numbers that one of two predicates admits first are admitted by
both. -/
def FirstTogether (left right : ℕ → Prop) (floor top : ℕ) : Prop :=
  ∀ size, floor < size → size ≤ top →
    (∀ larger, size < larger → larger ≤ top → ¬left larger ∧ ¬right larger) →
      (left size ↔ right size)

variable {admits left right : ℕ → Prop} {floor top size other : ℕ}

theorem largest_descend [DecidablePred admits] (h : floor ≤ top) :
    Largest admits floor top (descend admits floor top) := by
  induction top with
  | zero =>
    refine ⟨Nat.le_refl 0, Or.inl (Nat.le_zero.mp h).symm, fun larger hlarger hle ↦ ?_⟩
    exact absurd (Nat.lt_of_lt_of_le hlarger hle) (Nat.lt_irrefl 0)
  | succ top ih =>
    unfold descend
    split
    · next hdown =>
      have hlargest := ih (Nat.lt_succ_iff.mp hdown.2)
      refine ⟨Nat.le_succ_of_le hlargest.le_top, hlargest.floor_or_admits,
        fun larger hlarger hle ↦ ?_⟩
      rcases Nat.le_succ_iff.mp hle with hbelow | rfl
      · exact hlargest.not_admits larger hlarger hbelow
      · exact hdown.1
    · next hstop =>
      refine ⟨Nat.le_refl _, ?_, fun larger hlarger hle ↦ ?_⟩
      · rcases Nat.eq_or_lt_of_le h with heq | hlt
        · exact Or.inl heq.symm
        · exact Or.inr ⟨hlt, Decidable.of_not_not fun hadmits ↦ hstop ⟨hadmits, hlt⟩⟩
      · exact absurd (Nat.lt_of_lt_of_le hlarger hle) (Nat.lt_irrefl _)

/-- Above an admitted number up to the top there is only a larger one. -/
theorem Largest.le_of_admits (h : Largest admits floor top size) (hother : other ≤ top)
    (hadmits : admits other) : other ≤ size :=
  Nat.le_of_not_lt fun hlt ↦ h.not_admits other hlt hother hadmits

theorem Largest.floor_le (h : Largest admits floor top size) : floor ≤ size := by
  rcases h.floor_or_admits with heq | ⟨hlt, _⟩
  · exact Nat.le_of_eq heq.symm
  · exact Nat.le_of_lt hlt

theorem Largest.unique (hsize : Largest admits floor top size)
    (hother : Largest admits floor top other) : size = other := by
  have hle : ∀ {size other}, Largest admits floor top size → Largest admits floor top other →
      size ≤ other := by
    intro size other hsize hother
    rcases hsize.floor_or_admits with rfl | ⟨_, hadmits⟩
    · exact hother.floor_le
    · exact hother.le_of_admits hsize.le_top hadmits
  exact Nat.le_antisymm (hle hsize hother) (hle hother hsize)

/-- The first number admitted on the way down is where the loop stops. -/
theorem Largest.admits_iff (h : Largest admits floor top size) (hfloor : floor < other)
    (htop : other ≤ top) (hnone : ∀ larger, other < larger → larger ≤ top → ¬admits larger) :
    admits other ↔ size = other := by
  constructor
  · intro hadmits
    rcases Nat.eq_or_lt_of_le (h.le_of_admits htop hadmits) with heq | hlt
    · exact heq.symm
    · rcases h.floor_or_admits with rfl | ⟨_, hsize⟩
      · exact absurd hfloor (Nat.lt_asymm hlt)
      · exact absurd hsize (hnone size hlt h.le_top)
  · rintro rfl
    exact (h.floor_or_admits.resolve_left (Nat.ne_of_gt hfloor)).2

theorem FirstTogether.symm (h : FirstTogether left right floor top) :
    FirstTogether right left floor top :=
  fun size hfloor htop hnone ↦
    (h size hfloor htop fun larger hlarger hle ↦ (hnone larger hlarger hle).symm).symm

theorem FirstTogether.le (h : FirstTogether left right floor top)
    (hsize : Largest left floor top size) (hother : Largest right floor top other) :
    other ≤ size := by
  refine Nat.le_of_not_lt fun hlt ↦ ?_
  have hfloor : floor < other := Nat.lt_of_le_of_lt hsize.floor_le hlt
  have hright : right other := (hother.floor_or_admits.resolve_left (Nat.ne_of_gt hfloor)).2
  have hleft : left other := (h other hfloor hother.le_top fun larger hlarger hle ↦
    ⟨hsize.not_admits larger (Nat.lt_trans hlt hlarger) hle,
      hother.not_admits larger hlarger hle⟩).mpr hright
  exact hsize.not_admits other hlt hother.le_top hleft

/-- The loops of two predicates stop at one number exactly when the predicates first admit a number
together. -/
theorem Largest.eq_iff (hsize : Largest left floor top size)
    (hother : Largest right floor top other) :
    size = other ↔ FirstTogether left right floor top := by
  constructor
  · intro heq number hfloor htop hnone
    rw [hsize.admits_iff hfloor htop fun larger hlarger hle ↦ (hnone larger hlarger hle).1,
      hother.admits_iff hfloor htop fun larger hlarger hle ↦ (hnone larger hlarger hle).2, heq]
  · intro h
    exact Nat.le_antisymm (h.symm.le hother hsize) (h.le hsize hother)

end NetPixeld.Descent
