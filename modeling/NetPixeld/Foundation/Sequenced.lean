import Mathlib.Data.List.Induction

/-!
# Numbered items that pass in order

Items with a key and a number. An item passes when its number is one more than the number of items
with its key that passed before it. The items of one key that pass are numbered from one without a
gap, and the items of other keys have no part in it.
-/

namespace NetPixeld.Sequenced

variable {α κ : Type} [DecidableEq κ] (key : α → κ) (number : α → ℕ)

/-- How many of the judged items have a key and passed. -/
def count (judged : List (α × Bool)) (which : κ) : ℕ :=
  judged.countP fun verdict ↦ verdict.2 && key verdict.1 = which

/-- The verdict on an item behind others. -/
def passes (judged : List (α × Bool)) (item : α) : Bool :=
  number item = count key judged (key item) + 1

/-- Judge one more item. -/
def extend (judged : List (α × Bool)) (item : α) : List (α × Bool) :=
  judged ++ [(item, passes key number judged item)]

/-- The items of a list, each with its verdict. -/
def judge (items : List α) : List (α × Bool) := items.foldl (extend key number) []

/-- The verdicts on the items with a key. -/
def restrict (which : κ) (judged : List (α × Bool)) : List (α × Bool) :=
  judged.filter fun verdict ↦ key verdict.1 = which

@[simp]
theorem judge_append_singleton (items : List α) (item : α) :
    judge key number (items ++ [item]) = extend key number (judge key number items) item := by
  simp [judge]

theorem count_append_singleton (judged : List (α × Bool)) (verdict : α × Bool) (which : κ) :
    count key (judged ++ [verdict]) which =
      count key judged which + if verdict.2 = true ∧ key verdict.1 = which then 1 else 0 := by
  rw [count, List.countP_append, List.countP_singleton]
  simp [count]

/-- Only the items with the key are counted. -/
theorem count_restrict (judged : List (α × Bool)) (which : κ) :
    count key (restrict key which judged) which = count key judged which := by
  rw [count, restrict, List.countP_filter, count]
  apply List.countP_congr
  intro verdict _
  simp +contextual

theorem map_fst_judge (items : List α) : (judge key number items).map Prod.fst = items := by
  induction items using List.reverseRecOn with
  | nil => rfl
  | append_singleton items item ih =>
    rw [judge_append_singleton, extend, List.map_append, ih]
    rfl

/-- Every verdict is the one on its item behind those before it. -/
theorem judge_verdict {items : List α} {before after : List (α × Bool)} {item : α} {verdict : Bool}
    (h : judge key number items = before ++ (item, verdict) :: after) :
    verdict = passes key number before item := by
  induction items using List.reverseRecOn generalizing after with
  | nil => simp [judge] at h
  | append_singleton items last ih =>
    rw [judge_append_singleton, extend] at h
    rcases List.eq_nil_or_concat after with rfl | ⟨after, final, rfl⟩
    · obtain ⟨hbefore, hlast⟩ := List.append_inj' h rfl
      rw [List.cons.injEq, Prod.mk.injEq] at hlast
      rw [← hlast.1.2, hbefore, hlast.1.1]
    · rw [List.concat_eq_append, ← List.cons_append, ← List.append_assoc] at h
      exact ih (List.append_inj' h rfl).1

/-- What passes with a key is numbered from one without a gap. -/
theorem numbers_judge (items : List α) (which : κ) :
    ((restrict key which (judge key number items)).filter Prod.snd).map (fun verdict ↦
      number verdict.1) = List.range' 1 (count key (judge key number items) which) := by
  induction items using List.reverseRecOn with
  | nil => rfl
  | append_singleton items item ih =>
    rw [judge_append_singleton, extend, restrict, List.filter_append, List.filter_append,
      List.map_append, count_append_singleton, ← restrict, ih]
    by_cases hkey : key item = which
    · by_cases hpasses : passes key number (judge key number items) item = true
      · have hnumber : number item = count key (judge key number items) which + 1 := by
          simpa [passes, hkey] using hpasses
        rw [if_pos ⟨hpasses, hkey⟩, List.range'_concat]
        simp [hkey, hpasses, hnumber, Nat.add_comm]
      · simp [hkey, hpasses]
    · simp [hkey]

/-- The verdicts on the items with a key are those on these items alone. -/
theorem restrict_judge (items : List α) (which : κ) :
    restrict key which (judge key number items) =
      judge key number (items.filter fun item ↦ key item = which) := by
  induction items using List.reverseRecOn with
  | nil => rfl
  | append_singleton items item ih =>
    rw [judge_append_singleton, extend, restrict, List.filter_append, ← restrict, ih,
      List.filter_append]
    by_cases hkey : key item = which
    · have hpasses : passes key number (judge key number items) item =
          passes key number (judge key number (items.filter fun item ↦ key item = which)) item := by
        rw [passes, passes, ← ih, hkey, count_restrict]
      simp [hkey, hpasses, extend]
    · simp [hkey]

end NetPixeld.Sequenced
