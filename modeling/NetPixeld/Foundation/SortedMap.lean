import Mathlib.Data.List.Basic
import Mathlib.Order.Lattice

/-!
# Finite maps as sorted lists

A map is a list of key-value pairs with strictly increasing keys. The representation is canonical:
two maps with the same lookups are equal. It is the concrete content of a `std::map`, and the
content of a `std::unordered_map` up to its unspecified iteration order.
-/

namespace NetPixeld

/-! ## Lists of pairs -/

namespace Items

variable {κ β γ : Type} [LinearOrder κ]

/-- The value of the first pair with a key. -/
def find (key : κ) : List (κ × β) → Option β
  | [] => none
  | (head, value) :: rest => if head = key then some value else find key rest

/-- Insert a pair in key order, or replace the value of its key. -/
def insert (key : κ) (value : β) : List (κ × β) → List (κ × β)
  | [] => [(key, value)]
  | (head, old) :: rest =>
      if key < head then (key, value) :: (head, old) :: rest
      else if key = head then (head, value) :: rest
      else (head, old) :: insert key value rest

/-- Insert a range of pairs one after the other. -/
def insertAll (pairs : List (κ × β)) : List (κ × β) :=
  pairs.foldl (fun items pair ↦ insert pair.1 pair.2 items) []

/-- The keys are strictly increasing. -/
def Sorted (items : List (κ × β)) : Prop := (items.map Prod.fst).Pairwise (· < ·)

@[simp]
theorem find_nil (key : κ) : find key ([] : List (κ × β)) = none := rfl

@[simp]
theorem find_cons (key head : κ) (value : β) (rest : List (κ × β)) :
    find key ((head, value) :: rest) = if head = key then some value else find key rest := rfl

theorem find_eq_none {key : κ} {items : List (κ × β)} :
    find key items = none ↔ key ∉ items.map Prod.fst := by
  induction items with
  | nil => simp
  | cons pair rest ih =>
    obtain ⟨head, value⟩ := pair
    simp only [find_cons, List.map_cons, List.mem_cons, not_or]
    by_cases h : head = key
    · simp [h]
    · rw [if_neg h, ih]
      exact ⟨fun hrest ↦ ⟨Ne.symm h, hrest⟩, fun hboth ↦ hboth.2⟩

theorem mem_of_find {key : κ} {value : β} {items : List (κ × β)}
    (h : find key items = some value) : (key, value) ∈ items := by
  induction items with
  | nil => cases h
  | cons pair rest ih =>
    obtain ⟨head, other⟩ := pair
    simp only [find_cons] at h
    split at h
    · next heq =>
      cases h
      exact heq ▸ List.mem_cons_self ..
    · exact List.mem_cons_of_mem _ (ih h)

theorem find_of_mem {key : κ} {value : β} {items : List (κ × β)}
    (hnodup : (items.map Prod.fst).Nodup) (h : (key, value) ∈ items) :
    find key items = some value := by
  induction items with
  | nil => cases h
  | cons pair rest ih =>
    obtain ⟨head, other⟩ := pair
    simp only [List.map_cons, List.nodup_cons] at hnodup
    rcases List.mem_cons.mp h with heq | h
    · cases heq
      simp
    · have hne : head ≠ key := by
        rintro rfl
        exact hnodup.1 (List.mem_map_of_mem h)
      simpa [hne] using ih hnodup.2 h

theorem find_insert (key other : κ) (value : β) (items : List (κ × β)) :
    find other (insert key value items) = if key = other then some value else find other items := by
  induction items with
  | nil => rfl
  | cons pair rest ih =>
    obtain ⟨head, old⟩ := pair
    simp only [insert]
    split
    · rfl
    split
    · next h =>
      subst h
      by_cases h : key = other <;> simp [h]
    · next hne =>
      by_cases h : head = other
      · subst h
        simp [hne]
      · simp [h, ih]

theorem mem_keys_insert {key other : κ} {value : β} {items : List (κ × β)} :
    other ∈ (insert key value items).map Prod.fst ↔ other = key ∨ other ∈ items.map Prod.fst := by
  rw [← not_iff_not, not_or, ← find_eq_none, ← find_eq_none, find_insert]
  by_cases h : key = other
  · simp [h]
  · rw [if_neg h]
    exact ⟨fun hrest ↦ ⟨Ne.symm h, hrest⟩, fun hboth ↦ hboth.2⟩

theorem sorted_insert {key : κ} {value : β} {items : List (κ × β)} (h : Sorted items) :
    Sorted (insert key value items) := by
  induction items with
  | nil => simp [insert, Sorted]
  | cons pair rest ih =>
    obtain ⟨head, old⟩ := pair
    simp only [Sorted, List.map_cons, List.pairwise_cons] at h
    obtain ⟨hhead, hrest⟩ := h
    simp only [insert]
    split
    · next hlt =>
      simp only [Sorted, List.map_cons, List.pairwise_cons, List.mem_cons]
      refine ⟨?_, hhead, hrest⟩
      rintro other (rfl | hother)
      · exact hlt
      · exact hlt.trans (hhead other hother)
    split
    · simp only [Sorted, List.map_cons, List.pairwise_cons]
      exact ⟨hhead, hrest⟩
    · next hge hne =>
      simp only [Sorted, List.map_cons, List.pairwise_cons]
      refine ⟨?_, ih hrest⟩
      intro other hother
      rcases mem_keys_insert.mp hother with rfl | hother
      · exact lt_of_le_of_ne (not_lt.mp hge) (Ne.symm hne)
      · exact hhead other hother

theorem sorted_insertAll (pairs : List (κ × β)) : Sorted (insertAll pairs) := by
  have hstep : ∀ items : List (κ × β), Sorted items →
      Sorted (pairs.foldl (fun collected pair ↦ insert pair.1 pair.2 collected) items) := by
    induction pairs with
    | nil => exact fun _ h ↦ h
    | cons pair pairs ih => exact fun items h ↦ ih _ (sorted_insert h)
  exact hstep [] List.Pairwise.nil

theorem Sorted.nodup {items : List (κ × β)} (h : Sorted items) : (items.map Prod.fst).Nodup :=
  h.imp ne_of_lt

/-- A sorted list is determined by its lookups. -/
theorem eq_of_find {left right : List (κ × β)} (hleft : Sorted left) (hright : Sorted right)
    (h : ∀ key, find key left = find key right) : left = right := by
  induction left generalizing right with
  | nil =>
    cases right with
    | nil => rfl
    | cons pair rest =>
      obtain ⟨head, value⟩ := pair
      have hfind := h head
      simp at hfind
  | cons pair rest ih =>
    obtain ⟨head, value⟩ := pair
    cases right with
    | nil =>
      have hfind := h head
      simp at hfind
    | cons pair' rest' =>
      obtain ⟨head', value'⟩ := pair'
      simp only [Sorted, List.map_cons, List.pairwise_cons] at hleft hright
      have hhead : head = head' := by
        apply le_antisymm
        · have hfind : find head' ((head, value) :: rest) ≠ none := by simp [h head']
          have hmem := not_not.mp (mt find_eq_none.mpr hfind)
          rcases List.mem_cons.mp hmem with heq | hmem
          · exact heq.ge
          · exact (hleft.1 head' hmem).le
        · have hfind : find head ((head', value') :: rest') ≠ none := by simp [← h head]
          have hmem := not_not.mp (mt find_eq_none.mpr hfind)
          rcases List.mem_cons.mp hmem with heq | hmem
          · exact heq.ge
          · exact (hright.1 head hmem).le
      subst hhead
      have hvalue : value = value' := by simpa using h head
      subst hvalue
      have hrest : rest = rest' := by
        refine ih hleft.2 hright.2 fun key ↦ ?_
        by_cases hkey : head = key
        · subst hkey
          rw [find_eq_none.mpr fun hmem ↦ lt_irrefl _ (hleft.1 head hmem),
            find_eq_none.mpr fun hmem ↦ lt_irrefl _ (hright.1 head hmem)]
        · simpa [hkey] using h key
      rw [hrest]

theorem find_foldl_insert {pairs : List (κ × β)} (hnodup : (pairs.map Prod.fst).Nodup) (key : κ)
    (items : List (κ × β)) :
    find key (pairs.foldl (fun collected pair ↦ insert pair.1 pair.2 collected) items) =
      (find key pairs).or (find key items) := by
  induction pairs generalizing items with
  | nil => rfl
  | cons pair pairs ih =>
    obtain ⟨head, value⟩ := pair
    simp only [List.map_cons, List.nodup_cons] at hnodup
    rw [List.foldl_cons, ih hnodup.2, find_insert, find_cons]
    by_cases h : head = key
    · subst h
      simp [find_eq_none.mpr hnodup.1]
    · simp [h]

theorem find_insertAll {pairs : List (κ × β)} (hnodup : (pairs.map Prod.fst).Nodup) (key : κ) :
    find key (insertAll pairs) = find key pairs := by
  rw [insertAll, find_foldl_insert hnodup, find_nil, Option.or_none]

/-- Inserting the pairs of a sorted list in their order gives the list back. -/
theorem insertAll_of_sorted {items : List (κ × β)} (h : Sorted items) : insertAll items = items :=
  eq_of_find (sorted_insertAll items) h (find_insertAll h.nodup)

/-- The order in which a range with distinct keys is inserted is irrelevant. -/
theorem insertAll_perm {left right : List (κ × β)} (hnodup : (left.map Prod.fst).Nodup)
    (h : left.Perm right) : insertAll left = insertAll right := by
  have hnodup' : (right.map Prod.fst).Nodup := (h.map Prod.fst).nodup_iff.mp hnodup
  refine eq_of_find (sorted_insertAll left) (sorted_insertAll right) fun key ↦ ?_
  rw [find_insertAll hnodup, find_insertAll hnodup']
  cases hfind : find key right with
  | none =>
    rw [find_eq_none] at hfind ⊢
    exact fun hmem ↦ hfind ((h.map Prod.fst).mem_iff.mp hmem)
  | some value => exact find_of_mem hnodup (h.mem_iff.mpr (mem_of_find hfind))

theorem find_filter_ne (key other : κ) (items : List (κ × β)) :
    find other (items.filter fun pair ↦ pair.1 ≠ key) =
      if key = other then none else find other items := by
  induction items with
  | nil => simp
  | cons pair rest ih =>
    obtain ⟨head, value⟩ := pair
    by_cases hhead : head = key
    · subst hhead
      rw [List.filter_cons_of_neg (by simp), ih]
      by_cases h : head = other <;> simp [h]
    · rw [List.filter_cons_of_pos (by simpa using hhead), find_cons, find_cons, ih]
      by_cases h : head = other
      · subst h
        simp [Ne.symm hhead]
      · simp [h]

end Items

/-! ## Maps -/

/-- A finite map. -/
structure SortedMap (κ β : Type) [LinearOrder κ] where
  items : List (κ × β)
  sorted : Items.Sorted items

namespace SortedMap

variable {κ β : Type} [LinearOrder κ]

instance [DecidableEq β] : DecidableEq (SortedMap κ β) := fun left right ↦
  decidable_of_iff (left.items = right.items) (by
    constructor
    · intro h
      cases left
      cases right
      cases h
      rfl
    · exact congrArg _)

def empty : SortedMap κ β := ⟨[], List.Pairwise.nil⟩

instance : EmptyCollection (SortedMap κ β) := ⟨empty⟩

def find (map : SortedMap κ β) (key : κ) : Option β := Items.find key map.items

def insert (map : SortedMap κ β) (key : κ) (value : β) : SortedMap κ β :=
  ⟨Items.insert key value map.items, Items.sorted_insert map.sorted⟩

def erase (map : SortedMap κ β) (key : κ) : SortedMap κ β :=
  ⟨map.items.filter fun pair ↦ pair.1 ≠ key, by
    have hsublist := (List.filter_sublist (p := fun pair : κ × β ↦ decide (pair.1 ≠ key))
      (l := map.items)).map Prod.fst
    exact map.sorted.sublist hsublist⟩

def keys (map : SortedMap κ β) : List κ := map.items.map Prod.fst

@[ext]
theorem ext {left right : SortedMap κ β} (h : ∀ key, left.find key = right.find key) :
    left = right := by
  have hitems := Items.eq_of_find left.sorted right.sorted h
  cases left
  cases right
  cases hitems
  rfl

@[simp]
theorem find_empty (key : κ) : (∅ : SortedMap κ β).find key = none := rfl

theorem find_insert (map : SortedMap κ β) (key other : κ) (value : β) :
    (map.insert key value).find other = if key = other then some value else map.find other :=
  Items.find_insert key other value map.items

@[simp]
theorem find_insert_self (map : SortedMap κ β) (key : κ) (value : β) :
    (map.insert key value).find key = some value := by
  simp [find_insert]

@[simp]
theorem find_insert_of_ne (map : SortedMap κ β) {key other : κ} (h : key ≠ other) (value : β) :
    (map.insert key value).find other = map.find other := by
  simp [find_insert, h]

theorem insert_eq_self_iff {map : SortedMap κ β} {key : κ} {value : β} :
    map.insert key value = map ↔ map.find key = some value := by
  constructor
  · intro h
    rw [← h, find_insert_self]
  · intro h
    ext1 other
    rw [find_insert]
    split
    · next heq => rw [← heq, h]
    · rfl

theorem find_erase (map : SortedMap κ β) (key other : κ) :
    (map.erase key).find other = if key = other then none else map.find other :=
  Items.find_filter_ne key other map.items

theorem mem_keys {map : SortedMap κ β} {key : κ} : key ∈ map.keys ↔ map.find key ≠ none :=
  (not_iff_comm.mp Items.find_eq_none.symm).symm

theorem find_eq_some_iff {map : SortedMap κ β} {key : κ} {value : β} :
    map.find key = some value ↔ (key, value) ∈ map.items :=
  ⟨Items.mem_of_find, Items.find_of_mem map.sorted.nodup⟩

end SortedMap

end NetPixeld
