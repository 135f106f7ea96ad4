import Mathlib.Data.Finset.Option
import Mathlib.Data.Fintype.Card
import Mathlib.Algebra.Order.BigOperators.Group.Finset

/-!
# Sets kept in fixed arrays

An array of optional cells holds a set, the `members`, as long as no
element is in two cells (`Distinct`). There are as many members as
`occupied` cells, so a free cell can be found exactly if the set is
smaller than the array.
-/

namespace SlotArray

variable {α : Type*} [DecidableEq α] {N : Nat}

/-- The cells in use. -/
def occupied (v : Fin N → Option α) : Finset (Fin N) := Finset.univ.filter fun i => (v i).isSome

/-- What is in some cell. -/
def members (v : Fin N → Option α) : Finset α := Finset.univ.biUnion fun i => (v i).toFinset

/-- No element is in two cells. -/
def Distinct (v : Fin N → Option α) : Prop := ∀ i j x, v i = some x → v j = some x → i = j

theorem mem_members {v : Fin N → Option α} {x : α} : x ∈ members v ↔ ∃ i, v i = some x := by
  simp [members]

omit [DecidableEq α] in
theorem mem_occupied {v : Fin N → Option α} {i : Fin N} :
    i ∈ occupied v ↔ (v i).isSome = true := by
  simp [occupied]

theorem members_eq_biUnion (v : Fin N → Option α) :
    members v = (occupied v).biUnion fun i => (v i).toFinset := by
  ext x
  simp only [mem_members, Finset.mem_biUnion, mem_occupied, Option.mem_toFinset, Option.mem_def]
  exact exists_congr fun i => ⟨fun h => ⟨h ▸ rfl, h⟩, And.right⟩

/-- As many members as cells in use. -/
theorem card_members {v : Fin N → Option α} (h : Distinct v) :
    (members v).card = (occupied v).card := by
  rw [members_eq_biUnion, Finset.card_biUnion]
  · rw [Finset.card_eq_sum_ones]
    refine Finset.sum_congr rfl ?_
    intro i hi
    obtain ⟨x, hx⟩ := Option.isSome_iff_exists.mp (mem_occupied.mp hi)
    rw [hx, Option.toFinset_some, Finset.card_singleton]
  · intro i _ j _ hij
    refine Finset.disjoint_left.mpr ?_
    intro x hi hj
    rw [Option.mem_toFinset, Option.mem_def] at hi hj
    exact hij (h i j x hi hj)

theorem card_members_le {v : Fin N → Option α} (h : Distinct v) : (members v).card ≤ N := by
  rw [card_members h]
  exact (Finset.card_le_univ _).trans_eq (Fintype.card_fin N)

/-- A free cell, unless the set is as large as the array. -/
theorem exists_free_iff {v : Fin N → Option α} (h : Distinct v) :
    (∃ i, v i = none) ↔ (members v).card < N := by
  have hcard : (occupied v).card < N ↔ occupied v ≠ Finset.univ := by
    rw [← Finset.card_lt_iff_ne_univ, Fintype.card_fin]
  rw [card_members h, hcard, Ne, Finset.eq_univ_iff_forall, not_forall]
  refine exists_congr ?_
  intro i
  rw [mem_occupied, Option.not_isSome_iff_eq_none]

/-! ## Cells filled and emptied -/

section

variable {v : Fin N → Option α} {i : Fin N} {x : α}

omit [DecidableEq α] in
theorem card_occupied_fill (hfree : v i = none) :
    (occupied (Function.update v i (some x))).card = (occupied v).card + 1 := by
  have hset : occupied (Function.update v i (some x)) = insert i (occupied v) := by
    ext j
    rw [Finset.mem_insert, mem_occupied, mem_occupied]
    by_cases hji : j = i
    · simp [hji]
    · simp [hji]
  rw [hset, Finset.card_insert_of_notMem]
  simp [mem_occupied, hfree]

omit [DecidableEq α] in
theorem card_occupied_empty (hi : v i = some x) :
    (occupied (Function.update v i none)).card = (occupied v).card - 1 := by
  have hset : occupied (Function.update v i none) = (occupied v).erase i := by
    ext j
    rw [Finset.mem_erase, mem_occupied, mem_occupied]
    by_cases hji : j = i
    · simp [hji]
    · simp [hji]
  rw [hset, Finset.card_erase_of_mem]
  simp [mem_occupied, hi]

theorem members_fill (hfree : v i = none) :
    members (Function.update v i (some x)) = insert x (members v) := by
  ext y
  rw [Finset.mem_insert, mem_members, mem_members]
  constructor
  · rintro ⟨j, hj⟩
    by_cases hji : j = i
    · rw [hji, Function.update_self] at hj
      exact Or.inl (Option.some.inj hj).symm
    · rw [Function.update_of_ne hji] at hj
      exact Or.inr ⟨j, hj⟩
  · rintro (rfl | ⟨j, hj⟩)
    · exact ⟨i, Function.update_self ..⟩
    · have hji : j ≠ i := by
        rintro rfl
        exact absurd (hfree.symm.trans hj) (by simp)
      exact ⟨j, by rw [Function.update_of_ne hji, hj]⟩

theorem Distinct.fill (h : Distinct v) (hnew : x ∉ members v) :
    Distinct (Function.update v i (some x)) := by
  have hcell : ∀ j y, Function.update v i (some x) j = some y →
      (j = i ∧ y = x) ∨ (j ≠ i ∧ v j = some y) := by
    intro j y hj
    by_cases hji : j = i
    · rw [hji, Function.update_self] at hj
      exact Or.inl ⟨hji, (Option.some.inj hj).symm⟩
    · rw [Function.update_of_ne hji] at hj
      exact Or.inr ⟨hji, hj⟩
  intro j k y hj hk
  rcases hcell j y hj with ⟨rfl, rfl⟩ | ⟨-, hold⟩
  · rcases hcell k y hk with ⟨rfl, -⟩ | ⟨-, hother⟩
    · rfl
    · exact absurd (mem_members.mpr ⟨k, hother⟩) hnew
  · rcases hcell k y hk with ⟨-, rfl⟩ | ⟨-, hother⟩
    · exact absurd (mem_members.mpr ⟨j, hold⟩) hnew
    · exact h j k y hold hother

omit [DecidableEq α] in
/-- Fewer cells in use keep the elements apart. -/
theorem Distinct.mono {w : Fin N → Option α} (h : Distinct v)
    (hsub : ∀ j y, w j = some y → v j = some y) : Distinct w :=
  fun j k y hj hk => h j k y (hsub j y hj) (hsub k y hk)

omit [DecidableEq α] in
theorem Distinct.empty (h : Distinct v) (i : Fin N) : Distinct (Function.update v i none) := by
  refine h.mono ?_
  intro j y hj
  by_cases hji : j = i
  · rw [hji, Function.update_self] at hj
    cases hj
  · rwa [Function.update_of_ne hji] at hj

theorem members_erase (h : Distinct v) (hi : v i = some x) :
    members (Function.update v i none) = (members v).erase x := by
  ext y
  rw [Finset.mem_erase, mem_members, mem_members]
  constructor
  · rintro ⟨j, hj⟩
    have hji : j ≠ i := by
      rintro rfl
      rw [Function.update_self] at hj
      cases hj
    rw [Function.update_of_ne hji] at hj
    refine ⟨?_, j, hj⟩
    rintro rfl
    exact hji (h j i y hj hi)
  · rintro ⟨hne, j, hj⟩
    have hji : j ≠ i := by
      rintro rfl
      exact hne (Option.some.inj (hj.symm.trans hi))
    exact ⟨j, by rw [Function.update_of_ne hji, hj]⟩

end

end SlotArray
