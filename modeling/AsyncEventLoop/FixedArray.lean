import Mathlib.Data.List.Basic

/-!
# Fixed arrays filled from the front

A C-style buffer is an array of fixed length and a count of the cells in
use. `front v k` is the list the first `k` cells spell. The lemmas say how
the operations such code makes on the array (write the next cell, drop
everything, keep what is there) act on that list, so that a proof about
the code never looks inside the array again.
-/

namespace FixedArray

variable {α : Type*} {N : Nat}

/-- The first `k` cells of the array, in order. -/
def front (v : Vector α N) (k : Nat) : List α := v.toList.take k

@[simp] theorem front_zero (v : Vector α N) : front v 0 = [] := by
  simp [front]

theorem length_front (v : Vector α N) {k : Nat} (h : k ≤ N) :
    (front v k).length = k := by
  simp [front, h]

theorem front_getElem? (v : Vector α N) {k i : Nat} (hi : i < k) :
    (front v k)[i]? = v[i]? := by
  rw [front, List.getElem?_take_of_lt hi, ← Vector.getElem?_toList]

/-- The element behind the last cell in use. -/
theorem front_getLast? (v : Vector α N) {k : Nat} (hk : 0 < k) (h : k ≤ N) :
    (front v k).getLast? = v[k - 1]? := by
  rw [List.getLast?_eq_getElem?, length_front v h]
  exact front_getElem? v (by omega)

/-- A write at or behind the end of the front part does not change it. -/
theorem front_set_of_le (v : Vector α N) {i k : Nat} (hi : i < N) (x : α)
    (h : k ≤ i) : front (v.set i x hi) k = front v k := by
  rw [front, front, Vector.toList_set, List.take_set_of_le h]

theorem front_succ (v : Vector α N) {k : Nat} (h : k < N) :
    front v (k + 1) = front v k ++ [v[k]] := by
  rw [front, front, List.take_add_one]
  simp [h]

/-- Writing the next cell appends to the front part. -/
theorem front_push (v : Vector α N) {k : Nat} (h : k < N) (x : α) :
    front (v.set k x h) (k + 1) = front v k ++ [x] := by
  rw [front_succ _ h, front_set_of_le v h x (Nat.le_refl k)]
  simp

/-- Giving up the last cell drops the last element. -/
theorem front_pred (v : Vector α N) {k : Nat} (h : k ≤ N) :
    front v (k - 1) = (front v k).dropLast := by
  rw [List.dropLast_eq_take, length_front v h, front, front, List.take_take]
  congr 1
  omega

/-! ## Erasing a cell -/

/-- The loop that moves the cells behind `index` one place down. -/
def shiftDown (v : Vector α N) (blank : α) (index count : Nat) : Vector α N :=
  (List.range' (index + 1) (count - (index + 1))).foldl
    (fun v i => v.setIfInBounds (i - 1) (v[i]?.getD blank)) v

/-- After `m` turns of the loop the first `m` cells from `index` on hold
their successors and no other cell has changed. -/
theorem shift_getElem? (v : Vector α N) (blank : α) (index : Nat) {m : Nat}
    (h : index + m < N) (j : Nat) :
    ((List.range' (index + 1) m).foldl
        (fun v i => v.setIfInBounds (i - 1) (v[i]?.getD blank)) v)[j]?
      = if index ≤ j ∧ j < index + m then v[j + 1]? else v[j]? := by
  induction m generalizing j with
  | zero =>
      rw [if_neg (by omega)]
      rfl
  | succ m ih =>
      rw [List.range'_concat, List.foldl_append, List.foldl_cons, List.foldl_nil]
      have hnext := ih (by omega) (index + 1 + m)
      rw [if_neg (by omega)] at hnext
      rw [Nat.one_mul, hnext, Vector.getElem?_setIfInBounds]
      have hcell : v[index + 1 + m]? = some v[index + 1 + m] :=
        Vector.getElem?_eq_getElem (by omega)
      by_cases hj : index + 1 + m - 1 = j
      · subst hj
        rw [if_pos rfl, if_pos (by omega), if_pos (by omega),
          show index + 1 + m - 1 + 1 = index + 1 + m by omega, hcell]
        rfl
      · rw [if_neg hj, ih (by omega)]
        by_cases hin : index ≤ j ∧ j < index + m
        · rw [if_pos hin, if_pos (by omega)]
        · rw [if_neg hin, if_neg (by omega)]

theorem shiftDown_getElem? (v : Vector α N) (blank : α) {index count : Nat}
    (hi : index < count) (hc : count ≤ N) (j : Nat) :
    (shiftDown v blank index count)[j]?
      = if index ≤ j ∧ j < count - 1 then v[j + 1]? else v[j]? := by
  rw [shiftDown, shift_getElem? v blank index (by omega),
    show index + (count - (index + 1)) = count - 1 by omega]

/-- Moving down and giving up the last cell erases the element at `index`. -/
theorem front_shiftDown (v : Vector α N) (blank : α) {index count : Nat}
    (hi : index < count) (hc : count ≤ N) :
    front (shiftDown v blank index count) (count - 1) = (front v count).eraseIdx index := by
  refine List.ext_getElem? ?_
  intro j
  by_cases hj : j < count - 1
  · rw [front_getElem? _ hj, shiftDown_getElem? v blank hi hc, List.getElem?_eraseIdx]
    by_cases hlt : j < index
    · rw [if_neg (by omega), if_pos hlt, front_getElem? _ (by omega)]
    · rw [if_pos (by omega), if_neg hlt, front_getElem? _ (by omega)]
  · rw [List.getElem?_eq_none (by rw [length_front _ (by omega)]; omega),
      List.getElem?_eq_none]
    rw [List.length_eraseIdx, length_front _ hc]
    split <;> omega

end FixedArray
