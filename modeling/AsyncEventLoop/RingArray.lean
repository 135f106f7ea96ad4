import Mathlib.Data.List.Rotate
import Mathlib.Data.Nat.ModEq

/-!
# Rings in fixed arrays

A ring buffer is an array of fixed length, the cell it begins at and the
number of cells in use, which go on at the front of the array when they
reach its end. `contents v head size` is the list those cells spell.

`blit` copies a list into consecutive cells and `slice` reads such cells.
Both refuse to leave the array; the lemmas say what they do to the contents
when they stay on one side of the end.
-/

namespace RingArray

variable {α : Type*} {N : Nat}

/-- The `size` cells from `head` on, around the end of the array. -/
def contents (v : Vector α N) (head size : Nat) : List α :=
  (v.toList.rotate head).take size

/-- The array with `xs` in the cells from `index` on, if they are cells of it. -/
def blit (v : Vector α N) (index : Nat) (xs : List α) : Option (Vector α N) :=
  if index + xs.length ≤ N then
    some (Vector.ofFn fun i : Fin N =>
      if index ≤ i then (xs[i.val - index]?).getD v[i] else v[i])
  else none

/-- The `count` cells from `index` on, if they are cells of the array. -/
def slice (v : Vector α N) (index count : Nat) : Option (List α) :=
  if index + count ≤ N then some ((v.toList.drop index).take count) else none

@[simp] theorem contents_zero (v : Vector α N) (head : Nat) : contents v head 0 = [] := by
  simp [contents]

theorem length_contents (v : Vector α N) (head : Nat) {size : Nat} (h : size ≤ N) :
    (contents v head size).length = size := by
  simp [contents, h]

theorem contents_getElem? (v : Vector α N) (head : Nat) {size i : Nat} (hi : i < size)
    (hsize : size ≤ N) : (contents v head size)[i]? = v[(i + head) % N]? := by
  have hlength : i < v.toList.length := by
    rw [Vector.length_toList]
    omega
  rw [contents, List.getElem?_take_of_lt hi, List.getElem?_rotate hlength, Vector.length_toList,
    Vector.getElem?_toList]

/-- Taking cells off the front. -/
theorem contents_drop (v : Vector α N) (head : Nat) {size count : Nat} (hsize : size ≤ N)
    (hcount : count ≤ size) :
    contents v ((head + count) % N) (size - count) = (contents v head size).drop count := by
  refine List.ext_getElem? ?_
  intro i
  rw [List.getElem?_drop]
  by_cases hi : i < size - count
  · rw [contents_getElem? v _ hi (by omega), contents_getElem? v head (by omega) hsize,
      Nat.add_mod_mod, show i + (head + count) = count + i + head by omega]
  · rw [List.getElem?_eq_none (by rw [length_contents v _ (by omega)]; omega),
      List.getElem?_eq_none (by rw [length_contents v _ hsize]; omega)]

/-- Reading in front of the end of the array. -/
theorem slice_contents (v : Vector α N) {head size count : Nat} (hhead : head + count ≤ N)
    (hcount : count ≤ size) :
    slice v head count = some ((contents v head size).take count) := by
  have hlength : head ≤ v.toList.length := by
    rw [Vector.length_toList]
    omega
  have hdrop : count ≤ (v.toList.drop head).length := by
    rw [List.length_drop, Vector.length_toList]
    omega
  rw [slice, if_pos hhead, contents, List.take_take, Nat.min_eq_left hcount,
    List.rotate_eq_drop_append_take hlength, List.take_append_of_le_length hdrop]

theorem blit_getElem? {v v' : Vector α N} {index : Nat} {xs : List α}
    (h : blit v index xs = some v') (k : Nat) :
    v'[k]? = if index ≤ k ∧ k < index + xs.length then xs[k - index]? else v[k]? := by
  obtain ⟨hroom, heq⟩ := Option.ite_none_right_eq_some.mp h
  obtain rfl := Option.some.inj heq
  rw [Vector.getElem?_ofFn]
  by_cases hk : k < N
  · rw [dif_pos hk]
    dsimp only
    by_cases hle : index ≤ k
    · by_cases hlt : k < index + xs.length
      · rw [if_pos hle, if_pos ⟨hle, hlt⟩, List.getElem?_eq_getElem (by omega), Option.getD_some]
      · rw [if_pos hle, if_neg (by omega), List.getElem?_eq_none (by omega), Option.getD_none,
          Vector.getElem?_eq_getElem hk]
        rfl
    · rw [if_neg hle, if_neg (by omega), Vector.getElem?_eq_getElem hk]
      rfl
  · rw [dif_neg hk, if_neg (by omega), Vector.getElem?_eq_none (by omega)]

/-- The cells behind the contents, up to the end of the array. -/
theorem tail_add {head size : Nat} (d : Nat) (h : (head + size) % N + d < N) :
    (size + d + head) % N = (head + size) % N + d := by
  rw [show size + d + head = head + size + d by omega, ← Nat.mod_add_mod, Nat.mod_eq_of_lt h]

/-- Writing behind the contents, in front of the end of the array. -/
theorem contents_blit {v v' : Vector α N} {head size : Nat} {xs : List α}
    (h : blit v ((head + size) % N) xs = some v') (hsize : size + xs.length ≤ N) :
    contents v' head (size + xs.length) = contents v head size ++ xs := by
  have htail : (head + size) % N + xs.length ≤ N := (Option.ite_none_right_eq_some.mp h).1
  have hlength : (contents v head size).length = size := length_contents v head (by omega)
  refine List.ext_getElem? ?_
  intro i
  by_cases hi : i < size + xs.length
  · rw [contents_getElem? v' head hi hsize, blit_getElem? h]
    by_cases hold : i < size
    · have hother : ¬((head + size) % N ≤ (i + head) % N
          ∧ (i + head) % N < (head + size) % N + xs.length) := by
        rintro ⟨hle, hlt⟩
        have hcell : (size + ((i + head) % N - (head + size) % N) + head) % N
            = (head + size) % N + ((i + head) % N - (head + size) % N) :=
          tail_add _ (by omega)
        rw [show (head + size) % N + ((i + head) % N - (head + size) % N) = (i + head) % N by
          omega] at hcell
        have hmod := Nat.ModEq.add_right_cancel' head hcell
        have heq := hmod.eq_of_lt_of_lt (by omega) (by omega)
        omega
      rw [if_neg hother, List.getElem?_append_left (by omega),
        contents_getElem? v head hold (by omega)]
    · have hcell : (size + (i - size) + head) % N = (head + size) % N + (i - size) :=
        tail_add _ (by omega)
      rw [show size + (i - size) = i by omega] at hcell
      rw [hcell, if_pos (by omega), List.getElem?_append_right (by omega), hlength]
      congr 1
      omega
  · rw [List.getElem?_eq_none (by rw [length_contents _ head hsize]; omega),
      List.getElem?_eq_none]
    rw [List.length_append, hlength]
    omega

/-! ## One cell at a time -/

/-- Writing the next cell behind the contents. -/
theorem contents_push (v : Vector α N) {head size : Nat} (hsize : size < N) (x : α) :
    contents (v.setIfInBounds ((head + size) % N) x) head (size + 1)
      = contents v head size ++ [x] := by
  have hlength : (contents v head size).length = size := length_contents v head (by omega)
  have htail : (head + size) % N < N := Nat.mod_lt _ (by omega)
  refine List.ext_getElem? ?_
  intro i
  rcases Nat.lt_trichotomy i size with hold | rfl | hnew
  · have hne : (head + size) % N ≠ (i + head) % N := by
      intro heq
      rw [Nat.add_comm head] at heq
      have hmod : size ≡ i [MOD N] := Nat.ModEq.add_right_cancel' head heq
      have := hmod.eq_of_lt_of_lt hsize (by omega)
      omega
    rw [contents_getElem? _ head (by omega) (by omega), Vector.getElem?_setIfInBounds_ne hne,
      List.getElem?_append_left (by omega), contents_getElem? v head hold (by omega)]
  · rw [contents_getElem? _ head (by omega) (by omega), Nat.add_comm i,
      Vector.getElem?_setIfInBounds_self_of_lt htail, List.getElem?_append_right (by omega),
      hlength, Nat.sub_self]
    rfl
  · rw [List.getElem?_eq_none (by rw [length_contents _ head (by omega)]; omega),
      List.getElem?_eq_none (by rw [List.length_append, hlength, List.length_singleton]; omega)]

/-- The first cell and the contents behind it. -/
theorem contents_pop (v : Vector α N) {head size : Nat} (hhead : head < N) (hpos : 0 < size)
    (hsize : size ≤ N) :
    contents v head size = v[head] :: contents v ((head + 1) % N) (size - 1) := by
  have hfirst : (contents v head size)[0]? = some v[head] := by
    rw [contents_getElem? v head hpos hsize, Nat.zero_add, Nat.mod_eq_of_lt hhead,
      Vector.getElem?_eq_getElem hhead]
  have htail : contents v ((head + 1) % N) (size - 1) = (contents v head size).tail := by
    rw [← List.drop_one]
    exact contents_drop v head hsize hpos
  rw [htail]
  exact (List.cons_head?_tail (List.head?_eq_getElem? ▸ hfirst)).symm

end RingArray
