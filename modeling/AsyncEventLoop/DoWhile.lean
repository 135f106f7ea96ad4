import Mathlib.Logic.Function.Iterate
import Mathlib.Data.Nat.Find

/-!
# Loops with their test behind the body

`doWhile f c` is `do x = f x; while (c x)`, given up after a number of
turns. It is decided by the first turn behind which the test fails
(`EndsAt`): with that many turns or more the loop ends with that iterate,
with fewer it is given up.

The second part is about the loops that step through the residues of `2 * h`.
Whatever the step is, it cannot go round without setting foot in the upper
half: a step of at most `h` does not reach over it, and a longer one is a
step back of less than `h`, which comes down into it from zero.
-/

namespace DoWhile

/-! ## The loop and its first exit -/

section

variable {α : Type*} {f : α → α} {c : α → Bool} {x y : α} {turns k : Nat}

/-- The value the loop ends with, if it ends within the turns. -/
def doWhile (f : α → α) (c : α → Bool) : Nat → α → Option α
  | 0, _ => none
  | turns + 1, x => if c (f x) then doWhile f c turns (f x) else some (f x)

/-- The test fails behind turn `k` and behind no turn before it. -/
structure EndsAt (f : α → α) (c : α → Bool) (x : α) (k : Nat) : Prop where
  pos : 1 ≤ k
  stop : c (f^[k] x) = false
  goOn : ∀ j, 1 ≤ j → j < k → c (f^[j] x) = true

/-- A turn that goes on is one turn less to go. -/
theorem endsAt_succ (h : c (f x) = true) (hk : 1 ≤ k) :
    EndsAt f c x (k + 1) ↔ EndsAt f c (f x) k := by
  constructor
  · intro hends
    refine ⟨hk, hends.stop, ?_⟩
    intro j hj hlt
    exact hends.goOn (j + 1) (Nat.le_add_left 1 j) (Nat.succ_lt_succ hlt)
  · intro hends
    refine ⟨Nat.le_add_left 1 k, hends.stop, ?_⟩
    intro j hj hlt
    obtain ⟨i, rfl⟩ : ∃ i, j = i + 1 := ⟨j - 1, by omega⟩
    cases i with
    | zero => exact h
    | succ i => exact hends.goOn (i + 1) (Nat.le_add_left 1 i) (Nat.lt_of_succ_lt_succ hlt)

theorem EndsAt.two_le (h : EndsAt f c x k) (hgo : c (f x) = true) : 2 ≤ k := by
  by_contra hlt
  obtain rfl : k = 1 := Nat.le_antisymm (by omega) h.pos
  rw [show c (f x) = false from h.stop] at hgo
  cases hgo

/-- **The rule of the loop**: with enough turns it ends with the iterate of its first exit. -/
theorem EndsAt.doWhile_eq (h : EndsAt f c x k) (hturns : k ≤ turns) :
    doWhile f c turns x = some (f^[k] x) := by
  induction turns generalizing x k with
  | zero => exact absurd (Nat.le_trans h.pos hturns) (Nat.not_succ_le_zero 0)
  | succ turns ih =>
      rw [doWhile]
      by_cases hgo : c (f x) = true
      · obtain ⟨i, rfl⟩ : ∃ i, k = i + 1 := ⟨k - 1, by have := h.pos; omega⟩
        have hi : 1 ≤ i := Nat.le_of_succ_le_succ (h.two_le hgo)
        rw [if_pos hgo, ih ((endsAt_succ hgo hi).mp h) (Nat.le_of_succ_le_succ hturns)]
        rfl
      · have hone : k = 1 := by
          by_contra hne
          exact hgo (h.goOn 1 (Nat.le_refl 1) (Nat.lt_of_le_of_ne h.pos (Ne.symm hne)))
        rw [if_neg hgo, hone]
        rfl

/-- A loop that is out somewhere has a first exit. -/
theorem exists_endsAt (hk : 1 ≤ k) (hout : c (f^[k] x) = false) :
    ∃ j, j ≤ k ∧ EndsAt f c x j := by
  classical
  have hex : ∃ j, 1 ≤ j ∧ c (f^[j] x) = false := ⟨k, hk, hout⟩
  refine ⟨Nat.find hex, Nat.find_min' hex ⟨hk, hout⟩, (Nat.find_spec hex).1,
    (Nat.find_spec hex).2, ?_⟩
  intro j hj hlt
  by_contra hstop
  exact Nat.find_min hex hlt ⟨hj, Bool.eq_false_iff.mpr hstop⟩

end

/-! ## Steps through the residues -/

section

variable {h a p j m : Nat}

/-- One step taken first. -/
theorem mod_step : (a + (j + 1) * p) % m = ((a + p) % m + j * p) % m := by
  rw [Nat.mod_add_mod, Nat.succ_mul]
  congr 1
  omega

/-- A step of at most half the range comes up and does not reach over the upper half. -/
theorem upper_half_of_le (hp : 0 < p) (hle : p ≤ h) (ha : a < h) :
    ∃ j, 1 ≤ j ∧ j ≤ h ∧ h ≤ (a + j * p) % (2 * h) := by
  suffices hturns : ∀ d a, h - a = d → a < h →
      ∃ j, 1 ≤ j ∧ j ≤ d ∧ h ≤ (a + j * p) % (2 * h) by
    obtain ⟨j, hj, hjd, hin⟩ := hturns (h - a) a rfl ha
    exact ⟨j, hj, Nat.le_trans hjd (Nat.sub_le h a), hin⟩
  intro d
  induction d using Nat.strong_induction_on with
  | _ d ih =>
      intro a hd ha
      have hsum : (a + p) % (2 * h) = a + p := Nat.mod_eq_of_lt (by omega)
      by_cases hreached : h ≤ a + p
      · refine ⟨1, Nat.le_refl 1, by omega, ?_⟩
        rwa [Nat.one_mul, hsum]
      · obtain ⟨j, hj, hjd, hin⟩ := ih (h - (a + p)) (by omega) (a + p) rfl (by omega)
        refine ⟨j + 1, Nat.le_add_left 1 j, by omega, ?_⟩
        rwa [mod_step, hsum]

/-- A longer one is a step down, of less than half the range, and comes round at zero. -/
theorem upper_half_of_gt (hgt : h < p) (hlt : p < 2 * h) (ha : a < h) :
    ∃ j, 1 ≤ j ∧ j ≤ h ∧ h ≤ (a + j * p) % (2 * h) := by
  suffices hturns : ∀ a, a < h → ∃ j, 1 ≤ j ∧ j ≤ a + 1 ∧ h ≤ (a + j * p) % (2 * h) by
    obtain ⟨j, hj, hja, hin⟩ := hturns a ha
    exact ⟨j, hj, Nat.le_trans hja ha, hin⟩
  intro a
  induction a using Nat.strong_induction_on with
  | _ a ih =>
      intro ha
      by_cases hround : a + p < 2 * h
      · refine ⟨1, Nat.le_refl 1, Nat.le_add_left 1 a, ?_⟩
        rw [Nat.one_mul, Nat.mod_eq_of_lt hround]
        omega
      · have hdown : (a + p) % (2 * h) = a + p - 2 * h := by
          rw [Nat.mod_eq_sub_mod (Nat.not_lt.mp hround), Nat.mod_eq_of_lt (by omega)]
        obtain ⟨j, hj, hja, hin⟩ := ih (a + p - 2 * h) (by omega) (by omega)
        refine ⟨j + 1, Nat.le_add_left 1 j, by omega, ?_⟩
        rwa [mod_step, hdown]

/-- **Any step that is not zero gets into the upper half**, from anywhere. -/
theorem upper_half (hp : 0 < p) (hlt : p < 2 * h) :
    ∃ k, 1 ≤ k ∧ k ≤ h + 1 ∧ h ≤ (a + k * p) % (2 * h) := by
  by_cases hin : h ≤ (a + p) % (2 * h)
  · exact ⟨1, Nat.le_refl 1, Nat.le_add_left 1 h, by rwa [Nat.one_mul]⟩
  · have hlow : (a + p) % (2 * h) < h := Nat.not_le.mp hin
    obtain ⟨j, hj, hjh, hin⟩ : ∃ j, 1 ≤ j ∧ j ≤ h ∧
        h ≤ ((a + p) % (2 * h) + j * p) % (2 * h) := by
      by_cases hle : p ≤ h
      · exact upper_half_of_le hp hle hlow
      · exact upper_half_of_gt (Nat.not_le.mp hle) hlt hlow
    exact ⟨j + 1, Nat.le_add_left 1 j, Nat.succ_le_succ hjh, by rwa [mod_step]⟩

end

end DoWhile
