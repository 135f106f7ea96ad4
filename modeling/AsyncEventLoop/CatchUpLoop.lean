import AsyncEventLoop.ArduinoLoop
import AsyncEventLoop.DoWhile

/-!
# The catch-up loop on wrapping words

`do next_due += period; while (now >= next_due)` is the same loop in
`PeriodicTimer::ready` and in `run_once` of the cooperative scheduler. The
sum wraps, so the due time need not grow from turn to turn. What ends the
loop is that no period but zero keeps the due time out of the upper half of
the words for more than half the range: a clock below it is passed there at
the latest.
-/

namespace AsyncEventLoop

open DoWhile

namespace ArduinoLoop

variable {due period now : UInt64} {turns k : Nat}

theorem catchUp_eq_doWhile :
    catchUp turns due period now
      = doWhile (· + period) (fun due => decide (now ≥ due)) turns due := by
  induction turns generalizing due with
  | zero => rfl
  | succ turns ih =>
      rw [catchUp, doWhile, ih]
      simp only [decide_eq_true_eq]

theorem toNat_iterate_add :
    ((· + period)^[k] due).toNat = (due.toNat + k * period.toNat) % 2 ^ 64 := by
  induction k with
  | zero => rw [Nat.zero_mul, Nat.add_zero, Nat.mod_eq_of_lt due.toNat_lt]; rfl
  | succ k ih =>
      rw [Function.iterate_succ_apply', UInt64.toNat_add, ih, Nat.mod_add_mod, Nat.succ_mul,
        Nat.add_assoc]

theorem iterate_add_eq :
    (· + period)^[k] due = UInt64.ofNat (due.toNat + k * period.toNat) := by
  rw [← UInt64.toNat_inj, toNat_iterate_add, UInt64.toNat_ofNat']

/-- Turn `k` is the first behind which the due time is later than `now`. -/
structure FirstLater (due period now : UInt64) (k : Nat) : Prop where
  pos : 1 ≤ k
  later : now.toNat < (due.toNat + k * period.toNat) % 2 ^ 64
  notBefore : ∀ j, 1 ≤ j → j < k → (due.toNat + j * period.toNat) % 2 ^ 64 ≤ now.toNat

theorem firstLater_iff :
    FirstLater due period now k ↔ EndsAt (· + period) (fun due => decide (now ≥ due)) due k := by
  have hle : ∀ j, now ≥ (· + period)^[j] due
      ↔ (due.toNat + j * period.toNat) % 2 ^ 64 ≤ now.toNat := fun j => by
    rw [ge_iff_le, UInt64.le_iff_toNat_le, toNat_iterate_add]
  constructor
  · intro h
    refine ⟨h.pos, ?_, fun j hj hlt => ?_⟩
    · exact decide_eq_false ((hle k).not.mpr (Nat.not_le.mpr h.later))
    · exact decide_eq_true ((hle j).mpr (h.notBefore j hj hlt))
  · intro h
    refine ⟨h.pos, ?_, fun j hj hlt => ?_⟩
    · exact Nat.not_le.mp ((hle k).not.mp (of_decide_eq_false h.stop))
    · exact (hle j).mp (of_decide_eq_true (h.goOn j hj hlt))

theorem exists_firstLater (hperiod : period ≠ 0) (hnow : now.toNat < 2 ^ 63) :
    ∃ k, k ≤ 2 ^ 63 + 1 ∧ FirstLater due period now k := by
  have hpos : 0 < period.toNat :=
    Nat.pos_of_ne_zero fun h => hperiod (UInt64.toNat_inj.mp h)
  obtain ⟨k, hk, hbound, hin⟩ :=
    upper_half (h := 2 ^ 63) (a := due.toNat) hpos period.toNat_lt
  have hlater : now < (· + period)^[k] due := by
    rw [UInt64.lt_iff_toNat_lt, toNat_iterate_add]
    exact Nat.lt_of_lt_of_le hnow hin
  obtain ⟨j, hj, hends⟩ := exists_endsAt (f := (· + period)) (c := fun due => decide (now ≥ due))
    hk (decide_eq_false (UInt64.not_le.mpr hlater))
  exact ⟨j, Nat.le_trans hj hbound, firstLater_iff.mpr hends⟩

theorem FirstLater.catchUp_eq (h : FirstLater due period now k) (hturns : k ≤ turns) :
    catchUp turns due period now = some (UInt64.ofNat (due.toNat + k * period.toNat)) := by
  rw [catchUp_eq_doWhile, (firstLater_iff.mp h).doWhile_eq hturns, iterate_add_eq]

/-- As long as no due time overflows, the turns are the whole periods that have gone by and
one more. -/
theorem firstLater_of_fits (hperiod : period ≠ 0) (hdue : due ≤ now)
    (hfits : due.toNat + ((now.toNat - due.toNat) / period.toNat + 1) * period.toNat < 2 ^ 64) :
    FirstLater due period now ((now.toNat - due.toNat) / period.toNat + 1) := by
  have hpos : 0 < period.toNat :=
    Nat.pos_of_ne_zero fun h => hperiod (UInt64.toNat_inj.mp h)
  have hle : due.toNat ≤ now.toNat := UInt64.le_iff_toNat_le.mp hdue
  refine ⟨Nat.le_add_left 1 _, ?_, ?_⟩
  · have hgone : now.toNat - due.toNat
        < ((now.toNat - due.toNat) / period.toNat + 1) * period.toNat :=
      Nat.lt_mul_of_div_lt (Nat.lt_succ_self _) hpos
    rw [Nat.mod_eq_of_lt hfits]
    omega
  · intro j _ hlt
    have hmul : j * period.toNat ≤ now.toNat - due.toNat :=
      Nat.le_trans (Nat.mul_le_mul_right _ (Nat.le_of_lt_succ hlt)) (Nat.div_mul_le_self _ _)
    have hsum : due.toNat + j * period.toNat ≤ now.toNat := by omega
    rwa [Nat.mod_eq_of_lt (Nat.lt_of_le_of_lt hsum now.toNat_lt)]

/-- In the scheduler: what is left of the loop body once the task is polled. -/
theorem FirstLater.afterPoll_eq (h : FirstLater due period now k) (hk : k ≤ 2 ^ 64) {n : Nat}
    {l : ArduinoLoop n} {i : Nat} {slot : TaskSlot} (hslot : l.tasks[i]?.getD {} = slot)
    (hlive : slot.live = true) (hperiodic : slot.periodic = true)
    (hperiod : slot.periodUs = period) (hdue : slot.nextDueUs = due) :
    l.afterPoll now i = some { l with
      tasks := l.tasks.setIfInBounds i
        { slot with nextDueUs := UInt64.ofNat (due.toNat + k * period.toNat) } } := by
  unfold afterPoll
  simp only [hslot, hlive, hperiodic, Bool.not_true, Bool.false_eq_true, if_false, if_true]
  rw [hperiod, hdue, h.catchUp_eq hk]
  rfl

end ArduinoLoop

end AsyncEventLoop
