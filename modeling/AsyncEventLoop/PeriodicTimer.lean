import AsyncEventLoop.ArduinoTimers

/-!
# One periodic timer

A timer that has been asked once is due at a point of the grid
`first + period * k`, where `first` is the time of that call: the first
point behind the time it was last asked. `OnGrid` says so, and is all the
results of later calls depend on. However long the gaps are, a call is
true exactly if a point has gone by since the call before it. The last part
is about any due time and any period, where the next point may wrap: the
catching up ends there too.
-/

namespace AsyncEventLoop

open Runs

namespace PeriodicTimer

/-- A call of `ready` with its result, and `next_due_us()` behind it. -/
def readyStep (t : PeriodicTimer) (now : UInt64) : Option (PeriodicTimer × Bool × Nat) :=
  (t.ready now).map fun r => (r.2, r.1, r.2.nextDueUs.toNat)

/-- The whole periods between two times. -/
def periods (period first now : UInt64) : Nat := (now.toNat - first.toNat) / period.toNat

/-- The first point of the grid behind `now`. -/
def gridAfter (period first now : UInt64) : Nat :=
  first.toNat + period.toNat * (periods period first now + 1)

/-- The timer as `ready` at `last` left it. -/
structure OnGrid (period first last : UInt64) (t : PeriodicTimer) : Prop where
  periodUs : t.periodUs = period
  armed : t.armed = true
  nextDueUs : t.nextDueUs.toNat = gridAfter period first last

section

variable {period first last now : UInt64} {t : PeriodicTimer}

theorem periods_mono (h : last ≤ now) : periods period first last ≤ periods period first now :=
  Nat.div_le_div_right (Nat.sub_le_sub_right (UInt64.le_iff_toNat_le.mp h) _)

/-- A point of the grid has been reached exactly if the periods up to it are over. -/
theorem gridAfter_le_iff (hperiod : period ≠ 0) (hfirst : first ≤ now) :
    gridAfter period first last ≤ now.toNat
      ↔ periods period first last < periods period first now := by
  have hpos : 0 < period.toNat := Nat.pos_of_ne_zero fun h => hperiod (UInt64.toNat_inj.mp h)
  have hle : first.toNat ≤ now.toNat := UInt64.le_iff_toNat_le.mp hfirst
  rw [gridAfter, ← Nat.le_sub_iff_add_le' hle, Nat.mul_comm, ← Nat.le_div_iff_mul_le hpos]
  exact Nat.succ_le_iff

/-- From a point of the grid, whole periods lead to the first point behind `now`. -/
theorem dueAfter_eq (hperiod : period ≠ 0) (hperiodUs : t.periodUs = period) {k : Nat}
    (hdue : t.nextDueUs.toNat = first.toNat + period.toNat * k)
    (hk : k ≤ periods period first now) : t.dueAfter now = gridAfter period first now := by
  have hpos : 0 < period.toNat := Nat.pos_of_ne_zero fun h => hperiod (UInt64.toNat_inj.mp h)
  have hdiv : (now.toNat - t.nextDueUs.toNat) / period.toNat = periods period first now - k := by
    rw [hdue, ← Nat.sub_sub, Nat.sub_mul_div, periods]
  rw [dueAfter, hperiodUs, hdiv, hdue, gridAfter, Nat.add_assoc, Nat.mul_comm (_ - k + 1),
    ← Nat.mul_add]
  congr 2
  omega

/-- **The step**: `ready` says whether a point has gone by, and moves on. -/
theorem OnGrid.ready (h : OnGrid period first last t) (hperiod : period ≠ 0)
    (hfirst : first ≤ last) (hnow : last ≤ now) (hfits : gridAfter period first now < 2 ^ 64) :
    ∃ t', t.ready now
        = some (decide (periods period first last < periods period first now), t')
      ∧ OnGrid period first now t' := by
  have hle : first ≤ now := UInt64.le_trans hfirst hnow
  have hreached : gridAfter period first last ≤ now.toNat ↔ _ := gridAfter_le_iff hperiod hle
  unfold PeriodicTimer.ready
  rw [if_pos h.armed]
  dsimp only
  by_cases hlt : now < t.nextDueUs
  · have hstill : ¬periods period first last < periods period first now := by
      rw [← hreached, ← h.nextDueUs, Nat.not_le]
      exact UInt64.lt_iff_toNat_lt.mp hlt
    have hsame : periods period first now = periods period first last :=
      Nat.le_antisymm (Nat.not_lt.mp hstill) (periods_mono hnow)
    refine ⟨t, ?_, h.periodUs, h.armed, ?_⟩
    · rw [if_pos (Or.inr hlt), decide_eq_false hstill]
    · rw [h.nextDueUs, gridAfter, gridAfter, hsame]
  · have hdue : t.nextDueUs ≤ now := UInt64.not_lt.mp hlt
    have hgone : periods period first last < periods period first now := by
      rw [← hreached, ← h.nextDueUs]
      exact UInt64.le_iff_toNat_le.mp hdue
    have hperiod' : t.periodUs ≠ 0 := h.periodUs ▸ hperiod
    have hafter : t.dueAfter now = gridAfter period first now :=
      dueAfter_eq hperiod h.periodUs h.nextDueUs hgone
    have hturns : (now.toNat - t.nextDueUs.toNat) / t.periodUs.toNat < 2 ^ 64 :=
      Nat.lt_of_le_of_lt (Nat.div_le_self _ _)
        (Nat.lt_of_le_of_lt (Nat.sub_le _ _) now.toNat_lt)
    have hcatch := ArduinoLoop.catchUp_eq hperiod' hdue (hafter ▸ hfits) hturns
    refine ⟨{ t with nextDueUs := UInt64.ofNat (t.dueAfter now) }, ?_, h.periodUs, h.armed, ?_⟩
    · rw [if_neg (not_or.mpr ⟨hperiod', hlt⟩), hcatch, decide_eq_true hgone]
      rfl
    · show (UInt64.ofNat (t.dueAfter now)).toNat = _
      rw [hafter, UInt64.toNat_ofNat_of_lt' hfits]

/-- The first call arms the timer and finds it due. -/
theorem ready_fresh (hperiod : period ≠ 0) (hfits : gridAfter period first first < 2 ^ 64) :
    ∃ t', PeriodicTimer.ready { periodUs := period } first = some (true, t')
      ∧ OnGrid period first first t' := by
  let armed : PeriodicTimer := { periodUs := period, nextDueUs := first, armed := true }
  have hafter : armed.dueAfter first = gridAfter period first first :=
    dueAfter_eq hperiod rfl (k := 0) rfl (Nat.zero_le _)
  have hturns : (first.toNat - armed.nextDueUs.toNat) / armed.periodUs.toNat < 2 ^ 64 :=
    Nat.lt_of_le_of_lt (Nat.div_le_self _ _)
      (Nat.lt_of_le_of_lt (Nat.sub_le _ _) first.toNat_lt)
  have hcatch :=
    ArduinoLoop.catchUp_eq hperiod (UInt64.le_refl first) (hafter ▸ hfits) hturns
  refine ⟨{ armed with nextDueUs := UInt64.ofNat (armed.dueAfter first) }, ?_, rfl, rfl, ?_⟩
  · show (if period = 0 ∨ first < first then _ else _) = _
    rw [if_neg (not_or.mpr ⟨hperiod, UInt64.lt_irrefl first⟩)]
    exact congrArg (Option.map _) hcatch
  · show (UInt64.ofNat (armed.dueAfter first)).toNat = _
    rw [hafter, UInt64.toNat_ofNat_of_lt' hfits]

/-- What the calls at `times` say and leave, where the call before them was at `last`. -/
def answers (period first last : UInt64) (times : List UInt64) : List (Bool × Nat) :=
  List.zipWith (fun last now =>
    (decide (periods period first last < periods period first now), gridAfter period first now))
    (last :: times) times

theorem OnGrid.outputs_eq {times : List UInt64} (h : OnGrid period first last t)
    (hperiod : period ≠ 0) (hfirst : first ≤ last) (hsorted : (last :: times).Pairwise (· ≤ ·))
    (hfits : ∀ now ∈ times, gridAfter period first now < 2 ^ 64) :
    outputs readyStep t times = some (answers period first last times) := by
  induction times generalizing t last with
  | nil => rfl
  | cons now times ih =>
      obtain ⟨hlast, hrest⟩ := List.pairwise_cons.mp hsorted
      obtain ⟨hnow, hfits⟩ := List.forall_mem_cons.mp hfits
      have hle : last ≤ now := hlast now (List.mem_cons_self ..)
      obtain ⟨t', hready, hkept⟩ := h.ready hperiod hfirst hle hnow
      have hstep : readyStep t now = some (t',
          decide (periods period first last < periods period first now),
          gridAfter period first now) := by
        rw [readyStep, hready, Option.map_some, hkept.nextDueUs]
      rw [outputs, hstep, Option.bind_some, ih hkept (UInt64.le_trans hfirst hle) hrest hfits]
      rfl

end

/-- A fresh timer of any period, asked at any sorted times from `first` on such
that no due time overflows: the first call is true, a later one exactly if a
whole period has gone by since the call before it, and each leaves the first
point of the grid behind its time as the next due time. -/
theorem ready_closed_form {period first : UInt64} {times : List UInt64} (hperiod : period ≠ 0)
    (hsorted : (first :: times).Pairwise (· ≤ ·))
    (hfits : ∀ now ∈ first :: times, gridAfter period first now < 2 ^ 64) :
    outputs readyStep { periodUs := period } (first :: times)
      = some ((true, gridAfter period first first) :: answers period first first times) := by
  obtain ⟨hfresh, hfits⟩ := List.forall_mem_cons.mp hfits
  obtain ⟨t', hready, hgrid⟩ := ready_fresh hperiod hfresh
  have hstep : readyStep { periodUs := period } first
      = some (t', true, gridAfter period first first) := by
    rw [readyStep, hready, Option.map_some, hgrid.nextDueUs]
  rw [outputs, hstep, Option.bind_some,
    hgrid.outputs_eq hperiod (UInt64.le_refl first) hsorted hfits]
  rfl

/-- A call within the period, one at its end, one after a gap of some periods. -/
theorem ready_closed_form_run :
    outputs readyStep { periodUs := 100 } [7, 106, 107, 350, 406, 407]
      = some [(true, 107), (false, 107), (true, 207), (true, 407), (false, 407), (true, 507)] :=
  ready_closed_form (by decide) (by decide) (by simp [gridAfter, periods])

end PeriodicTimer

/-! ## Any due time -/

/-- In a timer: a call that finds it due. A timer that is not armed is due at once. -/
theorem PeriodicTimer.ready_firstLater {t : PeriodicTimer} {due now : UInt64} {k : Nat}
    (h : ArduinoLoop.FirstLater due t.periodUs now k) (hk : k ≤ 2 ^ 64) (hperiod : t.periodUs ≠ 0)
    (hdue : (if t.armed then t.nextDueUs else now) = due) (hle : due ≤ now) :
    t.ready now = some (true, { t with
      nextDueUs := UInt64.ofNat (due.toNat + k * t.periodUs.toNat), armed := true }) := by
  have harmed : (if t.armed then t else t.reset now)
      = { t with nextDueUs := due, armed := true } := by
    rw [← hdue]
    obtain ⟨periodUs, nextDueUs, armed⟩ := t
    cases armed <;> rfl
  unfold ready
  simp only [harmed]
  rw [if_neg (not_or.mpr ⟨hperiod, UInt64.not_lt.mpr hle⟩), h.catchUp_eq hk]
  rfl

/-- For every due time, every period that is not zero and every clock below
2^63, wrapping or not: the loop ends, at the first turn `k` whose due time
`(due + k * period) mod 2^64` lies behind `now`, and with that due time. So
does each of its two uses. -/
theorem catchUp_ends {due period now : UInt64} (hperiod : period ≠ 0) (hnow : now.toNat < 2 ^ 63) :
    ∃ (k : Nat) (next : UInt64), ArduinoLoop.FirstLater due period now k ∧ k ≤ 2 ^ 63 + 1
      ∧ next.toNat = (due.toNat + k * period.toNat) % 2 ^ 64 ∧ now < next
      ∧ (∀ turns, k ≤ turns → ArduinoLoop.catchUp turns due period now = some next)
      ∧ (∀ t : PeriodicTimer, t.periodUs = period → (if t.armed then t.nextDueUs else now) = due →
          due ≤ now → t.ready now = some (true, { t with nextDueUs := next, armed := true }))
      ∧ (∀ (n : Nat) (l : ArduinoLoop n) (i : Nat) (slot : TaskSlot),
          l.tasks[i]?.getD {} = slot → slot.live = true → slot.periodic = true →
          slot.periodUs = period → slot.nextDueUs = due →
          l.afterPoll now i = some { l with
            tasks := l.tasks.setIfInBounds i { slot with nextDueUs := next } }) := by
  obtain ⟨k, hk, hfirst⟩ : ∃ k, k ≤ 2 ^ 63 + 1 ∧ ArduinoLoop.FirstLater due period now k :=
    ArduinoLoop.exists_firstLater hperiod hnow
  have hturns : k ≤ 2 ^ 64 := Nat.le_trans hk (by decide)
  refine ⟨k, UInt64.ofNat (due.toNat + k * period.toNat), hfirst, hk, UInt64.toNat_ofNat', ?_,
    fun turns => hfirst.catchUp_eq, ?_, ?_⟩
  · rw [UInt64.lt_iff_toNat_lt, UInt64.toNat_ofNat']
    exact hfirst.later
  · rintro t rfl hdue hle
    exact PeriodicTimer.ready_firstLater hfirst hturns hperiod hdue hle
  · intro n l i slot hslot hlive hperiodic hslotPeriod hdue
    exact hfirst.afterPoll_eq hturns hslot hlive hperiodic hslotPeriod hdue

/-- A period of 2^64 - 3, which steps back by three and is out at the second turn. -/
theorem catchUp_ends_backwards :
    ArduinoLoop.catchUp 2 5 18446744073709551613 10 = some 18446744073709551615
      ∧ ∃ (k : Nat) (next : UInt64), ArduinoLoop.FirstLater 5 18446744073709551613 10 k ∧ 10 < next
        ∧ ArduinoLoop.catchUp (2 ^ 64) 5 18446744073709551613 10 = some next := by
  refine ⟨by decide, ?_⟩
  obtain ⟨k, next, hfirst, hk, -, hnext, hcatchUp, -⟩ :=
    @catchUp_ends 5 18446744073709551613 10 (by decide) (by decide)
  exact ⟨k, next, hfirst, hnext, hcatchUp (2 ^ 64) (Nat.le_trans hk (by decide))⟩

end AsyncEventLoop
