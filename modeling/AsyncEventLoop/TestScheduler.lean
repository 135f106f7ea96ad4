import AsyncEventLoop.ArduinoRuns
import AsyncEventLoop.CatchUpLoop

/-!
# The scheduler of the tests

The tests run on `TestScheduler`, a second implementation of the scheduler. It
differs from `ArduinoLoopImpl` in what compaction leaves behind the cells in
use: that one blanks the cell it gives up, this one keeps a stale copy there. A
pass whose `poll` compacts the array may be looking at such a cell when the
`poll` returns, and then one of the two goes by a blank slot and the other by a
stale one.

No caller can tell. `Same` relates two schedulers with the same cells in use;
every operation keeps it, and a step of one is matched by a step of the other
with the same result and the same polls.
-/

namespace AsyncEventLoop

open FixedArray Runs

/-- `TestScheduler` has the fields of `ArduinoLoopImpl`. -/
abbrev TestScheduler (MaxTasks : Nat) := ArduinoLoop MaxTasks

namespace TestScheduler

variable {n : Nat}

/-- The inner loop of `compact_inactive`, and `--count_`. -/
def eraseTask (l : TestScheduler n) (index : Nat) : TestScheduler n :=
  { l with
    tasks := shiftDown l.tasks {} index l.taskCount
    taskCount := l.taskCount - 1 }

def compactFrom : Nat → Nat → TestScheduler n → TestScheduler n
  | 0, _, l => l
  | turns + 1, i, l =>
      if i < l.taskCount then
        if (l.tasks[i]?.getD {}).live then compactFrom turns (i + 1) l
        else compactFrom turns i (eraseTask l i)
      else l

def compactInactive (l : TestScheduler n) : TestScheduler n := compactFrom l.taskCount 0 l

def addPeriodic (l : TestScheduler n) (task : Nat) (periodUs now : UInt64) (reg : Nat) :
    Bool × TestScheduler n :=
  let l := compactInactive l
  if periodUs = 0 then (false, l)
  else
    l.pushTask
      { task := some task, periodUs := periodUs, nextDueUs := now, periodic := true,
        active := true, reg := reg }

def addOneShot (l : TestScheduler n) (task : Nat) (dueUs : UInt64) (reg : Nat) :
    Bool × TestScheduler n :=
  (compactInactive l).pushTask
    { task := some task, periodUs := 0, nextDueUs := dueUs, periodic := false,
      active := true, reg := reg }

def remove (l : TestScheduler n) (task : Nat) : Bool × TestScheduler n :=
  let removed := (front l.tasks l.taskCount).any fun slot => slot.task = some task
  let l := l.markRemoved task
  (removed, if l.running then l else compactInactive l)

def beginPass (l : TestScheduler n) : TestScheduler n :=
  { compactInactive l with running := true }

def endPass (l : TestScheduler n) : TestScheduler n := compactInactive { l with running := false }

/-! ## Runs of both -/

/-- The loop of `run_once` from cell `i` on. -/
def advance (s : LoopState n) (now : UInt64) (i : Nat) : LoopState n :=
  match s.loop.nextDue now i with
  | some j =>
      let reg := (s.loop.tasks[j]?.getD {}).reg
      { s with frames := ⟨now, j, reg⟩ :: s.frames, log := .polled reg now :: s.log }
  | none => { s with loop := endPass s.loop }

/-- One event. -/
def step (s : LoopState n) : LoopEvent → Option (LoopState n)
  | .addPeriodic task periodUs now =>
      if now < s.clock then none
      else
        some { s with
          loop := (addPeriodic s.loop task periodUs now s.nextReg).2
          clock := now
          nextReg := s.nextReg + 1 }
  | .addOneShot task dueUs =>
      let r := addOneShot s.loop task dueUs s.nextReg
      some { s with
        loop := r.2
        nextReg := s.nextReg + 1
        log := if r.1 then .accepted s.nextReg task dueUs :: s.log else s.log }
  | .remove task =>
      some { s with
        loop := (remove s.loop task).2
        log := s.loop.removals task ++ s.log }
  | .runOnce now =>
      if now < s.clock then none
      else some (advance { s with loop := beginPass s.loop, clock := now } now 0)
  | .pollReturns =>
      match s.frames with
      | [] => none
      | f :: rest =>
          (s.loop.afterPoll f.now f.index).map fun l =>
            advance { s with loop := l, frames := rest } f.now (f.index + 1)

/-- What a call returns. -/
def result (s : LoopState n) : LoopEvent → Bool
  | .addPeriodic task periodUs now => (addPeriodic s.loop task periodUs now s.nextReg).1
  | .addOneShot task dueUs => (addOneShot s.loop task dueUs s.nextReg).1
  | .remove task => (remove s.loop task).1
  | _ => true

/-- A step, with what the caller and the tasks see of it. -/
def observed (s : LoopState n) (e : LoopEvent) :
    Option (LoopState n × Bool × List LoopObs) :=
  (step s e).map fun t => (t, result s e, t.log)

end TestScheduler

namespace ArduinoLoop

variable {n : Nat}

def result (s : LoopState n) : LoopEvent → Bool
  | .addPeriodic task periodUs now => (s.loop.addPeriodic task periodUs now s.nextReg).1
  | .addOneShot task dueUs => (s.loop.addOneShot task dueUs s.nextReg).1
  | .remove task => (s.loop.remove task).1
  | _ => true

def observed (s : LoopState n) (e : LoopEvent) :
    Option (LoopState n × Bool × List LoopObs) :=
  (step s e).map fun t => (t, result s e, t.log)

end ArduinoLoop

namespace TestScheduler

variable {n : Nat}

/-! ## The same cells in use -/

/-- Whatever is in the cells, those of periodic tasks have a period. -/
def Armed (l : ArduinoLoop n) : Prop :=
  ∀ (j : Nat) (slot : TaskSlot), l.tasks[j]? = some slot → slot.periodic = true →
    slot.periodUs ≠ 0

structure Same (l l' : ArduinoLoop n) : Prop where
  entries : l.entries = l'.entries
  count : l.taskCount = l'.taskCount
  running : l.running = l'.running
  bounded : l.taskCount ≤ n
  armed : Armed l
  armed' : Armed l'

variable {l l' : ArduinoLoop n}

theorem Same.bounded' (h : Same l l') : l'.taskCount ≤ n := h.count ▸ h.bounded

theorem Same.cell (h : Same l l') {i : Nat} (hi : i < l.taskCount) :
    l.tasks[i]?.getD {} = l'.tasks[i]?.getD {} := by
  have hcell := ArduinoLoop.cell_eq h.bounded i hi
  have hcell' := ArduinoLoop.cell_eq h.bounded' i (h.count ▸ hi)
  rw [h.entries, hcell'] at hcell
  exact (Option.some.inj hcell).symm

theorem Armed.shiftDown (h : Armed l) {index count : Nat} (hi : index < count) (hc : count ≤ n) :
    ∀ (j : Nat) (slot : TaskSlot), (shiftDown l.tasks {} index count)[j]? = some slot →
      slot.periodic = true → slot.periodUs ≠ 0 := by
  intro j slot hslot
  rw [shiftDown_getElem? l.tasks {} hi hc] at hslot
  split at hslot
  · exact h (j + 1) slot hslot
  · exact h j slot hslot

theorem Armed.set (h : Armed l) {tasks : Vector TaskSlot n} {i : Nat} {slot : TaskSlot}
    (htasks : tasks = l.tasks.setIfInBounds i slot)
    (hslot : slot.periodic = true → slot.periodUs ≠ 0) (count : Nat) (running : Bool) :
    Armed { tasks := tasks, taskCount := count, running := running } := by
  intro j x hx
  dsimp only at hx
  rw [htasks, Vector.getElem?_setIfInBounds] at hx
  split at hx
  · split at hx
    · obtain rfl := Option.some.inj hx
      exact hslot
    · cases hx
  · exact h j x hx

theorem Same.eraseTask (h : Same l l') {i : Nat} (hi : i < l.taskCount) :
    Same (eraseTask l i) (l'.eraseTask i) := by
  have hi' : i < l'.taskCount := h.count ▸ hi
  obtain ⟨hent, hcount, hrun⟩ := ArduinoLoop.eraseTask_spec h.bounded' hi'
  have herased : (TestScheduler.eraseTask l i).entries = l.entries.eraseIdx i :=
    front_shiftDown l.tasks {} hi h.bounded
  refine ⟨?_, ?_, h.running.trans hrun.symm, ?_, h.armed.shiftDown hi h.bounded, ?_⟩
  · rw [herased, hent, h.entries]
  · rw [hcount, ← h.count]
    rfl
  · exact Nat.le_trans (Nat.sub_le _ _) h.bounded
  · rw [ArduinoLoop.eraseTask, if_neg (Nat.not_le.mpr hi')]
    have hshifted : Armed { l' with tasks := FixedArray.shiftDown l'.tasks {} i l'.taskCount } :=
      h.armed'.shiftDown hi' h.bounded'
    exact hshifted.set rfl (fun hper => by cases hper) _ _

theorem Same.compactFrom {turns i : Nat} (h : Same l l') :
    Same (compactFrom turns i l) (ArduinoLoop.compactFrom turns i l') := by
  induction turns generalizing i l l' with
  | zero => exact h
  | succ turns ih =>
      rw [TestScheduler.compactFrom, ArduinoLoop.compactFrom, ← h.count]
      by_cases hi : i < l.taskCount
      · rw [if_pos hi, if_pos hi, h.cell hi]
        split
        · exact ih h
        · exact ih (h.eraseTask hi)
      · rw [if_neg hi, if_neg hi]
        exact h

theorem Same.compactInactive (h : Same l l') : Same (compactInactive l) l'.compactInactive := by
  rw [TestScheduler.compactInactive, ArduinoLoop.compactInactive, ← h.count]
  exact h.compactFrom

theorem Same.withRunning (h : Same l l') (running : Bool) :
    Same { l with running := running } { l' with running := running } :=
  ⟨h.entries, h.count, rfl, h.bounded, h.armed, h.armed'⟩

theorem Same.pushTask (h : Same l l') {slot : TaskSlot}
    (hslot : slot.periodic = true → slot.periodUs ≠ 0) :
    (l.pushTask slot).1 = (l'.pushTask slot).1
      ∧ Same (l.pushTask slot).2 (l'.pushTask slot).2 := by
  have harmed (m : ArduinoLoop n) (hm : Armed m) : Armed (m.pushTask slot).2 := by
    unfold ArduinoLoop.pushTask
    split
    · exact hm
    · rename_i hroom
      refine Armed.set (i := m.taskCount) hm ?_ hslot _ _
      simp [Vector.setIfInBounds, Vector.set, Array.setIfInBounds, Nat.not_le.mp hroom]
  obtain ⟨hok, hent, hle, hrun⟩ := ArduinoLoop.pushTask_spec h.bounded slot
  obtain ⟨hok', hent', hle', hrun'⟩ := ArduinoLoop.pushTask_spec h.bounded' slot
  have hcount : (l.pushTask slot).2.taskCount = (l'.pushTask slot).2.taskCount := by
    rw [← ArduinoLoop.length_entries hle, ← ArduinoLoop.length_entries hle', hent, hent',
      h.entries, h.count]
  refine ⟨by rw [hok, hok', h.count], ?_, hcount, ?_, hle, harmed l h.armed, harmed l' h.armed'⟩
  · rw [hent, hent', h.entries, h.count]
  · rw [hrun, hrun', h.running]

theorem Same.addPeriodic (h : Same l l') (task : Nat) (periodUs now : UInt64) (reg : Nat) :
    (addPeriodic l task periodUs now reg).1 = (l'.addPeriodic task periodUs now reg).1
      ∧ Same (addPeriodic l task periodUs now reg).2 (l'.addPeriodic task periodUs now reg).2 := by
  unfold TestScheduler.addPeriodic ArduinoLoop.addPeriodic
  dsimp only
  split
  · exact ⟨rfl, h.compactInactive⟩
  · rename_i hperiod
    exact h.compactInactive.pushTask fun _ => hperiod

theorem Same.addOneShot (h : Same l l') (task : Nat) (dueUs : UInt64) (reg : Nat) :
    (addOneShot l task dueUs reg).1 = (l'.addOneShot task dueUs reg).1
      ∧ Same (addOneShot l task dueUs reg).2 (l'.addOneShot task dueUs reg).2 :=
  h.compactInactive.pushTask fun hper => by cases hper

theorem Armed.markRemoved (h : Armed l) (task : Nat) : Armed (l.markRemoved task) := by
  intro j slot hslot
  rw [ArduinoLoop.markRemoved, Vector.getElem?_mapIdx] at hslot
  obtain ⟨x, hx, rfl⟩ := Option.map_eq_some_iff.mp hslot
  split <;> exact h j x hx

theorem Same.remove (h : Same l l') (task : Nat) :
    (remove l task).1 = (l'.remove task).1 ∧ Same (remove l task).2 (l'.remove task).2 := by
  obtain ⟨hent, hcount, hrun⟩ := ArduinoLoop.markRemoved_spec h.bounded task
  obtain ⟨hent', hcount', hrun'⟩ := ArduinoLoop.markRemoved_spec h.bounded' task
  have hmarked : Same (l.markRemoved task) (l'.markRemoved task) := by
    refine ⟨by rw [hent, hent', h.entries], h.count, h.running, h.bounded,
      h.armed.markRemoved task, h.armed'.markRemoved task⟩
  refine ⟨congrArg (List.any · _) h.entries, ?_⟩
  unfold TestScheduler.remove ArduinoLoop.remove
  dsimp only
  rw [hmarked.running]
  split
  · exact hmarked
  · exact hmarked.compactInactive

theorem Same.removals (h : Same l l') (task : Nat) : l.removals task = l'.removals task := by
  rw [ArduinoLoop.removals, ArduinoLoop.removals, h.entries]

theorem Same.nextDue (h : Same l l') (now : UInt64) (i : Nat) :
    l.nextDue now i = l'.nextDue now i := by
  have hsame : ∀ j ∈ List.range' i (l.taskCount - i),
      TaskSlot.isDue (l.tasks[j]?.getD {}) now = TaskSlot.isDue (l'.tasks[j]?.getD {}) now := by
    intro j hj
    rw [List.mem_range'_1] at hj
    rw [h.cell (by omega)]
  unfold ArduinoLoop.nextDue
  rw [← h.count, ← List.head?_filter, ← List.head?_filter, List.filter_congr hsame]

/-! ## Behind a poll -/

/-- The catch-up loop of a task ends, as long as the clock has not run for half the
range of its words. -/
theorem catchUp_isSome {due period now : UInt64} (hperiod : period ≠ 0)
    (hnow : now.toNat < 2 ^ 63) : (ArduinoLoop.catchUp (2 ^ 64) due period now).isSome := by
  obtain ⟨k, hk, hfirst⟩ : ∃ k, k ≤ 2 ^ 63 + 1 ∧ ArduinoLoop.FirstLater due period now k :=
    ArduinoLoop.exists_firstLater hperiod hnow
  rw [hfirst.catchUp_eq (Nat.le_trans hk (by decide))]
  rfl

/-- What `afterPoll` makes of the cell it looks at. -/
def afterSlot (slot : TaskSlot) (now : UInt64) : TaskSlot :=
  if !slot.live then slot
  else if slot.periodic then
    { slot with
      nextDueUs := (ArduinoLoop.catchUp (2 ^ 64) slot.nextDueUs slot.periodUs now).getD 0 }
  else slot.blanked

theorem afterSlot_period (slot : TaskSlot) (now : UInt64) :
    (afterSlot slot now).periodic = slot.periodic
      ∧ (afterSlot slot now).periodUs = slot.periodUs := by
  unfold afterSlot
  split
  · exact ⟨rfl, rfl⟩
  · split <;> exact ⟨rfl, rfl⟩

theorem Armed.afterPoll (h : Armed l) {now : UInt64} (hnow : now.toNat < 2 ^ 63) (i : Nat) :
    l.afterPoll now i = some { l with
      tasks := l.tasks.setIfInBounds i (afterSlot (l.tasks[i]?.getD {}) now) } := by
  unfold ArduinoLoop.afterPoll afterSlot
  dsimp only
  split
  · have hkept : l.tasks.setIfInBounds i (l.tasks[i]?.getD {}) = l.tasks := by
      refine Vector.ext fun j hj => ?_
      rw [Vector.getElem_setIfInBounds]
      split
      · rename_i hij
        rw [hij, Vector.getElem?_eq_getElem hj]
        rfl
      · rfl
    rw [hkept]
  · split
    · rename_i hper
      have hperiod : (l.tasks[i]?.getD {}).periodUs ≠ 0 := by
        cases hcell : l.tasks[i]? with
        | none =>
            rw [hcell] at hper
            cases hper
        | some slot =>
            rw [hcell] at hper
            exact h i slot hcell hper
      have hends : (ArduinoLoop.catchUp (2 ^ 64) (l.tasks[i]?.getD {}).nextDueUs
          (l.tasks[i]?.getD {}).periodUs now).isSome := catchUp_isSome hperiod hnow
      obtain ⟨due, hdue⟩ := Option.isSome_iff_exists.mp hends
      rw [hdue]
      rfl
    · rfl

/-- Both go on, also where the cell is not in use any more. -/
theorem Same.afterPoll (h : Same l l') {now : UInt64} (hnow : now.toNat < 2 ^ 63) (i : Nat) :
    Option.Rel Same (l.afterPoll now i) (l'.afterPoll now i) := by
  have harmed (m : ArduinoLoop n) (hm : Armed m) : Armed { m with
      tasks := m.tasks.setIfInBounds i (afterSlot (m.tasks[i]?.getD {}) now) } := by
    refine hm.set rfl (fun hper => ?_) _ _
    obtain ⟨hperiodic, hperiod⟩ := afterSlot_period (m.tasks[i]?.getD {}) now
    rw [hperiodic] at hper
    rw [hperiod]
    cases hcell : m.tasks[i]? with
    | none =>
        rw [hcell] at hper
        cases hper
    | some slot =>
        rw [hcell] at hper
        exact hm i slot hcell hper
  have hset (m : ArduinoLoop n) (slot : TaskSlot) :
      front (m.tasks.setIfInBounds i slot) m.taskCount = m.entries.set i slot := by
    rw [ArduinoLoop.entries, front, front, Vector.toList_setIfInBounds, List.take_set]
  rw [h.armed.afterPoll hnow, h.armed'.afterPoll hnow]
  refine .some ⟨?_, h.count, h.running, h.bounded, harmed l h.armed, harmed l' h.armed'⟩
  rw [ArduinoLoop.entries, ArduinoLoop.entries, hset, hset, h.entries]
  by_cases hi : i < l.taskCount
  · rw [h.cell hi]
  · have hlen : l'.entries.length ≤ i := by
      rw [ArduinoLoop.length_entries h.bounded', ← h.count]
      exact Nat.not_lt.mp hi
    rw [List.set_eq_of_length_le hlen, List.set_eq_of_length_le hlen]

/-! ## Runs -/

structure Agrees (s t : LoopState n) : Prop where
  loop : Same s.loop t.loop
  frames : s.frames = t.frames
  clock : s.clock = t.clock
  nextReg : s.nextReg = t.nextReg
  log : s.log = t.log
  early : ∀ f ∈ s.frames, f.now.toNat < 2 ^ 63

theorem Agrees.advance {s t : LoopState n} (h : Agrees s t) {now : UInt64}
    (hnow : now.toNat < 2 ^ 63) (i : Nat) :
    Agrees (advance s now i) (ArduinoLoop.advance t now i) := by
  unfold TestScheduler.advance ArduinoLoop.advance
  rw [← h.loop.nextDue now i]
  cases hnext : s.loop.nextDue now i with
  | none => exact ⟨(h.loop.withRunning false).compactInactive, h.frames, h.clock, h.nextReg, h.log,
      h.early⟩
  | some j =>
      have hj : j < s.loop.taskCount := by
        have hmem := List.mem_of_find?_eq_some hnext
        rw [List.mem_range'_1] at hmem
        omega
      dsimp only
      rw [h.loop.cell hj]
      exact ⟨h.loop, by rw [h.frames], h.clock, h.nextReg, by rw [h.log],
        List.forall_mem_cons.mpr ⟨hnow, h.early⟩⟩

/-- A pass does not begin later than the middle of the clock's range. -/
def inRange : LoopEvent → Prop
  | .runOnce now => now.toNat < 2 ^ 63
  | _ => True

/-- **The step.** -/
theorem Agrees.step {s t : LoopState n} (h : Agrees s t) {e : LoopEvent} (he : inRange e) :
    Option.Rel (fun r r' => Agrees r.1 r'.1 ∧ r.2 = r'.2) (observed s e)
      (ArduinoLoop.observed t e) := by
  obtain ⟨hloop, hframes, hclock, hreg, hlog, hearly⟩ := h
  unfold observed ArduinoLoop.observed
  cases e with
  | addPeriodic task periodUs now =>
      obtain ⟨hok, hkept⟩ := hloop.addPeriodic task periodUs now s.nextReg
      simp only [TestScheduler.step, ArduinoLoop.step, result, ArduinoLoop.result]
      rw [← hclock, ← hreg, hok]
      split
      · exact .none
      · exact .some ⟨⟨hkept, hframes, rfl, rfl, hlog, hearly⟩, by rw [hlog]⟩
  | addOneShot task dueUs =>
      obtain ⟨hok, hkept⟩ := hloop.addOneShot task dueUs s.nextReg
      simp only [TestScheduler.step, ArduinoLoop.step, result, ArduinoLoop.result]
      rw [← hreg, hok, hlog]
      exact .some ⟨⟨hkept, hframes, hclock, rfl, rfl, hearly⟩, rfl⟩
  | remove task =>
      obtain ⟨hok, hkept⟩ := hloop.remove task
      simp only [TestScheduler.step, ArduinoLoop.step, result, ArduinoLoop.result]
      rw [hok, hlog, hloop.removals task]
      exact .some ⟨⟨hkept, hframes, hclock, hreg, rfl, hearly⟩, rfl⟩
  | runOnce now =>
      simp only [TestScheduler.step, ArduinoLoop.step, result, ArduinoLoop.result]
      rw [← hclock]
      split
      · exact .none
      · have hbegun : Agrees { s with loop := beginPass s.loop, clock := now }
            { t with loop := t.loop.beginPass, clock := now } :=
          ⟨hloop.compactInactive.withRunning true, hframes, rfl, hreg, hlog, hearly⟩
        have hadvanced := hbegun.advance he 0
        exact .some ⟨hadvanced, congrArg (Prod.mk true) hadvanced.log⟩
  | pollReturns =>
      simp only [TestScheduler.step, ArduinoLoop.step, result, ArduinoLoop.result]
      rw [← hframes]
      cases hf : s.frames with
      | nil => exact .none
      | cons f rest =>
          obtain ⟨hfirst, hrest⟩ := List.forall_mem_cons.mp (hf ▸ hearly)
          have hafter := hloop.afterPoll hfirst f.index
          dsimp only
          generalize s.loop.afterPoll f.now f.index = a, t.loop.afterPoll f.now f.index = b
            at hafter
          cases hafter with
          | none => exact .none
          | some hkept =>
              have hadvanced := Agrees.advance (s := { s with loop := _, frames := rest })
                (t := { t with loop := _, frames := rest })
                ⟨hkept, rfl, hclock, hreg, hlog, hrest⟩ hfirst (f.index + 1)
              exact .some ⟨hadvanced, congrArg (Prod.mk true) hadvanced.log⟩

theorem agrees_init : Agrees ({} : LoopState n) {} := by
  have harmed : Armed ({} : ArduinoLoop n) := by
    intro j slot hslot hper
    obtain ⟨hj, rfl⟩ := Vector.getElem?_eq_some_iff.mp hslot
    rw [Vector.getElem_replicate] at hper
    cases hper
  exact ⟨⟨rfl, rfl, rfl, Nat.zero_le n, harmed, harmed⟩, rfl, rfl, rfl, rfl, List.forall_mem_nil _⟩

/-- **The tests' scheduler behaves as `ArduinoLoopImpl`**: whatever is called, and
also from inside a `poll`, in nested passes and while the array is compacted under
a pass, every call returns the same, and the same tasks are polled at the same
times in the same order. -/
theorem test_scheduler_agrees (es : List LoopEvent) (hes : ∀ e ∈ es, inRange e) :
    outputs observed ({} : LoopState n) es = outputs ArduinoLoop.observed ({} : LoopState n) es :=
  outputs_eq_events (fun _ _ _ h he => h.step he) agrees_init hes

/-- Both tasks are removed from the `poll` of the second, and a nested pass compacts
the array: the cell the outer pass looks at is not in use any more. -/
theorem test_scheduler_agrees_run :
    outputs observed ({} : LoopState 4)
        [.addPeriodic 0 100 5, .addPeriodic 1 100 5, .runOnce 7, .pollReturns, .remove 0,
          .remove 1, .addOneShot 2 8, .runOnce 8, .pollReturns, .pollReturns]
      = outputs ArduinoLoop.observed ({} : LoopState 4)
        [.addPeriodic 0 100 5, .addPeriodic 1 100 5, .runOnce 7, .pollReturns, .remove 0,
          .remove 1, .addOneShot 2 8, .runOnce 8, .pollReturns, .pollReturns]
      ∧ (outputs observed ({} : LoopState 4)
        [.addPeriodic 0 100 5, .addPeriodic 1 100 5, .runOnce 7, .pollReturns, .remove 0,
          .remove 1, .addOneShot 2 8, .runOnce 8, .pollReturns, .pollReturns]).isSome := by
  refine ⟨test_scheduler_agrees _ ?_, rfl⟩
  simp [inRange]

end TestScheduler

end AsyncEventLoop
