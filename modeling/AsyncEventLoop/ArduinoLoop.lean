import Mathlib.Algebra.Ring.Nat
import Mathlib.Data.List.Basic
import Mathlib.Data.List.Nodup
import AsyncEventLoop.FixedArray

/-!
# The cooperative scheduler

`ArduinoLoopImpl` keeps its tasks in the first `task_count_` cells of a
fixed array. `remove` marks cells during a pass and compacts outside one;
`add_periodic` and `add_one_shot` compact always. `run_once` calls back
into the application from the middle of its loop, so it is given here in
the pieces between two callbacks: `beginPass`, `nextDue` (the search for
the next cell to poll), `afterPoll` (what follows a `poll` call) and
`endPass`. The run that strings them together is in `ArduinoRuns`.

Every operation is described by what it does to `entries`, the list of
cells in use, and no later proof looks at the array.
-/

namespace AsyncEventLoop

open FixedArray

/-- `TaskSlot`. `reg` is a ghost: the number of the registration that made
the slot. It is written once and copied with the slot. -/
structure TaskSlot where
  task : Option Nat := none
  periodUs : UInt64 := 0
  nextDueUs : UInt64 := 0
  periodic : Bool := false
  active : Bool := false
  reg : Nat := 0
  deriving DecidableEq

/-- The test `slot.active && slot.task`. -/
def TaskSlot.live (slot : TaskSlot) : Bool := slot.active && slot.task.isSome

/-- What `remove` and a fired one-shot leave in their slot. -/
def TaskSlot.blanked (slot : TaskSlot) : TaskSlot :=
  { slot with task := none, active := false }

@[simp] theorem TaskSlot.blanked_live (slot : TaskSlot) : slot.blanked.live = false := rfl

/-- The slots the loop of `run_once` does not skip. -/
def TaskSlot.isDue (slot : TaskSlot) (now : UInt64) : Bool :=
  slot.live && !(now < slot.nextDueUs)

/-- The slot `remove task` leaves of a slot. -/
def TaskSlot.markedFor (task : Nat) (slot : TaskSlot) : TaskSlot :=
  if slot.task = some task then slot.blanked else slot

@[simp] theorem TaskSlot.markedFor_reg (task : Nat) (slot : TaskSlot) :
    (TaskSlot.markedFor task slot).reg = slot.reg := by
  unfold TaskSlot.markedFor
  split <;> rfl

theorem TaskSlot.markedFor_live (task : Nat) (slot : TaskSlot) :
    (TaskSlot.markedFor task slot).live = (slot.live && slot.task ≠ some task) := by
  unfold TaskSlot.markedFor
  split <;> simp_all

structure ArduinoLoop (MaxTasks : Nat) where
  tasks : Vector TaskSlot MaxTasks := Vector.replicate MaxTasks {}
  taskCount : Nat := 0
  running : Bool := false

namespace ArduinoLoop

variable {n : Nat}

/-- `erase_task`. -/
def eraseTask (l : ArduinoLoop n) (index : Nat) : ArduinoLoop n :=
  if index ≥ l.taskCount then l
  else
    { l with
      tasks := (shiftDown l.tasks {} index l.taskCount).setIfInBounds (l.taskCount - 1) {}
      taskCount := l.taskCount - 1 }

/-- The loop of `compact_inactive` from cell `i` on; each turn erases a cell
or moves on, so `turns` of them suffice when `i + turns` is the count. -/
def compactFrom : Nat → Nat → ArduinoLoop n → ArduinoLoop n
  | 0, _, l => l
  | turns + 1, i, l =>
      if i < l.taskCount then
        if (l.tasks[i]?.getD {}).live then compactFrom turns (i + 1) l
        else compactFrom turns i (eraseTask l i)
      else l

def compactInactive (l : ArduinoLoop n) : ArduinoLoop n := compactFrom l.taskCount 0 l

/-- `tasks_[task_count_++] = slot`, unless the array is full. -/
def pushTask (l : ArduinoLoop n) (slot : TaskSlot) : Bool × ArduinoLoop n :=
  if h : l.taskCount ≥ n then (false, l)
  else
    (true, { l with
      tasks := l.tasks.set l.taskCount slot (by omega)
      taskCount := l.taskCount + 1 })

/-- `add_periodic`, called when the clock reads `now`. -/
def addPeriodic (l : ArduinoLoop n) (task : Nat) (periodUs now : UInt64) (reg : Nat) :
    Bool × ArduinoLoop n :=
  let l := compactInactive l
  if periodUs = 0 then (false, l)
  else
    pushTask l
      { task := some task, periodUs := periodUs, nextDueUs := now, periodic := true,
        active := true, reg := reg }

/-- `add_one_shot`. -/
def addOneShot (l : ArduinoLoop n) (task : Nat) (dueUs : UInt64) (reg : Nat) :
    Bool × ArduinoLoop n :=
  pushTask (compactInactive l)
    { task := some task, periodUs := 0, nextDueUs := dueUs, periodic := false,
      active := true, reg := reg }

/-- The marking loop of `remove`. -/
def markRemoved (l : ArduinoLoop n) (task : Nat) : ArduinoLoop n :=
  { l with tasks := l.tasks.mapIdx fun i slot =>
      if i < l.taskCount ∧ slot.task = some task then slot.blanked else slot }

/-- `remove`. -/
def remove (l : ArduinoLoop n) (task : Nat) : Bool × ArduinoLoop n :=
  let removed := (front l.tasks l.taskCount).any fun slot => slot.task = some task
  let l := markRemoved l task
  (removed, if l.running then l else compactInactive l)

/-- `run_once` up to its loop. -/
def beginPass (l : ArduinoLoop n) : ArduinoLoop n := { compactInactive l with running := true }

/-- The next cell from `i` on that the loop polls. -/
def nextDue (l : ArduinoLoop n) (now : UInt64) (i : Nat) : Option Nat :=
  (List.range' i (l.taskCount - i)).find? fun j =>
    TaskSlot.isDue (l.tasks[j]?.getD {}) now

/-- `do next_due += period; while (now >= next_due)` on 64-bit words. The
words repeat after 2^64 turns, so a loop that has not ended by then never
ends. -/
def catchUp : Nat → (nextDueUs periodUs now : UInt64) → Option UInt64
  | 0, _, _, _ => none
  | turns + 1, nextDueUs, periodUs, now =>
      if now ≥ nextDueUs + periodUs then catchUp turns (nextDueUs + periodUs) periodUs now
      else some (nextDueUs + periodUs)

/-- The part of the loop body behind the `poll` call, on the slot that cell
`i` holds by then; `none` if its catch-up loop does not end. -/
def afterPoll (l : ArduinoLoop n) (now : UInt64) (i : Nat) : Option (ArduinoLoop n) :=
  let slot := l.tasks[i]?.getD {}
  if !slot.live then some l
  else if slot.periodic then
    (catchUp (2 ^ 64) slot.nextDueUs slot.periodUs now).map fun due =>
      { l with tasks := l.tasks.setIfInBounds i { slot with nextDueUs := due } }
  else some { l with tasks := l.tasks.setIfInBounds i slot.blanked }

/-- `run_once` behind its loop. -/
def endPass (l : ArduinoLoop n) : ArduinoLoop n := compactInactive { l with running := false }

/-! ## The cells in use -/

def entries (l : ArduinoLoop n) : List TaskSlot := front l.tasks l.taskCount

/-- The cells in use that still stand for a registration. -/
def liveSlots (l : ArduinoLoop n) : List TaskSlot := l.entries.filter TaskSlot.live

section Entries

variable {l : ArduinoLoop n} (hb : l.taskCount ≤ n)
include hb

theorem length_entries : l.entries.length = l.taskCount := length_front _ hb

theorem cell_eq (i : Nat) (hi : i < l.taskCount) :
    l.entries[i]? = some (l.tasks[i]?.getD {}) := by
  rw [entries, front_getElem? _ hi, Vector.getElem?_eq_getElem (by omega)]
  rfl

theorem eraseTask_spec {i : Nat} (hi : i < l.taskCount) :
    (l.eraseTask i).entries = l.entries.eraseIdx i
      ∧ (l.eraseTask i).taskCount = l.taskCount - 1
      ∧ (l.eraseTask i).running = l.running := by
  rw [eraseTask, if_neg (by omega)]
  refine ⟨?_, rfl, rfl⟩
  unfold entries
  rw [← front_shiftDown l.tasks {} hi hb]
  simp only [front, Vector.toList_setIfInBounds]
  rw [List.take_set_of_le (Nat.le_refl _)]

theorem entries_split {i : Nat} (hi : i < l.taskCount) :
    l.entries = l.entries.take i ++ l.tasks[i]?.getD {} :: l.entries.drop (i + 1) := by
  have hlen := length_entries hb
  have hcell := cell_eq hb i hi
  obtain ⟨hlt, hget⟩ := List.getElem?_eq_some_iff.mp hcell
  rw [← hget, List.getElem_cons_drop, List.take_append_drop]

theorem compactFrom_spec {turns i : Nat} (hi : i + turns = l.taskCount) :
    (compactFrom turns i l).entries
        = l.entries.take i ++ (l.entries.drop i).filter TaskSlot.live
      ∧ (compactFrom turns i l).taskCount ≤ n
      ∧ (compactFrom turns i l).running = l.running := by
  induction turns generalizing i l with
  | zero =>
      have hlen := length_entries hb
      rw [compactFrom, List.take_of_length_le (by omega), List.drop_of_length_le (by omega)]
      exact ⟨by simp, hb, rfl⟩
  | succ turns ih =>
      have hlt : i < l.taskCount := by omega
      have hlen := length_entries hb
      have hsplit := entries_split hb hlt
      have hdrop : l.entries.drop i = l.tasks[i]?.getD {} :: l.entries.drop (i + 1) := by
        conv => lhs; rw [hsplit]
        exact List.drop_left' (by rw [List.length_take]; omega)
      rw [compactFrom, if_pos hlt]
      by_cases hlive : (l.tasks[i]?.getD {}).live = true
      · obtain ⟨hent, hle, hrun⟩ := ih hb (i := i + 1) (by omega)
        rw [if_pos hlive, hdrop, List.filter_cons_of_pos hlive, hent]
        refine ⟨?_, hle, hrun⟩
        conv => lhs; rw [hsplit]
        rw [List.take_append, List.take_of_length_le (by rw [List.length_take]; omega),
          List.length_take, Nat.min_eq_left (by omega), Nat.add_sub_cancel_left,
          ← hsplit]
        simp
      · obtain ⟨herase, hcount, hrun⟩ := eraseTask_spec hb hlt
        obtain ⟨hent, hle, hrun'⟩ :=
          ih (l := l.eraseTask i) (by omega) (i := i) (by omega)
        rw [if_neg hlive, hdrop, List.filter_cons_of_neg hlive, hent, herase,
          List.eraseIdx_eq_take_drop_succ]
        have htake : (l.entries.take i).length = i := by rw [List.length_take]; omega
        rw [List.take_left' htake, List.drop_left' htake]
        exact ⟨rfl, hle, hrun'.trans hrun⟩

/-- Compaction keeps the live slots, in order, and nothing else. -/
theorem compactInactive_spec :
    l.compactInactive.entries = l.liveSlots
      ∧ l.compactInactive.taskCount ≤ n
      ∧ l.compactInactive.running = l.running := by
  have h := compactFrom_spec hb (i := 0) (Nat.zero_add l.taskCount)
  rw [List.take_zero, List.drop_zero, List.nil_append] at h
  exact h

end Entries

/-- Adding a slot behind the cells in use. -/
theorem pushTask_spec {l : ArduinoLoop n} (hb : l.taskCount ≤ n) (slot : TaskSlot) :
    (l.pushTask slot).1 = decide (l.taskCount < n)
      ∧ (l.pushTask slot).2.entries
          = l.entries ++ (if l.taskCount < n then [slot] else [])
      ∧ (l.pushTask slot).2.taskCount ≤ n
      ∧ (l.pushTask slot).2.running = l.running := by
  unfold pushTask
  by_cases hfull : l.taskCount ≥ n
  · rw [dif_pos hfull]
    simp [Nat.not_lt.mpr hfull, hb]
  · have hlt : l.taskCount < n := by omega
    rw [dif_neg hfull]
    refine ⟨by simp [hlt], ?_, hlt, rfl⟩
    rw [if_pos hlt]
    exact front_push l.tasks hlt slot

/-- What both `add_*` functions do: compact, then append the slot or refuse
it. -/
structure Adds (l l' : ArduinoLoop n) (ok : Bool) (slot : TaskSlot) : Prop where
  bounded : l'.taskCount ≤ n
  running : l'.running = l.running
  entries : l'.entries = l.liveSlots ++ (if ok then [slot] else [])

theorem addOneShot_adds {l : ArduinoLoop n} (hb : l.taskCount ≤ n) (task : Nat)
    (dueUs : UInt64) (reg : Nat) :
    Adds l (l.addOneShot task dueUs reg).2 (l.addOneShot task dueUs reg).1
      { task := some task, periodUs := 0, nextDueUs := dueUs, periodic := false,
        active := true, reg := reg } := by
  obtain ⟨hent, hle, hrun⟩ := compactInactive_spec hb
  obtain ⟨hok, hpush, hle', hrun'⟩ := pushTask_spec hle
    { task := some task, periodUs := 0, nextDueUs := dueUs, periodic := false,
      active := true, reg := reg }
  refine ⟨hle', hrun'.trans hrun, ?_⟩
  rw [addOneShot, hpush, hent, hok]
  simp

theorem addPeriodic_adds {l : ArduinoLoop n} (hb : l.taskCount ≤ n) (task : Nat)
    (periodUs now : UInt64) (reg : Nat) :
    Adds l (l.addPeriodic task periodUs now reg).2 (l.addPeriodic task periodUs now reg).1
      { task := some task, periodUs := periodUs, nextDueUs := now, periodic := true,
        active := true, reg := reg } := by
  obtain ⟨hent, hle, hrun⟩ := compactInactive_spec hb
  unfold addPeriodic
  by_cases hp : periodUs = 0
  · rw [if_pos hp]
    exact ⟨hle, hrun, by simp [hent]⟩
  · obtain ⟨hok, hpush, hle', hrun'⟩ := pushTask_spec hle
      { task := some task, periodUs := periodUs, nextDueUs := now, periodic := true,
        active := true, reg := reg }
    rw [if_neg hp]
    refine ⟨hle', hrun'.trans hrun, ?_⟩
    rw [hpush, hent, hok]
    simp

theorem markRemoved_spec {l : ArduinoLoop n} (hb : l.taskCount ≤ n) (task : Nat) :
    (l.markRemoved task).entries = l.entries.map (TaskSlot.markedFor task)
      ∧ (l.markRemoved task).taskCount = l.taskCount
      ∧ (l.markRemoved task).running = l.running := by
  refine ⟨List.ext_getElem? ?_, rfl, rfl⟩
  intro j
  by_cases hj : j < l.taskCount
  · rw [List.getElem?_map, entries, entries, front_getElem? _ hj,
      front_getElem? _ (show j < (l.markRemoved task).taskCount from hj)]
    simp only [markRemoved, Vector.getElem?_mapIdx, hj, true_and]
    rfl
  · have hlen := length_entries hb
    have hlen' : (l.markRemoved task).entries.length = l.taskCount := length_entries hb
    rw [List.getElem?_map, List.getElem?_eq_none (by omega), List.getElem?_eq_none (by omega)]
    rfl

/-- What `afterPoll` does to the cell it looks at. -/
inductive Finishes (now : UInt64) (slot : TaskSlot) : TaskSlot → Prop where
  | gone (hdead : slot.live = false) : Finishes now slot slot
  | rearmed (hlive : slot.live = true) (hper : slot.periodic = true) (due : UInt64) :
      Finishes now slot { slot with nextDueUs := due }
  | fired (hlive : slot.live = true) (honce : slot.periodic = false) :
      Finishes now slot slot.blanked

theorem afterPoll_spec {l l' : ArduinoLoop n} (hb : l.taskCount ≤ n) {now : UInt64} {i : Nat}
    {slot : TaskSlot} (hslot : l.entries[i]? = some slot) (h : l.afterPoll now i = some l') :
    ∃ slot', Finishes now slot slot'
      ∧ l'.entries = l.entries.set i slot'
      ∧ l'.taskCount = l.taskCount
      ∧ l'.running = l.running := by
  have hi : i < l.taskCount := by
    rw [← length_entries hb]
    exact (List.getElem?_eq_some_iff.mp hslot).1
  have hcell : l.tasks[i]?.getD {} = slot := by
    rw [cell_eq hb i hi] at hslot
    exact Option.some.inj hslot
  have hset : ∀ slot' : TaskSlot,
      front (l.tasks.setIfInBounds i slot') l.taskCount = l.entries.set i slot' := by
    intro slot'
    rw [entries, front, front, Vector.toList_setIfInBounds, List.take_set]
  unfold afterPoll at h
  simp only [hcell] at h
  by_cases hlive : slot.live = true
  · rw [if_neg (by simp [hlive])] at h
    by_cases hper : slot.periodic = true
    · rw [if_pos hper] at h
      obtain ⟨due, -, rfl⟩ := Option.map_eq_some_iff.mp h
      exact ⟨_, .rearmed hlive hper due, hset _, rfl, rfl⟩
    · rw [if_neg hper] at h
      obtain rfl := Option.some.inj h
      exact ⟨_, .fired hlive (by simpa using hper), hset _, rfl, rfl⟩
  · have hdead : slot.live = false := by simpa using hlive
    rw [if_pos (by simp [hdead])] at h
    obtain rfl := Option.some.inj h
    refine ⟨slot, .gone hdead, ?_, rfl, rfl⟩
    obtain ⟨hlt, rfl⟩ := List.getElem?_eq_some_iff.mp hslot
    exact (List.set_getElem_self hlt).symm

/-- The cell `nextDue` finds is in use, live and due. -/
theorem nextDue_spec {l : ArduinoLoop n} (hb : l.taskCount ≤ n) {now : UInt64} {i j : Nat}
    (h : l.nextDue now i = some j) :
    i ≤ j ∧ ∃ slot, l.entries[j]? = some slot ∧ slot.live = true ∧ slot.nextDueUs ≤ now := by
  unfold nextDue at h
  have hmem := List.mem_of_find?_eq_some h
  have hdue := List.find?_some h
  rw [List.mem_range'_1] at hmem
  refine ⟨hmem.1, _, cell_eq hb j (by omega), ?_⟩
  simpa [TaskSlot.isDue] using hdue

/-! ## Live cells -/

theorem mem_liveSlots {l : ArduinoLoop n} {slot : TaskSlot} :
    slot ∈ l.liveSlots ↔ slot ∈ l.entries ∧ slot.live = true := by
  simp [liveSlots]

theorem compactInactive_liveSlots {l : ArduinoLoop n} (hb : l.taskCount ≤ n) :
    l.compactInactive.liveSlots = l.liveSlots := by
  rw [liveSlots, (compactInactive_spec hb).1, liveSlots, List.filter_filter]
  simp

theorem Adds.liveSlots {l l' : ArduinoLoop n} {ok : Bool} {slot : TaskSlot}
    (h : Adds l l' ok slot) (hlive : slot.live = true) :
    l'.liveSlots = l.liveSlots ++ (if ok then [slot] else []) := by
  rw [ArduinoLoop.liveSlots, h.entries, List.filter_append, ArduinoLoop.liveSlots,
    List.filter_filter]
  cases ok <;> simp [hlive]

theorem Adds.mem_liveSlots {l l' : ArduinoLoop n} {ok : Bool} {slot : TaskSlot}
    (h : Adds l l' ok slot) (hlive : slot.live = true) {x : TaskSlot} :
    x ∈ l'.liveSlots ↔ x ∈ l.liveSlots ∨ (ok = true ∧ x = slot) := by
  rw [h.liveSlots hlive]
  cases ok <;> simp

/-- The slots a `remove` leaves live are those of other tasks. -/
theorem mem_liveSlots_mark {l : ArduinoLoop n} (hb : l.taskCount ≤ n) {task : Nat}
    {x : TaskSlot} :
    x ∈ (l.markRemoved task).liveSlots ↔ x ∈ l.liveSlots ∧ x.task ≠ some task := by
  obtain ⟨hent, -, -⟩ := markRemoved_spec hb task
  rw [mem_liveSlots, hent, List.mem_map, mem_liveSlots]
  constructor
  · rintro ⟨⟨y, hy, rfl⟩, hlive⟩
    rw [TaskSlot.markedFor_live, Bool.and_eq_true, decide_eq_true_eq] at hlive
    have hkeep : TaskSlot.markedFor task y = y := if_neg hlive.2
    rw [hkeep]
    exact ⟨⟨hy, hlive.1⟩, hlive.2⟩
  · rintro ⟨⟨hx, hlive⟩, hne⟩
    exact ⟨⟨x, hx, if_neg hne⟩, hlive⟩

/-! ## Where a cell stays -/

/-- A prefix that passes the filter keeps its elements in place. -/
theorem filter_getElem? {α : Type*} {p : α → Bool} {xs : List α} {i : Nat} {x : α}
    (hall : (xs.take (i + 1)).all p = true) (hx : xs[i]? = some x) :
    (xs.filter p)[i]? = some x := by
  obtain ⟨hi, -⟩ := List.getElem?_eq_some_iff.mp hx
  have hlen : (xs.take (i + 1)).length = i + 1 := by
    rw [List.length_take]
    omega
  have hkeep : (xs.take (i + 1)).filter p = xs.take (i + 1) :=
    List.filter_eq_self.mpr (List.all_eq_true.mp hall)
  rw [← List.take_append_drop (i + 1) xs, List.filter_append, hkeep,
    List.getElem?_append_left (by omega), List.getElem?_take_of_lt (Nat.lt_succ_self i), hx]

/-- A registration leaves a cell in place if all cells up to it are live. -/
theorem Adds.getElem? {l l' : ArduinoLoop n} {ok : Bool} {slot x : TaskSlot} {i : Nat}
    (h : Adds l l' ok slot) (hall : (l.entries.take (i + 1)).all TaskSlot.live = true)
    (hx : l.entries[i]? = some x) : l'.entries[i]? = some x := by
  have hlive : l.liveSlots[i]? = some x := filter_getElem? hall hx
  rw [h.entries, List.getElem?_append_left (List.getElem?_eq_some_iff.mp hlive).1, hlive]

/-- During a pass `remove` leaves every cell in place. -/
theorem remove_running {l : ArduinoLoop n} (hrun : l.running = true) (task : Nat) :
    (l.remove task).2 = l.markRemoved task := by
  have hmark : (l.markRemoved task).running = true := hrun
  simp [remove, hmark]

theorem remove_idle {l : ArduinoLoop n} (hrun : l.running = false) (task : Nat) :
    (l.remove task).2 = (l.markRemoved task).compactInactive := by
  have hmark : (l.markRemoved task).running = false := hrun
  simp [remove, hmark]

/-! ## Registration numbers -/

/-- No two cells have the number of one registration, and all numbers are below
`bound`. -/
structure Numbered (l : ArduinoLoop n) (bound : Nat) : Prop where
  bounded : l.taskCount ≤ n
  nodup : (l.entries.map TaskSlot.reg).Nodup
  fresh : ∀ slot ∈ l.entries, slot.reg < bound

theorem numbered_init : Numbered ({} : ArduinoLoop n) 0 := by
  have hent : ({} : ArduinoLoop n).entries = [] := front_zero _
  refine ⟨Nat.zero_le n, ?_, ?_⟩ <;> simp [hent]

section Numbered

variable {l l' : ArduinoLoop n} {bound : Nat}

/-- The registration number determines the slot. -/
theorem Numbered.unique (h : Numbered l bound) {x y : TaskSlot} (hx : x ∈ l.entries)
    (hy : y ∈ l.entries) (hreg : x.reg = y.reg) : x = y :=
  List.inj_on_of_nodup_map h.nodup hx hy hreg

/-- It determines the cell, too. -/
theorem Numbered.index_unique (h : Numbered l bound) {i j : Nat} {x y : TaskSlot}
    (hx : l.entries[i]? = some x) (hy : l.entries[j]? = some y) (hreg : x.reg = y.reg) :
    i = j := by
  obtain ⟨hi, rfl⟩ := List.getElem?_eq_some_iff.mp hx
  obtain ⟨hj, rfl⟩ := List.getElem?_eq_some_iff.mp hy
  have hi' : i < (l.entries.map TaskSlot.reg).length := by simpa using hi
  have hj' : j < (l.entries.map TaskSlot.reg).length := by simpa using hj
  have hget : (l.entries.map TaskSlot.reg)[i] = (l.entries.map TaskSlot.reg)[j] := by
    simpa using hreg
  exact h.nodup.getElem_inj_iff.mp hget

theorem Numbered.congr (h : Numbered l bound) (hent : l'.entries = l.entries)
    (hle : l'.taskCount ≤ n) : Numbered l' bound :=
  ⟨hle, hent ▸ h.nodup, hent ▸ h.fresh⟩

theorem Numbered.compact (h : Numbered l bound) : Numbered l.compactInactive bound := by
  obtain ⟨hent, hle, -⟩ := compactInactive_spec h.bounded
  have hsub : l.compactInactive.entries.Sublist l.entries := by
    rw [hent]
    exact List.filter_sublist
  exact ⟨hle, h.nodup.sublist (hsub.map _), fun slot hs => h.fresh slot (hsub.subset hs)⟩

theorem Numbered.add (h : Numbered l bound) {ok : Bool} {slot : TaskSlot}
    (hadds : Adds l l' ok slot) (hreg : slot.reg = bound) : Numbered l' (bound + 1) := by
  have hnew : ∀ x ∈ (if ok then [slot] else []), x = slot := by
    cases ok <;> simp
  refine ⟨hadds.bounded, ?_, ?_⟩
  · rw [hadds.entries, List.map_append, List.nodup_append]
    refine ⟨h.nodup.sublist (List.filter_sublist.map _), by cases ok <;> simp, ?_⟩
    intro a ha b hb heq
    obtain ⟨x, hx, rfl⟩ := List.mem_map.mp ha
    obtain ⟨y, hy, rfl⟩ := List.mem_map.mp hb
    have hlt := h.fresh x (mem_liveSlots.mp hx).1
    rw [hnew y hy, hreg] at heq
    omega
  · intro x hx
    rw [hadds.entries, List.mem_append] at hx
    rcases hx with hx | hx
    · exact Nat.lt_succ_of_lt (h.fresh x (mem_liveSlots.mp hx).1)
    · rw [hnew x hx, hreg]
      exact Nat.lt_succ_self bound

theorem Numbered.mark (h : Numbered l bound) (task : Nat) :
    Numbered (l.markRemoved task) bound := by
  obtain ⟨hent, hcount, -⟩ := markRemoved_spec h.bounded task
  refine ⟨hcount ▸ h.bounded, ?_, ?_⟩
  · rw [hent, List.map_map]
    simpa [Function.comp_def] using h.nodup
  · intro x hx
    rw [hent, List.mem_map] at hx
    obtain ⟨y, hy, rfl⟩ := hx
    rw [TaskSlot.markedFor_reg]
    exact h.fresh y hy

/-- A cell that `afterPoll` has finished keeps its number and its kind. -/
theorem Finishes.same {now : UInt64} {slot slot' : TaskSlot} (h : Finishes now slot slot') :
    slot'.reg = slot.reg ∧ slot'.periodic = slot.periodic := by
  cases h <;> exact ⟨rfl, rfl⟩

theorem Numbered.finish (h : Numbered l bound) {slot slot' : TaskSlot} {i : Nat}
    (hslot : l.entries[i]? = some slot) (hreg : slot'.reg = slot.reg)
    (hent : l'.entries = l.entries.set i slot') (hcount : l'.taskCount = l.taskCount) :
    Numbered l' bound := by
  obtain ⟨hi, rfl⟩ := List.getElem?_eq_some_iff.mp hslot
  have hregs : l'.entries.map TaskSlot.reg = l.entries.map TaskSlot.reg := by
    rw [hent, List.map_set, hreg, ← List.getElem_map TaskSlot.reg (h := by simpa using hi),
      List.set_getElem_self]
  refine ⟨hcount ▸ h.bounded, hregs ▸ h.nodup, ?_⟩
  intro x hx
  have hmem : x.reg ∈ l.entries.map TaskSlot.reg := hregs ▸ List.mem_map_of_mem hx
  obtain ⟨y, hy, heq⟩ := List.mem_map.mp hmem
  exact heq ▸ h.fresh y hy

/-- The cells behind an `afterPoll`: those of other registrations, and what it
made of the one it looked at. -/
theorem Numbered.mem_finish (h : Numbered l bound) {slot slot' : TaskSlot} {i : Nat}
    (hslot : l.entries[i]? = some slot) (hent : l'.entries = l.entries.set i slot')
    {x : TaskSlot} :
    x ∈ l'.entries ↔ (x ∈ l.entries ∧ x.reg ≠ slot.reg) ∨ x = slot' := by
  obtain ⟨hi, -⟩ := List.getElem?_eq_some_iff.mp hslot
  rw [hent]
  constructor
  · intro hx
    obtain ⟨j, hj⟩ := List.mem_iff_getElem?.mp hx
    rw [List.getElem?_set] at hj
    by_cases hij : i = j
    · rw [if_pos hij, if_pos hi] at hj
      exact Or.inr (Option.some.inj hj).symm
    · rw [if_neg hij] at hj
      exact Or.inl ⟨List.mem_of_getElem? hj, fun heq => hij (h.index_unique hj hslot heq).symm⟩
  · rintro (⟨hx, hne⟩ | rfl)
    · obtain ⟨j, hj⟩ := List.mem_iff_getElem?.mp hx
      have hij : i ≠ j := by
        rintro rfl
        exact hne (congrArg TaskSlot.reg (Option.some.inj (hj.symm.trans hslot)))
      exact List.mem_of_getElem? ((List.getElem?_set_ne hij).trans hj)
    · exact List.mem_of_getElem? ((List.getElem?_set_self hi))

/-- Of the slot it looked at, `afterPoll` leaves only a periodic one live. -/
theorem Numbered.mem_live_finish (h : Numbered l bound) {now : UInt64} {slot slot' : TaskSlot}
    {i : Nat} (hslot : l.entries[i]? = some slot) (hfin : Finishes now slot slot')
    (hent : l'.entries = l.entries.set i slot') {x : TaskSlot} :
    x ∈ l'.liveSlots ↔ (x ∈ l.liveSlots ∧ x.reg ≠ slot.reg)
      ∨ (slot.live = true ∧ slot.periodic = true ∧ x = slot') := by
  rw [mem_liveSlots, h.mem_finish hslot hent, mem_liveSlots]
  constructor
  · rintro ⟨⟨hx, hne⟩ | rfl, hlive⟩
    · exact Or.inl ⟨⟨hx, hlive⟩, hne⟩
    · cases hfin with
      | gone hdead =>
          rw [hdead] at hlive
          cases hlive
      | rearmed hslotLive hper due => exact Or.inr ⟨hslotLive, hper, rfl⟩
      | fired => cases hlive
  · rintro (⟨⟨hx, hlive⟩, hne⟩ | ⟨hslotLive, hper, rfl⟩)
    · exact ⟨Or.inl ⟨hx, hne⟩, hlive⟩
    · refine ⟨Or.inr rfl, ?_⟩
      cases hfin with
      | gone hdead => exact hslotLive
      | rearmed => exact hslotLive
      | fired _ honce =>
          rw [hper] at honce
          cases honce

end Numbered

end ArduinoLoop

end AsyncEventLoop
