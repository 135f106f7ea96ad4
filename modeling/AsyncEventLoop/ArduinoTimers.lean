import AsyncEventLoop.ArduinoRuns
import AsyncEventLoop.CatchUpLoop

/-!
# The cooperative scheduler as a list of timers

What the scheduler is for: a list of registrations, each with a timer of
its own (`TimerList`). A pass asks every timer in turn whether it is ready
and polls the task if it is. `ArduinoLoopImpl` keeps the same list
compacted in a fixed array and has the timers' arithmetic in its loop.

`refines_timers` says that no sequence of calls tells the two apart, as
long as the tasks leave the scheduler alone while they are polled. The two
loops that advance a due time are one and the same, so this needs no
assumption on clocks or periods; that a pass comes to an end needs one, that
no due time overflows.
-/

namespace AsyncEventLoop

open Runs FixedArray

/-! ## Timers -/

structure PeriodicTimer where
  periodUs : UInt64 := 0
  nextDueUs : UInt64 := 0
  armed : Bool := false
  deriving DecidableEq

namespace PeriodicTimer

def reset (t : PeriodicTimer) (now : UInt64) : PeriodicTimer :=
  { t with nextDueUs := now, armed := true }

/-- `ready`; `none` if its loop does not end. -/
def ready (t : PeriodicTimer) (now : UInt64) : Option (Bool × PeriodicTimer) :=
  let t := if t.armed then t else t.reset now
  if t.periodUs = 0 ∨ now < t.nextDueUs then some (false, t)
  else
    (ArduinoLoop.catchUp (2 ^ 64) t.nextDueUs t.periodUs now).map fun due =>
      (true, { t with nextDueUs := due })

end PeriodicTimer

structure OneShotTimer where
  dueUs : UInt64 := 0
  armed : Bool := false
  fired : Bool := false
  deriving DecidableEq

namespace OneShotTimer

def arm (t : OneShotTimer) (dueUs : UInt64) : OneShotTimer :=
  { t with dueUs := dueUs, armed := true, fired := false }

def ready (t : OneShotTimer) (now : UInt64) : Bool × OneShotTimer :=
  if !t.armed ∨ t.fired ∨ now < t.dueUs then (false, t)
  else (true, { t with fired := true, armed := false })

end OneShotTimer

/-! ## The list of timers -/

inductive Timer where
  | periodic (t : PeriodicTimer)
  | oneShot (t : OneShotTimer)
  deriving DecidableEq

namespace Timer

def ready (t : Timer) (now : UInt64) : Option (Bool × Timer) :=
  match t with
  | periodic t => (t.ready now).map fun r => (r.1, periodic r.2)
  | oneShot t => some ((t.ready now).1, oneShot (t.ready now).2)

/-- A one-shot that has fired is over. -/
def live : Timer → Bool
  | periodic _ => true
  | oneShot t => t.armed

end Timer

structure TimerEntry where
  task : Nat
  timer : Timer
  deriving DecidableEq

/-- The registrations that are live, in the order in which they were made. -/
abbrev TimerList := List TimerEntry

inductive TimerCall where
  | addPeriodic (task : Nat) (periodUs now : UInt64)
  | addOneShot (task : Nat) (dueUs : UInt64)
  | remove (task : Nat)
  | runOnce (now : UInt64)

/-- What a call returns, or the tasks it polls, with the time they are given. -/
inductive TimerAnswer where
  | returned (ok : Bool)
  | polled (polls : List (Nat × UInt64))
  deriving DecidableEq

namespace TimerList

/-- Room for one more among `n`. -/
def add (n : Nat) (l : TimerList) (e : TimerEntry) : TimerList × TimerAnswer :=
  if l.length < n then (l ++ [e], .returned true) else (l, .returned false)

/-- Every timer is asked in turn; what is over goes. -/
def pass (now : UInt64) : TimerList → Option (TimerList × List (Nat × UInt64))
  | [] => some ([], [])
  | e :: l =>
      (e.timer.ready now).bind fun r =>
        (pass now l).map fun rest =>
          ((if r.2.live then { e with timer := r.2 } :: rest.1 else rest.1),
            if r.1 then (e.task, now) :: rest.2 else rest.2)

def step (n : Nat) (l : TimerList) : TimerCall → Option (TimerList × TimerAnswer)
  | .addPeriodic task periodUs now =>
      some (if periodUs = 0 then (l, .returned false)
        else add n l ⟨task, .periodic (PeriodicTimer.reset { periodUs := periodUs } now)⟩)
  | .addOneShot task dueUs => some (add n l ⟨task, .oneShot (OneShotTimer.arm {} dueUs)⟩)
  | .remove task =>
      some (l.filter fun e => e.task ≠ task, .returned (l.any fun e => e.task = task))
  | .runOnce now => (pass now l).map fun r => (r.1, .polled r.2)

end TimerList

/-! ## The scheduler -/

namespace ArduinoLoop

variable {n : Nat}

/-- The loop of `run_once` from cell `i` on, over tasks that leave the scheduler
alone: the scheduler behind it, and the polls. -/
def passFrom : Nat → Nat → UInt64 → ArduinoLoop n →
    Option (ArduinoLoop n × List (Nat × UInt64))
  | 0, _, _, l => some (l, [])
  | turns + 1, i, now, l =>
      if i < l.taskCount then
        let slot := l.tasks[i]?.getD {}
        if slot.isDue now then
          (l.afterPoll now i).bind fun l =>
            (passFrom turns (i + 1) now l).map fun r => (r.1, (slot.task.getD 0, now) :: r.2)
        else passFrom turns (i + 1) now l
      else some (l, [])

def runOnce (l : ArduinoLoop n) (now : UInt64) :
    Option (ArduinoLoop n × List (Nat × UInt64)) :=
  let l := l.beginPass
  (passFrom l.taskCount 0 now l).map fun r => (r.1.endPass, r.2)

def timerStep (l : ArduinoLoop n) : TimerCall → Option (ArduinoLoop n × TimerAnswer)
  | .addPeriodic task periodUs now =>
      let r := l.addPeriodic task periodUs now 0
      some (r.2, .returned r.1)
  | .addOneShot task dueUs =>
      let r := l.addOneShot task dueUs 0
      some (r.2, .returned r.1)
  | .remove task =>
      let r := l.remove task
      some (r.2, .returned r.1)
  | .runOnce now => (l.runOnce now).map fun r => (r.1, .polled r.2)

end ArduinoLoop

/-! ## A pass in steps -/

namespace ArduinoLoop

variable {n : Nat}

theorem nextDue_of_lt {l : ArduinoLoop n} {now : UInt64} {i : Nat} (hi : i < l.taskCount) :
    l.nextDue now i
      = if (l.tasks[i]?.getD {}).isDue now then some i else l.nextDue now (i + 1) := by
  unfold nextDue
  rw [show l.taskCount - i = l.taskCount - (i + 1) + 1 by omega, List.range'_succ,
    List.find?_cons]
  split <;> simp_all

theorem afterPoll_count {l l' : ArduinoLoop n} {now : UInt64} {i : Nat}
    (h : l.afterPoll now i = some l') : l'.taskCount = l.taskCount := by
  unfold afterPoll at h
  dsimp only at h
  split at h
  · exact Option.some.inj h ▸ rfl
  · split at h
    · obtain ⟨due, -, rfl⟩ := Option.map_eq_some_iff.mp h
      rfl
    · exact Option.some.inj h ▸ rfl

/-- The pass is the one of the step machine, each `poll` returning at once. -/
theorem passFrom_steps {s : LoopState n} {turns i : Nat} (hi : i + turns = s.loop.taskCount)
    {now : UInt64} {l : ArduinoLoop n} {polls : List (Nat × UInt64)}
    (h : passFrom turns i now s.loop = some (l, polls)) :
    ∃ s', run step (advance s now i) (List.replicate polls.length .pollReturns) = some s'
      ∧ s'.loop = l.endPass ∧ s'.frames = s.frames := by
  induction turns generalizing s i polls with
  | zero =>
      obtain ⟨rfl, rfl⟩ := Prod.mk.inj (Option.some.inj h)
      have hend : s.loop.nextDue now i = none := by
        rw [nextDue, show s.loop.taskCount - i = 0 by omega]
        rfl
      refine ⟨_, rfl, ?_⟩
      rw [advance, hend]
      exact ⟨rfl, rfl⟩
  | succ turns ih =>
      have hlt : i < s.loop.taskCount := by omega
      rw [passFrom, if_pos hlt] at h
      dsimp only at h
      by_cases hdue : (s.loop.tasks[i]?.getD {}).isDue now = true
      · rw [if_pos hdue] at h
        obtain ⟨m, hm, h⟩ := Option.bind_eq_some_iff.mp h
        obtain ⟨⟨l', polls'⟩, hrest, heq⟩ := Option.map_eq_some_iff.mp h
        obtain ⟨rfl, rfl⟩ := Prod.mk.inj heq
        have hadvance : advance s now i
            = { s with
                frames := ⟨now, i, (s.loop.tasks[i]?.getD {}).reg⟩ :: s.frames
                log := .polled (s.loop.tasks[i]?.getD {}).reg now :: s.log } := by
          rw [advance, nextDue_of_lt hlt, if_pos hdue]
        obtain ⟨s', hrun, hloop, hframes⟩ := ih (s := { s with
            loop := m, log := .polled (s.loop.tasks[i]?.getD {}).reg now :: s.log })
          (i := i + 1) (by dsimp only; rw [afterPoll_count hm]; omega) hrest
        refine ⟨s', ?_, hloop, hframes⟩
        rw [List.length_cons, List.replicate_succ, run_cons]
        refine ⟨_, ?_, hrun⟩
        rw [hadvance]
        simp only [step, hm, Option.map_some]
      · rw [if_neg hdue] at h
        obtain ⟨s', hrun, hloop, hframes⟩ := ih (i := i + 1) (by omega) h
        have hadvance : advance s now i = advance s now (i + 1) := by
          rw [advance, advance, nextDue_of_lt hlt, if_neg hdue]
        exact ⟨s', hadvance ▸ hrun, hloop, hframes⟩

theorem runOnce_steps {s : LoopState n} {now : UInt64} (hnow : ¬ now < s.clock)
    {l : ArduinoLoop n} {polls : List (Nat × UInt64)} (h : s.loop.runOnce now = some (l, polls)) :
    ∃ s', run step s (.runOnce now :: List.replicate polls.length .pollReturns) = some s'
      ∧ s'.loop = l ∧ s'.frames = s.frames := by
  obtain ⟨⟨l', polls'⟩, hpass, heq⟩ := Option.map_eq_some_iff.mp h
  obtain ⟨rfl, rfl⟩ := Prod.mk.inj heq
  obtain ⟨s', hrun, hloop, hframes⟩ :=
    passFrom_steps (s := { s with loop := s.loop.beginPass, clock := now }) (Nat.zero_add _) hpass
  refine ⟨s', run_cons.mpr ⟨_, ?_, hrun⟩, hloop, hframes⟩
  rw [step, if_neg hnow]

end ArduinoLoop

/-! ## A pass over a list of cells -/

/-- What a due cell becomes behind its `poll`. -/
def TaskSlot.finish (slot : TaskSlot) (now : UInt64) : Option TaskSlot :=
  if slot.periodic then
    (ArduinoLoop.catchUp (2 ^ 64) slot.nextDueUs slot.periodUs now).map fun due =>
      { slot with nextDueUs := due }
  else some slot.blanked

/-- The loop of `run_once` on the list of the cells in use. -/
def passList (now : UInt64) : List TaskSlot → Option (List TaskSlot × List (Nat × UInt64))
  | [] => some ([], [])
  | slot :: slots =>
      if slot.isDue now then
        (slot.finish now).bind fun slot' =>
          (passList now slots).map fun r => (slot' :: r.1, (slot.task.getD 0, now) :: r.2)
      else (passList now slots).map fun r => (slot :: r.1, r.2)

namespace ArduinoLoop

variable {n : Nat}

theorem afterPoll_due {l : ArduinoLoop n} {now : UInt64} {i : Nat}
    (hlive : (l.tasks[i]?.getD {}).live = true) :
    l.afterPoll now i = ((l.tasks[i]?.getD {}).finish now).map fun slot =>
      { l with tasks := l.tasks.setIfInBounds i slot } := by
  unfold afterPoll TaskSlot.finish
  rw [if_neg (by simp [hlive])]
  split
  · rw [Option.map_map]
    rfl
  · rfl

theorem entries_set {l : ArduinoLoop n} (i : Nat) (slot : TaskSlot) :
    ({ l with tasks := l.tasks.setIfInBounds i slot } : ArduinoLoop n).entries
      = l.entries.set i slot := by
  rw [entries, entries, front, front, Vector.toList_setIfInBounds, List.take_set]

theorem passFrom_entries {l : ArduinoLoop n} (hb : l.taskCount ≤ n) {turns i : Nat}
    (hi : i + turns = l.taskCount) (now : UInt64) :
    (passFrom turns i now l).map (fun r => (r.1.entries, r.2))
      = (passList now (l.entries.drop i)).map fun r => (l.entries.take i ++ r.1, r.2) := by
  induction turns generalizing i l with
  | zero =>
      have hlen := length_entries hb
      rw [List.drop_of_length_le (by omega), List.take_of_length_le (by omega)]
      simp [passFrom, passList]
  | succ turns ih =>
      have hlt : i < l.taskCount := by omega
      have hlen := length_entries hb
      have hcell := cell_eq hb i hlt
      obtain ⟨hget, heq⟩ := List.getElem?_eq_some_iff.mp hcell
      have hdrop : l.entries.drop i = l.tasks[i]?.getD {} :: l.entries.drop (i + 1) := by
        rw [← heq, List.getElem_cons_drop]
      have htake (slots : List TaskSlot) :
          l.entries.take i ++ l.tasks[i]?.getD {} :: slots = l.entries.take (i + 1) ++ slots := by
        rw [← heq, List.append_cons, List.take_append_getElem]
      rw [passFrom, if_pos hlt, hdrop, passList]
      dsimp only
      by_cases hdue : (l.tasks[i]?.getD {}).isDue now = true
      · have hlive : (l.tasks[i]?.getD {}).live = true := by
          rw [TaskSlot.isDue, Bool.and_eq_true] at hdue
          exact hdue.1
        rw [if_pos hdue, if_pos hdue, afterPoll_due hlive]
        cases hfin : (l.tasks[i]?.getD {}).finish now with
        | none => rfl
        | some slot =>
            -- the rest of the pass sees the cells behind this one as they were
            have hnext : i + 1 + turns = l.taskCount := by omega
            have hrest := ih (l := { l with tasks := l.tasks.setIfInBounds i slot }) hb hnext
            have hset : (l.entries.set i slot).take (i + 1) = l.entries.take i ++ [slot] := by
              rw [List.take_add_one, List.take_set_of_le (Nat.le_refl i),
                List.getElem?_set_self hget]
              rfl
            rw [entries_set, List.drop_set_of_lt (Nat.lt_succ_self i), hset] at hrest
            have hpolled := congrArg
              (Option.map fun r => (r.1, ((l.tasks[i]?.getD {}).task.getD 0, now) :: r.2)) hrest
            simpa [Option.map_map, Function.comp_def] using hpolled
      · rw [if_neg hdue, if_neg hdue, ih hb (by omega), Option.map_map]
        simp only [Function.comp_def, htake]

theorem passFrom_count {l l' : ArduinoLoop n} {turns i : Nat} {now : UInt64}
    {polls : List (Nat × UInt64)} (h : passFrom turns i now l = some (l', polls)) :
    l'.taskCount = l.taskCount := by
  induction turns generalizing i l l' polls with
  | zero =>
      obtain ⟨rfl, -⟩ := Prod.mk.inj (Option.some.inj h)
      rfl
  | succ turns ih =>
      unfold passFrom at h
      dsimp only at h
      split at h
      · split at h
        · obtain ⟨m, hm, h⟩ := Option.bind_eq_some_iff.mp h
          obtain ⟨⟨l'', polls'⟩, hrest, heq⟩ := Option.map_eq_some_iff.mp h
          obtain ⟨rfl, -⟩ := Prod.mk.inj heq
          exact (ih hrest).trans (afterPoll_count hm)
        · exact ih h
      · obtain ⟨rfl, -⟩ := Prod.mk.inj (Option.some.inj h)
        rfl

end ArduinoLoop

/-! ## Cells as timers -/

/-- The timer a live cell stands for. -/
def TaskSlot.timer (slot : TaskSlot) : Timer :=
  if slot.periodic then .periodic ⟨slot.periodUs, slot.nextDueUs, true⟩
  else .oneShot ⟨slot.nextDueUs, true, false⟩

def TaskSlot.timerEntry (slot : TaskSlot) : TimerEntry := ⟨slot.task.getD 0, slot.timer⟩

theorem TaskSlot.timer_live (slot : TaskSlot) : slot.timer.live = true := by
  unfold TaskSlot.timer
  split <;> rfl

/-- A live cell, whose period is not zero if it has one. -/
structure TaskSlot.Ticks (slot : TaskSlot) : Prop where
  live : slot.live = true
  period : slot.periodic = true → slot.periodUs ≠ 0

namespace TaskSlot.Ticks

variable {slot : TaskSlot} {now : UInt64}

theorem isDue_iff (h : slot.Ticks) : slot.isDue now = true ↔ ¬ now < slot.nextDueUs := by
  simp [TaskSlot.isDue, h.live]

/-- The timer is ready when the cell is due. -/
theorem ready_early (h : slot.Ticks) (hdue : ¬ slot.isDue now = true) :
    slot.timer.ready now = some (false, slot.timer) := by
  rw [h.isDue_iff, not_not] at hdue
  unfold TaskSlot.timer
  split <;> simp [Timer.ready, PeriodicTimer.ready, OneShotTimer.ready, hdue]

/-- Behind its `poll` the cell is blank if its timer is over, and a cell for the
timer if not. -/
theorem ready_due (h : slot.Ticks) (hdue : slot.isDue now = true) :
    Option.Rel (fun slot' r => r.1 = true ∧ slot'.live = r.2.live
        ∧ (slot'.live = true → slot'.Ticks ∧ slot'.timerEntry = ⟨slot.task.getD 0, r.2⟩))
      (slot.finish now) (slot.timer.ready now) := by
  rw [h.isDue_iff] at hdue
  unfold TaskSlot.timer TaskSlot.finish
  by_cases hper : slot.periodic = true
  · rw [if_pos hper, if_pos hper]
    have hready : ¬(slot.periodUs = 0 ∨ now < slot.nextDueUs) := by
      simp [h.period hper, hdue]
    simp only [Timer.ready, PeriodicTimer.ready, if_true, if_neg hready]
    cases ArduinoLoop.catchUp (2 ^ 64) slot.nextDueUs slot.periodUs now with
    | none => exact .none
    | some due =>
        refine .some ⟨rfl, h.live, fun hlive => ⟨⟨hlive, h.period⟩, ?_⟩⟩
        simp [TaskSlot.timerEntry, TaskSlot.timer, hper]
  · rw [if_neg hper, if_neg hper]
    have hready : (OneShotTimer.mk slot.nextDueUs true false).ready now
        = (true, ⟨slot.nextDueUs, false, true⟩) := by
      simp [OneShotTimer.ready, hdue]
    rw [Timer.ready, hready]
    exact .some ⟨rfl, rfl, nofun⟩

end TaskSlot.Ticks

/-- A pass over cells is a pass over their timers. -/
theorem passList_timers {slots : List TaskSlot} (h : ∀ slot ∈ slots, slot.Ticks) (now : UInt64) :
    Option.Rel (fun r t => r.2 = t.2 ∧ (∀ slot ∈ r.1.filter TaskSlot.live, slot.Ticks)
        ∧ (r.1.filter TaskSlot.live).map TaskSlot.timerEntry = t.1)
      (passList now slots) (TimerList.pass now (slots.map TaskSlot.timerEntry)) := by
  induction slots with
  | nil => exact .some ⟨rfl, List.forall_mem_nil _, rfl⟩
  | cons slot slots ih =>
      have hslot := h slot (List.mem_cons_self ..)
      have hrest := ih fun x hx => h x (List.mem_cons_of_mem _ hx)
      rw [List.map_cons, passList, TimerList.pass]
      change Option.Rel _ _ ((slot.timer.ready now).bind _)
      by_cases hdue : slot.isDue now = true
      · rw [if_pos hdue]
        have hready := hslot.ready_due hdue
        generalize slot.finish now = f, slot.timer.ready now = r at hready
        cases hready with
        | none => exact .none
        | @some slot' r hr =>
            obtain ⟨hpolled, hlive, hkept⟩ := hr
            rw [Option.bind_some, Option.bind_some]
            generalize passList now slots = p, TimerList.pass now _ = t at hrest
            cases hrest with
            | none => exact .none
            | @some p t hq =>
                obtain ⟨hpolls, hticks, hentries⟩ := hq
                have hpolls' : (slot.task.getD 0, now) :: p.2
                    = if r.1 then (slot.task.getD 0, now) :: t.2 else t.2 := by
                  rw [if_pos hpolled, hpolls]
                by_cases hover : slot'.live = true
                · obtain ⟨hticks', hentry⟩ := hkept hover
                  refine .some ⟨hpolls', ?_, ?_⟩
                  · rw [List.filter_cons_of_pos hover]
                    exact List.forall_mem_cons.mpr ⟨hticks', hticks⟩
                  · dsimp only
                    rw [List.filter_cons_of_pos hover, List.map_cons, hentry, hentries,
                      if_pos (hlive.symm.trans hover)]
                    rfl
                · refine .some ⟨hpolls', ?_, ?_⟩
                  · rw [List.filter_cons_of_neg hover]
                    exact hticks
                  · dsimp only
                    rw [List.filter_cons_of_neg hover, hentries, if_neg (hlive ▸ hover)]
      · rw [if_neg hdue, hslot.ready_early hdue, Option.bind_some]
        generalize passList now slots = p, TimerList.pass now _ = t at hrest
        cases hrest with
        | none => exact .none
        | some hq =>
            obtain ⟨hpolls, hticks, hentries⟩ := hq
            refine .some ⟨hpolls, ?_, ?_⟩
            · rw [List.filter_cons_of_pos hslot.live]
              exact List.forall_mem_cons.mpr ⟨hslot, hticks⟩
            · dsimp only
              rw [List.filter_cons_of_pos hslot.live, List.map_cons, hentries,
                if_pos slot.timer_live]
              rfl

/-! ## The simulation -/

namespace ArduinoLoop

variable {n : Nat}

/-- Between two calls the cells in use are the timers of the list. -/
structure Matches (l : ArduinoLoop n) (t : TimerList) : Prop where
  bounded : l.taskCount ≤ n
  idle : l.running = false
  ticks : ∀ slot ∈ l.entries, slot.Ticks
  entries : l.entries.map TaskSlot.timerEntry = t

theorem matches_init : Matches ({} : ArduinoLoop n) [] := by
  have hent : ({} : ArduinoLoop n).entries = [] := front_zero _
  exact ⟨Nat.zero_le n, rfl, by simp [hent], by rw [hent]; rfl⟩

theorem Matches.liveSlots {l : ArduinoLoop n} {t : TimerList} (h : Matches l t) :
    l.liveSlots = l.entries :=
  List.filter_eq_self.mpr fun slot hslot => (h.ticks slot hslot).live

theorem Matches.length {l : ArduinoLoop n} {t : TimerList} (h : Matches l t) :
    l.liveSlots.length = t.length := by
  rw [← h.entries, List.length_map, h.liveSlots]

/-- There is room for a slot behind those that are live. -/
theorem pushTask_ok {l : ArduinoLoop n} (hb : l.taskCount ≤ n) (slot : TaskSlot) :
    (l.compactInactive.pushTask slot).1 = decide (l.liveSlots.length < n) := by
  obtain ⟨hent, hle, -⟩ := compactInactive_spec hb
  rw [(pushTask_spec hle slot).1, ← hent, length_entries hle]

/-- A registration that is refused. -/
theorem Matches.refused {l l' : ArduinoLoop n} {t : TimerList} (h : Matches l t)
    {slot : TaskSlot} (hadds : Adds l l' false slot) : Matches l' t := by
  have hent : l'.entries = l.entries := by
    rw [hadds.entries, h.liveSlots]
    exact List.append_nil _
  exact ⟨hadds.bounded, hadds.running.trans h.idle, hent ▸ h.ticks, hent ▸ h.entries⟩

theorem Matches.add {l l' : ArduinoLoop n} {t : TimerList} (h : Matches l t) {slot : TaskSlot}
    {ok : Bool} (hadds : Adds l l' ok slot) (hticks : slot.Ticks)
    (hok : ok = decide (l.liveSlots.length < n)) :
    Matches l' (TimerList.add n t slot.timerEntry).1
      ∧ TimerAnswer.returned ok = (TimerList.add n t slot.timerEntry).2 := by
  rw [h.length] at hok
  unfold TimerList.add
  by_cases hroom : t.length < n
  · obtain rfl : ok = true := by simp [hok, hroom]
    have hent : l'.entries = l.entries ++ [slot] := by
      rw [hadds.entries, h.liveSlots]
      rfl
    rw [if_pos hroom]
    refine ⟨⟨hadds.bounded, hadds.running.trans h.idle, ?_, ?_⟩, rfl⟩
    · rw [hent]
      exact List.forall_mem_append.mpr ⟨h.ticks, List.forall_mem_singleton.mpr hticks⟩
    · rw [hent, List.map_append, h.entries]
      rfl
  · obtain rfl : ok = false := by simp [hok, hroom]
    rw [if_neg hroom]
    exact ⟨h.refused hadds, rfl⟩

/-- A live cell is for the task of its timer. -/
theorem task_iff {slot : TaskSlot} (h : slot.Ticks) (task : Nat) :
    slot.task = some task ↔ slot.timerEntry.task = task := by
  have hlive := h.live
  rw [TaskSlot.live, Bool.and_eq_true] at hlive
  obtain ⟨t, ht⟩ := Option.isSome_iff_exists.mp hlive.2
  rw [TaskSlot.timerEntry, ht]
  simp

theorem Matches.remove {l : ArduinoLoop n} {t : TimerList} (h : Matches l t) (task : Nat) :
    Matches (l.remove task).2 (t.filter fun e => e.task ≠ task)
      ∧ (l.remove task).1 = t.any fun e => e.task = task := by
  have hb : (l.markRemoved task).taskCount ≤ n := h.bounded
  obtain ⟨hcompact, hle, hrun⟩ := compactInactive_spec hb
  have hent : (l.markRemoved task).compactInactive.entries
      = l.entries.filter fun slot => slot.task ≠ some task := by
    rw [hcompact, ArduinoLoop.liveSlots, (markRemoved_spec h.bounded task).1, List.filter_map]
    have hkept : l.entries.filter (TaskSlot.live ∘ TaskSlot.markedFor task)
        = l.entries.filter fun slot => slot.task ≠ some task :=
      List.filter_congr fun slot hslot => by
        simp [TaskSlot.markedFor_live, (h.ticks slot hslot).live]
    rw [hkept]
    refine (List.map_congr_left ?_).trans (List.map_id _)
    intro slot hslot
    exact if_neg (by simpa using (List.mem_filter.mp hslot).2)
  rw [remove_idle h.idle]
  refine ⟨⟨hle, hrun.trans h.idle, ?_, ?_⟩, ?_⟩
  · intro slot hslot
    rw [hent] at hslot
    exact h.ticks slot (List.mem_filter.mp hslot).1
  · rw [hent, ← h.entries, List.filter_map]
    congr 1
    exact List.filter_congr fun slot hslot => by
      simp [task_iff (h.ticks slot hslot)]
  · rw [← h.entries, List.any_map]
    refine Bool.eq_iff_iff.mpr ?_
    rw [ArduinoLoop.remove, List.any_eq_true, List.any_eq_true]
    exact exists_congr fun slot => and_congr_right fun hslot => by
      simp [task_iff (h.ticks slot hslot)]

theorem Matches.runOnce {l : ArduinoLoop n} {t : TimerList} (h : Matches l t) (now : UInt64) :
    Option.Rel (fun r r' => Matches r.1 r'.1 ∧ r.2 = r'.2) (l.runOnce now)
      (TimerList.pass now t) := by
  obtain ⟨hent, hle, -⟩ := compactInactive_spec h.bounded
  have hbegin : l.beginPass.taskCount ≤ n := hle
  have hcells : l.beginPass.entries = l.entries := hent.trans h.liveSlots
  have hpass := passFrom_entries hbegin (Nat.zero_add _) now
  have htimers := passList_timers h.ticks now
  rw [List.drop_zero, hcells] at hpass
  rw [h.entries] at htimers
  unfold ArduinoLoop.runOnce
  dsimp only
  generalize passList now l.entries = p, TimerList.pass now t = t' at hpass htimers
  cases hrun : passFrom l.beginPass.taskCount 0 now l.beginPass with
  | none =>
      rw [hrun] at hpass
      cases htimers with
      | none => exact .none
      | some => cases hpass
  | some r =>
      rw [hrun] at hpass
      cases htimers with
      | none => cases hpass
      | some hq =>
          obtain ⟨hpolls, hticks, hentries⟩ := hq
          obtain ⟨hcells', hpolls'⟩ := Prod.mk.inj (Option.some.inj hpass)
          rw [List.take_zero, List.nil_append] at hcells'
          let stopped : ArduinoLoop n := { r.1 with running := false }
          have hstopped : stopped.taskCount ≤ n := by
            have hcount := passFrom_count hrun
            exact hcount ▸ hbegin
          obtain ⟨hend, hle', hidle⟩ := compactInactive_spec hstopped
          have hlive : stopped.liveSlots = r.1.entries.filter TaskSlot.live := rfl
          rw [hlive, hcells'] at hend
          refine .some ⟨⟨hle', hidle, ?_, ?_⟩, hpolls'.trans hpolls⟩
          · exact fun slot hslot => hticks slot (hend ▸ hslot)
          · exact hentries ▸ congrArg (List.map TaskSlot.timerEntry) hend

/-- **The step lemma.** -/
theorem timerStep_matches {l : ArduinoLoop n} {t : TimerList} (h : Matches l t) (c : TimerCall) :
    Option.Rel (fun r r' => Matches r.1 r'.1 ∧ r.2 = r'.2) (timerStep l c)
      (TimerList.step n t c) := by
  cases c with
  | addPeriodic task periodUs now =>
      have hadds := addPeriodic_adds h.bounded task periodUs now 0
      refine .some ?_
      by_cases hperiod : periodUs = 0
      · have hno : (l.addPeriodic task periodUs now 0).1 = false := by
          rw [addPeriodic]
          exact congrArg Prod.fst (if_pos hperiod)
        rw [hno] at hadds
        rw [if_pos hperiod, hno]
        exact ⟨h.refused hadds, rfl⟩
      · rw [if_neg hperiod]
        refine h.add hadds ⟨rfl, fun _ => hperiod⟩ ?_
        rw [addPeriodic]
        simp only [if_neg hperiod, pushTask_ok h.bounded]
  | addOneShot task dueUs =>
      refine .some (h.add (addOneShot_adds h.bounded task dueUs 0) ⟨rfl, nofun⟩ ?_)
      exact pushTask_ok h.bounded _
  | remove task =>
      obtain ⟨hmatches, hremoved⟩ := h.remove task
      exact .some ⟨hmatches, by rw [← hremoved]⟩
  | runOnce now =>
      have hpass := h.runOnce now
      unfold timerStep TimerList.step
      dsimp only
      generalize l.runOnce now = r, TimerList.pass now t = r' at hpass
      cases hpass with
      | none => exact .none
      | some hr => exact .some ⟨hr.1, congrArg TimerAnswer.polled hr.2⟩

end ArduinoLoop

/-! ## Passes end -/

/-- The first due time behind `now`, a whole number of periods on. -/
def PeriodicTimer.dueAfter (t : PeriodicTimer) (now : UInt64) : Nat :=
  t.nextDueUs.toNat
    + ((now.toNat - t.nextDueUs.toNat) / t.periodUs.toNat + 1) * t.periodUs.toNat

/-- The due times `ready` computes fit into 64 bits. -/
def Timer.fits (now : UInt64) : Timer → Bool
  | periodic t =>
      let t := if t.armed then t else t.reset now
      t.periodUs = 0 || now < t.nextDueUs || t.dueAfter now < 2 ^ 64
  | oneShot _ => true

namespace TimerList

/-- No due time overflows in a call. -/
def fits (l : TimerList) : TimerCall → Bool
  | .runOnce now => l.all fun e => e.timer.fits now
  | _ => true

/-- No due time overflows in a sequence of calls. -/
def noOverflow (n : Nat) : TimerList → List TimerCall → Bool
  | _, [] => true
  | l, c :: cs => l.fits c && (step n l c).all fun r => noOverflow n r.1 cs

end TimerList

/-- The catch-up loop stops at the first due time that is later than `now`. -/
theorem ArduinoLoop.catchUp_eq {turns : Nat} {t : PeriodicTimer} {now : UInt64}
    (hperiod : t.periodUs ≠ 0) (hdue : t.nextDueUs ≤ now) (hfits : t.dueAfter now < 2 ^ 64)
    (hturns : (now.toNat - t.nextDueUs.toNat) / t.periodUs.toNat < turns) :
    catchUp turns t.nextDueUs t.periodUs now = some (UInt64.ofNat (t.dueAfter now)) :=
  (firstLater_of_fits hperiod hdue hfits).catchUp_eq hturns

theorem Timer.ready_isSome {t : Timer} {now : UInt64} (h : t.fits now = true) :
    (t.ready now).isSome = true := by
  cases t with
  | oneShot t => rfl
  | periodic t =>
      unfold Timer.fits at h
      unfold Timer.ready PeriodicTimer.ready
      rw [Option.isSome_map]
      dsimp only at h ⊢
      generalize (if t.armed then t else t.reset now) = t at h
      split
      · rfl
      · rename_i hready
        rw [not_or] at hready
        have hdue : t.nextDueUs ≤ now := UInt64.not_lt.mp hready.2
        have hfits : t.dueAfter now < 2 ^ 64 := by simpa [hready.1, hready.2] using h
        have hpos : 0 < t.periodUs.toNat :=
          Nat.pos_of_ne_zero fun h => hready.1 (UInt64.toNat_inj.mp h)
        have hturns : (now.toNat - t.nextDueUs.toNat) / t.periodUs.toNat < 2 ^ 64 :=
          Nat.lt_of_le_of_lt (Nat.div_le_self _ _)
            (Nat.lt_of_le_of_lt (Nat.sub_le _ _) now.toNat_lt)
        rw [ArduinoLoop.catchUp_eq hready.1 hdue hfits hturns]
        rfl

namespace TimerList

theorem pass_isSome {l : TimerList} {now : UInt64} (h : ∀ e ∈ l, e.timer.fits now = true) :
    (pass now l).isSome = true := by
  induction l with
  | nil => rfl
  | cons e l ih =>
      obtain ⟨r, hr⟩ := Option.isSome_iff_exists.mp
        (Timer.ready_isSome (h e (List.mem_cons_self ..)))
      obtain ⟨rest, hrest⟩ := Option.isSome_iff_exists.mp
        (ih fun e he => h e (List.mem_cons_of_mem _ he))
      rw [pass, hr, Option.bind_some, hrest]
      rfl

theorem step_isSome {n : Nat} {l : TimerList} {c : TimerCall} (h : l.fits c = true) :
    (step n l c).isSome = true := by
  cases c with
  | addPeriodic => rfl
  | addOneShot => rfl
  | remove => rfl
  | runOnce now =>
      rw [step, Option.isSome_map]
      exact pass_isSome (List.all_eq_true.mp h)

theorem outputs_isSome {n : Nat} {l : TimerList} {cs : List TimerCall}
    (h : noOverflow n l cs = true) : (outputs (step n) l cs).isSome = true := by
  induction cs generalizing l with
  | nil => rfl
  | cons c cs ih =>
      rw [noOverflow, Bool.and_eq_true] at h
      obtain ⟨r, hr⟩ := Option.isSome_iff_exists.mp (step_isSome (n := n) h.1)
      have hrest := h.2
      rw [hr, Option.all_some] at hrest
      rw [outputs, hr, Option.bind_some, Option.isSome_map]
      exact ih hrest

end TimerList

/-- Whatever the calls, the answers of the scheduler are those of the list of
timers: what `add_*` and `remove` return, and the polls of each `run_once`
in their order. There are answers as long as no due time overflows. -/
theorem refines_timers (n : Nat) (calls : List TimerCall) :
    outputs ArduinoLoop.timerStep ({} : ArduinoLoop n) calls = outputs (TimerList.step n) [] calls
      ∧ (TimerList.noOverflow n [] calls = true →
          (outputs ArduinoLoop.timerStep ({} : ArduinoLoop n) calls).isSome = true) := by
  have heq := outputs_eq (R := ArduinoLoop.Matches (n := n))
    (fun _ _ c h => ArduinoLoop.timerStep_matches h c) ArduinoLoop.matches_init calls
  exact ⟨heq, fun h => heq ▸ TimerList.outputs_isSome h⟩

/-- One task twice, a late tick, a full array and a removal. -/
theorem refines_timers_run :
    (outputs ArduinoLoop.timerStep ({} : ArduinoLoop 2)
        [.addPeriodic 0 10 0, .addOneShot 0 5, .addPeriodic 1 7 0, .runOnce 38, .runOnce 39,
          .runOnce 40, .remove 0, .addPeriodic 1 7 50, .runOnce 50]).isSome = true :=
  (refines_timers 2 _).2 (by decide)

end AsyncEventLoop
