import AsyncEventLoop.ArduinoLoop
import AsyncEventLoop.Runs

/-!
# Runs of the cooperative scheduler

A run interleaves calls from the application with the scheduler's own
loop. A state keeps the scheduler and one frame for each `run_once` that
is waiting for a `poll` to return; an event is a call, at top level or
from inside the innermost `poll`, or the return of that `poll`. Tasks may
do anything between their `poll` and its return, so a statement about
every run is a statement about every behaviour of the tasks.

The log is a ghost. It records, newest first, each one-shot registration
the scheduler accepted, each `poll` with the registration of the slot it
was made for, and each registration a `remove` unscheduled.

One-shot conservation is proved from `Core`, what is true between two
pieces of the loop: `addInPlace` is the condition under which the cell a
pass is working on stays where it is.
-/

namespace AsyncEventLoop

open Runs

/-- The locals of a `run_once` whose `poll` has not returned; `reg` is a
ghost, the registration that was polled. -/
structure PassFrame where
  now : UInt64
  index : Nat
  reg : Nat
  deriving DecidableEq

inductive LoopObs where
  | accepted (reg task : Nat) (dueUs : UInt64)
  | polled (reg : Nat) (now : UInt64)
  | removed (reg : Nat)
  deriving DecidableEq

def LoopObs.reg : LoopObs → Nat
  | .accepted reg _ _ => reg
  | .polled reg _ => reg
  | .removed reg => reg

def LoopObs.isPollOf (reg : Nat) : LoopObs → Bool
  | .polled r _ => r = reg
  | _ => false

/-- How often the registration has been polled. -/
def polls (log : List LoopObs) (reg : Nat) : Nat := log.countP (LoopObs.isPollOf reg)

structure LoopState (MaxTasks : Nat) where
  loop : ArduinoLoop MaxTasks := {}
  frames : List PassFrame := []
  clock : UInt64 := 0
  nextReg : Nat := 0
  log : List LoopObs := []

inductive LoopEvent where
  | addPeriodic (task : Nat) (periodUs now : UInt64)
  | addOneShot (task : Nat) (dueUs : UInt64)
  | remove (task : Nat)
  | runOnce (now : UInt64)
  | pollReturns

namespace ArduinoLoop

variable {n : Nat}

/-- The loop of `run_once` from cell `i` on: up to the next `poll`, or to
the end of the pass. -/
def advance (s : LoopState n) (now : UInt64) (i : Nat) : LoopState n :=
  match s.loop.nextDue now i with
  | some j =>
      let reg := (s.loop.tasks[j]?.getD {}).reg
      { s with frames := ⟨now, j, reg⟩ :: s.frames, log := .polled reg now :: s.log }
  | none => { s with loop := s.loop.endPass }

/-- The registrations `remove task` unschedules, as the log records them. -/
def removals (l : ArduinoLoop n) (task : Nat) : List LoopObs :=
  (l.entries.filter fun slot => slot.task = some task).map fun slot => .removed slot.reg

/-- One event. A clock reading below an earlier one does not happen. -/
def step (s : LoopState n) : LoopEvent → Option (LoopState n)
  | .addPeriodic task periodUs now =>
      if now < s.clock then none
      else
        some { s with
          loop := (s.loop.addPeriodic task periodUs now s.nextReg).2
          clock := now
          nextReg := s.nextReg + 1 }
  | .addOneShot task dueUs =>
      let r := s.loop.addOneShot task dueUs s.nextReg
      some { s with
        loop := r.2
        nextReg := s.nextReg + 1
        log := if r.1 then .accepted s.nextReg task dueUs :: s.log else s.log }
  | .remove task =>
      some { s with
        loop := (s.loop.remove task).2
        log := removals s.loop task ++ s.log }
  | .runOnce now =>
      if now < s.clock then none
      else some (advance { s with loop := s.loop.beginPass, clock := now } now 0)
  | .pollReturns =>
      match s.frames with
      | [] => none
      | f :: rest =>
          (s.loop.afterPoll f.now f.index).map fun l =>
            advance { s with loop := l, frames := rest } f.now (f.index + 1)

/-- No `poll` calls `run_once`. -/
def flat (s : LoopState n) : LoopEvent → Bool
  | .runOnce _ => s.frames.isEmpty
  | _ => true

/-- A registration made inside a `poll` finds every cell up to the polled
one live, so that compacting leaves them in place. -/
def addInPlace (s : LoopState n) (e : LoopEvent) : Bool :=
  match e, s.frames with
  | .addPeriodic .., f :: _ => (s.loop.entries.take (f.index + 1)).all TaskSlot.live
  | .addOneShot .., f :: _ => (s.loop.entries.take (f.index + 1)).all TaskSlot.live
  | _, _ => true

/-! ## The fate of a one-shot -/

/-- Still registered, and never yet polled. -/
def Registered (s : LoopState n) (reg task : Nat) (dueUs : UInt64) : Prop :=
  (∃ slot ∈ s.loop.liveSlots, slot.reg = reg ∧ slot.task = some task
      ∧ slot.periodic = false ∧ slot.nextDueUs = dueUs)
    ∧ polls s.log reg = 0

/-- Polled exactly once, when it was due, and no longer registered. -/
def PolledOnce (s : LoopState n) (reg : Nat) (dueUs : UInt64) : Prop :=
  polls s.log reg = 1 ∧ (∀ now, .polled reg now ∈ s.log → dueUs ≤ now)
    ∧ ∀ slot ∈ s.loop.liveSlots, slot.reg ≠ reg

/-- Unscheduled by a `remove`, without having been polled. -/
def Unscheduled (s : LoopState n) (reg : Nat) : Prop :=
  .removed reg ∈ s.log ∧ polls s.log reg = 0 ∧ ∀ slot ∈ s.loop.liveSlots, slot.reg ≠ reg

/-- Every accepted one-shot is in exactly one of the three states. -/
def OneShotsConserved (s : LoopState n) : Prop :=
  ∀ reg task dueUs, .accepted reg task dueUs ∈ s.log →
    (Registered s reg task dueUs ∧ ¬ PolledOnce s reg dueUs ∧ ¬ Unscheduled s reg)
      ∨ (¬ Registered s reg task dueUs ∧ PolledOnce s reg dueUs ∧ ¬ Unscheduled s reg)
      ∨ (¬ Registered s reg task dueUs ∧ ¬ PolledOnce s reg dueUs ∧ Unscheduled s reg)

/-! ## The invariant -/

/-- Where an accepted one-shot stands while registration `busy` is inside
its `poll`: as at the end of a pass, except that the slot of `busy` may
still be live. -/
inductive Fate (l : ArduinoLoop n) (log : List LoopObs) (busy : Option Nat)
    (reg task : Nat) (dueUs : UInt64) : Prop where
  | registered (slot : TaskSlot) (hmem : slot ∈ l.liveSlots) (hreg : slot.reg = reg)
      (htask : slot.task = some task) (honce : slot.periodic = false)
      (hdue : slot.nextDueUs = dueUs) (hpolls : polls log reg = 0)
      (hnot : .removed reg ∉ log)
  | polled (hpolls : polls log reg = 1) (hdue : ∀ now, .polled reg now ∈ log → dueUs ≤ now)
      (hlive : ∀ slot ∈ l.liveSlots, slot.reg = reg → busy = some reg)
  | unscheduled (hmem : .removed reg ∈ log) (hpolls : polls log reg = 0)
      (hlive : ∀ slot ∈ l.liveSlots, slot.reg ≠ reg)

/-- What holds of the scheduler and the log between two pieces of a pass. -/
structure Core (l : ArduinoLoop n) (log : List LoopObs) (nextReg : Nat)
    (busy : Option Nat) : Prop where
  numbered : Numbered l nextReg
  freshLog : ∀ obs ∈ log, obs.reg < nextReg
  periodic : ∀ slot ∈ l.liveSlots, slot.periodic = true →
    ∀ task dueUs, .accepted slot.reg task dueUs ∉ log
  fate : ∀ reg task dueUs, .accepted reg task dueUs ∈ log → Fate l log busy reg task dueUs
  busyPolled : ∀ reg, busy = some reg → ∃ now, .polled reg now ∈ log

/-- A `polls` count is unchanged by observations of other kinds. -/
theorem polls_append_of_not_poll {log m : List LoopObs} {reg : Nat}
    (h : ∀ obs ∈ m, LoopObs.isPollOf reg obs = false) :
    polls (m ++ log) reg = polls log reg := by
  have hnew : m.countP (LoopObs.isPollOf reg) = 0 := by
    rw [List.countP_eq_zero]
    intro obs hobs
    simp [h obs hobs]
  rw [polls, List.countP_append, hnew, Nat.zero_add, polls]

/-- The live slots are all that a fate depends on. -/
theorem Fate.congr {l l' : ArduinoLoop n} {log : List LoopObs} {busy : Option Nat}
    {reg task : Nat} {dueUs : UInt64} (h : Fate l log busy reg task dueUs)
    (hlive : l'.liveSlots = l.liveSlots) : Fate l' log busy reg task dueUs := by
  cases h with
  | registered slot hmem hreg htask honce hdue hpolls hnot =>
      exact .registered slot (hlive ▸ hmem) hreg htask honce hdue hpolls hnot
  | polled hpolls hdue hbusy => exact .polled hpolls hdue (hlive ▸ hbusy)
  | unscheduled hmem hpolls hgone => exact .unscheduled hmem hpolls (hlive ▸ hgone)

/-- A scheduler with the same live slots. -/
theorem Core.congr {l l' : ArduinoLoop n} {log : List LoopObs} {nextReg : Nat}
    {busy : Option Nat} (h : Core l log nextReg busy) (hnum : Numbered l' nextReg)
    (hlive : l'.liveSlots = l.liveSlots) : Core l' log nextReg busy :=
  ⟨hnum, h.freshLog, hlive ▸ h.periodic, fun reg task dueUs hacc =>
    (h.fate reg task dueUs hacc).congr hlive, h.busyPolled⟩

theorem Core.compact {l : ArduinoLoop n} {log : List LoopObs} {nextReg : Nat}
    {busy : Option Nat} (h : Core l log nextReg busy) :
    Core l.compactInactive log nextReg busy :=
  h.congr h.numbered.compact (compactInactive_liveSlots h.numbered.bounded)

/-- A registration, accepted or refused: the new slot is the only one with
its number. -/
theorem Core.add {l l' : ArduinoLoop n} {log : List LoopObs} {nextReg : Nat}
    {busy : Option Nat} (h : Core l log nextReg busy) {ok : Bool} {slot : TaskSlot}
    (hadds : Adds l l' ok slot) (hreg : slot.reg = nextReg) (hslot : slot.live = true) :
    Core l' log (nextReg + 1) busy := by
  have hold : ∀ obs ∈ log, obs.reg ≠ slot.reg := fun obs hobs =>
    Nat.ne_of_lt (hreg ▸ h.freshLog obs hobs)
  refine ⟨h.numbered.add hadds hreg, fun obs hobs => Nat.lt_succ_of_lt (h.freshLog obs hobs),
    ?_, ?_, h.busyPolled⟩
  · intro x hx hper task dueUs hacc
    rcases (hadds.mem_liveSlots hslot).mp hx with hx | ⟨-, rfl⟩
    · exact h.periodic x hx hper task dueUs hacc
    · exact hold _ hacc rfl
  · intro reg task dueUs hacc
    have hne : slot.reg ≠ reg := fun heq => hold _ hacc heq.symm
    cases h.fate reg task dueUs hacc with
    | registered x hx hxreg htask honce hdue hpolls hnot =>
        exact .registered x ((hadds.mem_liveSlots hslot).mpr (Or.inl hx)) hxreg htask honce hdue
          hpolls hnot
    | polled hpolls hdue hbusy =>
        refine .polled hpolls hdue ?_
        intro x hx hxreg
        rcases (hadds.mem_liveSlots hslot).mp hx with hx | ⟨-, rfl⟩
        · exact hbusy x hx hxreg
        · exact absurd hxreg hne
    | unscheduled hrem hpolls hgone =>
        refine .unscheduled hrem hpolls ?_
        intro x hx
        rcases (hadds.mem_liveSlots hslot).mp hx with hx | ⟨-, rfl⟩
        · exact hgone x hx
        · exact hne

/-- A one-shot that has just been registered is accepted into the log. -/
theorem Core.accept {l : ArduinoLoop n} {log : List LoopObs} {reg : Nat}
    {busy : Option Nat} (h : Core l log (reg + 1) busy) {slot : TaskSlot} {task : Nat}
    (hslot : slot ∈ l.liveSlots) (hreg : slot.reg = reg) (htask : slot.task = some task)
    (honce : slot.periodic = false) (hnew : ∀ obs ∈ log, obs.reg ≠ reg) :
    Core l (.accepted reg task slot.nextDueUs :: log) (reg + 1) busy := by
  have hpolls : ∀ r, polls (.accepted reg task slot.nextDueUs :: log) r = polls log r :=
    fun r => polls_append_of_not_poll
      (m := [.accepted reg task slot.nextDueUs]) (by simp [LoopObs.isPollOf])
  have hzero : polls log reg = 0 := by
    rw [polls, List.countP_eq_zero]
    intro obs hobs hpoll
    cases obs with
    | polled r now =>
        have heq : r = reg := by simpa [LoopObs.isPollOf] using hpoll
        exact hnew _ hobs heq
    | accepted r t d => simp [LoopObs.isPollOf] at hpoll
    | removed r => simp [LoopObs.isPollOf] at hpoll
  constructor
  case numbered => exact h.numbered
  case freshLog =>
    intro obs hobs
    rcases List.mem_cons.mp hobs with rfl | hobs
    · exact Nat.lt_succ_self reg
    · exact h.freshLog obs hobs
  case periodic =>
    intro x hx hper t d hacc
    rcases List.mem_cons.mp hacc with heq | hacc
    · obtain rfl := h.numbered.unique (mem_liveSlots.mp hx).1 (mem_liveSlots.mp hslot).1
        ((LoopObs.accepted.inj heq).1.trans hreg.symm)
      rw [hper] at honce
      cases honce
    · exact h.periodic x hx hper t d hacc
  case fate =>
    intro r t d hacc
    rcases List.mem_cons.mp hacc with heq | hacc
    · obtain ⟨rfl, rfl, rfl⟩ := LoopObs.accepted.inj heq
      refine .registered slot hslot hreg htask honce rfl ((hpolls r).trans hzero) ?_
      intro hrem
      rcases List.mem_cons.mp hrem with heq | hrem
      · cases heq
      · exact hnew _ hrem rfl
    · cases h.fate r t d hacc with
      | registered x hx hxreg hxtask hxonce hdue hp hnot =>
          exact .registered x hx hxreg hxtask hxonce hdue ((hpolls r).trans hp)
            (by simpa using hnot)
      | polled hp hdue hbusy =>
          exact .polled ((hpolls r).trans hp) (by simpa using hdue) hbusy
      | unscheduled hrem hp hgone =>
          exact .unscheduled (List.mem_cons_of_mem _ hrem) ((hpolls r).trans hp) hgone
  case busyPolled =>
    intro r hr
    obtain ⟨now, hnow⟩ := h.busyPolled r hr
    exact ⟨now, List.mem_cons_of_mem _ hnow⟩

theorem mem_removals {l : ArduinoLoop n} {task : Nat} {obs : LoopObs} :
    obs ∈ removals l task
      ↔ ∃ slot ∈ l.entries, slot.task = some task ∧ obs = .removed slot.reg := by
  simp only [removals, List.mem_map, List.mem_filter, decide_eq_true_eq]
  constructor
  · rintro ⟨x, ⟨hx, hxt⟩, rfl⟩
    exact ⟨x, hx, hxt, rfl⟩
  · rintro ⟨x, hx, hxt, rfl⟩
    exact ⟨x, ⟨hx, hxt⟩, rfl⟩

/-- Marking the slots of a task takes its one-shots from registered to
unscheduled, and leaves those that are being polled where they are. -/
theorem Core.mark {l : ArduinoLoop n} {log : List LoopObs} {nextReg : Nat}
    {busy : Option Nat} (h : Core l log nextReg busy) (task : Nat) :
    Core (l.markRemoved task) (removals l task ++ log) nextReg busy := by
  have hlive : ∀ x, x ∈ (l.markRemoved task).liveSlots
      ↔ x ∈ l.liveSlots ∧ x.task ≠ some task := fun x => mem_liveSlots_mark h.numbered.bounded
  have hpolls : ∀ reg, polls (removals l task ++ log) reg = polls log reg := fun reg =>
    polls_append_of_not_poll fun obs hobs => by
      obtain ⟨_, -, -, rfl⟩ := mem_removals.mp hobs
      rfl
  have hold : ∀ {obs}, obs ∈ removals l task ++ log →
      (∀ reg, obs ≠ .removed reg) → obs ∈ log := fun hobs hne => by
    rcases List.mem_append.mp hobs with hobs | hobs
    · obtain ⟨x, -, -, rfl⟩ := mem_removals.mp hobs
      exact absurd rfl (hne x.reg)
    · exact hobs
  constructor
  case numbered => exact h.numbered.mark task
  case freshLog =>
    intro obs hobs
    rcases List.mem_append.mp hobs with hobs | hobs
    · obtain ⟨x, hx, -, rfl⟩ := mem_removals.mp hobs
      exact h.numbered.fresh x hx
    · exact h.freshLog obs hobs
  case periodic =>
    intro x hx hper t d hacc
    exact h.periodic x ((hlive x).mp hx).1 hper t d (hold hacc (by simp))
  case fate =>
    intro reg t d hacc
    have hacc : .accepted reg t d ∈ log := hold hacc (by simp)
    cases h.fate reg t d hacc with
    | registered x hx hxreg hxtask hxonce hdue hp hnot =>
        have hxent := (mem_liveSlots.mp hx).1
        by_cases hxt : x.task = some task
        · have hrem := mem_removals.mpr ⟨x, hxent, hxt, by rw [hxreg]⟩
          refine .unscheduled (List.mem_append_left _ hrem) ((hpolls reg).trans hp)
            ?_
          intro y hy hyreg
          obtain ⟨hy, hyt⟩ := (hlive y).mp hy
          obtain rfl := h.numbered.unique (mem_liveSlots.mp hy).1 hxent (hyreg.trans hxreg.symm)
          exact hyt hxt
        · refine .registered x ((hlive x).mpr ⟨hx, hxt⟩) hxreg hxtask hxonce hdue
            ((hpolls reg).trans hp) ?_
          intro hrem
          rcases List.mem_append.mp hrem with hrem | hrem
          · obtain ⟨y, hy, hyt, heq⟩ := mem_removals.mp hrem
            obtain rfl := h.numbered.unique hy hxent
              ((LoopObs.removed.inj heq).symm.trans hxreg.symm)
            exact hxt hyt
          · exact hnot hrem
    | polled hp hdue hbusy =>
        exact .polled ((hpolls reg).trans hp) (fun now hnow => hdue now (hold hnow (by simp)))
          fun x hx hxreg => hbusy x ((hlive x).mp hx).1 hxreg
    | unscheduled hrem hp hgone =>
        exact .unscheduled (List.mem_append_right _ hrem) ((hpolls reg).trans hp)
          fun x hx => hgone x ((hlive x).mp hx).1
  case busyPolled =>
    intro r hr
    obtain ⟨now, hnow⟩ := h.busyPolled r hr
    exact ⟨now, List.mem_append_right _ hnow⟩

/-- A `poll` of a live slot that is due, while no other is being polled. -/
theorem Core.poll {l : ArduinoLoop n} {log : List LoopObs} {nextReg : Nat}
    (h : Core l log nextReg none) {slot : TaskSlot} {now : UInt64} (hslot : slot ∈ l.liveSlots)
    (hnow : slot.nextDueUs ≤ now) :
    Core l (.polled slot.reg now :: log) nextReg (some slot.reg) := by
  have hent := (mem_liveSlots.mp hslot).1
  constructor
  case numbered => exact h.numbered
  case freshLog =>
    intro obs hobs
    rcases List.mem_cons.mp hobs with rfl | hobs
    · exact h.numbered.fresh slot hent
    · exact h.freshLog obs hobs
  case periodic =>
    intro x hx hper t d hacc
    exact h.periodic x hx hper t d (by simpa using hacc)
  case fate =>
    intro reg t d hacc
    have hacc : .accepted reg t d ∈ log := by simpa using hacc
    by_cases hreg : reg = slot.reg
    · subst hreg
      cases h.fate _ t d hacc with
      | registered x hx hxreg hxtask hxonce hdue hp hnot =>
          obtain rfl := h.numbered.unique (mem_liveSlots.mp hx).1 hent hxreg
          have hnone : ∀ now', .polled x.reg now' ∉ log := fun now' hmem => by
            rw [polls, List.countP_eq_zero] at hp
            exact hp _ hmem (by simp [LoopObs.isPollOf])
          refine .polled ?_ ?_ fun _ _ hx' => rfl
          · rw [polls, List.countP_cons, ← polls, hp]
            simp [LoopObs.isPollOf]
          · intro now' hmem
            rcases List.mem_cons.mp hmem with heq | hmem
            · obtain ⟨-, rfl⟩ := LoopObs.polled.inj heq
              exact hdue ▸ hnow
            · exact absurd hmem (hnone now')
      | polled hp hdue hbusy => cases hbusy slot hslot rfl
      | unscheduled hrem hp hgone => exact absurd rfl (hgone slot hslot)
    · have hpolls : polls (.polled slot.reg now :: log) reg = polls log reg :=
        polls_append_of_not_poll (m := [.polled slot.reg now])
          (by simpa [LoopObs.isPollOf] using fun heq => hreg heq.symm)
      cases h.fate reg t d hacc with
      | registered x hx hxreg hxtask hxonce hdue hp hnot =>
          exact .registered x hx hxreg hxtask hxonce hdue (hpolls.trans hp) (by simpa using hnot)
      | polled hp hdue hbusy =>
          refine .polled (hpolls.trans hp) ?_ fun x hx hxreg => by
            cases hbusy x hx hxreg
          intro now' hmem
          rcases List.mem_cons.mp hmem with heq | hmem
          · exact absurd (LoopObs.polled.inj heq).1 hreg
          · exact hdue now' hmem
      | unscheduled hrem hp hgone =>
          exact .unscheduled (List.mem_cons_of_mem _ hrem) (hpolls.trans hp) hgone
  case busyPolled =>
    intro r hr
    obtain rfl := Option.some.inj hr
    exact ⟨now, List.mem_cons_self ..⟩

/-- The loop body behind a `poll`, applied to the slot that was polled. -/
theorem Core.finish {l l' : ArduinoLoop n} {log : List LoopObs} {nextReg : Nat}
    {slot slot' : TaskSlot} {now : UInt64} {i : Nat}
    (h : Core l log nextReg (some slot.reg)) (hslot : l.entries[i]? = some slot)
    (hfin : Finishes now slot slot') (hent : l'.entries = l.entries.set i slot')
    (hcount : l'.taskCount = l.taskCount) : Core l' log nextReg none := by
  have hlive : ∀ x, x ∈ l'.liveSlots ↔ (x ∈ l.liveSlots ∧ x.reg ≠ slot.reg)
      ∨ (slot.live = true ∧ slot.periodic = true ∧ x = slot') :=
    fun x => h.numbered.mem_live_finish hslot hfin hent
  obtain ⟨hreg, hper⟩ := hfin.same
  have hnever : ∀ t d, slot.live = true → slot.periodic = true →
      .accepted slot.reg t d ∉ log := fun t d hslotLive hslotPer =>
    h.periodic slot (mem_liveSlots.mpr ⟨List.mem_of_getElem? hslot, hslotLive⟩) hslotPer t d
  obtain ⟨now', hpolled⟩ := h.busyPolled slot.reg rfl
  have hsome : polls log slot.reg ≠ 0 := fun hzero => by
    rw [polls, List.countP_eq_zero] at hzero
    exact hzero _ hpolled (by simp [LoopObs.isPollOf])
  refine ⟨h.numbered.finish hslot hreg hent hcount, h.freshLog, ?_, ?_, nofun⟩
  · intro x hx hxper t d
    rcases (hlive x).mp hx with ⟨hx, -⟩ | ⟨hslotLive, hslotPer, rfl⟩
    · exact h.periodic x hx hxper t d
    · rw [hreg]
      exact hnever t d hslotLive hslotPer
  · intro reg t d hacc
    have hbusy : ∀ x ∈ l'.liveSlots, x.reg = reg →
        x ∈ l.liveSlots ∧ x.reg ≠ slot.reg := fun x hx hxreg => by
      rcases (hlive x).mp hx with hx | ⟨hslotLive, hslotPer, rfl⟩
      · exact hx
      · rw [← hxreg, hreg] at hacc
        exact absurd hacc (hnever t d hslotLive hslotPer)
    cases h.fate reg t d hacc with
    | registered x hx hxreg hxtask hxonce hdue hp hnot =>
        have hne : x.reg ≠ slot.reg := fun heq => hsome (by rw [← heq, hxreg, hp])
        exact .registered x ((hlive x).mpr (Or.inl ⟨hx, hne⟩)) hxreg hxtask hxonce hdue hp hnot
    | polled hp hdue hb =>
        refine .polled hp hdue ?_
        intro x hx hxreg
        obtain ⟨hx, hne⟩ := hbusy x hx hxreg
        exact absurd (hxreg.trans (Option.some.inj (hb x hx hxreg)).symm) hne
    | unscheduled hrem hp hgone =>
        exact .unscheduled hrem hp fun x hx hxreg => hgone x (hbusy x hx hxreg).1 hxreg

/-! ## Runs -/

/-- What holds between two events: `Core`, and a pass that is waiting for a
`poll` finds the slot it polled in the cell where it polled it. -/
structure Inv (s : LoopState n) : Prop where
  core : Core s.loop s.log s.nextReg (s.frames.head?.map PassFrame.reg)
  frames : s.frames = [] ∨ ∃ f slot, s.frames = [f] ∧ s.loop.running = true
    ∧ s.loop.entries[f.index]? = some slot ∧ slot.reg = f.reg

theorem inv_init : Inv ({} : LoopState n) := by
  have hlive : ({} : ArduinoLoop n).liveSlots = [] := by
    rw [liveSlots, entries, FixedArray.front_zero]
    rfl
  refine ⟨⟨numbered_init, ?_, ?_, ?_, ?_⟩, Or.inl rfl⟩ <;> simp [hlive]

/-- The loop runs on to the next `poll` or to its end. -/
theorem advance_inv {s : LoopState n} (hcore : Core s.loop s.log s.nextReg none)
    (hframes : s.frames = []) (hrun : s.loop.running = true) (now : UInt64) (i : Nat) :
    Inv (advance s now i) := by
  unfold advance
  cases hnext : s.loop.nextDue now i with
  | none =>
      have hstopped : Core { s.loop with running := false } s.log s.nextReg none :=
        hcore.congr (hcore.numbered.congr rfl hcore.numbered.bounded) rfl
      refine ⟨?_, Or.inl hframes⟩
      rw [hframes]
      exact hstopped.compact
  | some j =>
      have hb := hcore.numbered.bounded
      obtain ⟨-, slot, hslot, hlive, hdue⟩ := nextDue_spec hb hnext
      have hj : j < s.loop.taskCount := by
        rw [← length_entries hb]
        exact (List.getElem?_eq_some_iff.mp hslot).1
      have hcell : s.loop.tasks[j]?.getD {} = slot := by
        rw [cell_eq hb j hj] at hslot
        exact Option.some.inj hslot
      have hmem : slot ∈ s.loop.liveSlots :=
        mem_liveSlots.mpr ⟨List.mem_of_getElem? hslot, hlive⟩
      refine ⟨?_, Or.inr ⟨⟨now, j, slot.reg⟩, slot, ?_, hrun, hslot, rfl⟩⟩
      · simpa [hcell] using hcore.poll hmem hdue
      · simp [hcell, hframes]

/-- A registration that finds the cells up to the polled one live leaves
the polled slot in its cell. -/
theorem frames_add {s : LoopState n} (h : Inv s) {l' : ArduinoLoop n} {ok : Bool}
    {slot : TaskSlot} (hadds : Adds s.loop l' ok slot)
    (hplace : ∀ f rest, s.frames = f :: rest →
      (s.loop.entries.take (f.index + 1)).all TaskSlot.live = true) :
    s.frames = [] ∨ ∃ f x, s.frames = [f] ∧ l'.running = true
      ∧ l'.entries[f.index]? = some x ∧ x.reg = f.reg := by
  rcases h.frames with hnil | ⟨f, x, hf, hrun, hx, hreg⟩
  · exact Or.inl hnil
  · exact Or.inr ⟨f, x, hf, hadds.running.trans hrun, hadds.getElem? (hplace f [] hf) hx, hreg⟩

/-- **The step lemma.** -/
theorem step_inv {s s' : LoopState n} {e : LoopEvent} (h : Inv s) (hflat : flat s e = true)
    (hplace : addInPlace s e = true) (hstep : step s e = some s') : Inv s' := by
  have hb := h.core.numbered.bounded
  cases e with
  | addPeriodic task periodUs now =>
      simp only [step] at hstep
      split at hstep
      · cases hstep
      · obtain rfl := Option.some.inj hstep
        have hadds := addPeriodic_adds hb task periodUs now s.nextReg
        refine ⟨h.core.add hadds rfl rfl, frames_add h hadds ?_⟩
        intro f rest hf
        simpa [addInPlace, hf] using hplace
  | addOneShot task dueUs =>
      obtain rfl := Option.some.inj hstep
      have hadds := addOneShot_adds hb task dueUs s.nextReg
      refine ⟨?_, frames_add h hadds fun f rest hf => by simpa [addInPlace, hf] using hplace⟩
      have hcore := h.core.add hadds rfl rfl
      cases hok : (s.loop.addOneShot task dueUs s.nextReg).1 with
      | false => simpa [hok] using hcore
      | true =>
          rw [hok] at hadds
          simpa [hok] using hcore.accept ((hadds.mem_liveSlots rfl).mpr (Or.inr ⟨rfl, rfl⟩)) rfl
            rfl rfl fun obs hobs => Nat.ne_of_lt (h.core.freshLog obs hobs)
  | remove task =>
      obtain rfl := Option.some.inj hstep
      have hmark := h.core.mark task
      obtain ⟨hent, -, -⟩ := markRemoved_spec hb task
      cases hrunning : s.loop.running with
      | false =>
          have hloop := remove_idle hrunning task
          refine ⟨?_, ?_⟩
          · simpa [hloop] using hmark.compact
          · rcases h.frames with hnil | ⟨f, x, hf, htrue, -⟩
            · exact Or.inl hnil
            · rw [hrunning] at htrue
              cases htrue
      | true =>
          have hloop := remove_running hrunning task
          refine ⟨by simpa [hloop] using hmark, ?_⟩
          rcases h.frames with hnil | ⟨f, x, hf, -, hx, hreg⟩
          · exact Or.inl hnil
          · refine Or.inr ⟨f, TaskSlot.markedFor task x, hf, ?_, ?_, ?_⟩
            · rw [hloop]
              exact hrunning
            · simp only [hloop, hent, List.getElem?_map, hx, Option.map_some]
            · rw [TaskSlot.markedFor_reg, hreg]
  | runOnce now =>
      have hnil : s.frames = [] := by simpa [flat] using hflat
      simp only [step] at hstep
      split at hstep
      · cases hstep
      · obtain rfl := Option.some.inj hstep
        have hcore : Core s.loop s.log s.nextReg none := by simpa [hnil] using h.core
        have hbegin : Core s.loop.beginPass s.log s.nextReg none :=
          hcore.compact.congr (hcore.compact.numbered.congr rfl hcore.compact.numbered.bounded) rfl
        exact advance_inv (s := { s with loop := s.loop.beginPass, clock := now }) hbegin hnil
          rfl now 0
  | pollReturns =>
      rcases h.frames with hnil | ⟨f, slot, hf, hrun, hslot, hreg⟩
      · simp [step, hnil] at hstep
      · simp only [step, hf] at hstep
        obtain ⟨l, hl, rfl⟩ := Option.map_eq_some_iff.mp hstep
        obtain ⟨slot', hfin, hent, hcount, hrun'⟩ := afterPoll_spec hb hslot hl
        have hcore : Core s.loop s.log s.nextReg (some slot.reg) := by
          simpa [hf, hreg] using h.core
        exact advance_inv (s := { s with loop := l, frames := [] })
          (hcore.finish hslot hfin hent hcount) rfl (hrun'.trans hrun) _ _

/-- Outside a pass the invariant says where every one-shot is. -/
theorem Inv.conserved {s : LoopState n} (h : Inv s) (hidle : s.frames = []) :
    OneShotsConserved s := by
  intro reg task dueUs hacc
  have hcore : Core s.loop s.log s.nextReg none := by simpa [hidle] using h.core
  cases hcore.fate reg task dueUs hacc with
  | registered slot hmem hreg htask honce hdue hpolls hnot =>
      refine Or.inl ⟨⟨⟨slot, hmem, hreg, htask, honce, hdue⟩, hpolls⟩, ?_, ?_⟩
      · rintro ⟨hone, -⟩
        omega
      · rintro ⟨hrem, -⟩
        exact hnot hrem
  | polled hpolls hdue hlive =>
      refine Or.inr (Or.inl ⟨?_, ⟨hpolls, hdue, ?_⟩, ?_⟩)
      · rintro ⟨-, hzero⟩
        omega
      · intro slot hs hreg
        cases hlive slot hs hreg
      · rintro ⟨-, hzero, -⟩
        omega
  | unscheduled hrem hpolls hgone =>
      refine Or.inr (Or.inr ⟨?_, ?_, hrem, hpolls, hgone⟩)
      · rintro ⟨⟨slot, hs, hreg, -⟩, -⟩
        exact hgone slot hs hreg
      · rintro ⟨hone, -⟩
        omega

/-- **One-shots are conserved** in every run in which no `poll` calls
`run_once` and every registration made inside a `poll` finds the cells up
to the polled one live: whenever no pass is under way, each accepted
one-shot is still registered and unpolled, has been polled exactly once and
not early, or was unscheduled by a `remove`. -/
theorem one_shots_conserved {s : LoopState n} {es : List LoopEvent}
    (hrun : run (restrict (fun s e => flat s e && addInPlace s e) step) {} es = some s)
    (hidle : s.frames = []) : OneShotsConserved s := by
  refine Inv.conserved (run_invariant ?_ inv_init hrun) hidle
  intro s e s' h hs
  obtain ⟨hc, hstep⟩ := restrict_eq_some.mp hs
  rw [Bool.and_eq_true] at hc
  exact step_inv h hc.1 hc.2 hstep

/-- A run with a periodic task that registers a one-shot from its `poll`. -/
theorem one_shots_conserved_run : ∃ s : LoopState 4,
    run (restrict (fun s e => flat s e && addInPlace s e) step) {}
        [.addPeriodic 0 100 5, .runOnce 7, .addOneShot 1 50, .pollReturns, .runOnce 60,
          .pollReturns] = some s
      ∧ s.log = [.polled 1 60, .accepted 1 1 50, .polled 0 7] ∧ OneShotsConserved s := by
  have hrun : run (restrict (fun s e => flat s e && addInPlace s e) step) ({} : LoopState 4)
      [.addPeriodic 0 100 5, .runOnce 7, .addOneShot 1 50, .pollReturns, .runOnce 60,
        .pollReturns] = some _ := rfl
  exact ⟨_, hrun, rfl, one_shots_conserved hrun rfl⟩

/-- Without the condition: three one-shots, the second of which registers a
fourth from its `poll` after the first has fired. Compacting moves the
third into the cell of the second, and the pass takes it for polled. -/
theorem one_shot_dropped : ∃ s : LoopState 4,
    run (restrict flat step) {}
        [.addOneShot 0 0, .addOneShot 1 0, .addOneShot 2 1000, .runOnce 10, .pollReturns,
          .addOneShot 3 2000, .pollReturns] = some s
      ∧ s.frames = [] ∧ ¬ OneShotsConserved s := by
  refine ⟨_, rfl, rfl, ?_⟩
  intro h
  rcases h 2 2 1000 (by decide) with
    ⟨⟨⟨slot, hslot, hreg, -⟩, -⟩, -⟩ | ⟨-, ⟨hpolls, -⟩, -⟩ | ⟨-, -, hrem, -⟩
  · -- no live cell carries registration 2
    revert slot
    decide
  · revert hpolls
    decide
  · revert hrem
    decide

end ArduinoLoop

end AsyncEventLoop
