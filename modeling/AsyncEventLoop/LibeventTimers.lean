import Mathlib.Algebra.Ring.Nat
import AsyncEventLoop.LibeventRuns

/-!
# Periodic timers under libevent

`timer_callback` adds a periodic timer again behind every `poll`, with a delay
from the clock to the next due time, or none if that is past. `TimerRun` is a
run of `LinuxLibeventLoop` in which the clock is read with every step, and
one timer is watched: when it was added last, and when it has been polled.
libevent runs the watched timer no earlier than its delay after it was added.

The due times lie on a grid that starts when the timer is registered, with one
point for each `poll` (`OnGrid`). The relative delays add up to it because a
`poll` never begins before its due time: the delay is then exactly what is
left to the next point.
-/

namespace AsyncEventLoop

open Runs

/-- The delay a timer's event was last added with. -/
def NativeEvent.delayUs (e : NativeEvent) : UInt64 :=
  match e.source with
  | .timer _ _ delayUs _ => delayUs
  | .fd .. => 0

namespace LibeventState

/-- A step of the loop, with what it reads from the clock. -/
structure ClockedEvent where
  now : UInt64
  event : LibeventEvent

namespace ClockedEvent

/-- The code reads the clock where it adds a periodic timer, the first time and
behind a `poll`. -/
def readsNow (e : ClockedEvent) : Bool :=
  match e.event with
  | .addPeriodic _ _ env => env.now = e.now
  | .pollReturns env => env.now = e.now
  | _ => true

/-- The step does not remove the task, and libevent adds an event again. -/
def keeps (task : Nat) (e : ClockedEvent) : Bool :=
  match e.event with
  | .remove (.task t) => t ≠ task
  | .pollReturns env => env.accepts
  | _ => true

end ClockedEvent

/-- `armedAt` is the reading of the clock with which the watched timer was added
last, and `polledAt` has the readings for its polls, the last one first. -/
structure TimerRun where
  state : LibeventState
  clock : UInt64
  armedAt : UInt64
  polledAt : List UInt64 := []

namespace TimerRun

open LibeventLoop

/-- The timer has just been registered. -/
def registered (s : LibeventState) (now : UInt64) : TimerRun :=
  { state := s, clock := now, armedAt := now }

/-- libevent does not run the watched timer before its delay is over. -/
def elapsed (timer : Nat) (s : TimerRun) (e : ClockedEvent) : Bool :=
  match e.event with
  | .dispatch reg =>
      decide (reg ≠ timer) || (s.state.loop.pendingEvent reg).all fun item =>
        decide (s.armedAt.toNat + item.delayUs.toNat ≤ e.now.toNat)
  | _ => true

/-- The watched timer's `poll` returns. -/
def rearms (timer : Nat) (s : TimerRun) (e : ClockedEvent) : Bool :=
  match e.event with
  | .pollReturns _ => s.state.frames.head? = some timer
  | _ => false

def step (timer : Nat) (s : TimerRun) (e : ClockedEvent) : Option TimerRun :=
  if s.clock ≤ e.now && e.readsNow && s.elapsed timer e then
    (LibeventState.step s.state e.event).map fun t =>
      { state := t
        clock := e.now
        armedAt := if s.rearms timer e then e.now else s.armedAt
        polledAt :=
          if polls t.log timer = polls s.state.log timer then s.polledAt
          else e.now :: s.polledAt }
  else none

/-! ## One turn of the timer -/

/-- Behind a `poll` that was not early, the timer is added for the next due time, or
at once if that is past. -/
theorem periodicTimerNextDelayUs_spec {nextDueUs periodUs nowUs : UInt64}
    (hdue : nextDueUs.toNat ≤ nowUs.toNat)
    (hfits : nextDueUs.toNat + periodUs.toNat < 2 ^ 64) :
    (periodicTimerNextDelayUs nextDueUs periodUs nowUs).2.toNat
        = nextDueUs.toNat + periodUs.toNat
      ∧ nowUs.toNat + (periodicTimerNextDelayUs nextDueUs periodUs nowUs).1.toNat
        = max nowUs.toNat (nextDueUs.toNat + periodUs.toNat) := by
  have hoverdue : (if nowUs > nextDueUs then nowUs - nextDueUs else 0).toNat
      = nowUs.toNat - nextDueUs.toNat := by
    split
    · exact UInt64.toNat_sub_of_le _ _ hdue
    · rename_i hnot
      have hle : nowUs.toNat ≤ nextDueUs.toNat := UInt64.le_iff_toNat_le.mp (UInt64.not_lt.mp hnot)
      rw [Nat.sub_eq_zero_of_le hle]
      rfl
  unfold periodicTimerNextDelayUs
  dsimp only
  generalize (if nowUs > nextDueUs then nowUs - nextDueUs else 0) = overdueUs at hoverdue ⊢
  refine ⟨?_, ?_⟩
  · rw [UInt64.toNat_add, Nat.mod_eq_of_lt hfits]
  · split
    · rename_i hlate
      have hlt : overdueUs.toNat < periodUs.toNat := UInt64.lt_iff_toNat_lt.mp hlate
      rw [UInt64.toNat_sub_of_le _ _ (Nat.le_of_lt hlt)]
      omega
    · rename_i hlate
      have hle : periodUs.toNat ≤ overdueUs.toNat :=
        UInt64.le_iff_toNat_le.mp (UInt64.not_lt.mp hlate)
      have hzero : (0 : UInt64).toNat = 0 := rfl
      rw [hzero]
      omega

/-! ## What a step leaves of the watched record -/

/-- The record is at most marked, or taken to be run. -/
structure Leaves (e e' : NativeEvent) : Prop where
  reg : e'.reg = e.reg
  source : e'.source = e.source
  pending : e'.pending = true → e.pending = true
  removed : e'.removed = false → e.removed = false

theorem Leaves.refl (e : NativeEvent) : Leaves e e := ⟨rfl, rfl, id, id⟩

theorem mark_leaves (r : Removal) {e : NativeEvent} : Leaves e (r.mark e) := by
  unfold Removal.mark
  split
  · exact ⟨rfl, rfl, id, fun h => by cases h⟩
  · exact Leaves.refl e

theorem activated_leaves (e : NativeEvent) : Leaves e e.activated := by
  unfold NativeEvent.activated
  split
  · exact ⟨rfl, rfl, (fun h => by cases h), id⟩
  · exact Leaves.refl e

/-- The end of a `poll` changes its own record only. -/
theorem leaves_afterPoll {l : LibeventLoop} {reg : Nat} {env : NativeEnv} {e' : NativeEvent}
    (he' : e' ∈ (l.afterPoll reg env).events) (hne : e'.reg ≠ reg) :
    ∃ e ∈ l.events, Leaves e e' := by
  obtain ⟨⟨e, he, heq⟩, -⟩ := mem_afterPoll.mp he'
  have hbecomes : Becomes e e' := heq ▸ modify_becomes (afterPoll_becomes env) reg e
  rw [if_neg fun h => hne (hbecomes.reg.trans h)] at heq
  exact ⟨e, he, heq ▸ Leaves.refl e⟩

/-- Behind a step that ends no `poll`, the records are those of before, and the one
that was registered. -/
theorem step_leaves {s t : LibeventState} {e : LibeventEvent} (h : Inv s)
    (hstep : LibeventState.step s e = some t) (hnot : ∀ env, e ≠ .pollReturns env) :
    ∀ d' ∈ t.loop.events, (∃ d ∈ s.loop.events, Leaves d d') ∨ d'.reg = s.nextReg := by
  have hcompact : ∀ {l : LibeventLoop}, ∀ d ∈ l.compactRemovedEvents.events,
      d ∈ l.events := fun d hd => (mem_compactRemovedEvents.mp hd).1
  have hadds : ∀ {r : Bool × LibeventLoop} {item : NativeEvent}, Adds s.loop r item →
      item.reg = s.nextReg → ∀ d' ∈ r.2.events,
        (∃ d ∈ s.loop.events, Leaves d d') ∨ d'.reg = s.nextReg := by
    intro r item hadds hreg d' hd'
    rcases (hadds.mem d').mp hd' with hold | ⟨-, rfl⟩
    · exact Or.inl ⟨d', hcompact d' hold, Leaves.refl d'⟩
    · exact Or.inr hreg
  cases e with
  | addPeriodic task periodUs env =>
      obtain rfl := Option.some.inj hstep
      exact hadds (s.loop.addPeriodic_adds task periodUs s.nextReg env) rfl
  | addOneShot task dueUs env =>
      obtain rfl := Option.some.inj hstep
      exact hadds (s.loop.addOneShot_adds task dueUs s.nextReg env) rfl
  | addReadableFd fd task env =>
      obtain rfl := Option.some.inj hstep
      exact hadds (s.loop.addFd_adds fd false task s.nextReg env) rfl
  | addWritableFd fd task env =>
      obtain rfl := Option.some.inj hstep
      exact hadds (s.loop.addFd_adds fd true task s.nextReg env) rfl
  | remove r =>
      obtain rfl := Option.some.inj hstep
      intro d' hd'
      dsimp only at hd'
      rw [perform_removal h.sorted] at hd'
      have hd' := hcompact d' hd'
      rw [mapEvents_events, List.mem_map] at hd'
      obtain ⟨d, hd, rfl⟩ := hd'
      exact Or.inl ⟨d, hd, mark_leaves r⟩
  | endRunOnce =>
      obtain rfl := Option.some.inj hstep
      intro d' hd'
      dsimp only [endRunOnce] at hd'
      split at hd'
      · exact Or.inl ⟨d', hcompact d' hd', Leaves.refl d'⟩
      · exact Or.inl ⟨d', hd', Leaves.refl d'⟩
  | dispatch reg =>
      obtain ⟨item, -, rfl⟩ := Option.map_eq_some_iff.mp hstep
      intro d' hd'
      have hd' : d' ∈ (s.loop.activate reg).events := by
        dsimp only at hd'
        split at hd' <;> exact hd'
      obtain ⟨d, hd, rfl⟩ := mem_activate.mp hd'
      refine Or.inl ⟨d, hd, ?_⟩
      split
      · exact activated_leaves d
      · exact Leaves.refl d
  | pollReturns env => exact absurd rfl (hnot env)

/-- The polls that are executing, and those there have been, change only when a `poll`
begins or returns. -/
theorem step_polls {s t : LibeventState} {e : LibeventEvent}
    (hstep : LibeventState.step s e = some t) (hreturns : ∀ env, e ≠ .pollReturns env)
    (hdispatch : ∀ reg, e ≠ .dispatch reg) (timer : Nat) :
    t.frames = s.frames ∧ polls t.log timer = polls s.log timer ∧ s.nextReg ≤ t.nextReg := by
  cases e with
  | addOneShot task dueUs env =>
      obtain rfl := Option.some.inj hstep
      refine ⟨rfl, ?_, Nat.le_succ _⟩
      dsimp only
      split
      · exact List.count_cons_of_ne (by simp)
      · rfl
  | addPeriodic task periodUs env =>
      obtain rfl := Option.some.inj hstep
      exact ⟨rfl, rfl, Nat.le_succ _⟩
  | addReadableFd fd task env =>
      obtain rfl := Option.some.inj hstep
      exact ⟨rfl, rfl, Nat.le_succ _⟩
  | addWritableFd fd task env =>
      obtain rfl := Option.some.inj hstep
      exact ⟨rfl, rfl, Nat.le_succ _⟩
  | remove r =>
      obtain rfl := Option.some.inj hstep
      exact ⟨rfl, rfl, Nat.le_refl _⟩
  | endRunOnce =>
      obtain rfl := Option.some.inj hstep
      exact ⟨rfl, rfl, Nat.le_refl _⟩
  | dispatch reg => exact absurd rfl (hdispatch reg)
  | pollReturns env => exact absurd rfl (hreturns env)

/-- A timer is run: it is polled if it has not been removed. -/
theorem dispatch_polls {s t : LibeventState} {reg : Nat}
    (hstep : LibeventState.step s (.dispatch reg) = some t) :
    ∃ item, s.loop.pendingEvent reg = some item ∧ t.loop.events = (s.loop.activate reg).events
      ∧ t.nextReg = s.nextReg
      ∧ ((t.frames = s.frames ∧ t.log = s.log ∧ (item.removed || item.task.isNone) = true)
        ∨ (t.frames = reg :: s.frames ∧ t.log = .polled reg :: s.log
          ∧ (item.removed || item.task.isNone) = false)) := by
  obtain ⟨item, hfound, rfl⟩ := Option.map_eq_some_iff.mp hstep
  refine ⟨item, hfound, ?_⟩
  dsimp only
  cases hgone : item.removed || item.task.isNone with
  | true => exact ⟨rfl, rfl, Or.inl ⟨rfl, rfl, rfl⟩⟩
  | false => exact ⟨rfl, rfl, Or.inr ⟨rfl, rfl, rfl⟩⟩

/-! ## The grid -/

/-- The polls of the watched timer that have returned. -/
def returned (timer : Nat) (s : TimerRun) : Nat :=
  polls s.state.log timer - s.state.frames.count timer

/-- The watched timer's record, `k` of its polls behind it: it is due at point `k + 1`
of the grid, and was added for that time, or for at once if it was past. -/
structure Due (startUs periodUs : UInt64) (timer : Nat) (s : TimerRun) (e : NativeEvent) (k : Nat)
    (nextDueUs delayUs : UInt64) : Prop where
  source : e.source = .timer periodUs nextDueUs delayUs true
  due : nextDueUs.toNat = startUs.toNat + (k + 1) * periodUs.toNat
  armed : s.armedAt.toNat + delayUs.toNat = max s.armedAt.toNat nextDueUs.toNat
  idle : e.pending = true → timer ∉ s.state.frames
  late : timer ∈ s.state.frames → nextDueUs.toNat ≤ s.clock.toNat

structure OnGrid (startUs periodUs : UInt64) (timer : Nat) (s : TimerRun) : Prop where
  record : ∀ e ∈ s.state.loop.events, e.reg = timer → e.removed = false →
    ∃ nextDueUs delayUs, Due startUs periodUs timer s e (returned timer s) nextDueUs delayUs
  nested : s.state.frames.count timer ≤ 1
  begun : s.state.frames.count timer ≤ polls s.state.log timer
  polled : s.polledAt.length = polls s.state.log timer
  times : ∀ k at', s.polledAt.reverse[k]? = some at' →
    startUs.toNat + (k + 1) * periodUs.toNat ≤ at'.toNat

/-- There has been no overflow. -/
def Fits (startUs periodUs : UInt64) (timer : Nat) (s : TimerRun) : Prop :=
  startUs.toNat + (polls s.state.log timer + 1) * periodUs.toNat < 2 ^ 64

variable {startUs periodUs : UInt64} {timer : Nat}

theorem Due.leaves {s t : TimerRun} {e e' : NativeEvent} {k : Nat} {nextDueUs delayUs : UInt64}
    (h : Due startUs periodUs timer s e k nextDueUs delayUs) (hleaves : Leaves e e')
    (harmed : t.armedAt = s.armedAt) (hclock : s.clock.toNat ≤ t.clock.toNat)
    (hframes : timer ∈ t.state.frames ↔ timer ∈ s.state.frames) :
    Due startUs periodUs timer t e' k nextDueUs delayUs where
  source := hleaves.source.trans h.source
  due := h.due
  armed := harmed ▸ h.armed
  idle hpending hmem := h.idle (hleaves.pending hpending) (hframes.mp hmem)
  late hmem := Nat.le_trans (h.late (hframes.mp hmem)) hclock

/-- A step that leaves the timer's polls alone. -/
theorem OnGrid.leaves {s t : TimerRun} (h : OnGrid startUs periodUs timer s)
    (hrecords : ∀ e' ∈ t.state.loop.events, e'.reg = timer →
      ∃ e ∈ s.state.loop.events, Leaves e e')
    (hcount : t.state.frames.count timer = s.state.frames.count timer)
    (hpolls : polls t.state.log timer = polls s.state.log timer)
    (harmed : t.armedAt = s.armedAt) (hclock : s.clock.toNat ≤ t.clock.toNat)
    (hpolledAt : t.polledAt = s.polledAt) : OnGrid startUs periodUs timer t := by
  have hframes : timer ∈ t.state.frames ↔ timer ∈ s.state.frames := by
    rw [← List.count_pos_iff, hcount, List.count_pos_iff]
  have hreturned : returned timer t = returned timer s := by
    rw [returned, hpolls, hcount]
    rfl
  refine ⟨?_, hcount ▸ h.nested, hpolls ▸ hcount ▸ h.begun, ?_, hpolledAt ▸ h.times⟩
  · intro e' he' hreg hkept
    obtain ⟨e, he, hleaves⟩ := hrecords e' he' hreg
    obtain ⟨nextDueUs, delayUs, hdue⟩ :=
      h.record e he (hleaves.reg.symm.trans hreg) (hleaves.removed hkept)
    exact ⟨nextDueUs, delayUs, hreturned ▸ hdue.leaves hleaves harmed hclock hframes⟩
  · rw [hpolledAt, hpolls]
    exact h.polled

theorem step_eq_some {s t : TimerRun} {e : ClockedEvent} (hstep : step timer s e = some t) :
    s.clock.toNat ≤ e.now.toNat ∧ e.readsNow = true ∧ s.elapsed timer e = true
      ∧ LibeventState.step s.state e.event = some t.state ∧ t.clock = e.now
      ∧ t.armedAt = (if s.rearms timer e then e.now else s.armedAt)
      ∧ t.polledAt = (if polls t.state.log timer = polls s.state.log timer then s.polledAt
          else e.now :: s.polledAt) := by
  obtain ⟨hguard, hmap⟩ := Option.ite_none_right_eq_some.mp hstep
  obtain ⟨u, hu, rfl⟩ := Option.map_eq_some_iff.mp hmap
  simp only [Bool.and_eq_true, decide_eq_true_eq] at hguard
  obtain ⟨⟨hclock, hreads⟩, helapsed⟩ := hguard
  exact ⟨UInt64.le_iff_toNat_le.mp hclock, hreads, helapsed, hu, rfl, rfl, rfl⟩

/-- The watched timer is run. -/
theorem OnGrid.poll {s t : TimerRun} (h : OnGrid startUs periodUs timer s) (hinv : Inv s.state)
    {item : NativeEvent} (hfound : s.state.loop.pendingEvent timer = some item)
    (hkept : item.removed = false)
    (hintime : s.armedAt.toNat + item.delayUs.toNat ≤ t.clock.toNat)
    (hevents : t.state.loop.events = (s.state.loop.activate timer).events)
    (hframes : t.state.frames = timer :: s.state.frames)
    (hlog : t.state.log = .polled timer :: s.state.log) (harmed : t.armedAt = s.armedAt)
    (hpolledAt : t.polledAt = t.clock :: s.polledAt) : OnGrid startUs periodUs timer t := by
  obtain ⟨hitem, hreg, hpending⟩ := pendingEvent_spec hfound
  obtain ⟨nextDueUs, delayUs, hdue⟩ := h.record item hitem hreg hkept
  have hidle : s.state.frames.count timer = 0 := List.count_eq_zero.mpr (hdue.idle hpending)
  have hcount : t.state.frames.count timer = 1 := by rw [hframes, List.count_cons_self, hidle]
  have hpolls : polls t.state.log timer = polls s.state.log timer + 1 := by
    rw [hlog, polls, List.count_cons_self]
    rfl
  have hsame : returned timer s = polls s.state.log timer := by rw [returned, hidle, Nat.sub_zero]
  have hreturned : returned timer t = returned timer s := by
    rw [returned, hcount, hpolls, hsame, Nat.add_sub_cancel]
  have hdelay : item.delayUs = delayUs := by rw [NativeEvent.delayUs, hdue.source]
  have hnow : nextDueUs.toNat ≤ t.clock.toNat := by
    have harm := hdue.armed
    rw [hdelay] at hintime
    omega
  refine ⟨?_, Nat.le_of_eq hcount, ?_, ?_, ?_⟩
  · intro e' he' hreg' _
    rw [hevents] at he'
    obtain ⟨e, he, heq⟩ := mem_activate.mp he'
    have hleaves : Leaves e e' := by
      rw [← heq]
      split
      · exact activated_leaves e
      · exact Leaves.refl e
    have hereg : e.reg = timer := hleaves.reg.symm.trans hreg'
    obtain rfl : e = item := hinv.numbered.unique e he item hitem (hereg.trans hreg.symm)
    rw [if_pos hereg] at heq
    have hoff : e'.pending = false := by
      rw [← heq, NativeEvent.activated, hdue.source]
    refine ⟨nextDueUs, delayUs, hleaves.source.trans hdue.source, hreturned ▸ hdue.due,
      harmed ▸ hdue.armed, ?_, fun _ => hnow⟩
    intro hon
    rw [hoff] at hon
    cases hon
  · rw [hcount, hpolls]
    exact Nat.le_add_left 1 _
  · rw [hpolledAt, List.length_cons, h.polled, hpolls]
  · intro k at' hk
    rw [hpolledAt, List.reverse_cons] at hk
    by_cases hlt : k < s.polledAt.reverse.length
    · rw [List.getElem?_append_left hlt] at hk
      exact h.times k at' hk
    · rw [List.getElem?_append_right (Nat.le_of_not_lt hlt)] at hk
      obtain ⟨hzero, rfl⟩ : k - s.polledAt.reverse.length = 0 ∧ t.clock = at' := by
        rw [List.getElem?_singleton] at hk
        split at hk
        · exact ⟨‹_›, Option.some.inj hk⟩
        · cases hk
      have hlen : k = polls s.state.log timer := by
        rw [← h.polled, ← List.length_reverse]
        omega
      rw [hlen, ← hsame, ← hdue.due]
      exact hnow

theorem afterPoll_removed (env : NativeEnv) {e : NativeEvent} (h : e.removed = true) :
    (e.afterPoll env).removed = true := by
  unfold NativeEvent.afterPoll
  split
  · split
    · exact h
    · split
      · rfl
      · exact h
  · exact h

/-- Its `poll` returns, and it is added again. -/
theorem OnGrid.rearm {s t : TimerRun} (h : OnGrid startUs periodUs timer s) {rest : List Nat}
    {env : NativeEnv} (hframes : s.state.frames = timer :: rest)
    (hstate : t.state = { s.state with
      loop := s.state.loop.afterPoll timer env, frames := rest })
    (hnow : env.now = t.clock) (hclock : s.clock.toNat ≤ t.clock.toNat)
    (harmed : t.armedAt = t.clock) (hpolledAt : t.polledAt = s.polledAt)
    (hfits : Fits startUs periodUs timer t) : OnGrid startUs periodUs timer t := by
  have hone : rest.count timer = 0 := by
    have hnested := h.nested
    rw [hframes, List.count_cons_self] at hnested
    omega
  have hpolls : polls t.state.log timer = polls s.state.log timer := by rw [hstate]
  have hcount : t.state.frames.count timer = 0 := by rw [hstate]; exact hone
  have hreturned : returned timer t = returned timer s + 1 := by
    have hbegun := h.begun
    rw [returned, returned, hcount, hpolls]
    rw [hframes, List.count_cons_self, hone] at hbegun ⊢
    omega
  have hall : returned timer t = polls t.state.log timer := by rw [returned, hcount, Nat.sub_zero]
  have hout : timer ∉ t.state.frames := List.count_eq_zero.mp hcount
  refine ⟨?_, hcount ▸ Nat.zero_le 1, hcount ▸ Nat.zero_le _, ?_, hpolledAt ▸ h.times⟩
  · intro e' he' hreg hkept
    rw [hstate] at he'
    obtain ⟨⟨e, he, heq⟩, -⟩ := mem_afterPoll.mp he'
    have hbecomes : Becomes e e' := heq ▸ modify_becomes (afterPoll_becomes env) timer e
    have hereg : e.reg = timer := hbecomes.reg.symm.trans hreg
    rw [if_pos hereg] at heq
    have hekept : e.removed = false := by
      cases hremoved : e.removed with
      | false => rfl
      | true =>
          have hstays := afterPoll_removed env hremoved
          rw [heq, hkept] at hstays
          cases hstays
    obtain ⟨nextDueUs, delayUs, hdue⟩ := h.record e he hereg hekept
    have hlate : nextDueUs.toNat ≤ env.now.toNat := by
      rw [hnow]
      exact Nat.le_trans (hdue.late (hframes ▸ List.mem_cons_self)) hclock
    have hnext : nextDueUs.toNat + periodUs.toNat
        = startUs.toNat + (returned timer t + 1) * periodUs.toNat := by
      rw [hdue.due, hreturned, Nat.succ_mul (returned timer s + 1), Nat.add_assoc]
    have hroom : nextDueUs.toNat + periodUs.toNat < 2 ^ 64 := by
      rw [hnext, hall]
      exact hfits
    obtain ⟨hadded, htarget⟩ := periodicTimerNextDelayUs_spec hlate hroom
    have hsource : e'.source = .timer periodUs
        (periodicTimerNextDelayUs nextDueUs periodUs env.now).2
        (periodicTimerNextDelayUs nextDueUs periodUs env.now).1 true := by
      rw [← heq, NativeEvent.afterPoll, hdue.source]
      simp [hekept]
    refine ⟨_, _, hsource, hadded.trans hnext, ?_, fun _ => hout, fun hin => absurd hin hout⟩
    rw [hadded, harmed, ← hnow]
    exact htarget
  · rw [hpolledAt, hpolls]
    exact h.polled

theorem polls_le {s t : LibeventState} {e : LibeventEvent}
    (hstep : LibeventState.step s e = some t) : polls s.log timer ≤ polls t.log timer := by
  cases e with
  | dispatch reg =>
      obtain ⟨item, -, -, -, ⟨-, hlog, -⟩ | ⟨-, hlog, -⟩⟩ := dispatch_polls hstep
      · exact Nat.le_of_eq (congrArg (polls · timer) hlog.symm)
      · rw [hlog]
        exact List.count_le_count_cons
  | pollReturns env =>
      simp only [LibeventState.step] at hstep
      split at hstep
      · obtain rfl := Option.some.inj hstep
        exact Nat.le_refl _
      · cases hstep
  | addPeriodic | addOneShot | addReadableFd | addWritableFd | remove | endRunOnce =>
      exact Nat.le_of_eq (step_polls hstep (by simp) (by simp) timer).2.1.symm

/-- The state of the watched timer, as long as there is no overflow. -/
structure Ticks (startUs periodUs : UInt64) (timer : Nat) (s : TimerRun) : Prop where
  inv : Inv s.state
  old : timer < s.state.nextReg
  grid : Fits startUs periodUs timer s → OnGrid startUs periodUs timer s

/-- **The step lemma.** -/
theorem Ticks.step {s t : TimerRun} {e : ClockedEvent} (h : Ticks startUs periodUs timer s)
    (hstep : step timer s e = some t) : Ticks startUs periodUs timer t := by
  obtain ⟨hclock, hreads, helapsed, hstate, hnow, harmed, hpolledAt⟩ := step_eq_some hstep
  have hgrid : Fits startUs periodUs timer t → OnGrid startUs periodUs timer s := by
    intro hfits
    refine h.grid (Nat.lt_of_le_of_lt (Nat.add_le_add_left (Nat.mul_le_mul_right _ ?_) _) hfits)
    exact Nat.succ_le_succ (polls_le hstate)
  rw [← hnow] at hclock
  refine ⟨step_inv h.inv hstate, ?_, fun hfits => ?_⟩
  · obtain ⟨-, -, hle, -⟩ := step_effect h.inv hstate
    exact Nat.lt_of_lt_of_le h.old hle
  · have hon := hgrid hfits
    -- a step that is none of the watched timer's
    have hother : (∀ d ∈ t.state.loop.events, d.reg = timer →
          ∃ d' ∈ s.state.loop.events, Leaves d' d) →
        t.state.frames.count timer = s.state.frames.count timer →
        polls t.state.log timer = polls s.state.log timer → s.rearms timer e = false →
        OnGrid startUs periodUs timer t := by
      intro hrecords hcount hpolls hnot
      rw [hnot, if_neg Bool.false_ne_true] at harmed
      rw [if_pos hpolls] at hpolledAt
      exact hon.leaves hrecords hcount hpolls harmed hclock hpolledAt
    have hleft : (∀ env, e.event ≠ .pollReturns env) → ∀ d ∈ t.state.loop.events, d.reg = timer →
        ∃ d' ∈ s.state.loop.events, Leaves d' d := by
      intro hnot d hd hreg
      rcases step_leaves h.inv hstate hnot d hd with hold | hnew
      · exact hold
      · exact absurd (hreg.symm.trans hnew) (Nat.ne_of_lt h.old)
    cases hevent : e.event with
    | pollReturns env =>
        have hread : env.now = t.clock := by
          rw [ClockedEvent.readsNow, hevent] at hreads
          rw [hnow]
          exact of_decide_eq_true hreads
        rw [hevent] at hstate
        simp only [LibeventState.step] at hstate
        split at hstate
        · rename_i reg rest hframes
          have hstate := Option.some.inj hstate
          by_cases hreg : reg = timer
          · subst hreg
            have hrearms : s.rearms reg e = true := by simp [rearms, hevent, hframes]
            have hpolls : polls t.state.log reg = polls s.state.log reg := by rw [← hstate]
            rw [if_pos hrearms, ← hnow] at harmed
            rw [if_pos hpolls] at hpolledAt
            exact hon.rearm hframes hstate.symm hread hclock harmed hpolledAt hfits
          · refine hother ?_ ?_ (by rw [← hstate]) (by simp [rearms, hevent, hframes, hreg])
            · intro d hd hdreg
              rw [← hstate] at hd
              exact leaves_afterPoll hd fun hd => hreg (hd.symm.trans hdreg)
            · rw [← hstate, hframes, List.count_cons_of_ne hreg]
        · cases hstate
    | dispatch reg =>
        have hnot : s.rearms timer e = false := by simp [rearms, hevent]
        have hrecords := hleft (by simp [hevent])
        have hdispatch := hevent ▸ hstate
        obtain ⟨item, hfound, hevents, -, hpolled⟩ := dispatch_polls hdispatch
        by_cases hreg : reg = timer
        · subst hreg
          rcases hpolled with ⟨hframes, hlog, -⟩ | ⟨hframes, hlog, hgone⟩
          · exact hother hrecords (by rw [hframes]) (by rw [hlog]) hnot
          · have hintime : s.armedAt.toNat + item.delayUs.toNat ≤ t.clock.toNat := by
              rw [elapsed, hevent] at helapsed
              simpa [hfound, hnow] using helapsed
            have hmore : polls t.state.log reg ≠ polls s.state.log reg := by
              rw [hlog, polls, List.count_cons_self]
              exact Nat.succ_ne_self _
            rw [hnot, if_neg Bool.false_ne_true] at harmed
            rw [if_neg hmore, ← hnow] at hpolledAt
            exact hon.poll h.inv hfound (Bool.or_eq_false_iff.mp hgone).1 hintime hevents hframes
              hlog harmed hpolledAt
        · rcases hpolled with ⟨hframes, hlog, -⟩ | ⟨hframes, hlog, -⟩
          · exact hother hrecords (by rw [hframes]) (by rw [hlog]) hnot
          · refine hother hrecords ?_ ?_ hnot
            · rw [hframes, List.count_cons_of_ne hreg]
            · rw [hlog]
              exact List.count_cons_of_ne (by simpa using hreg)
    | addPeriodic | addOneShot | addReadableFd | addWritableFd | remove | endRunOnce =>
        obtain ⟨hframes, hpolls, -⟩ := step_polls hstate (by simp [hevent]) (by simp [hevent]) timer
        exact hother (hleft (by simp [hevent])) (by rw [hframes]) hpolls (by simp [rearms, hevent])

/-! ## The timer goes on -/

/-- The watched timer is registered, and waits for libevent or is being polled. -/
structure Waits (timer task : Nat) (s : LibeventState) (e : NativeEvent) : Prop where
  mem : e ∈ s.loop.events
  reg : e.reg = timer
  task : e.task = some task
  kept : e.removed = false
  periodic : ∃ periodUs nextDueUs delayUs, e.source = .timer periodUs nextDueUs delayUs true
  pending : e.pending = true ∨ timer ∈ s.frames

theorem mem_compact {l : LibeventLoop} {e : NativeEvent} (he : e ∈ l.events)
    (hkept : e.removed = false) : e ∈ l.compactRemovedEvents.events :=
  mem_compactRemovedEvents.mpr ⟨he, fun _ => hkept⟩

theorem Waits.unhit {task : Nat} {s : LibeventState} {e : NativeEvent} (h : Waits timer task s e)
    {r : Removal} (hr : r ≠ .task task) : r.hits e = false := by
  obtain ⟨periodUs, nextDueUs, delayUs, hsource⟩ := h.periodic
  cases r with
  | task t =>
      have hne : task ≠ t := fun heq => hr (heq ▸ rfl)
      simp [Removal.hits, h.task, hne]
  | fd d t => simp [Removal.hits, NativeEvent.onFd, hsource]

/-- Its event comes, and it is polled; or another one does. -/
theorem Waits.dispatch {task reg : Nat} {s t : LibeventState} {e : NativeEvent}
    (h : Waits timer task s e) (hinv : Inv s)
    (hstep : LibeventState.step s (.dispatch reg) = some t) : ∃ e', Waits timer task t e' := by
  obtain ⟨item, hfound, hevents, -, hpolled⟩ := dispatch_polls hstep
  by_cases hreg : reg = timer
  · subst hreg
    obtain ⟨hitem, hitemReg, -⟩ := pendingEvent_spec hfound
    obtain rfl : item = e :=
      hinv.numbered.unique item hitem e h.mem (hitemReg.trans h.reg.symm)
    have hframes : t.frames = reg :: s.frames := by
      rcases hpolled with ⟨-, -, hgone⟩ | ⟨hframes, -, -⟩
      · rw [h.kept, h.task] at hgone
        cases hgone
      · exact hframes
    have hactivated : item.activated = { item with pending := false } := by
      obtain ⟨periodUs, nextDueUs, delayUs, hsource⟩ := h.periodic
      rw [NativeEvent.activated, hsource]
    refine ⟨{ item with pending := false }, ?_, h.reg, h.task, h.kept, h.periodic, ?_⟩
    · rw [hevents]
      exact mem_activate.mpr ⟨item, h.mem, (if_pos h.reg).trans hactivated⟩
    · exact Or.inr (hframes ▸ List.mem_cons_self)
  · have hne : e.reg ≠ reg := fun heq => hreg (heq.symm.trans h.reg)
    refine ⟨e, { h with mem := ?_, pending := ?_ }⟩
    · rw [hevents]
      exact mem_activate.mpr ⟨e, h.mem, if_neg hne⟩
    · rcases hpolled with ⟨hframes, -⟩ | ⟨hframes, -⟩
      · exact hframes ▸ h.pending
      · exact hframes ▸ h.pending.imp_right (List.mem_cons_of_mem reg)

/-- Its `poll` returns, and it is added again; or another one does. -/
theorem Waits.pollReturns {task : Nat} {s t : LibeventState} {e : NativeEvent}
    (h : Waits timer task s e) {env : NativeEnv} (haccepts : env.accepts = true)
    (hstep : LibeventState.step s (.pollReturns env) = some t) : ∃ e', Waits timer task t e' := by
  obtain ⟨periodUs, nextDueUs, delayUs, hsource⟩ := h.periodic
  simp only [LibeventState.step] at hstep
  split at hstep
  · rename_i reg rest hframes
    obtain rfl := Option.some.inj hstep
    by_cases hreg : e.reg = reg
    · have hafter : e.afterPoll env = { e with
          source := .timer periodUs (periodicTimerNextDelayUs nextDueUs periodUs env.now).2
            (periodicTimerNextDelayUs nextDueUs periodUs env.now).1 true
          pending := true } := by
        rw [NativeEvent.afterPoll, hsource]
        simp [h.kept, haccepts]
      refine ⟨e.afterPoll env, ?_⟩
      rw [hafter]
      refine ⟨?_, h.reg, h.task, h.kept, ⟨_, _, _, rfl⟩, Or.inl rfl⟩
      exact mem_afterPoll.mpr ⟨⟨e, h.mem, (if_pos hreg).trans hafter⟩, fun _ => h.kept⟩
    · refine ⟨e, { h with mem := ?_, pending := h.pending.imp_right fun hmem => ?_ }⟩
      · exact mem_afterPoll.mpr ⟨⟨e, h.mem, if_neg hreg⟩, fun _ => h.kept⟩
      · rw [hframes] at hmem
        refine (List.mem_cons.mp hmem).resolve_left fun heq => ?_
        exact hreg (h.reg.trans heq)
  · cases hstep

theorem Waits.step {task : Nat} {s t : LibeventState} {e : NativeEvent} (h : Waits timer task s e)
    (hinv : Inv s) {event : ClockedEvent} (hkeeps : event.keeps task = true)
    (hstep : LibeventState.step s event.event = some t) : ∃ e', Waits timer task t e' := by
  have hadds : ∀ {r : Bool × LibeventLoop} {item : NativeEvent}, Adds s.loop r item →
      e ∈ r.2.events := fun hadds => (hadds.mem e).mpr (Or.inl (mem_compact h.mem h.kept))
  obtain ⟨now, event⟩ := event
  cases event with
  | addPeriodic task periodUs env =>
      obtain rfl := Option.some.inj hstep
      exact ⟨e, { h with mem := hadds (s.loop.addPeriodic_adds task periodUs s.nextReg env) }⟩
  | addOneShot task dueUs env =>
      obtain rfl := Option.some.inj hstep
      exact ⟨e, { h with mem := hadds (s.loop.addOneShot_adds task dueUs s.nextReg env) }⟩
  | addReadableFd fd task env =>
      obtain rfl := Option.some.inj hstep
      exact ⟨e, { h with mem := hadds (s.loop.addFd_adds fd false task s.nextReg env) }⟩
  | addWritableFd fd task env =>
      obtain rfl := Option.some.inj hstep
      exact ⟨e, { h with mem := hadds (s.loop.addFd_adds fd true task s.nextReg env) }⟩
  | remove r =>
      obtain rfl := Option.some.inj hstep
      have hr : r ≠ .task task := by
        rintro rfl
        simp [ClockedEvent.keeps] at hkeeps
      have hsame : r.mark e = e := by rw [Removal.mark, h.unhit hr, if_neg Bool.false_ne_true]
      refine ⟨e, { h with mem := ?_ }⟩
      dsimp only
      rw [perform_removal hinv.sorted]
      refine mem_compact ?_ h.kept
      rw [mapEvents_events, List.mem_map]
      exact ⟨e, h.mem, hsame⟩
  | endRunOnce =>
      obtain rfl := Option.some.inj hstep
      refine ⟨e, { h with mem := ?_ }⟩
      dsimp only [endRunOnce]
      split
      · exact mem_compact h.mem h.kept
      · exact h.mem
  | dispatch reg => exact h.dispatch hinv hstep
  | pollReturns env => exact h.pollReturns hkeeps hstep

/-! ## The property -/

theorem registered_ticks {s t : LibeventState} {task : Nat} {env : NativeEnv} (h : Inv s)
    (hstep : LibeventState.step s (.addPeriodic task periodUs env) = some t) :
    Ticks env.now periodUs s.nextReg (registered t env.now) := by
  have hinv := step_inv h hstep
  obtain rfl := Option.some.inj hstep
  have hzero : polls s.log s.nextReg = 0 := polls_fresh h.fresh (Nat.le_refl _)
  have hout : s.nextReg ∉ s.frames := by
    intro hmem
    obtain ⟨e, he, hreg⟩ := h.held _ hmem
    exact Nat.lt_irrefl _ (hreg ▸ h.numbered.fresh e he)
  have hcount : s.frames.count s.nextReg = 0 := List.count_eq_zero.mpr hout
  refine ⟨hinv, Nat.lt_succ_self _, fun hfits => ?_⟩
  have hroom : env.now.toNat + periodUs.toNat < 2 ^ 64 := by
    rw [Fits] at hfits
    rw [registered, hzero, Nat.zero_add, Nat.one_mul] at hfits
    exact hfits
  refine ⟨?_, hcount ▸ Nat.zero_le 1, hcount ▸ Nat.zero_le _, hzero.symm, ?_⟩
  · intro e he hreg _
    have hadds := s.loop.addPeriodic_adds task periodUs s.nextReg env
    rcases (hadds.mem e).mp he with hold | ⟨-, rfl⟩
    · have hlt := h.numbered.fresh e (mem_compactRemovedEvents.mp hold).1
      exact absurd hreg (Nat.ne_of_lt hlt)
    · have hdue : (env.now + periodUs).toNat = env.now.toNat + periodUs.toNat := by
        rw [UInt64.toNat_add, Nat.mod_eq_of_lt hroom]
      have hreturned : returned s.nextReg (registered { s with
          loop := (s.loop.addPeriodic task periodUs s.nextReg env).2
          nextReg := s.nextReg + 1 } env.now) = 0 := by
        rw [returned, registered, hzero, Nat.zero_sub]
      refine ⟨_, _, rfl, ?_, ?_, fun _ => hout, fun hmem => absurd hmem hout⟩
      · rw [hdue, hreturned, Nat.zero_add, Nat.one_mul]
      · rw [hdue]
        exact (Nat.max_eq_right (Nat.le_add_right _ _)).symm
  · intro k at' hk
    cases hk

theorem step_waits {task : Nat} {s t : TimerRun} {e : ClockedEvent} (hinv : Inv s.state)
    (h : ∃ record, Waits timer task s.state record) (hkeeps : e.keeps task = true)
    (hstep : step timer s e = some t) : ∃ record, Waits timer task t.state record := by
  obtain ⟨record, hwaits⟩ := h
  exact hwaits.step hinv hkeeps (step_eq_some hstep).2.2.2.1

/-- **Periodic timers keep to their grid**: a timer is registered when the clock reads
`startUs`. In every run in which the clock does not go back and libevent does not
run the timer before its delay is over, as long as nothing overflows: behind `k`
polls the timer is due at `startUs + (k + 1) * periodUs`, and it was added for the
later one of that time and the time then, so at once while it is behind; poll `k`,
counted from 1, is not made before `startUs + k * periodUs`. And while nobody
removes the task and libevent takes the event, the timer is there, waiting or
being polled. -/
theorem periodic_on_grid {base : Bool} {s t : LibeventState} {es : List LibeventEvent} {task : Nat}
    {periodUs : UInt64} {env : NativeEnv} {events : List ClockedEvent} {u : TimerRun}
    (hreach : run LibeventState.step (fresh base) es = some s)
    (hadded : (s.loop.addPeriodic task periodUs s.nextReg env).1 = true)
    (hregister : LibeventState.step s (.addPeriodic task periodUs env) = some t)
    (hrun : run (step s.nextReg) (registered t env.now) events = some u)
    (hfits : Fits env.now periodUs s.nextReg u) :
    (∀ e ∈ u.state.loop.events, e.reg = s.nextReg → e.removed = false →
        ∃ nextDueUs delayUs, e.source = .timer periodUs nextDueUs delayUs true
          ∧ nextDueUs.toNat = env.now.toNat + (returned s.nextReg u + 1) * periodUs.toNat
          ∧ u.armedAt.toNat + delayUs.toNat = max u.armedAt.toNat nextDueUs.toNat)
      ∧ u.polledAt.length = polls u.state.log s.nextReg
      ∧ (∀ k at', u.polledAt.reverse[k]? = some at' →
        env.now.toNat + (k + 1) * periodUs.toNat ≤ at'.toNat)
      ∧ ((∀ e ∈ events, e.keeps task = true) →
        ∃ e ∈ u.state.loop.events, e.reg = s.nextReg ∧ e.removed = false
          ∧ (e.pending = true ∨ s.nextReg ∈ u.state.frames)) := by
  have hinv : Inv s := run_invariant (fun _ _ _ => step_inv) (inv_fresh base) hreach
  have hstart := registered_ticks hinv hregister
  have hticks : Ticks env.now periodUs s.nextReg u :=
    run_invariant (fun _ _ _ h hstep => Ticks.step h hstep) hstart hrun
  have hgrid := hticks.grid hfits
  refine ⟨?_, hgrid.polled, hgrid.times, ?_⟩
  · intro e he hreg hkept
    obtain ⟨nextDueUs, delayUs, hdue⟩ := hgrid.record e he hreg hkept
    exact ⟨nextDueUs, delayUs, hdue.source, hdue.due, hdue.armed⟩
  · intro hkeeps
    have hwaits : ∃ e, Waits s.nextReg task t e := by
      obtain rfl := Option.some.inj hregister
      have hitem := ((s.loop.addPeriodic_adds task periodUs s.nextReg env).mem _).mpr
        (Or.inr ⟨hadded, rfl⟩)
      exact ⟨_, hitem, rfl, rfl, rfl, ⟨_, _, _, rfl⟩, Or.inl rfl⟩
    have hboth : ∀ (v : TimerRun) (e : ClockedEvent) (w : TimerRun),
        (Ticks env.now periodUs s.nextReg v ∧ ∃ d, Waits s.nextReg task v.state d) →
        e.keeps task = true → step s.nextReg v e = some w →
        Ticks env.now periodUs s.nextReg w ∧ ∃ d, Waits s.nextReg task w.state d := by
      rintro v e w ⟨hv, hwait⟩ hkeep hstep
      exact ⟨hv.step hstep, step_waits hv.inv hwait hkeep hstep⟩
    obtain ⟨-, e, he⟩ := run_invariant_events hboth ⟨hstart, hwaits⟩ hkeeps hrun
    exact ⟨e, he.mem, he.reg, he.kept, he.pending⟩

/-- A timer of 10 is registered at 100. Its first poll takes until 135, so the two
periods that were missed are made up at once. -/
theorem periodic_on_grid_stalled : ∃ t u,
    LibeventState.step (fresh true) (.addPeriodic 7 10 { now := 100 }) = some t
      ∧ run (step 0) (registered t 100)
        [⟨112, .dispatch 0⟩, ⟨135, .pollReturns { now := 135 }⟩, ⟨135, .dispatch 0⟩,
          ⟨136, .pollReturns { now := 136 }⟩, ⟨137, .dispatch 0⟩,
          ⟨138, .pollReturns { now := 138 }⟩] = some u
      ∧ u.polledAt = [137, 135, 112]
      ∧ ∀ e ∈ u.state.loop.events, e.reg = 0 → e.removed = false →
        ∃ nextDueUs delayUs, e.source = .timer 10 nextDueUs delayUs true
          ∧ nextDueUs.toNat = 140 ∧ 138 + delayUs.toNat = 140 := by
  have hend : ((LibeventState.step (fresh true) (.addPeriodic 7 10 { now := 100 })).bind fun t =>
      run (step 0) (registered t 100)
        [⟨112, .dispatch 0⟩, ⟨135, .pollReturns { now := 135 }⟩, ⟨135, .dispatch 0⟩,
          ⟨136, .pollReturns { now := 136 }⟩, ⟨137, .dispatch 0⟩,
          ⟨138, .pollReturns { now := 138 }⟩]).map
      (fun u => (u.polledAt, u.armedAt, polls u.state.log 0, u.state.frames))
      = some ([137, 135, 112], 138, 3, []) := rfl
  obtain ⟨u, hbind, hu⟩ := Option.map_eq_some_iff.mp hend
  obtain ⟨t, hregister, hrun⟩ := Option.bind_eq_some_iff.mp hbind
  simp only [Prod.mk.injEq] at hu
  obtain ⟨hpolledAt, harmed, hpolls, hframes⟩ := hu
  have hfits : Fits 100 10 0 u := by
    rw [Fits, hpolls]
    decide
  have hreturned : returned 0 u = 3 := by rw [returned, hpolls, hframes, List.count_nil]
  have hreach : run LibeventState.step (fresh true) [] = some (fresh true) := rfl
  have hgrid := (periodic_on_grid hreach rfl hregister hrun hfits).1
  refine ⟨t, u, hregister, hrun, hpolledAt, ?_⟩
  intro e he hreg hkept
  obtain ⟨nextDueUs, delayUs, hsource, hdue, htarget⟩ := hgrid e he hreg hkept
  have hdue : nextDueUs.toNat = 140 := by
    rw [hdue, show returned (fresh true).nextReg u = 3 from hreturned]
    rfl
  rw [hdue, harmed] at htarget
  exact ⟨nextDueUs, delayUs, hsource, hdue, htarget⟩

end TimerRun

end LibeventState

end AsyncEventLoop
