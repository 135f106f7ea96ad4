import AsyncEventLoop.EventLoopHandles

/-!
# When a registration fails

All registrations store their callable in the first slot that is not in
use, and give up if that slot's task does not take it. A task does not
while it is being polled, and a callable that removes its own handle
leaves its slot free before it returns.
-/

namespace AsyncEventLoop

open Runs

namespace EventLoop

variable {S : Type} {n : Nat}

/-- The slot at which the search for a free one ends. -/
def firstFree (l : EventLoop S n) : Option Nat :=
  (List.range n).find? fun i => !(l.slots i).used

/-- The first free slot's task is being polled. -/
def freeSlotBusy (l : EventLoop S n) : Bool :=
  match l.firstFree with
  | some i => (l.slots i).task.invoking
  | none => false

/-- Every slot is in use. -/
def Full (l : EventLoop S n) : Prop := ∀ i, i < n → (l.slots i).used = true

/-- No slot can take a callable: a free one is being polled. -/
def Exhausted (l : EventLoop S n) : Prop :=
  ∀ i, i < n → (l.slots i).used = true ∨ (l.slots i).task.invoking = true

theorem firstFree_eq_none {l : EventLoop S n} : l.firstFree = none ↔ Full l := by
  simp [firstFree, Full]

theorem freeSlotBusy_eq_true {l : EventLoop S n} :
    l.freeSlotBusy = true ↔ ∃ i, l.firstFree = some i ∧ (l.slots i).task.invoking = true := by
  unfold freeSlotBusy
  cases h : l.firstFree with
  | none => simp
  | some i => simp

/-- A loop with a free slot is not full. -/
theorem not_full_of_busy {l : EventLoop S n} (h : l.freeSlotBusy = true) : ¬ Full l := by
  obtain ⟨i, hfree, -⟩ := freeSlotBusy_eq_true.mp h
  intro hfull
  rw [firstFree_eq_none.mpr hfull] at hfree
  cases hfree

/-- The search ends without a slot. -/
theorem allocateCallback_eq_none {l : EventLoop S n} {once : Bool} :
    (l.allocateCallback once).1 = none ↔ Full l ∨ l.freeSlotBusy = true := by
  rw [← firstFree_eq_none, freeSlotBusy_eq_true]
  unfold allocateCallback
  cases hfree : l.firstFree with
  | none =>
      rw [firstFree] at hfree
      simp [hfree]
  | some i =>
      rw [firstFree] at hfree
      rw [hfree]
      cases hinvoking : (l.slots i).task.invoking with
      | true => simp [CallbackTask.set_busy hinvoking, hinvoking]
      | false => simp [CallbackTask.set_idle hinvoking, hinvoking]

variable [NativeScheduler S]

/-- A slot takes the callable, and the native scheduler refuses its task. -/
def SchedulerRefuses (l : EventLoop S n) (r : Registration) (env : NativeEnv) : Prop :=
  ∃ handle, (l.allocateCallback r.delay.isSome).1 = some handle
    ∧ (r.add env l.scheduler handle.slot l.nextReg).1 = false

/-- The registration fails only in a full loop, or if it is refused. -/
def FailsOnlyFull (l : EventLoop S n) (r : Registration) (env : NativeEnv) : Prop :=
  (r.perform l env).1 = none → Full l ∨ SchedulerRefuses l r env

/-- It fails only if no slot can take the callable, or if it is refused. -/
def FailsOnlyExhausted (l : EventLoop S n) (r : Registration) (env : NativeEnv) : Prop :=
  (r.perform l env).1 = none → Exhausted l ∨ SchedulerRefuses l r env

theorem perform_eq_none {l : EventLoop S n} {r : Registration} {env : NativeEnv} :
    (r.perform l env).1 = none
      ↔ (l.allocateCallback r.delay.isSome).1 = none ∨ SchedulerRefuses l r env := by
  have hscheduler : (l.allocateCallback r.delay.isSome).2.scheduler = l.scheduler := by
    unfold allocateCallback
    split
    · rfl
    · dsimp only
      split <;> rfl
  rw [r.perform_eq, register, SchedulerRefuses]
  generalize l.allocateCallback r.delay.isSome = a at hscheduler
  obtain ⟨_ | handle, l'⟩ := a
  · simp
  · dsimp only at hscheduler ⊢
    rw [hscheduler]
    cases hadd : (r.add env l.scheduler handle.slot l.nextReg).1 <;> simp [hadd]

/-- A slot has to take the callable before the scheduler can refuse it. -/
theorem not_refuses_of_busy {l : EventLoop S n} (h : l.freeSlotBusy = true) (r : Registration)
    (env : NativeEnv) : ¬ SchedulerRefuses l r env := by
  rintro ⟨handle, halloc, -⟩
  rw [allocateCallback_eq_none.mpr (Or.inr h)] at halloc
  cases halloc

theorem failsOnlyFull_iff {l : EventLoop S n} {r : Registration} {env : NativeEnv} :
    FailsOnlyFull l r env ↔ l.freeSlotBusy = false := by
  unfold FailsOnlyFull
  rw [perform_eq_none, allocateCallback_eq_none]
  cases hbusy : l.freeSlotBusy with
  | true =>
      have hfull := not_full_of_busy hbusy
      have hrefuses := not_refuses_of_busy hbusy r env
      simp [hfull, hrefuses]
  | false => simp

theorem failsOnlyExhausted_iff {l : EventLoop S n} {r : Registration} {env : NativeEnv} :
    FailsOnlyExhausted l r env ↔ (l.freeSlotBusy = true → Exhausted l) := by
  unfold FailsOnlyExhausted
  rw [perform_eq_none, allocateCallback_eq_none]
  cases hbusy : l.freeSlotBusy with
  | true =>
      have hrefuses := not_refuses_of_busy hbusy r env
      simp [hrefuses]
  | false =>
      have hfull : Full l → Exhausted l := fun h i hi => Or.inl (h i hi)
      simp only [Bool.false_eq_true, or_false, false_implies, iff_true]
      exact Or.imp_left hfull

end EventLoop

/-! ## Runs -/

namespace HandleState

variable {S : Type} {n : Nat}

/-- A task that is being polled is that of a callable that is executing. -/
def Attended (s : HandleState S n) : Prop :=
  s.counted.loop.Attended (s.calls.map fun call => ⟨0, call.1, call.2⟩)

theorem attended_fresh (h : n ≤ 0xfffe) (scheduler : S) : Attended (fresh h scheduler) :=
  fun _ hinvoking => by cases hinvoking

variable [NativeScheduler S]

theorem step_attended {s s' : HandleState S n} {e : HandleEvent S} (h : Attended s)
    (hstep : step s e = some s') : Attended s' := by
  cases e with
  | api call =>
      obtain rfl := Option.some.inj hstep
      unfold Attended
      rw [s.counted.perform_loop call]
      exact EventLoop.Attended.perform h call
  | schedule scheduler =>
      obtain rfl := Option.some.inj hstep
      exact h
  | poll i =>
      obtain ⟨r, hpoll, rfl⟩ := Option.map_eq_some_iff.mp hstep
      exact EventLoop.Attended.start h hpoll
  | callReturns =>
      unfold Attended at h
      simp only [step] at hstep
      split at hstep
      · rename_i call rest hcalls
        obtain rfl := Option.some.inj hstep
        rw [hcalls] at h
        unfold Attended
        rw [CountedLoop.returnTask_loop]
        exact EventLoop.Attended.finish h
      · cases hstep

end HandleState

/-- In every state of a run, any registration fails only in a full loop or when
the scheduler refuses it, unless the first free slot is being polled: then
it fails although that slot is free, whatever others are. The callable the
slot is being polled for is executing then. -/
theorem registration_fails_full_iff {S : Type} [NativeScheduler S] {n : Nat} (hn : n ≤ 0xfffe)
    (scheduler : S) {s : HandleState S n} {es : List (HandleEvent S)}
    (hrun : run HandleState.step (HandleState.fresh hn scheduler) es = some s) (r : Registration)
    (env : NativeEnv) :
    (s.counted.loop.FailsOnlyFull r env ↔ s.counted.loop.freeSlotBusy = false)
      ∧ (s.counted.loop.FailsOnlyExhausted r env
        ↔ (s.counted.loop.freeSlotBusy = true → s.counted.loop.Exhausted))
      ∧ (s.counted.loop.freeSlotBusy = true →
        ∃ call ∈ s.calls, s.counted.loop.firstFree = some call.1) := by
  have hattended := run_invariant (I := HandleState.Attended)
    (fun _ _ _ => HandleState.step_attended) (HandleState.attended_fresh hn scheduler) hrun
  refine ⟨EventLoop.failsOnlyFull_iff, EventLoop.failsOnlyExhausted_iff, ?_⟩
  intro hbusy
  obtain ⟨i, hfree, hinvoking⟩ := EventLoop.freeSlotBusy_eq_true.mp hbusy
  obtain ⟨call, hcall, hslot⟩ := hattended i hinvoking
  obtain ⟨c, hc, rfl⟩ := List.mem_map.mp hcall
  exact ⟨c, hc, hfree.trans (congrArg some hslot.symm)⟩

/-- A one-shot that has removed itself finds the second of two slots free,
and cannot register. -/
theorem registration_fails_full_iff_run :
    ∃ s : HandleState LibeventLoop 2,
      run HandleState.step (HandleState.fresh (by decide) { base := true })
          [.api (.register (.onDelayUs 0) { now := 0 }), .poll 0, .api (.remove ⟨0, 0⟩)] = some s
        ∧ ¬ s.counted.loop.FailsOnlyExhausted (.onDelayUs 0) { now := 0 } := by
  have hrun : run HandleState.step (HandleState.fresh (by decide) { base := true } :
      HandleState LibeventLoop 2)
      [.api (.register (.onDelayUs 0) { now := 0 }), .poll 0, .api (.remove ⟨0, 0⟩)]
        = some _ := rfl
  have hiff := registration_fails_full_iff (by decide) ({ base := true } : LibeventLoop) hrun
    (.onDelayUs 0) { now := 0 }
  refine ⟨_, hrun, ?_⟩
  rw [hiff.2.1]
  intro hexhausted
  rcases hexhausted rfl 1 (by decide) with hused | hinvoking
  · cases hused
  · cases hinvoking

/-- The same on libevent, in a timer's callback. -/
theorem registration_fails_with_a_free_slot :
    ∃ s : LinuxState 2,
      run LinuxState.step (.fresh (by decide) true)
          [.api (.register (.onDelayUs 0) { now := 0 }), .dispatch 0 0 { now := 0 },
            .api (.remove ⟨0, 0⟩)] = some s
        ∧ ((Registration.onDelayUs 0).perform s.loop { now := 0 }).1 = none
        ∧ (s.loop.slots 1).used = false
        ∧ ¬ s.loop.FailsOnlyFull (.onDelayUs 0) { now := 0 } := by
  have hrun : run LinuxState.step (.fresh (by decide) true : LinuxState 2)
      [.api (.register (.onDelayUs 0) { now := 0 }), .dispatch 0 0 { now := 0 },
        .api (.remove ⟨0, 0⟩)] = some _ := rfl
  refine ⟨_, hrun, rfl, rfl, ?_⟩
  rw [EventLoop.failsOnlyFull_iff]
  intro hidle
  cases hidle

end AsyncEventLoop
