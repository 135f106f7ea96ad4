import Mathlib.Data.List.Basic
import Mathlib.Logic.Function.Basic

/-!
# The event loop's callback slots

`EventLoop` keeps a fixed number of slots, each with a `CallbackTask` that
stores one callable, a generation and a used flag, and registers the
task of a slot with the native scheduler. It is generic in the scheduler,
as the template is: `NativeScheduler` lists the calls it makes,
`LawfulScheduler` what they do to the scheduler's live entries.

A callable is opaque. What is kept of it is the number of its registration
(a ghost), the handle it was registered under, and whether it is wrapped
in a `OneShotCallback`, which calls `complete_one_shot` behind it.

`Wired` says that the three tables agree: slots, stored callables and
scheduler entries. Every operation keeps it, whatever callables are
executing at the time.
-/

namespace AsyncEventLoop

/-- `EventHandle`. -/
structure EventHandle where
  slot : Nat := 0xffff
  generation : UInt16 := 0
  deriving DecidableEq

def EventHandle.assigned (h : EventHandle) : Bool := h.slot ≠ 0xffff

/-- A stored callable. `oneShot` marks the wrapper of `on_delay_us`, which
keeps the handle; for other callables the handle is a ghost, as `reg` is. -/
structure Callable where
  reg : Nat
  handle : EventHandle
  oneShot : Bool
  deriving DecidableEq

/-! ## Callback tasks -/

/-- `CallbackTask`. The callable stands for the storage together with
`invoke_` and `destroy_`, which are set and cleared with it. -/
structure CallbackTask where
  callable : Option Callable := none
  active : Bool := false
  enabled : Bool := false
  invoking : Bool := false
  clearRequested : Bool := false
  deriving DecidableEq

namespace CallbackTask

/-- `destroy_now`; destructors call nothing back. -/
def destroyNow (t : CallbackTask) : CallbackTask :=
  { t with callable := none, active := false, enabled := false, clearRequested := false }

def clear (t : CallbackTask) : CallbackTask :=
  if t.invoking then { t with active := false, enabled := false, clearRequested := true }
  else destroyNow t

def set (t : CallbackTask) (callable : Callable) : Bool × CallbackTask :=
  let t := clear t
  if t.invoking then (false, t)
  else
    (true, { t with
      callable := some callable, active := true, enabled := true, clearRequested := false })

def setEnabled (t : CallbackTask) (enabled : Bool) : CallbackTask :=
  if t.active then { t with enabled := enabled } else t

/-- `poll` up to the call, if it makes one. -/
def pollEnter (t : CallbackTask) : Option (Callable × CallbackTask) :=
  match t.callable with
  | some callable =>
      if t.active && t.enabled then some (callable, { t with invoking := true }) else none
  | none => none

/-- `poll` behind the call. -/
def pollLeave (t : CallbackTask) : CallbackTask :=
  let t := { t with invoking := false }
  if t.clearRequested then destroyNow t else t

@[simp] theorem clear_active (t : CallbackTask) : t.clear.active = false := by
  unfold clear
  split <;> rfl

@[simp] theorem clear_invoking (t : CallbackTask) : t.clear.invoking = t.invoking := by
  unfold clear
  split <;> rfl

theorem set_busy {t : CallbackTask} (h : t.invoking = true) (c : Callable) :
    t.set c = (false, t.clear) := by
  simp [set, h]

theorem set_idle {t : CallbackTask} (h : t.invoking = false) (c : Callable) :
    t.set c = (true, ⟨some c, true, true, false, false⟩) := by
  simp [set, clear, destroyNow, h]

theorem pollEnter_eq_some {t t' : CallbackTask} {c : Callable}
    (h : t.pollEnter = some (c, t')) :
    t.callable = some c ∧ t.active = true ∧ t.enabled = true
      ∧ t' = { t with invoking := true } := by
  unfold pollEnter at h
  split at h
  · split at h
    · rename_i hcallable hgo
      rw [Bool.and_eq_true] at hgo
      obtain ⟨rfl, rfl⟩ := Prod.mk.inj (Option.some.inj h)
      exact ⟨hcallable, hgo.1, hgo.2, rfl⟩
    · cases h
  · cases h

end CallbackTask

/-! ## The native scheduler -/

/-- What a call into the native scheduler depends on besides its arguments:
the clock, which it may read again later on, and whether libevent makes
and adds the event. -/
structure NativeEnv where
  now : UInt64
  accepts : Bool := true
  again : UInt64 := now

/-- The scheduler calls `EventLoop` makes. `addReadableFd` is there on the
platforms that are compiled with it; `reg` is the ghost number of the
registration. -/
class NativeScheduler (S : Type) where
  addPeriodic : S → (task : Nat) → (periodUs : UInt64) → (reg : Nat) → NativeEnv → Bool × S
  addOneShot : S → (task : Nat) → (dueUs : UInt64) → (reg : Nat) → NativeEnv → Bool × S
  addReadableFd : Option (S → (fd : Int) → (task : Nat) → (reg : Nat) → NativeEnv → Bool × S)
  remove : S → (task : Nat) → Bool × S

/-- Adding an entry: the live entries gain exactly it if the call returned
true, and nothing otherwise. `once` marks an entry that fires once. -/
structure Schedules {S : Type} (Ok : S → Prop) (live : S → Nat → Nat → Bool → Prop) (s : S)
    (r : Bool × S) (reg task : Nat) (once : Bool) : Prop where
  ok : Ok r.2
  live : ∀ q t o, live r.2 q t o
    ↔ live s q t o ∨ (r.1 = true ∧ q = reg ∧ t = task ∧ o = once)

/-- What a scheduler's calls do to its live entries, each a registration
number, a task and a flag. -/
class LawfulScheduler (S : Type) [NativeScheduler S] where
  Ok : S → Prop
  live : S → Nat → Nat → Bool → Prop
  addPeriodic_law : ∀ s task periodUs reg env, Ok s →
    Schedules Ok live s (NativeScheduler.addPeriodic s task periodUs reg env) reg task false
  addOneShot_law : ∀ s task dueUs reg env, Ok s →
    Schedules Ok live s (NativeScheduler.addOneShot s task dueUs reg env) reg task true
  addReadableFd_law : ∀ add, NativeScheduler.addReadableFd = some add →
    ∀ (s : S) fd task reg env, Ok s →
      Schedules Ok live s (add s fd task reg env) reg task false
  remove_law : ∀ s task, Ok s →
    Ok (NativeScheduler.remove s task).2
      ∧ ((NativeScheduler.remove s task).1 = true ↔ ∃ q o, live s q task o)
      ∧ ∀ q t o, live (NativeScheduler.remove s task).2 q t o ↔ live s q t o ∧ t ≠ task

/-! ## The slots -/

/-- One index of `callback_tasks_`, `callback_generations_` and
`callback_used_`. -/
structure CallbackSlot where
  task : CallbackTask := {}
  generation : UInt16 := 0
  used : Bool := false
  deriving DecidableEq

/-- What both `release_*` functions do to a slot. -/
def CallbackSlot.release (slot : CallbackSlot) : CallbackSlot :=
  { task := slot.task.clear, generation := slot.generation + 1, used := false }

/-- `EventLoop`. Only the slots below `MaxCallbacks` are ever used;
`capacity` is the static assertion of the constructor. `nextReg` is a
ghost. -/
structure EventLoop (S : Type) (MaxCallbacks : Nat) where
  scheduler : S
  capacity : MaxCallbacks ≤ 0xfffe
  slots : Nat → CallbackSlot := fun _ => {}
  nextReg : Nat := 0

namespace EventLoop

variable {S : Type} {n : Nat}

def putSlot (l : EventLoop S n) (i : Nat) (slot : CallbackSlot) : EventLoop S n :=
  { l with slots := Function.update l.slots i slot }

def valid (l : EventLoop S n) (h : EventHandle) : Bool :=
  h.assigned && decide (h.slot < n) && (l.slots h.slot).used && (l.slots h.slot).task.active
    && (l.slots h.slot).generation == h.generation

def setEnabled (l : EventLoop S n) (h : EventHandle) (enabled : Bool) : Bool × EventLoop S n :=
  if l.valid h then
    let slot := l.slots h.slot
    (true, l.putSlot h.slot { slot with task := slot.task.setEnabled enabled })
  else (false, l)

def enable (l : EventLoop S n) (h : EventHandle) : Bool × EventLoop S n := l.setEnabled h true

def disable (l : EventLoop S n) (h : EventHandle) : Bool × EventLoop S n := l.setEnabled h false

/-- `release_registered`, which `complete_one_shot` calls. -/
def releaseRegistered (l : EventLoop S n) (h : EventHandle) : EventLoop S n :=
  if !h.assigned || decide (h.slot ≥ n) then l
  else if !(l.slots h.slot).used || (l.slots h.slot).generation != h.generation then l
  else l.putSlot h.slot (l.slots h.slot).release

def releaseUnregistered (l : EventLoop S n) (h : EventHandle) : EventLoop S n :=
  if !h.assigned || decide (h.slot ≥ n) then l
  else l.putSlot h.slot (l.slots h.slot).release

/-- The loop of `allocate_callback` over the slots, which `on_delay_us`
repeats: the first free slot takes the callable or fails to. -/
def allocateCallback (l : EventLoop S n) (oneShot : Bool) : Option EventHandle × EventLoop S n :=
  match (List.range n).find? fun i => !(l.slots i).used with
  | none => (none, l)
  | some i =>
      let slot := l.slots i
      let handle : EventHandle := ⟨i, slot.generation⟩
      let r := slot.task.set ⟨l.nextReg, handle, oneShot⟩
      if r.1 then
        (some handle,
          { l.putSlot i { slot with task := r.2, used := true } with nextReg := l.nextReg + 1 })
      else (none, l.putSlot i { slot with task := r.2 })

/-- What all `on_*` functions do: store the callable, schedule the slot's
task, and give the slot back if the scheduler refuses. -/
def register (l : EventLoop S n) (oneShot : Bool) (add : S → Nat → Nat → Bool × S) :
    Option EventHandle × EventLoop S n :=
  match l.allocateCallback oneShot with
  | (none, l) => (none, l)
  | (some handle, l') =>
      let r := add l'.scheduler handle.slot l.nextReg
      let l' := { l' with scheduler := r.2 }
      if r.1 then (some handle, l') else (none, l'.releaseUnregistered handle)

/-- `poll` on the task of slot `i`, up to the call it makes, if any. -/
def pollTask (l : EventLoop S n) (i : Nat) : Option (Callable × EventLoop S n) :=
  (l.slots i).task.pollEnter.map fun r => (r.1, l.putSlot i { l.slots i with task := r.2 })

/-- The return of `callable` into the `poll` on the task of slot `i`: what
`OneShotCallback` does behind it, and the rest of `poll`. -/
def returnTask (l : EventLoop S n) (i : Nat) (callable : Callable) : EventLoop S n :=
  let l := if callable.oneShot then l.releaseRegistered callable.handle else l
  l.putSlot i { l.slots i with task := (l.slots i).task.pollLeave }

variable [NativeScheduler S]

def remove (l : EventLoop S n) (h : EventHandle) : Bool × EventLoop S n :=
  if l.valid h then
    let r := NativeScheduler.remove l.scheduler h.slot
    let l := { l with scheduler := r.2 }
    if r.1 then (true, l.releaseRegistered h) else (false, l)
  else (false, l)

/-- `now + delay_us`, or the last instant if that overflows. -/
def dueUs (delayUs now : UInt64) : UInt64 :=
  if delayUs > 0xffffffffffffffff - now then 0xffffffffffffffff else now + delayUs

/-- `register_readiness_or_poll`. -/
def registerReadinessOrPoll (s : S) (fd : Int) (task : Nat) (cooperativePollUs : UInt64)
    (reg : Nat) (env : NativeEnv) : Bool × S :=
  let periodUs := if cooperativePollUs = 0 then 1000 else cooperativePollUs
  match NativeScheduler.addReadableFd (S := S) with
  | some add =>
      if fd ≥ 0 then add s fd task reg env
      else NativeScheduler.addPeriodic s task periodUs reg env
  | none => NativeScheduler.addPeriodic s task periodUs reg env

def onRepeatUs (l : EventLoop S n) (periodUs : UInt64) (env : NativeEnv) :
    Option EventHandle × EventLoop S n :=
  l.register false fun s task reg => NativeScheduler.addPeriodic s task periodUs reg env

def onDelayUs (l : EventLoop S n) (delayUs : UInt64) (env : NativeEnv) :
    Option EventHandle × EventLoop S n :=
  l.register true fun s task reg =>
    NativeScheduler.addOneShot s task (dueUs delayUs env.now) reg env

/-- `on_bytes_ready` on a stream with descriptor `fd`, or -1. -/
def onBytesReady (l : EventLoop S n) (fd : Int) (cooperativePollUs : UInt64) (env : NativeEnv) :
    Option EventHandle × EventLoop S n :=
  l.register false fun s task reg => registerReadinessOrPoll s fd task cooperativePollUs reg env

/-- `on_pin_event`, which differs in the wrapper it stores alone. -/
def onPinEvent (l : EventLoop S n) (fd : Int) (cooperativePollUs : UInt64) (env : NativeEnv) :
    Option EventHandle × EventLoop S n :=
  l.register false fun s task reg => registerReadinessOrPoll s fd task cooperativePollUs reg env

end EventLoop

/-- The registration functions and their arguments. -/
inductive Registration where
  | onRepeatUs (periodUs : UInt64)
  | onDelayUs (delayUs : UInt64)
  | onBytesReady (fd : Int) (cooperativePollUs : UInt64)
  | onPinEvent (fd : Int) (cooperativePollUs : UInt64)

namespace Registration

variable {S : Type} {n : Nat} [NativeScheduler S]

def perform (r : Registration) (l : EventLoop S n) (env : NativeEnv) :
    Option EventHandle × EventLoop S n :=
  match r with
  | onRepeatUs periodUs => l.onRepeatUs periodUs env
  | onDelayUs delayUs => l.onDelayUs delayUs env
  | onBytesReady fd pollUs => l.onBytesReady fd pollUs env
  | onPinEvent fd pollUs => l.onPinEvent fd pollUs env

/-- The delay, for a registration that fires once. -/
def delay : Registration → Option UInt64
  | onDelayUs delayUs => some delayUs
  | _ => none

/-- The scheduler call the registration makes. -/
def add (r : Registration) (env : NativeEnv) (s : S) (task reg : Nat) : Bool × S :=
  match r with
  | onRepeatUs periodUs => NativeScheduler.addPeriodic s task periodUs reg env
  | onDelayUs delayUs =>
      NativeScheduler.addOneShot s task (EventLoop.dueUs delayUs env.now) reg env
  | onBytesReady fd pollUs => EventLoop.registerReadinessOrPoll s fd task pollUs reg env
  | onPinEvent fd pollUs => EventLoop.registerReadinessOrPoll s fd task pollUs reg env

theorem perform_eq (r : Registration) (l : EventLoop S n) (env : NativeEnv) :
    r.perform l env = l.register r.delay.isSome (r.add env) := by
  cases r <;> rfl

/-- Whatever the registration, the scheduler gains one entry or none. -/
theorem add_law [LawfulScheduler S] (r : Registration) (env : NativeEnv) (s : S)
    (task reg : Nat) (h : LawfulScheduler.Ok s) :
    Schedules LawfulScheduler.Ok LawfulScheduler.live s (r.add env s task reg) reg task
      r.delay.isSome := by
  have hready : ∀ fd pollUs, Schedules LawfulScheduler.Ok LawfulScheduler.live s
      (EventLoop.registerReadinessOrPoll s fd task pollUs reg env) reg task false := by
    intro fd pollUs
    unfold EventLoop.registerReadinessOrPoll
    cases hadd : NativeScheduler.addReadableFd (S := S) with
    | none => exact LawfulScheduler.addPeriodic_law s task _ reg env h
    | some add =>
        dsimp only
        split
        · exact LawfulScheduler.addReadableFd_law add hadd s fd task reg env h
        · exact LawfulScheduler.addPeriodic_law s task _ reg env h
  cases r with
  | onRepeatUs periodUs => exact LawfulScheduler.addPeriodic_law s task periodUs reg env h
  | onDelayUs delayUs => exact LawfulScheduler.addOneShot_law s task _ reg env h
  | onBytesReady fd pollUs => exact hready fd pollUs
  | onPinEvent fd pollUs => exact hready fd pollUs

end Registration

/-! ## Calls from the application -/

/-- What a run is observed by. A registration that succeeded is noted with
the clock and the delay it was made with, if it was `on_delay_us`; a start
of a callable with the scheduler entry it was polled for. -/
inductive CallNote where
  | registered (reg : Nat) (handle : EventHandle) (delay : Option (UInt64 × UInt64))
  | removed (handle : EventHandle)
  | invoked (entry : Nat) (callable : Callable) (valid enabled : Bool) (now : UInt64)
  deriving DecidableEq

/-- The registration a note is about. -/
def CallNote.reg : CallNote → Option Nat
  | registered reg _ _ => some reg
  | removed _ => none
  | invoked _ c _ _ _ => some c.reg

def CallNote.invokes (reg : Nat) : CallNote → Bool
  | invoked _ c _ _ _ => c.reg = reg
  | _ => false

/-- How often the callable of a registration has been started. -/
def invocations (log : List CallNote) (reg : Nat) : Nat := log.countP (CallNote.invokes reg)

theorem invocations_append (notes log : List CallNote) (reg : Nat) :
    invocations (notes ++ log) reg = invocations notes reg + invocations log reg :=
  List.countP_append

theorem invocations_eq_zero {log : List CallNote} {reg : Nat}
    (h : ∀ entry c v e now, .invoked entry c v e now ∈ log → c.reg ≠ reg) :
    invocations log reg = 0 := by
  rw [invocations, List.countP_eq_zero]
  intro note hnote hinvokes
  cases note with
  | invoked entry c v e now =>
      exact h entry c v e now hnote (by simpa [CallNote.invokes] using hinvokes)
  | registered => cases hinvokes
  | removed => cases hinvokes

/-- Notes of registrations and removals start nothing. -/
theorem invocations_quiet {notes log : List CallNote} {reg : Nat}
    (h : ∀ entry c v e now, .invoked entry c v e now ∉ notes) :
    invocations (notes ++ log) reg = invocations log reg := by
  rw [invocations_append, invocations_eq_zero fun entry c v e now hmem =>
    absurd hmem (h entry c v e now), Nat.zero_add]

theorem invocations_invoked (entry : Nat) (c : Callable) (v e : Bool) (now : UInt64)
    (log : List CallNote) (reg : Nat) :
    invocations (.invoked entry c v e now :: log) reg
      = (if c.reg = reg then 1 else 0) + invocations log reg := by
  rw [invocations, List.countP_cons, Nat.add_comm, invocations]
  simp [CallNote.invokes]

inductive ApiCall where
  | register (r : Registration) (env : NativeEnv)
  | enable (h : EventHandle)
  | disable (h : EventHandle)
  | remove (h : EventHandle)

/-- The loop after a call, and what there is to note of it. -/
def ApiCall.perform {S : Type} {n : Nat} [NativeScheduler S] (call : ApiCall)
    (l : EventLoop S n) : EventLoop S n × List CallNote :=
  match call with
  | .register r env =>
      let p := r.perform l env
      (p.2, match p.1 with
        | some h => [.registered l.nextReg h (r.delay.map fun d => (env.now, d))]
        | none => [])
  | .enable h => ((l.enable h).2, [])
  | .disable h => ((l.disable h).2, [])
  | .remove h =>
      let p := l.remove h
      (p.2, if p.1 then [.removed h] else [])

end AsyncEventLoop
