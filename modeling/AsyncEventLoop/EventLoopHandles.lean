import AsyncEventLoop.ArduinoEventLoop
import AsyncEventLoop.LinuxEventLoop

/-!
# The generations of event handles

A slot's generation counts its releases, in 16 bits, so that a handle
names its registration until the slot has been released 65536 times.

`CountedLoop` is an `EventLoop` with a ghost: how often each slot has been
released. Its operations are those of the loop with the count added to
the two `release_*` functions. Nothing is assumed of the native scheduler:
in a run it may change as it likes, poll any task at any time, and poll a
task again while its callable is executing. The runs on both platforms
are runs of this kind.
-/

namespace AsyncEventLoop

open Runs

/-! ## Counting releases -/

structure CountedLoop (S : Type) (MaxCallbacks : Nat) where
  loop : EventLoop S MaxCallbacks
  released : Nat → Nat := fun _ => 0

namespace CountedLoop

variable {S : Type} {n : Nat}

/-- The statements both `release_*` functions end in. -/
def release (c : CountedLoop S n) (i : Nat) : CountedLoop S n :=
  { loop := c.loop.putSlot i (c.loop.slots i).release
    released := Function.update c.released i (c.released i + 1) }

def releaseRegistered (c : CountedLoop S n) (h : EventHandle) : CountedLoop S n :=
  if !h.assigned || decide (h.slot ≥ n) then c
  else if !(c.loop.slots h.slot).used || (c.loop.slots h.slot).generation != h.generation then c
  else c.release h.slot

def releaseUnregistered (c : CountedLoop S n) (h : EventHandle) : CountedLoop S n :=
  if !h.assigned || decide (h.slot ≥ n) then c else c.release h.slot

def register (c : CountedLoop S n) (oneShot : Bool) (add : S → Nat → Nat → Bool × S) :
    Option EventHandle × CountedLoop S n :=
  match c.loop.allocateCallback oneShot with
  | (none, l) => (none, { c with loop := l })
  | (some handle, l) =>
      let r := add l.scheduler handle.slot c.loop.nextReg
      let c := { c with loop := { l with scheduler := r.2 } }
      if r.1 then (some handle, c) else (none, c.releaseUnregistered handle)

def returnTask (c : CountedLoop S n) (i : Nat) (callable : Callable) : CountedLoop S n :=
  let c := if callable.oneShot then c.releaseRegistered callable.handle else c
  let slot := c.loop.slots i
  { c with loop := c.loop.putSlot i { slot with task := slot.task.pollLeave } }

/-! The operations without the count. -/

theorem releaseRegistered_loop (c : CountedLoop S n) (h : EventHandle) :
    (c.releaseRegistered h).loop = c.loop.releaseRegistered h := by
  unfold releaseRegistered EventLoop.releaseRegistered
  split
  · rfl
  · split <;> rfl

theorem releaseUnregistered_loop (c : CountedLoop S n) (h : EventHandle) :
    (c.releaseUnregistered h).loop = c.loop.releaseUnregistered h := by
  unfold releaseUnregistered EventLoop.releaseUnregistered
  split <;> rfl

theorem register_loop (c : CountedLoop S n) (oneShot : Bool) (add : S → Nat → Nat → Bool × S) :
    (c.register oneShot add).1 = (c.loop.register oneShot add).1
      ∧ (c.register oneShot add).2.loop = (c.loop.register oneShot add).2 := by
  unfold register EventLoop.register
  rcases c.loop.allocateCallback oneShot with ⟨_ | handle, l⟩
  · exact ⟨rfl, rfl⟩
  · dsimp only
    split
    · exact ⟨rfl, rfl⟩
    · exact ⟨rfl, releaseUnregistered_loop _ _⟩

theorem returnTask_loop (c : CountedLoop S n) (i : Nat) (callable : Callable) :
    (c.returnTask i callable).loop = c.loop.returnTask i callable := by
  unfold returnTask EventLoop.returnTask
  cases callable.oneShot
  · rfl
  · simp only [if_true, releaseRegistered_loop]

variable [NativeScheduler S]

def remove (c : CountedLoop S n) (h : EventHandle) : Bool × CountedLoop S n :=
  if c.loop.valid h then
    let r := NativeScheduler.remove c.loop.scheduler h.slot
    let c := { c with loop := { c.loop with scheduler := r.2 } }
    if r.1 then (true, c.releaseRegistered h) else (false, c)
  else (false, c)

/-- A call, and the handle it returns. -/
def perform (c : CountedLoop S n) : ApiCall → Option EventHandle × CountedLoop S n
  | .register r env => c.register r.delay.isSome (r.add env)
  | .enable h => (none, { c with loop := (c.loop.enable h).2 })
  | .disable h => (none, { c with loop := (c.loop.disable h).2 })
  | .remove h => (none, (c.remove h).2)

theorem remove_loop (c : CountedLoop S n) (h : EventHandle) :
    (c.remove h).1 = (c.loop.remove h).1 ∧ (c.remove h).2.loop = (c.loop.remove h).2 := by
  unfold remove EventLoop.remove
  split
  · dsimp only
    split
    · exact ⟨rfl, releaseRegistered_loop _ _⟩
    · exact ⟨rfl, rfl⟩
  · exact ⟨rfl, rfl⟩

theorem perform_loop (c : CountedLoop S n) (call : ApiCall) :
    (c.perform call).2.loop = (call.perform c.loop).1 := by
  cases call with
  | register r env =>
      have hperform := r.perform_eq c.loop env
      simp only [perform, ApiCall.perform, hperform]
      exact (register_loop c _ _).2
  | enable h => rfl
  | disable h => rfl
  | remove h => exact (remove_loop c h).2

end CountedLoop

/-! ## The generation is the count -/

namespace CountedLoop

variable {S : Type} {n : Nat}

/-- Every slot's generation is its count, and the task of a slot in use is
active. -/
structure Counts (c : CountedLoop S n) : Prop where
  generation : ∀ i, (c.loop.slots i).generation = UInt16.ofNat (c.released i)
  active : ∀ i, (c.loop.slots i).used = true →
    (c.loop.slots i).task.active = true ∧ (c.loop.slots i).task.clearRequested = false

/-- What operations do to the counts. -/
structure Advances (c c' : CountedLoop S n) : Prop where
  counts : Counts c → Counts c'
  released : ∀ i, c.released i ≤ c'.released i

theorem Advances.trans {a b c : CountedLoop S n} (h : Advances a b) (h' : Advances b c) :
    Advances a c :=
  ⟨h'.counts ∘ h.counts, fun i => Nat.le_trans (h.released i) (h'.released i)⟩

/-- Only the slots matter. -/
theorem advances_same {c c' : CountedLoop S n} (hslots : c'.loop.slots = c.loop.slots)
    (hreleased : c'.released = c.released) : Advances c c' := by
  refine ⟨fun h => ⟨?_, ?_⟩, fun i => by rw [hreleased]⟩
  · intro i
    rw [hslots, hreleased]
    exact h.generation i
  · intro i hused
    rw [hslots] at hused ⊢
    exact h.active i hused

/-- Nor do slots that keep their generation, if a task in use stays active. -/
theorem advances_task (c : CountedLoop S n) {i : Nat} {slot : CallbackSlot}
    (hgeneration : slot.generation = (c.loop.slots i).generation)
    (hactive : Counts c → slot.used = true →
      slot.task.active = true ∧ slot.task.clearRequested = false) :
    Advances c { c with loop := c.loop.putSlot i slot } := by
  refine ⟨fun h => ⟨?_, ?_⟩, fun _ => Nat.le_refl _⟩
  · intro j
    by_cases hj : j = i
    · subst hj
      rw [EventLoop.putSlot_self, hgeneration]
      exact h.generation j
    · rw [EventLoop.putSlot_of_ne _ hj]
      exact h.generation j
  · intro j hused
    by_cases hj : j = i
    · subst hj
      rw [EventLoop.putSlot_self] at hused ⊢
      exact hactive h hused
    · rw [EventLoop.putSlot_of_ne _ hj] at hused ⊢
      exact h.active j hused

theorem release_advances (c : CountedLoop S n) (i : Nat) : Advances c (c.release i) := by
  refine ⟨fun h => ⟨?_, ?_⟩, ?_⟩
  · intro j
    by_cases hj : j = i
    · subst hj
      simp [release, CallbackSlot.release, h.generation j, UInt16.ofNat_add]
    · simp [release, EventLoop.putSlot_of_ne _ hj, hj, h.generation j]
  · intro j hused
    by_cases hj : j = i
    · subst hj
      simp [release, CallbackSlot.release] at hused
    · simp only [release, EventLoop.putSlot_of_ne _ hj] at hused ⊢
      exact h.active j hused
  · intro j
    by_cases hj : j = i
    · subst hj
      simp [release]
    · simp [release, hj]

theorem releaseRegistered_advances (c : CountedLoop S n) (h : EventHandle) :
    Advances c (c.releaseRegistered h) := by
  unfold releaseRegistered
  split
  · exact advances_same rfl rfl
  · split
    · exact advances_same rfl rfl
    · exact release_advances c _

theorem releaseUnregistered_advances (c : CountedLoop S n) (h : EventHandle) :
    Advances c (c.releaseUnregistered h) := by
  unfold releaseUnregistered
  split
  · exact advances_same rfl rfl
  · exact release_advances c _

/-- The handle `h` was issued when its slot had been released `k` times. -/
structure Issued (c : CountedLoop S n) (h : EventHandle) (k : Nat) : Prop where
  slot_lt : h.slot < n
  generation : h.generation = UInt16.ofNat k
  le : k ≤ c.released h.slot

theorem Issued.advances {c c' : CountedLoop S n} {h : EventHandle} {k : Nat} (hi : Issued c h k)
    (ha : Advances c c') : Issued c' h k :=
  ⟨hi.slot_lt, hi.generation, Nat.le_trans hi.le (ha.released _)⟩

theorem allocate_advances (c : CountedLoop S n) (oneShot : Bool) :
    Advances c { c with loop := (c.loop.allocateCallback oneShot).2 }
      ∧ ∀ h, (c.loop.allocateCallback oneShot).1 = some h →
        h.slot < n ∧ h.generation = (c.loop.slots h.slot).generation := by
  unfold EventLoop.allocateCallback
  cases hfree : (List.range n).find? fun i => !(c.loop.slots i).used with
  | none => exact ⟨advances_same rfl rfl, nofun⟩
  | some i =>
      have hused : (c.loop.slots i).used = false := by simpa using List.find?_some hfree
      dsimp only
      cases hinvoking : (c.loop.slots i).task.invoking with
      | true =>
          rw [CallbackTask.set_busy hinvoking, if_neg Bool.false_ne_true]
          refine ⟨advances_task c rfl ?_, nofun⟩
          intro _ hu
          rw [hused] at hu
          cases hu
      | false =>
          rw [CallbackTask.set_idle hinvoking, if_pos rfl]
          refine ⟨?_, ?_⟩
          · have hset (callable : Callable) : Advances c { c with
                loop := c.loop.putSlot i { c.loop.slots i with
                  task := ⟨some callable, true, true, false, false⟩, used := true } } :=
              advances_task c rfl fun _ _ => ⟨rfl, rfl⟩
            exact (hset _).trans (advances_same rfl rfl)
          · intro h hh
            obtain rfl := Option.some.inj hh
            exact ⟨List.mem_range.mp (List.mem_of_find?_eq_some hfree), rfl⟩

theorem register_advances (c : CountedLoop S n) (oneShot : Bool)
    (add : S → Nat → Nat → Bool × S) :
    Advances c (c.register oneShot add).2
      ∧ ∀ h, (c.register oneShot add).1 = some h → Counts c →
        Issued (c.register oneShot add).2 h ((c.register oneShot add).2.released h.slot) := by
  obtain ⟨halloc, hhandle⟩ := allocate_advances c oneShot
  unfold register
  generalize c.loop.allocateCallback oneShot = a at halloc hhandle
  obtain ⟨_ | handle, l⟩ := a
  · exact ⟨halloc, fun h hnone => by cases hnone⟩
  · dsimp only at halloc hhandle ⊢
    have hscheduled : Advances c
        { c with loop :=
            { l with scheduler := (add l.scheduler handle.slot c.loop.nextReg).2 } } :=
      halloc.trans (advances_same rfl rfl)
    split
    · refine ⟨hscheduled, ?_⟩
      intro h hh hcounts
      obtain rfl := Option.some.inj hh
      obtain ⟨hn, hgeneration⟩ := hhandle handle rfl
      exact ⟨hn, hgeneration.trans (hcounts.generation _), Nat.le_refl _⟩
    · exact ⟨hscheduled.trans (releaseUnregistered_advances _ _), fun h hnone => by cases hnone⟩

theorem returnTask_advances (c : CountedLoop S n) (i : Nat) (callable : Callable) :
    Advances c (c.returnTask i callable) := by
  have hcomplete : Advances c
      (if callable.oneShot then c.releaseRegistered callable.handle else c) := by
    split
    · exact releaseRegistered_advances c _
    · exact advances_same rfl rfl
  refine hcomplete.trans (advances_task _ rfl ?_)
  intro h hused
  -- the task of a slot in use has not been cleared
  obtain ⟨hactive, hclear⟩ := h.active i hused
  have hleave : ∀ t : CallbackTask, t.clearRequested = false →
      t.pollLeave = { t with invoking := false } := by
    intro t ht
    simp [CallbackTask.pollLeave, ht]
  dsimp only
  rw [hleave _ hclear]
  exact ⟨hactive, hclear⟩

theorem setEnabled_advances (c : CountedLoop S n) (h : EventHandle) (enabled : Bool) :
    Advances c { c with loop := (c.loop.setEnabled h enabled).2 } := by
  unfold EventLoop.setEnabled
  split
  · refine advances_task c rfl ?_
    intro hc hused
    obtain ⟨hactive, hclear⟩ := hc.active _ hused
    simp [CallbackTask.setEnabled, hactive, hclear]
  · exact advances_same rfl rfl

variable [NativeScheduler S]

theorem remove_advances (c : CountedLoop S n) (h : EventHandle) :
    Advances c (c.remove h).2 := by
  unfold remove
  split
  · have hschedule : Advances c { c with loop :=
        { c.loop with scheduler := (NativeScheduler.remove c.loop.scheduler h.slot).2 } } :=
      advances_same rfl rfl
    dsimp only
    split
    · exact hschedule.trans (releaseRegistered_advances _ h)
    · exact hschedule
  · exact advances_same rfl rfl

theorem perform_advances (c : CountedLoop S n) (call : ApiCall) :
    Advances c (c.perform call).2
      ∧ ∀ h, (c.perform call).1 = some h → Counts c →
        Issued (c.perform call).2 h ((c.perform call).2.released h.slot) := by
  cases call with
  | register r env => exact register_advances c _ _
  | enable h => exact ⟨setEnabled_advances c h true, nofun⟩
  | disable h => exact ⟨setEnabled_advances c h false, nofun⟩
  | remove h => exact ⟨remove_advances c h, nofun⟩

end CountedLoop

/-! ## Runs -/

/-- A loop in a run, with the handles registrations have returned, each with
the count of its slot at that time, and the callables that are executing. -/
structure HandleState (S : Type) (MaxCallbacks : Nat) where
  counted : CountedLoop S MaxCallbacks
  issued : List (EventHandle × Nat) := []
  calls : List (Nat × Callable) := []

/-- `schedule` is anything the native scheduler may do to itself. -/
inductive HandleEvent (S : Type) where
  | api (call : ApiCall)
  | schedule (scheduler : S)
  | poll (slot : Nat)
  | callReturns

namespace HandleState

variable {S : Type} {n : Nat}

def fresh (h : n ≤ 0xfffe) (scheduler : S) : HandleState S n :=
  { counted := { loop := { scheduler := scheduler, capacity := h } } }

structure Inv (s : HandleState S n) : Prop where
  counts : s.counted.Counts
  issued : ∀ p ∈ s.issued, s.counted.Issued p.1 p.2

theorem Inv.advances {s s' : HandleState S n} (h : Inv s) (ha : s.counted.Advances s'.counted)
    (hissued : s'.issued = s.issued) : Inv s' :=
  ⟨ha.counts h.counts, fun p hp => (h.issued p (hissued ▸ hp)).advances ha⟩

theorem inv_fresh (h : n ≤ 0xfffe) (scheduler : S) : Inv (fresh h scheduler) :=
  ⟨⟨fun _ => rfl, nofun⟩, List.forall_mem_nil _⟩

/-- The handles are as good as the counts say. -/
theorem Inv.valid_iff {s : HandleState S n} (h : Inv s) {handle : EventHandle} {k : Nat}
    (hissued : (handle, k) ∈ s.issued) :
    s.counted.loop.valid handle = true
      ↔ (s.counted.loop.slots handle.slot).used = true
        ∧ (s.counted.released handle.slot - k) % 65536 = 0 := by
  obtain ⟨hn, hgeneration, hle⟩ := h.issued _ hissued
  have hsame : (s.counted.loop.slots handle.slot).generation = handle.generation
      ↔ (s.counted.released handle.slot - k) % 65536 = 0 := by
    dsimp only at hgeneration hle
    rw [h.counts.generation, hgeneration, ← UInt16.toNat_inj, UInt16.toNat_ofNat',
      UInt16.toNat_ofNat']
    omega
  rw [EventLoop.valid_iff, hsame]
  constructor
  · rintro ⟨-, hused, -, hcount⟩
    exact ⟨hused, hcount⟩
  · rintro ⟨hused, hcount⟩
    exact ⟨hn, hused, (h.counts.active _ hused).1, hcount⟩

variable [NativeScheduler S]

def step (s : HandleState S n) : HandleEvent S → Option (HandleState S n)
  | .api call =>
      let r := s.counted.perform call
      some { s with
        counted := r.2
        issued := (r.1.map fun h => (h, r.2.released h.slot)).toList ++ s.issued }
  | .schedule scheduler =>
      some { s with
        counted := { s.counted with loop := { s.counted.loop with scheduler := scheduler } } }
  | .poll i =>
      (s.counted.loop.pollTask i).map fun r =>
        { s with counted := { s.counted with loop := r.2 }, calls := (i, r.1) :: s.calls }
  | .callReturns =>
      match s.calls with
      | call :: rest =>
          some { s with counted := s.counted.returnTask call.1 call.2, calls := rest }
      | [] => none

/-- **The step lemma.** -/
theorem step_inv {s s' : HandleState S n} {e : HandleEvent S} (h : Inv s)
    (hstep : step s e = some s') : Inv s' := by
  cases e with
  | api call =>
      obtain ⟨hadvances, hissued⟩ := s.counted.perform_advances call
      obtain rfl := Option.some.inj hstep
      refine ⟨hadvances.counts h.counts, List.forall_mem_append.mpr ⟨?_, ?_⟩⟩
      · intro p hp
        obtain ⟨handle, hhandle, rfl⟩ := Option.map_eq_some_iff.mp (Option.mem_toList.mp hp)
        exact hissued handle hhandle h.counts
      · exact fun p hp => (h.issued p hp).advances hadvances
  | schedule scheduler =>
      obtain rfl := Option.some.inj hstep
      exact h.advances (CountedLoop.advances_same rfl rfl) rfl
  | poll i =>
      obtain ⟨r, hpoll, rfl⟩ := Option.map_eq_some_iff.mp hstep
      obtain ⟨p, henter, rfl⟩ := Option.map_eq_some_iff.mp hpoll
      obtain ⟨-, -, -, htask⟩ := CallbackTask.pollEnter_eq_some henter
      have hpolled : s.counted.Advances { s.counted with
          loop := s.counted.loop.putSlot i { s.counted.loop.slots i with task := p.2 } } := by
        refine CountedLoop.advances_task s.counted rfl ?_
        intro hc hused
        rw [htask]
        exact hc.active i hused
      exact h.advances hpolled rfl
  | callReturns =>
      simp only [step] at hstep
      split at hstep
      · obtain rfl := Option.some.inj hstep
        exact h.advances (CountedLoop.returnTask_advances s.counted _ _) rfl
      · cases hstep

/-- `enable`, `disable` and `remove` refuse a handle that is not valid. -/
def Refused (l : EventLoop S n) (h : EventHandle) : Prop :=
  l.enable h = (false, l) ∧ l.disable h = (false, l) ∧ l.remove h = (false, l)

theorem refused_of_invalid {l : EventLoop S n} {h : EventHandle} (hvalid : l.valid h ≠ true) :
    Refused l h :=
  ⟨if_neg hvalid, if_neg hvalid, if_neg hvalid⟩

end HandleState

/-- In every state of a run, a handle that a registration has returned is valid
just if its slot is in use and has been released a multiple of 65536 times
since. Until then it is refused, and refusing it changes nothing. -/
theorem handles_exact {S : Type} [NativeScheduler S] {n : Nat} (hn : n ≤ 0xfffe) (scheduler : S)
    {s : HandleState S n} {es : List (HandleEvent S)}
    (hrun : run HandleState.step (HandleState.fresh hn scheduler) es = some s) :
    s.counted.loop.valid {} = false
      ∧ ∀ handle k, (handle, k) ∈ s.issued →
        k ≤ s.counted.released handle.slot
        ∧ (s.counted.loop.valid handle = true
          ↔ (s.counted.loop.slots handle.slot).used = true
            ∧ (s.counted.released handle.slot - k) % 65536 = 0)
        ∧ (k + 1 ≤ s.counted.released handle.slot → s.counted.released handle.slot ≤ k + 65535 →
            HandleState.Refused s.counted.loop handle) := by
  have hinv := run_invariant (I := HandleState.Inv) (fun _ _ _ => HandleState.step_inv)
    (HandleState.inv_fresh hn scheduler) hrun
  refine ⟨rfl, ?_⟩
  intro handle k hissued
  have hvalid := hinv.valid_iff hissued
  refine ⟨(hinv.issued _ hissued).le, hvalid, fun hstale hwrapped => ?_⟩
  refine HandleState.refused_of_invalid ?_
  intro h
  have hcount := (hvalid.mp h).2
  omega

/-- A one-shot removes itself, returns, and leaves its slot to another. -/
theorem handles_exact_run :
    ∃ s : HandleState LibeventLoop 1,
      run HandleState.step (HandleState.fresh (by decide) { base := true })
          [.api (.register (.onDelayUs 10) { now := 0 }), .poll 0, .api (.remove ⟨0, 0⟩),
            .callReturns, .api (.register (.onRepeatUs 5) { now := 20 })] = some s
        ∧ s.counted.loop.valid ⟨0, 1⟩ = true ∧ HandleState.Refused s.counted.loop ⟨0, 0⟩ := by
  have hrun : run HandleState.step (HandleState.fresh (by decide) { base := true } :
      HandleState LibeventLoop 1)
      [.api (.register (.onDelayUs 10) { now := 0 }), .poll 0, .api (.remove ⟨0, 0⟩),
        .callReturns, .api (.register (.onRepeatUs 5) { now := 20 })] = some _ := rfl
  have hexact := handles_exact (by decide) ({ base := true } : LibeventLoop) hrun
  refine ⟨_, hrun, rfl, ?_⟩
  have hold := hexact.2 ⟨0, 0⟩ 0 (List.mem_cons_of_mem _ (List.mem_cons_self ..))
  exact hold.2.2 (Nat.le_refl _) (by decide)

/-! ## The platforms -/

/-- The loop of a platform's run, in a state of a run with counts. -/
def Covers {S : Type} {n : Nat} (loop : EventLoop S n) (calls : List Call)
    (s : HandleState S n) : Prop :=
  s.counted.loop = loop ∧ s.calls = calls.map fun call => (call.slot, call.callable)

namespace HandleState

variable {S : Type} {n : Nat} [NativeScheduler S]

theorem covers_api {loop : EventLoop S n} {calls : List Call} {s : HandleState S n}
    (h : Covers loop calls s) (call : ApiCall) :
    ∃ fs s', run step s fs = some s' ∧ Covers (call.perform loop).1 calls s' := by
  refine ⟨[.api call], _, rfl, ?_, h.2⟩
  rw [← h.1]
  exact s.counted.perform_loop call

theorem covers_schedule {loop : EventLoop S n} {calls : List Call} {s : HandleState S n}
    (h : Covers loop calls s) (scheduler : S) :
    ∃ fs s', run step s fs = some s' ∧ Covers { loop with scheduler := scheduler } calls s' :=
  ⟨[.schedule scheduler], _, rfl, by rw [← h.1], h.2⟩

/-- A poll that calls something, whatever the scheduler does around it. -/
theorem covers_poll {loop loop' : EventLoop S n} {calls : List Call} {s : HandleState S n}
    (h : Covers loop calls s) {i : Nat} {c : Callable} (hpoll : loop.pollTask i = some (c, loop'))
    (entry : Nat) (scheduler : S) :
    ∃ fs s', run step s fs = some s'
      ∧ Covers { loop' with scheduler := scheduler } (⟨entry, i, c⟩ :: calls) s' := by
  obtain ⟨rfl, hcalls⟩ := h
  let polled : HandleState S n :=
    { s with counted := { s.counted with loop := loop' }, calls := (i, c) :: s.calls }
  have hstep : step s (.poll i) = some polled := by
    rw [step, hpoll]
    rfl
  have hpolled : Covers loop' (⟨entry, i, c⟩ :: calls) polled := ⟨rfl, by simp [polled, hcalls]⟩
  obtain ⟨fs, s', hrun, hcovers⟩ := covers_schedule hpolled scheduler
  exact ⟨.poll i :: fs, s', run_cons.mpr ⟨polled, hstep, hrun⟩, hcovers⟩

theorem covers_return {loop : EventLoop S n} {call : Call} {rest : List Call}
    {s : HandleState S n} (h : Covers loop (call :: rest) s) (scheduler : S) :
    ∃ fs s', run step s fs = some s'
      ∧ Covers { loop.returnTask call.slot call.callable with scheduler := scheduler } rest s' := by
  obtain ⟨rfl, hcalls⟩ := h
  let returned : HandleState S n :=
    { s with
      counted := s.counted.returnTask call.slot call.callable
      calls := rest.map fun call => (call.slot, call.callable) }
  have hstep : step s .callReturns = some returned := by
    rw [step, hcalls]
    rfl
  have hreturned : Covers (s.counted.loop.returnTask call.slot call.callable) rest returned :=
    ⟨CountedLoop.returnTask_loop _ _ _, rfl⟩
  obtain ⟨fs, s', hrun, hcovers⟩ := covers_schedule hreturned scheduler
  exact ⟨.callReturns :: fs, s', run_cons.mpr ⟨returned, hstep, hrun⟩, hcovers⟩

end HandleState

/-- A run on libevent. -/
theorem covers_linux {n : Nat} (hn : n ≤ 0xfffe) (base : Bool) {s : LinuxState n}
    {es : List LinuxEvent} (hrun : run LinuxState.step (.fresh hn base) es = some s) :
    ∃ fs s', run HandleState.step (HandleState.fresh hn { base := base }) fs = some s'
      ∧ Covers s.loop s.frames s' := by
  have hfresh : Covers (LinuxState.fresh hn base).loop (LinuxState.fresh hn base).frames
      (HandleState.fresh hn { base := base }) := ⟨rfl, rfl⟩
  refine run_simulation (R := fun s s' => Covers s.loop s.frames s')
    ?_ hfresh hrun
  intro s t e s' h hstep
  cases e with
  | api call =>
      obtain rfl := Option.some.inj hstep
      exact HandleState.covers_api h call
  | dispatch reg now env =>
      obtain ⟨item, -, rfl⟩ := Option.map_eq_some_iff.mp hstep
      unfold LinuxState.dispatch
      dsimp only
      split
      · exact HandleState.covers_schedule h _
      · split
        · exact HandleState.covers_schedule h _
        · split
          · rename_i hpoll
            exact HandleState.covers_poll h hpoll _ _
          · exact HandleState.covers_schedule h _
  | callReturns env =>
      simp only [LinuxState.step] at hstep
      split at hstep
      · rename_i call rest hframes
        obtain rfl := Option.some.inj hstep
        rw [hframes] at h
        exact HandleState.covers_return h _
      · cases hstep
  | endRunOnce =>
      obtain rfl := Option.some.inj hstep
      exact HandleState.covers_schedule h _

/-- A run on the cooperative scheduler. -/
theorem covers_cooperative {n : Nat} (hn : n ≤ 0xfffe) {s : CooperativeState n}
    {es : List CooperativeEvent} (hrun : run CooperativeState.step (.fresh hn) es = some s) :
    ∃ fs s', run HandleState.step (HandleState.fresh hn {}) fs = some s'
      ∧ Covers s.loop s.calls s' := by
  have hfresh : Covers (CooperativeState.fresh hn).loop (CooperativeState.fresh hn).calls
      (HandleState.fresh hn {}) := ⟨rfl, rfl⟩
  refine run_simulation (R := fun s s' => Covers s.loop s.calls s')
    ?_ hfresh hrun
  intro s t e s' h hstep
  cases e with
  | api call =>
      simp only [CooperativeState.step] at hstep
      split at hstep
      · cases hstep
      · obtain rfl := Option.some.inj hstep
        exact HandleState.covers_api h call
  | runOnce now =>
      simp only [CooperativeState.step] at hstep
      split at hstep
      · cases hstep
      · obtain rfl := Option.some.inj hstep
        exact HandleState.covers_schedule h _
  | turn =>
      cases hp : s.passes with
      | nil => simp [CooperativeState.step, hp] at hstep
      | cons p rest =>
          simp only [CooperativeState.step, hp] at hstep
          split at hstep
          · rename_i hnone
            have hcall := Option.isNone_iff_eq_none.mp hnone
            have hcalls : s.calls = rest.filterMap CallPass.call := by
              simp [CooperativeState.calls, hp, hcall]
            have hnext : ({ p with index := p.index + 1 } :: rest).filterMap CallPass.call
                = rest.filterMap CallPass.call := by
              simp [hcall]
            rw [hcalls] at h
            unfold CooperativeState.turn at hstep
            dsimp only at hstep
            split at hstep
            · split at hstep
              · split at hstep
                · rename_i hpoll
                  obtain rfl := Option.some.inj hstep
                  exact HandleState.covers_poll h hpoll _ _
                · obtain ⟨l', -, rfl⟩ := Option.map_eq_some_iff.mp hstep
                  rw [CooperativeState.calls, hnext]
                  exact HandleState.covers_schedule h l'
              · obtain rfl := Option.some.inj hstep
                rw [CooperativeState.calls, hnext]
                exact HandleState.covers_schedule h _
            · obtain rfl := Option.some.inj hstep
              exact HandleState.covers_schedule h _
          · cases hstep
  | callReturns =>
      cases hp : s.passes with
      | nil => simp [CooperativeState.step, hp] at hstep
      | cons p rest =>
          obtain ⟨now, i, call⟩ := p
          cases call with
          | none => simp [CooperativeState.step, hp] at hstep
          | some call =>
              simp only [CooperativeState.step, hp] at hstep
              obtain ⟨l', -, rfl⟩ := Option.map_eq_some_iff.mp hstep
              have hcalls : s.calls = call :: rest.filterMap CallPass.call := by
                simp [CooperativeState.calls, hp]
              rw [hcalls] at h
              exact HandleState.covers_return h l'

end AsyncEventLoop
