import AsyncEventLoop.ArduinoLoop
import AsyncEventLoop.EventLoopWiring
import AsyncEventLoop.Runs

/-!
# The event loop on the cooperative scheduler

On Arduino the native scheduler of an `EventLoop` is an `ArduinoLoopImpl`
with as many cells as there are callback slots. A run interleaves the
application's calls with the turns of the loop in `run_once`: one event
for each turn, one for the return of a callable that a turn started, and
one for each call, which comes either from outside `run_once` or from the
callable that is executing.

The result, `delays_fire_once`, is about runs in which a registration from
inside a callable finds the cells up to the polled one live (`addInPlace`),
as in `ArduinoRuns`.
-/

namespace AsyncEventLoop

open Runs

/-! ## The scheduler -/

namespace ArduinoLoop

variable {n : Nat}

/-- Every cell in use is live or has lost its task. -/
structure Tidy (l : ArduinoLoop n) : Prop where
  bounded : l.taskCount ≤ n
  live : ∀ slot ∈ l.entries, slot.task.isSome = true → slot.live = true

/-- The live entries as the event loop knows them. -/
def liveEntry (l : ArduinoLoop n) (reg task : Nat) (once : Bool) : Prop :=
  ∃ slot ∈ l.liveSlots, slot.reg = reg ∧ slot.task = some task ∧ slot.periodic = !once

theorem Adds.tidy {l l' : ArduinoLoop n} {ok : Bool} {slot : TaskSlot} (h : Adds l l' ok slot)
    (hlive : slot.live = true) : Tidy l' := by
  refine ⟨h.bounded, ?_⟩
  intro x hx _
  rw [h.entries, List.mem_append] at hx
  rcases hx with hx | hx
  · exact (ArduinoLoop.mem_liveSlots.mp hx).2
  · cases ok
    · cases hx
    · rw [List.mem_singleton.mp hx]
      exact hlive

theorem Tidy.compact {l : ArduinoLoop n} (h : Tidy l) : Tidy l.compactInactive := by
  obtain ⟨hent, hle, -⟩ := compactInactive_spec h.bounded
  refine ⟨hle, ?_⟩
  intro x hx _
  rw [hent] at hx
  exact (mem_liveSlots.mp hx).2

theorem Tidy.mark {l : ArduinoLoop n} (h : Tidy l) (task : Nat) : Tidy (l.markRemoved task) := by
  obtain ⟨hent, hcount, -⟩ := markRemoved_spec h.bounded task
  refine ⟨hcount ▸ h.bounded, ?_⟩
  intro x hx htask
  rw [hent, List.mem_map] at hx
  obtain ⟨y, hy, rfl⟩ := hx
  unfold TaskSlot.markedFor at htask ⊢
  split at htask
  · cases htask
  · rename_i hne
    rw [if_neg hne]
    exact h.live y hy htask

theorem Tidy.remove {l : ArduinoLoop n} (h : Tidy l) (task : Nat) : Tidy (l.remove task).2 := by
  cases hrun : l.running with
  | true => exact remove_running hrun task ▸ h.mark task
  | false => exact remove_idle hrun task ▸ (h.mark task).compact

theorem mem_liveSlots_remove {l : ArduinoLoop n} (hb : l.taskCount ≤ n) {task : Nat}
    {x : TaskSlot} :
    x ∈ (l.remove task).2.liveSlots ↔ x ∈ l.liveSlots ∧ x.task ≠ some task := by
  cases hrun : l.running with
  | true => rw [remove_running hrun, mem_liveSlots_mark hb]
  | false =>
      have hmark : (l.markRemoved task).taskCount ≤ n := hb
      rw [remove_idle hrun, compactInactive_liveSlots hmark, mem_liveSlots_mark hb]

theorem Tidy.finish {l l' : ArduinoLoop n} (h : Tidy l) {now : UInt64} {slot slot' : TaskSlot}
    {i : Nat} (hslot : l.entries[i]? = some slot) (hfin : Finishes now slot slot')
    (hent : l'.entries = l.entries.set i slot') (hcount : l'.taskCount = l.taskCount) :
    Tidy l' := by
  refine ⟨hcount ▸ h.bounded, ?_⟩
  intro x hx htask
  rw [hent] at hx
  rcases List.mem_or_eq_of_mem_set hx with hx | rfl
  · exact h.live x hx htask
  · cases hfin with
    | gone => exact h.live _ (List.mem_of_getElem? hslot) htask
    | rearmed hlive => exact hlive
    | fired => cases htask

instance : NativeScheduler (ArduinoLoop n) where
  addPeriodic l task periodUs reg env := l.addPeriodic task periodUs env.now reg
  addOneShot l task dueUs reg _ := l.addOneShot task dueUs reg
  addReadableFd := none
  remove l task := l.remove task

theorem Adds.schedules {l : ArduinoLoop n} {r : Bool × ArduinoLoop n} {slot : TaskSlot}
    (h : Adds l r.2 r.1 slot) (hlive : slot.live = true) {reg task : Nat} {once : Bool}
    (hreg : slot.reg = reg) (htask : slot.task = some task) (honce : slot.periodic = !once) :
    Schedules Tidy liveEntry l r reg task once := by
  refine ⟨h.tidy hlive, ?_⟩
  intro q t o
  constructor
  · rintro ⟨x, hx, hxreg, hxtask, hxonce⟩
    rcases (h.mem_liveSlots hlive).mp hx with hx | ⟨hok, rfl⟩
    · exact Or.inl ⟨x, hx, hxreg, hxtask, hxonce⟩
    · refine Or.inr ⟨hok, hxreg.symm.trans hreg, ?_, ?_⟩
      · exact Option.some.inj (hxtask.symm.trans htask)
      · exact Bool.not_inj (hxonce.symm.trans honce)
  · rintro (⟨x, hx, hx'⟩ | ⟨hok, rfl, rfl, rfl⟩)
    · exact ⟨x, (h.mem_liveSlots hlive).mpr (Or.inl hx), hx'⟩
    · exact ⟨slot, (h.mem_liveSlots hlive).mpr (Or.inr ⟨hok, rfl⟩), hreg, htask, honce⟩

theorem remove_true {l : ArduinoLoop n} (h : Tidy l) {task : Nat} :
    (l.remove task).1 = true ↔ ∃ q o, liveEntry l q task o := by
  have hremoved : (l.remove task).1 = true ↔ ∃ slot ∈ l.entries, slot.task = some task := by
    simp [remove, entries]
  rw [hremoved]
  constructor
  · rintro ⟨slot, hslot, htask⟩
    have hlive := h.live slot hslot (by simp [htask])
    exact ⟨slot.reg, !slot.periodic, slot, mem_liveSlots.mpr ⟨hslot, hlive⟩, rfl, htask, by simp⟩
  · rintro ⟨q, o, slot, hslot, -, htask, -⟩
    exact ⟨slot, (mem_liveSlots.mp hslot).1, htask⟩

instance : LawfulScheduler (ArduinoLoop n) where
  Ok := Tidy
  live := liveEntry
  addPeriodic_law l task periodUs reg env h :=
    (addPeriodic_adds h.bounded task periodUs env.now reg).schedules rfl rfl rfl rfl
  addOneShot_law l task dueUs reg _ h :=
    (addOneShot_adds h.bounded task dueUs reg).schedules rfl rfl rfl rfl
  addReadableFd_law _ h := by cases h
  remove_law l task h := by
    refine ⟨h.remove task, remove_true h, ?_⟩
    intro q t o
    constructor
    · rintro ⟨x, hx, hreg, htask, honce⟩
      obtain ⟨hx, hne⟩ := (mem_liveSlots_remove h.bounded).mp hx
      exact ⟨⟨x, hx, hreg, htask, honce⟩, fun heq => hne (heq ▸ htask)⟩
    · rintro ⟨⟨x, hx, hreg, htask, honce⟩, hne⟩
      refine ⟨x, (mem_liveSlots_remove h.bounded).mpr ⟨hx, fun heq => hne ?_⟩, hreg, htask, honce⟩
      exact Option.some.inj (htask.symm.trans heq)

end ArduinoLoop

/-! ## Runs -/

/-- The locals of a `run_once`: its clock reading, the cell its loop has come
to, and the callable it has called there, if it waits for one. -/
structure CallPass where
  now : UInt64
  index : Nat
  call : Option Call
  deriving DecidableEq

structure CooperativeState (MaxCallbacks : Nat) where
  loop : EventLoop (ArduinoLoop MaxCallbacks) MaxCallbacks
  passes : List CallPass := []
  clock : UInt64 := 0
  log : List CallNote := []

inductive CooperativeEvent where
  | api (call : ApiCall)
  | runOnce (now : UInt64)
  | turn
  | callReturns

/-- The clock reading of a call that reads the clock. -/
def ApiCall.now : ApiCall → Option UInt64
  | .register _ env => some env.now
  | _ => none

namespace CooperativeState

variable {n : Nat}

/-- A freshly constructed event loop. -/
def fresh (h : n ≤ 0xfffe) : CooperativeState n := { loop := { scheduler := {}, capacity := h } }

/-- The application is running: outside `run_once`, or in a callable. -/
def mayCall (s : CooperativeState n) : Bool := s.passes.head?.all fun p => p.call.isSome

def withScheduler (s : CooperativeState n) (l : ArduinoLoop n) : CooperativeState n :=
  { s with loop := { s.loop with scheduler := l } }

/-- One turn of the loop in `run_once`, or what follows its last one. -/
def turn (s : CooperativeState n) (p : CallPass) (rest : List CallPass) :
    Option (CooperativeState n) :=
  let l := s.loop.scheduler
  if p.index < l.taskCount then
    let slot := l.tasks[p.index]?.getD {}
    if slot.isDue p.now then
      let task := slot.task.getD 0
      match s.loop.pollTask task with
      | some (c, loop) =>
          some { s with
            loop := loop
            passes := { p with call := some ⟨slot.reg, task, c⟩ } :: rest
            log := .invoked slot.reg c (s.loop.valid c.handle)
              (s.loop.slots c.handle.slot).task.enabled p.now :: s.log }
      | none =>
          (l.afterPoll p.now p.index).map fun l' =>
            { s.withScheduler l' with passes := { p with index := p.index + 1 } :: rest }
    else some { s with passes := { p with index := p.index + 1 } :: rest }
  else some { s.withScheduler l.endPass with passes := rest }

/-- One event. A clock reading below an earlier one does not happen. -/
def step (s : CooperativeState n) : CooperativeEvent → Option (CooperativeState n)
  | .api call =>
      if !s.mayCall || call.now.any (· < s.clock) then none
      else
        let r := call.perform s.loop
        some { s with loop := r.1, clock := call.now.getD s.clock, log := r.2 ++ s.log }
  | .runOnce now =>
      if !s.mayCall || decide (now < s.clock) then none
      else
        some { s.withScheduler s.loop.scheduler.beginPass with
          passes := ⟨now, 0, none⟩ :: s.passes, clock := now }
  | .turn =>
      match s.passes with
      | p :: rest => if p.call.isNone then turn s p rest else none
      | [] => none
  | .callReturns =>
      match s.passes with
      | ⟨now, i, some call⟩ :: rest =>
          let loop := s.loop.returnTask call.slot call.callable
          (loop.scheduler.afterPoll now i).map fun l =>
            { s with
              loop := { loop with scheduler := l }, passes := ⟨now, i + 1, none⟩ :: rest }
      | _ => none

/-- No callable calls `run_once`. -/
def flat (s : CooperativeState n) : CooperativeEvent → Bool
  | .runOnce _ => s.passes.isEmpty
  | _ => true

/-- A registration made by a callable, if it gets a slot, finds every cell up to
the polled one live, so that compacting leaves them in place. -/
def addInPlace (s : CooperativeState n) (e : CooperativeEvent) : Bool :=
  match e, s.passes with
  | .api (.register r _), p :: _ =>
      (s.loop.allocateCallback r.delay.isSome).1.isNone
        || (s.loop.scheduler.entries.take (p.index + 1)).all TaskSlot.live
  | _, _ => true

/-! ## What a call does to the cells -/

/-- The cell that a registration adds. -/
theorem add_adds (r : Registration) (env : NativeEnv) {l : ArduinoLoop n}
    (hb : l.taskCount ≤ n) (task reg : Nat) :
    ∃ slot : TaskSlot, ArduinoLoop.Adds l (r.add env l task reg).2 (r.add env l task reg).1 slot
      ∧ slot.reg = reg ∧ slot.live = true ∧ slot.periodic = !r.delay.isSome
      ∧ ∀ d, r.delay = some d → slot.nextDueUs = EventLoop.dueUs d env.now := by
  cases r with
  | onRepeatUs periodUs =>
      exact ⟨_, ArduinoLoop.addPeriodic_adds hb task periodUs env.now reg, rfl, rfl, rfl, nofun⟩
  | onDelayUs delayUs =>
      refine ⟨_, ArduinoLoop.addOneShot_adds hb task _ reg, rfl, rfl, rfl, ?_⟩
      rintro d ⟨⟩
      rfl
  | onBytesReady fd pollUs =>
      exact ⟨_, ArduinoLoop.addPeriodic_adds hb task _ env.now reg, rfl, rfl, rfl, nofun⟩
  | onPinEvent fd pollUs =>
      exact ⟨_, ArduinoLoop.addPeriodic_adds hb task _ env.now reg, rfl, rfl, rfl, nofun⟩

/-- What a call does: it leaves the scheduler alone, or it removes the cells of
one task, or it adds a cell under the next registration number. -/
inductive Performs (l : EventLoop (ArduinoLoop n) n) (call : ApiCall) :
    EventLoop (ArduinoLoop n) n → List CallNote → Prop where
  | kept {l' : EventLoop (ArduinoLoop n) n} {notes : List CallNote}
      (hsched : l'.scheduler = l.scheduler) (hreg : l'.nextReg = l.nextReg)
      (hnotes : ∀ note ∈ notes, ∃ h, note = .removed h) : Performs l call l' notes
  | removed {l' : EventLoop (ArduinoLoop n) n} {notes : List CallNote} (task : Nat)
      (hsched : l'.scheduler = (l.scheduler.remove task).2) (hreg : l'.nextReg = l.nextReg)
      (hnotes : ∀ note ∈ notes, ∃ h, note = .removed h) : Performs l call l' notes
  | added {l' : EventLoop (ArduinoLoop n) n} {notes : List CallNote} (r : Registration)
      (env : NativeEnv) (ok : Bool) (slot : TaskSlot) (hcall : call = .register r env)
      (halloc : (l.allocateCallback r.delay.isSome).1.isSome = true)
      (hadds : ArduinoLoop.Adds l.scheduler l'.scheduler ok slot) (hslot : slot.reg = l.nextReg)
      (hlive : slot.live = true) (hper : slot.periodic = !r.delay.isSome)
      (hdue : ∀ d, r.delay = some d → slot.nextDueUs = EventLoop.dueUs d env.now)
      (hreg : l'.nextReg = l.nextReg + 1)
      (hnotes : ∀ note ∈ notes, ∃ h,
        note = .registered l.nextReg h (r.delay.map fun d => (env.now, d))) :
      Performs l call l' notes

theorem perform_spec {l : EventLoop (ArduinoLoop n) n} (hb : l.scheduler.taskCount ≤ n)
    (call : ApiCall) : Performs l call (call.perform l).1 (call.perform l).2 := by
  have henabled : ∀ h b, (l.setEnabled h b).2.scheduler = l.scheduler
      ∧ (l.setEnabled h b).2.nextReg = l.nextReg := by
    intro h b
    unfold EventLoop.setEnabled
    split <;> exact ⟨rfl, rfl⟩
  cases call with
  | register r env =>
      have hregister := EventLoop.register_scheduler l r.delay.isSome (r.add env)
      rw [← Registration.perform_eq] at hregister
      simp only [ApiCall.perform]
      rcases hregister with ⟨hnone, hsched, hreg⟩ | ⟨halloc, i, hok, hsched, hreg⟩
      · refine .kept hsched hreg ?_
        simp [hnone]
      · obtain ⟨slot, hadds, hslot, hlive, hper, hdue⟩ := add_adds r env hb i l.nextReg
        rw [← hsched, ← hok] at hadds
        refine .added r env _ slot rfl halloc hadds hslot hlive hper hdue hreg ?_
        cases (r.perform l env).1 with
        | none => exact List.forall_mem_nil _
        | some h =>
            intro note hnote
            exact ⟨h, List.mem_singleton.mp hnote⟩
  | enable h => exact .kept (henabled h true).1 (henabled h true).2 (List.forall_mem_nil _)
  | disable h => exact .kept (henabled h false).1 (henabled h false).2 (List.forall_mem_nil _)
  | remove h =>
      have hreleased : ∀ (m : EventLoop (ArduinoLoop n) n) h,
          (m.releaseRegistered h).scheduler = m.scheduler
            ∧ (m.releaseRegistered h).nextReg = m.nextReg := by
        intro m h
        unfold EventLoop.releaseRegistered
        split
        · exact ⟨rfl, rfl⟩
        · split <;> exact ⟨rfl, rfl⟩
      simp only [ApiCall.perform, EventLoop.remove]
      split
      · split
        · refine .removed h.slot (hreleased _ h).1 (hreleased _ h).2 ?_
          simp
        · exact .removed h.slot rfl rfl (List.forall_mem_nil _)
      · exact .kept rfl rfl (List.forall_mem_nil _)

/-! ## The properties -/

/-- A callable registered by `on_delay_us` is started at most once, and not
before its delay has passed. -/
def NoEarlyFiring (log : List CallNote) : Prop :=
  ∀ reg h r d, .registered reg h (some (r, d)) ∈ log →
    invocations log reg ≤ 1 ∧ ∀ entry c v e now, .invoked entry c v e now ∈ log → c.reg = reg →
      min (r.toNat + d.toNat) (2 ^ 64 - 1) ≤ now.toNat

/-- A callable is started only for the scheduler entry of its own
registration. -/
def NoMisdirectedFiring (log : List CallNote) : Prop :=
  ∀ entry c v e now, .invoked entry c v e now ∈ log → entry = c.reg

/-! ## The invariant -/

/-- The callables that are executing, innermost first. -/
def calls (s : CooperativeState n) : List Call := s.passes.filterMap CallPass.call

/-- A pass that waits for a callable finds the slot it polled in the cell where
it polled it, with its task or without one. -/
def Waits (l : ArduinoLoop n) (p : CallPass) : Prop :=
  ∀ call, p.call = some call → ∃ slot, l.entries[p.index]? = some slot
    ∧ slot.reg = call.entry ∧ slot.periodic = (!call.callable.oneShot)
    ∧ ∀ task ∈ slot.task, task = call.slot

/-- A live cell that `on_delay_us` made is due when it should be, and has not
fired yet unless it is firing. -/
def Unfired (log : List CallNote) (firing : List Call) (slot : TaskSlot) : Prop :=
  ∀ h r d, .registered slot.reg h (some (r, d)) ∈ log →
    slot.periodic = false ∧ slot.nextDueUs = EventLoop.dueUs d r
      ∧ (invocations log slot.reg = 0 ∨ ∃ call ∈ firing, call.entry = slot.reg)

structure Inv (s : CooperativeState n) : Prop where
  wired : s.loop.Wired s.calls
  numbered : ArduinoLoop.Numbered s.loop.scheduler s.loop.nextReg
  pass : s.passes = [] ∨ ∃ p, s.passes = [p] ∧ s.loop.scheduler.running = true
    ∧ Waits s.loop.scheduler p
  fresh : ∀ note ∈ s.log, ∀ reg ∈ note.reg, reg < s.loop.nextReg
  unfired : ∀ slot ∈ s.loop.scheduler.liveSlots, Unfired s.log s.calls slot
  early : NoEarlyFiring s.log
  directed : NoMisdirectedFiring s.log

theorem inv_fresh (h : n ≤ 0xfffe) : Inv (fresh h) := by
  have hentries : ({} : ArduinoLoop n).entries = [] := by
    rw [ArduinoLoop.entries, FixedArray.front_zero]
  have hlive : ∀ slot, slot ∉ ({} : ArduinoLoop n).liveSlots := by
    intro slot hslot
    rw [ArduinoLoop.liveSlots, hentries] at hslot
    cases hslot
  have htidy : ({} : ArduinoLoop n).Tidy := by
    refine ⟨Nat.zero_le n, ?_⟩
    intro slot hslot
    rw [hentries] at hslot
    cases hslot
  refine ⟨EventLoop.wired_fresh h htidy ?_, ArduinoLoop.numbered_init, Or.inl rfl,
    List.forall_mem_nil _, fun slot hslot => absurd hslot (hlive slot), ?_, ?_⟩
  · rintro q t o ⟨slot, hslot, -⟩
    exact hlive slot hslot
  · intro reg handle r d hmem
    cases hmem
  · intro entry c valid enabled now hmem
    cases hmem

/-! ## Calls keep the invariant -/

/-- A longer log of which both properties hold, if the new notes start nothing
and register only what has not been started. -/
theorem timely_quiet {notes log : List CallNote} (hearly : NoEarlyFiring log)
    (hdirected : NoMisdirectedFiring log)
    (hquiet : ∀ entry c v e now, .invoked entry c v e now ∉ notes)
    (hnew : ∀ reg h d, .registered reg h (some d) ∈ notes →
      ∀ entry c v e now, .invoked entry c v e now ∈ log → c.reg ≠ reg) :
    NoEarlyFiring (notes ++ log) ∧ NoMisdirectedFiring (notes ++ log) := by
  have hold : ∀ {entry c v e now}, .invoked entry c v e now ∈ notes ++ log →
      .invoked entry c v e now ∈ log := fun hmem =>
    (List.mem_append.mp hmem).resolve_left (hquiet _ _ _ _ _)
  refine ⟨?_, fun entry c v e now hmem => hdirected _ _ _ _ _ (hold hmem)⟩
  intro reg h r d hreg
  rw [invocations_quiet hquiet]
  rcases List.mem_append.mp hreg with hreg | hreg
  · have hnone := hnew reg h (r, d) hreg
    rw [invocations_eq_zero hnone]
    exact ⟨Nat.zero_le 1, fun entry c v e now hmem heq =>
      absurd heq (hnone entry c v e now (hold hmem))⟩
  · obtain ⟨hone, hdue⟩ := hearly reg h r d hreg
    exact ⟨hone, fun entry c v e now hmem => hdue entry c v e now (hold hmem)⟩

/-- Notes of removals are neither registrations nor starts. -/
theorem removed_notes {notes : List CallNote} (h : ∀ note ∈ notes, ∃ h, note = .removed h) :
    (∀ entry c v e now, .invoked entry c v e now ∉ notes)
      ∧ (∀ reg h d, .registered reg h d ∉ notes) ∧ ∀ note ∈ notes, note.reg = none := by
  refine ⟨?_, ?_, ?_⟩
  · intro entry c v e now hmem
    obtain ⟨_, heq⟩ := h _ hmem
    cases heq
  · intro reg handle d hmem
    obtain ⟨_, heq⟩ := h _ hmem
    cases heq
  · intro note hmem
    obtain ⟨_, rfl⟩ := h _ hmem
    rfl

/-- A removal while a pass is running leaves the cell the pass waits for. -/
theorem Waits.remove {l : ArduinoLoop n} {p : CallPass} (h : Waits l p) (hb : l.taskCount ≤ n)
    (hrun : l.running = true) (task : Nat) : Waits (l.remove task).2 p := by
  obtain ⟨hent, -, -⟩ := ArduinoLoop.markRemoved_spec hb task
  rw [ArduinoLoop.remove_running hrun]
  intro c hc
  obtain ⟨slot, hslot, hentry, hper, htask⟩ := h c hc
  refine ⟨slot.markedFor task, ?_, by rw [TaskSlot.markedFor_reg, hentry], ?_, ?_⟩
  · rw [hent, List.getElem?_map, hslot]
    rfl
  · rw [← hper]
    unfold TaskSlot.markedFor
    split <;> rfl
  · intro t ht
    unfold TaskSlot.markedFor at ht
    split at ht
    · cases ht
    · exact htask t ht

/-- A call that registers nothing and adds no cell. -/
theorem Inv.unregistered {s : CooperativeState n} (h : Inv s) {l' : EventLoop (ArduinoLoop n) n}
    {notes : List CallNote} (clock : UInt64) (hwired : l'.Wired s.calls)
    (hnotes : ∀ note ∈ notes, ∃ h, note = .removed h) (hreg : l'.nextReg = s.loop.nextReg)
    (hnumbered : ArduinoLoop.Numbered l'.scheduler s.loop.nextReg)
    (hlive : ∀ x ∈ l'.scheduler.liveSlots, x ∈ s.loop.scheduler.liveSlots)
    (hpass : ∀ p, s.passes = [p] → s.loop.scheduler.running = true → Waits s.loop.scheduler p →
      l'.scheduler.running = true ∧ Waits l'.scheduler p) :
    Inv { s with loop := l', clock := clock, log := notes ++ s.log } := by
  obtain ⟨hquiet, hnone, hnoreg⟩ := removed_notes hnotes
  obtain ⟨hearly, hdirected⟩ := timely_quiet h.early h.directed hquiet
    fun reg h d hmem => absurd hmem (hnone reg h (some d))
  refine ⟨hwired, hreg ▸ hnumbered, ?_, ?_, ?_, hearly, hdirected⟩
  · rcases h.pass with hnil | ⟨p, hp, hrun, hwaits⟩
    · exact Or.inl hnil
    · exact Or.inr ⟨p, hp, hpass p hp hrun hwaits⟩
  · intro note hnote reg hnoteReg
    rcases List.mem_append.mp hnote with hnote | hnote
    · rw [hnoreg note hnote] at hnoteReg
      cases hnoteReg
    · exact hreg ▸ h.fresh note hnote reg hnoteReg
  · intro slot hslot handle r d hmem
    have hmem := (List.mem_append.mp hmem).resolve_left (hnone _ _ _)
    dsimp only
    rw [invocations_quiet hquiet]
    exact h.unfired slot (hlive slot hslot) handle r d hmem

/-- A registration, accepted or refused, that moves no cell a pass waits for. -/
theorem Inv.registered {s : CooperativeState n} (h : Inv s) {l' : EventLoop (ArduinoLoop n) n}
    {notes : List CallNote} (clock : UInt64) {r : Registration} {env : NativeEnv} {ok : Bool}
    {slot : TaskSlot} (hwired : l'.Wired s.calls)
    (hadds : ArduinoLoop.Adds s.loop.scheduler l'.scheduler ok slot)
    (hslot : slot.reg = s.loop.nextReg) (hlive : slot.live = true)
    (hper : slot.periodic = !r.delay.isSome)
    (hdue : ∀ d, r.delay = some d → slot.nextDueUs = EventLoop.dueUs d env.now)
    (hreg : l'.nextReg = s.loop.nextReg + 1)
    (hnotes : ∀ note ∈ notes, ∃ h,
      note = .registered s.loop.nextReg h (r.delay.map fun d => (env.now, d)))
    (hplace : ∀ p, s.passes = [p] →
      (s.loop.scheduler.entries.take (p.index + 1)).all TaskSlot.live = true) :
    Inv { s with loop := l', clock := clock, log := notes ++ s.log } := by
  have hquiet : ∀ entry c v e now, .invoked entry c v e now ∉ notes := by
    intro entry c v e now hmem
    obtain ⟨_, heq⟩ := hnotes _ hmem
    cases heq
  have hnever : ∀ entry c v e now, .invoked entry c v e now ∈ s.log →
      c.reg ≠ s.loop.nextReg := fun entry c v e now hmem =>
    Nat.ne_of_lt (h.fresh _ hmem c.reg rfl)
  obtain ⟨hearly, hdirected⟩ := timely_quiet h.early h.directed hquiet
    fun reg handle d hmem => by
      obtain ⟨_, heq⟩ := hnotes _ hmem
      rw [(CallNote.registered.inj heq).1]
      exact hnever
  constructor
  case wired => exact hwired
  case early => exact hearly
  case directed => exact hdirected
  case numbered =>
    rw [hreg]
    exact h.numbered.add hadds hslot
  case pass =>
    rcases h.pass with hnil | ⟨p, hp, hrun, hwaits⟩
    · exact Or.inl hnil
    · refine Or.inr ⟨p, hp, hadds.running.trans hrun, ?_⟩
      intro c hc
      obtain ⟨x, hx, hx'⟩ := hwaits c hc
      exact ⟨x, hadds.getElem? (hplace p hp) hx, hx'⟩
  case fresh =>
    intro note hnote reg hnoteReg
    dsimp only
    rw [hreg]
    rcases List.mem_append.mp hnote with hnote | hnote
    · obtain ⟨_, rfl⟩ := hnotes note hnote
      rw [← Option.some.inj hnoteReg]
      exact Nat.lt_succ_self _
    · exact Nat.lt_succ_of_lt (h.fresh note hnote reg hnoteReg)
  case unfired =>
    intro x hx handle r' d' hmem
    dsimp only
    rw [invocations_quiet hquiet]
    rcases (hadds.mem_liveSlots hlive).mp hx with hx | ⟨-, rfl⟩
    · refine h.unfired x hx handle r' d' ((List.mem_append.mp hmem).resolve_left ?_)
      intro hnew
      obtain ⟨_, heq⟩ := hnotes _ hnew
      have hlt := h.numbered.fresh x (ArduinoLoop.mem_liveSlots.mp hx).1
      rw [(CallNote.registered.inj heq).1] at hlt
      exact Nat.lt_irrefl _ hlt
    · rw [hslot] at hmem ⊢
      rcases List.mem_append.mp hmem with hnew | hold
      · obtain ⟨_, heq⟩ := hnotes _ hnew
        obtain ⟨d, hd, hpair⟩ := Option.map_eq_some_iff.mp (CallNote.registered.inj heq).2.2.symm
        obtain ⟨rfl, rfl⟩ := Prod.mk.inj hpair
        refine ⟨by rw [hper, hd]; rfl, hdue d hd, Or.inl (invocations_eq_zero hnever)⟩
      · exact absurd (h.fresh _ hold _ rfl) (Nat.lt_irrefl _)

theorem api_inv {s : CooperativeState n} (h : Inv s) (call : ApiCall) (clock : UInt64)
    (hplace : s.addInPlace (.api call) = true) :
    Inv { s with
      loop := (call.perform s.loop).1, clock := clock
      log := (call.perform s.loop).2 ++ s.log } := by
  have hb := h.numbered.bounded
  have hwired := h.wired.perform call
  cases perform_spec hb call with
  | kept hsched hreg hnotes =>
      refine h.unregistered clock hwired hnotes hreg (hsched ▸ h.numbered)
        (fun x hx => hsched ▸ hx) ?_
      intro p _ hrun hwaits
      rw [hsched]
      exact ⟨hrun, hwaits⟩
  | removed task hsched hreg hnotes =>
      have hnumbered : ArduinoLoop.Numbered (s.loop.scheduler.remove task).2 s.loop.nextReg := by
        cases hrun : s.loop.scheduler.running with
        | true => exact ArduinoLoop.remove_running hrun task ▸ h.numbered.mark task
        | false => exact ArduinoLoop.remove_idle hrun task ▸ (h.numbered.mark task).compact
      refine h.unregistered clock hwired hnotes hreg (hsched ▸ hnumbered) ?_ ?_
      · intro x hx
        rw [hsched] at hx
        exact ((ArduinoLoop.mem_liveSlots_remove hb).mp hx).1
      · intro p _ hrun hwaits
        have hwaits' := hwaits.remove hb hrun task
        rw [hsched]
        refine ⟨?_, hwaits'⟩
        rw [ArduinoLoop.remove_running hrun]
        exact hrun
  | added r env ok slot hcall halloc hadds hslot hlive hper hdue hreg hnotes =>
      refine h.registered clock hwired hadds hslot hlive hper hdue hreg hnotes ?_
      intro p hp
      subst hcall
      simpa [addInPlace, hp, Option.isSome_iff_ne_none.mp halloc] using hplace

/-! ## The pass keeps the invariant -/

/-- The entries behind an `afterPoll`: the one it looked at is gone if it was a
one-shot. -/
theorem liveEntry_finish {l l' : ArduinoLoop n} {bound : Nat} (h : ArduinoLoop.Numbered l bound)
    {now : UInt64} {slot slot' : TaskSlot} {i : Nat} (hslot : l.entries[i]? = some slot)
    (hfin : ArduinoLoop.Finishes now slot slot') (hent : l'.entries = l.entries.set i slot')
    (q t : Nat) (o : Bool) :
    l'.liveEntry q t o ↔ l.liveEntry q t o ∧ ¬ (slot.periodic = false ∧ q = slot.reg) := by
  have hmem : ∀ x, x ∈ l'.liveSlots ↔ (x ∈ l.liveSlots ∧ x.reg ≠ slot.reg)
      ∨ (slot.live = true ∧ slot.periodic = true ∧ x = slot') :=
    fun x => h.mem_live_finish hslot hfin hent
  obtain ⟨hreg, hper⟩ := hfin.same
  have hslotMem := List.mem_of_getElem? hslot
  constructor
  · rintro ⟨x, hx, rfl, htask, honce⟩
    rcases (hmem x).mp hx with ⟨hx, hne⟩ | ⟨hlive, hslotPer, rfl⟩
    · exact ⟨⟨x, hx, rfl, htask, honce⟩, fun ⟨_, heq⟩ => hne heq⟩
    · refine ⟨⟨slot, ArduinoLoop.mem_liveSlots.mpr ⟨hslotMem, hlive⟩, hreg.symm, ?_, ?_⟩, ?_⟩
      · cases hfin with
        | gone => exact htask
        | rearmed => exact htask
        | fired => cases htask
      · exact hper.symm.trans honce
      · rw [hslotPer]
        exact fun ⟨heq, _⟩ => nomatch heq
  · rintro ⟨⟨x, hx, rfl, htask, honce⟩, hnot⟩
    by_cases hxreg : x.reg = slot.reg
    · obtain ⟨hxent, hxlive⟩ := ArduinoLoop.mem_liveSlots.mp hx
      obtain rfl := h.unique hxent hslotMem hxreg
      have hxper : x.periodic = true := by
        cases hp : x.periodic with
        | true => rfl
        | false => exact absurd ⟨hp, rfl⟩ hnot
      refine ⟨slot', (hmem slot').mpr (Or.inr ⟨hxlive, hxper, rfl⟩), hreg, ?_, hper.trans honce⟩
      cases hfin with
      | gone => exact htask
      | rearmed => exact htask
      | fired _ hfired =>
          rw [hxper] at hfired
          cases hfired
    · exact ⟨x, (hmem x).mpr (Or.inl ⟨hx, hxreg⟩), rfl, htask, honce⟩

/-- The polled cell has been finished, and the callables of the pass are
through. -/
theorem finish_inv {s : CooperativeState n} (h : Inv s) {now now' : UInt64} {i : Nat}
    {l' : ArduinoLoop n} {slot slot' : TaskSlot} {loop : EventLoop (ArduinoLoop n) n}
    (hrun : l'.running = true) (hslot : s.loop.scheduler.entries[i]? = some slot)
    (hfin : ArduinoLoop.Finishes now' slot slot')
    (hent : l'.entries = s.loop.scheduler.entries.set i slot')
    (hcount : l'.taskCount = s.loop.scheduler.taskCount) (hsched : loop.scheduler = l')
    (hreg : loop.nextReg = s.loop.nextReg) (hwired : loop.Wired [])
    (hcalls : ∀ call ∈ s.calls, call.entry = slot.reg) :
    Inv { s with loop := loop, passes := [⟨now, i + 1, none⟩] } := by
  refine ⟨hwired, ?_, Or.inr ⟨_, rfl, hsched ▸ hrun, nofun⟩, ?_, ?_, h.early, h.directed⟩
  · dsimp only
    rw [hsched, hreg]
    exact h.numbered.finish hslot hfin.same.1 hent hcount
  · dsimp only
    rw [hreg]
    exact h.fresh
  · intro x hx handle r d hmem
    dsimp only at hx
    rw [hsched] at hx
    rcases (h.numbered.mem_live_finish hslot hfin hent).mp hx with
      ⟨hx, hne⟩ | ⟨hlive, hper, rfl⟩
    · obtain ⟨honce, hdue, hfired⟩ := h.unfired x hx handle r d hmem
      refine ⟨honce, hdue, Or.inl (hfired.resolve_right ?_)⟩
      rintro ⟨call, hcall, heq⟩
      exact hne (heq.symm.trans (hcalls call hcall))
    · rw [hfin.same.1] at hmem
      have hslotLive : slot ∈ s.loop.scheduler.liveSlots :=
        ArduinoLoop.mem_liveSlots.mpr ⟨List.mem_of_getElem? hslot, hlive⟩
      rw [(h.unfired slot hslotLive handle r d hmem).1] at hper
      cases hper

/-- The cell at which the loop of a pass stands. -/
theorem cell_spec {l : ArduinoLoop n} (hb : l.taskCount ≤ n) {i : Nat} (hi : i < l.taskCount) :
    l.entries[i]? = some (l.tasks[i]?.getD {}) := ArduinoLoop.cell_eq hb i hi

theorem isDue_spec {slot : TaskSlot} {now : UInt64} (h : slot.isDue now = true) :
    slot.live = true ∧ slot.task = some (slot.task.getD 0) ∧ slot.nextDueUs ≤ now := by
  simp only [TaskSlot.isDue, Bool.and_eq_true, Bool.not_eq_true', decide_eq_false_iff_not,
    UInt64.not_lt] at h
  refine ⟨h.1, ?_, h.2⟩
  have hsome : slot.task.isSome = true := by
    have hlive := h.1
    simp only [TaskSlot.live, Bool.and_eq_true] at hlive
    exact hlive.2
  cases htask : slot.task with
  | none =>
      rw [htask] at hsome
      cases hsome
  | some task => rfl

theorem dueUs_toNat (d r : UInt64) :
    (EventLoop.dueUs d r).toNat = min (r.toNat + d.toNat) (2 ^ 64 - 1) := by
  have hr := r.toNat_lt
  have hd := d.toNat_lt
  have hrest : (0xffffffffffffffff - r).toNat = 2 ^ 64 - 1 - r.toNat := by
    have hle : r ≤ 0xffffffffffffffff := by
      rw [UInt64.le_iff_toNat_le]
      exact Nat.le_pred_of_lt hr
    rw [UInt64.toNat_sub_of_le _ _ hle]
    rfl
  unfold EventLoop.dueUs
  split
  · rename_i hover
    rw [gt_iff_lt, UInt64.lt_iff_toNat_lt, hrest] at hover
    rw [Nat.min_eq_right (by omega)]
    rfl
  · rename_i hfits
    rw [gt_iff_lt, UInt64.lt_iff_toNat_lt, hrest] at hfits
    rw [UInt64.toNat_add, Nat.mod_eq_of_lt (by omega), Nat.min_eq_left (by omega)]

/-- A turn that starts a callable. -/
theorem start_inv {s : CooperativeState n} (h : Inv s) {p : CallPass} (hp : s.passes = [p])
    (hcall : p.call = none) (hrun : s.loop.scheduler.running = true) {slot : TaskSlot}
    (hslot : s.loop.scheduler.entries[p.index]? = some slot) (hdue : slot.isDue p.now = true)
    {c : Callable} {loop : EventLoop (ArduinoLoop n) n}
    (hpoll : s.loop.pollTask (slot.task.getD 0) = some (c, loop)) (v e : Bool) :
    Inv { s with
      loop := loop, passes := [{ p with call := some ⟨slot.reg, slot.task.getD 0, c⟩ }]
      log := .invoked slot.reg c v e p.now :: s.log } := by
  obtain ⟨hlive, htask, hnow⟩ := isDue_spec hdue
  have hcalls : s.calls = [] := by simp [calls, hp, hcall]
  have hmem : slot ∈ s.loop.scheduler.liveSlots :=
    ArduinoLoop.mem_liveSlots.mpr ⟨List.mem_of_getElem? hslot, hlive⟩
  have hwired : s.loop.Wired [] := hcalls ▸ h.wired
  have hentry : s.loop.scheduler.liveEntry slot.reg (slot.task.getD 0) (!slot.periodic) :=
    ⟨slot, hmem, rfl, htask, by simp⟩
  obtain ⟨hstart, hreg, honce⟩ := hwired.start hpoll hentry (List.forall_mem_nil _)
  obtain ⟨-, -, -, rfl⟩ := hwired.pollTask_spec hpoll
  have hcount : ∀ reg, invocations (.invoked slot.reg c v e p.now :: s.log) reg
      = (if slot.reg = reg then 1 else 0) + invocations s.log reg := by
    intro reg
    rw [invocations_invoked, hreg]
  have hold : ∀ {reg handle d}, .registered reg handle d ∈ .invoked slot.reg c v e p.now :: s.log →
      .registered reg handle d ∈ s.log := fun hm => by simpa using hm
  have hidle : ∀ {reg}, ¬ ∃ call ∈ s.calls, call.entry = reg := by
    rintro reg ⟨call, hcall, -⟩
    rw [hcalls] at hcall
    cases hcall
  constructor
  case wired => exact hstart
  case numbered => exact h.numbered
  case pass =>
    refine Or.inr ⟨_, rfl, hrun, ?_⟩
    rintro call ⟨⟩
    refine ⟨slot, hslot, rfl, by rw [honce, Bool.not_not], ?_⟩
    intro task ht
    exact Option.some.inj ((Option.mem_def.mp ht).symm.trans htask)
  case fresh =>
    intro note hnote reg hnoteReg
    rcases List.mem_cons.mp hnote with rfl | hnote
    · rw [← Option.some.inj hnoteReg, hreg]
      exact h.numbered.fresh slot (List.mem_of_getElem? hslot)
    · exact h.fresh note hnote reg hnoteReg
  case unfired =>
    intro x hx handle r d hm
    obtain ⟨hxonce, hxdue, hfired⟩ := h.unfired x hx handle r d (hold hm)
    refine ⟨hxonce, hxdue, ?_⟩
    by_cases hxreg : slot.reg = x.reg
    · exact Or.inr ⟨_, List.mem_cons_self .., hxreg⟩
    · refine Or.inl ?_
      dsimp only
      rw [hcount, if_neg hxreg, Nat.zero_add]
      exact hfired.resolve_right hidle
  case early =>
    intro reg handle r d hm
    obtain ⟨hone, hlate⟩ := h.early reg handle r d (hold hm)
    dsimp only
    rw [hcount]
    by_cases hslotReg : slot.reg = reg
    · obtain ⟨-, hslotDue, hfired⟩ := h.unfired slot hmem handle r d (hslotReg ▸ hold hm)
      have hzero : invocations s.log slot.reg = 0 := hfired.resolve_right hidle
      rw [if_pos hslotReg, ← hslotReg, hzero]
      refine ⟨Nat.le_refl 1, ?_⟩
      intro entry c' v' e' now hmem' heq
      rcases List.mem_cons.mp hmem' with heq' | hmem'
      · obtain ⟨-, -, -, -, rfl⟩ := CallNote.invoked.inj heq'
        rw [← dueUs_toNat, ← hslotDue]
        exact UInt64.le_iff_toNat_le.mp hnow
      · exact hlate entry c' v' e' now hmem' (heq.trans hslotReg)
    · rw [if_neg hslotReg, Nat.zero_add]
      refine ⟨hone, ?_⟩
      intro entry c' v' e' now hmem' heq
      rcases List.mem_cons.mp hmem' with heq' | hmem'
      · obtain ⟨-, rfl, -, -, -⟩ := CallNote.invoked.inj heq'
        exact absurd (hreg.symm.trans heq) hslotReg
      · exact hlate entry c' v' e' now hmem' heq
  case directed =>
    intro entry c' v' e' now hmem'
    rcases List.mem_cons.mp hmem' with heq' | hmem'
    · obtain ⟨rfl, rfl, -, -, -⟩ := CallNote.invoked.inj heq'
      exact hreg.symm
    · exact h.directed entry c' v' e' now hmem'

theorem turn_inv {s s' : CooperativeState n} (h : Inv s) {p : CallPass} (hp : s.passes = [p])
    (hcall : p.call = none) (hrun : s.loop.scheduler.running = true)
    (hturn : turn s p [] = some s') : Inv s' := by
  have hb := h.numbered.bounded
  have hcalls : s.calls = [] := by simp [calls, hp, hcall]
  have hwired : s.loop.Wired [] := hcalls ▸ h.wired
  -- the same cells, one turn further
  have hnext : Inv { s with passes := [{ p with index := p.index + 1 }] } := by
    refine ⟨?_, h.numbered, Or.inr ⟨_, rfl, hrun, ?_⟩, h.fresh, ?_, h.early, h.directed⟩
    · simpa [calls, hcall] using hwired
    · intro call hsome
      rw [hcall] at hsome
      cases hsome
    · intro x hx handle r d hm
      obtain ⟨honce, hdue, hfired⟩ := h.unfired x hx handle r d hm
      refine ⟨honce, hdue, Or.inl (hfired.resolve_right ?_)⟩
      rw [hcalls]
      rintro ⟨call, hmem, -⟩
      cases hmem
  unfold turn at hturn
  dsimp only at hturn
  by_cases hi : p.index < s.loop.scheduler.taskCount
  · rw [if_pos hi] at hturn
    have hslot := cell_spec hb hi
    generalize s.loop.scheduler.tasks[p.index]?.getD {} = slot at hturn hslot
    by_cases hdue : slot.isDue p.now = true
    · rw [if_pos hdue] at hturn
      cases hpoll : s.loop.pollTask (slot.task.getD 0) with
      | some r =>
          obtain ⟨c, loop⟩ := r
          rw [hpoll] at hturn
          obtain rfl := Option.some.inj hturn
          exact start_inv h hp hcall hrun hslot hdue hpoll _ _
      | none =>
          rw [hpoll] at hturn
          obtain ⟨l', hl', rfl⟩ := Option.map_eq_some_iff.mp hturn
          obtain ⟨slot', hfin, hent, hcount, hrun'⟩ := ArduinoLoop.afterPoll_spec hb hslot hl'
          have htidy : l'.Tidy := ArduinoLoop.Tidy.finish hwired.ok hslot hfin hent hcount
          have hw : ({ s.loop with scheduler := l' } : EventLoop (ArduinoLoop n) n).Wired [] :=
            hwired.scheduler htidy fun q t o hq =>
              ((liveEntry_finish h.numbered hslot hfin hent q t o).mp hq).1
          have hfinish : Inv { s with
              loop := { s.loop with scheduler := l' }, passes := [⟨p.now, p.index + 1, none⟩] } :=
            finish_inv h (hrun'.trans hrun) hslot hfin hent hcount rfl rfl hw
              (by rw [hcalls]; exact List.forall_mem_nil _)
          simpa [withScheduler, hcall] using hfinish
    · rw [if_neg hdue] at hturn
      obtain rfl := Option.some.inj hturn
      exact hnext
  · rw [if_neg hi] at hturn
    obtain rfl := Option.some.inj hturn
    let stopped : ArduinoLoop n := { s.loop.scheduler with running := false }
    have hlive : s.loop.scheduler.endPass.liveSlots = s.loop.scheduler.liveSlots :=
      ArduinoLoop.compactInactive_liveSlots (l := stopped) hb
    have hstopped : ArduinoLoop.Tidy stopped := ⟨hwired.ok.bounded, hwired.ok.live⟩
    have hnumbered : ArduinoLoop.Numbered stopped s.loop.nextReg := h.numbered.congr rfl hb
    refine ⟨?_, hnumbered.compact, Or.inl rfl, h.fresh, ?_, h.early, h.directed⟩
    · refine hwired.scheduler (s := s.loop.scheduler.endPass) hstopped.compact ?_
      intro q t o
      rintro ⟨x, hx, hx'⟩
      exact ⟨x, hlive ▸ hx, hx'⟩
    · intro x hx handle r d hm
      have hx' : x ∈ s.loop.scheduler.endPass.liveSlots := hx
      obtain ⟨honce, hdue, hfired⟩ := h.unfired x (hlive ▸ hx') handle r d hm
      refine ⟨honce, hdue, Or.inl (hfired.resolve_right ?_)⟩
      rw [hcalls]
      rintro ⟨call, hmem, -⟩
      cases hmem

theorem callReturns_inv {s s' : CooperativeState n} (h : Inv s)
    (hstep : step s .callReturns = some s') : Inv s' := by
  rcases h.pass with hnil | ⟨p, hp, hrun, hwaits⟩
  · simp [step, hnil] at hstep
  · obtain ⟨now, i, call⟩ := p
    cases call with
    | none => simp [step, hp] at hstep
    | some call =>
        simp only [step, hp, (EventLoop.returnTask_fields _ _ _).1] at hstep
        obtain ⟨l', hl', rfl⟩ := Option.map_eq_some_iff.mp hstep
        obtain ⟨slot, hslot, hentry, hper, -⟩ := hwaits call rfl
        obtain ⟨slot', hfin, hent, hcount, hrun'⟩ :=
          ArduinoLoop.afterPoll_spec h.numbered.bounded hslot hl'
        have hcalls : s.calls = [call] := by simp [calls, hp]
        have hwired : s.loop.Wired [call] := hcalls ▸ h.wired
        have hlive := liveEntry_finish h.numbered hslot hfin hent
        have hw : ({ s.loop with scheduler := l' } : EventLoop (ArduinoLoop n) n).Wired [call] :=
          hwired.scheduler (ArduinoLoop.Tidy.finish hwired.ok hslot hfin hent hcount)
            fun q t o hq => ((hlive q t o).mp hq).1
        have hreturned := hw.finish fun honce q o hq => by
          obtain ⟨hold, hnot⟩ := (hlive q call.slot o).mp hq
          have hq := hwired.entry_of_call (List.mem_singleton_self call) honce hold
          exact hnot ⟨by rw [hper, honce]; rfl, hq.trans hentry.symm⟩
        rw [EventLoop.returnTask_scheduler] at hreturned
        have hreg := (EventLoop.returnTask_fields s.loop call.slot call.callable).2
        refine finish_inv h (hrun'.trans hrun) hslot hfin hent hcount rfl hreg hreturned ?_
        intro other hother
        rw [hcalls, List.mem_singleton] at hother
        rw [hother, hentry]

/-- **The step lemma.** -/
theorem step_inv {s s' : CooperativeState n} {e : CooperativeEvent} (h : Inv s)
    (hflat : s.flat e = true) (hplace : s.addInPlace e = true) (hstep : step s e = some s') :
    Inv s' := by
  cases e with
  | api call =>
      simp only [step] at hstep
      split at hstep
      · cases hstep
      · obtain rfl := Option.some.inj hstep
        exact api_inv h call _ hplace
  | runOnce now =>
      have hnil : s.passes = [] := by simpa [flat] using hflat
      simp only [step] at hstep
      split at hstep
      · cases hstep
      · obtain rfl := Option.some.inj hstep
        have hb := h.numbered.bounded
        have hcalls : s.calls = [] := by simp [calls, hnil]
        have hwired : s.loop.Wired [] := hcalls ▸ h.wired
        have hlive : s.loop.scheduler.beginPass.liveSlots = s.loop.scheduler.liveSlots :=
          ArduinoLoop.compactInactive_liveSlots hb
        have htidy : s.loop.scheduler.beginPass.Tidy :=
          ⟨(ArduinoLoop.Tidy.compact hwired.ok).bounded, (ArduinoLoop.Tidy.compact hwired.ok).live⟩
        have hnumbered := h.numbered.compact
        have hwaits : Waits s.loop.scheduler.beginPass ⟨now, 0, none⟩ :=
          fun call hcall => absurd hcall (Option.some_ne_none call).symm
        refine ⟨?_, hnumbered.congr rfl hnumbered.bounded,
          Or.inr ⟨_, by rw [hnil], rfl, hwaits⟩, h.fresh, ?_, h.early, h.directed⟩
        · have hw := hwired.scheduler (s := s.loop.scheduler.beginPass) htidy fun q t o => by
            rintro ⟨x, hx, hx'⟩
            exact ⟨x, hlive ▸ hx, hx'⟩
          simpa [calls, hnil, withScheduler] using hw
        · intro x hx handle r d hm
          have hx' : x ∈ s.loop.scheduler.beginPass.liveSlots := hx
          obtain ⟨honce, hdue, hfired⟩ := h.unfired x (hlive ▸ hx') handle r d hm
          refine ⟨honce, hdue, Or.inl (hfired.resolve_right ?_)⟩
          rw [hcalls]
          rintro ⟨call, hmem, -⟩
          cases hmem
  | turn =>
      rcases h.pass with hnil | ⟨p, hp, hrun, -⟩
      · simp [step, hnil] at hstep
      · simp only [step, hp] at hstep
        split at hstep
        · rename_i hnone
          exact turn_inv h hp (Option.isNone_iff_eq_none.mp hnone) hrun hstep
        · cases hstep
  | callReturns => exact callReturns_inv h hstep

/-- **Delayed callables fire once, in time and for themselves** in every run in
which no callable calls `run_once` and every registration made by a
callable finds the cells up to the polled one live. -/
theorem delays_fire_once (hn : n ≤ 0xfffe) {s : CooperativeState n} {es : List CooperativeEvent}
    (hrun : run (restrict (fun s e => flat s e && addInPlace s e) step) (fresh hn) es = some s) :
    NoEarlyFiring s.log ∧ NoMisdirectedFiring s.log := by
  have hinv : Inv s := by
    refine run_invariant ?_ (inv_fresh hn) hrun
    intro s e s' h hs
    obtain ⟨hc, hstep⟩ := restrict_eq_some.mp hs
    rw [Bool.and_eq_true] at hc
    exact step_inv h hc.1 hc.2 hstep
  exact ⟨hinv.early, hinv.directed⟩

/-- A one-shot that fires registers another, which falls due in the same pass. -/
theorem delays_fire_once_run : ∃ s : CooperativeState 3,
    run (restrict (fun s e => flat s e && addInPlace s e) step) (fresh (by decide))
        [.api (.register (.onDelayUs 5) { now := 0 }),
          .api (.register (.onDelayUs 20) { now := 0 }), .runOnce 10, .turn,
          .api (.register (.onDelayUs 0) { now := 10 }), .callReturns, .turn, .turn,
          .callReturns, .turn] = some s
      ∧ invocations s.log 0 = 1 ∧ invocations s.log 1 = 0 ∧ invocations s.log 2 = 1
      ∧ NoEarlyFiring s.log ∧ NoMisdirectedFiring s.log := by
  have hrun : run (restrict (fun s e => flat s e && addInPlace s e) step)
      (fresh (by decide) : CooperativeState 3)
      [.api (.register (.onDelayUs 5) { now := 0 }), .api (.register (.onDelayUs 20) { now := 0 }),
        .runOnce 10, .turn, .api (.register (.onDelayUs 0) { now := 10 }), .callReturns, .turn,
        .turn, .callReturns, .turn] = some _ := rfl
  exact ⟨_, hrun, rfl, rfl, rfl, delays_fire_once (by decide) hrun⟩

/-- Without the condition: the first one-shot has fired, and the second
registers a third, which takes the cell of the second and is dropped with it.
The second leaves its entry behind, and the next callable in its slot fires
for it, 4990 us early. -/
theorem delay_fired_for_stale_entry : ∃ s : CooperativeState 3,
    run (restrict flat step) (fresh (by decide))
        [.api (.register (.onDelayUs 0) { now := 0 }), .api (.register (.onDelayUs 0) { now := 0 }),
          .runOnce 10, .turn, .callReturns, .turn,
          .api (.register (.onDelayUs 1000) { now := 10 }), .callReturns, .turn,
          .api (.register (.onDelayUs 5000) { now := 20 }), .runOnce 30, .turn, .callReturns,
          .turn] = some s
      ∧ ¬ NoEarlyFiring s.log ∧ ¬ NoMisdirectedFiring s.log := by
  refine ⟨_, rfl, ?_, ?_⟩
  · intro h
    have hearly :=
      (h 3 ⟨1, 1⟩ 20 5000 (by decide)).2 1 ⟨3, ⟨1, 1⟩, true⟩ true true 30 (by decide) rfl
    revert hearly
    decide
  · intro h
    have hentry := h 1 ⟨3, ⟨1, 1⟩, true⟩ true true 30 (by decide)
    revert hentry
    decide

end CooperativeState

end AsyncEventLoop
