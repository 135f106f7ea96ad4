import AsyncEventLoop.LibeventLoop
import AsyncEventLoop.Logs
import AsyncEventLoop.Runs

/-!
# The event loop on libevent

On Linux the native scheduler of an `EventLoop` is a `LinuxLibeventLoop`.
A run interleaves the application's calls with the events libevent
dispatches and the returns of the callables they start. libevent may
dispatch any pending event at any time, also while a callable is running:
which it does, and in what order, is left open.

`callbacks_isolated` says that a callable is started only through the entry
of its own registration, while its handle is valid and enabled, before
`remove` has succeeded on that handle, and once at most if it was
registered by `on_delay_us`.
-/

namespace AsyncEventLoop

open Logs Runs

structure LinuxState (MaxCallbacks : Nat) where
  loop : EventLoop LibeventLoop MaxCallbacks
  frames : List Call := []
  log : List CallNote := []

/-- `env` is what the part of a libevent callback behind `poll` sees. -/
inductive LinuxEvent where
  | api (call : ApiCall)
  | dispatch (reg : Nat) (now : UInt64) (env : NativeEnv)
  | callReturns (env : NativeEnv)
  | endRunOnce

namespace LinuxState

variable {n : Nat}

/-- A freshly constructed event loop, with or without an event base. -/
def fresh (h : n ≤ 0xfffe) (base : Bool) : LinuxState n :=
  { loop := { scheduler := { base := base }, capacity := h } }

def withScheduler (s : LinuxState n) (l : LibeventLoop) : LinuxState n :=
  { s with loop := { s.loop with scheduler := l } }

/-- `timer_callback` or `fd_callback`, up to the callable it starts, if any. -/
def dispatch (s : LinuxState n) (item : NativeEvent) (now : UInt64) (env : NativeEnv) :
    LinuxState n :=
  let l := s.loop.scheduler.activate item.reg
  match item.task with
  | none => s.withScheduler l
  | some task =>
      if item.removed then s.withScheduler l
      else
        let l := l.enterCallback
        match s.loop.pollTask task with
        | some (c, loop) =>
            { s with
              loop := { loop with scheduler := l }
              frames := ⟨item.reg, task, c⟩ :: s.frames
              log := .invoked item.reg c (s.loop.valid c.handle)
                (s.loop.slots c.handle.slot).task.enabled now :: s.log }
        | none => s.withScheduler (l.afterPoll item.reg env)

def step (s : LinuxState n) : LinuxEvent → Option (LinuxState n)
  | .api call =>
      let r := call.perform s.loop
      some { s with loop := r.1, log := r.2 ++ s.log }
  | .dispatch reg now env =>
      (s.loop.scheduler.pendingEvent reg).map fun item => dispatch s item now env
  | .callReturns env =>
      match s.frames with
      | call :: rest =>
          let loop := s.loop.returnTask call.slot call.callable
          some { s with
            loop := { loop with scheduler := loop.scheduler.afterPoll call.entry env }
            frames := rest }
      | [] => none
  | .endRunOnce => some (s.withScheduler s.loop.scheduler.endRunOnce)

/-! ## The property -/

/-- `c` has been registered, and its handle has not been removed since. -/
def Known (log : List CallNote) (c : Callable) : Prop :=
  ∃ newer older delay, log = newer ++ .registered c.reg c.handle delay :: older
    ∧ .removed c.handle ∉ newer ∧ c.oneShot = delay.isSome

/-- Whenever a callable is started: the entry is its own, its handle is valid
and enabled and not removed, and it has not been started before if it was
registered by `on_delay_us`. -/
def CallbackIsolation (log : List CallNote) : Prop :=
  ∀ newer older entry c valid enabled now,
    log = newer ++ .invoked entry c valid enabled now :: older →
      entry = c.reg ∧ valid = true ∧ enabled = true ∧ Known older c
        ∧ (c.oneShot = true → invocations older c.reg = 0)

theorem Known.mono {log notes : List CallNote} {c : Callable} (h : Known log c)
    (hnotes : .removed c.handle ∉ notes) : Known (notes ++ log) c := by
  obtain ⟨newer, older, delay, rfl, hnewer, honce⟩ := h
  refine ⟨notes ++ newer, older, delay, by rw [List.append_assoc], ?_, honce⟩
  intro hmem
  rcases List.mem_append.mp hmem with hmem | hmem
  · exact hnotes hmem
  · exact hnewer hmem

theorem callbackIsolation_iff {log : List CallNote} :
    CallbackIsolation log ↔ EachEntry (fun note older =>
      ∀ entry c valid enabled now, note = .invoked entry c valid enabled now →
        entry = c.reg ∧ valid = true ∧ enabled = true ∧ Known older c
          ∧ (c.oneShot = true → invocations older c.reg = 0)) log := by
  constructor
  · rintro h newer note older heq entry c valid enabled now rfl
    exact h newer older entry c valid enabled now heq
  · intro h newer older entry c valid enabled now heq
    exact h newer _ older heq entry c valid enabled now rfl

/-- Notes of calls start nothing. -/
theorem CallbackIsolation.quiet {log notes : List CallNote} (h : CallbackIsolation log)
    (hquiet : ∀ entry c valid enabled now, .invoked entry c valid enabled now ∉ notes) :
    CallbackIsolation (notes ++ log) := by
  rw [callbackIsolation_iff] at h ⊢
  refine h.append ?_
  rintro note hnote older entry c valid enabled now rfl
  exact absurd hnote (hquiet entry c valid enabled now)

theorem CallbackIsolation.start {log : List CallNote} (h : CallbackIsolation log) {c : Callable}
    (now : UInt64) (hknown : Known log c)
    (honce : c.oneShot = true → invocations log c.reg = 0) :
    CallbackIsolation (.invoked c.reg c true true now :: log) := by
  rw [callbackIsolation_iff] at h ⊢
  refine eachEntry_cons.mpr ⟨?_, h⟩
  intro entry d valid enabled at' hnote
  obtain ⟨rfl, rfl, rfl, rfl, -⟩ := CallNote.invoked.inj hnote
  exact ⟨rfl, rfl, rfl, hknown, honce⟩

/-! ## The invariant -/

/-- The record that started a callable is there, and if it fires once it will
not be dispatched again. -/
def Held (l : LibeventLoop) (call : Call) : Prop :=
  ∃ e ∈ l.events, e.reg = call.entry ∧ e.once = call.callable.oneShot
    ∧ (∀ task ∈ e.task, task = call.slot) ∧ (e.once = true → e.pending = false)

theorem Held.fades {l l' : LibeventLoop} {call : Call} (h : Held l call)
    (hl' : ∀ e ∈ l.events, ∃ e' ∈ l'.events, LibeventLoop.Fades e e') : Held l' call := by
  obtain ⟨e, he, hreg, honce, htask, hpending⟩ := h
  obtain ⟨e', he', hfades⟩ := hl' e he
  refine ⟨e', he', hfades.reg.trans hreg, hfades.once.trans honce, ?_, ?_⟩
  · intro task ht
    rcases hfades.task with heq | hnone
    · exact htask task (heq ▸ ht)
    · rw [hnone] at ht
      cases ht
  · intro ho
    have ho : e.once = true := hfades.once.symm.trans ho
    cases hp : e'.pending with
    | false => rfl
    | true => exact (hfades.pending ho hp).symm.trans (hpending ho)

structure Inv (s : LinuxState n) : Prop where
  wired : s.loop.Wired s.frames
  numbered : s.loop.scheduler.Numbered s.loop.nextReg
  depth : s.loop.scheduler.callbackDepth = s.frames.length
  held : ∀ call ∈ s.frames, Held s.loop.scheduler call
  fresh : ∀ note ∈ s.log, ∀ reg ∈ note.reg, reg < s.loop.nextReg
  unfired : ∀ e ∈ s.loop.scheduler.events, e.once = true → e.pending = true →
    invocations s.log e.reg = 0
  known : ∀ i c, s.loop.Stored i c → Known s.log c
  isolated : CallbackIsolation s.log

/-- While a callable is running nothing is freed. -/
theorem Inv.busy {s : LinuxState n} (h : Inv s) {call : Call} (hcall : call ∈ s.frames) :
    s.loop.scheduler.callbackDepth ≠ 0 := by
  rw [h.depth]
  exact Nat.ne_of_gt (List.length_pos_of_mem hcall)

theorem inv_fresh (h : n ≤ 0xfffe) (base : Bool) : Inv (fresh h base) := by
  have hnone : ∀ e, e ∉ ({ base := base } : LibeventLoop).events := fun e => List.not_mem_nil
  refine ⟨EventLoop.wired_fresh h (fun e he => absurd he (hnone e)) ?_,
    ⟨fun e he => absurd he (hnone e), fun e he => absurd he (hnone e)⟩, rfl,
    List.forall_mem_nil _, List.forall_mem_nil _, fun e he => absurd he (hnone e), ?_, ?_⟩
  · rintro q t o ⟨e, he, -⟩
    exact hnone e he
  · rintro i c ⟨hused, -⟩
    cases hused
  · exact callbackIsolation_iff.mpr (eachEntry_nil _)

/-! ## Calls keep the invariant -/

theorem add_adds (r : Registration) (env : NativeEnv) (l : LibeventLoop) (task reg : Nat) :
    ∃ item : NativeEvent, LibeventLoop.Adds l (r.add env l task reg) item ∧ item.reg = reg := by
  have hready : ∀ fd pollUs, ∃ item : NativeEvent,
      LibeventLoop.Adds l (EventLoop.registerReadinessOrPoll l fd task pollUs reg env) item
        ∧ item.reg = reg := by
    intro fd pollUs
    have hunfold : EventLoop.registerReadinessOrPoll l fd task pollUs reg env
        = if fd ≥ 0 then l.addReadableFd fd task reg env
          else l.addPeriodic task (if pollUs = 0 then 1000 else pollUs) reg env := rfl
    rw [hunfold]
    split
    · exact ⟨_, l.addReadableFd_adds fd task reg env, rfl⟩
    · exact ⟨_, l.addPeriodic_adds task _ reg env, rfl⟩
  cases r with
  | onRepeatUs periodUs => exact ⟨_, l.addPeriodic_adds task periodUs reg env, rfl⟩
  | onDelayUs delayUs => exact ⟨_, l.addOneShot_adds task _ reg env, rfl⟩
  | onBytesReady fd pollUs => exact hready fd pollUs
  | onPinEvent fd pollUs => exact hready fd pollUs

/-- What a call does to the scheduler and what it notes. -/
structure Performs (l : EventLoop LibeventLoop n) (l' : EventLoop LibeventLoop n)
    (notes : List CallNote) : Prop where
  evolves : l.scheduler.Evolves l'.scheduler l.nextReg l'.nextReg
  depth : l'.scheduler.callbackDepth = l.scheduler.callbackDepth
  le : l.nextReg ≤ l'.nextReg
  notes : ∀ note ∈ notes, (∃ h, note = .removed h)
    ∨ ((∃ h d, note = .registered l.nextReg h d) ∧ l.nextReg < l'.nextReg)

theorem Performs.same {l l' : EventLoop LibeventLoop n} {notes : List CallNote}
    (hsched : l'.scheduler = l.scheduler) (hreg : l'.nextReg = l.nextReg) (hnotes : notes = []) :
    Performs l l' notes := by
  subst hnotes
  exact ⟨by rw [hsched, hreg]; exact .refl _ _, by rw [hsched], Nat.le_of_eq hreg.symm,
    List.forall_mem_nil _⟩

theorem perform_spec (l : EventLoop LibeventLoop n) (call : ApiCall) :
    Performs l (call.perform l).1 (call.perform l).2 := by
  have henabled : ∀ h b, (l.setEnabled h b).2.scheduler = l.scheduler
      ∧ (l.setEnabled h b).2.nextReg = l.nextReg := by
    intro h b
    unfold EventLoop.setEnabled
    split <;> exact ⟨rfl, rfl⟩
  cases call with
  | register r env =>
      have hregister := EventLoop.register_scheduler l r.delay.isSome (r.add env)
      rw [← Registration.perform_eq] at hregister
      simp only [ApiCall.perform]
      rcases hregister with ⟨hnone, hsched, hreg⟩ | ⟨-, i, -, hsched, hreg⟩
      · exact .same hsched hreg (by rw [hnone])
      · obtain ⟨item, hadds, hitem⟩ := add_adds r env l.scheduler i l.nextReg
        refine ⟨?_, ?_, by rw [hreg]; exact Nat.le_succ _, ?_⟩
        · rw [hsched, hreg]
          have hevolves := hadds.evolves
          rwa [hitem] at hevolves
        · rw [hsched]
          exact hadds.depth
        · rw [hreg]
          cases (r.perform l env).1 with
          | none => exact List.forall_mem_nil _
          | some h =>
              intro note hnote
              exact Or.inr ⟨⟨h, _, List.mem_singleton.mp hnote⟩, Nat.lt_succ_self _⟩
  | enable h => exact .same (henabled h true).1 (henabled h true).2 rfl
  | disable h => exact .same (henabled h false).1 (henabled h false).2 rfl
  | remove h =>
      have hreleased : ∀ m : EventLoop LibeventLoop n,
          (m.releaseRegistered h).scheduler = m.scheduler
            ∧ (m.releaseRegistered h).nextReg = m.nextReg := by
        intro m
        unfold EventLoop.releaseRegistered
        split
        · exact ⟨rfl, rfl⟩
        · split <;> exact ⟨rfl, rfl⟩
      have hremoved : ∀ (m : EventLoop LibeventLoop n) (notes : List CallNote),
          m.scheduler = (l.scheduler.remove h.slot).2 → m.nextReg = l.nextReg →
          (∀ note ∈ notes, ∃ h, note = .removed h) → Performs l m notes := by
        intro m notes hsched hreg hnotes
        refine ⟨?_, ?_, Nat.le_of_eq hreg.symm, fun note hnote => Or.inl (hnotes note hnote)⟩
        · rw [hsched, hreg]
          exact l.scheduler.remove_evolves h.slot l.nextReg
        · rw [hsched, LibeventLoop.remove]
          simp
      simp only [ApiCall.perform, EventLoop.remove]
      split
      · split
        · exact hremoved _ _ (hreleased _).1 (hreleased _).2 (by simp)
        · exact hremoved _ _ rfl rfl (List.forall_mem_nil _)
      · exact .same rfl rfl rfl

theorem api_inv {s : LinuxState n} (h : Inv s) (call : ApiCall) :
    Inv { s with loop := (call.perform s.loop).1, log := (call.perform s.loop).2 ++ s.log } := by
  have hspec := perform_spec s.loop call
  have hquiet : ∀ entry c valid enabled now,
      .invoked entry c valid enabled now ∉ (call.perform s.loop).2 := by
    intro entry c valid enabled now hmem
    rcases hspec.notes _ hmem with ⟨h, heq⟩ | ⟨⟨h, d, heq⟩, -⟩ <;> cases heq
  have hcount : ∀ reg, invocations ((call.perform s.loop).2 ++ s.log) reg
      = invocations s.log reg := by
    intro reg
    exact invocations_quiet hquiet
  refine ⟨h.wired.perform call, hspec.evolves.numbered h.numbered, hspec.depth.trans h.depth,
    ?_, ?_, ?_,
    ?_, h.isolated.quiet hquiet⟩
  · intro frame hframe
    refine (h.held frame hframe).fades (hspec.evolves.held ?_)
    rw [hspec.depth]
    exact h.busy hframe
  · intro note hnote reg hreg
    rcases List.mem_append.mp hnote with hnote | hnote
    · rcases hspec.notes note hnote with ⟨handle, rfl⟩ | ⟨⟨handle, d, rfl⟩, hlt⟩
      · cases hreg
      · exact Option.some.inj hreg ▸ hlt
    · exact Nat.lt_of_lt_of_le (h.fresh note hnote reg hreg) hspec.le
  · intro e he honce hpending
    dsimp only
    rw [hcount]
    rcases hspec.evolves.old e he with ⟨d, hd, hfades⟩ | ⟨hreg, -⟩
    · have hdonce := hfades.once.symm.trans honce
      rw [hfades.reg]
      exact h.unfired d hd hdonce (hfades.pending hdonce hpending)
    · refine invocations_eq_zero ?_
      intro entry c v en now hmem heq
      have hlt := h.fresh _ hmem c.reg rfl
      rw [heq, hreg] at hlt
      exact Nat.lt_irrefl _ hlt
  · intro i c hc
    rcases h.wired.stored_perform hc with ⟨hc, hnot⟩ | ⟨delay, hnotes, honce⟩
    · exact (h.known i c hc).mono hnot
    · exact ⟨[], s.log, delay, by rw [hnotes]; rfl, List.not_mem_nil, honce⟩

/-! ## libevent's callbacks keep the invariant -/

/-- The scheduler's records change and no callable does. -/
theorem scheduler_inv {s : LinuxState n} (h : Inv s) {l : LibeventLoop} (hok : l.Tidy)
    (hevolves : s.loop.scheduler.Evolves l s.loop.nextReg s.loop.nextReg)
    (hdepth : l.callbackDepth = s.loop.scheduler.callbackDepth) : Inv (s.withScheduler l) := by
  refine ⟨h.wired.scheduler hok fun q t o hq => hevolves.liveEntry hq,
    hevolves.numbered h.numbered, hdepth.trans h.depth, ?_, h.fresh,
    ?_, h.known, h.isolated⟩
  · intro frame hframe
    refine (h.held frame hframe).fades (hevolves.held ?_)
    rw [hdepth]
    exact h.busy hframe
  · intro e he honce hpending
    obtain ⟨d, hd, hfades⟩ := hevolves.origin he
    have hdonce := hfades.once.symm.trans honce
    rw [hfades.reg]
    exact h.unfired d hd hdonce (hfades.pending hdonce hpending)

/-- A callable is started. -/
theorem start_inv {s : LinuxState n} (h : Inv s) {item : NativeEvent}
    (hitem : item ∈ s.loop.scheduler.events) (hpending : item.pending = true) {task : Nat}
    (htask : item.task = some task) {c : Callable} {loop : EventLoop LibeventLoop n}
    (hpoll : s.loop.pollTask task = some (c, loop)) (now : UInt64) :
    Inv { s with
      loop := { loop with scheduler := (s.loop.scheduler.activate item.reg).enterCallback }
      frames := ⟨item.reg, task, c⟩ :: s.frames
      log := .invoked item.reg c (s.loop.valid c.handle)
        (s.loop.slots c.handle.slot).task.enabled now :: s.log } := by
  have hevolves := s.loop.scheduler.activate_evolves item.reg s.loop.nextReg
  have hentry : s.loop.scheduler.liveEntry item.reg task item.once :=
    ⟨item, hitem, rfl, htask, rfl⟩
  -- a one-shot that is executing is not pending, the item is
  have hother : ∀ call ∈ s.frames, call.callable.oneShot = true → call.entry ≠ item.reg := by
    intro call hcall honce heq
    obtain ⟨e, he, hreg, heonce, -, hidle⟩ := h.held call hcall
    obtain rfl := h.numbered.unique e he item hitem (hreg.trans heq)
    rw [hidle (heonce.trans honce)] at hpending
    cases hpending
  obtain ⟨hwired, hreg, honce⟩ := h.wired.start hpoll hentry hother
  obtain ⟨hstored, hvalid, henabled, rfl⟩ := h.wired.pollTask_spec hpoll
  have hcount : ∀ reg, invocations (.invoked item.reg c (s.loop.valid c.handle)
      (s.loop.slots c.handle.slot).task.enabled now :: s.log) reg
      = (if item.reg = reg then 1 else 0) + invocations s.log reg := by
    intro reg
    rw [invocations_invoked, hreg]
  have hmid : Inv (s.withScheduler (s.loop.scheduler.activate item.reg)) :=
    scheduler_inv h (LibeventLoop.Tidy.activate h.wired.ok item.reg) hevolves rfl
  constructor
  case wired =>
    exact hwired.scheduler (s := (s.loop.scheduler.activate item.reg).enterCallback)
      (LibeventLoop.Tidy.activate h.wired.ok item.reg) fun q t o hq => hevolves.liveEntry hq
  case numbered => exact ⟨hmid.numbered.unique, hmid.numbered.fresh⟩
  case depth => exact congrArg Nat.succ h.depth
  case held =>
    intro call hcall
    rcases List.mem_cons.mp hcall with rfl | hcall
    · have hfades := LibeventLoop.activated_fades item
      refine ⟨item.activated, LibeventLoop.mem_activate.mpr ⟨item, hitem, if_pos rfl⟩, hfades.reg,
        hfades.once.trans honce.symm, ?_, ?_⟩
      · intro t ht
        rcases hfades.task with heq | hnone
        · exact Option.some.inj ((heq.trans htask).symm.trans ht).symm
        · rw [hnone] at ht
          cases ht
      · intro ho
        exact NativeEvent.activated_pending (hfades.once.symm.trans ho)
    · exact hmid.held call hcall
  case fresh =>
    intro note hnote reg hnoteReg
    rcases List.mem_cons.mp hnote with rfl | hnote
    · rw [← Option.some.inj hnoteReg, hreg]
      exact h.numbered.fresh item hitem
    · exact h.fresh note hnote reg hnoteReg
  case unfired =>
    intro e he ho hp
    dsimp only
    rw [hcount, if_neg (LibeventLoop.activate_idle he ho hp).symm, Nat.zero_add]
    exact hmid.unfired e he ho hp
  case known =>
    intro i d hd
    have hold : s.loop.Stored i d := by
      rcases EventLoop.stored_putSlot.mp hd with ⟨rfl, hd⟩ | ⟨-, hd⟩
      · exact hd
      · exact hd
    have hnot : CallNote.removed d.handle ∉ [CallNote.invoked item.reg c
        (s.loop.valid c.handle) (s.loop.slots c.handle.slot).task.enabled now] := by simp
    exact (h.known i d hold).mono hnot
  case isolated =>
    dsimp only
    rw [hvalid, henabled, ← hreg]
    refine h.isolated.start now (h.known task c hstored) ?_
    intro ho
    rw [hreg]
    exact h.unfired item hitem (honce.symm.trans ho) hpending

theorem dispatch_inv {s : LinuxState n} (h : Inv s) {reg : Nat} {item : NativeEvent}
    (hfound : s.loop.scheduler.pendingEvent reg = some item) (now : UInt64) (env : NativeEnv) :
    Inv (dispatch s item now env) := by
  obtain ⟨hitem, -, hpending⟩ := LibeventLoop.pendingEvent_spec hfound
  have hevolves := s.loop.scheduler.activate_evolves item.reg s.loop.nextReg
  have hok := LibeventLoop.Tidy.activate h.wired.ok item.reg
  have hskip : Inv (s.withScheduler (s.loop.scheduler.activate item.reg)) :=
    scheduler_inv h hok hevolves rfl
  unfold dispatch
  dsimp only
  split
  · exact hskip
  · rename_i task htask
    split
    · exact hskip
    · split
      · rename_i c loop hpoll
        exact start_inv h hitem hpending htask hpoll now
      · -- the task is disabled: the callback goes on behind `poll`
        let entered := (s.loop.scheduler.activate item.reg).enterCallback
        have hafter : (s.loop.scheduler.activate item.reg).Evolves
            (entered.afterPoll item.reg env) s.loop.nextReg s.loop.nextReg :=
          (entered.afterPoll_evolves item.reg s.loop.nextReg env).congr rfl rfl id
        have hentered : entered.Tidy := hok
        have hdepth : (entered.afterPoll item.reg env).callbackDepth
            = s.loop.scheduler.callbackDepth := by
          rw [LibeventLoop.afterPoll_depth]
          rfl
        exact scheduler_inv h (hentered.afterPoll item.reg env)
          (hevolves.trans hafter fun hbusy => by rwa [hdepth] at hbusy) hdepth

theorem callReturns_inv {s : LinuxState n} (h : Inv s) {call : Call} {rest : List Call}
    (hframes : s.frames = call :: rest) (env : NativeEnv) :
    Inv { s with
      loop := { s.loop.returnTask call.slot call.callable with
        scheduler := s.loop.scheduler.afterPoll call.entry env }
      frames := rest } := by
  have hevolves := s.loop.scheduler.afterPoll_evolves call.entry s.loop.nextReg env
  have hok : (s.loop.scheduler.afterPoll call.entry env).Tidy :=
    LibeventLoop.Tidy.afterPoll h.wired.ok call.entry env
  have hmem : call ∈ s.frames := hframes ▸ List.mem_cons_self ..
  have hwired : ({ s.loop with scheduler := s.loop.scheduler.afterPoll call.entry env } :
      EventLoop LibeventLoop n).Wired (call :: rest) :=
    hframes ▸ h.wired.scheduler hok fun q t o hq => hevolves.liveEntry hq
  have hnext : (s.loop.returnTask call.slot call.callable).nextReg = s.loop.nextReg :=
    (EventLoop.returnTask_fields s.loop call.slot call.callable).2
  have hdepth : (s.loop.scheduler.afterPoll call.entry env).callbackDepth = rest.length := by
    rw [LibeventLoop.afterPoll_depth, h.depth, hframes, List.length_cons, Nat.add_sub_cancel]
  refine ⟨?_, ?_, hdepth, ?_, ?_, ?_,
    ?_, h.isolated⟩
  · -- the record of a one-shot has lost its task by now
    have hreturned := hwired.finish fun honce q o hq => by
      obtain ⟨hold, hnot⟩ := (LibeventLoop.liveEntry_afterPoll h.wired.ok env).mp hq
      have hq := h.wired.entry_of_call hmem honce hold
      obtain ⟨e, he, hereg, heonce, -⟩ := h.held call hmem
      obtain ⟨d, hd, hdreg, -, hdonce⟩ := hold
      obtain rfl := h.numbered.unique d hd e he (hdreg.trans (hq.trans hereg.symm))
      exact hnot ⟨hdonce.symm.trans (heonce.trans honce), hq⟩
    rw [EventLoop.returnTask_scheduler] at hreturned
    exact hreturned
  · dsimp only
    rw [hnext]
    exact hevolves.numbered h.numbered
  · intro lower hlower
    have hlower' : lower ∈ s.frames := hframes ▸ List.mem_cons_of_mem call hlower
    refine (h.held lower hlower').fades (hevolves.held ?_)
    rw [hdepth]
    exact Nat.ne_of_gt (List.length_pos_of_mem hlower)
  · dsimp only
    rw [hnext]
    exact h.fresh
  · intro e he honce hpending
    obtain ⟨d, hd, hfades⟩ := hevolves.origin he
    have hdonce := hfades.once.symm.trans honce
    rw [hfades.reg]
    exact h.unfired d hd hdonce (hfades.pending hdonce hpending)
  · intro i c hc
    have hold : s.loop.Wired (call :: rest) := hframes ▸ h.wired
    exact h.known i c (hold.stored_returnTask hc)

/-- **The step lemma.** -/
theorem step_inv {s s' : LinuxState n} {e : LinuxEvent} (h : Inv s)
    (hstep : step s e = some s') : Inv s' := by
  cases e with
  | api call =>
      obtain rfl := Option.some.inj hstep
      exact api_inv h call
  | dispatch reg now env =>
      obtain ⟨item, hfound, rfl⟩ := Option.map_eq_some_iff.mp hstep
      exact dispatch_inv h hfound now env
  | callReturns env =>
      simp only [step, (EventLoop.returnTask_fields _ _ _).1] at hstep
      split at hstep
      · rename_i call rest hframes
        obtain rfl := Option.some.inj hstep
        exact callReturns_inv h hframes env
      · cases hstep
  | endRunOnce =>
      obtain rfl := Option.some.inj hstep
      unfold LibeventLoop.endRunOnce
      split
      · exact scheduler_inv h (LibeventLoop.Tidy.compact h.wired.ok)
          (s.loop.scheduler.compact_evolves _) (LibeventLoop.compactRemovedEvents_depth _)
      · exact h

/-- **Callbacks are isolated** in every run, whatever libevent dispatches and
whatever the callables call. -/
theorem callbacks_isolated (hn : n ≤ 0xfffe) (base : Bool) {s : LinuxState n}
    {es : List LinuxEvent} (hrun : run step (fresh hn base) es = some s) :
    CallbackIsolation s.log :=
  (run_invariant (fun _ _ _ h hs => step_inv h hs) (inv_fresh hn base) hrun).isolated

/-- A periodic callable removes a one-shot that is pending and registers another
in its slot, which libevent dispatches before the first returns. -/
theorem callbacks_isolated_run : ∃ s : LinuxState 2,
    run step (fresh (by decide) true)
        [.api (.register (.onDelayUs 0) { now := 0 }),
          .api (.register (.onRepeatUs 5) { now := 0 }), .dispatch 1 5 { now := 5 },
          .api (.remove ⟨0, 0⟩), .api (.register (.onDelayUs 0) { now := 6 }),
          .dispatch 0 6 { now := 6 }, .dispatch 2 7 { now := 7 }, .callReturns { now := 8 },
          .callReturns { now := 9 }, .endRunOnce] = some s
      ∧ s.log = [.invoked 2 ⟨2, ⟨0, 1⟩, true⟩ true true 7,
        .registered 2 ⟨0, 1⟩ (some (6, 0)), .removed ⟨0, 0⟩,
        .invoked 1 ⟨1, ⟨1, 0⟩, false⟩ true true 5, .registered 1 ⟨1, 0⟩ none,
        .registered 0 ⟨0, 0⟩ (some (0, 0))]
      ∧ CallbackIsolation s.log := by
  have hrun : run step (fresh (by decide) true : LinuxState 2)
      [.api (.register (.onDelayUs 0) { now := 0 }), .api (.register (.onRepeatUs 5) { now := 0 }),
        .dispatch 1 5 { now := 5 }, .api (.remove ⟨0, 0⟩),
        .api (.register (.onDelayUs 0) { now := 6 }), .dispatch 0 6 { now := 6 },
        .dispatch 2 7 { now := 7 }, .callReturns { now := 8 }, .callReturns { now := 9 },
        .endRunOnce] = some _ := rfl
  exact ⟨_, hrun, rfl, callbacks_isolated (by decide) true hrun⟩

end LinuxState

end AsyncEventLoop
