import AsyncEventLoop.EventLoopWiring

/-!
# The libevent scheduler

`LinuxLibeventLoop` keeps three lists of records on the heap, each with the
libevent event it owns. Removing a task only marks its records, and the
marked ones are freed by `compact_removed_events`, which does nothing
while a callback is running.

libevent itself is what the operations see of it: an event is pending
once it has been added, a timer event until it runs, and it runs only
while it is pending and not freed. Which pending event runs next is
up to libevent.
-/

namespace AsyncEventLoop

/-- What an event waits for. A timer carries the delay it was last added with
besides the fields of `TimerEvent`. -/
inductive EventSource where
  | timer (periodUs nextDueUs delayUs : UInt64) (periodic : Bool)
  | fd (fd : Int) (writable : Bool)
  deriving DecidableEq

/-- `TimerEvent` and `FdEvent`, which differ in what they wait for. `reg` is the
ghost number of the registration and stands for the record's address. -/
structure NativeEvent where
  reg : Nat
  task : Option Nat
  source : EventSource
  removed : Bool := false
  pending : Bool := true
  deriving DecidableEq

/-- `periodic_timer_next_delay_us`: the delay, and the new `next_due_us`. -/
def periodicTimerNextDelayUs (nextDueUs periodUs nowUs : UInt64) : UInt64 × UInt64 :=
  let overdueUs := if nowUs > nextDueUs then nowUs - nextDueUs else 0
  (if periodUs > overdueUs then periodUs - overdueUs else 0, nextDueUs + periodUs)

namespace NativeEvent

/-- The event is a timer that fires once. -/
def once (e : NativeEvent) : Bool :=
  match e.source with
  | .timer _ _ _ periodic => !periodic
  | .fd .. => false

def isTimer (e : NativeEvent) : Bool :=
  match e.source with
  | .timer .. => true
  | .fd .. => false

/-- The body of both `mark_*_events_removed` loops. -/
def markedFor (task : Nat) (e : NativeEvent) : NativeEvent :=
  if e.task = some task then { e with removed := true, task := none } else e

/-- The event is on the descriptor. -/
def onFd (fd : Int) (e : NativeEvent) : Bool :=
  match e.source with
  | .timer .. => false
  | .fd fd' _ => fd' = fd

/-- The body of the loop in `remove_fd`. -/
def markedForFd (fd : Int) (task : Nat) (e : NativeEvent) : NativeEvent :=
  if e.onFd fd && e.task = some task then { e with removed := true, task := none } else e

/-- libevent has taken the event to run it. Events on descriptors are persistent. -/
def activated (e : NativeEvent) : NativeEvent :=
  match e.source with
  | .timer .. => { e with pending := false }
  | .fd .. => e

/-- What `timer_callback` and `fd_callback` do to the record behind `poll`. -/
def afterPoll (env : NativeEnv) (e : NativeEvent) : NativeEvent :=
  match e.source with
  | .timer periodUs nextDueUs _ periodic =>
      if !e.removed && periodic then
        let r := periodicTimerNextDelayUs nextDueUs periodUs env.now
        { e with
          source := .timer periodUs r.2 r.1 periodic, pending := e.pending || env.accepts }
      else if !periodic then { e with removed := true, task := none }
      else e
  | .fd .. => e

end NativeEvent

/-- An event that fires once is not pending while it runs. -/
theorem NativeEvent.activated_pending {e : NativeEvent} (h : e.once = true) :
    e.activated.pending = false := by
  unfold NativeEvent.once at h
  unfold NativeEvent.activated
  split
  · rfl
  · rename_i hsource
    rw [hsource] at h
    cases h

/-- `LinuxLibeventLoop`. `base` says that there is an event base. -/
structure LibeventLoop where
  base : Bool := true
  periodicEvents : List NativeEvent := []
  oneShotEvents : List NativeEvent := []
  fdEvents : List NativeEvent := []
  callbackDepth : Nat := 0
  deriving DecidableEq

namespace LibeventLoop

def events (l : LibeventLoop) : List NativeEvent :=
  l.periodicEvents ++ l.oneShotEvents ++ l.fdEvents

def mapEvents (f : NativeEvent → NativeEvent) (l : LibeventLoop) : LibeventLoop :=
  { l with
    periodicEvents := l.periodicEvents.map f
    oneShotEvents := l.oneShotEvents.map f
    fdEvents := l.fdEvents.map f }

/-- The record at one address changes. -/
def modify (l : LibeventLoop) (reg : Nat) (f : NativeEvent → NativeEvent) : LibeventLoop :=
  l.mapEvents fun e => if e.reg = reg then f e else e

def compactRemovedEvents (l : LibeventLoop) : LibeventLoop :=
  if l.callbackDepth ≠ 0 then l
  else
    { l with
      periodicEvents := l.periodicEvents.filter fun e => !e.removed
      oneShotEvents := l.oneShotEvents.filter fun e => !e.removed
      fdEvents := l.fdEvents.filter fun e => !e.removed }

def addPeriodic (l : LibeventLoop) (task : Nat) (periodUs : UInt64) (reg : Nat)
    (env : NativeEnv) : Bool × LibeventLoop :=
  let l := l.compactRemovedEvents
  if !l.base || periodUs = 0 || !env.accepts then (false, l)
  else
    let item : NativeEvent :=
      { reg := reg, task := some task
        source := .timer periodUs (env.now + periodUs) periodUs true }
    (true, { l with periodicEvents := l.periodicEvents ++ [item] })

def addOneShot (l : LibeventLoop) (task : Nat) (dueUs : UInt64) (reg : Nat)
    (env : NativeEnv) : Bool × LibeventLoop :=
  let l := l.compactRemovedEvents
  if !l.base || !env.accepts then (false, l)
  else
    let deltaUs := if dueUs > env.again then dueUs - env.again else 0
    let item : NativeEvent :=
      { reg := reg, task := some task, source := .timer 0 dueUs deltaUs false }
    (true, { l with oneShotEvents := l.oneShotEvents ++ [item] })

def addFd (l : LibeventLoop) (fd : Int) (writable : Bool) (task reg : Nat) (env : NativeEnv) :
    Bool × LibeventLoop :=
  if !l.base || decide (fd < 0) || !env.accepts then (false, l)
  else
    let item : NativeEvent := { reg := reg, task := some task, source := .fd fd writable }
    (true, { l with fdEvents := l.fdEvents ++ [item] })

def addReadableFd (l : LibeventLoop) (fd : Int) (task reg : Nat) (env : NativeEnv) :
    Bool × LibeventLoop :=
  l.compactRemovedEvents.addFd fd false task reg env

def addWritableFd (l : LibeventLoop) (fd : Int) (task reg : Nat) (env : NativeEnv) :
    Bool × LibeventLoop :=
  l.compactRemovedEvents.addFd fd true task reg env

def remove (l : LibeventLoop) (task : Nat) : Bool × LibeventLoop :=
  let removed := l.periodicEvents.any (fun e => e.task = some task)
    || l.oneShotEvents.any (fun e => e.task = some task)
    || l.fdEvents.any (fun e => e.task = some task)
  (removed, (l.mapEvents (NativeEvent.markedFor task)).compactRemovedEvents)

def removeFd (l : LibeventLoop) (fd : Int) (task : Nat) : Bool × LibeventLoop :=
  let removed := l.fdEvents.any fun e => e.onFd fd && e.task = some task
  (removed, { l with fdEvents := l.fdEvents.map (NativeEvent.markedForFd fd task) }
    |>.compactRemovedEvents)

/-- The callback's argument, if libevent can run the event at that address. -/
def pendingEvent (l : LibeventLoop) (reg : Nat) : Option NativeEvent :=
  l.events.find? fun e => e.reg = reg && e.pending

def activate (l : LibeventLoop) (reg : Nat) : LibeventLoop := l.modify reg NativeEvent.activated

def enterCallback (l : LibeventLoop) : LibeventLoop :=
  { l with callbackDepth := l.callbackDepth + 1 }

def leaveCallback (l : LibeventLoop) : LibeventLoop :=
  { l with callbackDepth := l.callbackDepth - 1 }

/-- The rest of `timer_callback` or `fd_callback` behind `poll`. -/
def afterPoll (l : LibeventLoop) (reg : Nat) (env : NativeEnv) : LibeventLoop :=
  (l.leaveCallback.modify reg (NativeEvent.afterPoll env)).compactRemovedEvents

/-- The rest of `run_once` behind `event_base_loop`. -/
def endRunOnce (l : LibeventLoop) : LibeventLoop :=
  if l.base then l.compactRemovedEvents else l

/-! ## The records after an operation -/

@[simp] theorem mapEvents_events (f : NativeEvent → NativeEvent) (l : LibeventLoop) :
    (l.mapEvents f).events = l.events.map f := by
  simp [mapEvents, events]

@[simp] theorem mapEvents_depth (f : NativeEvent → NativeEvent) (l : LibeventLoop) :
    (l.mapEvents f).callbackDepth = l.callbackDepth := rfl

@[simp] theorem compactRemovedEvents_depth (l : LibeventLoop) :
    l.compactRemovedEvents.callbackDepth = l.callbackDepth := by
  unfold compactRemovedEvents
  split <;> rfl

theorem mem_compactRemovedEvents {l : LibeventLoop} {e : NativeEvent} :
    e ∈ l.compactRemovedEvents.events
      ↔ e ∈ l.events ∧ (l.callbackDepth = 0 → e.removed = false) := by
  unfold compactRemovedEvents
  split
  · rename_i hdepth
    exact ⟨fun he => ⟨he, fun h => absurd h hdepth⟩, And.left⟩
  · rename_i hdepth
    simp only [ne_eq, not_not] at hdepth
    simp [events, List.mem_filter, hdepth, or_and_right]

theorem pendingEvent_spec {l : LibeventLoop} {reg : Nat} {e : NativeEvent}
    (h : l.pendingEvent reg = some e) : e ∈ l.events ∧ e.reg = reg ∧ e.pending = true := by
  have hfound := List.find?_some h
  simp only [Bool.and_eq_true, decide_eq_true_eq] at hfound
  exact ⟨List.mem_of_find?_eq_some h, hfound⟩

/-! ## Live entries -/

/-- A record is marked exactly if it has lost its task. -/
def Tidy (l : LibeventLoop) : Prop := ∀ e ∈ l.events, e.removed = e.task.isNone

/-- The live entries as the event loop knows them. -/
def liveEntry (l : LibeventLoop) (reg task : Nat) (once : Bool) : Prop :=
  ∃ e ∈ l.events, e.reg = reg ∧ e.task = some task ∧ e.once = once

theorem Tidy.compact {l : LibeventLoop} (h : Tidy l) : Tidy l.compactRemovedEvents :=
  fun e he => h e (mem_compactRemovedEvents.mp he).1

theorem Tidy.map {l : LibeventLoop} (h : Tidy l) {f : NativeEvent → NativeEvent}
    (hf : ∀ e, e.removed = e.task.isNone → (f e).removed = (f e).task.isNone) :
    Tidy (l.mapEvents f) := by
  intro e he
  rw [mapEvents_events, List.mem_map] at he
  obtain ⟨d, hd, rfl⟩ := he
  exact hf d (h d hd)

/-- Freeing marked records loses no entry. -/
theorem liveEntry_compact {l : LibeventLoop} (h : Tidy l) {q t : Nat} {o : Bool} :
    l.compactRemovedEvents.liveEntry q t o ↔ l.liveEntry q t o := by
  constructor
  · rintro ⟨e, he, he'⟩
    exact ⟨e, (mem_compactRemovedEvents.mp he).1, he'⟩
  · rintro ⟨e, he, hreg, htask, honce⟩
    have hkept : e.removed = false := by rw [h e he, htask]; rfl
    exact ⟨e, mem_compactRemovedEvents.mpr ⟨he, fun _ => hkept⟩, hreg, htask, honce⟩

/-- An `add_*` call frees the marked records, if it may, and adds one record
or none. -/
structure Adds (l : LibeventLoop) (r : Bool × LibeventLoop) (item : NativeEvent) : Prop where
  depth : r.2.callbackDepth = l.callbackDepth
  mem : ∀ e, e ∈ r.2.events ↔ e ∈ l.compactRemovedEvents.events ∨ (r.1 = true ∧ e = item)

theorem addPeriodic_adds (l : LibeventLoop) (task : Nat) (periodUs : UInt64) (reg : Nat)
    (env : NativeEnv) :
    Adds l (l.addPeriodic task periodUs reg env)
      { reg := reg, task := some task
        source := .timer periodUs (env.now + periodUs) periodUs true } := by
  unfold addPeriodic
  dsimp only
  split
  · exact ⟨compactRemovedEvents_depth l, by simp⟩
  · refine ⟨compactRemovedEvents_depth l, ?_⟩
    intro e
    simp only [events, List.mem_append, List.mem_singleton, true_and]
    tauto

theorem addOneShot_adds (l : LibeventLoop) (task : Nat) (dueUs : UInt64) (reg : Nat)
    (env : NativeEnv) :
    Adds l (l.addOneShot task dueUs reg env)
      { reg := reg, task := some task
        source := .timer 0 dueUs (if dueUs > env.again then dueUs - env.again else 0) false } := by
  unfold addOneShot
  dsimp only
  split
  · exact ⟨compactRemovedEvents_depth l, by simp⟩
  · refine ⟨compactRemovedEvents_depth l, ?_⟩
    intro e
    simp only [events, List.mem_append, List.mem_singleton, true_and]
    tauto

theorem addFd_adds (l : LibeventLoop) (fd : Int) (writable : Bool) (task reg : Nat)
    (env : NativeEnv) :
    Adds l (l.compactRemovedEvents.addFd fd writable task reg env)
      { reg := reg, task := some task, source := .fd fd writable } := by
  unfold addFd
  split
  · exact ⟨compactRemovedEvents_depth l, by simp⟩
  · refine ⟨compactRemovedEvents_depth l, ?_⟩
    intro e
    simp only [events, List.mem_append, List.mem_singleton, true_and]
    tauto

theorem addReadableFd_adds (l : LibeventLoop) (fd : Int) (task reg : Nat) (env : NativeEnv) :
    Adds l (l.addReadableFd fd task reg env)
      { reg := reg, task := some task, source := .fd fd false } :=
  l.addFd_adds fd false task reg env

theorem Adds.schedules {l : LibeventLoop} {r : Bool × LibeventLoop} {item : NativeEvent}
    (h : Adds l r item) (hok : Tidy l) {reg task : Nat} {once : Bool} (hreg : item.reg = reg)
    (htask : item.task = some task) (honce : item.once = once) (hremoved : item.removed = false) :
    Schedules Tidy liveEntry l r reg task once := by
  refine ⟨?_, ?_⟩
  · intro e he
    rcases (h.mem e).mp he with he | ⟨-, rfl⟩
    · exact hok.compact e he
    · rw [hremoved, htask]
      rfl
  · intro q t o
    rw [← liveEntry_compact hok]
    constructor
    · rintro ⟨e, he, heReg, heTask, heOnce⟩
      rcases (h.mem e).mp he with he | ⟨htrue, rfl⟩
      · exact Or.inl ⟨e, he, heReg, heTask, heOnce⟩
      · refine Or.inr ⟨htrue, heReg.symm.trans hreg, ?_, heOnce.symm.trans honce⟩
        exact Option.some.inj (heTask.symm.trans htask)
    · rintro (⟨e, he, he'⟩ | ⟨htrue, rfl, rfl, rfl⟩)
      · exact ⟨e, (h.mem e).mpr (Or.inl he), he'⟩
      · exact ⟨item, (h.mem item).mpr (Or.inr ⟨htrue, rfl⟩), hreg, htask, honce⟩

theorem mem_remove {l : LibeventLoop} {task : Nat} {e : NativeEvent} :
    e ∈ (l.remove task).2.events
      ↔ (∃ d ∈ l.events, e = d.markedFor task) ∧ (l.callbackDepth = 0 → e.removed = false) := by
  rw [remove, mem_compactRemovedEvents, mapEvents_events, mapEvents_depth, List.mem_map]
  simp only [eq_comm]

instance : NativeScheduler LibeventLoop where
  addPeriodic := addPeriodic
  addOneShot := addOneShot
  addReadableFd := some addReadableFd
  remove := remove

instance : LawfulScheduler LibeventLoop where
  Ok := Tidy
  live := liveEntry
  addPeriodic_law l task periodUs reg env h :=
    (addPeriodic_adds l task periodUs reg env).schedules h rfl rfl rfl rfl
  addOneShot_law l task dueUs reg env h :=
    (addOneShot_adds l task dueUs reg env).schedules h rfl rfl rfl rfl
  addReadableFd_law add hadd l fd task reg env h := by
    obtain rfl := Option.some.inj hadd
    exact (addReadableFd_adds l fd task reg env).schedules h rfl rfl rfl rfl
  remove_law l task h := by
    have hmarked : ∀ e : NativeEvent, e.removed = e.task.isNone →
        (e.markedFor task).removed = (e.markedFor task).task.isNone := by
      intro e he
      unfold NativeEvent.markedFor
      split
      · rfl
      · exact he
    refine ⟨(h.map hmarked).compact, ?_, ?_⟩
    · have htrue : (l.remove task).1 = true ↔ ∃ e ∈ l.events, e.task = some task := by
        simp only [remove, events, Bool.or_eq_true, List.any_eq_true, decide_eq_true_eq,
          List.mem_append]
        constructor
        · rintro ((⟨e, he, ht⟩ | ⟨e, he, ht⟩) | ⟨e, he, ht⟩)
          · exact ⟨e, Or.inl (Or.inl he), ht⟩
          · exact ⟨e, Or.inl (Or.inr he), ht⟩
          · exact ⟨e, Or.inr he, ht⟩
        · rintro ⟨e, (he | he) | he, ht⟩
          · exact Or.inl (Or.inl ⟨e, he, ht⟩)
          · exact Or.inl (Or.inr ⟨e, he, ht⟩)
          · exact Or.inr ⟨e, he, ht⟩
      exact htrue.trans ⟨fun ⟨e, he, ht⟩ => ⟨e.reg, e.once, e, he, rfl, ht, rfl⟩,
        fun ⟨_, _, e, he, _, ht, _⟩ => ⟨e, he, ht⟩⟩
    · intro q t o
      constructor
      · rintro ⟨e, he, hreg, htask, honce⟩
        obtain ⟨⟨d, hd, rfl⟩, -⟩ := mem_remove.mp he
        unfold NativeEvent.markedFor at hreg htask honce
        split at htask
        · cases htask
        · rename_i hne
          rw [if_neg hne] at hreg honce
          exact ⟨⟨d, hd, hreg, htask, honce⟩, fun heq => hne (heq ▸ htask)⟩
      · rintro ⟨⟨e, he, hreg, htask, honce⟩, hne⟩
        have hsame : e.markedFor task = e := by
          unfold NativeEvent.markedFor
          rw [if_neg fun heq => hne (Option.some.inj (htask.symm.trans heq))]
        have hkept : e.removed = false := by rw [h e he, htask]; rfl
        exact ⟨e, mem_remove.mpr ⟨⟨e, he, hsame.symm⟩, fun _ => hkept⟩, hreg, htask, honce⟩

/-! ## What becomes of a record -/

/-- No two records carry one registration number, and none one from `bound` on. -/
structure Numbered (l : LibeventLoop) (bound : Nat) : Prop where
  unique : ∀ e ∈ l.events, ∀ d ∈ l.events, e.reg = d.reg → e = d
  fresh : ∀ e ∈ l.events, e.reg < bound

/-- A record keeps its number and its kind. Its task at most goes, and it is
not added again if it fires once. -/
structure Fades (e e' : NativeEvent) : Prop where
  reg : e'.reg = e.reg
  once : e'.once = e.once
  task : e'.task = e.task ∨ e'.task = none
  pending : e.once = true → e'.pending = true → e.pending = true

theorem Fades.refl (e : NativeEvent) : Fades e e := ⟨rfl, rfl, Or.inl rfl, fun _ h => h⟩

theorem Fades.trans {a b c : NativeEvent} (h : Fades a b) (h' : Fades b c) : Fades a c := by
  refine ⟨h'.reg.trans h.reg, h'.once.trans h.once, ?_, ?_⟩
  · rcases h'.task with heq | hnone
    · rw [heq]
      exact h.task
    · exact Or.inr hnone
  · intro ho hp
    exact h.pending ho (h'.pending (h.once.trans ho) hp)

/-- The records after an operation: each comes from one before or is the one
that is registered, and none is freed while a callback is running. -/
structure Evolves (l l' : LibeventLoop) (bound bound' : Nat) : Prop where
  numbered : Numbered l bound → Numbered l' bound'
  old : ∀ e' ∈ l'.events, (∃ e ∈ l.events, Fades e e') ∨ (e'.reg = bound ∧ bound < bound')
  held : l'.callbackDepth ≠ 0 → ∀ e ∈ l.events, ∃ e' ∈ l'.events, Fades e e'

/-- Where nothing is registered, every record comes from one before. -/
theorem Evolves.origin {l l' : LibeventLoop} {bound : Nat} (h : Evolves l l' bound bound)
    {e' : NativeEvent} (he' : e' ∈ l'.events) : ∃ e ∈ l.events, Fades e e' := by
  rcases h.old e' he' with hold | ⟨-, hlt⟩
  · exact hold
  · exact absurd hlt (Nat.lt_irrefl bound)

theorem Evolves.refl (l : LibeventLoop) (bound : Nat) : Evolves l l bound bound :=
  ⟨id, fun e he => Or.inl ⟨e, he, Fades.refl e⟩, fun _ e he => ⟨e, he, Fades.refl e⟩⟩

theorem map_evolves (l : LibeventLoop) {f : NativeEvent → NativeEvent} (hf : ∀ e, Fades e (f e))
    (bound : Nat) : Evolves l (l.mapEvents f) bound bound := by
  have hmem : ∀ e', e' ∈ (l.mapEvents f).events → ∃ e ∈ l.events, f e = e' := by
    intro e' he'
    rwa [mapEvents_events, List.mem_map] at he'
  refine ⟨fun h => ⟨?_, ?_⟩, ?_, ?_⟩
  · intro e he d hd heq
    obtain ⟨a, ha, rfl⟩ := hmem e he
    obtain ⟨b, hb, rfl⟩ := hmem d hd
    rw [(hf a).reg, (hf b).reg] at heq
    rw [h.unique a ha b hb heq]
  · intro e he
    obtain ⟨a, ha, rfl⟩ := hmem e he
    rw [(hf a).reg]
    exact h.fresh a ha
  · intro e' he'
    obtain ⟨e, he, rfl⟩ := hmem e' he'
    exact Or.inl ⟨e, he, hf e⟩
  · intro _ e he
    exact ⟨f e, by rw [mapEvents_events]; exact List.mem_map_of_mem he, hf e⟩

theorem compact_evolves (l : LibeventLoop) (bound : Nat) :
    Evolves l l.compactRemovedEvents bound bound := by
  refine ⟨fun h => ⟨?_, ?_⟩, ?_, ?_⟩
  · intro e he d hd
    exact h.unique e (mem_compactRemovedEvents.mp he).1 d (mem_compactRemovedEvents.mp hd).1
  · intro e he
    exact h.fresh e (mem_compactRemovedEvents.mp he).1
  · intro e he
    exact Or.inl ⟨e, (mem_compactRemovedEvents.mp he).1, Fades.refl e⟩
  · intro hdepth e he
    rw [compactRemovedEvents_depth] at hdepth
    exact ⟨e, mem_compactRemovedEvents.mpr ⟨he, fun h => absurd h hdepth⟩, Fades.refl e⟩

theorem Evolves.compact {l l' : LibeventLoop} {bound bound' : Nat}
    (h : Evolves l l' bound bound') : Evolves l l'.compactRemovedEvents bound bound' := by
  have hcompact := compact_evolves l' bound'
  refine ⟨fun hn => hcompact.numbered (h.numbered hn), ?_, ?_⟩
  · intro e he
    exact h.old e (mem_compactRemovedEvents.mp he).1
  · intro hdepth e he
    obtain ⟨e', he', hfades⟩ := h.held (by rwa [compactRemovedEvents_depth] at hdepth) e he
    obtain ⟨e'', he'', hfades'⟩ := hcompact.held hdepth e' he'
    exact ⟨e'', he'', hfades.trans hfades'⟩

theorem Evolves.trans {l l' l'' : LibeventLoop} {bound : Nat} (h : Evolves l l' bound bound)
    (h' : Evolves l' l'' bound bound) (hdepth : l''.callbackDepth ≠ 0 → l'.callbackDepth ≠ 0) :
    Evolves l l'' bound bound := by
  refine ⟨fun hn => h'.numbered (h.numbered hn), ?_, ?_⟩
  · intro e he
    obtain ⟨d, hd, hfades⟩ := h'.origin he
    obtain ⟨c, hc, hfades'⟩ := h.origin hd
    exact Or.inl ⟨c, hc, hfades'.trans hfades⟩
  · intro hd e he
    obtain ⟨d, hd', hfades⟩ := h.held (hdepth hd) e he
    obtain ⟨c, hc, hfades'⟩ := h'.held hd d hd'
    exact ⟨c, hc, hfades.trans hfades'⟩

/-- The depth of callbacks may change. -/
theorem Evolves.congr {l l' m m' : LibeventLoop} {bound bound' : Nat}
    (h : Evolves l l' bound bound') (hl : m.events = l.events) (hl' : m'.events = l'.events)
    (hdepth : m'.callbackDepth ≠ 0 → l'.callbackDepth ≠ 0) : Evolves m m' bound bound' := by
  refine ⟨?_, ?_, ?_⟩
  · intro hn
    obtain ⟨hunique, hfresh⟩ := h.numbered ⟨hl ▸ hn.unique, hl ▸ hn.fresh⟩
    exact ⟨hl' ▸ hunique, hl' ▸ hfresh⟩
  · intro e he
    rw [hl]
    exact h.old e (hl' ▸ he)
  · intro hd e he
    rw [hl']
    exact h.held (hdepth hd) e (hl ▸ he)

theorem Adds.evolves {l : LibeventLoop} {r : Bool × LibeventLoop} {item : NativeEvent}
    (h : Adds l r item) : Evolves l r.2 item.reg (item.reg + 1) := by
  have hcompact := compact_evolves l item.reg
  refine ⟨?_, ?_, ?_⟩
  · intro hn
    obtain ⟨hunique, hfresh⟩ := hcompact.numbered hn
    have hnew : ∀ e ∈ l.compactRemovedEvents.events, e.reg ≠ item.reg :=
      fun e he => Nat.ne_of_lt (hfresh e he)
    refine ⟨?_, ?_⟩
    · intro e he d hd heq
      rcases (h.mem e).mp he with he | ⟨-, rfl⟩ <;> rcases (h.mem d).mp hd with hd | ⟨-, rfl⟩
      · exact hunique e he d hd heq
      · exact absurd heq (hnew e he)
      · exact absurd heq.symm (hnew d hd)
      · rfl
    · intro e he
      rcases (h.mem e).mp he with he | ⟨-, rfl⟩
      · exact Nat.lt_succ_of_lt (hfresh e he)
      · exact Nat.lt_succ_self _
  · intro e he
    rcases (h.mem e).mp he with he | ⟨-, rfl⟩
    · exact Or.inl (hcompact.origin he)
    · exact Or.inr ⟨rfl, Nat.lt_succ_self _⟩
  · intro hdepth e he
    have hdepth' : l.compactRemovedEvents.callbackDepth ≠ 0 := by
      rw [compactRemovedEvents_depth, ← h.depth]
      exact hdepth
    obtain ⟨e', he', hfades⟩ := hcompact.held hdepth' e he
    exact ⟨e', (h.mem e').mpr (Or.inl he'), hfades⟩

theorem remove_evolves (l : LibeventLoop) (task bound : Nat) :
    Evolves l (l.remove task).2 bound bound := by
  refine (map_evolves l ?_ bound).compact
  intro e
  unfold NativeEvent.markedFor
  split
  · exact ⟨rfl, rfl, Or.inr rfl, fun _ h => h⟩
  · exact Fades.refl e

theorem activated_fades (e : NativeEvent) : Fades e e.activated := by
  unfold NativeEvent.activated
  split
  · exact ⟨rfl, rfl, Or.inl rfl, fun _ h => nomatch h⟩
  · exact Fades.refl e

theorem afterPoll_fades (env : NativeEnv) (e : NativeEvent) : Fades e (e.afterPoll env) := by
  unfold NativeEvent.afterPoll
  split
  · rename_i periodUs nextDueUs delayUs periodic hsource
    have honce : e.once = !periodic := by simp [NativeEvent.once, hsource]
    split
    · rename_i hperiodic
      rw [Bool.and_eq_true] at hperiodic
      refine ⟨rfl, honce.symm, Or.inl rfl, ?_⟩
      intro ho _
      rw [honce, hperiodic.2] at ho
      cases ho
    · split
      · exact ⟨rfl, rfl, Or.inr rfl, fun _ h => h⟩
      · exact Fades.refl e
  · exact Fades.refl e

theorem modify_fades {f : NativeEvent → NativeEvent} (hf : ∀ e, Fades e (f e)) (reg : Nat)
    (e : NativeEvent) : Fades e (if e.reg = reg then f e else e) := by
  split
  · exact hf e
  · exact Fades.refl e

theorem mem_activate {l : LibeventLoop} {reg : Nat} {e' : NativeEvent} :
    e' ∈ (l.activate reg).events
      ↔ ∃ e ∈ l.events, (if e.reg = reg then e.activated else e) = e' := by
  rw [activate, modify, mapEvents_events, List.mem_map]

/-- A one-shot that libevent runs is not pending any more. -/
theorem activate_idle {l : LibeventLoop} {reg : Nat} {e : NativeEvent}
    (he : e ∈ (l.activate reg).events) (honce : e.once = true) (hpending : e.pending = true) :
    e.reg ≠ reg := by
  intro heq
  obtain ⟨d, -, rfl⟩ := mem_activate.mp he
  have hreg : d.reg = reg := (modify_fades activated_fades reg d).reg.symm.trans heq
  rw [if_pos hreg] at honce hpending
  have hdonce : d.once = true := (activated_fades d).once.symm.trans honce
  rw [NativeEvent.activated_pending hdonce] at hpending
  cases hpending

theorem activate_evolves (l : LibeventLoop) (reg bound : Nat) :
    Evolves l (l.activate reg) bound bound :=
  map_evolves l (modify_fades activated_fades reg) bound

theorem afterPoll_evolves (l : LibeventLoop) (reg bound : Nat) (env : NativeEnv) :
    Evolves l (l.afterPoll reg env) bound bound :=
  ((map_evolves l.leaveCallback (modify_fades (afterPoll_fades env) reg) bound).congr
    (m := l) rfl rfl id).compact

@[simp] theorem afterPoll_depth (l : LibeventLoop) (reg : Nat) (env : NativeEnv) :
    (l.afterPoll reg env).callbackDepth = l.callbackDepth - 1 := by
  simp [afterPoll, modify, leaveCallback]

/-- No entry comes from nowhere. -/
theorem Evolves.liveEntry {l l' : LibeventLoop} {bound : Nat} (h : Evolves l l' bound bound)
    {q t : Nat} {o : Bool} (hlive : l'.liveEntry q t o) : l.liveEntry q t o := by
  obtain ⟨e', he', hreg, htask, honce⟩ := hlive
  obtain ⟨e, he, hfades⟩ := h.origin he'
  refine ⟨e, he, hfades.reg.symm.trans hreg, ?_, hfades.once.symm.trans honce⟩
  rcases hfades.task with heq | hnone
  · rw [← heq, htask]
  · rw [hnone] at htask
    cases htask

theorem Tidy.activate {l : LibeventLoop} (h : Tidy l) (reg : Nat) : Tidy (l.activate reg) := by
  refine h.map ?_
  intro e he
  split
  · unfold NativeEvent.activated
    split <;> exact he
  · exact he

theorem afterPoll_tidy (env : NativeEnv) {e : NativeEvent} (h : e.removed = e.task.isNone) :
    (e.afterPoll env).removed = (e.afterPoll env).task.isNone := by
  unfold NativeEvent.afterPoll
  split
  · split
    · exact h
    · split
      · rfl
      · exact h
  · exact h

theorem Tidy.afterPoll {l : LibeventLoop} (h : Tidy l) (reg : Nat) (env : NativeEnv) :
    Tidy (l.afterPoll reg env) := by
  have hleft : Tidy l.leaveCallback := h
  refine (hleft.map ?_).compact
  intro e he
  split
  · exact afterPoll_tidy env he
  · exact he

/-- Running an event does not end its entry. -/
theorem liveEntry_activate {l : LibeventLoop} {reg q t : Nat} {o : Bool}
    (h : l.liveEntry q t o) : (l.activate reg).liveEntry q t o := by
  obtain ⟨e, he, hreg, htask, honce⟩ := h
  have hfades := modify_fades activated_fades reg e
  refine ⟨_, mem_activate.mpr ⟨e, he, rfl⟩, hfades.reg.trans hreg, ?_, hfades.once.trans honce⟩
  rw [← htask]
  split
  · unfold NativeEvent.activated
    split <;> rfl
  · rfl

/-- The entries behind a callback: its own is gone if it was to fire once. -/
theorem liveEntry_afterPoll {l : LibeventLoop} (h : Tidy l) {reg : Nat} (env : NativeEnv)
    {q t : Nat} {o : Bool} :
    (l.afterPoll reg env).liveEntry q t o ↔ l.liveEntry q t o ∧ ¬ (o = true ∧ q = reg) := by
  have hleft : Tidy l.leaveCallback := h
  have htidy : Tidy (l.leaveCallback.modify reg (NativeEvent.afterPoll env)) := by
    refine hleft.map ?_
    intro e he
    split
    · exact afterPoll_tidy env he
    · exact he
  have hmem : ∀ e', e' ∈ (l.leaveCallback.modify reg (NativeEvent.afterPoll env)).events
      ↔ ∃ e ∈ l.events, (if e.reg = reg then e.afterPoll env else e) = e' := by
    intro e'
    rw [modify, mapEvents_events, List.mem_map]
    rfl
  -- what is left of the task of one record
  have htask : ∀ e ∈ l.events, ∀ t, e.task = some t → (e.afterPoll env).task
      = if e.once then none else some t := by
    intro e he t ht
    have hkept : e.removed = false := by rw [h e he, ht]; rfl
    unfold NativeEvent.afterPoll NativeEvent.once
    cases e.source with
    | timer periodUs nextDueUs delayUs periodic => cases periodic <;> simp [ht, hkept]
    | fd fd writable => simpa using ht
  rw [afterPoll, liveEntry_compact htidy]
  constructor
  · rintro ⟨e', he', hreg, ht, honce⟩
    have hlive : l.liveEntry q t o := by
      refine (afterPoll_evolves l reg 0 env).liveEntry ?_
      rw [afterPoll, liveEntry_compact htidy]
      exact ⟨e', he', hreg, ht, honce⟩
    refine ⟨hlive, ?_⟩
    rintro ⟨rfl, rfl⟩
    obtain ⟨e, he, rfl⟩ := (hmem e').mp he'
    have hfades := modify_fades (afterPoll_fades env) q e
    rw [hfades.once] at honce
    rw [hfades.reg] at hreg
    rw [if_pos hreg] at ht
    cases hold : e.task with
    | none =>
        rcases (afterPoll_fades env e).task with heq | hnone
        · rw [heq, hold] at ht
          cases ht
        · rw [hnone] at ht
          cases ht
    | some t' =>
        rw [htask e he t' hold, if_pos honce] at ht
        cases ht
  · rintro ⟨⟨e, he, hreg, ht, honce⟩, hnot⟩
    have hfades := modify_fades (afterPoll_fades env) reg e
    refine ⟨_, (hmem _).mpr ⟨e, he, rfl⟩, hfades.reg.trans hreg, ?_, hfades.once.trans honce⟩
    split
    · rename_i heq
      have hmany : e.once = false := by
        cases hmany : e.once with
        | false => rfl
        | true => exact absurd ⟨honce.symm.trans hmany, hreg.symm.trans heq⟩ hnot
      rw [htask e he t ht, hmany, if_neg Bool.false_ne_true]
    · exact ht

end LibeventLoop

end AsyncEventLoop
