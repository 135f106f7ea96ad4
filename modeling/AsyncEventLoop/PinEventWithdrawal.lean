import AsyncEventLoop.CallbackLiveness
import AsyncEventLoop.LinuxEventLoop
import AsyncEventLoop.Logs
import AsyncEventLoop.MemoryPinEventSource

/-!
# Withdrawing a pin event handle

`on_pin_event` stores a wrapper that reads its source until there is nothing
left and calls the application's callable with each event. Between two reads
anything may happen that a callable can bring about: calls on the loop, other
callables that are polled, new events in the sources.

The log is a ghost, newest first. `Prompt` is the law that a callable whose
handle has been disabled or removed is handed no event, and that none is taken
from its source for it. `poll` keeps to it, since it looks at the task first.
The wrapper does not look between two reads: `settled` says when that makes
no difference, and `withdrawal_prompt_iff` that nothing else breaks the law.
-/

namespace AsyncEventLoop

open Logs Runs

/-! ## What there is to note -/

/-- `withdrew` and `enabled` are calls of `disable` or `remove` and of `enable`
that returned true, each with the callable of the handle. -/
inductive PinNote where
  | withdrew (c : Callable)
  | enabled (c : Callable)
  | taken (c : Callable) (event : PinEvent)
  | delivered (c : Callable) (event : PinEvent)
  deriving DecidableEq

namespace PinNote

def callable : PinNote → Callable
  | withdrew c => c
  | enabled c => c
  | taken c _ => c
  | delivered c _ => c

end PinNote

/-- The handle of `c` has been disabled or removed, and not enabled since then. -/
def withdrawn (c : Callable) : List PinNote → Bool
  | [] => false
  | .withdrew d :: older => d = c || withdrawn c older
  | .enabled d :: older => d ≠ c && withdrawn c older
  | _ :: older => withdrawn c older

/-- No event is taken or delivered for a callable that is withdrawn. -/
def Prompt (note : PinNote) (older : List PinNote) : Prop :=
  match note with
  | .taken c _ => withdrawn c older = false
  | .delivered c _ => withdrawn c older = false
  | _ => True

/-- A note of another callable changes nothing. -/
theorem withdrawn_cons {c : Callable} {note : PinNote} {log : List PinNote}
    (h : note.callable ≠ c) : withdrawn c (note :: log) = withdrawn c log := by
  cases note with
  | withdrew d =>
      have hne : d ≠ c := h
      simp [withdrawn, hne]
  | enabled d =>
      have hne : d ≠ c := h
      simp [withdrawn, hne]
  | taken d event => rfl
  | delivered d event => rfl

theorem withdrawn_append {c : Callable} {notes log : List PinNote}
    (h : ∀ note ∈ notes, note.callable ≠ c) :
    withdrawn c (notes ++ log) = withdrawn c log := by
  induction notes with
  | nil => rfl
  | cons note notes ih =>
      obtain ⟨hfirst, hrest⟩ := List.forall_mem_cons.mp h
      rw [List.cons_append, withdrawn_cons hfirst, ih hrest]

theorem withdrawn_of_unnoted {c : Callable} {log : List PinNote}
    (h : ∀ note ∈ log, note.callable ≠ c) : withdrawn c log = false := by
  rw [← List.append_nil log, withdrawn_append h]
  rfl

namespace ApiCall

variable {S : Type} {n : Nat} [NativeScheduler S]

/-- What there is to note of a call. -/
def pinNotes (l : EventLoop S n) : ApiCall → List PinNote
  | .register _ _ => []
  | .enable h =>
      if (l.enable h).1 then (l.slots h.slot).task.callable.toList.map .enabled else []
  | .disable h =>
      if (l.disable h).1 then (l.slots h.slot).task.callable.toList.map .withdrew else []
  | .remove h =>
      if (l.remove h).1 then (l.slots h.slot).task.callable.toList.map .withdrew else []

/-- What a call notes, if anything, is of the callable of a slot. -/
theorem pinNotes_cases (l : EventLoop S n) (call : ApiCall) :
    call.pinNotes l = [] ∨ ∃ i c, (l.slots i).task.callable = some c
      ∧ (call.pinNotes l = [.withdrew c] ∨ call.pinNotes l = [.enabled c]) := by
  have hmade : ∀ {i : Nat} {make : Callable → PinNote} {ok : Bool},
      (if ok then (l.slots i).task.callable.toList.map make else []) = []
        ∨ ∃ c, (l.slots i).task.callable = some c
          ∧ (if ok then (l.slots i).task.callable.toList.map make else []) = [make c] := by
    intro i make ok
    cases ok with
    | false => exact Or.inl rfl
    | true =>
        cases hc : (l.slots i).task.callable with
        | none => exact Or.inl rfl
        | some c => exact Or.inr ⟨c, rfl, rfl⟩
  cases call with
  | register r env => exact Or.inl rfl
  | enable h => exact hmade.imp_right fun ⟨c, hc, heq⟩ => ⟨h.slot, c, hc, Or.inr heq⟩
  | disable h => exact hmade.imp_right fun ⟨c, hc, heq⟩ => ⟨h.slot, c, hc, Or.inl heq⟩
  | remove h => exact hmade.imp_right fun ⟨c, hc, heq⟩ => ⟨h.slot, c, hc, Or.inl heq⟩

/-- The registration that a call makes, if it is `on_pin_event`. -/
def pinRegistered (l : EventLoop S n) : ApiCall → List Nat
  | .register (.onPinEvent fd pollUs) env =>
      if (l.onPinEvent fd pollUs env).1.isSome then [l.nextReg] else []
  | _ => []

end ApiCall

/-! ## Runs -/

/-- A loop in a run, with the pin event sources (`world`), the registrations that
`on_pin_event` has made and the callables that are executing, innermost first.
That of a pin event is one whose wrapper has an event handled. -/
structure PinRun (S : Type) (MaxCallbacks : Nat) (σ : Type) where
  loop : EventLoop S MaxCallbacks
  world : σ
  pins : List Nat := []
  calls : List (Nat × Callable) := []
  log : List PinNote := []

/-- `schedule` is anything the native scheduler may do to itself, and `arrive`
anything that may happen to the sources. -/
inductive PinRunEvent (S σ : Type) where
  | api (call : ApiCall)
  | schedule (scheduler : S)
  | arrive (world : σ)
  | poll (slot : Nat)
  /-- The innermost callable returns. -/
  | handled

namespace PinRun

variable {S σ : Type} {n : Nat}

def fresh (h : n ≤ 0xfffe) (scheduler : S) (world : σ) : PinRun S n σ :=
  { loop := { scheduler := scheduler, capacity := h }, world := world }

/-- A callable that `on_pin_event` has stored; that of `on_delay_us` is none. -/
def isPin (s : PinRun S n σ) (c : Callable) : Bool := !c.oneShot && decide (c.reg ∈ s.pins)

/-- What `read_event` does on the source of a registration. -/
abbrev ReadEvent (σ : Type) := (reg : Nat) → σ → Option PinEvent × σ

/-- The wrapper's loop from its test on: an event is handed to the callable, and
without one the wrapper returns. It goes on even where a nested poll has destroyed
the callable meanwhile. -/
def readNext (readEvent : ReadEvent σ) (s : PinRun S n σ) (i : Nat) (c : Callable) :
    PinRun S n σ :=
  match readEvent c.reg s.world with
  | (some event, world) =>
      { s with
        world := world, calls := (i, c) :: s.calls
        log := .delivered c event :: .taken c event :: s.log }
  | (none, world) => { s with world := world, loop := s.loop.returnTask i c }

/-- `poll` calls a callable. -/
def startCall (readEvent : ReadEvent σ) (s : PinRun S n σ) (i : Nat) (c : Callable) :
    PinRun S n σ :=
  if s.isPin c then s.readNext readEvent i c else { s with calls := (i, c) :: s.calls }

/-- A callable returns, one of `on_pin_event` to its wrapper. -/
def endCall (readEvent : ReadEvent σ) (s : PinRun S n σ) (i : Nat) (c : Callable) :
    PinRun S n σ :=
  if s.isPin c then s.readNext readEvent i c else { s with loop := s.loop.returnTask i c }

/-- The slot of the innermost callable stores it, active and enabled, or its
source has nothing to read. -/
def settled (readEvent : ReadEvent σ) (s : PinRun S n σ) : PinRunEvent S σ → Bool
  | .handled =>
      match s.calls with
      | (i, c) :: _ =>
          !s.isPin c || (s.loop.slots i).task.live c || (readEvent c.reg s.world).1.isNone
      | [] => true
  | _ => true

variable [NativeScheduler S]

def perform (s : PinRun S n σ) (call : ApiCall) : PinRun S n σ :=
  { s with
    loop := (call.perform s.loop).1
    pins := call.pinRegistered s.loop ++ s.pins
    log := call.pinNotes s.loop ++ s.log }

def step (readEvent : ReadEvent σ) (s : PinRun S n σ) :
    PinRunEvent S σ → Option (PinRun S n σ)
  | .api call => some (s.perform call)
  | .schedule scheduler => some { s with loop := { s.loop with scheduler := scheduler } }
  | .arrive world => some { s with world := world }
  | .poll i =>
      (s.loop.pollTask i).map fun r => startCall readEvent { s with loop := r.2 } i r.1
  | .handled =>
      match s.calls with
      | [] => none
      | (i, c) :: rest => some (endCall readEvent { s with calls := rest } i c)

end PinRun

/-! ## What becomes of one callable -/

namespace EventLoop

variable {S : Type} {n : Nat} {l l' : EventLoop S n}

/-- The notes of a call on a handle are about the callable of its slot. -/
theorem Sane.noted (h : Sane l) (j : Nat) {note : Callable → PinNote}
    (hnote : ∀ d, (note d).callable = d) (c : Callable) :
    ((l.slots j).task.callable = some c
        ∧ (l.slots j).task.callable.toList.map note = [note c] ∧ c.handle.slot = j)
      ∨ ((l.slots j).task.callable ≠ some c
        ∧ ∀ x ∈ (l.slots j).task.callable.toList.map note, x.callable ≠ c) := by
  by_cases hc : (l.slots j).task.callable = some c
  · exact Or.inl ⟨hc, by rw [hc]; rfl, h.slot j c hc⟩
  · refine Or.inr ⟨hc, ?_⟩
    intro x hx hxc
    obtain ⟨d, hd, rfl⟩ := List.mem_map.mp hx
    rw [hnote] at hxc
    exact hc (hxc ▸ Option.mem_toList.mp hd)

/-- What a call does to a callable of slot `i`: nothing, or it makes it live or not and
says so. -/
inductive Fate (l l' : EventLoop S n) (notes : List PinNote) (i : Nat) (c : Callable) : Prop where
  | untouched (hnotes : ∀ note ∈ notes, note.callable ≠ c)
      (hlive : (l'.slots i).task.live c = (l.slots i).task.live c)
  | withdrew (hnotes : notes = [.withdrew c]) (hlive : (l'.slots i).task.live c = false)
  | enabled (hnotes : notes = [.enabled c]) (hlive : (l'.slots i).task.live c = true)

theorem Fate.of_slots {i : Nat} (hslots : l'.slots i = l.slots i) (c : Callable) :
    Fate l l' [] i c :=
  .untouched (List.forall_mem_nil _) (by rw [hslots])

/-- A change of slot `j` does nothing to a callable that is not stored there. -/
theorem Fate.of_not_stored {notes : List PinNote} {j : Nat} {slot : CallbackSlot} {c : Callable}
    (hslots : l'.slots = (l.putSlot j slot).slots)
    (hcallable : ∀ d, slot.task.callable = some d → (l.slots j).task.callable = some d)
    (hstored : (l.slots j).task.callable ≠ some c) (hnotes : ∀ note ∈ notes, note.callable ≠ c)
    (i : Nat) : Fate l l' notes i c := by
  refine .untouched hnotes ?_
  rw [hslots]
  by_cases hi : i = j
  · rw [hi, putSlot_self, CallbackTask.live_of_not_stored hstored]
    exact CallbackTask.live_of_not_stored fun hc => hstored (hcallable c hc)
  · rw [putSlot_of_ne l hi]

theorem Sane.setEnabled_fate (h : Sane l) (handle : EventHandle) (enabled : Bool) (c : Callable) :
    Fate l (l.setEnabled handle enabled).2
      (if (l.setEnabled handle enabled).1 then (l.slots handle.slot).task.callable.toList.map
        (if enabled then .enabled else .withdrew) else []) c.handle.slot c := by
  unfold EventLoop.setEnabled
  by_cases hvalid : l.valid handle = true
  · obtain ⟨-, -, hactive, -⟩ := valid_iff.mp hvalid
    rw [if_pos hvalid]
    dsimp only
    rw [if_pos rfl, CallbackTask.setEnabled, if_pos hactive]
    have hnote : ∀ d, ((if enabled then PinNote.enabled else PinNote.withdrew) d).callable = d := by
      intro d
      cases enabled <;> rfl
    rcases h.noted handle.slot hnote c with ⟨hstored, hnotes, hslot⟩ | ⟨hstored, hnotes⟩
    · rw [hnotes, hslot]
      cases enabled with
      | true => exact .enabled rfl (by simp [CallbackTask.live, hstored, hactive])
      | false => exact .withdrew rfl (by simp [CallbackTask.live])
    · refine .of_not_stored rfl ?_ hstored hnotes _
      exact fun d hd => hd
  · rw [if_neg hvalid, if_neg Bool.false_ne_true]
    exact .of_slots rfl c

theorem Sane.registers_fate (h : Sane l) {once : Bool} {add : S → Nat → Nat → Bool × S}
    {r : Option EventHandle} (hr : Registers l once add r l') (i : Nat) {c : Callable}
    (hold : c.reg < l.nextReg) : Fate l l' [] i c := by
  -- the slot of a registration is not in use, and stores a new callable if any
  have hput : ∀ {j : Nat} {slot : CallbackSlot}, (l.slots j).used = false →
      slot.task.live c = false → l'.slots = (l.putSlot j slot).slots → Fate l l' [] i c := by
    intro j slot hused hlive hslots
    by_cases hj : i = j
    · refine .untouched (List.forall_mem_nil _) ?_
      rw [hslots, hj, putSlot_self, hlive, h.live_of_unused hused]
    · exact .of_slots (by rw [hslots, putSlot_of_ne l hj]) c
  cases hr with
  | full => exact .of_slots rfl c
  | busy j hused => exact hput hused (by simp [CallbackTask.live]) rfl
  | refused j hused => exact hput hused (by simp [CallbackTask.live]) rfl
  | accepted j hi hused =>
      refine hput hused (CallbackTask.live_of_not_stored ?_) rfl
      intro hc
      obtain rfl := Option.some.inj hc
      exact Nat.lt_irrefl _ hold

variable [NativeScheduler S]

theorem Sane.remove_fate (h : Sane l) (handle : EventHandle) (c : Callable) :
    Fate l (l.remove handle).2
      (if (l.remove handle).1 then (l.slots handle.slot).task.callable.toList.map .withdrew else [])
      c.handle.slot c := by
  unfold EventLoop.remove
  by_cases hvalid : l.valid handle = true
  · obtain ⟨hn, hused, -, hgeneration⟩ := valid_iff.mp hvalid
    rw [if_pos hvalid]
    dsimp only
    by_cases hremoved : (NativeScheduler.remove l.scheduler handle.slot).1 = true
    · rw [if_pos hremoved, if_pos rfl]
      let scheduled : EventLoop S n :=
        { l with scheduler := (NativeScheduler.remove l.scheduler handle.slot).2 }
      have hrelease : scheduled.releaseRegistered handle
          = scheduled.putSlot handle.slot (l.slots handle.slot).release :=
        releaseRegistered_eq hn hused hgeneration
      have hnote : ∀ d, (PinNote.withdrew d).callable = d := fun _ => rfl
      rcases h.noted handle.slot hnote c with ⟨hstored, hnotes, hslot⟩ | ⟨hstored, hnotes⟩
      · refine .withdrew hnotes ?_
        rw [hrelease, hslot, putSlot_self]
        simp [CallbackTask.live, CallbackSlot.release]
      · rw [hrelease]
        have hslots : (scheduled.putSlot handle.slot (l.slots handle.slot).release).slots
            = (l.putSlot handle.slot (l.slots handle.slot).release).slots := rfl
        refine .of_not_stored hslots ?_ hstored hnotes _
        exact fun d hd => CallbackTask.callable_of_clear hd
    · rw [if_neg hremoved, if_neg Bool.false_ne_true]
      exact .untouched (List.forall_mem_nil _) rfl
  · rw [if_neg hvalid, if_neg Bool.false_ne_true]
    exact .of_slots rfl c

theorem Sane.perform_fate (h : Sane l) (call : ApiCall) {c : Callable} (hold : c.reg < l.nextReg) :
    Fate l (call.perform l).1 (call.pinNotes l) c.handle.slot c := by
  cases call with
  | register r env =>
      have hspec := register_spec l r.delay.isSome (r.add env)
      rw [← Registration.perform_eq] at hspec
      exact h.registers_fate hspec _ hold
  | enable handle => exact h.setEnabled_fate handle true c
  | disable handle => exact h.setEnabled_fate handle false c
  | remove handle => exact h.remove_fate handle c

theorem pinNotes_reg (h : Sane l) {call : ApiCall} {note : PinNote}
    (hnote : note ∈ call.pinNotes l) : note.callable.reg < l.nextReg := by
  rcases call.pinNotes_cases l with hnone | ⟨i, c, hc, hsome | hsome⟩
  · rw [hnone] at hnote
    cases hnote
  all_goals
    rw [hsome] at hnote
    obtain rfl := List.mem_singleton.mp hnote
    exact h.reg i c hc

theorem pinRegistered_reg {call : ApiCall} {reg : Nat} (hreg : reg ∈ call.pinRegistered l) :
    reg = l.nextReg ∧ reg < (call.perform l).1.nextReg := by
  unfold ApiCall.pinRegistered at hreg
  split at hreg
  · split at hreg
    · rename_i fd pollUs env hsome
      obtain rfl := List.mem_singleton.mp hreg
      refine ⟨rfl, ?_⟩
      have hregister := register_scheduler l false (Registration.add (.onPinEvent fd pollUs) env)
      rcases hregister with ⟨hnone, -, -⟩ | ⟨-, i, -, -, hnext⟩
      · change (l.register false (Registration.add (.onPinEvent fd pollUs) env)).1.isSome = true
          at hsome
        rw [hnone] at hsome
        cases hsome
      · exact Nat.lt_of_lt_of_le (Nat.lt_succ_self _) (Nat.le_of_eq hnext.symm)
    · cases hreg
  · cases hreg

end EventLoop

/-! ## What every state of a run keeps -/

theorem EventLoop.Fate.withdrawn_append {S : Type} {n : Nat} {l l' : EventLoop S n}
    {notes : List PinNote} {i : Nat} {c : Callable} (h : EventLoop.Fate l l' notes i c)
    (log : List PinNote) :
    (((l.slots i).task.live c = true → withdrawn c log = false) →
        (l'.slots i).task.live c = true → withdrawn c (notes ++ log) = false)
      ∧ ((l.slots i).task.live c = true ∨ withdrawn c log = true →
        (l'.slots i).task.live c = true ∨ withdrawn c (notes ++ log) = true) := by
  cases h with
  | untouched hnotes hlive =>
      rw [AsyncEventLoop.withdrawn_append hnotes, hlive]
      exact ⟨id, id⟩
  | withdrew hnotes hlive =>
      rw [hnotes, hlive]
      exact ⟨fun _ => nofun, fun _ => Or.inr (by simp [withdrawn])⟩
  | enabled hnotes hlive =>
      rw [hnotes, hlive]
      exact ⟨fun _ _ => by simp [withdrawn], fun _ => Or.inl rfl⟩

namespace PinRun

variable {S σ : Type} {n : Nat} {s s' : PinRun S n σ} {readEvent : ReadEvent σ}

/-- Whatever is noted or executing has been registered; a one-shot that is executing
has taken its slot from any pin event callable further out. -/
structure Bounded (s : PinRun S n σ) : Prop where
  sane : s.loop.Sane
  pins : ∀ reg ∈ s.pins, reg < s.loop.nextReg
  noted : ∀ note ∈ s.log, note.callable.reg < s.loop.nextReg
  calls : ∀ p ∈ s.calls, p.2.handle.slot = p.1 ∧ p.2.reg < s.loop.nextReg
  above : s.calls.Pairwise fun upper lower => upper.2.oneShot = true → s.isPin lower.2 = true →
    (s.loop.slots upper.1).task.callable ≠ some lower.2

/-- No live callable is withdrawn, and one that has an event handled is live or
withdrawn. -/
structure Tracks (s : PinRun S n σ) : Prop extends Bounded s where
  live : ∀ i c, (s.loop.slots i).task.live c = true → withdrawn c s.log = false
  handling : ∀ p ∈ s.calls, s.isPin p.2 = true →
    (s.loop.slots p.1).task.live p.2 = true ∨ withdrawn p.2 s.log = true

/-- New registrations do not make a pin event callable of an old one. -/
theorem isPin_append {c : Callable} {new : List Nat} (hc : c.reg < s.loop.nextReg)
    (hnew : ∀ reg ∈ new, s.loop.nextReg ≤ reg) (hpins : s'.pins = new ++ s.pins) :
    s'.isPin c = s.isPin c := by
  have hnot : c.reg ∉ new := fun hmem => absurd hc (Nat.not_lt.mpr (hnew c.reg hmem))
  simp [isPin, hpins, hnot]

theorem Bounded.grow (h : Bounded s) {new : List Nat} {notes : List PinNote}
    (hloop : s'.loop.Sane ∧ s.loop.Grows s'.loop) (hcalls : s'.calls = s.calls)
    (hpins : s'.pins = new ++ s.pins)
    (hnew : ∀ reg ∈ new, s.loop.nextReg ≤ reg ∧ reg < s'.loop.nextReg)
    (hlog : s'.log = notes ++ s.log)
    (hnotes : ∀ note ∈ notes, note.callable.reg < s'.loop.nextReg) : Bounded s' := by
  obtain ⟨hsane, hgrows⟩ := hloop
  have hlt : ∀ {reg}, reg < s.loop.nextReg → reg < s'.loop.nextReg :=
    fun hreg => Nat.lt_of_lt_of_le hreg hgrows.nextReg
  refine ⟨hsane, ?_, ?_, ?_, ?_⟩
  · rw [hpins]
    exact List.forall_mem_append.mpr ⟨fun reg hreg => (hnew reg hreg).2,
      fun reg hreg => hlt (h.pins reg hreg)⟩
  · rw [hlog]
    exact List.forall_mem_append.mpr ⟨hnotes, fun note hnote => hlt (h.noted note hnote)⟩
  · rw [hcalls]
    exact fun p hp => ⟨(h.calls p hp).1, hlt (h.calls p hp).2⟩
  · rw [hcalls]
    refine h.above.imp_of_mem ?_
    intro upper lower _ hlower habove honce hpin hstored
    have hold := (h.calls lower hlower).2
    rw [isPin_append hold (fun reg hreg => (hnew reg hreg).1) hpins] at hpin
    exact habove honce hpin (hgrows.stored _ _ hold hstored)

/-- A callable that has not been registered has not been withdrawn. -/
theorem Bounded.withdrawn_new (h : Bounded s) {c : Callable} (hc : s.loop.nextReg ≤ c.reg) :
    withdrawn c s.log = false := by
  refine withdrawn_of_unnoted ?_
  rintro note hnote rfl
  exact absurd (h.noted note hnote) (Nat.not_lt.mpr hc)

theorem tracks_fresh (h : n ≤ 0xfffe) (scheduler : S) (world : σ) :
    Tracks (fresh h scheduler world) where
  sane := ⟨nofun, nofun, nofun, nofun⟩
  pins := List.forall_mem_nil _
  noted := List.forall_mem_nil _
  calls := List.forall_mem_nil _
  above := .nil
  live := fun _ _ _ => rfl
  handling := List.forall_mem_nil _

/-! ## One step -/

theorem Tracks.perform [NativeScheduler S] (h : Tracks s) (call : ApiCall) :
    Tracks (s.perform call) := by
  have hgrown := h.sane.perform call
  have hbounded : Bounded (s.perform call) := by
    refine h.toBounded.grow hgrown rfl rfl ?_ rfl ?_
    · intro reg hreg
      obtain ⟨heq, hlt⟩ := EventLoop.pinRegistered_reg hreg
      exact ⟨Nat.le_of_eq heq.symm, hlt⟩
    · intro note hnote
      exact Nat.lt_of_lt_of_le (EventLoop.pinNotes_reg h.sane hnote) hgrown.2.nextReg
  have hfate : ∀ {c : Callable}, c.reg < s.loop.nextReg → _ :=
    fun hold => (h.sane.perform_fate call hold).withdrawn_append s.log
  refine ⟨hbounded, ?_, ?_⟩
  · intro i c hlive
    have hstored : ((s.perform call).loop.slots i).task.callable = some c :=
      CallbackTask.callable_of_live hlive
    obtain rfl := hbounded.sane.slot i c hstored
    by_cases hold : c.reg < s.loop.nextReg
    · exact (hfate hold).1 (h.live _ c) hlive
    · -- a callable that this call has registered
      refine (withdrawn_append ?_).trans (h.withdrawn_new (Nat.not_lt.mp hold))
      rintro note hnote rfl
      exact hold (EventLoop.pinNotes_reg h.sane hnote)
  · intro p hp hpin
    obtain ⟨hslot, hold⟩ := h.calls p hp
    have hnew : ∀ reg ∈ call.pinRegistered s.loop, s.loop.nextReg ≤ reg :=
      fun reg hreg => Nat.le_of_eq (EventLoop.pinRegistered_reg hreg).1.symm
    rw [isPin_append hold hnew rfl] at hpin
    rw [← hslot]
    refine (hfate hold).2 ?_
    rw [hslot]
    exact h.handling p hp hpin

/-- The innermost callable, taken off. -/
theorem Tracks.pop {p : Nat × Callable} {rest : List (Nat × Callable)} (h : Tracks s)
    (hcalls : s.calls = p :: rest) : Tracks { s with calls := rest } := by
  have hmem : ∀ q ∈ rest, q ∈ s.calls := fun q hq => hcalls ▸ List.mem_cons_of_mem p hq
  refine ⟨⟨h.sane, h.pins, h.noted, fun q hq => h.calls q (hmem q hq), ?_⟩, h.live,
    fun q hq => h.handling q (hmem q hq)⟩
  exact (List.pairwise_cons.mp (hcalls ▸ h.above)).2

/-- A callable that is live or has been withdrawn, put on. -/
theorem Tracks.push (h : Tracks s) {i : Nat} {c : Callable} (hslot : c.handle.slot = i)
    (hold : c.reg < s.loop.nextReg)
    (habove : ∀ p ∈ s.calls, c.oneShot = true → s.isPin p.2 = true →
      (s.loop.slots i).task.callable ≠ some p.2)
    (hhandling : s.isPin c = true →
      (s.loop.slots i).task.live c = true ∨ withdrawn c s.log = true) :
    Tracks { s with calls := (i, c) :: s.calls } := by
  refine ⟨⟨h.sane, h.pins, h.noted, ?_, ?_⟩, h.live, ?_⟩
  · exact List.forall_mem_cons.mpr ⟨⟨hslot, hold⟩, h.calls⟩
  · exact List.pairwise_cons.mpr ⟨habove, h.above⟩
  · exact List.forall_mem_cons.mpr ⟨hhandling, h.handling⟩

/-- A callable that returns, taken off already. -/
theorem Tracks.returnTask (h : Tracks s) {i : Nat} {c : Callable} (hslot : c.handle.slot = i)
    (habove : ∀ p ∈ s.calls, c.oneShot = true → s.isPin p.2 = true →
      (s.loop.slots i).task.callable ≠ some p.2) :
    Tracks { s with loop := s.loop.returnTask i c } := by
  have hbounded : Bounded { s with loop := s.loop.returnTask i c } := by
    refine h.toBounded.grow (h.sane.returnTask i c) rfl (List.nil_append _).symm nofun
      (List.nil_append _).symm nofun
  refine ⟨hbounded, ?_, ?_⟩
  · intro j d hlive
    rw [h.sane.live_returnTask] at hlive
    refine h.live j d ?_
    split at hlive
    · exact EventLoop.live_releaseRegistered hlive
    · exact hlive
  · intro p hp hpin
    refine (h.handling p hp hpin).imp_left ?_
    intro hlive
    rw [h.sane.live_returnTask]
    split
    · rename_i honce
      rw [EventLoop.releaseRegistered_of_ne]
      · exact hlive
      · -- the slot of a one-shot stores none of them
        rw [hslot]
        rintro rfl
        exact habove p hp honce hpin (CallbackTask.callable_of_live hlive)
    · exact hlive

theorem not_oneShot_of_isPin {c : Callable} (h : s.isPin c = true) : c.oneShot = false := by
  simp only [isPin, Bool.and_eq_true, Bool.not_eq_true'] at h
  exact h.1

/-- An event that is taken and delivered, and whatever the source becomes. -/
theorem Tracks.deliver (h : Tracks s) {c : Callable} (hold : c.reg < s.loop.nextReg)
    (event : PinEvent) (world : σ) :
    Tracks { s with world := world, log := .delivered c event :: .taken c event :: s.log } := by
  have hnotes : ∀ note ∈ [PinNote.delivered c event, .taken c event],
      note.callable.reg < s.loop.nextReg :=
    List.forall_mem_cons.mpr ⟨hold, List.forall_mem_singleton.mpr hold⟩
  have hbounded : Bounded
      { s with world := world, log := .delivered c event :: .taken c event :: s.log } :=
    h.toBounded.grow ⟨h.sane, .refl s.loop⟩ rfl (List.nil_append _).symm nofun rfl hnotes
  exact ⟨hbounded, h.live, h.handling⟩

theorem Tracks.world (h : Tracks s) (world : σ) : Tracks { s with world := world } :=
  ⟨⟨h.sane, h.pins, h.noted, h.calls, h.above⟩, h.live, h.handling⟩

/-- The two notes of a read are lawful if the callable is not withdrawn. -/
theorem prompt_deliver {c : Callable} {event : PinEvent} {log : List PinNote} :
    EachEntry Prompt (.delivered c event :: .taken c event :: log)
      ↔ EachEntry Prompt log ∧ withdrawn c log = false := by
  rw [eachEntry_cons, eachEntry_cons]
  simp [Prompt, withdrawn, and_comm]

/-- **The wrapper's turn**: the law is kept exactly if the callable is not withdrawn, or
there is nothing to read. -/
theorem Tracks.readNext (h : Tracks s) (readEvent : ReadEvent σ) {i : Nat} {c : Callable}
    (hslot : c.handle.slot = i) (hold : c.reg < s.loop.nextReg) (hpin : s.isPin c = true)
    (hhandling : (s.loop.slots i).task.live c = true ∨ withdrawn c s.log = true) :
    Tracks (s.readNext readEvent i c)
      ∧ (EachEntry Prompt (s.readNext readEvent i c).log ↔ EachEntry Prompt s.log
        ∧ (withdrawn c s.log = false ∨ (readEvent c.reg s.world).1 = none)) := by
  have honce : c.oneShot = false := not_oneShot_of_isPin hpin
  have habove : ∀ p ∈ s.calls, c.oneShot = true → s.isPin p.2 = true →
      (s.loop.slots i).task.callable ≠ some p.2 := by
    intro p hp htrue
    rw [honce] at htrue
    cases htrue
  unfold PinRun.readNext
  split
  · rename_i event world hread
    rw [hread]
    refine ⟨?_, ?_⟩
    · exact (h.deliver hold event world).push hslot hold habove fun _ => hhandling
    · rw [prompt_deliver]
      simp
  · rename_i world hread
    rw [hread]
    exact ⟨(h.world world).returnTask hslot habove, by simp⟩

theorem Tracks.scheduler (h : Tracks s) (scheduler : S) :
    Tracks { s with loop := { s.loop with scheduler := scheduler } } := by
  have hbounded : Bounded { s with loop := { s.loop with scheduler := scheduler } } :=
    h.toBounded.grow (EventLoop.Sane.scheduler ⟨h.sane, .refl s.loop⟩ scheduler) rfl
      (List.nil_append _).symm nofun (List.nil_append _).symm nofun
  exact ⟨hbounded, h.live, h.handling⟩

theorem Tracks.pollTask (h : Tracks s) {i : Nat} {c : Callable} {l : EventLoop S n}
    (hpoll : s.loop.pollTask i = some (c, l)) : Tracks { s with loop := l } := by
  have hbounded : Bounded { s with loop := l } :=
    h.toBounded.grow (h.sane.pollTask hpoll) rfl (List.nil_append _).symm nofun
      (List.nil_append _).symm nofun
  refine ⟨hbounded, ?_, ?_⟩
  · intro j d hlive
    rw [EventLoop.live_pollTask hpoll] at hlive
    exact h.live j d hlive
  · intro p hp hpin
    rw [EventLoop.live_pollTask hpoll]
    exact h.handling p hp hpin

/-- A poll that calls something: the callable is live, and so has not been withdrawn. -/
theorem Tracks.start (h : Tracks s) (readEvent : ReadEvent σ) {i : Nat} {c : Callable}
    {l : EventLoop S n} (hpoll : s.loop.pollTask i = some (c, l)) :
    Tracks (startCall readEvent { s with loop := l } i c)
      ∧ (EachEntry Prompt (startCall readEvent { s with loop := l } i c).log
        ↔ EachEntry Prompt s.log) := by
  have hpolled := h.pollTask hpoll
  have hlive : (l.slots i).task.live c = true := by
    rw [EventLoop.live_pollTask hpoll]
    exact EventLoop.live_of_pollTask hpoll
  have hstored : (l.slots i).task.callable = some c := CallbackTask.callable_of_live hlive
  have hslot := hpolled.sane.slot i c hstored
  have hold := hpolled.sane.reg i c hstored
  unfold startCall
  split
  · rename_i hpin
    obtain ⟨htracks, hprompt⟩ := hpolled.readNext readEvent hslot hold hpin (Or.inl hlive)
    exact ⟨htracks, hprompt.trans (and_iff_left (Or.inl (hpolled.live i c hlive)))⟩
  · rename_i hpin
    refine ⟨hpolled.push hslot hold ?_ fun htrue => absurd htrue hpin, Iff.rfl⟩
    intro p hp honce hlower hlowerStored
    -- a one-shot is no pin event callable
    obtain rfl := Option.some.inj (hstored.symm.trans hlowerStored)
    exact hpin hlower

/-- The notes of a call are of no event. -/
theorem prompt_pinNotes [NativeScheduler S] {l : EventLoop S n} {call : ApiCall} :
    ∀ note ∈ call.pinNotes l, ∀ older, Prompt note older := by
  intro note hnote older
  rcases call.pinNotes_cases l with hnone | ⟨i, c, -, hsome | hsome⟩
  · rw [hnone] at hnote
    cases hnote
  all_goals
    rw [hsome] at hnote
    obtain rfl := List.mem_singleton.mp hnote
    trivial

/-- The innermost callable returns: the law is kept exactly if it is settled. -/
theorem Tracks.finish (h : Tracks s) (readEvent : ReadEvent σ) {i : Nat} {c : Callable}
    {rest : List (Nat × Callable)} (hcalls : s.calls = (i, c) :: rest) :
    Tracks (endCall readEvent { s with calls := rest } i c)
      ∧ (EachEntry Prompt (endCall readEvent { s with calls := rest } i c).log
        ↔ EachEntry Prompt s.log ∧ s.settled readEvent .handled = true) := by
  have hmem : (i, c) ∈ s.calls := hcalls ▸ List.mem_cons_self ..
  have hpopped := h.pop hcalls
  obtain ⟨hslot, hold⟩ : c.handle.slot = i ∧ c.reg < s.loop.nextReg := h.calls _ hmem
  unfold endCall settled
  rw [hcalls]
  split
  · rename_i hpin
    change s.isPin c = true at hpin
    have hhandling : (s.loop.slots i).task.live c = true ∨ withdrawn c s.log = true :=
      h.handling _ hmem hpin
    have hlive : withdrawn c s.log = false ↔ (s.loop.slots i).task.live c = true := by
      constructor
      · intro hnot
        exact hhandling.resolve_right (by rw [hnot]; exact Bool.false_ne_true)
      · exact h.live i c
    obtain ⟨htracks, hprompt⟩ := hpopped.readNext readEvent hslot hold hpin hhandling
    refine ⟨htracks, hprompt.trans ?_⟩
    rw [hlive]
    simp [hpin]
  · rename_i hpin
    change ¬s.isPin c = true at hpin
    refine ⟨hpopped.returnTask hslot ?_, ?_⟩
    · intro p hp honce hlower
      have habove := h.above
      rw [hcalls] at habove
      exact (List.pairwise_cons.mp habove).1 p hp honce hlower
    · exact (and_iff_left (by simp [hpin])).symm

/-- **The step lemma.** -/
theorem Tracks.step [NativeScheduler S] (h : Tracks s) {e : PinRunEvent S σ}
    (hstep : s.step readEvent e = some s') :
    Tracks s' ∧ (EachEntry Prompt s'.log
      ↔ EachEntry Prompt s.log ∧ s.settled readEvent e = true) := by
  cases e with
  | api call =>
      obtain rfl := Option.some.inj hstep
      refine ⟨h.perform call, ?_⟩
      have hnotes : EachEntry Prompt (call.pinNotes s.loop ++ s.log) ↔ EachEntry Prompt s.log :=
        ⟨EachEntry.of_append, fun hlog => hlog.append prompt_pinNotes⟩
      exact hnotes.trans (and_iff_left rfl).symm
  | schedule scheduler =>
      obtain rfl := Option.some.inj hstep
      exact ⟨h.scheduler scheduler, (and_iff_left rfl).symm⟩
  | arrive world =>
      obtain rfl := Option.some.inj hstep
      exact ⟨h.world world, (and_iff_left rfl).symm⟩
  | poll i =>
      obtain ⟨⟨c, l⟩, hpoll, rfl⟩ := Option.map_eq_some_iff.mp hstep
      obtain ⟨htracks, hprompt⟩ := h.start readEvent hpoll
      exact ⟨htracks, hprompt.trans (and_iff_left rfl).symm⟩
  | handled =>
      cases hcalls : s.calls with
      | nil => simp [PinRun.step, hcalls] at hstep
      | cons p rest =>
          rw [PinRun.step, hcalls] at hstep
          obtain rfl := Option.some.inj hstep
          exact h.finish readEvent hcalls

end PinRun

/-! ## Whole runs -/

/-- In a run from a fresh loop, whatever the sources do when they are read and in
between, and whatever the native scheduler does: no callable that has been
disabled or removed is handed an event, and none is taken from its source for it,
exactly if every handler that returns withdrawn returns to an empty source. -/
theorem withdrawal_prompt_iff {S σ : Type} [NativeScheduler S] {n : Nat} (hn : n ≤ 0xfffe)
    (scheduler : S) (world : σ) (readEvent : PinRun.ReadEvent σ) {s : PinRun S n σ}
    {es : List (PinRunEvent S σ)}
    (hrun : run (PinRun.step readEvent) (PinRun.fresh hn scheduler world) es = some s) :
    EachEntry Prompt s.log
      ↔ run (restrict (PinRun.settled readEvent) (PinRun.step readEvent))
        (PinRun.fresh hn scheduler world) es = some s :=
  run_iff_restrict (fun _ _ _ h hstep => PinRun.Tracks.step h hstep)
    (PinRun.tracks_fresh hn scheduler world) (eachEntry_nil Prompt) hrun

/-- The source in memory holds two events. The handler disables its handle at the second,
and is called for a third one that comes in later when it has been enabled. -/
theorem withdrawal_prompt_iff_run :
    ∃ s : PinRun LibeventLoop 1 (MemoryPinEventSource 2),
      run (PinRun.step fun _ => MemoryPinEventSource.readEvent)
          (PinRun.fresh (by decide) { base := true }
            (((MemoryPinEventSource.push {} { sequence := 1 }).2).push { sequence := 2 }).2)
          [.api (.register (.onPinEvent (-1) 1000) { now := 0 }), .poll 0, .handled,
            .api (.disable ⟨0, 0⟩), .handled,
            .arrive (MemoryPinEventSource.push {} { sequence := 3 }).2,
            .api (.enable ⟨0, 0⟩), .poll 0, .handled] = some s
        ∧ s.log.length = 8 ∧ EachEntry Prompt s.log := by
  have hrun : run (restrict (PinRun.settled fun _ => MemoryPinEventSource.readEvent)
      (PinRun.step fun _ => MemoryPinEventSource.readEvent))
      (PinRun.fresh (by decide) { base := true }
        (((MemoryPinEventSource.push {} { sequence := 1 }).2).push { sequence := 2 }).2 :
          PinRun LibeventLoop 1 (MemoryPinEventSource 2))
      [.api (.register (.onPinEvent (-1) 1000) { now := 0 }), .poll 0, .handled,
        .api (.disable ⟨0, 0⟩), .handled,
        .arrive (MemoryPinEventSource.push {} { sequence := 3 }).2,
        .api (.enable ⟨0, 0⟩), .poll 0, .handled] = some _ := rfl
  exact ⟨_, run_of_restrict hrun, rfl,
    (withdrawal_prompt_iff (by decide) _ _ _ (run_of_restrict hrun)).mpr hrun⟩

/-- The source in memory holds two events. The handler disables or removes its handle at the
first, and is handed the second; the source is left empty. -/
theorem withdrawal_not_prompt :
    (∃ s : PinRun LibeventLoop 1 (MemoryPinEventSource 2),
      run (PinRun.step fun _ => MemoryPinEventSource.readEvent)
          (PinRun.fresh (by decide) { base := true }
            (((MemoryPinEventSource.push {} { sequence := 1 }).2).push { sequence := 2 }).2)
          [.api (.register (.onPinEvent (-1) 1000) { now := 0 }), .poll 0,
            .api (.disable ⟨0, 0⟩), .handled, .handled] = some s
        ∧ s.world.count = 0 ∧ ¬EachEntry Prompt s.log)
      ∧ ∃ s : PinRun LibeventLoop 1 (MemoryPinEventSource 2),
        run (PinRun.step fun _ => MemoryPinEventSource.readEvent)
            (PinRun.fresh (by decide) { base := true }
              (((MemoryPinEventSource.push {} { sequence := 1 }).2).push { sequence := 2 }).2)
            [.api (.register (.onPinEvent (-1) 1000) { now := 0 }), .poll 0,
              .api (.remove ⟨0, 0⟩), .handled, .handled] = some s
          ∧ s.world.count = 0 ∧ ¬EachEntry Prompt s.log := by
  -- the newest note is that of the second event
  refine ⟨⟨_, rfl, rfl, ?_⟩, _, rfl, rfl, ?_⟩
  · intro hprompt
    exact Bool.noConfusion (show true = false from hprompt [] _ _ rfl)
  · intro hprompt
    exact Bool.noConfusion (show true = false from hprompt [] _ _ rfl)

/-! ## One invocation -/

/-- The events handed to `c`, oldest first. -/
def deliveredTo (c : Callable) : List PinNote → List PinEvent
  | [] => []
  | .delivered d event :: older =>
      if d = c then deliveredTo c older ++ [event] else deliveredTo c older
  | _ :: older => deliveredTo c older

namespace PinRun

variable {S σ : Type} {n : Nat} [NativeScheduler S] {s : PinRun S n σ} {i : Nat} {c : Callable}

/-- A handler that makes some calls on the loop and returns. -/
def handling (calls : List ApiCall) : List (PinRunEvent S σ) := calls.map .api ++ [.handled]

theorem deliveredTo_pinNotes {l : EventLoop S n} (call : ApiCall) (log : List PinNote) :
    deliveredTo c (call.pinNotes l ++ log) = deliveredTo c log := by
  rcases call.pinNotes_cases l with hnone | ⟨i, d, -, hsome | hsome⟩
  · rw [hnone]
    rfl
  all_goals
    rw [hsome]
    rfl

/-- Calls on the loop leave the sources and the callables that are executing alone. -/
theorem run_api (readEvent : ReadEvent σ) (calls : List ApiCall) (hpin : s.isPin c = true) :
    ∃ s', run (step readEvent) s (calls.map .api) = some s' ∧ s'.world = s.world
      ∧ s'.calls = s.calls ∧ s'.isPin c = true ∧ deliveredTo c s'.log = deliveredTo c s.log := by
  induction calls generalizing s with
  | nil => exact ⟨s, rfl, rfl, rfl, hpin, rfl⟩
  | cons call calls ih =>
      have hstill : (s.perform call).isPin c = true := by
        simp only [isPin, Bool.and_eq_true, decide_eq_true_eq] at hpin ⊢
        exact ⟨hpin.1, List.mem_append_right _ hpin.2⟩
      obtain ⟨s', hrun, hworld, hcalls, hpin', hlog⟩ := ih hstill
      refine ⟨s', run_cons.mpr ⟨_, rfl, hrun⟩, hworld, hcalls, hpin', hlog.trans ?_⟩
      exact deliveredTo_pinNotes call s.log

/-- The wrapper delivers what draining the source does, whatever calls on the loop the
handler makes at each event. -/
theorem run_readNext (readEvent : ReadEvent σ) {turns : Nat} {events : List PinEvent} {last : σ}
    (hdrain : drain (readEvent c.reg) turns s.world = some (events, last))
    (hpin : s.isPin c = true) {handlings : List (List ApiCall)}
    (hlength : handlings.length = events.length) :
    ∃ s', run (step readEvent) (s.readNext readEvent i c) (handlings.flatMap handling) = some s'
      ∧ s'.world = last ∧ s'.calls = s.calls
      ∧ deliveredTo c s'.log = deliveredTo c s.log ++ events := by
  induction turns generalizing s events handlings with
  | zero => cases hdrain
  | succ turns ih =>
      rw [drain] at hdrain
      unfold readNext
      split at hdrain
      · rename_i world hread
        obtain ⟨rfl, rfl⟩ := Prod.mk.inj (Option.some.inj hdrain)
        obtain rfl := List.eq_nil_of_length_eq_zero hlength
        rw [hread]
        exact ⟨_, rfl, rfl, rfl, (List.append_nil _).symm⟩
      · rename_i event world hread
        obtain ⟨⟨rest, last'⟩, hrest, heq⟩ := Option.map_eq_some_iff.mp hdrain
        obtain ⟨rfl, rfl⟩ := Prod.mk.inj heq
        cases handlings with
        | nil => cases hlength
        | cons calls handlings =>
            rw [hread]
            dsimp only
            let handed : PinRun S n σ :=
              { s with
                world := world, calls := (i, c) :: s.calls
                log := .delivered c event :: .taken c event :: s.log }
            obtain ⟨s₁, hapi, hworld, hcalls, hpin₁, hlog⟩ :=
              run_api (s := handed) readEvent calls hpin
            have hhandled : step readEvent s₁ .handled
                = some (readNext readEvent { s₁ with calls := s.calls } i c) := by
              rw [step, hcalls]
              exact congrArg some (if_pos hpin₁)
            obtain ⟨s', hrun, hlast, hcalls', hdelivered⟩ :=
              ih (s := { s₁ with calls := s.calls }) (hworld ▸ hrest) hpin₁
                (Nat.succ.inj hlength)
            refine ⟨s', ?_, hlast, hcalls', ?_⟩
            · rw [List.flatMap_cons, handling, List.append_assoc]
              exact run_append.mpr ⟨s₁, hapi, run_cons.mpr ⟨_, hhandled, hrun⟩⟩
            · rw [hdelivered]
              show deliveredTo c s₁.log ++ rest = _
              rw [hlog]
              simp [handed, deliveredTo]

/-- One invocation of a pin event callable: `poll` and the handling of each event. -/
theorem invocation_drains (readEvent : ReadEvent σ) {turns : Nat} {events : List PinEvent}
    {last : σ} {l : EventLoop S n} (hpoll : s.loop.pollTask i = some (c, l))
    (hpin : s.isPin c = true)
    (hdrain : drain (readEvent c.reg) turns s.world = some (events, last))
    {handlings : List (List ApiCall)} (hlength : handlings.length = events.length) :
    ∃ s', run (step readEvent) s (.poll i :: handlings.flatMap handling) = some s'
      ∧ s'.world = last ∧ s'.calls = s.calls
      ∧ deliveredTo c s'.log = deliveredTo c s.log ++ events := by
  have hpolled : step readEvent s (.poll i)
      = some (readNext readEvent { s with loop := l } i c) := by
    rw [step, hpoll, Option.map_some]
    exact congrArg some (if_pos hpin)
  obtain ⟨s', hrun, hrest⟩ := run_readNext (s := { s with loop := l }) readEvent hdrain hpin hlength
  exact ⟨s', run_cons.mpr ⟨_, hpolled, hrun⟩, hrest⟩

/-- Every event that is pending in the source in memory is delivered in one invocation,
wherever in it the handler withdraws. -/
theorem memory_source_emptied {Capacity : Nat} {s : PinRun S n (MemoryPinEventSource Capacity)}
    {l : EventLoop S n} (hring : s.world.Ring) (hpoll : s.loop.pollTask i = some (c, l))
    (hpin : s.isPin c = true) {handlings : List (List ApiCall)}
    (hlength : handlings.length = s.world.pending.length) :
    ∃ s', run (step fun _ => MemoryPinEventSource.readEvent) s
        (.poll i :: handlings.flatMap handling) = some s'
      ∧ s'.world.pending = [] ∧ s'.calls = s.calls
      ∧ deliveredTo c s'.log = deliveredTo c s.log ++ s.world.pending := by
  obtain ⟨last, hdrain, -, hempty⟩ := hring.drain_pending
  obtain ⟨s', hrun, rfl, hcalls, hdelivered⟩ :=
    invocation_drains (fun _ => MemoryPinEventSource.readEvent) hpoll hpin hdrain hlength
  exact ⟨s', hrun, hempty, hcalls, hdelivered⟩

end PinRun

end AsyncEventLoop
