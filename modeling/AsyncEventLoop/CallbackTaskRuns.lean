import AsyncEventLoop.EventLoop
import AsyncEventLoop.Logs
import AsyncEventLoop.Runs
import Mathlib.Algebra.Ring.Nat

/-!
# The life of a stored callable

A run of one `CallbackTask`: its calls, made from outside or from the
callables it is executing, the returns of these, and its destruction. The
log is a ghost, newest first.

However the calls nest, a stored callable is destroyed once and not invoked
after a `clear` (`Accounts`). Two booleans do not know how deep the nesting
is, though: a `poll` from inside the callable takes the running invocation's
mark away when it returns, and a `set` that is refused has cleared the task
before. `keeps` is the condition under which neither shows, and `lawful_iff`
says that nothing else goes wrong.
-/

namespace AsyncEventLoop

open Logs Runs

namespace CallbackTask

/-- What `destroy_now` destroys. -/
def destroys (t : CallbackTask) : List Callable :=
  if t.active || t.clearRequested then t.callable.toList else []

/-- What `clear` destroys. -/
def clearDestroys (t : CallbackTask) : List Callable := if t.invoking then [] else t.destroys

/-- What `poll` destroys behind the call. -/
def leaveDestroys (t : CallbackTask) : List Callable := if t.clearRequested then t.destroys else []

end CallbackTask

inductive TaskAct where
  | stored (c : Callable)
  | refused (before after : CallbackTask)
  | cleared
  | invoked (c : Callable)
  | returned (c : Callable)
  | destroyed (c : Callable)
  deriving DecidableEq

inductive TaskEvent where
  | set
  | poll
  | setEnabled (enabled : Bool)
  | clear
  /-- The body of the innermost invocation comes to its end. -/
  | finish
  | destruct

/-- The task and the invocations under way, innermost first. The callable of each
`set` is a new one. -/
structure TaskRun where
  task : CallbackTask := {}
  calls : List Callable := []
  nextReg : Nat := 0
  gone : Bool := false
  log : List TaskAct := []

namespace TaskRun

def next (s : TaskRun) : Callable := ⟨s.nextReg, {}, false⟩

/-- The log behind `clear`. -/
def clearLog (s : TaskRun) : List TaskAct :=
  s.task.clearDestroys.map .destroyed ++ .cleared :: s.log

def step (s : TaskRun) (e : TaskEvent) : Option TaskRun :=
  if s.gone then none
  else
    match e with
    | .set =>
        let r := s.task.set s.next
        some { s with
          task := r.2, nextReg := s.nextReg + 1
          log := (if r.1 then .stored s.next else .refused s.task r.2) :: s.clearLog }
    | .poll =>
        match s.task.pollEnter with
        | some (c, task) =>
            some { s with task := task, calls := c :: s.calls, log := .invoked c :: s.log }
        | none => some s
    | .setEnabled enabled => some { s with task := s.task.setEnabled enabled }
    | .clear => some { s with task := s.task.clear, log := s.clearLog }
    | .finish =>
        match s.calls with
        | [] => none
        | c :: calls =>
            some { s with
              task := s.task.pollLeave, calls := calls
              log := s.task.leaveDestroys.map .destroyed ++ .returned c :: s.log }
    | .destruct =>
        if s.calls.isEmpty then
          some { s with
            task := s.task.destroyNow, gone := true
            log := s.task.destroys.map .destroyed ++ s.log }
        else none

/-- A `clear` or a `set` that finds no invocation marked is made outside all of
them, a `set` that is refused finds the task cleared, and a `poll` that has
a `clear` to make up for is not one from inside an invocation. -/
def keeps (s : TaskRun) (e : TaskEvent) : Bool :=
  match e with
  | .set => if s.task.invoking then !s.task.active else s.calls.isEmpty
  | .clear => s.task.invoking || s.calls.isEmpty
  | .finish => !s.task.clearRequested || s.calls.tail.isEmpty
  | _ => true

/-! ## What is to hold -/

/-- No callable is destroyed while an invocation of it is under way. -/
def Finished (a : TaskAct) (older : List TaskAct) : Prop :=
  ∀ c, a = .destroyed c → older.count (.invoked c) = older.count (.returned c)

/-- No callable is invoked that was not stored, or was cleared since then. -/
def Current (a : TaskAct) (older : List TaskAct) : Prop :=
  ∀ c, a = .invoked c → ∃ since before, older = since ++ .stored c :: before ∧ .cleared ∉ since

/-- A `set` that is refused leaves the callable and both flags alone. -/
def Untouched (a : TaskAct) (_older : List TaskAct) : Prop :=
  ∀ before after, a = .refused before after →
    after.callable = before.callable ∧ after.active = before.active
      ∧ after.enabled = before.enabled

structure Lawful (s : TaskRun) : Prop where
  destroyedOnce : ∀ c, s.log.count (.destroyed c) ≤ 1
  destroyedAtEnd : s.gone = true → ∀ c, .stored c ∈ s.log → .destroyed c ∈ s.log
  notUnderfoot : EachEntry Finished s.log
  notAfterClear : EachEntry Current s.log
  refusedKeeps : EachEntry Untouched s.log

/-! ## What every run keeps -/

/-- What the log says of the callables, whatever the nesting. -/
structure Accounts (s : TaskRun) : Prop where
  pending : ∀ c, s.task.callable = some c → (s.task.active || s.task.clearRequested) = true
  enabled : s.task.enabled = true → s.task.active = true
  calls : ∀ c, s.log.count (.invoked c) = s.log.count (.returned c) + s.calls.count c
  stored : ∀ c, s.log.count (.destroyed c) + s.task.callable.toList.count c
    = s.log.count (.stored c)
  once : ∀ c, s.log.count (.stored c) ≤ 1
  fresh : ∀ c, .stored c ∈ s.log → c.reg < s.nextReg
  gone : s.gone = true → s.task.callable = none
  since : ∀ c, s.task.callable = some c → s.task.active = true →
    ∃ since before, s.log = since ++ .stored c :: before ∧ .cleared ∉ since
  notAfterClear : EachEntry Current s.log

theorem accounts_init : Accounts {} where
  pending := by simp
  enabled := by simp
  calls := by simp
  stored := by simp
  once := by simp
  fresh := by simp
  gone := by simp
  since := by simp
  notAfterClear := eachEntry_nil _

/-- The task with a `clear` to make up for. -/
def requested (t : CallbackTask) : CallbackTask :=
  { t with active := false, enabled := false, clearRequested := true }

section

variable {s : TaskRun}

theorem Accounts.destroys_eq (h : Accounts s) : s.task.destroys = s.task.callable.toList := by
  unfold CallbackTask.destroys
  split
  · rfl
  · rename_i hidle
    cases hcallable : s.task.callable with
    | none => rfl
    | some c => exact absurd (h.pending c hcallable) hidle

/-- A `clear` up to what it destroys. -/
theorem Accounts.request (h : Accounts s) :
    Accounts { s with task := requested s.task, log := .cleared :: s.log } where
  pending _ _ := rfl
  enabled := by simp [requested]
  calls := by simpa [List.count_cons] using h.calls
  stored := by simpa [List.count_cons, requested] using h.stored
  once := by simpa [List.count_cons] using h.once
  fresh := by simpa using h.fresh
  gone := h.gone
  since := by simp [requested]
  notAfterClear := eachEntry_cons.mpr ⟨by simp [Current], h.notAfterClear⟩

/-- `destroy_now`. -/
theorem Accounts.drop (h : Accounts s) (gone : Bool) :
    Accounts { s with
      task := s.task.destroyNow, gone := gone
      log := s.task.destroys.map .destroyed ++ s.log } := by
  rw [h.destroys_eq]
  cases hcallable : s.task.callable with
  | none =>
      have hstored := h.stored
      rw [hcallable] at hstored
      exact ⟨by simp [CallbackTask.destroyNow], by simp [CallbackTask.destroyNow], h.calls,
        hstored, h.once, h.fresh, fun _ => rfl, by simp [CallbackTask.destroyNow],
        h.notAfterClear⟩
  | some c =>
      have hstored := h.stored
      rw [hcallable] at hstored
      refine ⟨by simp [CallbackTask.destroyNow], by simp [CallbackTask.destroyNow], ?_, ?_, ?_, ?_,
        fun _ => rfl, by simp [CallbackTask.destroyNow], ?_⟩
      · simpa [List.count_cons] using h.calls
      · intro d
        have hbeq : (TaskAct.destroyed c == .destroyed d) = (c == d) :=
          Function.Injective.beq_eq fun _ _ => TaskAct.destroyed.inj
        have hd := hstored d
        rw [Option.toList_some, List.count_singleton] at hd
        show (TaskAct.destroyed c :: s.log).count (.destroyed d) + 0
          = (TaskAct.destroyed c :: s.log).count (.stored d)
        rw [List.count_cons, List.count_cons_of_ne (by simp), hbeq]
        exact hd
      · simpa [List.count_cons] using h.once
      · simpa using h.fresh
      · exact eachEntry_cons.mpr ⟨by simp [Current], h.notAfterClear⟩

theorem Accounts.clear (h : Accounts s) :
    Accounts { s with task := s.task.clear, log := s.clearLog } := by
  unfold clearLog CallbackTask.clear CallbackTask.clearDestroys
  by_cases hinvoking : s.task.invoking = true
  · rw [if_pos hinvoking, if_pos hinvoking]
    exact h.request
  · have hdrop := h.request.drop s.gone
    rw [if_neg hinvoking, if_neg hinvoking, h.destroys_eq]
    rw [h.request.destroys_eq] at hdrop
    exact hdrop

/-- A `set` that stores its callable, on a task that has been cleared. -/
theorem Accounts.store (h : Accounts s) (hgone : s.gone = false)
    (hempty : s.task.callable = none) :
    Accounts { s with
      task := ⟨some s.next, true, true, false, false⟩, nextReg := s.nextReg + 1
      log := .stored s.next :: s.log } := by
  have hnew : .stored s.next ∉ s.log := fun hmem => Nat.lt_irrefl _ (h.fresh _ hmem)
  refine ⟨by simp, by simp, by simpa [List.count_cons] using h.calls, ?_, ?_, ?_,
    by simp [hgone], ?_, eachEntry_cons.mpr ⟨by simp [Current], h.notAfterClear⟩⟩
  · intro c
    have hc := h.stored c
    have hbeq : (TaskAct.stored s.next == .stored c) = (s.next == c) :=
      Function.Injective.beq_eq fun _ _ => TaskAct.stored.inj
    rw [hempty, Option.toList_none, List.count_nil, Nat.add_zero] at hc
    rw [Option.toList_some, List.count_singleton, List.count_cons_of_ne (by simp),
      List.count_cons, hbeq, hc]
  · intro c
    by_cases hc : c = s.next
    · rw [hc, List.count_cons_self, List.count_eq_zero_of_not_mem hnew]
    · rw [List.count_cons_of_ne fun heq => hc (TaskAct.stored.inj heq).symm]
      exact h.once c
  · intro c hmem
    rcases List.mem_cons.mp hmem with heq | hmem
    · rw [TaskAct.stored.inj heq]
      exact Nat.lt_succ_self _
    · exact Nat.lt_succ_of_lt (h.fresh c hmem)
  · intro c hc _
    obtain rfl := Option.some.inj hc
    exact ⟨[], s.log, rfl, List.not_mem_nil⟩

/-- A `set` that is refused, on a task that has been cleared. -/
theorem Accounts.refuse (h : Accounts s) (before after : CallbackTask) :
    Accounts { s with nextReg := s.nextReg + 1, log := .refused before after :: s.log } where
  pending := h.pending
  enabled := h.enabled
  calls := by simpa [List.count_cons] using h.calls
  stored := by simpa [List.count_cons] using h.stored
  once := by simpa [List.count_cons] using h.once
  fresh c hmem := Nat.lt_succ_of_lt (h.fresh c (by simpa using hmem))
  gone := h.gone
  since c hc hactive := by
    obtain ⟨since, before', hlog, hsince⟩ := h.since c hc hactive
    exact ⟨.refused before after :: since, before', by rw [hlog, List.cons_append], by
      simpa using hsince⟩
  notAfterClear := eachEntry_cons.mpr ⟨by simp [Current], h.notAfterClear⟩

theorem Accounts.invoke (h : Accounts s) {c : Callable} (hc : s.task.callable = some c)
    (hactive : s.task.active = true) :
    Accounts { s with
      task := { s.task with invoking := true }, calls := c :: s.calls
      log := .invoked c :: s.log } where
  pending := h.pending
  enabled := h.enabled
  calls d := by
    have hbeq : (TaskAct.invoked c == .invoked d) = (c == d) :=
      Function.Injective.beq_eq fun _ _ => TaskAct.invoked.inj
    rw [List.count_cons, List.count_cons_of_ne (by simp), List.count_cons, hbeq, h.calls d,
      Nat.add_assoc]
  stored := by simpa [List.count_cons] using h.stored
  once := by simpa [List.count_cons] using h.once
  fresh := by simpa using h.fresh
  gone := h.gone
  since d hd hd' := by
    obtain ⟨since, before, hlog, hsince⟩ := h.since d hd hd'
    exact ⟨.invoked c :: since, before, by rw [hlog, List.cons_append], by simpa using hsince⟩
  notAfterClear := by
    refine eachEntry_cons.mpr ⟨?_, h.notAfterClear⟩
    intro d hd
    rw [← TaskAct.invoked.inj hd]
    exact h.since c hc hactive

/-- The end of a body, up to what `poll` does then. -/
theorem Accounts.leave (h : Accounts s) {c : Callable} {calls : List Callable}
    (hcalls : s.calls = c :: calls) :
    Accounts { s with
      task := { s.task with invoking := false }, calls := calls
      log := .returned c :: s.log } where
  pending := h.pending
  enabled := h.enabled
  calls d := by
    have hbeq : (TaskAct.returned c == .returned d) = (c == d) :=
      Function.Injective.beq_eq fun _ _ => TaskAct.returned.inj
    rw [List.count_cons_of_ne (by simp), List.count_cons, hbeq, h.calls d, hcalls,
      List.count_cons]
    dsimp only
    omega
  stored := by simpa [List.count_cons] using h.stored
  once := by simpa [List.count_cons] using h.once
  fresh := by simpa using h.fresh
  gone := h.gone
  since d hd hd' := by
    obtain ⟨since, before, hlog, hsince⟩ := h.since d hd hd'
    exact ⟨.returned c :: since, before, by rw [hlog, List.cons_append], by simpa using hsince⟩
  notAfterClear := eachEntry_cons.mpr ⟨by simp [Current], h.notAfterClear⟩

theorem Accounts.setEnabled (h : Accounts s) (enabled : Bool) :
    Accounts { s with task := s.task.setEnabled enabled } := by
  unfold CallbackTask.setEnabled
  split
  · rename_i hactive
    exact ⟨h.pending, fun _ => hactive, h.calls, h.stored, h.once, h.fresh, h.gone, h.since,
      h.notAfterClear⟩
  · exact h

/-- **The step**, whatever the nesting. -/
theorem Accounts.step {s' : TaskRun} {e : TaskEvent} (h : Accounts s)
    (hstep : s.step e = some s') : Accounts s' := by
  unfold TaskRun.step at hstep
  split at hstep
  · cases hstep
  · rename_i hgone
    have hlive : s.gone = false := Bool.eq_false_iff.mpr hgone
    cases e with
    | set =>
        obtain rfl := Option.some.inj hstep
        by_cases hinvoking : s.task.invoking = true
        · rw [CallbackTask.set_busy hinvoking]
          exact h.clear.refuse s.task s.task.clear
        · have hidle : s.task.invoking = false := Bool.eq_false_iff.mpr hinvoking
          rw [CallbackTask.set_idle hidle]
          refine h.clear.store hlive ?_
          simp [CallbackTask.clear, hidle, CallbackTask.destroyNow]
    | poll =>
        dsimp only at hstep
        split at hstep
        · rename_i c task hpoll
          obtain ⟨hc, hactive, -, rfl⟩ := CallbackTask.pollEnter_eq_some hpoll
          obtain rfl := Option.some.inj hstep
          exact h.invoke hc hactive
        · exact Option.some.inj hstep ▸ h
    | setEnabled enabled => exact Option.some.inj hstep ▸ h.setEnabled enabled
    | clear => exact Option.some.inj hstep ▸ h.clear
    | finish =>
        dsimp only at hstep
        split at hstep
        · cases hstep
        · rename_i c calls hcalls
          obtain rfl := Option.some.inj hstep
          have hleft := h.leave hcalls
          unfold CallbackTask.pollLeave CallbackTask.leaveDestroys
          dsimp only
          by_cases hrequested : s.task.clearRequested = true
          · rw [if_pos hrequested, if_pos hrequested]
            exact hleft.drop s.gone
          · rw [if_neg hrequested, if_neg hrequested]
            exact hleft
    | destruct =>
        obtain ⟨-, heq⟩ := Option.ite_none_right_eq_some.mp hstep
        exact Option.some.inj heq ▸ h.drop true

theorem log_suffix_clearLog (s : TaskRun) : s.log <:+ s.clearLog :=
  (List.suffix_cons _ _).trans (List.suffix_append _ _)

/-- The log is only added to. -/
theorem log_suffix {s' : TaskRun} {e : TaskEvent} (hstep : s.step e = some s') :
    s.log <:+ s'.log := by
  unfold TaskRun.step at hstep
  split at hstep
  · cases hstep
  · cases e with
    | set => exact Option.some.inj hstep ▸ (log_suffix_clearLog s).trans (List.suffix_cons _ _)
    | poll =>
        dsimp only at hstep
        split at hstep
        · exact Option.some.inj hstep ▸ List.suffix_cons _ _
        · exact Option.some.inj hstep ▸ List.suffix_refl _
    | setEnabled => exact Option.some.inj hstep ▸ List.suffix_refl _
    | clear => exact Option.some.inj hstep ▸ log_suffix_clearLog s
    | finish =>
        dsimp only at hstep
        split at hstep
        · cases hstep
        · exact Option.some.inj hstep ▸ (List.suffix_cons _ _).trans (List.suffix_append _ _)
    | destruct =>
        obtain ⟨-, heq⟩ := Option.ite_none_right_eq_some.mp hstep
        exact Option.some.inj heq ▸ List.suffix_append _ _

/-! ## Where the nesting shows -/

/-- As long as every step has met the condition, only the stored callable is
executing. -/
structure Intact (s : TaskRun) : Prop where
  current : ∀ c ∈ s.calls, s.task.callable = some c
  notUnderfoot : EachEntry Finished s.log
  refusedKeeps : EachEntry Untouched s.log

def Spoilt (s : TaskRun) : Prop := ¬(EachEntry Finished s.log ∧ EachEntry Untouched s.log)

/-- Destroying what is stored, outside all invocations. -/
theorem finished_drop {log : List TaskAct} (h : EachEntry Finished log) {stored : Option Callable}
    (hidle : ∀ c, log.count (.invoked c) = log.count (.returned c)) :
    EachEntry Finished (stored.toList.map .destroyed ++ log) := by
  cases stored with
  | none => exact h
  | some c =>
      refine eachEntry_cons.mpr ⟨?_, h⟩
      intro d _
      exact hidle d

/-- Destroying what is executing. -/
theorem not_finished_drop {log : List TaskAct} {c : Callable}
    (hbusy : log.count (.invoked c) ≠ log.count (.returned c)) :
    ¬EachEntry Finished ((some c).toList.map .destroyed ++ log) :=
  fun h => hbusy ((eachEntry_cons.mp h).1 c rfl)

theorem Accounts.busy (h : Accounts s) {c : Callable} (hc : c ∈ s.calls) :
    s.log.count (.invoked c) ≠ s.log.count (.returned c) := by
  have hpos := List.count_pos_iff.mpr hc
  have := h.calls c
  omega

theorem Accounts.idle (h : Accounts s) (hcalls : s.calls = []) (c : Callable) :
    s.log.count (.invoked c) = s.log.count (.returned c) := by
  rw [h.calls c, hcalls, List.count_nil, Nat.add_zero]

/-- A `clear` that finds no invocation marked. -/
theorem Intact.clearLog_iff (ha : Accounts s) (h : Intact s) (hidle : s.task.invoking = false) :
    EachEntry Finished s.clearLog ↔ s.calls = [] := by
  have hlog : s.clearLog
      = s.task.callable.toList.map .destroyed ++ (.cleared :: s.log) := by
    rw [clearLog, CallbackTask.clearDestroys, hidle, if_neg Bool.false_ne_true, ha.destroys_eq]
  rw [hlog]
  constructor
  · intro hfinished
    cases hcalls : s.calls with
    | nil => rfl
    | cons c calls =>
        have hmem : c ∈ s.calls := hcalls ▸ List.mem_cons_self ..
        rw [h.current c hmem] at hfinished
        exact absurd hfinished (not_finished_drop (by
          simpa [List.count_cons] using ha.busy hmem))
  · intro hcalls
    refine finished_drop (eachEntry_cons.mpr ⟨by simp [Finished], h.notUnderfoot⟩) ?_
    intro c
    simpa [List.count_cons] using ha.idle hcalls c

theorem untouched_destroyed {log : List TaskAct} (h : EachEntry Untouched log)
    (cs : List Callable) : EachEntry Untouched (cs.map .destroyed ++ log) :=
  h.append (by simp [Untouched])

theorem untouched_clearLog (h : EachEntry Untouched s.log) : EachEntry Untouched s.clearLog :=
  untouched_destroyed (eachEntry_cons.mpr ⟨by simp [Untouched], h⟩) _

theorem Intact.clear_busy (h : Intact s) (hinvoking : s.task.invoking = true) :
    Intact { s with task := s.task.clear, log := s.clearLog } := by
  have hlog : s.clearLog = .cleared :: s.log := by
    rw [clearLog, CallbackTask.clearDestroys, if_pos hinvoking]
    rfl
  refine ⟨?_, ?_, untouched_clearLog h.refusedKeeps⟩
  · rw [CallbackTask.clear, if_pos hinvoking]
    exact h.current
  · rw [hlog]
    exact eachEntry_cons.mpr ⟨by simp [Finished], h.notUnderfoot⟩

/-- A `set` that is refused has withdrawn the callable, unless that was done
before. -/
theorem Intact.refuse (ha : Accounts s) (h : Intact s) (hinvoking : s.task.invoking = true) :
    (s.task.active = false ∧ Intact { s with
        task := s.task.clear, nextReg := s.nextReg + 1
        log := .refused s.task s.task.clear :: s.clearLog })
      ∨ (s.task.active = true
        ∧ ¬EachEntry Untouched (.refused s.task s.task.clear :: s.clearLog)) := by
  have hkept := h.clear_busy hinvoking
  have hclear : s.task.clear = requested s.task := by
    rw [CallbackTask.clear, if_pos hinvoking]
    rfl
  cases hactive : s.task.active with
  | false =>
      have henabled : s.task.enabled = false :=
        Bool.eq_false_iff.mpr fun htrue => by
          rw [ha.enabled htrue] at hactive
          cases hactive
      refine Or.inl ⟨rfl, hkept.current,
        eachEntry_cons.mpr ⟨by simp [Finished], hkept.notUnderfoot⟩,
        eachEntry_cons.mpr ⟨?_, hkept.refusedKeeps⟩⟩
      intro before after heq
      obtain ⟨rfl, rfl⟩ := TaskAct.refused.inj heq
      rw [hclear]
      exact ⟨rfl, hactive.symm, henabled.symm⟩
  | true =>
      refine Or.inr ⟨rfl, fun hall => ?_⟩
      obtain ⟨-, hflag, -⟩ := (eachEntry_cons.mp hall).1 s.task s.task.clear rfl
      rw [CallbackTask.clear_active, hactive] at hflag
      cases hflag

/-- The end of an invocation, which may have a `clear` to make up for. -/
theorem Intact.leave (ha : Accounts s) (h : Intact s) {c : Callable} {calls : List Callable}
    (hcalls : s.calls = c :: calls) {s' : TaskRun}
    (hs' : s' = { s with
      task := s.task.pollLeave, calls := calls
      log := s.task.leaveDestroys.map .destroyed ++ .returned c :: s.log }) :
    (s.keeps .finish = true ∧ Intact s') ∨ (s.keeps .finish = false ∧ Spoilt s') := by
  have hcurrent : ∀ d ∈ calls, s.task.callable = some d :=
    fun d hd => h.current d (hcalls ▸ List.mem_cons_of_mem _ hd)
  have hfinished : EachEntry Finished (.returned c :: s.log) :=
    eachEntry_cons.mpr ⟨by simp [Finished], h.notUnderfoot⟩
  have huntouched : EachEntry Untouched (.returned c :: s.log) :=
    eachEntry_cons.mpr ⟨by simp [Untouched], h.refusedKeeps⟩
  have hleft := ha.leave hcalls
  subst hs'
  unfold CallbackTask.leaveDestroys CallbackTask.pollLeave
  cases hrequested : s.task.clearRequested with
  | false =>
      refine Or.inl ⟨by simp [keeps, hrequested], ?_, hfinished, huntouched⟩
      rw [if_neg Bool.false_ne_true]
      exact hcurrent
  | true =>
      rw [if_pos rfl, ha.destroys_eq]
      by_cases hrest : calls = []
      · exact Or.inl ⟨by simp [keeps, hcalls, hrest], by simp [hrest],
          finished_drop hfinished (hleft.idle hrest), untouched_destroyed huntouched _⟩
      · -- another invocation of the same callable is still under way
        obtain ⟨d, hd⟩ := List.exists_mem_of_ne_nil calls hrest
        refine Or.inr ⟨by simp [keeps, hrequested, hcalls, hrest], fun hgood => ?_⟩
        have hdropped := hgood.1
        dsimp only at hdropped
        rw [hcurrent d hd] at hdropped
        exact not_finished_drop (hleft.busy hd) hdropped

/-- **The step**: what meets the condition goes well, what does not goes wrong. -/
theorem Intact.step {s' : TaskRun} {e : TaskEvent} (ha : Accounts s) (h : Intact s)
    (hstep : s.step e = some s') :
    (s.keeps e = true ∧ Intact s') ∨ (s.keeps e = false ∧ Spoilt s') := by
  unfold TaskRun.step at hstep
  split at hstep
  · cases hstep
  · cases e with
    | set =>
        obtain rfl := Option.some.inj hstep
        cases hinvoking : s.task.invoking with
        | true =>
            rw [CallbackTask.set_busy hinvoking]
            rcases h.refuse ha hinvoking with ⟨hactive, hkept⟩ | ⟨hactive, hspoilt⟩
            · exact Or.inl ⟨by simp [keeps, hinvoking, hactive], hkept⟩
            · exact Or.inr ⟨by simp [keeps, hinvoking, hactive], fun hgood => hspoilt hgood.2⟩
        | false =>
            have hiff := h.clearLog_iff ha hinvoking
            rw [CallbackTask.set_idle hinvoking]
            by_cases hcalls : s.calls = []
            · refine Or.inl ⟨by simp [keeps, hinvoking, hcalls], by simp [hcalls], ?_, ?_⟩
              · exact eachEntry_cons.mpr ⟨by simp [Finished], hiff.mpr hcalls⟩
              · exact eachEntry_cons.mpr ⟨by simp [Untouched], untouched_clearLog h.refusedKeeps⟩
            · refine Or.inr ⟨by simp [keeps, hinvoking, hcalls], fun hgood => hcalls ?_⟩
              exact hiff.mp (eachEntry_cons.mp hgood.1).2
    | poll =>
        dsimp only at hstep
        split at hstep
        · rename_i c task hpoll
          obtain ⟨hc, -, -, rfl⟩ := CallbackTask.pollEnter_eq_some hpoll
          obtain rfl := Option.some.inj hstep
          exact Or.inl ⟨rfl, List.forall_mem_cons.mpr ⟨hc, h.current⟩,
            eachEntry_cons.mpr ⟨by simp [Finished], h.notUnderfoot⟩,
            eachEntry_cons.mpr ⟨by simp [Untouched], h.refusedKeeps⟩⟩
        · exact Or.inl ⟨rfl, Option.some.inj hstep ▸ h⟩
    | setEnabled enabled =>
        obtain rfl := Option.some.inj hstep
        refine Or.inl ⟨rfl, ?_, h.notUnderfoot, h.refusedKeeps⟩
        unfold CallbackTask.setEnabled
        split <;> exact h.current
    | clear =>
        obtain rfl := Option.some.inj hstep
        cases hinvoking : s.task.invoking with
        | true => exact Or.inl ⟨by simp [keeps, hinvoking], h.clear_busy hinvoking⟩
        | false =>
            have hiff := h.clearLog_iff ha hinvoking
            by_cases hcalls : s.calls = []
            · exact Or.inl ⟨by simp [keeps, hcalls], by simp [hcalls], hiff.mpr hcalls,
                untouched_clearLog h.refusedKeeps⟩
            · exact Or.inr ⟨by simp [keeps, hinvoking, hcalls],
                fun hgood => hcalls (hiff.mp hgood.1)⟩
    | finish =>
        dsimp only at hstep
        split at hstep
        · cases hstep
        · exact h.leave ha ‹_› (Option.some.inj hstep).symm
    | destruct =>
        obtain ⟨hcalls, heq⟩ := Option.ite_none_right_eq_some.mp hstep
        obtain rfl := Option.some.inj heq
        rw [List.isEmpty_iff] at hcalls
        rw [ha.destroys_eq]
        exact Or.inl ⟨rfl, by simp [hcalls], finished_drop h.notUnderfoot (ha.idle hcalls),
          untouched_destroyed h.refusedKeeps _⟩

theorem Spoilt.step {s' : TaskRun} {e : TaskEvent} (h : Spoilt s)
    (hstep : s.step e = some s') : Spoilt s' := by
  obtain ⟨acts, hlog⟩ := log_suffix hstep
  unfold Spoilt at h ⊢
  rw [← hlog]
  exact fun hgood => h ⟨hgood.1.of_append, hgood.2.of_append⟩

theorem Accounts.lawful (ha : Accounts s) (h : Intact s) : Lawful s where
  destroyedOnce c := by
    have hstored := ha.stored c
    have honce := ha.once c
    omega
  destroyedAtEnd hgone c hc := by
    have hstored := ha.stored c
    have hpos := List.count_pos_iff.mpr hc
    rw [ha.gone hgone, Option.toList_none, List.count_nil] at hstored
    exact List.count_pos_iff.mp (by omega)
  notUnderfoot := h.notUnderfoot
  notAfterClear := ha.notAfterClear
  refusedKeeps := h.refusedKeeps

end

theorem sound_init : Accounts {} ∧ Intact {} :=
  ⟨accounts_init, by simp, eachEntry_nil _, eachEntry_nil _⟩

/-- A run of a task is lawful exactly if each of its steps meets the condition. -/
theorem lawful_iff {es : List TaskEvent} {s : TaskRun} (hrun : run step {} es = some s) :
    Lawful s ↔ run (restrict keeps step) {} es = some s := by
  have hsound : ∀ s e s', Accounts s ∧ Intact s → step s e = some s' →
      (s.keeps e = true ∧ Accounts s' ∧ Intact s') ∨ (s.keeps e = false ∧ Spoilt s') := by
    rintro s e s' ⟨haccounts, hintact⟩ hstep
    have hkept := haccounts.step hstep
    rcases hintact.step haccounts hstep with ⟨hkeeps, hstill⟩ | ⟨hkeeps, hspoilt⟩
    · exact Or.inl ⟨hkeeps, hkept, hstill⟩
    · exact Or.inr ⟨hkeeps, hspoilt⟩
  have hspoilt : ∀ s e s', Spoilt s → step s e = some s' → Spoilt s' :=
    fun _ _ _ h hstep => h.step hstep
  have hgood : ∀ s, Accounts s ∧ Intact s → Lawful s := fun _ h => h.1.lawful h.2
  have hbad : ∀ s, Spoilt s → ¬Lawful s :=
    fun _ h hlawful => h ⟨hlawful.notUnderfoot, hlawful.refusedKeeps⟩
  exact run_blame hsound hspoilt hgood hbad sound_init hrun

/-- A callable that polls its task, disables and clears it; a new one that goes
with the task. -/
theorem lawful_iff_run :
    ∃ s, run step {} [.set, .poll, .setEnabled false, .poll, .clear, .finish, .set, .poll,
        .finish, .destruct] = some s ∧ s.gone = true ∧ Lawful s := by
  have hend : (run (restrict keeps step) {} [.set, .poll, .setEnabled false, .poll, .clear,
      .finish, .set, .poll, .finish, .destruct]).map (·.gone) = some true := rfl
  obtain ⟨s, hrun, hgone⟩ := Option.map_eq_some_iff.mp hend
  exact ⟨s, run_of_restrict hrun, hgone, (lawful_iff (run_of_restrict hrun)).mpr hrun⟩

/-- A `clear` behind a nested `poll` destroys the callable that makes it, and a
`set` from inside a callable is refused, but disables it. -/
theorem lawful_fails :
    (∃ s, run step {} [.set, .poll, .poll, .finish, .clear] = some s ∧ ¬Lawful s)
      ∧ ∃ s, run step {} [.set, .poll, .set] = some s ∧ ¬Lawful s := by
  refine ⟨⟨_, rfl, fun h => ?_⟩, ⟨_, rfl, fun h => ?_⟩⟩
  · have hcount := h.notUnderfoot [] _ _ rfl ⟨0, {}, false⟩ rfl
    exact absurd hcount (by decide)
  · have hflag := (h.refusedKeeps [] _ _ rfl _ _ rfl).2.1
    exact absurd hflag (by decide)

end TaskRun

end AsyncEventLoop
