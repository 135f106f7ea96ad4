import AsyncEventLoop.ArduinoRuns

/-!
# Removal is final

Tasks may call anything from their `poll`, also `run_once`, and `run_once`
goes on behind the call with a reference into an array that has been
shifted, blanked and refilled meanwhile. What saves it is that the cells
behind the count are blank (`Clean`): the reference denotes an entry, or a
blank cell, which is skipped like a removed one. So the entries' tasks only
ever come from registrations (`Carries`).

The steps are those of `ArduinoRuns`, with the clock readings left free.
-/

namespace AsyncEventLoop

open Runs FixedArray

namespace ArduinoLoop

variable {n : Nat}

/-- The cells behind the count are blank. -/
structure Clean (l : ArduinoLoop n) : Prop where
  bounded : l.taskCount ≤ n
  blank : ∀ i, l.taskCount ≤ i → l.tasks[i]?.getD {} = {}

/-- Some entry is for the task. -/
def Refers (l : ArduinoLoop n) (task : Nat) : Prop := ∃ slot ∈ l.entries, slot.task = some task

/-- What an operation does: the cells behind the count stay blank, and the tasks
of the entries are old ones, or the one that is registered. -/
structure Carries (l l' : ArduinoLoop n) (added : Option Nat) : Prop where
  clean : Clean l'
  refers : ∀ task, Refers l' task → Refers l task ∨ added = some task

theorem Carries.trans {l m l' : ArduinoLoop n} {added : Option Nat} (h : Carries l m none)
    (h' : Carries m l' added) : Carries l l' added := by
  refine ⟨h'.clean, ?_⟩
  intro task ht
  rcases h'.refers task ht with hm | hadded
  · exact Or.inl ((h.refers task hm).resolve_right nofun)
  · exact Or.inr hadded

/-- Every entry of `l'` is one of `l`. -/
theorem carries_of_subset {l l' : ArduinoLoop n} (hclean : Clean l')
    (hsub : ∀ slot ∈ l'.entries, slot ∈ l.entries) : Carries l l' none :=
  ⟨hclean, fun _ ⟨slot, hslot, htask⟩ => Or.inl ⟨slot, hsub slot hslot, htask⟩⟩

theorem clean_init : Clean ({} : ArduinoLoop n) := by
  refine ⟨Nat.zero_le n, ?_⟩
  intro i _
  change (Vector.replicate n {})[i]?.getD {} = ({} : TaskSlot)
  rw [Vector.getElem?_replicate]
  split <;> rfl

/-! ## The operations -/

theorem eraseTask_clean {l : ArduinoLoop n} (h : Clean l) (index : Nat) :
    Clean (l.eraseTask index) := by
  unfold eraseTask
  split
  · exact h
  · rename_i hi
    have hb := h.bounded
    refine ⟨Nat.le_trans (Nat.sub_le ..) hb, ?_⟩
    intro i hle
    dsimp only at hle ⊢
    rw [Vector.getElem?_setIfInBounds]
    by_cases hlast : l.taskCount - 1 = i
    · rw [if_pos hlast]
      split <;> rfl
    · rw [if_neg hlast, shiftDown_getElem? l.tasks {} (Nat.lt_of_not_ge hi) hb,
        if_neg (by omega)]
      exact h.blank i (by omega)

theorem compactFrom_clean {l : ArduinoLoop n} (h : Clean l) (turns i : Nat) :
    Clean (compactFrom turns i l) := by
  induction turns generalizing i l with
  | zero => exact h
  | succ turns ih =>
      unfold compactFrom
      split
      · split
        · exact ih h _
        · exact ih (eraseTask_clean h i) _
      · exact h

theorem compactInactive_carries {l : ArduinoLoop n} (h : Clean l) :
    Carries l l.compactInactive none := by
  refine carries_of_subset (compactFrom_clean h _ _) ?_
  intro slot hslot
  rw [(compactInactive_spec h.bounded).1] at hslot
  exact (mem_liveSlots.mp hslot).1

theorem pushTask_carries {l : ArduinoLoop n} (h : Clean l) {slot : TaskSlot} {task : Nat}
    (htask : slot.task = some task) : Carries l (l.pushTask slot).2 (some task) := by
  obtain ⟨-, hent, hle, -⟩ := pushTask_spec h.bounded slot
  refine ⟨⟨hle, ?_⟩, ?_⟩
  · intro i hi
    unfold pushTask at hi ⊢
    by_cases hfull : l.taskCount ≥ n
    · rw [dif_pos hfull] at hi ⊢
      exact h.blank i hi
    · rw [dif_neg hfull] at hi ⊢
      dsimp only at hi ⊢
      rw [Vector.getElem?_set, if_neg (by omega)]
      exact h.blank i (by omega)
  · rintro t ⟨x, hx, hxt⟩
    rw [hent, List.mem_append] at hx
    rcases hx with hx | hx
    · exact Or.inl ⟨x, hx, hxt⟩
    · split at hx
      · rw [List.mem_singleton.mp hx, htask] at hxt
        exact Or.inr hxt
      · cases hx

theorem addPeriodic_carries {l : ArduinoLoop n} (h : Clean l) (task : Nat)
    (periodUs now : UInt64) (reg : Nat) :
    Carries l (l.addPeriodic task periodUs now reg).2 (some task) := by
  have hcompact := compactInactive_carries h
  unfold addPeriodic
  dsimp only
  split
  · exact ⟨hcompact.clean, fun t ht => Or.inl ((hcompact.refers t ht).resolve_right nofun)⟩
  · exact hcompact.trans (pushTask_carries hcompact.clean rfl)

theorem addOneShot_carries {l : ArduinoLoop n} (h : Clean l) (task : Nat) (dueUs : UInt64)
    (reg : Nat) : Carries l (l.addOneShot task dueUs reg).2 (some task) :=
  (compactInactive_carries h).trans (pushTask_carries (compactInactive_carries h).clean rfl)

theorem markRemoved_carries {l : ArduinoLoop n} (h : Clean l) (task : Nat) :
    Carries l (l.markRemoved task) none ∧ ¬ Refers (l.markRemoved task) task := by
  obtain ⟨hent, -, -⟩ := markRemoved_spec h.bounded task
  have hmarked : ∀ x ∈ (l.markRemoved task).entries, ∀ t, x.task = some t →
      t ≠ task ∧ x ∈ l.entries := by
    intro x hx t hxt
    rw [hent, List.mem_map] at hx
    obtain ⟨y, hy, rfl⟩ := hx
    by_cases hyt : y.task = some task
    · rw [TaskSlot.markedFor, if_pos hyt] at hxt
      cases hxt
    · rw [TaskSlot.markedFor, if_neg hyt] at hxt ⊢
      exact ⟨fun heq => hyt (heq ▸ hxt), hy⟩
  refine ⟨⟨⟨h.bounded, ?_⟩, fun t ⟨x, hx, hxt⟩ =>
    Or.inl ⟨x, (hmarked x hx t hxt).2, hxt⟩⟩, fun ⟨x, hx, hxt⟩ => (hmarked x hx _ hxt).1 rfl⟩
  intro i hi
  have hold := h.blank i hi
  unfold markRemoved
  dsimp only at hi ⊢
  rw [Vector.getElem?_mapIdx]
  cases hcell : l.tasks[i]? with
  | none => rfl
  | some slot =>
      rw [hcell] at hold
      have hout : ¬(i < l.taskCount ∧ slot.task = some task) := fun hin =>
        absurd hin.1 (Nat.not_lt.mpr hi)
      rw [Option.map_some, if_neg hout]
      exact hold

theorem remove_carries {l : ArduinoLoop n} (h : Clean l) (task : Nat) :
    Carries l (l.remove task).2 none ∧ ¬ Refers (l.remove task).2 task := by
  obtain ⟨hmark, hgone⟩ := markRemoved_carries h task
  have hcompact := compactInactive_carries hmark.clean
  cases hrun : l.running with
  | true => exact remove_running hrun task ▸ ⟨hmark, hgone⟩
  | false =>
      rw [remove_idle hrun]
      exact ⟨hmark.trans hcompact, fun ht => hgone ((hcompact.refers task ht).resolve_right nofun)⟩

theorem beginPass_carries {l : ArduinoLoop n} (h : Clean l) : Carries l l.beginPass none :=
  (compactInactive_carries h).trans
    ⟨⟨(compactInactive_carries h).clean.bounded, (compactInactive_carries h).clean.blank⟩,
      fun _ => Or.inl⟩

theorem endPass_carries {l : ArduinoLoop n} (h : Clean l) : Carries l l.endPass none := by
  let stopped : ArduinoLoop n := { l with running := false }
  have hstopped : Clean stopped := ⟨h.bounded, h.blank⟩
  exact ⟨(compactInactive_carries hstopped).clean, (compactInactive_carries hstopped).refers⟩

/-- The other cells are left alone. -/
theorem afterPoll_other {l l' : ArduinoLoop n} {now : UInt64} {i j : Nat} (hij : i ≠ j)
    (h : l.afterPoll now i = some l') : l'.tasks[j]? = l.tasks[j]? := by
  unfold afterPoll at h
  dsimp only at h
  split at h
  · obtain rfl := Option.some.inj h
    rfl
  · split at h
    · obtain ⟨due, -, rfl⟩ := Option.map_eq_some_iff.mp h
      exact Vector.getElem?_setIfInBounds_ne hij
    · obtain rfl := Option.some.inj h
      exact Vector.getElem?_setIfInBounds_ne hij

/-- Behind a `poll` the reference denotes a live entry, or nothing happens. -/
theorem afterPoll_carries {l l' : ArduinoLoop n} (h : Clean l) {now : UInt64} {i : Nat}
    (hl' : l.afterPoll now i = some l') : Carries l l' none := by
  by_cases hi : i < l.taskCount
  · have hslot := cell_eq h.bounded i hi
    obtain ⟨slot', hfin, hent, hcount, -⟩ := afterPoll_spec h.bounded hslot hl'
    refine ⟨⟨hcount ▸ h.bounded, ?_⟩, ?_⟩
    · intro j hj
      rw [hcount] at hj
      rw [afterPoll_other (by omega) hl']
      exact h.blank j hj
    · rintro t ⟨x, hx, hxt⟩
      rw [hent] at hx
      rcases List.mem_or_eq_of_mem_set hx with hx | rfl
      · exact Or.inl ⟨x, hx, hxt⟩
      · refine Or.inl ⟨_, List.mem_of_getElem? hslot, ?_⟩
        cases hfin with
        | gone => exact hxt
        | rearmed => exact hxt
        | fired => cases hxt
  · have hblank := h.blank i (Nat.le_of_not_lt hi)
    unfold afterPoll at hl'
    rw [hblank] at hl'
    obtain rfl := Option.some.inj hl'
    exact ⟨h, fun _ => Or.inl⟩

/-! ## Steps -/

/-- One event, whatever the clock has read before. -/
def stepAnyClock (s : LoopState n) (e : LoopEvent) : Option (LoopState n) :=
  step { s with clock := 0 } e

/-- The task an event registers. -/
def registers : LoopEvent → Option Nat
  | .addPeriodic task _ _ => some task
  | .addOneShot task _ => some task
  | _ => none

/-- The cell the loop of `run_once` polls next from cell `i` on. -/
def duePoll (l : ArduinoLoop n) (now : UInt64) (i : Nat) : Option (TaskSlot × UInt64) :=
  (l.nextDue now i).map fun j => (l.tasks[j]?.getD {}, now)

/-- The cell an event polls, as it is then, and the clock reading of the pass. -/
def polled (s : LoopState n) : LoopEvent → Option (TaskSlot × UInt64)
  | .runOnce now => duePoll s.loop.beginPass now 0
  | .pollReturns =>
      match s.frames with
      | [] => none
      | f :: _ => (s.loop.afterPoll f.now f.index).bind fun l => duePoll l f.now (f.index + 1)
  | _ => none

/-- A step polls what `polled` says it does: the frame it leaves is on that cell,
and the log gains that one poll. -/
structure Polls (s' : LoopState n) (log : List LoopObs) (slot : TaskSlot) (now : UInt64) :
    Prop where
  frame : ∃ f rest, s'.frames = f :: rest ∧ f.now = now ∧ s'.loop.tasks[f.index]?.getD {} = slot
  log : s'.log = .polled slot.reg now :: log

theorem advance_polls (s : LoopState n) (now : UInt64) (i : Nat) :
    (duePoll s.loop now i = none ∧ (advance s now i).log = s.log)
      ∨ ∃ slot, duePoll s.loop now i = some (slot, now)
        ∧ Polls (advance s now i) s.log slot now := by
  unfold duePoll advance
  cases hnext : s.loop.nextDue now i with
  | none => exact Or.inl ⟨rfl, rfl⟩
  | some j => exact Or.inr ⟨_, rfl, ⟨_, _, rfl, rfl, rfl⟩, rfl⟩

theorem step_polls {s s' : LoopState n} {e : LoopEvent} (hstep : stepAnyClock s e = some s') :
    (polled s e = none ∧ ∀ reg, polls s'.log reg = polls s.log reg)
      ∨ ∃ slot now, polled s e = some (slot, now) ∧ Polls s' s.log slot now := by
  cases e with
  | addPeriodic task periodUs now =>
      simp only [stepAnyClock, step] at hstep
      split at hstep
      · cases hstep
      · obtain rfl := Option.some.inj hstep
        exact Or.inl ⟨rfl, fun _ => rfl⟩
  | addOneShot task dueUs =>
      obtain rfl := Option.some.inj hstep
      refine Or.inl ⟨rfl, ?_⟩
      intro reg
      dsimp only
      split
      · exact polls_append_of_not_poll (m := [_]) (by simp [LoopObs.isPollOf])
      · rfl
  | remove task =>
      obtain rfl := Option.some.inj hstep
      refine Or.inl ⟨rfl, fun reg => polls_append_of_not_poll ?_⟩
      intro obs hobs
      obtain ⟨_, -, -, rfl⟩ := mem_removals.mp hobs
      rfl
  | runOnce now =>
      simp only [stepAnyClock, step] at hstep
      split at hstep
      · cases hstep
      · obtain rfl := Option.some.inj hstep
        rcases advance_polls { s with loop := s.loop.beginPass, clock := now } now 0
          with ⟨hnone, hlog⟩ | ⟨slot, hsome, hpolls⟩
        · exact Or.inl ⟨hnone, fun reg => by rw [hlog]⟩
        · exact Or.inr ⟨slot, now, hsome, hpolls⟩
  | pollReturns =>
      cases hf : s.frames with
      | nil => simp [stepAnyClock, step, hf] at hstep
      | cons f rest =>
          simp only [stepAnyClock, step, hf] at hstep
          obtain ⟨l, hl, rfl⟩ := Option.map_eq_some_iff.mp hstep
          have hpolled : polled s .pollReturns = duePoll l f.now (f.index + 1) := by
            simp [polled, hf, hl]
          rw [hpolled]
          rcases advance_polls { s with loop := l, frames := rest, clock := 0 } f.now (f.index + 1)
            with ⟨hnone, hlog⟩ | ⟨slot, hsome, hpolls⟩
          · exact Or.inl ⟨hnone, fun reg => by rw [hlog]⟩
          · exact Or.inr ⟨slot, f.now, hsome, hpolls⟩

theorem advance_carries {s : LoopState n} (h : Clean s.loop) (now : UInt64) (i : Nat) :
    Carries s.loop (advance s now i).loop none := by
  unfold advance
  split
  · exact ⟨h, fun _ => Or.inl⟩
  · exact endPass_carries h

/-- **The step lemma.** -/
theorem step_carries {s s' : LoopState n} {e : LoopEvent} (h : Clean s.loop)
    (hstep : stepAnyClock s e = some s') : Carries s.loop s'.loop (registers e) := by
  cases e with
  | addPeriodic task periodUs now =>
      simp only [stepAnyClock, step] at hstep
      split at hstep
      · cases hstep
      · obtain rfl := Option.some.inj hstep
        exact addPeriodic_carries h task periodUs now s.nextReg
  | addOneShot task dueUs =>
      obtain rfl := Option.some.inj hstep
      exact addOneShot_carries h task dueUs s.nextReg
  | remove task =>
      obtain rfl := Option.some.inj hstep
      exact (remove_carries h task).1
  | runOnce now =>
      simp only [stepAnyClock, step] at hstep
      split at hstep
      · cases hstep
      · obtain rfl := Option.some.inj hstep
        have hbegin := beginPass_carries h
        exact hbegin.trans (advance_carries (s := { s with loop := s.loop.beginPass, clock := now })
          hbegin.clean now 0)
  | pollReturns =>
      cases hf : s.frames with
      | nil => simp [stepAnyClock, step, hf] at hstep
      | cons f rest =>
          simp only [stepAnyClock, step, hf] at hstep
          obtain ⟨l, hl, rfl⟩ := Option.map_eq_some_iff.mp hstep
          have hafter := afterPoll_carries h hl
          exact hafter.trans
            (advance_carries (s := { s with loop := l, frames := rest, clock := 0 })
              hafter.clean f.now (f.index + 1))

/-! ## Runs -/

theorem run_clean {s s' : LoopState n} {es : List LoopEvent} (h : Clean s.loop)
    (hrun : run stepAnyClock s es = some s') : Clean s'.loop :=
  run_invariant (I := fun s => Clean s.loop) (fun _ _ _ h hstep => (step_carries h hstep).clean) h
    hrun

/-- A task that no event registers does not come back. -/
theorem run_gone {s s' : LoopState n} {es : List LoopEvent} {task : Nat} (h : Clean s.loop)
    (hgone : ¬ Refers s.loop task) (hes : ∀ e ∈ es, registers e ≠ some task)
    (hrun : run stepAnyClock s es = some s') : ¬ Refers s'.loop task := by
  induction es generalizing s with
  | nil => exact Option.some.inj hrun ▸ hgone
  | cons e es ih =>
      obtain ⟨m, hm, hrest⟩ := run_cons.mp hrun
      have hcarries := step_carries h hm
      refine ih hcarries.clean ?_ (fun e' he' => hes e' (List.mem_cons_of_mem _ he'))
        hrest
      intro ht
      rcases hcarries.refers task ht with hold | hadded
      · exact hgone hold
      · exact hes e (List.mem_cons_self ..) hadded

/-- A poll is of an entry that is live and due. -/
theorem duePoll_spec {l : ArduinoLoop n} (h : Clean l) {now now' : UInt64} {i : Nat}
    {slot : TaskSlot} (hpoll : duePoll l now i = some (slot, now')) :
    slot ∈ l.entries ∧ slot.live = true ∧ slot.nextDueUs ≤ now' := by
  obtain ⟨j, hj, heq⟩ := Option.map_eq_some_iff.mp hpoll
  obtain ⟨-, slot', hslot, hlive, hdue⟩ := nextDue_spec h.bounded hj
  have hlt : j < l.taskCount := by
    rw [← length_entries h.bounded]
    exact (List.getElem?_eq_some_iff.mp hslot).1
  rw [cell_eq h.bounded j hlt] at hslot
  obtain ⟨rfl, rfl⟩ := Prod.mk.inj heq
  obtain rfl := Option.some.inj hslot
  exact ⟨List.mem_of_getElem? (cell_eq h.bounded j hlt), hlive, hdue⟩

/-- What an event polls is for a task that had an entry before. -/
theorem polled_spec {s : LoopState n} (h : Clean s.loop) {e : LoopEvent} {slot : TaskSlot}
    {now : UInt64} (hpoll : polled s e = some (slot, now)) :
    slot.live = true ∧ slot.nextDueUs ≤ now
      ∧ ∀ task, slot.task = some task → Refers s.loop task := by
  have hentry : ∀ {l : ArduinoLoop n} {now' : UInt64} {i : Nat}, Carries s.loop l none →
      duePoll l now' i = some (slot, now) →
      slot.live = true ∧ slot.nextDueUs ≤ now
        ∧ ∀ task, slot.task = some task → Refers s.loop task := by
    intro l now' i hcarries hdue
    obtain ⟨hmem, hlive, hle⟩ := duePoll_spec hcarries.clean hdue
    exact ⟨hlive, hle, fun task htask =>
      (hcarries.refers task ⟨slot, hmem, htask⟩).resolve_right nofun⟩
  cases e with
  | addPeriodic => cases hpoll
  | addOneShot => cases hpoll
  | remove => cases hpoll
  | runOnce now' => exact hentry (beginPass_carries h) hpoll
  | pollReturns =>
      cases hf : s.frames with
      | nil => simp [polled, hf] at hpoll
      | cons f rest =>
          simp only [polled, hf] at hpoll
          obtain ⟨l, hl, hdue⟩ := Option.bind_eq_some_iff.mp hpoll
          exact hentry (afterPoll_carries h hl) hdue

/-- Some cell of the array is for the task. -/
def InArray (l : ArduinoLoop n) (task : Nat) : Prop := ∃ slot ∈ l.tasks, slot.task = some task

theorem Clean.inArray_iff {l : ArduinoLoop n} (h : Clean l) {task : Nat} :
    InArray l task ↔ Refers l task := by
  constructor
  · rintro ⟨slot, hslot, htask⟩
    obtain ⟨i, hi, rfl⟩ := Vector.getElem_of_mem hslot
    have hcell : l.tasks[i]?.getD {} = l.tasks[i] := by
      rw [Vector.getElem?_eq_getElem hi]
      rfl
    by_cases hlt : i < l.taskCount
    · exact ⟨_, List.mem_of_getElem? (cell_eq h.bounded i hlt), hcell ▸ htask⟩
    · rw [← hcell, h.blank i (Nat.le_of_not_lt hlt)] at htask
      cases htask
  · rintro ⟨slot, hslot, htask⟩
    exact ⟨slot, Vector.mem_toList_iff.mp (List.mem_of_mem_take hslot), htask⟩

theorem remove_true_iff {l : ArduinoLoop n} {task : Nat} :
    (l.remove task).1 = true ↔ Refers l task := by
  simp [remove, Refers, entries]

/-- In every state of every run: the count is in bounds and the cells behind it
are blank; a step polls nothing or an entry that is live and due; `remove`
returns true just if there is an entry for the task, and behind it there is
none and the task is not polled, until it is registered again. -/
theorem removal_final {s : LoopState n} {es : List LoopEvent}
    (hrun : run stepAnyClock {} es = some s) :
    s.loop.taskCount ≤ n
      ∧ (∀ i (hi : i < n), s.loop.taskCount ≤ i → s.loop.tasks[i] = {})
      ∧ (∀ e s', stepAnyClock s e = some s' →
          (polled s e = none ∧ ∀ reg, polls s'.log reg = polls s.log reg)
            ∨ ∃ slot now, polled s e = some (slot, now) ∧ Polls s' s.log slot now
              ∧ slot.live = true ∧ slot.nextDueUs ≤ now)
      ∧ ∀ task, ((s.loop.remove task).1 = true ↔ InArray s.loop task)
        ∧ ∀ removed es' s', stepAnyClock s (.remove task) = some removed →
            (∀ e ∈ es', registers e ≠ some task) → run stepAnyClock removed es' = some s' →
            ¬ InArray s'.loop task
              ∧ ∀ e slot now, polled s' e = some (slot, now) → slot.task ≠ some task := by
  have hclean := run_clean clean_init hrun
  refine ⟨hclean.bounded, ?_, ?_, fun task => ⟨?_, ?_⟩⟩
  · intro i hi hle
    have hblank := hclean.blank i hle
    rw [Vector.getElem?_eq_getElem hi] at hblank
    exact hblank
  · intro e s' hstep
    rcases step_polls hstep with hnone | ⟨slot, now, hpoll, hpolls⟩
    · exact Or.inl hnone
    · obtain ⟨hlive, hdue, -⟩ := polled_spec hclean hpoll
      exact Or.inr ⟨slot, now, hpoll, hpolls, hlive, hdue⟩
  · rw [remove_true_iff, hclean.inArray_iff]
  · intro removed es' s' hremoved hes hrest
    obtain rfl := Option.some.inj hremoved
    obtain ⟨hcarries, hgone⟩ := remove_carries hclean task
    have hclean' := run_clean hcarries.clean hrest
    have hgone' := run_gone hcarries.clean hgone hes hrest
    refine ⟨fun h => hgone' (hclean'.inArray_iff.mp h), ?_⟩
    intro e slot now hpoll htask
    exact hgone' ((polled_spec hclean' hpoll).2.2 task htask)

/-- The first task's `poll` removes the second and runs a pass of its own. -/
theorem removal_final_run : ∃ s : LoopState 2,
    run stepAnyClock {} ([.addPeriodic 0 10 0, .addOneShot 1 5, .runOnce 20]
        ++ [.remove 1, .runOnce 20, .pollReturns, .pollReturns]) = some s
      ∧ ¬ InArray s.loop 1 := by
  have hsome : (run stepAnyClock ({} : LoopState 2) ([.addPeriodic 0 10 0, .addOneShot 1 5,
      .runOnce 20] ++ [.remove 1, .runOnce 20, .pollReturns, .pollReturns])).isSome = true := rfl
  obtain ⟨s', hrun⟩ := Option.isSome_iff_exists.mp hsome
  obtain ⟨s, hs, hrest⟩ := run_append.mp hrun
  obtain ⟨removed, hremoved, hrest⟩ := run_cons.mp hrest
  have hes : ∀ e ∈ [LoopEvent.runOnce 20, .pollReturns, .pollReturns], registers e ≠ some 1 := by
    simp [registers]
  exact ⟨s', hrun, (((removal_final hs).2.2.2 1).2 removed _ s' hremoved hes hrest).1⟩

end ArduinoLoop

end AsyncEventLoop
