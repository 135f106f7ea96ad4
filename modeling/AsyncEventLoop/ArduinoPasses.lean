import AsyncEventLoop.ArduinoRuns

/-!
# No task is passed over

A pass of the cooperative scheduler polls every slot that is live and due when
it begins, each of them once, unless it is removed before. `Swept` is the
invariant: of the cells in use those below `k` are done, and what the pass still
owes is in a cell from `k` on.

The cells move while the pass is under way, in both directions: a `poll` may
register tasks, which compacts the array, and may remove some. That no slot
slips past the pass is the condition `addInPlace` again.
-/

namespace AsyncEventLoop

open Runs

namespace ArduinoLoop

variable {n : Nat}

/-- The registrations a pass that begins at `now` has to poll. -/
def owed (l : ArduinoLoop n) (now : UInt64) : List Nat :=
  (l.liveSlots.filter fun slot => slot.nextDueUs ≤ now).map TaskSlot.reg

/-- The pass at `now` has polled what is below cell `k`; `new` is the log since it
began. -/
structure Swept (owed : List Nat) (now : UInt64) (l : ArduinoLoop n) (new : List LoopObs)
    (k : Nat) : Prop where
  once : ∀ reg, polls new reg ≤ 1
  behind : ∀ j slot, l.entries[j]? = some slot → polls new slot.reg = 1 → j < k
  ahead : ∀ reg ∈ owed, polls new reg = 1 ∨ .removed reg ∈ new
    ∨ ∃ j slot, k ≤ j ∧ l.entries[j]? = some slot ∧ slot.reg = reg ∧ slot.live = true
      ∧ slot.nextDueUs ≤ now

/-- What the pass comes to. -/
structure PassDone (owed : List Nat) (new : List LoopObs) : Prop where
  once : ∀ reg, polls new reg ≤ 1
  all : ∀ reg ∈ owed, polls new reg = 1 ∨ .removed reg ∈ new

variable {owed : List Nat} {now : UInt64} {l : ArduinoLoop n} {new : List LoopObs} {k : Nat}

theorem polled_of_polls {log : List LoopObs} {reg : Nat} (h : polls log reg = 1) :
    ∃ t, .polled reg t ∈ log := by
  have hpos : 0 < log.countP (LoopObs.isPollOf reg) := by
    rw [← polls, h]
    exact Nat.one_pos
  obtain ⟨obs, hmem, hpoll⟩ := List.countP_pos_iff.mp hpos
  cases obs with
  | polled r t =>
      have hr : r = reg := by simpa [LoopObs.isPollOf] using hpoll
      exact ⟨t, hr ▸ hmem⟩
  | accepted r t d => simp [LoopObs.isPollOf] at hpoll
  | removed r => simp [LoopObs.isPollOf] at hpoll

/-! ## The search for the next cell -/

/-- Nothing between two polls is due. -/
theorem nextDue_first {i j : Nat} (hb : l.taskCount ≤ n) (h : l.nextDue now i = some j) :
    i ≤ j ∧ ∀ m slot, i ≤ m → m < j → l.entries[m]? = some slot → slot.isDue now = false := by
  obtain ⟨-, hmem, hfirst⟩ := List.find?_range'_eq_some.mp h
  rw [List.mem_range'_1] at hmem
  refine ⟨hmem.1, fun m slot hm hmj hslot => ?_⟩
  have hnot := hfirst m hm hmj
  rw [cell_eq hb m (by omega)] at hslot
  rw [Option.some.inj hslot] at hnot
  simpa using hnot

theorem nextDue_none {i : Nat} (hb : l.taskCount ≤ n) (h : l.nextDue now i = none) (m : Nat)
    (slot : TaskSlot) (hm : i ≤ m) (hslot : l.entries[m]? = some slot) :
    slot.isDue now = false := by
  have hlen := length_entries hb
  have hlt : m < l.taskCount := by
    rw [← hlen]
    exact (List.getElem?_eq_some_iff.mp hslot).1
  have hnot := List.find?_range'_eq_none.mp h m hm (by omega)
  rw [cell_eq hb m hlt] at hslot
  rw [Option.some.inj hslot] at hnot
  simpa using hnot

theorem isDue_of {slot : TaskSlot} (hlive : slot.live = true) (hdue : slot.nextDueUs ≤ now) :
    slot.isDue now = true := by
  rw [TaskSlot.isDue, hlive, Bool.true_and, Bool.not_eq_true', decide_eq_false_iff_not]
  exact UInt64.not_lt.mpr hdue

/-! ## What the events do to it -/

theorem Swept.log (h : Swept owed now l new k) {notes : List LoopObs}
    (hnotes : ∀ obs ∈ notes, ∀ reg, LoopObs.isPollOf reg obs = false) :
    Swept owed now l (notes ++ new) k := by
  have hpolls (reg : Nat) : polls (notes ++ new) reg = polls new reg :=
    polls_append_of_not_poll fun obs hobs => hnotes obs hobs reg
  refine ⟨fun reg => hpolls reg ▸ h.once reg, fun j slot hslot hpolled => ?_, fun reg hreg => ?_⟩
  · exact h.behind j slot hslot (hpolls slot.reg ▸ hpolled)
  · rw [hpolls]
    rcases h.ahead reg hreg with hpolled | hremoved | hcell
    · exact .inl hpolled
    · exact .inr (.inl (List.mem_append_right _ hremoved))
    · exact .inr (.inr hcell)

/-- A registration that leaves the cells below `k` in place. -/
theorem Swept.add (h : Swept owed now l new k) {l' : ArduinoLoop n} {ok : Bool} {slot : TaskSlot}
    {bound : Nat} (hnum : Numbered l bound) (hnum' : Numbered l' (bound + 1))
    (hadds : Adds l l' ok slot) (hreg : slot.reg = bound)
    (hnew : ∀ obs ∈ new, obs.reg < bound) (hk : k ≤ l.entries.length)
    (hall : (l.entries.take k).all TaskSlot.live = true) : Swept owed now l' new k := by
  -- a cell below `k` stays where it is
  have hplace (j : Nat) (x : TaskSlot) (hj : j < k) (hx : l.entries[j]? = some x) :
      l'.entries[j]? = some x := by
    refine hadds.getElem? ?_ hx
    refine List.all_eq_true.mpr fun y hy => List.all_eq_true.mp hall y ?_
    exact (List.take_sublist_take_left hj).subset hy
  have hold (x : TaskSlot) (hx : x ∈ l'.entries) : x ∈ l.liveSlots ∨ x = slot := by
    rw [hadds.entries, List.mem_append] at hx
    refine hx.imp_right fun hx => ?_
    cases ok with
    | true => exact List.mem_singleton.mp hx
    | false => cases hx
  refine ⟨h.once, fun j x hx hpolled => ?_, fun reg hdue => ?_⟩
  · rcases hold x (List.mem_of_getElem? hx) with hlive | rfl
    · obtain ⟨j', hj'⟩ := List.mem_iff_getElem?.mp (mem_liveSlots.mp hlive).1
      have hbelow := h.behind j' x hj' hpolled
      rwa [hnum'.index_unique hx (hplace j' x hbelow hj') rfl]
    · obtain ⟨t, ht⟩ := polled_of_polls hpolled
      exact absurd hreg (Nat.ne_of_lt (hnew _ ht))
  · rcases h.ahead reg hdue with hpolled | hremoved | ⟨j, x, hj, hx, hxreg, hlive, hxdue⟩
    · exact .inl hpolled
    · exact .inr (.inl hremoved)
    · have hmem : x ∈ l'.entries := by
        rw [hadds.entries]
        exact List.mem_append_left _ (mem_liveSlots.mpr ⟨List.mem_of_getElem? hx, hlive⟩)
      obtain ⟨j', hj'⟩ := List.mem_iff_getElem?.mp hmem
      refine .inr (.inr ⟨j', x, ?_, hj', hxreg, hlive, hxdue⟩)
      by_contra hbelow
      have hlt : j' < k := Nat.not_le.mp hbelow
      obtain ⟨y, hy⟩ : ∃ y, l.entries[j']? = some y :=
        ⟨_, List.getElem?_eq_getElem (Nat.lt_of_lt_of_le hlt hk)⟩
      have hxy : x = y := Option.some.inj (hj'.symm.trans (hplace j' y hlt hy))
      exact absurd (hnum.index_unique hx (hxy ▸ hy) rfl) (by omega)

/-- Marking the slots of a task. -/
theorem Swept.mark (h : Swept owed now l new k) (hb : l.taskCount ≤ n) (task : Nat) :
    Swept owed now (l.markRemoved task) (removals l task ++ new) k := by
  obtain ⟨hent, -, -⟩ := markRemoved_spec hb task
  have hlogged : Swept owed now l (removals l task ++ new) k := h.log fun obs hobs reg => by
    obtain ⟨x, -, -, rfl⟩ := mem_removals.mp hobs
    rfl
  refine ⟨hlogged.once, fun j x hx hpolled => ?_, fun reg hreg => ?_⟩
  · rw [hent, List.getElem?_map] at hx
    obtain ⟨y, hy, rfl⟩ := Option.map_eq_some_iff.mp hx
    rw [TaskSlot.markedFor_reg] at hpolled
    exact hlogged.behind j y hy hpolled
  · rcases hlogged.ahead reg hreg with hpolled | hremoved | ⟨j, x, hj, hx, hxreg, hlive, hdue⟩
    · exact .inl hpolled
    · exact .inr (.inl hremoved)
    · by_cases htask : x.task = some task
      · refine .inr (.inl (List.mem_append_left _ (mem_removals.mpr ?_)))
        exact ⟨x, List.mem_of_getElem? hx, htask, by rw [hxreg]⟩
      · have hkeep : TaskSlot.markedFor task x = x := if_neg htask
        refine .inr (.inr ⟨j, x, hj, ?_, hxreg, hlive, hdue⟩)
        rw [hent, List.getElem?_map, hx, Option.map_some, hkeep]

/-- What `afterPoll` does to the cell below `k`. -/
theorem Swept.finish (h : Swept owed now l new k) {l' : ArduinoLoop n} {i : Nat}
    {slot : TaskSlot} (hi : i < k) (hent : l'.entries = l.entries.set i slot) :
    Swept owed now l' new k := by
  refine ⟨h.once, fun j x hx hpolled => ?_, fun reg howed => ?_⟩
  · by_cases hij : j = i
    · exact hij ▸ hi
    · rw [hent, List.getElem?_set_ne (Ne.symm hij)] at hx
      exact h.behind j x hx hpolled
  · rcases h.ahead reg howed with hpolled | hremoved | ⟨j, x, hj, hx, hrest⟩
    · exact .inl hpolled
    · exact .inr (.inl hremoved)
    · refine .inr (.inr ⟨j, x, hj, ?_, hrest⟩)
      rw [hent, List.getElem?_set_ne (by omega), hx]

/-- The cell that is polled next. -/
theorem Swept.poll (h : Swept owed now l new k) {bound j : Nat} (hnum : Numbered l bound)
    (hnext : l.nextDue now k = some j) {slot : TaskSlot} (hslot : l.entries[j]? = some slot) :
    Swept owed now l (.polled slot.reg now :: new) (j + 1) := by
  obtain ⟨hkj, hfirst⟩ := nextDue_first hnum.bounded hnext
  have hself : polls (.polled slot.reg now :: new) slot.reg = polls new slot.reg + 1 := by
    simp [polls, LoopObs.isPollOf]
  have hother (reg : Nat) (hne : slot.reg ≠ reg) :
      polls (.polled slot.reg now :: new) reg = polls new reg :=
    polls_append_of_not_poll (m := [.polled slot.reg now]) (by simpa [LoopObs.isPollOf] using hne)
  have hfresh : polls new slot.reg = 0 := by
    have hle := h.once slot.reg
    have hnot : polls new slot.reg ≠ 1 := fun hpolled =>
      absurd (h.behind j slot hslot hpolled) (Nat.not_lt.mpr hkj)
    omega
  refine ⟨fun reg => ?_, fun m x hx hpolled => ?_, fun reg howed => ?_⟩
  · by_cases hreg : slot.reg = reg
    · rw [← hreg, hself, hfresh]
    · rw [hother reg hreg]
      exact h.once reg
  · by_cases hreg : slot.reg = x.reg
    · rw [hnum.index_unique hx hslot hreg.symm]
      exact Nat.lt_succ_self j
    · rw [hother x.reg hreg] at hpolled
      exact Nat.lt_succ_of_lt (Nat.lt_of_lt_of_le (h.behind m x hx hpolled) hkj)
  · by_cases hreg : slot.reg = reg
    · left
      rw [← hreg, hself, hfresh]
    · rw [hother reg hreg]
      rcases h.ahead reg howed with hpolled | hremoved | ⟨m, x, hm, hx, hxreg, hlive, hdue⟩
      · exact .inl hpolled
      · exact .inr (.inl (List.mem_cons_of_mem _ hremoved))
      · refine .inr (.inr ⟨m, x, ?_, hx, hxreg, hlive, hdue⟩)
        by_contra hbelow
        rcases Nat.lt_or_eq_of_le (Nat.lt_succ_iff.mp (Nat.not_le.mp hbelow)) with hmj | rfl
        · have hnot := hfirst m x hm hmj hx
          rw [isDue_of hlive hdue] at hnot
          cases hnot
        · rw [Option.some.inj (hslot.symm.trans hx)] at hreg
          exact hreg hxreg

/-- Behind the last cell that is due. -/
theorem Swept.done (h : Swept owed now l new k) (hb : l.taskCount ≤ n)
    (hnext : l.nextDue now k = none) : PassDone owed new := by
  refine ⟨h.once, fun reg hreg => ?_⟩
  rcases h.ahead reg hreg with hpolled | hremoved | ⟨j, x, hj, hx, -, hlive, hdue⟩
  · exact .inl hpolled
  · exact .inr hremoved
  · have hnot := nextDue_none hb hnext j x hj hx
    rw [isDue_of hlive hdue] at hnot
    cases hnot

theorem PassDone.log (h : PassDone owed new) {notes : List LoopObs}
    (hnotes : ∀ obs ∈ notes, ∀ reg, LoopObs.isPollOf reg obs = false) :
    PassDone owed (notes ++ new) := by
  have hpolls (reg : Nat) : polls (notes ++ new) reg = polls new reg :=
    polls_append_of_not_poll fun obs hobs => hnotes obs hobs reg
  refine ⟨fun reg => hpolls reg ▸ h.once reg, fun reg hreg => ?_⟩
  rw [hpolls]
  exact (h.all reg hreg).imp_right (List.mem_append_right _)

/-! ## Runs -/

/-- Where the pass that began at `now` with `old` in the log stands. -/
def Stands (owed : List Nat) (now : UInt64) (s : LoopState n) (new : List LoopObs) : Prop :=
  match s.frames with
  | [] => PassDone owed new
  | f :: _ => f.now = now ∧ Swept owed now s.loop new (f.index + 1)

/-- The pass that began at `now` with `old` in the log is under way, or over. -/
structure InPass (owed : List Nat) (now : UInt64) (old : List LoopObs) (s : LoopState n) :
    Prop where
  inv : Inv s
  stands : ∃ new, s.log = new ++ old ∧ Stands owed now s new

/-- The loop goes on from cell `k`. -/
theorem Swept.advance {s : LoopState n} {old : List LoopObs} (h : Swept owed now s.loop new k)
    (hlog : s.log = new ++ old) (hnum : Numbered s.loop s.nextReg) (hframes : s.frames = []) :
    ∃ new', (advance s now k).log = new' ++ old ∧ Stands owed now (advance s now k) new' := by
  have hb := hnum.bounded
  unfold ArduinoLoop.advance
  cases hnext : s.loop.nextDue now k with
  | none =>
      refine ⟨new, hlog, ?_⟩
      unfold Stands
      rw [hframes]
      exact h.done hb hnext
  | some j =>
      obtain ⟨-, slot, hslot, -⟩ := nextDue_spec hb hnext
      have hj : j < s.loop.taskCount := by
        rw [← length_entries hb]
        exact (List.getElem?_eq_some_iff.mp hslot).1
      have hcell : s.loop.tasks[j]?.getD {} = slot := by
        rw [cell_eq hb j hj] at hslot
        exact Option.some.inj hslot
      dsimp only
      rw [hcell]
      refine ⟨.polled slot.reg now :: new, by rw [hlog, List.cons_append], rfl, ?_⟩
      exact h.poll hnum hnext hslot

/-- A pass begins. -/
theorem swept_begin {s : LoopState n} (hnum : Numbered s.loop s.nextReg) (now : UInt64) :
    Swept (s.loop.owed now) now s.loop.beginPass [] 0 := by
  obtain ⟨hent, -, -⟩ := compactInactive_spec hnum.bounded
  refine ⟨fun _ => Nat.zero_le 1, fun _ _ _ hpolled => absurd hpolled Nat.zero_ne_one,
    fun reg howed => ?_⟩
  obtain ⟨slot, hslot, rfl⟩ := List.mem_map.mp howed
  obtain ⟨hlive, hdue⟩ := List.mem_filter.mp hslot
  have hmem : slot ∈ s.loop.beginPass.entries := by
    have hbegin : s.loop.beginPass.entries = s.loop.liveSlots := hent
    rwa [hbegin]
  obtain ⟨j, hj⟩ := List.mem_iff_getElem?.mp hmem
  exact .inr (.inr ⟨j, slot, Nat.zero_le j, hj, rfl, (mem_liveSlots.mp hlive).2,
    of_decide_eq_true hdue⟩)

/-- No other pass begins. -/
def withinPass : LoopEvent → Prop
  | .runOnce _ => False
  | _ => True

theorem Stands.notes {s t : LoopState n} (h : Stands owed now s new)
    (hframes : t.frames = s.frames) {notes : List LoopObs}
    (hnotes : ∀ obs ∈ notes, ∀ reg, LoopObs.isPollOf reg obs = false)
    (hswept : ∀ f rest, s.frames = f :: rest → Swept owed now s.loop new (f.index + 1) →
      Swept owed now t.loop (notes ++ new) (f.index + 1)) : Stands owed now t (notes ++ new) := by
  unfold Stands at h ⊢
  rw [hframes]
  cases hf : s.frames with
  | nil =>
      rw [hf] at h
      exact h.log hnotes
  | cons f rest =>
      rw [hf] at h
      exact ⟨h.1, hswept f rest hf h.2⟩

theorem Inv.index_lt {s : LoopState n} (h : Inv s) {f : PassFrame} {rest : List PassFrame}
    (hf : s.frames = f :: rest) : f.index < s.loop.entries.length := by
  rcases h.frames with hnil | ⟨g, slot, hg, -, hslot, -⟩
  · rw [hnil] at hf
    cases hf
  · obtain ⟨rfl, -⟩ := List.cons.inj (hf.symm.trans hg)
    exact (List.getElem?_eq_some_iff.mp hslot).1

/-- **The step.** -/
theorem InPass.step {s s' : LoopState n} {e : LoopEvent} {old : List LoopObs}
    (h : InPass owed now old s) (hflat : flat s e = true) (hplace : addInPlace s e = true)
    (hwithin : withinPass e) (hstep : step s e = some s') : InPass owed now old s' := by
  refine ⟨step_inv h.inv hflat hplace hstep, ?_⟩
  obtain ⟨new, hlog, hstands⟩ := h.stands
  have hnum := h.inv.core.numbered
  have hb := hnum.bounded
  have hnew : ∀ obs ∈ new, obs.reg < s.nextReg := fun obs hobs =>
    h.inv.core.freshLog obs (hlog ▸ List.mem_append_left _ hobs)
  have hnum' := (step_inv h.inv hflat hplace hstep).core.numbered
  cases e with
  | runOnce now => exact hwithin.elim
  | addPeriodic task periodUs now' =>
      obtain ⟨-, hsome⟩ := Option.ite_none_left_eq_some.mp hstep
      obtain rfl := Option.some.inj hsome
      have hadds := addPeriodic_adds hb task periodUs now' s.nextReg
      refine ⟨new, hlog, ?_⟩
      refine hstands.notes ?_ (List.forall_mem_nil _) fun f rest hf hswept => ?_
      · rfl
      · exact hswept.add hnum hnum' hadds rfl hnew (h.inv.index_lt hf)
          (by simpa [addInPlace, hf] using hplace)
  | addOneShot task dueUs =>
      obtain rfl := Option.some.inj hstep
      have hadds := addOneShot_adds hb task dueUs s.nextReg
      let notes : List LoopObs :=
        if (s.loop.addOneShot task dueUs s.nextReg).1 then [.accepted s.nextReg task dueUs] else []
      have hnotes : ∀ obs ∈ notes, ∀ reg, LoopObs.isPollOf reg obs = false := by
        intro obs hobs reg
        have hobs : obs = .accepted s.nextReg task dueUs := by
          dsimp only [notes] at hobs
          split at hobs
          · exact List.mem_singleton.mp hobs
          · cases hobs
        rw [hobs]
        rfl
      refine ⟨notes ++ new, ?_, hstands.notes ?_ hnotes fun f rest hf hswept => ?_⟩
      · dsimp only [notes]
        rw [hlog]
        split <;> rfl
      · rfl
      · exact (hswept.add hnum hnum' hadds rfl hnew (h.inv.index_lt hf)
          (by simpa [addInPlace, hf] using hplace)).log hnotes
  | remove task =>
      obtain rfl := Option.some.inj hstep
      refine ⟨removals s.loop task ++ new, by rw [hlog, List.append_assoc], ?_⟩
      refine hstands.notes ?_ ?_ fun f rest hf hswept => ?_
      · rfl
      · intro obs hobs reg
        obtain ⟨x, -, -, rfl⟩ := mem_removals.mp hobs
        rfl
      · have hrunning : s.loop.running = true := by
          rcases h.inv.frames with hnil | ⟨_, _, _, hrun, -⟩
          · rw [hnil] at hf
            cases hf
          · exact hrun
        rw [remove_running hrunning]
        exact hswept.mark hb task
  | pollReturns =>
      rcases h.inv.frames with hnil | ⟨f, slot, hf, hrun, hslot, hreg⟩
      · simp [ArduinoLoop.step, hnil] at hstep
      · unfold Stands at hstands
        rw [hf] at hstands
        obtain ⟨hnow, hswept⟩ := hstands
        simp only [ArduinoLoop.step, hf] at hstep
        obtain ⟨l, hl, rfl⟩ := Option.map_eq_some_iff.mp hstep
        obtain ⟨slot', hfin, hent, hcount, -⟩ := afterPoll_spec hb hslot hl
        have hfinished := hswept.finish (Nat.lt_succ_self f.index) hent
        rw [hnow]
        exact hfinished.advance (s := { s with loop := l, frames := [] }) hlog
          (hnum.finish hslot hfin.same.1 hent hcount) rfl

/-- **Every pass is complete**: whatever the tasks do in their `poll`, as long as
none of them calls `run_once` and registrations leave the cells up to the polled
one in place, a pass that has come to its end has polled every slot that was
live and due when it began, and each of them once, or a `remove` has unscheduled
it; and no slot at all has been polled twice. -/
theorem pass_complete {s s' : LoopState n} {before during : List LoopEvent}
    (hreach : run (restrict (fun s e => flat s e && addInPlace s e) step) {} before = some s)
    (hidle : s.frames = []) (now : UInt64)
    (hpass : run (restrict (fun s e => flat s e && addInPlace s e) step) s
      (.runOnce now :: during) = some s')
    (hwithin : ∀ e ∈ during, withinPass e) (hend : s'.frames = []) :
    ∃ new, s'.log = new ++ s.log ∧ (∀ reg, polls new reg ≤ 1)
      ∧ ∀ slot ∈ s.loop.liveSlots, slot.nextDueUs ≤ now →
        polls new slot.reg = 1 ∨ .removed slot.reg ∈ new := by
  have hstep : ∀ (s : LoopState n) e s', Inv s →
      restrict (fun s e => flat s e && addInPlace s e) step s e = some s' → Inv s' := by
    intro s e s' h hs
    obtain ⟨hc, hstep⟩ := restrict_eq_some.mp hs
    rw [Bool.and_eq_true] at hc
    exact step_inv h hc.1 hc.2 hstep
  have hinv : Inv s := run_invariant hstep inv_init hreach
  obtain ⟨m, hbegin, hduring⟩ := run_cons.mp hpass
  have hm : InPass (s.loop.owed now) now s.log m := by
    refine ⟨hstep s _ m hinv hbegin, ?_⟩
    obtain ⟨-, hbegin⟩ := restrict_eq_some.mp hbegin
    obtain ⟨-, hsome⟩ := Option.ite_none_left_eq_some.mp hbegin
    obtain rfl := Option.some.inj hsome
    have hnum := hinv.core.numbered
    exact (swept_begin hnum now).advance
      (s := { s with loop := s.loop.beginPass, clock := now }) rfl
      (hnum.compact.congr rfl hnum.compact.bounded) hidle
  have hdone : InPass (s.loop.owed now) now s.log s' := by
    refine run_invariant_events (E := withinPass) ?_ hm hwithin hduring
    intro t e t' ht he hs
    obtain ⟨hc, hstep⟩ := restrict_eq_some.mp hs
    rw [Bool.and_eq_true] at hc
    exact ht.step hc.1 hc.2 he hstep
  obtain ⟨new, hlog, hstands⟩ := hdone.stands
  unfold Stands at hstands
  rw [hend] at hstands
  refine ⟨new, hlog, hstands.once, fun slot hslot hdue => hstands.all slot.reg ?_⟩
  exact List.mem_map_of_mem (List.mem_filter.mpr ⟨hslot, decide_eq_true hdue⟩)

/-- The second task registers a third in its `poll`, and the first is removed. -/
theorem pass_complete_run : ∃ s s' : LoopState 4,
    run (restrict (fun s e => flat s e && addInPlace s e) step) {}
        [.addPeriodic 0 100 5, .addPeriodic 1 100 5, .addOneShot 2 6] = some s
      ∧ run (restrict (fun s e => flat s e && addInPlace s e) step) s
        [.runOnce 7, .addOneShot 3 7, .pollReturns, .remove 2, .pollReturns, .pollReturns]
          = some s'
      ∧ ∃ new, s'.log = new ++ s.log ∧ (∀ reg, polls new reg ≤ 1)
        ∧ ∀ slot ∈ s.loop.liveSlots, slot.nextDueUs ≤ 7 →
          polls new slot.reg = 1 ∨ .removed slot.reg ∈ new := by
  have hreach : run (restrict (fun s e => flat s e && addInPlace s e) step) ({} : LoopState 4)
      [.addPeriodic 0 100 5, .addPeriodic 1 100 5, .addOneShot 2 6] = some _ := rfl
  have hpass : ∀ e ∈ [LoopEvent.addOneShot 3 7, .pollReturns, .remove 2, .pollReturns,
      .pollReturns], withinPass e := by
    simp [withinPass]
  exact ⟨_, _, hreach, rfl, pass_complete hreach rfl 7 rfl hpass rfl⟩

end ArduinoLoop

end AsyncEventLoop
