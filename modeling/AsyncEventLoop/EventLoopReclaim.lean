import AsyncEventLoop.ArduinoEventLoop
import AsyncEventLoop.LinuxEventLoop

/-!
# Reclaiming callback slots

`remove` frees a slot only if the scheduler still has an entry for its task.
On either scheduler a one-shot loses its entry when it is polled, and frees
its slot from inside the callable; if it is disabled at that time, the
callable does not run and the slot stays in use without an entry. In
runs where that does not happen (`dueEnabled`), every used slot has an
entry, so that every valid handle can be removed.
-/

namespace AsyncEventLoop

open Runs

/-! ## On the cooperative scheduler -/

namespace CooperativeState

variable {n : Nat}

/-- No one-shot is polled while it is disabled. -/
def dueEnabled (s : CooperativeState n) (e : CooperativeEvent) : Bool :=
  match e, s.passes with
  | .turn, p :: _ =>
      let slot := s.loop.scheduler.tasks[p.index]?.getD {}
      !(slot.isDue p.now && !slot.periodic)
        || (s.loop.slots (slot.task.getD 0)).task.enabled
  | _, _ => true

theorem turn_backed {s s' : CooperativeState n} (h : Inv s) (hback : s.loop.Backed)
    {p : CallPass} (hp : s.passes = [p]) (hcall : p.call = none)
    (hdue : s.dueEnabled .turn = true) (hturn : turn s p [] = some s') : s'.loop.Backed := by
  have hb := h.numbered.bounded
  have hwired : s.loop.Wired [] := by
    have hcalls : s.calls = [] := by simp [calls, hp, hcall]
    exact hcalls ▸ h.wired
  unfold turn at hturn
  dsimp only at hturn
  by_cases hi : p.index < s.loop.scheduler.taskCount
  · rw [if_pos hi] at hturn
    have hslot := cell_spec hb hi
    have henabled : (s.loop.scheduler.tasks[p.index]?.getD {}).isDue p.now = true →
        (s.loop.scheduler.tasks[p.index]?.getD {}).periodic = false →
        (s.loop.slots
          ((s.loop.scheduler.tasks[p.index]?.getD {}).task.getD 0)).task.enabled = true := by
      intro hd hper
      simpa [dueEnabled, hp, hd, hper] using hdue
    generalize s.loop.scheduler.tasks[p.index]?.getD {} = slot at hturn hslot henabled
    by_cases hd : slot.isDue p.now = true
    · rw [if_pos hd] at hturn
      cases hpoll : s.loop.pollTask (slot.task.getD 0) with
      | some r =>
          rw [hpoll] at hturn
          obtain rfl := Option.some.inj hturn
          exact hback.start hpoll
      | none =>
          rw [hpoll] at hturn
          obtain ⟨l', hl', rfl⟩ := Option.map_eq_some_iff.mp hturn
          obtain ⟨slot', hfin, hent, -, -⟩ := ArduinoLoop.afterPoll_spec hb hslot hl'
          obtain ⟨hlive, htask, -⟩ := isDue_spec hd
          have hentry : s.loop.scheduler.liveEntry slot.reg (slot.task.getD 0) (!slot.periodic) :=
            ⟨slot, ArduinoLoop.mem_liveSlots.mpr ⟨List.mem_of_getElem? hslot, hlive⟩, rfl, htask,
              by simp⟩
          -- nothing was called, so that the cell is not that of a one-shot
          have hper : slot.periodic = true := by
            cases hper : slot.periodic with
            | true => rfl
            | false =>
                have hsome := hwired.pollTask_isSome hentry (henabled hd hper)
                rw [hpoll] at hsome
                cases hsome
          refine hback.scheduler ?_
          intro q t o hq
          refine (liveEntry_finish h.numbered hslot hfin hent q t o).mpr ⟨hq, ?_⟩
          rw [hper]
          rintro ⟨heq, -⟩
          cases heq
    · rw [if_neg hd] at hturn
      obtain rfl := Option.some.inj hturn
      exact hback
  · rw [if_neg hi] at hturn
    obtain rfl := Option.some.inj hturn
    let stopped : ArduinoLoop n := { s.loop.scheduler with running := false }
    have hlive : s.loop.scheduler.endPass.liveSlots = s.loop.scheduler.liveSlots :=
      ArduinoLoop.compactInactive_liveSlots (l := stopped) hb
    refine hback.scheduler ?_
    intro q t o
    rintro ⟨x, hx, hx'⟩
    exact ⟨x, hlive ▸ hx, hx'⟩

theorem callReturns_backed {s s' : CooperativeState n} (h : Inv s) (hback : s.loop.Backed)
    (hstep : step s .callReturns = some s') : s'.loop.Backed := by
  rcases h.pass with hnil | ⟨p, hp, hrun, hwaits⟩
  · simp [step, hnil] at hstep
  · obtain ⟨now, i, call⟩ := p
    cases call with
    | none => simp [step, hp] at hstep
    | some call =>
        simp only [step, hp, (EventLoop.returnTask_fields _ _ _).1] at hstep
        obtain ⟨l', hl', rfl⟩ := Option.map_eq_some_iff.mp hstep
        obtain ⟨slot, hslot, hentry, hper, htask⟩ := hwaits call rfl
        obtain ⟨slot', hfin, hent, -, -⟩ :=
          ArduinoLoop.afterPoll_spec h.numbered.bounded hslot hl'
        have hcalls : s.calls = [call] := by simp [calls, hp]
        have hwired : s.loop.Wired [call] := hcalls ▸ h.wired
        refine hback.finish hwired ?_
        intro q t o hq hother
        refine (liveEntry_finish h.numbered hslot hfin hent q t o).mpr ⟨hq, ?_⟩
        -- the only entry that goes is that of the call's own slot
        rintro ⟨hslotPer, rfl⟩
        obtain ⟨x, hx, hreg, hxtask, -⟩ := hq
        obtain rfl := h.numbered.unique (ArduinoLoop.mem_liveSlots.mp hx).1
          (List.mem_of_getElem? hslot) hreg
        refine hother ?_ (htask t hxtask)
        rw [hslotPer] at hper
        cases honce : call.callable.oneShot with
        | true => rfl
        | false =>
            rw [honce] at hper
            cases hper

/-- **The step lemma** for reclaiming. -/
theorem step_backed {s s' : CooperativeState n} {e : CooperativeEvent} (h : Inv s)
    (hback : s.loop.Backed) (hflat : s.flat e = true) (hdue : s.dueEnabled e = true)
    (hstep : step s e = some s') : s'.loop.Backed := by
  cases e with
  | api call =>
      simp only [step] at hstep
      split at hstep
      · cases hstep
      · obtain rfl := Option.some.inj hstep
        exact hback.perform h.wired.ok call
  | runOnce now =>
      simp only [step] at hstep
      split at hstep
      · cases hstep
      · obtain rfl := Option.some.inj hstep
        have hlive : s.loop.scheduler.beginPass.liveSlots = s.loop.scheduler.liveSlots :=
          ArduinoLoop.compactInactive_liveSlots h.numbered.bounded
        refine hback.scheduler ?_
        intro q t o
        rintro ⟨x, hx, hx'⟩
        exact ⟨x, hlive ▸ hx, hx'⟩
  | turn =>
      rcases h.pass with hnil | ⟨p, hp, -, -⟩
      · simp [step, hnil] at hstep
      · simp only [step, hp] at hstep
        split at hstep
        · rename_i hnone
          exact turn_backed h hback hp (Option.isNone_iff_eq_none.mp hnone) hdue hstep
        · cases hstep
  | callReturns => exact callReturns_backed h hback hstep

/-- A task that is being polled is that of the callable the pass waits for. -/
theorem step_attended {s s' : CooperativeState n} {e : CooperativeEvent}
    (h : s.loop.Attended s.calls) (hstep : step s e = some s') : s'.loop.Attended s'.calls := by
  cases e with
  | api call =>
      simp only [step] at hstep
      split at hstep
      · cases hstep
      · obtain rfl := Option.some.inj hstep
        exact h.perform call
  | runOnce now =>
      simp only [step] at hstep
      split at hstep
      · cases hstep
      · obtain rfl := Option.some.inj hstep
        exact h
  | turn =>
      cases hp : s.passes with
      | nil => simp [step, hp] at hstep
      | cons p rest =>
          simp only [step, hp] at hstep
          split at hstep
          · rename_i hnone
            have hcall := Option.isNone_iff_eq_none.mp hnone
            have hrest : s.loop.Attended (rest.filterMap CallPass.call) := by
              simpa [calls, hp, hcall] using h
            unfold turn at hstep
            dsimp only at hstep
            split at hstep
            · split at hstep
              · split at hstep
                · rename_i hpoll
                  obtain rfl := Option.some.inj hstep
                  exact hrest.start hpoll
                · obtain ⟨l', -, rfl⟩ := Option.map_eq_some_iff.mp hstep
                  have hsame : (s.withScheduler l').loop.Attended
                      (rest.filterMap CallPass.call) := hrest
                  simpa [calls, hcall] using hsame
              · obtain rfl := Option.some.inj hstep
                simpa [calls, hcall] using hrest
            · obtain rfl := Option.some.inj hstep
              exact hrest
          · cases hstep
  | callReturns =>
      cases hp : s.passes with
      | nil => simp [step, hp] at hstep
      | cons p rest =>
          obtain ⟨now, i, call⟩ := p
          cases call with
          | none => simp [step, hp] at hstep
          | some call =>
              simp only [step, hp] at hstep
              obtain ⟨l', -, rfl⟩ := Option.map_eq_some_iff.mp hstep
              have hcalls : s.calls = call :: rest.filterMap CallPass.call := by simp [calls, hp]
              have hfinish : (s.loop.returnTask call.slot call.callable).Attended
                  (rest.filterMap CallPass.call) := (hcalls ▸ h).finish
              exact hfinish

/-- Every slot can be reclaimed in every state of a run in which no callable calls
`run_once`, none registers behind a dead cell, and no one-shot is polled
while it is disabled. -/
theorem reclaimable_of_run (hn : n ≤ 0xfffe) {s : CooperativeState n}
    {es : List CooperativeEvent}
    (hrun : run (restrict (fun s e => flat s e && addInPlace s e && dueEnabled s e) step)
      (fresh hn) es = some s) : s.loop.Reclaimable s.calls := by
  have hinv : Inv s ∧ s.loop.Backed ∧ s.loop.Attended s.calls := by
    refine run_invariant (I := fun s => Inv s ∧ s.loop.Backed ∧ s.loop.Attended s.calls)
      ?_ ⟨inv_fresh hn, nofun, nofun⟩ hrun
    intro s e s' h hs
    obtain ⟨hc, hstep⟩ := restrict_eq_some.mp hs
    rw [Bool.and_eq_true, Bool.and_eq_true] at hc
    obtain ⟨⟨hflat, hplace⟩, hdue⟩ := hc
    exact ⟨step_inv h.1 hflat hplace hstep, step_backed h.1 h.2.1 hflat hdue hstep,
      step_attended h.2.2 hstep⟩
  exact hinv.1.wired.reclaimable hinv.2.1 hinv.2.2

end CooperativeState

/-! ## On libevent -/

namespace LinuxState

variable {n : Nat}

/-- No one-shot is dispatched while it is disabled. -/
def dueEnabled (s : LinuxState n) : LinuxEvent → Bool
  | .dispatch reg _ _ =>
      (s.loop.scheduler.pendingEvent reg).all fun item =>
        !item.once || item.task.all fun task => (s.loop.slots task).task.enabled
  | _ => true

theorem dispatch_backed {s : LinuxState n} (h : Inv s) (hback : s.loop.Backed) {reg : Nat}
    {item : NativeEvent} (hfound : s.loop.scheduler.pendingEvent reg = some item)
    (hdue : item.once = true →
      ∀ task ∈ item.task, (s.loop.slots task).task.enabled = true)
    (now : UInt64) (env : NativeEnv) : (dispatch s item now env).loop.Backed := by
  obtain ⟨hitem, -, -⟩ := LibeventLoop.pendingEvent_spec hfound
  have hskip : (s.withScheduler (s.loop.scheduler.activate item.reg)).loop.Backed :=
    hback.scheduler fun q t o hq => LibeventLoop.liveEntry_activate hq
  unfold dispatch
  dsimp only
  split
  · exact hskip
  · rename_i task htask
    split
    · exact hskip
    · split
      · rename_i c loop hpoll
        have hstarted := hback.start hpoll
        obtain ⟨-, -, -, rfl⟩ := h.wired.pollTask_spec hpoll
        exact hstarted.scheduler fun q t o hq => LibeventLoop.liveEntry_activate hq
      · rename_i hpoll
        -- nothing was called, so that the event does not fire once
        have hmany : item.once = false := by
          cases honce : item.once with
          | false => rfl
          | true =>
              have hsome := h.wired.pollTask_isSome ⟨item, hitem, rfl, htask, rfl⟩
                (hdue honce task htask)
              rw [hpoll] at hsome
              cases hsome
        refine hback.scheduler ?_
        intro q t o hq
        have hok : (s.loop.scheduler.activate item.reg).enterCallback.Tidy :=
          LibeventLoop.Tidy.activate h.wired.ok item.reg
        refine (LibeventLoop.liveEntry_afterPoll hok env).mpr
          ⟨LibeventLoop.liveEntry_activate hq, ?_⟩
        rintro ⟨rfl, rfl⟩
        obtain ⟨e, he, hreg, -, honce⟩ := hq
        obtain rfl := h.numbered.unique e he item hitem hreg
        rw [hmany] at honce
        cases honce

theorem callReturns_backed {s : LinuxState n} (h : Inv s) (hback : s.loop.Backed) {call : Call}
    {rest : List Call} (hframes : s.frames = call :: rest) (env : NativeEnv) :
    ({ s.loop.returnTask call.slot call.callable with
      scheduler := s.loop.scheduler.afterPoll call.entry env } :
        EventLoop LibeventLoop n).Backed := by
  have hwired : s.loop.Wired (call :: rest) := hframes ▸ h.wired
  refine hback.finish hwired ?_
  intro q t o hq hother
  refine (LibeventLoop.liveEntry_afterPoll h.wired.ok env).mpr ⟨hq, ?_⟩
  -- the only entry that goes is that of the call's own slot
  rintro ⟨rfl, rfl⟩
  obtain ⟨e, he, hreg, htask, honce⟩ := hq
  obtain ⟨d, hd, hdreg, hdonce, hslot, -⟩ := h.held call (hframes ▸ List.mem_cons_self ..)
  obtain rfl := h.numbered.unique e he d hd (hreg.trans hdreg.symm)
  exact hother (hdonce.symm.trans honce) (hslot t htask)

theorem step_backed {s s' : LinuxState n} {e : LinuxEvent} (h : Inv s)
    (hback : s.loop.Backed) (hdue : s.dueEnabled e = true) (hstep : step s e = some s') :
    s'.loop.Backed := by
  cases e with
  | api call =>
      obtain rfl := Option.some.inj hstep
      exact hback.perform h.wired.ok call
  | dispatch reg now env =>
      obtain ⟨item, hfound, rfl⟩ := Option.map_eq_some_iff.mp hstep
      refine dispatch_backed h hback hfound ?_ now env
      intro honce task htask
      simp only [dueEnabled, hfound, Option.all_some, honce, Bool.not_true, Bool.false_or] at hdue
      rw [Option.mem_def.mp htask] at hdue
      exact hdue
  | callReturns env =>
      simp only [step, (EventLoop.returnTask_fields _ _ _).1] at hstep
      split at hstep
      · rename_i call rest hframes
        obtain rfl := Option.some.inj hstep
        exact callReturns_backed h hback hframes env
      · cases hstep
  | endRunOnce =>
      obtain rfl := Option.some.inj hstep
      refine hback.scheduler ?_
      intro q t o hq
      unfold LibeventLoop.endRunOnce
      split
      · exact (LibeventLoop.liveEntry_compact h.wired.ok).mpr hq
      · exact hq

theorem step_attended {s s' : LinuxState n} {e : LinuxEvent}
    (h : s.loop.Attended s.frames) (hstep : step s e = some s') :
    s'.loop.Attended s'.frames := by
  cases e with
  | api call =>
      obtain rfl := Option.some.inj hstep
      exact h.perform call
  | dispatch reg now env =>
      obtain ⟨item, -, rfl⟩ := Option.map_eq_some_iff.mp hstep
      unfold dispatch
      dsimp only
      split
      · exact h
      · split
        · exact h
        · split
          · rename_i c loop hpoll
            have hstarted : loop.Attended (⟨item.reg, _, c⟩ :: s.frames) := h.start hpoll
            exact hstarted
          · exact h
  | callReturns env =>
      simp only [step] at hstep
      split at hstep
      · rename_i call rest hframes
        obtain rfl := Option.some.inj hstep
        have hcalls : s.loop.Attended (call :: rest) := hframes ▸ h
        exact hcalls.finish
      · cases hstep
  | endRunOnce =>
      obtain rfl := Option.some.inj hstep
      exact h

/-- Every slot can be reclaimed in every state of a run in which no one-shot is
dispatched while it is disabled. -/
theorem reclaimable_of_run (hn : n ≤ 0xfffe) (base : Bool) {s : LinuxState n}
    {es : List LinuxEvent}
    (hrun : run (restrict dueEnabled step) (fresh hn base) es = some s) :
    s.loop.Reclaimable s.frames := by
  have hinv : Inv s ∧ s.loop.Backed ∧ s.loop.Attended s.frames := by
    refine run_invariant (I := fun s => Inv s ∧ s.loop.Backed ∧ s.loop.Attended s.frames)
      ?_ ⟨inv_fresh hn base, nofun, nofun⟩ hrun
    intro s e s' h hs
    obtain ⟨hdue, hstep⟩ := restrict_eq_some.mp hs
    exact ⟨step_inv h.1 hstep, step_backed h.1 h.2.1 hdue hstep, step_attended h.2.2 hstep⟩
  exact hinv.1.wired.reclaimable hinv.2.1 hinv.2.2

end LinuxState

/-! ## On either -/

/-- **Slots can be reclaimed** on both schedulers: in every state of a run of the
kind described, each used slot has an entry, and a valid handle can be
removed and its slot used again. -/
theorem slots_reclaimable {n : Nat} (hn : n ≤ 0xfffe) :
    (∀ (s : CooperativeState n) es,
      run (restrict (fun s e => s.flat e && s.addInPlace e && s.dueEnabled e)
        CooperativeState.step) (.fresh hn) es = some s → s.loop.Reclaimable s.calls)
    ∧ ∀ (base : Bool) (s : LinuxState n) es,
      run (restrict LinuxState.dueEnabled LinuxState.step) (.fresh hn base) es = some s →
        s.loop.Reclaimable s.frames :=
  ⟨fun _ _ hrun => CooperativeState.reclaimable_of_run hn hrun,
    fun base _ _ hrun => LinuxState.reclaimable_of_run hn base hrun⟩

/-- A one-shot that removes itself, and one that is disabled and enabled again
before it is due. -/
theorem slots_reclaimable_runs :
    (∃ s : CooperativeState 2,
      run (restrict (fun s e => s.flat e && s.addInPlace e && s.dueEnabled e)
          CooperativeState.step) (.fresh (by decide))
          [.api (.register (.onDelayUs 10) { now := 0 }),
            .api (.register (.onRepeatUs 50) { now := 0 }), .runOnce 20, .turn,
            .api (.remove ⟨0, 0⟩)] = some s
        ∧ s.loop.valid ⟨1, 0⟩ = true ∧ s.loop.Reclaimable s.calls)
    ∧ ∃ s : LinuxState 2,
      run (restrict LinuxState.dueEnabled LinuxState.step) (.fresh (by decide) true)
          [.api (.register (.onDelayUs 10) { now := 0 }), .api (.disable ⟨0, 0⟩),
            .api (.register (.onRepeatUs 5) { now := 0 }), .dispatch 1 5 { now := 6 },
            .api (.enable ⟨0, 0⟩), .callReturns { now := 7 }, .endRunOnce] = some s
        ∧ s.loop.valid ⟨0, 0⟩ = true ∧ s.loop.Reclaimable s.frames := by
  have harduino : run (restrict (fun s e => s.flat e && s.addInPlace e && s.dueEnabled e)
      CooperativeState.step) (.fresh (by decide) : CooperativeState 2)
      [.api (.register (.onDelayUs 10) { now := 0 }),
        .api (.register (.onRepeatUs 50) { now := 0 }), .runOnce 20, .turn,
        .api (.remove ⟨0, 0⟩)] = some _ := rfl
  have hlinux : run (restrict LinuxState.dueEnabled LinuxState.step)
      (.fresh (by decide) true : LinuxState 2)
      [.api (.register (.onDelayUs 10) { now := 0 }), .api (.disable ⟨0, 0⟩),
        .api (.register (.onRepeatUs 5) { now := 0 }), .dispatch 1 5 { now := 6 },
        .api (.enable ⟨0, 0⟩), .callReturns { now := 7 }, .endRunOnce] = some _ := rfl
  exact ⟨⟨_, harduino, rfl, (slots_reclaimable (by decide)).1 _ _ harduino⟩,
    _, hlinux, rfl, (slots_reclaimable (by decide)).2 _ _ _ hlinux⟩

/-- Without the condition: a one-shot that is disabled across its due time keeps
its slot, and its handle is valid but cannot be removed. -/
theorem disabled_one_shot_leaks :
    (∃ s : CooperativeState 1,
      run (restrict (fun s e => s.flat e && s.addInPlace e) CooperativeState.step)
          (.fresh (by decide))
          [.api (.register (.onDelayUs 10) { now := 0 }), .api (.disable ⟨0, 0⟩), .runOnce 20,
            .turn, .turn] = some s
        ∧ s.passes = [] ∧ s.loop.valid ⟨0, 0⟩ = true ∧ (s.loop.remove ⟨0, 0⟩).1 = false
        ∧ ¬ s.loop.Reclaimable s.calls)
    ∧ ∃ s : LinuxState 1,
      run LinuxState.step (.fresh (by decide) true)
          [.api (.register (.onDelayUs 10) { now := 0 }), .api (.disable ⟨0, 0⟩),
            .dispatch 0 10 { now := 10 }, .endRunOnce] = some s
        ∧ s.frames = [] ∧ s.loop.valid ⟨0, 0⟩ = true ∧ (s.loop.remove ⟨0, 0⟩).1 = false
        ∧ ¬ s.loop.Reclaimable s.frames := by
  refine ⟨⟨_, rfl, rfl, rfl, rfl, ?_⟩, ⟨_, rfl, rfl, rfl, rfl, ?_⟩⟩
  · intro h
    have hremoved := (h.1 ⟨0, 0⟩ rfl).1
    revert hremoved
    decide
  · intro h
    have hremoved := (h.1 ⟨0, 0⟩ rfl).1
    revert hremoved
    decide

end AsyncEventLoop
