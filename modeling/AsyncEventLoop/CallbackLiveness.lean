import AsyncEventLoop.EventLoopWiring

/-!
# Which callables a poll would call

`live` is what `CallbackTask::poll` looks for. `Sane` says of the slots what
every operation of the loop keeps, `Grows` what none of them undoes. Unlike the
wiring, neither needs the scheduler to be lawful, nor the callables that are
executing to be known: a task may be polled while it is executing.
-/

namespace AsyncEventLoop

/-! ## One task -/

namespace CallbackTask

/-- What `poll` looks for: `c` is stored, active and enabled. -/
def live (t : CallbackTask) (c : Callable) : Bool :=
  t.callable = some c && t.active && t.enabled

theorem callable_of_clear {t : CallbackTask} {c : Callable} (h : t.clear.callable = some c) :
    t.callable = some c := by
  unfold clear at h
  split at h
  · exact h
  · cases h

theorem callable_of_live {t : CallbackTask} {c : Callable} (h : t.live c = true) :
    t.callable = some c := by
  simp only [live, Bool.and_eq_true, decide_eq_true_eq] at h
  exact h.1.1

theorem live_of_not_stored {t : CallbackTask} {c : Callable} (h : t.callable ≠ some c) :
    t.live c = false :=
  Bool.eq_false_iff.mpr fun hlive => h (callable_of_live hlive)

theorem pollLeave_cases (t : CallbackTask) :
    (t.clearRequested = true ∧ t.pollLeave = { callable := none })
      ∨ (t.clearRequested = false ∧ t.pollLeave = { t with invoking := false }) := by
  unfold pollLeave destroyNow
  dsimp only
  cases t.clearRequested with
  | true => exact Or.inl ⟨rfl, rfl⟩
  | false => exact Or.inr ⟨rfl, rfl⟩

end CallbackTask

/-! ## All slots -/

namespace EventLoop

variable {S : Type} {n : Nat} {l l' l'' : EventLoop S n}

/-- Active tasks are those of used slots and have no `clear` outstanding; a
callable is stored in the slot of its handle. -/
structure Sane (l : EventLoop S n) : Prop where
  used : ∀ i, (l.slots i).task.active = true → (l.slots i).used = true
  idle : ∀ i, (l.slots i).task.clearRequested = true → (l.slots i).task.active = false
  slot : ∀ i c, (l.slots i).task.callable = some c → c.handle.slot = i
  reg : ∀ i c, (l.slots i).task.callable = some c → c.reg < l.nextReg

/-- No callable is stored that was not before, but for a new one. -/
structure Grows (l l' : EventLoop S n) : Prop where
  nextReg : l.nextReg ≤ l'.nextReg
  stored : ∀ i c, c.reg < l.nextReg → (l'.slots i).task.callable = some c →
    (l.slots i).task.callable = some c

theorem Grows.refl (l : EventLoop S n) : Grows l l := ⟨Nat.le_refl _, fun _ _ _ h => h⟩

theorem Grows.trans (h : Grows l l') (h' : Grows l' l'') : Grows l l'' :=
  ⟨Nat.le_trans h.nextReg h'.nextReg, fun i c hc hstored =>
    h.stored i c hc (h'.stored i c (Nat.lt_of_lt_of_le hc h.nextReg) hstored)⟩

/-- A change of slot `i`, which stores what it did, nothing, or a new callable. -/
theorem Sane.change (h : Sane l) {i : Nat} (hother : ∀ j, j ≠ i → l'.slots j = l.slots j)
    (hreg : l.nextReg ≤ l'.nextReg)
    (hused : (l'.slots i).task.active = true → (l'.slots i).used = true)
    (hidle : (l'.slots i).task.clearRequested = true → (l'.slots i).task.active = false)
    (hstored : ∀ c, (l'.slots i).task.callable = some c → (l.slots i).task.callable = some c
      ∨ (c.reg = l.nextReg ∧ c.reg < l'.nextReg ∧ c.handle.slot = i)) :
    Sane l' ∧ Grows l l' := by
  refine ⟨⟨?_, ?_, ?_, ?_⟩, hreg, ?_⟩
  · intro j
    by_cases hj : j = i
    · exact hj ▸ hused
    · rw [hother j hj]
      exact h.used j
  · intro j
    by_cases hj : j = i
    · exact hj ▸ hidle
    · rw [hother j hj]
      exact h.idle j
  · intro j c hc
    by_cases hj : j = i
    · subst hj
      rcases hstored c hc with hold | ⟨-, -, hslot⟩
      · exact h.slot j c hold
      · exact hslot
    · rw [hother j hj] at hc
      exact h.slot j c hc
  · intro j c hc
    by_cases hj : j = i
    · subst hj
      rcases hstored c hc with hold | ⟨-, hlt, -⟩
      · exact Nat.lt_of_lt_of_le (h.reg j c hold) hreg
      · exact hlt
    · rw [hother j hj] at hc
      exact Nat.lt_of_lt_of_le (h.reg j c hc) hreg
  · intro j c hlt hc
    by_cases hj : j = i
    · subst hj
      rcases hstored c hc with hold | ⟨hnew, -, -⟩
      · exact hold
      · exact absurd hnew (Nat.ne_of_lt hlt)
    · rwa [hother j hj] at hc

/-- The same where no callable is stored that was not before. -/
theorem Sane.put (h : Sane l) {i : Nat} {slot : CallbackSlot}
    (hused : slot.task.active = true → slot.used = true)
    (hidle : slot.task.clearRequested = true → slot.task.active = false)
    (hstored : ∀ c, slot.task.callable = some c → (l.slots i).task.callable = some c) :
    Sane (l.putSlot i slot) ∧ Grows l (l.putSlot i slot) := by
  refine h.change (fun j hj => putSlot_of_ne l hj slot) (Nat.le_refl _) ?_ ?_ ?_
  · rwa [putSlot_self]
  · rwa [putSlot_self]
  · intro c hc
    rw [putSlot_self] at hc
    exact Or.inl (hstored c hc)

theorem Sane.release (h : Sane l) (i : Nat) :
    Sane (l.putSlot i (l.slots i).release) ∧ Grows l (l.putSlot i (l.slots i).release) := by
  refine h.put ?_ ?_ ?_
  · intro hactive
    rw [CallbackSlot.release, CallbackTask.clear_active] at hactive
    cases hactive
  · exact fun _ => CallbackTask.clear_active _
  · exact fun c hc => CallbackTask.callable_of_clear hc

theorem Sane.releaseRegistered (h : Sane l) (handle : EventHandle) :
    Sane (l.releaseRegistered handle) ∧ Grows l (l.releaseRegistered handle) := by
  unfold EventLoop.releaseRegistered
  split
  · exact ⟨h, .refl l⟩
  · split
    · exact ⟨h, .refl l⟩
    · exact h.release _

/-- Only the slots and the number of registrations matter. -/
theorem Sane.scheduler (h : Sane l ∧ Grows l'' l) (s : S) :
    Sane { l with scheduler := s } ∧ Grows l'' { l with scheduler := s } :=
  ⟨⟨h.1.used, h.1.idle, h.1.slot, h.1.reg⟩, h.2.nextReg, h.2.stored⟩

theorem Sane.setEnabled (h : Sane l) (handle : EventHandle) (enabled : Bool) :
    Sane (l.setEnabled handle enabled).2 ∧ Grows l (l.setEnabled handle enabled).2 := by
  unfold EventLoop.setEnabled
  split
  · have hactive : ∀ t : CallbackTask, (t.setEnabled enabled).active = t.active
        ∧ (t.setEnabled enabled).clearRequested = t.clearRequested
        ∧ (t.setEnabled enabled).callable = t.callable := by
      intro t
      unfold CallbackTask.setEnabled
      split <;> exact ⟨rfl, rfl, rfl⟩
    obtain ⟨ha, hr, hc⟩ := hactive (l.slots handle.slot).task
    refine h.put ?_ ?_ ?_
    · dsimp only
      rw [ha]
      exact h.used _
    · dsimp only
      rw [ha, hr]
      exact h.idle _
    · dsimp only
      rw [hc]
      exact fun c hc => hc
  · exact ⟨h, .refl l⟩

theorem Sane.pollTask (h : Sane l) {i : Nat} {c : Callable}
    (hpoll : l.pollTask i = some (c, l')) : Sane l' ∧ Grows l l' := by
  obtain ⟨r, henter, heq⟩ := Option.map_eq_some_iff.mp hpoll
  obtain ⟨-, rfl⟩ := Prod.mk.inj heq
  obtain ⟨-, -, -, htask⟩ := CallbackTask.pollEnter_eq_some henter
  rw [htask]
  exact h.put (h.used i) (h.idle i) fun _ hc => hc

theorem Sane.pollLeave (h : Sane l) (i : Nat) :
    Sane (l.putSlot i { l.slots i with task := (l.slots i).task.pollLeave })
      ∧ Grows l (l.putSlot i { l.slots i with task := (l.slots i).task.pollLeave }) := by
  rcases (l.slots i).task.pollLeave_cases with ⟨-, heq⟩ | ⟨-, heq⟩
  · rw [heq]
    exact h.put (fun hactive => by cases hactive) (fun _ => rfl) (fun c hc => by cases hc)
  · rw [heq]
    exact h.put (h.used i) (h.idle i) fun _ hc => hc

theorem Sane.returnTask (h : Sane l) (i : Nat) (c : Callable) :
    Sane (l.returnTask i c) ∧ Grows l (l.returnTask i c) := by
  unfold EventLoop.returnTask
  have hreleased : Sane (if c.oneShot then l.releaseRegistered c.handle else l)
      ∧ Grows l (if c.oneShot then l.releaseRegistered c.handle else l) := by
    split
    · exact h.releaseRegistered c.handle
    · exact ⟨h, .refl l⟩
  obtain ⟨hsane, hgrows⟩ := hreleased.1.pollLeave i
  exact ⟨hsane, hreleased.2.trans hgrows⟩

theorem Sane.registers (h : Sane l) {once : Bool} {add : S → Nat → Nat → Bool × S}
    {r : Option EventHandle} (hr : Registers l once add r l') : Sane l' ∧ Grows l l' := by
  cases hr with
  | full => exact ⟨h, .refl l⟩
  | busy i =>
      exact h.put (fun hactive => by simp at hactive) (fun _ => CallbackTask.clear_active _)
        fun c hc => CallbackTask.callable_of_clear hc
  | refused i =>
      refine h.change (i := i) (fun j hj => putSlot_of_ne l hj _) (Nat.le_succ _) ?_ ?_ ?_
      all_goals
        dsimp only
        rw [putSlot_self]
        simp
  | accepted i =>
      refine h.change (i := i) (fun j hj => putSlot_of_ne l hj _) (Nat.le_succ _) ?_ ?_ ?_
      · exact fun _ => by dsimp only; rw [putSlot_self]
      · dsimp only
        rw [putSlot_self]
        simp
      · dsimp only
        rw [putSlot_self]
        rintro c hc
        obtain rfl := Option.some.inj hc
        exact Or.inr ⟨rfl, Nat.lt_succ_self _, rfl⟩

/-! Which callables are live afterwards. -/

theorem Sane.live_of_unused (h : Sane l) {i : Nat} (hused : (l.slots i).used = false)
    (c : Callable) : (l.slots i).task.live c = false := by
  have hactive : (l.slots i).task.active = false := by
    rw [Bool.eq_false_iff]
    intro hactive
    rw [h.used i hactive] at hused
    cases hused
  simp [CallbackTask.live, hactive]

theorem live_pollTask {i j : Nat} {c d : Callable} (hpoll : l.pollTask i = some (c, l')) :
    (l'.slots j).task.live d = (l.slots j).task.live d := by
  obtain ⟨r, henter, heq⟩ := Option.map_eq_some_iff.mp hpoll
  obtain ⟨-, rfl⟩ := Prod.mk.inj heq
  obtain ⟨-, -, -, htask⟩ := CallbackTask.pollEnter_eq_some henter
  by_cases hj : j = i
  · rw [hj, putSlot_self, htask]
    rfl
  · rw [putSlot_of_ne l hj]

theorem live_of_pollTask {i : Nat} {c : Callable} (hpoll : l.pollTask i = some (c, l')) :
    (l.slots i).task.live c = true := by
  obtain ⟨r, henter, heq⟩ := Option.map_eq_some_iff.mp hpoll
  obtain ⟨rfl, -⟩ := Prod.mk.inj heq
  obtain ⟨hstored, hactive, henabled, -⟩ := CallbackTask.pollEnter_eq_some henter
  simp [CallbackTask.live, hstored, hactive, henabled]

/-- A callable that returns leaves every callable as live as `complete_one_shot` does. -/
theorem Sane.live_returnTask (h : Sane l) (i j : Nat) (c d : Callable) :
    ((l.returnTask i c).slots j).task.live d
      = ((if c.oneShot then l.releaseRegistered c.handle else l).slots j).task.live d := by
  have hsane : Sane (if c.oneShot then l.releaseRegistered c.handle else l) := by
    split
    · exact (h.releaseRegistered c.handle).1
    · exact h
  unfold EventLoop.returnTask
  dsimp only
  generalize (if c.oneShot then l.releaseRegistered c.handle else l) = m at hsane
  by_cases hj : j = i
  · rw [hj, putSlot_self]
    dsimp only
    rcases (m.slots i).task.pollLeave_cases with ⟨hclear, heq⟩ | ⟨-, heq⟩
    · rw [heq]
      simp [CallbackTask.live, hsane.idle i hclear]
    · rw [heq]
      rfl
  · rw [putSlot_of_ne m hj]

theorem live_releaseRegistered {handle : EventHandle} {j : Nat} {d : Callable}
    (hlive : ((l.releaseRegistered handle).slots j).task.live d = true) :
    (l.slots j).task.live d = true := by
  unfold releaseRegistered at hlive
  split at hlive
  · exact hlive
  · split at hlive
    · exact hlive
    · by_cases hj : j = handle.slot
      · rw [hj, putSlot_self] at hlive
        simp [CallbackTask.live, CallbackSlot.release] at hlive
      · rwa [putSlot_of_ne l hj] at hlive

theorem releaseRegistered_of_ne {handle : EventHandle} {j : Nat} (hj : j ≠ handle.slot) :
    (l.releaseRegistered handle).slots j = l.slots j := by
  unfold releaseRegistered
  split
  · rfl
  · split
    · rfl
    · exact putSlot_of_ne l hj _

/-! The calls that reach the scheduler. -/

variable [NativeScheduler S]

theorem Sane.remove (h : Sane l) (handle : EventHandle) :
    Sane (l.remove handle).2 ∧ Grows l (l.remove handle).2 := by
  unfold EventLoop.remove
  split
  · dsimp only
    have hscheduled := Sane.scheduler ⟨h, .refl l⟩
      (NativeScheduler.remove l.scheduler handle.slot).2
    split
    · obtain ⟨hsane, hgrows⟩ := hscheduled.1.releaseRegistered handle
      exact ⟨hsane, hscheduled.2.trans hgrows⟩
    · exact hscheduled
  · exact ⟨h, .refl l⟩

theorem Sane.perform (h : Sane l) (call : ApiCall) :
    Sane (call.perform l).1 ∧ Grows l (call.perform l).1 := by
  cases call with
  | register r env =>
      have hspec := register_spec l r.delay.isSome (r.add env)
      rw [← Registration.perform_eq] at hspec
      exact h.registers hspec
  | enable handle => exact h.setEnabled handle true
  | disable handle => exact h.setEnabled handle false
  | remove handle => exact h.remove handle

end EventLoop

end AsyncEventLoop
