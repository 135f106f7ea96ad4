import Mathlib.Data.List.Basic
import AsyncEventLoop.EventLoop

/-!
# The wiring of slots, callables and scheduler entries

`Wired l calls` relates the slots of an event loop, the entries of its
scheduler and the callables that are executing, innermost first: a live
entry belongs to a used slot that stores the callable of the entry's own
registration; a one-shot that is executing keeps its slot from being
reused. `Backed` adds the converse, that every used slot has an entry, and
`Attended` that a slot being polled is one that a callable executes from.

Each operation has one lemma here. Neither scheduler appears by name.
-/

namespace AsyncEventLoop

/-- A callable that is executing: the scheduler entry and the slot it was
polled for. -/
structure Call where
  entry : Nat
  slot : Nat
  callable : Callable
  deriving DecidableEq

namespace EventLoop

open LawfulScheduler

variable {S : Type} {n : Nat}

/-- Slot `i` is used and stores `c`. -/
def Stored (l : EventLoop S n) (i : Nat) (c : Callable) : Prop :=
  (l.slots i).used = true ∧ (l.slots i).task.callable = some c

theorem Stored.unique {l : EventLoop S n} {i : Nat} {c d : Callable} (hc : Stored l i c)
    (hd : Stored l i d) : c = d :=
  Option.some.inj (hc.2.symm.trans hd.2)

@[simp] theorem putSlot_self (l : EventLoop S n) (i : Nat) (slot : CallbackSlot) :
    (l.putSlot i slot).slots i = slot := by
  simp [putSlot]

theorem putSlot_of_ne (l : EventLoop S n) {i j : Nat} (h : j ≠ i) (slot : CallbackSlot) :
    (l.putSlot i slot).slots j = l.slots j := by
  simp [putSlot, h]

/-- The stored callables of a loop that differs in slot `i`. -/
theorem stored_putSlot {l : EventLoop S n} {i j : Nat} {slot : CallbackSlot} {c : Callable} :
    Stored (l.putSlot i slot) j c
      ↔ (j = i ∧ slot.used = true ∧ slot.task.callable = some c) ∨ (j ≠ i ∧ Stored l j c) := by
  by_cases hj : j = i
  · subst hj
    simp [Stored]
  · simp [Stored, putSlot_of_ne l hj, hj]

/-! ## What the operations do -/

/-- A handle that `valid` accepts. -/
theorem valid_iff {l : EventLoop S n} {h : EventHandle} :
    l.valid h = true ↔ h.slot < n ∧ (l.slots h.slot).used = true
      ∧ (l.slots h.slot).task.active = true ∧ (l.slots h.slot).generation = h.generation := by
  have hcapacity := l.capacity
  simp only [valid, EventHandle.assigned, Bool.and_eq_true, decide_eq_true_eq, beq_iff_eq]
  constructor
  · rintro ⟨⟨⟨⟨-, hn⟩, hu⟩, ha⟩, hg⟩
    exact ⟨hn, hu, ha, hg⟩
  · rintro ⟨hn, hu, ha, hg⟩
    exact ⟨⟨⟨⟨by omega, hn⟩, hu⟩, ha⟩, hg⟩

theorem releaseRegistered_eq {l : EventLoop S n} {h : EventHandle} (hn : h.slot < n)
    (hused : (l.slots h.slot).used = true) (hgen : (l.slots h.slot).generation = h.generation) :
    l.releaseRegistered h = l.putSlot h.slot (l.slots h.slot).release := by
  have hcapacity := l.capacity
  have hassigned : h.assigned = true := by
    simp [EventHandle.assigned]
    omega
  simp [releaseRegistered, hassigned, hused, hgen, Nat.not_le.mpr hn]

theorem releaseRegistered_stale {l : EventLoop S n} {h : EventHandle}
    (hstale : (l.slots h.slot).used = false ∨ (l.slots h.slot).generation ≠ h.generation) :
    l.releaseRegistered h = l := by
  unfold releaseRegistered
  split
  · rfl
  · rw [if_pos]
    rcases hstale with hused | hgen
    · simp [hused]
    · simp [hgen]

/-- What a returning callable does does not depend on the scheduler. -/
theorem returnTask_scheduler (l : EventLoop S n) (s : S) (i : Nat) (c : Callable) :
    ({ l with scheduler := s } : EventLoop S n).returnTask i c
      = { l.returnTask i c with scheduler := s } := by
  unfold returnTask releaseRegistered
  dsimp only
  split
  · split
    · rfl
    · split <;> rfl
  · rfl

theorem returnTask_fields (l : EventLoop S n) (i : Nat) (c : Callable) :
    (l.returnTask i c).scheduler = l.scheduler ∧ (l.returnTask i c).nextReg = l.nextReg := by
  unfold returnTask releaseRegistered
  dsimp only
  split
  · split
    · exact ⟨rfl, rfl⟩
    · split <;> exact ⟨rfl, rfl⟩
  · exact ⟨rfl, rfl⟩

/-- The four ways a registration can end. -/
inductive Registers (l : EventLoop S n) (once : Bool) (add : S → Nat → Nat → Bool × S) :
    Option EventHandle → EventLoop S n → Prop where
  /-- There is no free slot. -/
  | full (halloc : (l.allocateCallback once).1 = none) : Registers l once add none l
  /-- The callable that last used the free slot is still executing. -/
  | busy (i : Nat) (hused : (l.slots i).used = false)
      (hinvoking : (l.slots i).task.invoking = true)
      (halloc : (l.allocateCallback once).1 = none) :
      Registers l once add none
        (l.putSlot i { l.slots i with task := (l.slots i).task.clear })
  /-- The scheduler refuses the slot's task. -/
  | refused (i : Nat) (hused : (l.slots i).used = false)
      (hinvoking : (l.slots i).task.invoking = false)
      (halloc : (l.allocateCallback once).1.isSome = true)
      (hadd : (add l.scheduler i l.nextReg).1 = false) :
      Registers l once add none
        { l.putSlot i ⟨{}, (l.slots i).generation + 1, false⟩ with
          scheduler := (add l.scheduler i l.nextReg).2, nextReg := l.nextReg + 1 }
  | accepted (i : Nat) (hi : i < n) (hused : (l.slots i).used = false)
      (hinvoking : (l.slots i).task.invoking = false)
      (halloc : (l.allocateCallback once).1.isSome = true)
      (hadd : (add l.scheduler i l.nextReg).1 = true) :
      Registers l once add (some ⟨i, (l.slots i).generation⟩)
        { l.putSlot i
            ⟨⟨some ⟨l.nextReg, ⟨i, (l.slots i).generation⟩, once⟩, true, true, false, false⟩,
              (l.slots i).generation, true⟩ with
          scheduler := (add l.scheduler i l.nextReg).2, nextReg := l.nextReg + 1 }

theorem register_spec (l : EventLoop S n) (once : Bool) (add : S → Nat → Nat → Bool × S) :
    Registers l once add (l.register once add).1 (l.register once add).2 := by
  have halloc : l.allocateCallback once = l.allocateCallback once := rfl
  conv at halloc => rhs; unfold allocateCallback
  unfold register
  cases hfree : (List.range n).find? fun i => !(l.slots i).used with
  | none =>
      rw [hfree] at halloc
      rw [halloc]
      exact .full (by rw [halloc])
  | some i =>
      have hi : i < n := List.mem_range.mp (List.mem_of_find?_eq_some hfree)
      have hused : (l.slots i).used = false := by simpa using List.find?_some hfree
      have hcapacity := l.capacity
      have hassigned : EventHandle.assigned ⟨i, (l.slots i).generation⟩ = true := by
        simp [EventHandle.assigned]
        omega
      rw [hfree] at halloc
      dsimp only at halloc
      cases hinvoking : (l.slots i).task.invoking with
      | true =>
          rw [CallbackTask.set_busy hinvoking] at halloc
          rw [halloc]
          exact .busy i hused hinvoking (by rw [halloc]; rfl)
      | false =>
          rw [CallbackTask.set_idle hinvoking] at halloc
          have hsome : (l.allocateCallback once).1.isSome = true := by rw [halloc]; rfl
          rw [halloc]
          cases hadd : (add l.scheduler i l.nextReg).1 with
          | true =>
              have h : Registers l once add _ _ := .accepted i hi hused hinvoking hsome hadd
              simpa [putSlot, hadd] using h
          | false =>
              have h : Registers l once add _ _ := .refused i hused hinvoking hsome hadd
              simpa [putSlot, hadd, releaseUnregistered, hassigned, Nat.not_le.mpr hi,
                CallbackSlot.release, CallbackTask.clear, CallbackTask.destroyNow] using h

/-- What a registration does to the scheduler: nothing without a slot, and one
`add_*` call with one. -/
theorem register_scheduler (l : EventLoop S n) (once : Bool) (add : S → Nat → Nat → Bool × S) :
    ((l.register once add).1 = none ∧ (l.register once add).2.scheduler = l.scheduler
        ∧ (l.register once add).2.nextReg = l.nextReg)
      ∨ ((l.allocateCallback once).1.isSome = true ∧ ∃ i,
        (l.register once add).1.isSome = (add l.scheduler i l.nextReg).1
          ∧ (l.register once add).2.scheduler = (add l.scheduler i l.nextReg).2
          ∧ (l.register once add).2.nextReg = l.nextReg + 1) := by
  have hspec := register_spec l once add
  generalize l.register once add = p at hspec
  obtain ⟨r, l'⟩ := p
  cases hspec with
  | full => exact Or.inl ⟨rfl, rfl, rfl⟩
  | busy => exact Or.inl ⟨rfl, rfl, rfl⟩
  | refused i hused hinvoking halloc hadd =>
      exact Or.inr ⟨halloc, i, by simp [hadd], rfl, rfl⟩
  | accepted i hi hused hinvoking halloc hadd =>
      exact Or.inr ⟨halloc, i, by simp [hadd], rfl, rfl⟩

/-! ## What is stored afterwards -/

theorem stored_setEnabled {l : EventLoop S n} {handle : EventHandle} {enabled : Bool} {i : Nat}
    {c : Callable}
    (hc : Stored (l.setEnabled handle enabled).2 i c) : Stored l i c := by
  unfold EventLoop.setEnabled at hc
  split at hc
  · rcases stored_putSlot.mp hc with ⟨rfl, hused, hcallable⟩ | ⟨-, hc⟩
    · refine ⟨hused, ?_⟩
      rw [← hcallable]
      unfold CallbackTask.setEnabled
      split <;> rfl
    · exact hc
  · exact hc

theorem Registers.stored {l l' : EventLoop S n} {once : Bool} {add : S → Nat → Nat → Bool × S}
    {r : Option EventHandle} (hr : Registers l once add r l') {i : Nat} {c : Callable}
    (hc : Stored l' i c) :
    Stored l i c ∨ (r = some c.handle ∧ c.reg = l.nextReg ∧ c.oneShot = once) := by
  cases hr with
  | full => exact Or.inl hc
  | busy j hused hinvoking halloc =>
      rcases stored_putSlot.mp hc with ⟨rfl, hu, -⟩ | ⟨-, hc⟩
      · rw [hused] at hu
        cases hu
      · exact Or.inl hc
  | refused j hused hinvoking halloc hadd =>
      rcases (stored_putSlot (l := l)).mp hc with ⟨-, hu, -⟩ | ⟨-, hc⟩
      · cases hu
      · exact Or.inl hc
  | accepted j hj hused hinvoking halloc hadd =>
      rcases (stored_putSlot (l := l)).mp hc with ⟨-, -, hcallable⟩ | ⟨-, hc⟩
      · obtain rfl := Option.some.inj hcallable
        exact Or.inr ⟨rfl, rfl, rfl⟩
      · exact Or.inl hc

theorem stored_remove [NativeScheduler S] {l : EventLoop S n} {handle : EventHandle} {i : Nat}
    {c : Callable}
    (hc : Stored (l.remove handle).2 i c) :
    Stored l i c ∧ ((l.remove handle).1 = true → i ≠ handle.slot) := by
  unfold EventLoop.remove at hc ⊢
  by_cases hvalid : l.valid handle = true
  · obtain ⟨hn, hused, -, hgen⟩ := valid_iff.mp hvalid
    rw [if_pos hvalid] at hc ⊢
    dsimp only at hc ⊢
    by_cases hremoved : (NativeScheduler.remove l.scheduler handle.slot).1 = true
    · rw [if_pos hremoved] at hc ⊢
      have hrelease := releaseRegistered_eq
        (l := { l with scheduler := (NativeScheduler.remove l.scheduler handle.slot).2 })
        hn hused hgen
      rw [hrelease] at hc
      rcases (stored_putSlot (l := l)).mp hc with ⟨-, hu, -⟩ | ⟨hne, hc⟩
      · cases hu
      · exact ⟨hc, fun _ => hne⟩
    · rw [if_neg hremoved] at hc ⊢
      exact ⟨hc, nofun⟩
  · rw [if_neg hvalid] at hc ⊢
    exact ⟨hc, nofun⟩

/-! ## Which tasks are executing -/

/-- A task that is being polled is that of a callable that is executing. -/
def Attended (l : EventLoop S n) (calls : List Call) : Prop :=
  ∀ i, (l.slots i).task.invoking = true → ∃ call ∈ calls, call.slot = i

theorem releaseRegistered_invoking (l : EventLoop S n) (h : EventHandle) (i : Nat) :
    ((l.releaseRegistered h).slots i).task.invoking = (l.slots i).task.invoking := by
  unfold releaseRegistered
  split
  · rfl
  · split
    · rfl
    · by_cases hi : i = h.slot
      · rw [hi, putSlot_self, CallbackSlot.release, CallbackTask.clear_invoking]
      · rw [putSlot_of_ne l hi]

theorem Registers.invoking {l l' : EventLoop S n} {once : Bool} {add : S → Nat → Nat → Bool × S}
    {r : Option EventHandle} (hr : Registers l once add r l') {i : Nat}
    (hi : (l'.slots i).task.invoking = true) : (l.slots i).task.invoking = true := by
  have hput : ∀ {j : Nat} {slot : CallbackSlot},
      (slot.task.invoking = true → (l.slots j).task.invoking = true) →
      ((l.putSlot j slot).slots i).task.invoking = true → (l.slots i).task.invoking = true := by
    intro j slot hslot hi
    by_cases hij : i = j
    · rw [hij, putSlot_self] at hi
      rw [hij]
      exact hslot hi
    · rwa [putSlot_of_ne l hij] at hi
  cases hr with
  | full => exact hi
  | busy j _ hinvoking => exact hput (fun _ => hinvoking) hi
  | refused j => exact hput (j := j) (fun h => by cases h) hi
  | accepted j => exact hput (j := j) (fun h => by cases h) hi

/-- No call from the application starts a task. -/
theorem perform_invoking [NativeScheduler S] (call : ApiCall) {l : EventLoop S n} {i : Nat}
    (hi : ((call.perform l).1.slots i).task.invoking = true) :
    (l.slots i).task.invoking = true := by
  have henabled : ∀ h b, ((l.setEnabled h b).2.slots i).task.invoking = true →
      (l.slots i).task.invoking = true := by
    intro h b hi
    unfold EventLoop.setEnabled at hi
    split at hi
    · by_cases hij : i = h.slot
      · rw [hij, putSlot_self] at hi
        rw [hij, ← hi]
        unfold CallbackTask.setEnabled
        split <;> rfl
      · rwa [putSlot_of_ne l hij] at hi
    · exact hi
  cases call with
  | register r env =>
      have hspec := register_spec l r.delay.isSome (r.add env)
      rw [← Registration.perform_eq] at hspec
      exact hspec.invoking hi
  | enable h => exact henabled h true hi
  | disable h => exact henabled h false hi
  | remove h =>
      simp only [ApiCall.perform, EventLoop.remove] at hi
      split at hi
      · split at hi
        · rwa [releaseRegistered_invoking] at hi
        · exact hi
      · exact hi

theorem Attended.perform [NativeScheduler S] {l : EventLoop S n} {calls : List Call}
    (h : Attended l calls) (call : ApiCall) : Attended (call.perform l).1 calls :=
  fun i hi => h i (perform_invoking call hi)

theorem Attended.start {l l' : EventLoop S n} {calls : List Call} (h : Attended l calls)
    {i q : Nat} {c : Callable} (hpoll : l.pollTask i = some (c, l')) :
    Attended l' (⟨q, i, c⟩ :: calls) := by
  obtain ⟨r, -, heq⟩ := Option.map_eq_some_iff.mp hpoll
  obtain ⟨-, rfl⟩ := Prod.mk.inj heq
  intro j hj
  by_cases hij : j = i
  · exact ⟨_, List.mem_cons_self .., hij.symm⟩
  · rw [putSlot_of_ne l hij] at hj
    obtain ⟨call, hcall, heq⟩ := h j hj
    exact ⟨call, List.mem_cons_of_mem _ hcall, heq⟩

theorem Attended.finish {l : EventLoop S n} {call : Call} {rest : List Call}
    (h : Attended l (call :: rest)) : Attended (l.returnTask call.slot call.callable) rest := by
  intro i hi
  have hold : i ≠ call.slot ∧ (l.slots i).task.invoking = true := by
    unfold returnTask at hi
    dsimp only at hi
    by_cases hij : i = call.slot
    · have hleave : ∀ t : CallbackTask, t.pollLeave.invoking = false := by
        intro t
        unfold CallbackTask.pollLeave
        dsimp only
        split <;> rfl
      rw [hij, putSlot_self, hleave] at hi
      cases hi
    · rw [putSlot_of_ne _ hij] at hi
      refine ⟨hij, ?_⟩
      split at hi
      · rwa [releaseRegistered_invoking] at hi
      · exact hi
  obtain ⟨other, hother, heq⟩ := h i hold.2
  rcases List.mem_cons.mp hother with rfl | hother
  · exact absurd heq.symm hold.1
  · exact ⟨other, hother, heq⟩

/-! ## The invariant -/

variable [NativeScheduler S] [LawfulScheduler S]

structure Wired (l : EventLoop S n) (calls : List Call) : Prop where
  ok : Ok l.scheduler
  range : ∀ i, (l.slots i).used = true → i < n
  active : ∀ i, (l.slots i).task.active = (l.slots i).used
  stored : ∀ i, (l.slots i).used = true → ∃ c, Stored l i c
  noClear : ∀ i, (l.slots i).used = true → (l.slots i).task.clearRequested = false
  handle : ∀ i c, Stored l i c → c.handle = ⟨i, (l.slots i).generation⟩ ∧ c.reg < l.nextReg
  regs : ∀ i j c d, Stored l i c → Stored l j d → c.reg = d.reg → i = j
  entry : ∀ q i o, live l.scheduler q i o → ∃ c, Stored l i c ∧ c.reg = q ∧ c.oneShot = o
  callReg : ∀ call ∈ calls, call.callable.reg = call.entry ∧ call.entry < l.nextReg
  callOnce : ∀ call ∈ calls, call.callable.oneShot = true →
    (l.slots call.slot).task.invoking = true ∧ call.callable.handle.slot = call.slot
      ∧ ∀ c, Stored l call.slot c → c = call.callable
  apart : calls.Pairwise fun upper lower =>
    lower.callable.oneShot = true → upper.slot ≠ lower.slot

/-- Every used slot has a live entry. -/
def Backed (l : EventLoop S n) : Prop :=
  ∀ i, (l.slots i).used = true → ∃ q o, live l.scheduler q i o

section

variable {l l' : EventLoop S n} {calls : List Call}

/-- A freshly constructed event loop, on a scheduler without entries. -/
theorem wired_fresh (capacity : n ≤ 0xfffe) {s : S} (hok : Ok s)
    (hlive : ∀ q t o, ¬ live s q t o) :
    Wired ({ scheduler := s, capacity := capacity } : EventLoop S n) [] where
  ok := hok
  range _ hused := by cases hused
  active _ := rfl
  stored _ hused := by cases hused
  noClear _ hused := by cases hused
  handle _ _ hc := by cases hc.1
  regs _ _ _ _ hc := by cases hc.1
  entry q i o hq := absurd hq (hlive q i o)
  callReg := List.forall_mem_nil _
  callOnce := List.forall_mem_nil _
  apart := .nil

/-- A scheduler that has lost entries of its own accord. -/
theorem Wired.scheduler (h : Wired l calls) {s : S} (hok : Ok s)
    (hlive : ∀ q t o, live s q t o → live l.scheduler q t o) :
    Wired { l with scheduler := s } calls :=
  ⟨hok, h.range, h.active, h.stored, h.noClear, h.handle, h.regs,
    fun q i o hq => h.entry q i o (hlive q i o hq), h.callReg, h.callOnce, h.apart⟩

/-- What the invariant asks of slot `i` by itself. -/
structure SlotWired (l : EventLoop S n) (i : Nat) : Prop where
  range : (l.slots i).used = true → i < n
  active : (l.slots i).task.active = (l.slots i).used
  stored : (l.slots i).used = true → ∃ c, Stored l i c
  noClear : (l.slots i).used = true → (l.slots i).task.clearRequested = false
  handle : ∀ c, Stored l i c → c.handle = ⟨i, (l.slots i).generation⟩ ∧ c.reg < l.nextReg

/-- A loop that differs in slot `i`, in the entries and in the next number: what has
to be shown is about that slot. -/
theorem Wired.change (h : Wired l calls) {i : Nat} (hother : ∀ j, j ≠ i → l'.slots j = l.slots j)
    (hok : Ok l'.scheduler) (hnext : l.nextReg ≤ l'.nextReg) (hslot : SlotWired l' i)
    (hregs : ∀ c, Stored l' i c → ∀ j d, Stored l j d → c.reg = d.reg → j = i)
    (hentry : ∀ q j o, live l'.scheduler q j o → (j ≠ i ∧ live l.scheduler q j o)
      ∨ (j = i ∧ ∃ c, Stored l' i c ∧ c.reg = q ∧ c.oneShot = o))
    (hcalls : ∀ call ∈ calls, call.callable.oneShot = true → call.slot = i →
      (l'.slots i).task.invoking = true ∧ ∀ c, Stored l' i c → c = call.callable) :
    Wired l' calls := by
  have hstored : ∀ j, j ≠ i → ∀ c, Stored l' j c ↔ Stored l j c := by
    intro j hij c
    rw [Stored, hother j hij, Stored]
  constructor
  case ok => exact hok
  case range =>
    intro j hj
    rcases eq_or_ne j i with rfl | hij
    · exact hslot.range hj
    · exact h.range j (hother j hij ▸ hj)
  case active =>
    intro j
    rcases eq_or_ne j i with rfl | hij
    · exact hslot.active
    · rw [hother j hij]
      exact h.active j
  case stored =>
    intro j hj
    rcases eq_or_ne j i with rfl | hij
    · exact hslot.stored hj
    · obtain ⟨c, hc⟩ := h.stored j (hother j hij ▸ hj)
      exact ⟨c, (hstored j hij c).mpr hc⟩
  case noClear =>
    intro j hj
    rcases eq_or_ne j i with rfl | hij
    · exact hslot.noClear hj
    · rw [hother j hij] at hj ⊢
      exact h.noClear j hj
  case handle =>
    intro j c hc
    rcases eq_or_ne j i with rfl | hij
    · exact hslot.handle c hc
    · obtain ⟨hhandle, hlt⟩ := h.handle j c ((hstored j hij c).mp hc)
      rw [hother j hij]
      exact ⟨hhandle, Nat.lt_of_lt_of_le hlt hnext⟩
  case regs =>
    intro j k c d hc hd hreg
    rcases eq_or_ne j i with rfl | hij
    · rcases eq_or_ne k j with rfl | hkj
      · rfl
      · exact (hregs c hc k d ((hstored k hkj d).mp hd) hreg).symm
    · rcases eq_or_ne k i with rfl | hki
      · exact hregs d hd j c ((hstored j hij c).mp hc) hreg.symm
      · exact h.regs j k c d ((hstored j hij c).mp hc) ((hstored k hki d).mp hd) hreg
  case entry =>
    intro q j o hq
    rcases hentry q j o hq with ⟨hij, hold⟩ | ⟨rfl, hnew⟩
    · obtain ⟨c, hc, hreg, honce⟩ := h.entry q j o hold
      exact ⟨c, (hstored j hij c).mpr hc, hreg, honce⟩
    · exact hnew
  case callReg =>
    intro call hcall
    obtain ⟨hreg, hlt⟩ := h.callReg call hcall
    exact ⟨hreg, Nat.lt_of_lt_of_le hlt hnext⟩
  case callOnce =>
    intro call hcall honce
    obtain ⟨hinvoking, hhandle, honly⟩ := h.callOnce call hcall honce
    rcases eq_or_ne call.slot i with heq | hij
    · obtain ⟨hinvoking, honly⟩ := hcalls call hcall honce heq
      rw [heq]
      exact ⟨hinvoking, hhandle.trans heq, honly⟩
    · rw [hother _ hij]
      exact ⟨hinvoking, hhandle, fun c hc => honly c ((hstored _ hij c).mp hc)⟩
  case apart => exact h.apart

/-- Changing slot `i`, which no entry is for, into a free slot. -/
theorem Wired.free (h : Wired l calls) {i : Nat} {slot : CallbackSlot}
    (hgone : ∀ q o, ¬ live l.scheduler q i o) (hslot : slot.used = false)
    (hactive : slot.task.active = false)
    (hinvoking : ∀ call ∈ calls, call.callable.oneShot = true → call.slot = i →
      slot.task.invoking = true) :
    Wired (l.putSlot i slot) calls := by
  have hself : (l.putSlot i slot).slots i = slot := putSlot_self l i slot
  have hused : ((l.putSlot i slot).slots i).used ≠ true := by
    rw [hself, hslot]
    exact Bool.false_ne_true
  have hnone : ∀ c, ¬Stored (l.putSlot i slot) i c := fun c hc => hused hc.1
  refine h.change (fun j hij => putSlot_of_ne l hij slot) h.ok (Nat.le_refl _) ?_
    (fun c hc => absurd hc (hnone c)) ?_ ?_
  · exact ⟨fun hu => absurd hu hused, by rw [hself, hactive, hslot], fun hu => absurd hu hused,
      fun hu => absurd hu hused, fun c hc => absurd hc (hnone c)⟩
  · intro q j o hq
    exact Or.inl ⟨fun heq => hgone q o (heq ▸ hq), hq⟩
  · intro call hcall honce heq
    rw [hself]
    exact ⟨hinvoking call hcall honce heq, fun c hc => absurd hc (hnone c)⟩

/-- Changing flags of a used slot. -/
theorem Wired.touch (h : Wired l calls) {i : Nat} {task : CallbackTask}
    (hused : (l.slots i).used = true) (hcallable : task.callable = (l.slots i).task.callable)
    (hactive : task.active = true) (hclear : task.clearRequested = false)
    (hinvoking : ∀ call ∈ calls, call.callable.oneShot = true → call.slot = i →
      task.invoking = true) :
    Wired (l.putSlot i { l.slots i with task := task }) calls := by
  have hself : (l.putSlot i { l.slots i with task := task }).slots i
      = { l.slots i with task := task } := putSlot_self l i _
  have hstored : ∀ c, Stored (l.putSlot i { l.slots i with task := task }) i c ↔ Stored l i c := by
    intro c
    rw [Stored, hself, Stored, hcallable]
  refine h.change (fun j hij => putSlot_of_ne l hij _) h.ok (Nat.le_refl _) ?_ ?_ ?_ ?_
  · obtain ⟨c, hc⟩ := h.stored i hused
    refine ⟨fun _ => h.range i hused, ?_, fun _ => ⟨c, (hstored c).mpr hc⟩, ?_, ?_⟩
    · rw [hself, hused]
      exact hactive
    · rw [hself]
      exact fun _ => hclear
    · intro d hd
      rw [hself]
      exact h.handle i d ((hstored d).mp hd)
  · intro c hc j d hd hreg
    exact h.regs j i d c hd ((hstored c).mp hc) hreg.symm
  · intro q j o hq
    rcases eq_or_ne j i with rfl | hij
    · obtain ⟨c, hc, hentry⟩ := h.entry q j o hq
      exact Or.inr ⟨rfl, c, (hstored c).mpr hc, hentry⟩
    · exact Or.inl ⟨hij, hq⟩
  · intro call hcall honce heq
    rw [hself]
    refine ⟨hinvoking call hcall honce heq, fun c hc => ?_⟩
    exact (h.callOnce call hcall honce).2.2 c (heq ▸ (hstored c).mp hc)

/-- No entry is for a slot that is not used. -/
theorem Wired.no_entry (h : Wired l calls) {i : Nat} (hused : (l.slots i).used = false)
    (q : Nat) (o : Bool) : ¬ live l.scheduler q i o := by
  intro hq
  obtain ⟨c, hc, -⟩ := h.entry q i o hq
  rw [hc.1] at hused
  cases hused

theorem Wired.invoking_of_call (h : Wired l calls) {i : Nat} :
    ∀ call ∈ calls, call.callable.oneShot = true → call.slot = i →
      (l.slots i).task.invoking = true := by
  rintro call hcall honce rfl
  exact (h.callOnce call hcall honce).1

/-! ## The operations keep it -/

theorem Wired.setEnabled (h : Wired l calls) (handle : EventHandle) (enabled : Bool) :
    Wired (l.setEnabled handle enabled).2 calls := by
  unfold EventLoop.setEnabled
  split
  · rename_i hvalid
    obtain ⟨-, hused, hactive, -⟩ := valid_iff.mp hvalid
    have htask : (l.slots handle.slot).task.setEnabled enabled
        = { (l.slots handle.slot).task with enabled := enabled } := by
      simp [CallbackTask.setEnabled, hactive]
    dsimp only
    rw [htask]
    exact h.touch hused rfl hactive (h.noClear _ hused) h.invoking_of_call
  · exact h

/-- A used slot takes up the new callable, and the scheduler an entry for
it. -/
theorem Wired.accept (h : Wired l calls) {i : Nat} {once : Bool} {s : S} (hi : i < n)
    (hused : (l.slots i).used = false) (hinvoking : (l.slots i).task.invoking = false)
    (hs : Schedules Ok live l.scheduler (true, s) l.nextReg i once) :
    Wired { l.putSlot i
        ⟨⟨some ⟨l.nextReg, ⟨i, (l.slots i).generation⟩, once⟩, true, true, false, false⟩,
          (l.slots i).generation, true⟩ with
      scheduler := s, nextReg := l.nextReg + 1 } calls := by
  let c : Callable := ⟨l.nextReg, ⟨i, (l.slots i).generation⟩, once⟩
  let slot : CallbackSlot := ⟨⟨some c, true, true, false, false⟩, (l.slots i).generation, true⟩
  let accepted : EventLoop S n :=
    { l.putSlot i slot with scheduler := s, nextReg := l.nextReg + 1 }
  have hself : accepted.slots i = slot := putSlot_self l i slot
  have hstored : Stored accepted i c := by
    rw [Stored, hself]
    exact ⟨rfl, rfl⟩
  refine h.change (fun j hij => putSlot_of_ne l hij slot) hs.ok (Nat.le_succ _) ?_ ?_ ?_ ?_
  · refine ⟨fun _ => hi, ?_, fun _ => ⟨c, hstored⟩, ?_, ?_⟩
    · exact hself ▸ rfl
    · exact hself ▸ fun _ => rfl
    · intro d hd
      rw [hd.unique hstored]
      exact ⟨hself ▸ rfl, Nat.lt_succ_self _⟩
  · intro d hd j e he hreg
    rw [hd.unique hstored] at hreg
    exact absurd hreg (Nat.ne_of_gt (h.handle j e he).2)
  · intro q j o hq
    rcases (hs.live q j o).mp hq with hold | ⟨-, rfl, rfl, rfl⟩
    · exact Or.inl ⟨fun heq => h.no_entry hused q o (heq ▸ hold), hold⟩
    · exact Or.inr ⟨rfl, c, hstored, rfl, rfl⟩
  · -- the slot of an executing one-shot is not the one that was free
    intro call hcall honce heq
    obtain ⟨hinv, -⟩ := h.callOnce call hcall honce
    rw [heq, hinvoking] at hinv
    cases hinv

theorem Wired.register (h : Wired l calls) {once : Bool} {add : S → Nat → Nat → Bool × S}
    (hadd : ∀ s task reg, Ok s → Schedules Ok live s (add s task reg) reg task once)
    {r : Option EventHandle} (hr : Registers l once add r l') : Wired l' calls := by
  cases hr with
  | full => exact h
  | busy i hused hinvoking halloc =>
      refine h.free (h.no_entry hused) hused (CallbackTask.clear_active _)
        ?_
      intro call hcall honce hslot
      rw [CallbackTask.clear_invoking]
      exact hinvoking
  | refused i hused hinvoking halloc hrefused =>
      have hs := hadd l.scheduler i l.nextReg h.ok
      have hlive : ∀ q t o, live (add l.scheduler i l.nextReg).2 q t o →
          live l.scheduler q t o := by
        intro q t o hq
        rcases (hs.live q t o).mp hq with hq | ⟨htrue, -⟩
        · exact hq
        · rw [hrefused] at htrue
          cases htrue
      have hfree : Wired (l.putSlot i ⟨{}, (l.slots i).generation + 1, false⟩) calls := by
        refine h.free (h.no_entry hused) rfl rfl ?_
        intro call hcall honce hslot
        have hinv := h.invoking_of_call call hcall honce hslot
        rw [hinvoking] at hinv
        cases hinv
      have hnext := hfree.scheduler hs.ok hlive
      exact ⟨hnext.ok, hnext.range, hnext.active, hnext.stored, hnext.noClear,
        fun i c hc => ⟨(hnext.handle i c hc).1, Nat.lt_succ_of_lt (hnext.handle i c hc).2⟩,
        hnext.regs, hnext.entry,
        fun call hcall => ⟨(hnext.callReg call hcall).1,
          Nat.lt_succ_of_lt (hnext.callReg call hcall).2⟩,
        hnext.callOnce, hnext.apart⟩
  | accepted i hi hused hinvoking halloc haccepted =>
      have hs := hadd l.scheduler i l.nextReg h.ok
      have hpair : add l.scheduler i l.nextReg = (true, (add l.scheduler i l.nextReg).2) :=
        Prod.ext haccepted rfl
      rw [hpair] at hs
      exact h.accept hi hused hinvoking hs

theorem Wired.remove (h : Wired l calls) (handle : EventHandle) :
    Wired (l.remove handle).2 calls := by
  unfold EventLoop.remove
  split
  · rename_i hvalid
    obtain ⟨hn, hused, -, hgen⟩ := valid_iff.mp hvalid
    obtain ⟨hok, -, hlive⟩ := remove_law l.scheduler handle.slot h.ok
    have hnext := h.scheduler hok fun q t o hq => ((hlive q t o).mp hq).1
    dsimp only
    split
    · have hrelease := releaseRegistered_eq
        (l := { l with scheduler := (NativeScheduler.remove l.scheduler handle.slot).2 })
        hn hused hgen
      rw [hrelease]
      refine hnext.free (fun q o hq => ((hlive q _ o).mp hq).2 rfl) rfl
        (CallbackTask.clear_active _) ?_
      intro call hcall honce hslot
      exact (CallbackTask.clear_invoking _).trans (h.invoking_of_call call hcall honce hslot)
    · exact hnext
  · exact h

/-- A `poll` that calls its callable: it is the stored one, and its handle is
valid and enabled. -/
theorem Wired.pollTask_spec (h : Wired l calls) {i : Nat} {c : Callable}
    (hpoll : l.pollTask i = some (c, l')) :
    Stored l i c ∧ l.valid c.handle = true ∧ (l.slots c.handle.slot).task.enabled = true
      ∧ l' = l.putSlot i { l.slots i with
          task := { (l.slots i).task with invoking := true } } := by
  obtain ⟨r, hr, heq⟩ := Option.map_eq_some_iff.mp hpoll
  obtain ⟨rfl, rfl⟩ := Prod.mk.inj heq
  have hentered : (l.slots i).task.pollEnter = some (r.1, r.2) := hr
  obtain ⟨hcallable, hactive, henabled, htask⟩ := CallbackTask.pollEnter_eq_some hentered
  have hused : (l.slots i).used = true := (h.active i).symm.trans hactive
  have hstored : Stored l i r.1 := ⟨hused, hcallable⟩
  have hhandle := (h.handle i r.1 hstored).1
  refine ⟨hstored, ?_, ?_, by rw [htask]⟩
  · rw [hhandle]
    exact valid_iff.mpr ⟨h.range i hused, hused, hactive, rfl⟩
  · rw [hhandle]
    exact henabled

/-- The task of an entry is polled with effect if it is enabled. -/
theorem Wired.pollTask_isSome (h : Wired l calls) {q i : Nat} {o : Bool}
    (hlive : live l.scheduler q i o) (henabled : (l.slots i).task.enabled = true) :
    (l.pollTask i).isSome = true := by
  obtain ⟨c, ⟨hused, hcallable⟩, -⟩ := h.entry q i o hlive
  have hactive : (l.slots i).task.active = true := (h.active i).trans hused
  simp [pollTask, CallbackTask.pollEnter, hcallable, hactive, henabled]

/-- The call is pushed; the entry it is made for belongs to no one-shot that
is executing already. -/
theorem Wired.start (h : Wired l calls) {i q : Nat} {o : Bool} {c : Callable}
    (hpoll : l.pollTask i = some (c, l')) (hlive : live l.scheduler q i o)
    (hother : ∀ call ∈ calls, call.callable.oneShot = true → call.entry ≠ q) :
    Wired l' (⟨q, i, c⟩ :: calls) ∧ c.reg = q ∧ c.oneShot = o := by
  obtain ⟨hstored, -, -, rfl⟩ := h.pollTask_spec hpoll
  obtain ⟨d, hd, hreg, honce⟩ := h.entry q i o hlive
  obtain rfl := hd.unique hstored
  have hactive : (l.slots i).task.active = true := (h.active i).trans hstored.1
  have hnext : Wired (l.putSlot i { l.slots i with
      task := { (l.slots i).task with invoking := true } }) calls :=
    h.touch hstored.1 rfl hactive (h.noClear i hstored.1) fun _ _ _ _ => rfl
  refine ⟨⟨hnext.ok, hnext.range, hnext.active, hnext.stored, hnext.noClear, hnext.handle,
    hnext.regs, hnext.entry, ?_, ?_, ?_⟩, hreg, honce⟩
  · intro call hcall
    rcases List.mem_cons.mp hcall with rfl | hcall
    · exact ⟨hreg, hreg ▸ (h.handle i d hstored).2⟩
    · exact hnext.callReg call hcall
  · intro call hcall hcallOnce
    rcases List.mem_cons.mp hcall with rfl | hcall
    · refine ⟨by simp, congrArg EventHandle.slot (h.handle i d hstored).1, ?_⟩
      intro e he
      rcases stored_putSlot.mp he with ⟨-, -, he⟩ | ⟨hne, -⟩
      · exact Option.some.inj (he.symm.trans hstored.2)
      · exact absurd rfl hne
    · exact hnext.callOnce call hcall hcallOnce
  · refine List.pairwise_cons.mpr ⟨?_, h.apart⟩
    intro lower hlower hlowerOnce heq
    -- the entry would be the one that the executing one-shot below was polled for
    have hsame := (h.callOnce lower hlower hlowerOnce).2.2 d (heq ▸ hstored)
    exact hother lower hlower hlowerOnce
      ((h.callReg lower hlower).1.symm.trans ((congrArg Callable.reg hsame.symm).trans hreg))

/-- A one-shot that returns leaves its slot free. -/
theorem Wired.returnTask_free {call : Call} {rest : List Call} (h : Wired l (call :: rest))
    (honce : call.callable.oneShot = true) :
    ∃ slot : CallbackSlot, l.returnTask call.slot call.callable = l.putSlot call.slot slot
      ∧ slot.used = false ∧ slot.task.active = false := by
  obtain ⟨-, hslot, honly⟩ := h.callOnce call (List.mem_cons_self ..) honce
  have hleave : ∀ t : CallbackTask, t.active = false → t.pollLeave.active = false := by
    intro t ht
    unfold CallbackTask.pollLeave
    dsimp only
    split
    · rfl
    · exact ht
  cases hused : (l.slots call.slot).used with
  | true =>
      obtain ⟨c, hc⟩ := h.stored call.slot hused
      have hhandle := (h.handle call.slot c hc).1
      rw [honly c hc] at hhandle
      have hgen : (l.slots call.callable.handle.slot).generation
          = call.callable.handle.generation := by rw [hhandle]
      have hrelease := releaseRegistered_eq (hslot ▸ h.range _ hused) (hslot ▸ hused) hgen
      refine ⟨{ (l.slots call.slot).release with
          task := (l.slots call.slot).task.clear.pollLeave }, ?_, rfl,
        hleave _ (CallbackTask.clear_active _)⟩
      rw [returnTask, if_pos honce, hrelease, hslot]
      simp only [putSlot_self]
      simp [putSlot, CallbackSlot.release]
  | false =>
      refine ⟨{ l.slots call.slot with task := (l.slots call.slot).task.pollLeave }, ?_, hused,
        hleave _ ((h.active call.slot).trans hused)⟩
      rw [returnTask, if_pos honce, releaseRegistered_stale (Or.inl (hslot ▸ hused))]

/-- The calls below the innermost one. -/
theorem Wired.tail {call : Call} {rest : List Call} (h : Wired l (call :: rest)) :
    Wired l rest :=
  ⟨h.ok, h.range, h.active, h.stored, h.noClear, h.handle, h.regs, h.entry,
    fun c hc => h.callReg c (List.mem_cons_of_mem _ hc),
    fun c hc => h.callOnce c (List.mem_cons_of_mem _ hc), (List.pairwise_cons.mp h.apart).2⟩

theorem Wired.slot_ne {call : Call} {rest : List Call} (h : Wired l (call :: rest)) :
    ∀ lower ∈ rest, lower.callable.oneShot = true → lower.slot ≠ call.slot :=
  fun lower hlower honce heq =>
    (List.pairwise_cons.mp h.apart).1 lower hlower honce heq.symm

/-- The innermost call returns. By then the scheduler has no entry left for it
if it was a one-shot. -/
theorem Wired.finish {call : Call} {rest : List Call} (h : Wired l (call :: rest))
    (hgone : call.callable.oneShot = true → ∀ q o, ¬ live l.scheduler q call.slot o) :
    Wired (l.returnTask call.slot call.callable) rest := by
  have hbelow : ∀ lower ∈ rest, lower.callable.oneShot = true → lower.slot = call.slot →
      ∀ P : Prop, P :=
    fun lower hlower honce heq => absurd heq (h.slot_ne lower hlower honce)
  cases honce : call.callable.oneShot with
  | true =>
      obtain ⟨slot, heq, hused, hactive⟩ := h.returnTask_free honce
      rw [heq]
      exact h.tail.free (hgone honce) hused hactive fun lower hl ho hs => hbelow lower hl ho hs _
  | false =>
      rw [returnTask, honce]
      cases hused : (l.slots call.slot).used with
      | true =>
          have hclear := h.noClear _ hused
          have hleave : (l.slots call.slot).task.pollLeave
              = { (l.slots call.slot).task with invoking := false } := by
            simp [CallbackTask.pollLeave, hclear]
          rw [if_neg Bool.false_ne_true, hleave]
          exact h.tail.touch hused rfl ((h.active _).trans hused) hclear
            fun lower hl ho hs => hbelow lower hl ho hs _
      | false =>
          rw [if_neg Bool.false_ne_true]
          have hactive : (l.slots call.slot).task.active = false := (h.active _).trans hused
          refine h.tail.free (h.no_entry hused) hused ?_
            fun lower hl ho hs => hbelow lower hl ho hs _
          simp only [CallbackTask.pollLeave]
          split
          · rfl
          · exact hactive

/-- An entry for the slot of an executing one-shot is the one it was polled
for. -/
theorem Wired.entry_of_call {call : Call} (h : Wired l calls) (hcall : call ∈ calls)
    (honce : call.callable.oneShot = true) {q : Nat} {o : Bool}
    (hlive : live l.scheduler q call.slot o) : q = call.entry := by
  obtain ⟨c, hc, hreg, -⟩ := h.entry q call.slot o hlive
  rw [← hreg, (h.callOnce call hcall honce).2.2 c hc, (h.callReg call hcall).1]

theorem Wired.stored_returnTask {call : Call} {rest : List Call} (h : Wired l (call :: rest))
    {i : Nat} {c : Callable} (hc : Stored (l.returnTask call.slot call.callable) i c) :
    Stored l i c := by
  cases honce : call.callable.oneShot with
  | true =>
      obtain ⟨slot, heq, hused, -⟩ := h.returnTask_free honce
      rw [heq] at hc
      rcases stored_putSlot.mp hc with ⟨-, hu, -⟩ | ⟨-, hc⟩
      · rw [hused] at hu
        cases hu
      · exact hc
  | false =>
      rw [returnTask, honce, if_neg Bool.false_ne_true] at hc
      rcases stored_putSlot.mp hc with ⟨rfl, hused, hcallable⟩ | ⟨-, hc⟩
      · have hclear := h.noClear _ hused
        exact ⟨hused, by simpa [CallbackTask.pollLeave, hclear] using hcallable⟩
      · exact hc

/-! ## Every used slot has an entry -/

theorem Backed.scheduler (h : Backed l) {s : S}
    (hlive : ∀ q t o, live l.scheduler q t o → live s q t o) :
    Backed { l with scheduler := s } := by
  intro i hi
  obtain ⟨q, o, hq⟩ := h i hi
  exact ⟨q, o, hlive q i o hq⟩

theorem Backed.setEnabled (h : Backed l) (handle : EventHandle) (enabled : Bool) :
    Backed (l.setEnabled handle enabled).2 := by
  unfold EventLoop.setEnabled
  split
  · intro i hi
    by_cases hij : i = handle.slot
    · subst hij
      rw [putSlot_self] at hi
      exact h _ hi
    · rw [putSlot_of_ne l hij] at hi
      exact h i hi
  · exact h

theorem Backed.register (h : Backed l) {once : Bool} {add : S → Nat → Nat → Bool × S}
    (hok : Ok l.scheduler)
    (hadd : ∀ s task reg, Ok s → Schedules Ok live s (add s task reg) reg task once)
    {r : Option EventHandle} (hr : Registers l once add r l') : Backed l' := by
  cases hr with
  | full => exact h
  | busy j hused hinvoking halloc =>
      intro i hi
      by_cases hij : i = j
      · rw [hij, putSlot_self, hused] at hi
        cases hi
      · rw [putSlot_of_ne l hij] at hi
        exact h i hi
  | refused j hused hinvoking halloc hrefused =>
      intro i hi
      by_cases hij : i = j
      · have hself := congrArg CallbackSlot.used
          (putSlot_self l j ⟨{}, (l.slots j).generation + 1, false⟩)
        rw [hij] at hi
        exact absurd (show true = false from hi.symm.trans hself) (by decide)
      · have hother := congrArg CallbackSlot.used
          (putSlot_of_ne l hij ⟨{}, (l.slots j).generation + 1, false⟩)
        obtain ⟨q, o, hq⟩ := h i (hother.symm.trans hi)
        exact ⟨q, o, ((hadd _ j l.nextReg hok).live q i o).mpr (Or.inl hq)⟩
  | accepted j hj hused hinvoking halloc haccepted =>
      intro i hi
      have hlive := (hadd l.scheduler j l.nextReg hok).live
      by_cases hij : i = j
      · exact ⟨l.nextReg, once, (hlive _ _ _).mpr (Or.inr ⟨haccepted, rfl, hij, rfl⟩)⟩
      · have hother := congrArg CallbackSlot.used (putSlot_of_ne l hij
          ⟨⟨some ⟨l.nextReg, ⟨j, (l.slots j).generation⟩, once⟩, true, true, false, false⟩,
            (l.slots j).generation, true⟩)
        obtain ⟨q, o, hq⟩ := h i (hother.symm.trans hi)
        exact ⟨q, o, (hlive q i o).mpr (Or.inl hq)⟩

/-- Where every slot has an entry, a handle that is valid can be removed. -/
theorem Backed.remove_valid (h : Backed l) (hok : Ok l.scheduler) {handle : EventHandle}
    (hvalid : l.valid handle = true) :
    (l.remove handle).1 = true
      ∧ ((l.remove handle).2.slots handle.slot).used = false
      ∧ ∀ i, i ≠ handle.slot → (l.remove handle).2.slots i = l.slots i := by
  obtain ⟨hn, hused, -, hgen⟩ := valid_iff.mp hvalid
  have hremoved : (NativeScheduler.remove l.scheduler handle.slot).1 = true :=
    (remove_law l.scheduler handle.slot hok).2.1.mpr (h _ hused)
  have hrelease := releaseRegistered_eq
    (l := { l with scheduler := (NativeScheduler.remove l.scheduler handle.slot).2 })
    hn hused hgen
  unfold EventLoop.remove
  rw [if_pos hvalid]
  dsimp only
  rw [if_pos hremoved, hrelease]
  refine ⟨rfl, ?_, ?_⟩
  · exact congrArg CallbackSlot.used (putSlot_self l handle.slot (l.slots handle.slot).release)
  · intro i hi
    exact putSlot_of_ne l hi _

theorem Backed.remove (h : Backed l) (hok : Ok l.scheduler) (handle : EventHandle) :
    Backed (l.remove handle).2 := by
  by_cases hvalid : l.valid handle = true
  · obtain ⟨htrue, hfree, hother⟩ := h.remove_valid hok hvalid
    intro i hi
    have hij : i ≠ handle.slot := by
      rintro rfl
      rw [hfree] at hi
      cases hi
    rw [hother i hij] at hi
    obtain ⟨q, o, hq⟩ := h i hi
    have hlive := (remove_law l.scheduler handle.slot hok).2.2 q i o
    have hscheduler : (l.remove handle).2.scheduler
        = (NativeScheduler.remove l.scheduler handle.slot).2 := by
      unfold EventLoop.remove
      rw [if_pos hvalid]
      dsimp only
      split
      · unfold releaseRegistered
        split
        · rfl
        · split <;> rfl
      · rfl
    exact ⟨q, o, by rw [hscheduler]; exact hlive.mpr ⟨hq, hij⟩⟩
  · unfold EventLoop.remove
    rw [if_neg hvalid]
    exact h

theorem Backed.start (h : Backed l) {i : Nat} {c : Callable}
    (hpoll : l.pollTask i = some (c, l')) : Backed l' := by
  obtain ⟨r, -, heq⟩ := Option.map_eq_some_iff.mp hpoll
  obtain ⟨-, rfl⟩ := Prod.mk.inj heq
  intro j hj
  by_cases hij : j = i
  · subst hij
    rw [putSlot_self] at hj
    exact h j hj
  · rw [putSlot_of_ne l hij] at hj
    exact h j hj

/-- The innermost call returns, and the scheduler drops the entry it was
polled for if it was a one-shot. -/
theorem Backed.finish {call : Call} {rest : List Call} (h : Backed l)
    (hw : Wired l (call :: rest)) {s : S}
    (hlive : ∀ q t o, live l.scheduler q t o → (call.callable.oneShot = true → t ≠ call.slot) →
      live s q t o) :
    Backed { l.returnTask call.slot call.callable with scheduler := s } := by
  intro i hi
  have hi' : ((l.returnTask call.slot call.callable).slots i).used = true := hi
  cases honce : call.callable.oneShot with
  | true =>
      obtain ⟨slot, heq, hused, -⟩ := hw.returnTask_free honce
      have hij : i ≠ call.slot := by
        rintro rfl
        rw [heq, putSlot_self, hused] at hi'
        cases hi'
      rw [heq, putSlot_of_ne l hij] at hi'
      obtain ⟨q, o, hq⟩ := h i hi'
      exact ⟨q, o, hlive q i o hq fun _ => hij⟩
  | false =>
      have hused : (l.slots i).used = true := by
        rw [returnTask, honce, if_neg Bool.false_ne_true] at hi'
        by_cases hij : i = call.slot
        · subst hij
          simpa using hi'
        · rwa [putSlot_of_ne l hij] at hi'
      obtain ⟨q, o, hq⟩ := h i hused
      refine ⟨q, o, hlive q i o hq ?_⟩
      intro htrue
      rw [honce] at htrue
      cases htrue

/-- Every used slot has an entry, and a valid handle can be removed: it is not
valid afterwards, and its slot is free, for a new registration to take
unless the callable that used it is still executing. -/
def Reclaimable (l : EventLoop S n) (calls : List Call) : Prop :=
  (∀ h, l.valid h = true → (l.remove h).1 = true ∧ (l.remove h).2.valid h = false
      ∧ ((l.remove h).2.slots h.slot).used = false
      ∧ ((∀ call ∈ calls, call.slot ≠ h.slot) →
        ((l.remove h).2.slots h.slot).task.invoking = false))
    ∧ Backed l

theorem Wired.reclaimable (h : Wired l calls) (hb : Backed l) (ha : Attended l calls) :
    Reclaimable l calls := by
  refine ⟨?_, hb⟩
  intro handle hvalid
  obtain ⟨htrue, hfree, -⟩ := hb.remove_valid h.ok hvalid
  refine ⟨htrue, ?_, hfree, ?_⟩
  · cases hstill : (l.remove handle).2.valid handle with
    | false => rfl
    | true =>
        rw [(valid_iff.mp hstill).2.1] at hfree
        cases hfree
  · intro hnot
    cases hinvoking : ((l.remove handle).2.slots handle.slot).task.invoking with
    | false => rfl
    | true =>
        have hold := perform_invoking (.remove handle) (l := l) hinvoking
        obtain ⟨call, hcall, heq⟩ := ha _ hold
        exact absurd heq (hnot call hcall)

/-! ## Calls from the application -/

theorem Wired.perform (h : Wired l calls) (call : ApiCall) :
    Wired (call.perform l).1 calls := by
  cases call with
  | register r env =>
      have hspec := register_spec l r.delay.isSome (r.add env)
      rw [← Registration.perform_eq] at hspec
      exact h.register (fun s task reg hok => r.add_law env s task reg hok) hspec
  | enable handle => exact h.setEnabled handle true
  | disable handle => exact h.setEnabled handle false
  | remove handle => exact h.remove handle

theorem Backed.perform (h : Backed l) (hok : Ok l.scheduler) (call : ApiCall) :
    Backed (call.perform l).1 := by
  cases call with
  | register r env =>
      have hspec := register_spec l r.delay.isSome (r.add env)
      rw [← Registration.perform_eq] at hspec
      exact h.register hok (fun s task reg hok => r.add_law env s task reg hok) hspec
  | enable handle => exact h.setEnabled handle true
  | disable handle => exact h.setEnabled handle false
  | remove handle => exact h.remove hok handle

/-- A callable that is stored after a call was stored before it, and not under
a handle the call removed; or it is the one the call registered. -/
theorem Wired.stored_perform (h : Wired l calls) {call : ApiCall} {i : Nat} {c : Callable}
    (hc : Stored (call.perform l).1 i c) :
    (Stored l i c ∧ .removed c.handle ∉ (call.perform l).2)
      ∨ ∃ delay, (call.perform l).2 = [.registered c.reg c.handle delay]
        ∧ c.oneShot = delay.isSome := by
  cases call with
  | register r env =>
      have hspec := register_spec l r.delay.isSome (r.add env)
      rw [← Registration.perform_eq] at hspec
      simp only [ApiCall.perform] at hc ⊢
      rcases hspec.stored hc with hc | ⟨hr, hreg, honce⟩
      · refine Or.inl ⟨hc, ?_⟩
        cases (r.perform l env).1 <;> simp
      · refine Or.inr ⟨r.delay.map fun d => (env.now, d), ?_, by simp [honce]⟩
        rw [hr, hreg]
  | enable handle => exact Or.inl ⟨stored_setEnabled hc, List.not_mem_nil⟩
  | disable handle => exact Or.inl ⟨stored_setEnabled hc, List.not_mem_nil⟩
  | remove handle =>
      obtain ⟨hold, hne⟩ := stored_remove hc
      refine Or.inl ⟨hold, ?_⟩
      simp only [ApiCall.perform]
      cases hremoved : (l.remove handle).1 with
      | false => simp
      | true =>
          have hslot : c.handle.slot = i := congrArg EventHandle.slot (h.handle i c hold).1
          rw [if_pos rfl, List.mem_singleton]
          intro heq
          exact hne hremoved (by rw [← hslot, CallNote.removed.inj heq])

end

end EventLoop

end AsyncEventLoop
