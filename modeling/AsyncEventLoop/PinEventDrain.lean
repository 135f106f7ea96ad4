import AsyncEventLoop.PinEventSources
import Mathlib.Logic.Function.Iterate

/-!
# Draining a pin event source

The callable that `on_pin_event` registers reads events until there are none
(`drain`). It returns exactly if some read finds nothing, so its end is up to
the source: a source with an edge type runs out of edges when the pin comes to
rest, while one with a level type goes on as long as the pin is at that level.
-/

namespace AsyncEventLoop

/-! ## The loop -/

section

variable {σ : Type}

/-- `while (source.read_event(event)) callable(event);`, the events delivered and
the source behind them; `none` if it has not ended after so many turns. -/
def drain (readEvent : σ → Option PinEvent × σ) : Nat → σ → Option (List PinEvent × σ)
  | 0, _ => none
  | turns + 1, s =>
      match readEvent s with
      | (none, s') => some ([], s')
      | (some event, s') => (drain readEvent turns s').map fun r => (event :: r.1, r.2)

/-- The source after so many reads. -/
def afterReads (readEvent : σ → Option PinEvent × σ) (n : Nat) (s : σ) : σ :=
  (fun s => (readEvent s).2)^[n] s

/-- The loop ends with the first read that finds nothing. -/
theorem drain_isSome_iff {readEvent : σ → Option PinEvent × σ} {turns : Nat} {s : σ} :
    (drain readEvent turns s).isSome = true
      ↔ ∃ n < turns, (readEvent (afterReads readEvent n s)).1 = none := by
  induction turns generalizing s with
  | zero => simp [drain]
  | succ turns ih =>
      rw [drain]
      split
      · rename_i s' hread
        refine ⟨fun _ => ⟨0, Nat.succ_pos _, ?_⟩, fun _ => rfl⟩
        show (readEvent s).1 = none
        rw [hread]
      · rename_i event s' hread
        have hnext : ∀ n, afterReads readEvent (n + 1) s = afterReads readEvent n s' := by
          intro n
          rw [afterReads, Function.iterate_succ_apply, hread]
          rfl
        rw [Option.isSome_map, ih]
        constructor
        · rintro ⟨n, hn, hnone⟩
          exact ⟨n + 1, Nat.succ_lt_succ hn, by rw [hnext]; exact hnone⟩
        · rintro ⟨n, hn, hnone⟩
          cases n with
          | zero =>
              change (readEvent s).1 = none at hnone
              rw [hread] at hnone
              cases hnone
          | succ n => exact ⟨n, Nat.lt_of_succ_lt_succ hn, by rw [← hnext]; exact hnone⟩

theorem drain_eq_some_iff {readEvent : σ → Option PinEvent × σ} {s : σ} :
    (∃ turns events last, drain readEvent turns s = some (events, last))
      ↔ ∃ n, (readEvent (afterReads readEvent n s)).1 = none := by
  constructor
  · rintro ⟨turns, events, last, h⟩
    obtain ⟨n, -, hnone⟩ := drain_isSome_iff.mp (Option.isSome_iff_exists.mpr ⟨_, h⟩)
    exact ⟨n, hnone⟩
  · rintro ⟨n, hnone⟩
    obtain ⟨r, hr⟩ := Option.isSome_iff_exists.mp
      (drain_isSome_iff.mpr ⟨n, Nat.lt_succ_self n, hnone⟩)
    exact ⟨n + 1, r.1, r.2, hr⟩

end

/-! ## The cooperative source -/

/-- The level of a level type. -/
def PinEventType.heldLevel : PinEventType → Option Bool
  | .highLevel => some true
  | .lowLevel => some false
  | _ => none

namespace ArduinoDigitalPinEventSource

variable {s : ArduinoDigitalPinEventSource} {trace : Nat → Bool} {clock : Nat → UInt32}

/-- `read_event` with the samples of the pin and the values of the counter one
after the other; the number is that of the reads made. -/
def readNext (trace : Nat → Bool) (clock : Nat → UInt32)
    (p : ArduinoDigitalPinEventSource × Nat) :
    Option PinEvent × ArduinoDigitalPinEventSource × Nat :=
  let r := p.1.readEvent (trace p.2) (clock p.2)
  (r.1, r.2, p.2 + 1)

/-- Away from its level a level type has nothing to say; an edge type has nothing
to say of a pin that stays where it was. -/
theorem fires_of_held {level current : Bool} (hheld : s.eventType.heldLevel = some level) :
    s.fires current = (s.ready && (current == level)) := by
  unfold fires matchesType atLevel
  cases htype : s.eventType with
  | highLevel =>
      rw [htype] at hheld
      obtain rfl := Option.some.inj hheld
      simp
  | lowLevel =>
      rw [htype] at hheld
      obtain rfl := Option.some.inj hheld
      simp
  | _ =>
      rw [htype] at hheld
      cases hheld

theorem fires_of_rest (hedge : s.eventType.heldLevel = none) (hlast : s.hasLast = true) :
    s.fires s.lastLevel = false := by
  unfold fires matchesType
  rw [if_pos hlast]
  cases htype : s.eventType with
  | highLevel =>
      rw [htype] at hedge
      cases hedge
  | lowLevel =>
      rw [htype] at hedge
      cases hedge
  | _ => simp

/-- The source of a pin that is read remembers the last sample and nothing else. -/
theorem afterReads_spec (trace : Nat → Bool) (clock : Nat → UInt32) (hready : s.ready = true)
    (n : Nat) :
    ∃ s', afterReads (readNext trace clock) n (s, 0) = (s', n) ∧ s'.ready = true
      ∧ s'.eventType = s.eventType
      ∧ (0 < n → s'.hasLast = true ∧ s'.lastLevel = trace (n - 1)) := by
  induction n with
  | zero => exact ⟨s, rfl, hready, rfl, fun h => absurd h (Nat.lt_irrefl 0)⟩
  | succ n ih =>
      obtain ⟨s', hreads, hready', htype, -⟩ := ih
      have hnext : afterReads (readNext trace clock) (n + 1) (s, 0)
          = ((s'.readEvent (trace n) (clock n)).2, n + 1) := by
        unfold afterReads at hreads ⊢
        rw [Function.iterate_succ_apply', hreads]
        rfl
      refine ⟨_, hnext, ?_⟩
      rcases s'.readEvent_spec (trace n) (clock n) with ⟨-, event, -, -, -, heq⟩ | ⟨-, -, heq⟩
      · rw [heq]
        exact ⟨hready', htype, fun _ => ⟨rfl, rfl⟩⟩
      · rw [heq, if_pos hready']
        exact ⟨hready', htype, fun _ => ⟨rfl, rfl⟩⟩

/-- A read that finds nothing, of a source that was begun, found the pin away from
the level of a level type. -/
theorem off_level_of_none {n : Nat} (hready : s.ready = true)
    (hnone : (readNext trace clock (afterReads (readNext trace clock) n (s, 0))).1 = none)
    {level : Bool} (hheld : s.eventType.heldLevel = some level) : trace n ≠ level := by
  obtain ⟨s', hreads, hready', htype, -⟩ := afterReads_spec trace clock hready n
  rw [hreads] at hnone
  have hquiet : s'.fires (trace n) = false := readEvent_eq_none_iff.mp hnone
  rw [fires_of_held (htype ▸ hheld), hready', Bool.true_and] at hquiet
  exact beq_eq_false_iff_ne.mp hquiet

theorem none_of_off_level {n : Nat} (hready : s.ready = true) {level : Bool}
    (hheld : s.eventType.heldLevel = some level) (hn : trace n ≠ level) :
    (readNext trace clock (afterReads (readNext trace clock) n (s, 0))).1 = none := by
  obtain ⟨s', hreads, -, htype, -⟩ := afterReads_spec trace clock hready n
  rw [hreads]
  refine readEvent_eq_none_iff.mpr ?_
  rw [fires_of_held (htype ▸ hheld), beq_eq_false_iff_ne.mpr hn, Bool.and_false]

/-- An edge type finds nothing behind two equal samples. -/
theorem none_of_rest {n : Nat} (hready : s.ready = true) (hedge : s.eventType.heldLevel = none)
    (hn : trace (n + 1) = trace n) :
    (readNext trace clock (afterReads (readNext trace clock) (n + 1) (s, 0))).1 = none := by
  obtain ⟨s', hreads, -, htype, hafter⟩ := afterReads_spec trace clock hready (n + 1)
  obtain ⟨hlast, hlevel⟩ := hafter (Nat.succ_pos n)
  have hquiet := fires_of_rest (htype ▸ hedge) hlast
  rw [hreads]
  refine readEvent_eq_none_iff.mpr ?_
  rwa [hlevel, Nat.add_sub_cancel, ← hn] at hquiet

/-- One execution of the task `on_pin_event` registers, over a source in any
state and a pin that comes to rest: it delivers finitely many events and
returns exactly if the source was not begun, its type is an edge, or the pin
is not at the level of its type in some sample. -/
theorem drain_ends_iff (s : ArduinoDigitalPinEventSource) (trace : Nat → Bool)
    (clock : Nat → UInt32) (hrest : ∃ k, ∀ j, k ≤ j → trace j = trace k) :
    (∃ turns events last, drain (readNext trace clock) turns (s, 0) = some (events, last))
      ↔ s.ready = false ∨ ∀ level, s.eventType.heldLevel = some level → ∃ n, trace n ≠ level := by
  rw [drain_eq_some_iff]
  by_cases hready : s.ready = true
  · rw [or_iff_right (by simp [hready])]
    constructor
    · rintro ⟨n, hnone⟩ level hheld
      exact ⟨n, off_level_of_none hready hnone hheld⟩
    · intro hoff
      cases hheld : s.eventType.heldLevel with
      | none =>
          obtain ⟨k, hk⟩ := hrest
          exact ⟨k + 1, none_of_rest hready hheld (hk (k + 1) (Nat.le_succ k))⟩
      | some level =>
          obtain ⟨n, hn⟩ := hoff level hheld
          exact ⟨n, none_of_off_level hready hheld hn⟩
  · have hoff : s.ready = false := Bool.eq_false_iff.mpr hready
    refine ⟨fun _ => Or.inl hoff, fun _ => ⟨0, readEvent_eq_none_iff.mpr ?_⟩⟩
    show s.fires (trace 0) = false
    rw [fires, hoff, Bool.false_and]

/-- A button that is pressed and stays pressed. -/
theorem drain_ends_iff_run :
    ∃ turns events last, drain (readNext (fun n => decide (3 ≤ n)) fun _ => 0) turns
      ({ pin := 2, eventType := .risingEdge, ready := true }, 0) = some (events, last) :=
  (drain_ends_iff { pin := 2, eventType := .risingEdge, ready := true }
    (fun n => decide (3 ≤ n)) (fun _ => 0) ⟨3, fun j hj => by simp [hj]⟩).mpr
    (Or.inr (by simp [PinEventType.heldLevel]))

/-- A high-level source on a pin that stays high: the loop does not end. -/
theorem drain_ends_fails :
    ¬∃ turns events last, drain (readNext (fun _ => true) fun _ => 0) turns
      ({ pin := 2, eventType := .highLevel, ready := true }, 0) = some (events, last) := by
  rw [drain_eq_some_iff]
  rintro ⟨n, hnone⟩
  have hheld : PinEventType.highLevel.heldLevel = some true := rfl
  exact off_level_of_none rfl hnone hheld rfl

end ArduinoDigitalPinEventSource

end AsyncEventLoop
