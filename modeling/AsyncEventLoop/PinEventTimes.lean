import AsyncEventLoop.Logs
import AsyncEventLoop.Micros32Extender
import AsyncEventLoop.PinEventSources

/-!
# The timestamps of pin events

Both Arduino sources stamp an event with the 32-bit counter, widened to 64
bits but not extended. `Stamped` is what they have in common: an event is
due at certain calls, its stamp is the counter at a true time, and its
sequence number is the next one. In a run the true time only goes on.

Two consecutive events are out of order exactly if the counter was lower
at the second than at the first, which takes a rollover in between
(`timestamps_ordered_iff`); the sequence number's own wrap is the one place
where the order is not asked for.
-/

namespace AsyncEventLoop

open Logs Runs Micros32Extender

/-! ## Sources that stamp their events -/

/-- A source in states `σ` with calls `ε`. Before a call, `due` is the true time
its event would be stamped with, if there is one. -/
structure Stamped (σ ε : Type) where
  call : σ → Nat → ε → Option PinEvent × σ
  due : σ → Nat → ε → Option Nat
  sequence : σ → UInt32
  Ok : σ → Prop
  call_ok : ∀ s now e, Ok s → Ok (call s now e).2
  call_none : ∀ s now e, Ok s → due s now e = none →
    (call s now e).1 = none ∧ sequence (call s now e).2 = sequence s
  call_some : ∀ s now e time, Ok s → due s now e = some time →
    ∃ event, (call s now e).1 = some event
      ∧ event.timestampUs = (rawMicros time).toUInt64 ∧ event.sequence = sequence s + 1
      ∧ sequence (call s now e).2 = event.sequence

inductive TimedEvent (ε : Type) where
  | elapse (us : Nat)
  | call (e : ε)

/-- A source, the true time, the events so far, newest first, and the true time
of the newest one's stamp. -/
structure TimedRun (σ : Type) where
  source : σ
  now : Nat := 0
  log : List PinEvent := []
  stampedAt : Nat := 0

/-- If the sequence number has increased since the last event, the timestamp is no
smaller. -/
def Follows (event : PinEvent) (older : List PinEvent) : Prop :=
  ∀ last rest, older = last :: rest →
    last.sequence < event.sequence → last.timestampUs ≤ event.timestampUs

/-- The timestamps of consecutive events do not go back. -/
def Ordered (log : List PinEvent) : Prop := EachEntry Follows log

namespace Stamped

variable {σ ε : Type} (S : Stamped σ ε)

def step (s : TimedRun σ) : TimedEvent ε → Option (TimedRun σ)
  | .elapse us => some { s with now := s.now + us }
  | .call e =>
      let r := S.call s.source s.now e
      some (match r.1 with
        | none => { s with source := r.2 }
        | some event =>
            { s with
              source := r.2, log := event :: s.log
              stampedAt := (S.due s.source s.now e).getD 0 })

/-- If an event is due and it is neither the first nor the one at which the
sequence number wraps, the counter is not lower than at the last one. -/
def inOrder (s : TimedRun σ) : TimedEvent ε → Bool
  | .elapse _ => true
  | .call e =>
      (S.due s.source s.now e).all fun time =>
        s.log.isEmpty || S.sequence s.source = 0xffffffff
          || s.stampedAt % 2 ^ 32 ≤ time % 2 ^ 32

/-- The newest event has the current sequence number and the counter of the time
that is remembered with it. -/
structure Inv (s : TimedRun σ) : Prop where
  ok : S.Ok s.source
  newest : ∀ event older, s.log = event :: older →
    event.sequence = S.sequence s.source
      ∧ event.timestampUs = (rawMicros s.stampedAt).toUInt64

variable {S}

/-- A sequence number is below the next one unless it is the last of 32 bits. -/
theorem lt_add_one_iff {sequence : UInt32} :
    sequence < sequence + 1 ↔ sequence ≠ 0xffffffff := by
  have hlt := sequence.toNat_lt
  rw [UInt32.lt_iff_toNat_lt, UInt32.toNat_add, ne_eq, ← UInt32.toNat_inj]
  show sequence.toNat < (sequence.toNat + 1) % 4294967296 ↔ ¬sequence.toNat = 4294967295
  omega

theorem stamp_le_iff {last time : Nat} :
    (rawMicros last).toUInt64 ≤ (rawMicros time).toUInt64 ↔ last % 2 ^ 32 ≤ time % 2 ^ 32 := by
  rw [UInt64.le_iff_toNat_le, UInt32.toNat_toUInt64, UInt32.toNat_toUInt64, toNat_rawMicros,
    toNat_rawMicros]

/-- **What a step does to the log**: nothing, or one more event, which follows the
last one exactly if the step is in order. -/
theorem step_spec {s s' : TimedRun σ} {e : TimedEvent ε} (hinv : S.Inv s)
    (hstep : S.step s e = some s') :
    S.Inv s' ∧ ((S.inOrder s e = true ∧ s'.log = s.log)
      ∨ ∃ event, s'.log = event :: s.log ∧ (Follows event s.log ↔ S.inOrder s e = true)) := by
  cases e with
  | elapse us =>
      obtain rfl := Option.some.inj hstep
      exact ⟨⟨hinv.ok, hinv.newest⟩, Or.inl ⟨rfl, rfl⟩⟩
  | call e =>
      obtain rfl := Option.some.inj hstep
      have hok := S.call_ok s.source s.now e hinv.ok
      cases hdue : S.due s.source s.now e with
      | none =>
          obtain ⟨hnone, hsequence⟩ := S.call_none s.source s.now e hinv.ok hdue
          rw [hnone]
          refine ⟨⟨hok, ?_⟩, Or.inl ⟨by rw [inOrder, hdue, Option.all_none], rfl⟩⟩
          intro event older hlog
          obtain ⟨hevent, hstamp⟩ := hinv.newest event older hlog
          exact ⟨hevent.trans hsequence.symm, hstamp⟩
      | some time =>
          obtain ⟨event, hsome, hstamp, hnext, hsequence⟩ :=
            S.call_some s.source s.now e time hinv.ok hdue
          rw [hsome]
          refine ⟨⟨hok, ?_⟩, Or.inr ⟨event, rfl, ?_⟩⟩
          · intro event' older hlog
            obtain ⟨rfl, -⟩ := List.cons.inj hlog
            exact ⟨hsequence.symm, hstamp⟩
          · rw [inOrder, hdue, Option.all_some]
            cases hlog : s.log with
            | nil => simp [Follows]
            | cons last older =>
                obtain ⟨hlast, hlastStamp⟩ := hinv.newest last older hlog
                have hfollows : Follows event (last :: older)
                    ↔ (last.sequence < event.sequence → last.timestampUs ≤ event.timestampUs) := by
                  simp [Follows]
                rw [hfollows, hlast, hnext, lt_add_one_iff, hlastStamp, hstamp, stamp_le_iff]
                simp [Decidable.imp_iff_not_or]

theorem step_ordered {s s' : TimedRun σ} {e : TimedEvent ε} (hinv : S.Inv s)
    (hstep : S.step s e = some s') :
    S.Inv s' ∧ (Ordered s'.log ↔ Ordered s.log ∧ S.inOrder s e = true) := by
  obtain ⟨hinv', ⟨hc, hlog⟩ | ⟨event, hlog, hfollows⟩⟩ := step_spec hinv hstep
  · refine ⟨hinv', ?_⟩
    rw [hlog, hc, and_iff_left rfl]
  · refine ⟨hinv', ?_⟩
    rw [Ordered, hlog, eachEntry_cons, hfollows, and_comm, Ordered]

/-- In a run from an empty log the events are in order exactly if every step
was. -/
theorem ordered_iff {s s' : TimedRun σ} {es : List (TimedEvent ε)} (hok : S.Ok s.source)
    (hempty : s.log = []) (hrun : run S.step s es = some s') :
    Ordered s'.log ↔ run (restrict S.inOrder S.step) s es = some s' := by
  have hinv : S.Inv s := by
    refine ⟨hok, fun event older h => ?_⟩
    rw [hempty] at h
    cases h
  have hordered : Ordered s.log := hempty ▸ eachEntry_nil _
  exact run_iff_restrict (fun _ _ _ hinv hstep => step_ordered hinv hstep) hinv hordered hrun

end Stamped

/-! ## The two sources -/

namespace ArduinoDigitalPinEventSource

inductive Call where
  | start
  | readEvent (level : Bool)

/-- The counter is read together with the sample of the pin. -/
def stamped : Stamped ArduinoDigitalPinEventSource Call where
  call s now
    | .start => (none, s.start)
    | .readEvent level => s.readEvent level (rawMicros now)
  due s now
    | .start => none
    | .readEvent level => if s.fires level then some now else none
  sequence := ArduinoDigitalPinEventSource.sequence
  Ok _ := True
  call_ok _ _ _ _ := trivial
  call_none s now e _ hdue := by
    cases e with
    | start => exact ⟨rfl, rfl⟩
    | readEvent level =>
        rcases s.readEvent_spec level (rawMicros now) with ⟨hfires, -⟩ | ⟨-, hnone, hnext⟩
        · simp [hfires] at hdue
        · refine ⟨hnone, ?_⟩
          dsimp only
          rw [hnext]
          split <;> rfl
  call_some s now e time _ hdue := by
    cases e with
    | start => cases hdue
    | readEvent level =>
        rcases s.readEvent_spec level (rawMicros now) with
          ⟨hfires, event, hevent, hstamp, hsequence, hnext⟩ | ⟨hquiet, -⟩
        · obtain rfl : now = time := by simpa [hfires] using hdue
          refine ⟨event, hevent, hstamp, hsequence, ?_⟩
          dsimp only
          rw [hnext, hsequence]
        · simp [hquiet] at hdue

end ArduinoDigitalPinEventSource

namespace ArduinoInterruptPinEventSource

/-- The source, and the true time of the notification it counted last. -/
structure Notified where
  source : ArduinoInterruptPinEventSource
  notifiedAt : Nat := 0

inductive Call where
  | notifyFromIsr (level : Bool)
  | readEvent

/-- The counter is read by the interrupt handler, unless the notification is one
too many. -/
def stamped : Stamped Notified Call where
  call s now
    | .notifyFromIsr level =>
        (none, {
          source := s.source.notifyFromIsr level (rawMicros now)
          notifiedAt := if s.source.pendingCount = 0xffff then s.notifiedAt else now })
    | .readEvent => (s.source.readEvent.1, { s with source := s.source.readEvent.2 })
  due s _
    | .notifyFromIsr _ => none
    | .readEvent => if s.source.pendingCount = 0 then none else some s.notifiedAt
  sequence s := s.source.sequence
  Ok s := s.source.pendingCount ≠ 0 → s.source.lastTimestampUs = rawMicros s.notifiedAt
  call_ok s now e hok := by
    cases e with
    | notifyFromIsr level =>
        dsimp only
        unfold notifyFromIsr
        split
        · exact hok
        · exact fun _ => rfl
    | readEvent =>
        dsimp only
        unfold readEvent
        split
        · exact hok
        · exact fun h => absurd rfl h
  call_none s now e _ hdue := by
    cases e with
    | notifyFromIsr level =>
        refine ⟨rfl, ?_⟩
        dsimp only
        unfold notifyFromIsr
        split <;> rfl
    | readEvent =>
        dsimp only at hdue ⊢
        unfold readEvent
        split at hdue
        · rename_i hpending
          rw [if_pos hpending]
          exact ⟨rfl, rfl⟩
        · cases hdue
  call_some s now e time hok hdue := by
    cases e with
    | notifyFromIsr level => cases hdue
    | readEvent =>
        dsimp only at hdue ⊢
        unfold readEvent
        split at hdue
        · cases hdue
        · rename_i hpending
          obtain rfl := Option.some.inj hdue
          rw [if_neg hpending]
          exact ⟨_, rfl, by rw [hok hpending], rfl, rfl⟩

end ArduinoInterruptPinEventSource

section

variable {source : ArduinoDigitalPinEventSource} {pin : UInt8} {eventType : PinEventType}
  {sourceId : UInt32} {now now' : Nat}

/-- In runs of the two sources, of any length and with any time between their
calls, the events are in order exactly if at none of them the counter was lower
than at the one before, wraps of the sequence number apart. -/
theorem timestamps_ordered_iff
    {es : List (TimedEvent ArduinoDigitalPinEventSource.Call)}
    {s : TimedRun ArduinoDigitalPinEventSource}
    (hdigital : run ArduinoDigitalPinEventSource.stamped.step
      { source := source, now := now } es = some s)
    {fs : List (TimedEvent ArduinoInterruptPinEventSource.Call)}
    {t : TimedRun ArduinoInterruptPinEventSource.Notified}
    (hinterrupt : run ArduinoInterruptPinEventSource.stamped.step
      { source := { source := .make pin eventType sourceId }, now := now' } fs = some t) :
    (Ordered s.log
      ↔ run (restrict ArduinoDigitalPinEventSource.stamped.inOrder
          ArduinoDigitalPinEventSource.stamped.step) { source := source, now := now } es
        = some s)
    ∧ (Ordered t.log
      ↔ run (restrict ArduinoInterruptPinEventSource.stamped.inOrder
          ArduinoInterruptPinEventSource.stamped.step)
          { source := { source := .make pin eventType sourceId }, now := now' } fs = some t) :=
  ⟨Stamped.ordered_iff trivial rfl hdigital,
    Stamped.ordered_iff (fun h => absurd rfl h) rfl hinterrupt⟩

end

/-- A button that is pressed and released, and an interrupt for each. -/
theorem timestamps_ordered_iff_run :
    (∃ s, run ArduinoDigitalPinEventSource.stamped.step { source := { pin := 2 } }
        [.call .start, .call (.readEvent false), .elapse 50, .call (.readEvent true),
          .elapse 70, .call (.readEvent false)] = some s ∧ Ordered s.log)
    ∧ ∃ s, run ArduinoInterruptPinEventSource.stamped.step
        { source := { source := .make 2 .change 0 } }
        [.elapse 50, .call (.notifyFromIsr true), .call .readEvent, .elapse 70,
          .call (.notifyFromIsr false), .call .readEvent] = some s ∧ Ordered s.log := by
  have hdigital : (run (restrict ArduinoDigitalPinEventSource.stamped.inOrder
      ArduinoDigitalPinEventSource.stamped.step) { source := { pin := 2 } }
      [.call .start, .call (.readEvent false), .elapse 50, .call (.readEvent true),
        .elapse 70, .call (.readEvent false)]).map (fun s => s.log.map (·.timestampUs))
      = some [120, 50] := rfl
  have hinterrupt : (run (restrict ArduinoInterruptPinEventSource.stamped.inOrder
      ArduinoInterruptPinEventSource.stamped.step)
      { source := { source := .make 2 .change 0 } }
      [.elapse 50, .call (.notifyFromIsr true), .call .readEvent, .elapse 70,
        .call (.notifyFromIsr false), .call .readEvent]).map
      (fun s => s.log.map (·.timestampUs)) = some [120, 50] := rfl
  obtain ⟨s, hs, -⟩ := Option.map_eq_some_iff.mp hdigital
  obtain ⟨t, ht, -⟩ := Option.map_eq_some_iff.mp hinterrupt
  obtain ⟨hs', ht'⟩ := timestamps_ordered_iff (run_of_restrict hs) (run_of_restrict ht)
  exact ⟨⟨s, run_of_restrict hs, hs'.mpr hs⟩, t, run_of_restrict ht, ht'.mpr ht⟩

/-- Pressed just before the counter rolls over and released just behind it: the
second event is stamped with 7, far below the first. -/
theorem timestamps_ordered_fails :
    ∃ s, run ArduinoDigitalPinEventSource.stamped.step { source := { pin := 2 } }
        [.call .start, .call (.readEvent false), .elapse 4294967293, .call (.readEvent true),
          .elapse 10, .call (.readEvent false)] = some s ∧ ¬Ordered s.log := by
  have hend : (run ArduinoDigitalPinEventSource.stamped.step { source := { pin := 2 } }
      [.call .start, .call (.readEvent false), .elapse 4294967293, .call (.readEvent true),
        .elapse 10, .call (.readEvent false)]).map (·.log)
      = some [⟨.fallingEdge, 7, 2, 2, false⟩, ⟨.risingEdge, 4294967293, 2, 1, true⟩] := rfl
  obtain ⟨s, hrun, hlog⟩ := Option.map_eq_some_iff.mp hend
  refine ⟨s, hrun, fun hordered => ?_⟩
  rw [Ordered, hlog] at hordered
  have hle := (eachEntry_cons.mp hordered).1 _ _ rfl (by decide)
  exact absurd hle (by decide)

end AsyncEventLoop
