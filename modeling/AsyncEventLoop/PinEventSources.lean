import AsyncEventLoop.Runs
import Mathlib.Algebra.Ring.Nat

/-!
# The Arduino pin event sources

`ArduinoDigitalPinEventSource` samples a pin when it is read;
`ArduinoInterruptPinEventSource` counts what an interrupt handler tells it
and hands the counts over when it is read. What the hardware contributes (the
level of the pin, the 32-bit counter) is an argument.

The two counters of the second are 16 bits wide. One of them stops at its
maximum, the other starts again at zero: `accounted_iff` says that this is
the only way to lose notifications.
-/

namespace AsyncEventLoop

open Runs

inductive PinEventType where
  | risingEdge
  | fallingEdge
  | change
  | highLevel
  | lowLevel
  deriving DecidableEq

structure PinEvent where
  type : PinEventType := .change
  timestampUs : UInt64 := 0
  sourceId : UInt32 := 0
  sequence : UInt32 := 0
  level : Bool := false
  deriving DecidableEq

/-! ## The cooperative source -/

structure ArduinoDigitalPinEventSource where
  pin : UInt8
  eventType : PinEventType := .change
  sequence : UInt32 := 0
  ready : Bool := false
  hasLast : Bool := false
  lastLevel : Bool := false
  deriving DecidableEq

namespace ArduinoDigitalPinEventSource

/-- `begin`, less the `pinMode` call. -/
def start (s : ArduinoDigitalPinEventSource) : ArduinoDigitalPinEventSource :=
  { s with ready := true }

def valid (s : ArduinoDigitalPinEventSource) : Bool := s.ready

/-- `matches`. -/
def matchesType (s : ArduinoDigitalPinEventSource) (previous current : Bool) : Bool :=
  match s.eventType with
  | .risingEdge => !previous && current
  | .fallingEdge => previous && !current
  | .change => previous != current
  | .highLevel => current
  | .lowLevel => !current

def edgeType (s : ArduinoDigitalPinEventSource) (previous current : Bool) : PinEventType :=
  if !previous && current then .risingEdge
  else if previous && !current then .fallingEdge
  else s.eventType

/-- The condition of `level_event`. -/
def atLevel (s : ArduinoDigitalPinEventSource) (current : Bool) : Bool :=
  (s.eventType = .highLevel && current) || (s.eventType = .lowLevel && !current)

/-- What both branches fill in. -/
def emit (s : ArduinoDigitalPinEventSource) (type : PinEventType) (current : Bool)
    (micros : UInt32) : Option PinEvent × ArduinoDigitalPinEventSource :=
  (some { type := type, timestampUs := micros.toUInt64, sourceId := s.pin.toUInt32,
          sequence := s.sequence + 1, level := current },
    { s with sequence := s.sequence + 1 })

def levelEvent (s : ArduinoDigitalPinEventSource) (current : Bool) (micros : UInt32) :
    Option PinEvent × ArduinoDigitalPinEventSource :=
  if s.atLevel current then s.emit s.eventType current micros else (none, s)

/-- `read_event`, with the sample of the pin and the value of `micros()` it would
see. -/
def readEvent (s : ArduinoDigitalPinEventSource) (current : Bool) (micros : UInt32) :
    Option PinEvent × ArduinoDigitalPinEventSource :=
  if !s.ready then (none, s)
  else if !s.hasLast then
    levelEvent { s with lastLevel := current, hasLast := true } current micros
  else
    let previous := s.lastLevel
    let s := { s with lastLevel := current }
    if !s.matchesType previous current then (none, s)
    else s.emit (s.edgeType previous current) current micros

/-- Whether a sample makes an event: the first one by its level alone. -/
def fires (s : ArduinoDigitalPinEventSource) (current : Bool) : Bool :=
  s.ready && if s.hasLast then s.matchesType s.lastLevel current else s.atLevel current

/-- **What a read does**: there is an event exactly if the sample fires. -/
theorem readEvent_spec (s : ArduinoDigitalPinEventSource) (current : Bool) (micros : UInt32) :
    (s.fires current = true ∧ ∃ event, (s.readEvent current micros).1 = some event
        ∧ event.timestampUs = micros.toUInt64 ∧ event.sequence = s.sequence + 1
        ∧ (s.readEvent current micros).2
            = { s with lastLevel := current, hasLast := true, sequence := s.sequence + 1 })
      ∨ (s.fires current = false ∧ (s.readEvent current micros).1 = none
        ∧ (s.readEvent current micros).2
            = if s.ready then { s with lastLevel := current, hasLast := true } else s) := by
  by_cases hready : s.ready = true
  · by_cases hlast : s.hasLast = true
    · let sampled : ArduinoDigitalPinEventSource := { s with lastLevel := current }
      have hfires : s.fires current = sampled.matchesType s.lastLevel current := by
        rw [fires, hready, hlast, Bool.true_and, if_pos rfl]
        rfl
      have hsampled : sampled = { s with lastLevel := current, hasLast := true } := by
        rw [← hlast]
      rw [hfires, readEvent, if_neg (by simp [hready]), if_neg (by simp [hlast]), if_pos hready,
        ← hsampled]
      dsimp only
      cases hmatches : sampled.matchesType s.lastLevel current with
      | false =>
          rw [if_pos (by simp)]
          exact Or.inr ⟨rfl, rfl, rfl⟩
      | true =>
          rw [if_neg (by simp)]
          exact Or.inl ⟨rfl, _, rfl, rfl, rfl, by rw [emit, ← hlast]⟩
    · let sampled : ArduinoDigitalPinEventSource :=
        { s with lastLevel := current, hasLast := true }
      have hfires : s.fires current = sampled.atLevel current := by
        rw [fires, hready, Bool.true_and, if_neg hlast]
        rfl
      rw [hfires, readEvent, if_neg (by simp [hready]), if_pos (by simp [hlast]), if_pos hready,
        levelEvent]
      cases hlevel : sampled.atLevel current with
      | false =>
          rw [if_neg (by simp)]
          exact Or.inr ⟨rfl, rfl, rfl⟩
      | true =>
          rw [if_pos rfl]
          exact Or.inl ⟨rfl, _, rfl, rfl, rfl, rfl⟩
  · have hoff : s.ready = false := Bool.eq_false_iff.mpr hready
    exact Or.inr (by simp [fires, readEvent, hoff])

theorem readEvent_eq_none_iff {s : ArduinoDigitalPinEventSource} {current : Bool}
    {micros : UInt32} : (s.readEvent current micros).1 = none ↔ s.fires current = false := by
  rcases s.readEvent_spec current micros with ⟨hfires, event, hevent, -⟩ | ⟨hquiet, hnone, -⟩
  · rw [hevent, hfires]
    simp
  · rw [hnone, hquiet]
    simp

end ArduinoDigitalPinEventSource

/-! ## The interrupt source -/

structure ArduinoInterruptEventInfo where
  sourceId : UInt32 := 0
  count : UInt16 := 0
  dropped : UInt16 := 0
  lastTimestampUs : UInt32 := 0
  deriving DecidableEq

structure ArduinoInterruptPinEventSource where
  pin : UInt8
  eventType : PinEventType := .change
  sourceId : UInt32
  sequence : UInt32 := 0
  lastInfo : ArduinoInterruptEventInfo := {}
  pendingCount : UInt16 := 0
  droppedCount : UInt16 := 0
  lastTimestampUs : UInt32 := 0
  lastLevel : Bool := false
  hasLevel : Bool := false
  deriving DecidableEq

namespace ArduinoInterruptPinEventSource

/-- The constructor. -/
def make (pin : UInt8) (eventType : PinEventType) (sourceId : UInt32) :
    ArduinoInterruptPinEventSource where
  pin := pin
  eventType := eventType
  sourceId := if sourceId = 0 then pin.toUInt32 else sourceId

def notifyFromIsr (s : ArduinoInterruptPinEventSource) (level : Bool) (micros : UInt32) :
    ArduinoInterruptPinEventSource :=
  if s.pendingCount = 0xffff then { s with droppedCount := s.droppedCount + 1 }
  else
    { s with
      pendingCount := s.pendingCount + 1, lastTimestampUs := micros
      lastLevel := level, hasLevel := true }

/-- `read_event`; only its guarded part touches what the interrupt handler does. -/
def readEvent (s : ArduinoInterruptPinEventSource) :
    Option PinEvent × ArduinoInterruptPinEventSource :=
  if s.pendingCount = 0 then (none, s)
  else
    (some { type := s.eventType, timestampUs := s.lastTimestampUs.toUInt64
            sourceId := s.sourceId, sequence := s.sequence + 1
            level := if s.hasLevel then s.lastLevel else false },
      { s with
        pendingCount := 0, droppedCount := 0, sequence := s.sequence + 1
        lastInfo := ⟨s.sourceId, s.pendingCount, s.droppedCount, s.lastTimestampUs⟩ })

/-! ### The account of notifications -/

inductive InterruptEvent where
  | notify (level : Bool) (micros : UInt32)
  | readEvent

/-- The source, the sum of `count` and `dropped` over the successful reads, and
the number of notifications. -/
structure Account where
  source : ArduinoInterruptPinEventSource
  accounted : Nat := 0
  notified : Nat := 0

namespace Account

def step (s : Account) : InterruptEvent → Option Account
  | .notify level micros =>
      some { s with source := s.source.notifyFromIsr level micros, notified := s.notified + 1 }
  | .readEvent =>
      let r := s.source.readEvent
      some { s with
        source := r.2
        accounted :=
          if r.1.isSome then s.accounted + r.2.lastInfo.count.toNat + r.2.lastInfo.dropped.toNat
          else s.accounted }

/-- What the account adds up to. -/
def total (s : Account) : Nat :=
  s.accounted + s.source.pendingCount.toNat + s.source.droppedCount.toNat

/-- One of the counters has room for a notification. -/
def hasRoom (s : Account) : InterruptEvent → Bool
  | .notify _ _ => !(s.source.pendingCount = 0xffff && s.source.droppedCount = 0xffff)
  | .readEvent => true

theorem total_readEvent (s : Account) :
    ∃ s', s.step .readEvent = some s' ∧ s'.total = s.total ∧ s'.notified = s.notified := by
  refine ⟨_, rfl, ?_, rfl⟩
  unfold total readEvent
  split
  · rfl
  · show s.accounted + s.source.pendingCount.toNat + s.source.droppedCount.toNat + 0 + 0 = _
    rfl

/-- A notification is counted, or takes away what the second counter held. -/
theorem total_notify (s : Account) (level : Bool) (micros : UInt32) :
    ∃ s', s.step (.notify level micros) = some s' ∧ s'.notified = s.notified + 1
      ∧ if s.hasRoom (.notify level micros) then s'.total = s.total + 1
        else s'.total + 0xffff = s.total := by
  refine ⟨_, rfl, rfl, ?_⟩
  unfold total hasRoom notifyFromIsr
  have hpendingLt := s.source.pendingCount.toNat_lt
  have hdroppedLt := s.source.droppedCount.toNat_lt
  by_cases hpending : s.source.pendingCount = 0xffff
  · by_cases hdropped : s.source.droppedCount = 0xffff
    · simp [hpending, hdropped]
    · have hlt : s.source.droppedCount.toNat ≠ 0xffff :=
        fun heq => hdropped (UInt16.toNat_inj.mp heq)
      have hnext : (s.source.droppedCount + 1).toNat = s.source.droppedCount.toNat + 1 := by
        rw [UInt16.toNat_add]
        exact Nat.mod_eq_of_lt (by change s.source.droppedCount.toNat + 1 < 65536; omega)
      simp [hpending, hdropped, hnext, Nat.add_assoc]
  · have hlt : s.source.pendingCount.toNat ≠ 0xffff :=
      fun heq => hpending (UInt16.toNat_inj.mp heq)
    have hnext : (s.source.pendingCount + 1).toNat = s.source.pendingCount.toNat + 1 := by
      rw [UInt16.toNat_add]
      exact Nat.mod_eq_of_lt (by change s.source.pendingCount.toNat + 1 < 65536; omega)
    simp only [hpending, if_false, decide_false, Bool.false_and, Bool.not_false, if_true, hnext]
    omega

/-- In a run of notifications and reads, in any order and of any length, the
account adds up to the number of notifications exactly if none of them found
both counters at their maximum. -/
theorem accounted_iff {pin : UInt8} {eventType : PinEventType} {sourceId : UInt32}
    {es : List InterruptEvent} {s : Account}
    (hrun : run step { source := make pin eventType sourceId } es = some s) :
    s.total = s.notified
      ↔ run (restrict hasRoom step) { source := make pin eventType sourceId } es = some s := by
  have hsound : ∀ s e s', s.total = s.notified → step s e = some s' →
      (s.hasRoom e = true ∧ s'.total = s'.notified)
        ∨ (s.hasRoom e = false ∧ s'.total < s'.notified) := by
    intro s e s' h hstep
    cases e with
    | notify level micros =>
        obtain ⟨t, ht, hnotified, htotal⟩ := total_notify s level micros
        obtain rfl := Option.some.inj (ht.symm.trans hstep)
        split at htotal
        · exact Or.inl ⟨‹_›, by omega⟩
        · exact Or.inr ⟨Bool.eq_false_iff.mpr ‹_›, by omega⟩
    | readEvent =>
        obtain ⟨t, ht, htotal, hnotified⟩ := total_readEvent s
        obtain rfl := Option.some.inj (ht.symm.trans hstep)
        exact Or.inl ⟨rfl, by omega⟩
  have hspoiled : ∀ s e s', s.total < s.notified → step s e = some s' →
      s'.total < s'.notified := by
    intro s e s' h hstep
    cases e with
    | notify level micros =>
        obtain ⟨t, ht, hnotified, htotal⟩ := total_notify s level micros
        obtain rfl := Option.some.inj (ht.symm.trans hstep)
        split at htotal <;> omega
    | readEvent =>
        obtain ⟨t, ht, htotal, hnotified⟩ := total_readEvent s
        obtain rfl := Option.some.inj (ht.symm.trans hstep)
        omega
  exact run_blame hsound hspoiled (fun _ h => h) (fun _ h => Nat.ne_of_lt h) rfl hrun

/-- Two notifications, a read, and one that is still pending. -/
theorem accounted_iff_run :
    ∃ s, run step { source := make 2 .change 0 }
        [.notify true 5, .notify false 9, .readEvent, .notify true 12] = some s
      ∧ s.total = s.notified := by
  have hend : (run (restrict hasRoom step) { source := make 2 .change 0 }
      [.notify true 5, .notify false 9, .readEvent, .notify true 12]).map (·.notified)
        = some 3 := rfl
  obtain ⟨s, hrun, -⟩ := Option.map_eq_some_iff.mp hend
  exact ⟨s, run_of_restrict hrun, (accounted_iff (run_of_restrict hrun)).mpr hrun⟩

/-! #### A burst -/

/-- The counters after so many notifications and no read. -/
theorem run_burst (source : ArduinoInterruptPinEventSource) (k : Nat)
    (hfresh : source.pendingCount = 0 ∧ source.droppedCount = 0) :
    ∃ s, run step { source := source } (List.replicate k (.notify false 0)) = some s
      ∧ s.accounted = 0 ∧ s.notified = k
      ∧ s.source.pendingCount = UInt16.ofNat (min k 0xffff)
      ∧ s.source.droppedCount = UInt16.ofNat (k - 0xffff) := by
  induction k with
  | zero => exact ⟨_, rfl, rfl, rfl, hfresh.1, hfresh.2⟩
  | succ k ih =>
      obtain ⟨s, hrun, haccounted, hnotified, hpending, hdropped⟩ := ih
      refine ⟨{ s with source := s.source.notifyFromIsr false 0, notified := s.notified + 1 },
        ?_, haccounted, by rw [← hnotified], ?_⟩
      · rw [List.replicate_succ', run_append]
        exact ⟨s, hrun, rfl⟩
      · unfold notifyFromIsr
        by_cases hfull : 0xffff ≤ k
        · have hmax : s.source.pendingCount = 0xffff := by
            rw [hpending, Nat.min_eq_right hfull]
            rfl
          rw [if_pos hmax, Nat.min_eq_right (Nat.le_succ_of_le hfull), Nat.succ_sub hfull]
          exact ⟨hmax, by rw [hdropped, ← UInt16.ofNat_one, ← UInt16.ofNat_add]⟩
        · have hroom : s.source.pendingCount ≠ 0xffff := by
            rw [hpending, Nat.min_eq_left (by omega)]
            intro heq
            have := congrArg UInt16.toNat heq
            rw [UInt16.toNat_ofNat_of_lt' (by change k < 65536; omega)] at this
            exact hfull (Nat.le_of_eq this.symm)
          rw [if_neg hroom, Nat.min_eq_left (by omega)]
          rw [Nat.min_eq_left (by omega)] at hpending
          refine ⟨?_, ?_⟩
          · dsimp only
            rw [hpending, UInt16.ofNat_add, UInt16.ofNat_one]
          · rw [hdropped, Nat.sub_eq_zero_of_le (by omega), Nat.sub_eq_zero_of_le (by omega)]

/-- A burst of 131071 notifications: the second counter is back at zero. -/
theorem accounted_fails :
    ∃ s, run step { source := make 2 .change 0 } (List.replicate 131071 (.notify false 0)) = some s
      ∧ s.total ≠ s.notified := by
  obtain ⟨s, hrun, haccounted, hnotified, hpending, hdropped⟩ :=
    run_burst (make 2 .change 0) 131071 ⟨rfl, rfl⟩
  refine ⟨s, hrun, ?_⟩
  rw [total, haccounted, hnotified, hpending, hdropped]
  decide

end Account

end ArduinoInterruptPinEventSource

end AsyncEventLoop
