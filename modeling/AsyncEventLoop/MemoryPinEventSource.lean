import AsyncEventLoop.PinEventDrain
import AsyncEventLoop.RingArray

/-!
# The pin event source in memory

`MemoryPinEventSource` is a FIFO of events in a ring, filled by `push`.
Draining it (`drain_pending`) delivers what is pending, oldest first, and
leaves nothing.
-/

namespace AsyncEventLoop

open RingArray

structure MemoryPinEventSource (Capacity : Nat) where
  events : Vector PinEvent Capacity := Vector.replicate Capacity {}
  head : Nat := 0
  tail : Nat := 0
  count : Nat := 0

namespace MemoryPinEventSource

variable {Capacity : Nat}

def push (s : MemoryPinEventSource Capacity) (event : PinEvent) :
    Bool × MemoryPinEventSource Capacity :=
  if s.count ≥ Capacity then (false, s)
  else
    (true, { s with
      events := s.events.setIfInBounds s.tail event
      tail := (s.tail + 1) % Capacity, count := s.count + 1 })

def readEvent (s : MemoryPinEventSource Capacity) :
    Option PinEvent × MemoryPinEventSource Capacity :=
  if s.count = 0 then (none, s)
  else
    (some (s.events[s.head]?.getD {}),
      { s with head := (s.head + 1) % Capacity, count := s.count - 1 })

/-- The events that have not been read, oldest first. -/
def pending (s : MemoryPinEventSource Capacity) : List PinEvent :=
  contents s.events s.head s.count

structure Ring (s : MemoryPinEventSource Capacity) : Prop where
  head_lt : s.head < Capacity
  count_le : s.count ≤ Capacity
  tail_eq : s.tail = (s.head + s.count) % Capacity

variable {s : MemoryPinEventSource Capacity}

theorem ring_empty (h : 0 < Capacity) : Ring ({} : MemoryPinEventSource Capacity) where
  head_lt := h
  count_le := Nat.zero_le _
  tail_eq := (Nat.zero_mod _).symm

/-- An event in, if there is room. -/
theorem Ring.push (h : Ring s) (event : PinEvent) :
    Ring (s.push event).2
      ∧ (((s.push event).1 = true ∧ (s.push event).2.pending = s.pending ++ [event])
        ∨ ((s.push event).1 = false ∧ (s.push event).2 = s)) := by
  unfold MemoryPinEventSource.push
  by_cases hfull : s.count ≥ Capacity
  · rw [if_pos hfull]
    exact ⟨h, Or.inr ⟨rfl, rfl⟩⟩
  · rw [if_neg hfull]
    have hroom : s.count < Capacity := Nat.not_le.mp hfull
    refine ⟨⟨h.head_lt, hroom, ?_⟩, Or.inl ⟨rfl, ?_⟩⟩
    · show (s.tail + 1) % Capacity = (s.head + (s.count + 1)) % Capacity
      rw [h.tail_eq, Nat.mod_add_mod, Nat.add_assoc]
    · show contents (s.events.setIfInBounds s.tail event) s.head (s.count + 1) = _
      rw [h.tail_eq, contents_push s.events hroom]
      rfl

/-- An event out, if there is one. -/
theorem Ring.readEvent (h : Ring s) :
    Ring s.readEvent.2 ∧ s.readEvent.1 = s.pending.head?
      ∧ s.readEvent.2.pending = s.pending.tail := by
  unfold MemoryPinEventSource.readEvent
  by_cases hempty : s.count = 0
  · have hpending : s.pending = [] := by
      rw [pending, hempty]
      exact contents_zero _ _
    rw [if_pos hempty, hpending]
    exact ⟨h, rfl, rfl⟩
  · have hpos : 0 < s.count := Nat.pos_of_ne_zero hempty
    have hhead : s.head < Capacity := h.head_lt
    have hpop : s.pending = s.events[s.head]
        :: contents s.events ((s.head + 1) % Capacity) (s.count - 1) :=
      contents_pop s.events hhead hpos h.count_le
    rw [if_neg hempty, hpop]
    refine ⟨⟨?_, ?_, ?_⟩, ?_, rfl⟩
    · exact Nat.mod_lt _ (Nat.lt_of_le_of_lt (Nat.zero_le _) h.head_lt)
    · exact Nat.le_trans (Nat.sub_le _ _) h.count_le
    · show s.tail = ((s.head + 1) % Capacity + (s.count - 1)) % Capacity
      rw [h.tail_eq, Nat.mod_add_mod]
      congr 1
      omega
    · rw [Vector.getElem?_eq_getElem hhead]
      rfl

/-- Draining it delivers what is pending and leaves nothing. -/
theorem Ring.drain_pending (h : Ring s) :
    ∃ last, drain MemoryPinEventSource.readEvent (s.pending.length + 1) s
        = some (s.pending, last) ∧ Ring last ∧ last.pending = [] := by
  induction hpending : s.pending generalizing s with
  | nil =>
      obtain ⟨hring, hevent, hrest⟩ := h.readEvent
      rw [hpending] at hevent hrest
      refine ⟨s.readEvent.2, ?_, hring, hrest⟩
      rw [drain, ← Prod.mk.eta (p := s.readEvent), hevent]
      rfl
  | cons event events ih =>
      obtain ⟨hring, hevent, hrest⟩ := h.readEvent
      rw [hpending] at hevent hrest
      obtain ⟨last, hdrain, hlast⟩ := ih hring hrest
      refine ⟨last, ?_, hlast⟩
      rw [drain, ← Prod.mk.eta (p := s.readEvent), hevent]
      show (drain _ (events.length + 1) _).map _ = _
      rw [hdrain]
      rfl

end MemoryPinEventSource

end AsyncEventLoop
