import AsyncEventLoop.RingArray
import AsyncEventLoop.Runs

/-!
# The in-memory byte stream

`MemoryByteStream` is a FIFO in a ring, filled and emptied a byte at a
time. `Ring` is the invariant of its two indices and its count. Each of the
two loops is described once (`readLoop_spec`, `writeLoop_spec`), in terms of
the bytes stored; that everything accepted comes out again in order is an
induction over the calls. What a call returns is the number of bytes it moved,
as an `int`: from 2^31 bytes on it is another number.
-/

namespace AsyncEventLoop

open RingArray

structure MemoryByteStream (Capacity : Nat) where
  buffer : Vector UInt8 Capacity := Vector.replicate Capacity 0
  head : Nat := 0
  tail : Nat := 0
  count : Nat := 0

namespace MemoryByteStream

variable {N : Nat}

def readable (s : MemoryByteStream N) : Bool := decide (s.count > 0)

def writable (s : MemoryByteStream N) : Bool := decide (s.count < N)

def size (s : MemoryByteStream N) : Nat := s.count

def availableForWrite (s : MemoryByteStream N) : Nat := N - s.count

/-- The loop of `read`, with room for so many more bytes. -/
def readLoop : Nat → MemoryByteStream N → List UInt8 × MemoryByteStream N
  | 0, s => ([], s)
  | room + 1, s =>
      if s.readable then
        let byte := s.buffer[s.head]?.getD 0
        let r := readLoop room { s with head := (s.head + 1) % N, count := s.count - 1 }
        (byte :: r.1, r.2)
      else ([], s)

/-- The result of `read`, and what it stores at `dst`, which may be null. -/
def read (s : MemoryByteStream N) (dst : Bool) (maxLen : Nat) :
    Int32 × List UInt8 × MemoryByteStream N :=
  if !dst || maxLen = 0 then (0, [], s)
  else
    let r := readLoop maxLen s
    (Int32.ofNat r.1.length, r)

/-- The loop of `write`, on the bytes from `src + n` on: how many more it takes. -/
def writeLoop : List UInt8 → MemoryByteStream N → Nat × MemoryByteStream N
  | [], s => (0, s)
  | byte :: src, s =>
      if s.count < N then
        let r := writeLoop src
          { s with
            buffer := s.buffer.setIfInBounds s.tail byte
            tail := (s.tail + 1) % N
            count := s.count + 1 }
        (r.1 + 1, r.2)
      else (0, s)

/-- `write` of the `len` bytes at `src`, or with a null pointer. -/
def write (s : MemoryByteStream N) (src : Option (List UInt8)) : Int32 × MemoryByteStream N :=
  match src with
  | none => (0, s)
  | some src =>
      if src.length = 0 then (0, s)
      else
        let r := writeLoop src s
        (Int32.ofNat r.1, r.2)

def clear (s : MemoryByteStream N) : MemoryByteStream N :=
  { s with head := 0, tail := 0, count := 0 }

/-- The bytes stored, oldest first. -/
def stored (s : MemoryByteStream N) : List UInt8 := contents s.buffer s.head s.count

structure Ring (s : MemoryByteStream N) : Prop where
  head_lt : s.head < N
  count_le : s.count ≤ N
  tail_eq : s.tail = (s.head + s.count) % N

section

variable {s : MemoryByteStream N}

theorem Ring.length_stored (h : Ring s) : s.stored.length = s.count :=
  length_contents _ _ h.count_le

theorem ring_clear (hN : 0 < N) (s : MemoryByteStream N) : Ring s.clear where
  head_lt := hN
  count_le := Nat.zero_le N
  tail_eq := (Nat.zero_mod N).symm

@[simp] theorem stored_clear (s : MemoryByteStream N) : s.clear.stored = [] :=
  contents_zero _ _

/-- One byte out. -/
theorem Ring.pop (h : Ring s) (hpos : 0 < s.count) :
    Ring { s with head := (s.head + 1) % N, count := s.count - 1 } where
  head_lt := Nat.mod_lt _ (Nat.lt_of_le_of_lt (Nat.zero_le _) h.head_lt)
  count_le := Nat.le_trans (Nat.sub_le _ _) h.count_le
  tail_eq := by
    show s.tail = ((s.head + 1) % N + (s.count - 1)) % N
    rw [h.tail_eq, Nat.mod_add_mod]
    congr 1
    omega

/-- One byte in. -/
theorem Ring.push (h : Ring s) (hroom : s.count < N) (byte : UInt8) :
    Ring { s with
      buffer := s.buffer.setIfInBounds s.tail byte
      tail := (s.tail + 1) % N
      count := s.count + 1 } where
  head_lt := h.head_lt
  count_le := hroom
  tail_eq := by
    show (s.tail + 1) % N = (s.head + (s.count + 1)) % N
    rw [h.tail_eq, Nat.mod_add_mod, Nat.add_assoc]

theorem Ring.readLoop_spec (h : Ring s) (room : Nat) :
    Ring (readLoop room s).2
      ∧ (readLoop room s).1 ++ (readLoop room s).2.stored = s.stored
      ∧ (readLoop room s).1.length = min room s.count := by
  induction room generalizing s with
  | zero => exact ⟨h, rfl, (Nat.zero_min _).symm⟩
  | succ room ih =>
      rw [readLoop]
      by_cases hpos : 0 < s.count
      · obtain ⟨hring, hbytes, hlength⟩ := ih (h.pop hpos)
        rw [if_pos (by simp [readable, hpos])]
        refine ⟨hring, ?_, ?_⟩
        · rw [List.cons_append, hbytes, stored, stored,
            contents_pop s.buffer h.head_lt hpos h.count_le, Vector.getElem?_eq_getElem h.head_lt]
          rfl
        · rw [List.length_cons, hlength]
          dsimp only
          omega
      · rw [if_neg (by simp [readable, Nat.not_lt.mp hpos])]
        refine ⟨h, rfl, ?_⟩
        rw [Nat.eq_zero_of_not_pos hpos, Nat.min_zero]
        rfl

theorem Ring.writeLoop_spec (h : Ring s) (src : List UInt8) :
    Ring (writeLoop src s).2
      ∧ (writeLoop src s).2.stored = s.stored ++ src.take (writeLoop src s).1
      ∧ (writeLoop src s).1 = min src.length s.availableForWrite := by
  induction src generalizing s with
  | nil => exact ⟨h, (List.append_nil _).symm, (Nat.zero_min _).symm⟩
  | cons byte src ih =>
      rw [writeLoop]
      by_cases hroom : s.count < N
      · obtain ⟨hring, hbytes, hlength⟩ := ih (h.push hroom byte)
        rw [if_pos hroom]
        refine ⟨hring, ?_, ?_⟩
        · rw [hbytes, stored, stored, h.tail_eq, contents_push s.buffer hroom byte,
            List.take_succ_cons, List.append_assoc, List.singleton_append]
        · change _ = min src.length (N - (s.count + 1)) at hlength
          show _ + 1 = min (src.length + 1) (N - s.count)
          omega
      · rw [if_neg hroom]
        refine ⟨h, (List.append_nil _).symm, ?_⟩
        rw [availableForWrite, Nat.sub_eq_zero_of_le (Nat.not_lt.mp hroom), Nat.min_zero]

end

/-- The bytes a `write` takes. -/
def accepts (s : MemoryByteStream N) : Option (List UInt8) → List UInt8
  | none => []
  | some src => src.take (writeLoop src s).1

end MemoryByteStream

/-! ## Runs -/

inductive StreamCall where
  | write (src : Option (List UInt8))
  | read (dst : Bool) (maxLen : Nat)
  | clear

/-- How many bytes a call moves in a bounded FIFO. -/
def StreamCall.moves {N : Nat} (s : MemoryByteStream N) : StreamCall → Nat
  | .write src => min (src.getD []).length s.availableForWrite
  | .read dst maxLen => if dst then min maxLen s.size else 0
  | .clear => 0

/-- The stream, and the bytes that went in and came out since the last `clear`. `returned` are
the results of the calls, each with the number of bytes that it stands for, the last first. -/
structure StreamTraffic (Capacity : Nat) where
  stream : MemoryByteStream Capacity := {}
  accepted : List UInt8 := []
  delivered : List UInt8 := []
  returned : List (Int32 × Nat) := []

namespace StreamTraffic

open MemoryByteStream Runs

variable {N : Nat}

def step (t : StreamTraffic N) (call : StreamCall) : Option (StreamTraffic N) :=
  match call with
  | .write src =>
      let r := t.stream.write src
      some { t with
        stream := r.2
        accepted := t.accepted ++ t.stream.accepts src
        returned := (r.1, call.moves t.stream) :: t.returned }
  | .read dst maxLen =>
      let r := t.stream.read dst maxLen
      some { t with
        stream := r.2.2
        delivered := t.delivered ++ r.2.1
        returned := (r.1, call.moves t.stream) :: t.returned }
  | .clear => some { stream := t.stream.clear, returned := t.returned }

/-- A bounded FIFO: what came out, followed by what is stored, is what went in; a write takes
as much as there is room for, and a read delivers as much as there is. -/
structure Fifo (t : StreamTraffic N) : Prop where
  ring : Ring t.stream
  order : t.delivered ++ t.stream.stored = t.accepted
  size : t.stream.stored.length = t.stream.size
  write : ∀ src : List UInt8,
    t.stream.accepts (some src) = src.take (min src.length t.stream.availableForWrite)
  read : ∀ maxLen : Nat, (t.stream.read true maxLen).2.1.length = min maxLen t.stream.size

/-- Every call has returned how many bytes it moved. -/
def Exact (t : StreamTraffic N) : Prop := ∀ r ∈ t.returned, r.1.toInt = r.2

/-- The call moves fewer than 2^31 bytes. -/
def fits (t : StreamTraffic N) (call : StreamCall) : Bool := decide (call.moves t.stream < 2 ^ 31)

theorem order_write {t : StreamTraffic N} (hring : Ring t.stream)
    (horder : t.delivered ++ t.stream.stored = t.accepted) (src : Option (List UInt8)) :
    Ring (t.stream.write src).2
      ∧ t.delivered ++ (t.stream.write src).2.stored = t.accepted ++ t.stream.accepts src := by
  cases src with
  | none => exact ⟨hring, by rw [accepts, List.append_nil]; exact horder⟩
  | some src =>
      obtain ⟨hkept, hbytes, -⟩ := hring.writeLoop_spec src
      rw [← horder, List.append_assoc, accepts, ← hbytes]
      unfold MemoryByteStream.write
      dsimp only
      split
      · rename_i hnil
        rw [List.length_eq_zero_iff.mp hnil]
        exact ⟨hring, rfl⟩
      · exact ⟨hkept, rfl⟩

theorem order_read {t : StreamTraffic N} (hring : Ring t.stream)
    (horder : t.delivered ++ t.stream.stored = t.accepted) (dst : Bool) (maxLen : Nat) :
    Ring (t.stream.read dst maxLen).2.2
      ∧ t.delivered ++ (t.stream.read dst maxLen).2.1 ++ (t.stream.read dst maxLen).2.2.stored
          = t.accepted := by
  obtain ⟨hkept, hbytes, -⟩ := hring.readLoop_spec maxLen
  unfold MemoryByteStream.read
  split
  · rw [List.append_nil]
    exact ⟨hring, horder⟩
  · rw [List.append_assoc]
    exact ⟨hkept, by rw [hbytes, horder]⟩

/-- What `write` returns is the number of bytes it takes, as an `int`. -/
theorem write_returned {s : MemoryByteStream N} (h : Ring s) (src : Option (List UInt8)) :
    (s.write src).1 = Int32.ofNat ((StreamCall.write src).moves s) := by
  cases src with
  | none =>
      rw [StreamCall.moves, Option.getD_none, List.length_nil, Nat.zero_min]
      rfl
  | some src =>
      obtain ⟨-, -, hlength⟩ := h.writeLoop_spec src
      rw [StreamCall.moves, Option.getD_some, ← hlength]
      unfold MemoryByteStream.write
      dsimp only
      split
      · rename_i hnil
        rw [hlength, hnil, Nat.zero_min]
        rfl
      · rfl

theorem read_spec {s : MemoryByteStream N} (h : Ring s) (dst : Bool) (maxLen : Nat) :
    (s.read dst maxLen).2.1.length = (StreamCall.read dst maxLen).moves s
      ∧ (s.read dst maxLen).1 = Int32.ofNat ((StreamCall.read dst maxLen).moves s) := by
  obtain ⟨-, -, hlength⟩ := h.readLoop_spec maxLen
  cases dst with
  | false => exact ⟨rfl, rfl⟩
  | true =>
      have hmoves : (StreamCall.read true maxLen).moves s = min maxLen s.size := rfl
      rw [hmoves]
      unfold MemoryByteStream.read
      rw [Bool.not_true, Bool.false_or]
      split
      · rename_i hzero
        rw [of_decide_eq_true hzero, Nat.zero_min]
        exact ⟨rfl, rfl⟩
      · exact ⟨hlength, congrArg Int32.ofNat hlength⟩

theorem fifo_of_ring {t : StreamTraffic N} (hring : Ring t.stream)
    (horder : t.delivered ++ t.stream.stored = t.accepted) : Fifo t where
  ring := hring
  order := horder
  size := hring.length_stored
  write src := by rw [accepts, (hring.writeLoop_spec src).2.2]
  read maxLen := (read_spec hring true maxLen).1

theorem fifo_fresh (hN : 0 < N) : Fifo ({} : StreamTraffic N) :=
  fifo_of_ring ⟨hN, Nat.zero_le N, (Nat.zero_mod N).symm⟩
    (contents_zero (Vector.replicate N 0) 0)

/-- An `int` holds the numbers below 2^31. -/
theorem toInt_ofNat_eq_iff {k : Nat} : (Int32.ofNat k).toInt = k ↔ k < 2 ^ 31 := by
  refine ⟨fun h => ?_, Int32.toInt_ofNat_of_lt⟩
  have hlt := Int32.toInt_lt (Int32.ofNat k)
  omega

theorem exact_cons {returned : List (Int32 × Nat)} {r : Int32} {k : Nat} (hr : r = Int32.ofNat k) :
    (∀ p ∈ (r, k) :: returned, p.1.toInt = p.2)
      ↔ (∀ p ∈ returned, p.1.toInt = p.2) ∧ k < 2 ^ 31 := by
  rw [List.forall_mem_cons, hr, toInt_ofNat_eq_iff, and_comm]

/-- **The step.** -/
theorem Fifo.step {t t' : StreamTraffic N} {call : StreamCall} (h : Fifo t)
    (hstep : t.step call = some t') : Fifo t' ∧ (Exact t' ↔ Exact t ∧ t.fits call = true) := by
  rw [fits, decide_eq_true_iff]
  cases call with
  | write src =>
      obtain rfl := Option.some.inj hstep
      obtain ⟨hring, horder⟩ := order_write h.ring h.order src
      exact ⟨fifo_of_ring hring horder, exact_cons (write_returned h.ring src)⟩
  | read dst maxLen =>
      obtain rfl := Option.some.inj hstep
      obtain ⟨hring, horder⟩ := order_read h.ring h.order dst maxLen
      exact ⟨fifo_of_ring hring horder, exact_cons (read_spec h.ring dst maxLen).2⟩
  | clear =>
      obtain rfl := Option.some.inj hstep
      have hN : 0 < N := Nat.lt_of_le_of_lt (Nat.zero_le _) h.ring.head_lt
      refine ⟨fifo_of_ring (ring_clear hN t.stream) (stored_clear t.stream), ?_⟩
      exact (and_iff_left (Nat.two_pow_pos 31)).symm

/-- Whatever the writes, reads and clears, and whatever their lengths, the bytes are those of a
bounded FIFO. -/
theorem fifo_of_run (hN : 0 < N) {calls : List StreamCall} {t : StreamTraffic N}
    (hrun : run step {} calls = some t) : Fifo t :=
  run_invariant (fun _ _ _ h hstep => (h.step hstep).1) (fifo_fresh hN) hrun

/-- **A bounded FIFO**: what came out since the last `clear`, followed by what is stored, is
what was accepted since then. The calls return how many bytes they moved exactly if each of
them moves as many as an `int` holds. -/
theorem refines_fifo_iff (hN : 0 < N) {calls : List StreamCall} {t : StreamTraffic N}
    (hrun : run step {} calls = some t) :
    (Fifo t ∧ Exact t) ↔ run (restrict fits step) {} calls = some t := by
  rw [and_iff_right (fifo_of_run hN hrun)]
  exact run_iff_restrict (fun _ _ _ h hstep => h.step hstep) (fifo_fresh hN)
    (List.forall_mem_nil _) hrun

/-- Around the end of the ring. -/
theorem refines_fifo_iff_run : ∃ t : StreamTraffic 4,
    run step {} [.write (some [1, 2, 3, 4, 5]), .read true 3, .write (some [6, 7]),
        .read true 2] = some t
      ∧ t.accepted = [1, 2, 3, 4, 6, 7] ∧ t.delivered = [1, 2, 3, 4, 6]
      ∧ Fifo t ∧ Exact t := by
  have hfits : run (restrict fits step) ({} : StreamTraffic 4)
      [.write (some [1, 2, 3, 4, 5]), .read true 3, .write (some [6, 7]), .read true 2]
      = some _ := rfl
  exact ⟨_, rfl, rfl, rfl, (refines_fifo_iff (by decide) rfl).mpr hfits⟩

/-- A stream of fewer than 2^31 bytes has room for no call that moves as many. -/
theorem fits_of_capacity (hN : N < 2 ^ 31) {t : StreamTraffic N} (h : Fifo t)
    (call : StreamCall) : t.fits call = true := by
  have hcount : t.stream.count ≤ N := h.ring.count_le
  rw [fits, decide_eq_true_iff]
  cases call with
  | write src =>
      have hfree : t.stream.availableForWrite ≤ N := Nat.sub_le _ _
      simp only [StreamCall.moves]
      omega
  | read dst maxLen =>
      simp only [StreamCall.moves, size]
      split <;> omega
  | clear => exact Nat.two_pow_pos 31

/-- One write that takes more bytes than an `int` holds. -/
theorem write_not_exact (hN : 0 < N) {src : List UInt8} {k : Nat} (hmoves : min src.length N = k)
    (hk : 2 ^ 31 ≤ k) : ∃ t : StreamTraffic N, run step {} [.write (some src)] = some t
      ∧ t.returned = [(Int32.ofNat k, k)] ∧ ¬Exact t := by
  subst hmoves
  have hfresh : Fifo ({} : StreamTraffic N) := fifo_fresh hN
  have hreturned := write_returned hfresh.ring (some src)
  refine ⟨_, rfl, ?_, fun hexact => ?_⟩
  · rw [hreturned]
    rfl
  · have hstep : step ({} : StreamTraffic N) (.write (some src)) = some _ := rfl
    have hfits := ((hfresh.step hstep).2.mp hexact).2
    exact absurd (of_decide_eq_true hfits) (Nat.not_lt.mpr hk)

/-- 2^31 bytes are written and taken; the result is negative. -/
theorem write_returns_negative : ∃ t : StreamTraffic 2147483648,
    run step {} [.write (some (List.replicate 2147483648 0))] = some t
      ∧ t.returned = [(-2147483648, 2147483648)] ∧ ¬Exact t := by
  have hmoves : min (List.replicate 2147483648 (0 : UInt8)).length 2147483648 = 2147483648 := by
    rw [List.length_replicate, Nat.min_self]
  exact write_not_exact (by decide) hmoves (by decide)

end StreamTraffic

end AsyncEventLoop
