import Mathlib.Algebra.Ring.Nat
import Mathlib.Data.List.Basic
import AsyncEventLoop.FixedArray

/-!
# The line protocol reader

`LineProtocolReader` as the code runs it: a fixed buffer, the number of
bytes in it, and `consume` turning one byte into the next state and, at a
delimiter, a line. The stream is the list of bytes it has ready: `poll`
reads them all, one at a time.

The state after some bytes is described without running the reader: the
text it holds of an open segment `s` is `kept s`, the bytes it has thrown
away are counted by `overflowsOf s`. `consume_pending` is the step lemma,
`poll_pending` the run lemma; the reader's complete input/output law is
assembled from them.
-/

namespace AsyncEventLoop

open FixedArray

/-- `LineProtocolOptions`. -/
structure LineProtocolOptions where
  delimiter : UInt8 := 10
  stripCr : Bool := true
  dropOverflow : Bool := true

/-- `ProtocolReaderStats`: the counters are 32-bit and wrap. -/
structure ProtocolReaderStats where
  messages : UInt32 := 0
  bytes : UInt32 := 0
  overflows : UInt32 := 0
  protocolErrors : UInt32 := 0
  deriving DecidableEq

structure LineProtocolReader (BufferSize : Nat) where
  options : LineProtocolOptions
  buffer : Vector UInt8 BufferSize
  size : Nat := 0
  stats : ProtocolReaderStats := {}

namespace LineProtocolReader

variable {N : Nat}

/-- A freshly constructed reader. -/
def fresh (N : Nat) (options : LineProtocolOptions) : LineProtocolReader N :=
  { options := options, buffer := Vector.replicate N 0 }

/-- `emit_line`: the view handed to the callback, and the reader after it. -/
def emitLine (r : LineProtocolReader N) : LineProtocolReader N × List UInt8 :=
  let len :=
    if r.options.stripCr ∧ r.size > 0 ∧ r.buffer[r.size - 1]? = some 13 then
      r.size - 1
    else r.size
  ({ r with size := 0, stats := { r.stats with messages := r.stats.messages + 1 } },
    front r.buffer len)

/-- `consume`: the reader after one byte and the line it completed, if any. -/
def consume (r : LineProtocolReader N) (c : UInt8) :
    LineProtocolReader N × Option (List UInt8) :=
  if c = r.options.delimiter then
    ((emitLine r).1, some (emitLine r).2)
  else if h : r.size ≥ N then
    ({ r with
        size := if r.options.dropOverflow then 0 else r.size
        stats := { r.stats with overflows := r.stats.overflows + 1 } }, none)
  else
    ({ r with buffer := r.buffer.set r.size c (by omega), size := r.size + 1 }, none)

/-- One turn of the loop in `poll`: count the byte, then `consume` it. -/
def readByte (r : LineProtocolReader N) (byte : UInt8) :
    LineProtocolReader N × Option (List UInt8) :=
  consume { r with stats := { r.stats with bytes := r.stats.bytes + 1 } } byte

/-- `poll` on a stream that has `bytes` ready: the reader after the last of
them, and the lines handed to the callback in order. -/
def poll (r : LineProtocolReader N) : List UInt8 → LineProtocolReader N × List (List UInt8)
  | [] => (r, [])
  | byte :: bytes =>
      let step := readByte r byte
      let rest := poll step.1 bytes
      (rest.1, step.2.toList ++ rest.2)

/-- One `poll` for each arrival. -/
def pollAll (r : LineProtocolReader N) :
    List (List UInt8) → LineProtocolReader N × List (List UInt8)
  | [] => (r, [])
  | arrival :: arrivals =>
      let first := poll r arrival
      let rest := pollAll first.1 arrivals
      (rest.1, first.2 ++ rest.2)

/-! ## What a segment leaves behind -/

/-- What the buffer holds of the open segment `s`. -/
def kept (options : LineProtocolOptions) (N : Nat) (s : List UInt8) : List UInt8 :=
  if options.dropOverflow then s.drop (s.length - s.length % (N + 1))
  else s.take (min s.length N)

/-- How often reading the segment `s` has overflowed. -/
def overflowsOf (options : LineProtocolOptions) (N : Nat) (s : List UInt8) : Nat :=
  if options.dropOverflow then s.length / (N + 1) else s.length - N

/-- One trailing carriage return removed, if the option asks for it. -/
def stripped (options : LineProtocolOptions) (text : List UInt8) : List UInt8 :=
  if options.stripCr ∧ text.getLast? = some 13 then text.dropLast else text

/-- The line a finished segment is emitted as. -/
def lineText (options : LineProtocolOptions) (N : Nat) (s : List UInt8) : List UInt8 :=
  stripped options (kept options N s)

@[simp] theorem kept_nil (options : LineProtocolOptions) (N : Nat) :
    kept options N [] = [] := by
  simp [kept]

@[simp] theorem overflowsOf_nil (options : LineProtocolOptions) (N : Nat) :
    overflowsOf options N [] = 0 := by
  simp [overflowsOf]

/-- A byte that fits extends what is kept and overflows nothing. -/
theorem kept_snoc_fits (options : LineProtocolOptions) {N : Nat} {s : List UInt8} (c : UInt8)
    (h : (kept options N s).length < N) :
    kept options N (s ++ [c]) = kept options N s ++ [c]
      ∧ overflowsOf options N (s ++ [c]) = overflowsOf options N s := by
  unfold kept overflowsOf at *
  by_cases hd : options.dropOverflow = true
  · simp only [hd, if_true, List.length_drop, List.length_append, List.length_singleton] at h ⊢
    have hle := Nat.mod_le s.length (N + 1)
    have hdiv := Nat.div_add_mod s.length (N + 1)
    have hlt : s.length % (N + 1) + 1 < N + 1 := by omega
    have hlen : s.length + 1 = (N + 1) * (s.length / (N + 1)) + (s.length % (N + 1) + 1) := by
      omega
    have hmod' : (s.length + 1) % (N + 1) = s.length % (N + 1) + 1 := by
      rw [hlen, Nat.mul_add_mod, Nat.mod_eq_of_lt hlt]
    have hdiv' : (s.length + 1) / (N + 1) = s.length / (N + 1) := by
      rw [hlen, Nat.mul_add_div (Nat.succ_pos N), Nat.div_eq_of_lt hlt, Nat.add_zero]
    rw [hmod', hdiv', Nat.add_sub_add_right]
    exact ⟨List.drop_append_of_le_length (by omega), rfl⟩
  · simp only [hd, Bool.false_eq_true, if_false, List.length_take, List.length_append,
      List.length_singleton] at h ⊢
    have hN : s.length < N := by omega
    rw [Nat.min_eq_left (by omega), Nat.min_eq_left (by omega)]
    have hall : (s ++ [c]).take (s.length + 1) = s ++ [c] :=
      List.take_of_length_le (by simp)
    exact ⟨by rw [hall, List.take_length], by omega⟩

/-- A byte that does not fit is counted, and clears or leaves what is kept. -/
theorem kept_snoc_full (options : LineProtocolOptions) {N : Nat} {s : List UInt8} (c : UInt8)
    (h : (kept options N s).length = N) :
    kept options N (s ++ [c]) = (if options.dropOverflow then [] else kept options N s)
      ∧ overflowsOf options N (s ++ [c]) = overflowsOf options N s + 1 := by
  unfold kept overflowsOf at *
  by_cases hd : options.dropOverflow = true
  · simp only [hd, if_true, List.length_drop, List.length_append, List.length_singleton] at h ⊢
    have hle := Nat.mod_le s.length (N + 1)
    have hdiv := Nat.div_add_mod s.length (N + 1)
    have hlen : s.length + 1 = (N + 1) * (s.length / (N + 1) + 1) := by
      rw [Nat.mul_add]
      omega
    have hmod' : (s.length + 1) % (N + 1) = 0 := by
      rw [hlen, Nat.mul_mod_right]
    have hdiv' : (s.length + 1) / (N + 1) = s.length / (N + 1) + 1 := by
      rw [hlen, Nat.mul_div_cancel_left _ (Nat.succ_pos N)]
    rw [hmod', hdiv']
    exact ⟨by simp, rfl⟩
  · simp only [hd, Bool.false_eq_true, if_false, List.length_take, List.length_append,
      List.length_singleton] at h ⊢
    have hN : N ≤ s.length := by omega
    rw [Nat.min_eq_right (by omega), Nat.min_eq_right hN]
    exact ⟨List.take_append_of_le_length hN, by omega⟩

/-! ## One byte -/

/-- The reader is inside a segment whose bytes so far are `s`. -/
structure Pending (r : LineProtocolReader N) (s : List UInt8) : Prop where
  text : front r.buffer r.size = kept r.options N s
  size_le : r.size ≤ N

theorem fresh_pending (N : Nat) (options : LineProtocolOptions) :
    Pending (fresh N options) [] :=
  ⟨by simp [fresh], Nat.zero_le N⟩

theorem Pending.size_eq {r : LineProtocolReader N} {s : List UInt8} (h : Pending r s) :
    r.size = (kept r.options N s).length := by
  rw [← h.text, length_front _ h.size_le]

/-- The emitted view is the text in the buffer, less its carriage return. -/
theorem emitLine_text {r : LineProtocolReader N} {s : List UInt8} (h : Pending r s) :
    (emitLine r).2 = lineText r.options N s := by
  unfold emitLine lineText stripped
  rw [← h.text]
  rcases Nat.eq_zero_or_pos r.size with h0 | hpos
  · simp [h0]
  · rw [front_getLast? _ hpos h.size_le, ← front_pred _ h.size_le]
    simp only [gt_iff_lt, hpos, true_and]
    split <;> rfl

theorem consume_options (r : LineProtocolReader N) (c : UInt8) :
    (consume r c).1.options = r.options := by
  unfold consume emitLine
  split
  · rfl
  · split <;> rfl

/-- A delimiter closes the segment: one line, one message more. -/
theorem consume_delimiter {r : LineProtocolReader N} {s : List UInt8} (h : Pending r s)
    {c : UInt8} (hc : c = r.options.delimiter) :
    (consume r c).2 = some (lineText r.options N s)
      ∧ Pending (consume r c).1 []
      ∧ (consume r c).1.stats = { r.stats with messages := r.stats.messages + 1 } := by
  rw [consume, if_pos hc, emitLine_text h]
  exact ⟨rfl, ⟨by simp [emitLine], Nat.zero_le N⟩, rfl⟩

/-- Any other byte extends the segment and emits nothing. -/
theorem consume_pending {r : LineProtocolReader N} {s : List UInt8} (h : Pending r s)
    {c : UInt8} (hc : c ≠ r.options.delimiter) :
    (consume r c).2 = none
      ∧ Pending (consume r c).1 (s ++ [c])
      ∧ (consume r c).1.stats.messages = r.stats.messages
      ∧ (consume r c).1.stats.bytes = r.stats.bytes
      ∧ (consume r c).1.stats.overflows + UInt32.ofNat (overflowsOf r.options N s)
          = r.stats.overflows + UInt32.ofNat (overflowsOf r.options N (s ++ [c])) := by
  have hsize := h.size_eq
  rw [consume, if_neg hc]
  by_cases hfull : r.size ≥ N
  · have hlen : (kept r.options N s).length = N := by
      have := h.size_le
      omega
    obtain ⟨hkept, hover⟩ := kept_snoc_full r.options c hlen
    rw [dif_pos hfull, hover]
    refine ⟨rfl, ⟨?_, ?_⟩, rfl, rfl, ?_⟩
    · show front r.buffer (if r.options.dropOverflow then 0 else r.size) = _
      rw [hkept]
      split
      · exact front_zero _
      · exact h.text
    · show (if r.options.dropOverflow then 0 else r.size) ≤ N
      split
      · exact Nat.zero_le N
      · exact h.size_le
    · show r.stats.overflows + 1 + UInt32.ofNat _ = _
      rw [UInt32.ofNat_add, UInt32.add_assoc, UInt32.add_comm 1]
      rfl
  · have hlen : (kept r.options N s).length < N := by omega
    obtain ⟨hkept, hover⟩ := kept_snoc_fits r.options c hlen
    rw [dif_neg hfull, hover]
    refine ⟨rfl, ⟨?_, ?_⟩, rfl, rfl, rfl⟩
    · show front (r.buffer.set r.size c (by omega)) (r.size + 1) = _
      rw [front_push, hkept, h.text]
    · show r.size + 1 ≤ N
      omega

/-! ## Runs -/

theorem poll_append (r : LineProtocolReader N) (xs ys : List UInt8) :
    poll r (xs ++ ys)
      = ((poll (poll r xs).1 ys).1, (poll r xs).2 ++ (poll (poll r xs).1 ys).2) := by
  induction xs generalizing r with
  | nil => simp [poll]
  | cons x xs ih => simp [poll, ih]

theorem poll_snoc (r : LineProtocolReader N) (xs : List UInt8) (byte : UInt8) :
    poll r (xs ++ [byte])
      = (((poll r xs).1.readByte byte).1,
        (poll r xs).2 ++ ((poll r xs).1.readByte byte).2.toList) := by
  rw [poll_append]
  simp [poll]

/-- How the bytes are cut into arrivals makes no difference. -/
theorem pollAll_eq_poll (r : LineProtocolReader N) (arrivals : List (List UInt8)) :
    pollAll r arrivals = poll r arrivals.flatten := by
  induction arrivals generalizing r with
  | nil => simp [pollAll, poll]
  | cons arrival arrivals ih => simp [pollAll, poll_append, ih]

/-- The segments of a stream of which the bytes `s` of the first segment
have been read already and the bytes `bytes` have not. -/
def segmentsFrom (delimiter : UInt8) (s bytes : List UInt8) : List (List UInt8) :=
  (bytes.splitOn delimiter).modifyHead (s ++ ·)

@[simp] theorem segmentsFrom_nil (delimiter : UInt8) (s : List UInt8) :
    segmentsFrom delimiter s [] = [s] := by
  simp [segmentsFrom]

@[simp] theorem segmentsFrom_nil_left (delimiter : UInt8) (bytes : List UInt8) :
    segmentsFrom delimiter [] bytes = bytes.splitOn delimiter := by
  unfold segmentsFrom
  cases bytes.splitOn delimiter <;> simp

theorem segmentsFrom_ne_nil (delimiter : UInt8) (s bytes : List UInt8) :
    segmentsFrom delimiter s bytes ≠ [] := by
  unfold segmentsFrom
  have hne : bytes.splitOn delimiter ≠ [] := List.splitOnP_ne_nil _ _
  cases hb : bytes.splitOn delimiter with
  | nil => exact absurd hb hne
  | cons first rest => simp

theorem segmentsFrom_delimiter (delimiter : UInt8) (s bytes : List UInt8) :
    segmentsFrom delimiter s (delimiter :: bytes)
      = s :: segmentsFrom delimiter [] bytes := by
  rw [segmentsFrom_nil_left]
  simp [segmentsFrom, List.splitOn, List.splitOnP_cons_eq_if_modifyHead]

theorem segmentsFrom_other {delimiter c : UInt8} (hc : c ≠ delimiter) (s bytes : List UInt8) :
    segmentsFrom delimiter s (c :: bytes) = segmentsFrom delimiter (s ++ [c]) bytes := by
  unfold segmentsFrom
  have hhead : (c :: bytes).splitOn delimiter
      = (bytes.splitOn delimiter).modifyHead (List.cons c) := by
    simp [List.splitOn, List.splitOnP_cons_eq_if_modifyHead, hc]
  rw [hhead]
  cases bytes.splitOn delimiter <;> simp

theorem splitOn_length (delimiter : UInt8) (bytes : List UInt8) :
    (bytes.splitOn delimiter).length - 1 = bytes.count delimiter := by
  induction bytes with
  | nil => simp
  | cons c bytes ih =>
      have hne : bytes.splitOn delimiter ≠ [] := List.splitOnP_ne_nil _ _
      have hpos := List.length_pos_iff.mpr hne
      by_cases hc : c = delimiter
      · subst hc
        rw [← segmentsFrom_nil_left, segmentsFrom_delimiter, segmentsFrom_nil_left,
          List.length_cons, List.count_cons_self]
        omega
      · rw [← segmentsFrom_nil_left, segmentsFrom_other hc, segmentsFrom,
          List.length_modifyHead, List.count_cons_of_ne hc, ih]

/-- What reading `bytes` in the middle of the segment `s` comes to. -/
structure Reads (r r' : LineProtocolReader N) (s bytes : List UInt8)
    (lines : List (List UInt8)) : Prop where
  options : r'.options = r.options
  lines : lines
    = (segmentsFrom r.options.delimiter s bytes).dropLast.map (lineText r.options N)
  pending : Pending r' ((segmentsFrom r.options.delimiter s bytes).getLastD [])
  messages : r'.stats.messages
    = r.stats.messages + UInt32.ofNat (bytes.count r.options.delimiter)
  bytesRead : r'.stats.bytes = r.stats.bytes + UInt32.ofNat bytes.length
  overflows : r'.stats.overflows + UInt32.ofNat (overflowsOf r.options N s)
    = r.stats.overflows + UInt32.ofNat
        (((segmentsFrom r.options.delimiter s bytes).map (overflowsOf r.options N)).sum)

/-- A delimiter in front: the open segment is emitted, and the rest is read
from the start of a segment. -/
theorem Reads.cons_delimiter {r r' : LineProtocolReader N} {s bytes : List UInt8}
    {lines : List (List UInt8)} (h : Pending r s) {c : UInt8}
    (hc : c = r.options.delimiter)
    (hrest : Reads (readByte r c).1 r' [] bytes lines) :
    Reads r r' s (c :: bytes) ((readByte r c).2.toList ++ lines) := by
  have hcounted : Pending { r with stats := { r.stats with bytes := r.stats.bytes + 1 } } s :=
    ⟨h.text, h.size_le⟩
  obtain ⟨hline, -, hstats⟩ := consume_delimiter hcounted hc
  have hopt : (readByte r c).1.options = r.options := consume_options _ c
  have hne := segmentsFrom_ne_nil r.options.delimiter [] bytes
  have hsegs : segmentsFrom r.options.delimiter s (c :: bytes)
      = s :: segmentsFrom r.options.delimiter [] bytes := by
    rw [hc, segmentsFrom_delimiter]
  obtain ⟨hro, hrl, hrp, hrm, hrb, hrv⟩ := hrest
  rw [hopt] at hro hrl hrp hrm hrv
  refine ⟨hro, ?_, ?_, ?_, ?_, ?_⟩
  · rw [hsegs, List.dropLast_cons_of_ne_nil hne, List.map_cons, ← hrl]
    simp only [readByte, hline]
    rfl
  · rw [hsegs, List.getLastD_cons]
    rwa [List.getLastD_eq_getLast?, List.getLast?_eq_some_getLast hne] at hrp ⊢
  · rw [hrm, hc, List.count_cons_self, Nat.add_comm, UInt32.ofNat_add, ← UInt32.add_assoc]
    simp only [readByte, ← hc, hstats]
    rfl
  · rw [hrb, List.length_cons, Nat.add_comm, UInt32.ofNat_add, ← UInt32.add_assoc]
    simp only [readByte, hstats]
    rfl
  · rw [hsegs, List.map_cons, List.sum_cons, UInt32.ofNat_add]
    simp only [overflowsOf_nil, readByte, hstats] at hrv
    rw [show UInt32.ofNat 0 = 0 from rfl, UInt32.add_zero] at hrv
    rw [hrv, UInt32.add_assoc, UInt32.add_comm (UInt32.ofNat (List.sum _))]

/-- Any other byte in front belongs to the open segment. -/
theorem Reads.cons_other {r r' : LineProtocolReader N} {s bytes : List UInt8}
    {lines : List (List UInt8)} (h : Pending r s) {c : UInt8}
    (hc : c ≠ r.options.delimiter)
    (hrest : Reads (readByte r c).1 r' (s ++ [c]) bytes lines) :
    Reads r r' s (c :: bytes) ((readByte r c).2.toList ++ lines) := by
  have hcounted : Pending { r with stats := { r.stats with bytes := r.stats.bytes + 1 } } s :=
    ⟨h.text, h.size_le⟩
  obtain ⟨hline, -, hmsg, hbytes, hover⟩ := consume_pending hcounted hc
  have hopt : (readByte r c).1.options = r.options := consume_options _ c
  obtain ⟨hro, hrl, hrp, hrm, hrb, hrv⟩ := hrest
  rw [hopt] at hro hrl hrp hrm hrv
  refine ⟨hro, ?_, ?_, ?_, ?_, ?_⟩
  · rw [segmentsFrom_other hc, ← hrl]
    simp only [readByte, hline]
    rfl
  · rwa [segmentsFrom_other hc]
  · rw [hrm, List.count_cons_of_ne hc]
    simp only [readByte, hmsg]
  · rw [hrb, List.length_cons, Nat.add_comm, UInt32.ofNat_add, ← UInt32.add_assoc]
    simp only [readByte, hbytes]
    rfl
  · rw [segmentsFrom_other hc]
    simp only [readByte] at hrv
    grind

theorem poll_pending (bytes : List UInt8) (r : LineProtocolReader N) (s : List UInt8)
    (h : Pending r s) : Reads r (poll r bytes).1 s bytes (poll r bytes).2 := by
  induction bytes generalizing r s with
  | nil => exact ⟨rfl, by simp [poll], by simpa [poll] using h, by simp [poll],
      by simp [poll], by simp [poll]⟩
  | cons c bytes ih =>
      have hcounted :
          Pending { r with stats := { r.stats with bytes := r.stats.bytes + 1 } } s :=
        ⟨h.text, h.size_le⟩
      by_cases hc : c = r.options.delimiter
      · exact Reads.cons_delimiter h hc (ih _ [] (consume_delimiter hcounted hc).2.1)
      · exact Reads.cons_other h hc (ih _ (s ++ [c]) (consume_pending hcounted hc).2.1)

/-- **The complete input/output law of `LineProtocolReader`.** However the
bytes arrive, the lines are the texts of the finished segments in order, the
counters count delimiters, bytes and overflows modulo 2^32, and no prefix of
the bytes leads the buffer index past the buffer. -/
theorem line_protocol_law (N : Nat) (options : LineProtocolOptions)
    (arrivals : List (List UInt8)) :
    let bytes := arrivals.flatten
    let segments := bytes.splitOn options.delimiter
    let out := pollAll (fresh N options) arrivals
    out.2 = segments.dropLast.map (lineText options N)
      ∧ out.2.length = bytes.count options.delimiter
      ∧ out.1.stats.messages.toNat = bytes.count options.delimiter % 2 ^ 32
      ∧ out.1.stats.bytes.toNat = bytes.length % 2 ^ 32
      ∧ out.1.stats.overflows.toNat
          = (segments.map (overflowsOf options N)).sum % 2 ^ 32
      ∧ ∀ k, (poll (fresh N options) (bytes.take k)).1.size ≤ N := by
  intro bytes segments out
  have hreads := poll_pending bytes (fresh N options) [] (fresh_pending N options)
  have hout : out = poll (fresh N options) bytes := pollAll_eq_poll _ arrivals
  rw [← hout] at hreads
  have hlines : out.2 = segments.dropLast.map (lineText options N) := by
    have := hreads.lines
    rwa [segmentsFrom_nil_left] at this
  refine ⟨hlines, ?_, ?_, ?_, ?_, ?_⟩
  · rw [hlines, List.length_map, List.length_dropLast]
    exact splitOn_length options.delimiter bytes
  · rw [hreads.messages]
    simp [fresh]
  · rw [hreads.bytesRead]
    simp [fresh]
  · have hover := hreads.overflows
    rw [segmentsFrom_nil_left, overflowsOf_nil] at hover
    have hout : out.1.stats.overflows
        = UInt32.ofNat (segments.map (overflowsOf options N)).sum := by
      simpa [fresh] using hover
    rw [hout, UInt32.toNat_ofNat']
  · intro k
    exact (poll_pending (bytes.take k) _ [] (fresh_pending N options)).pending.size_le

end LineProtocolReader

end AsyncEventLoop
