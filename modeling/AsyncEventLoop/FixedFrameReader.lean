import AsyncEventLoop.LineReader
import AsyncEventLoop.StreamReader

/-!
# The fixed frame protocol reader

`FixedFrameProtocolReader` cuts the stream into frames of one size. The write
into its buffer is not guarded: that the index is inside is what `Filling`
says of a reader whose options are valid, and every byte keeps it.

The law reads the frames off the bytes. The last part is about a writer of
frames: each of them arrives as it was written.
-/

namespace AsyncEventLoop

open FixedArray StreamReader

/-- `FixedFrameProtocolReader`; its options are the size of a frame. -/
structure FixedFrameProtocolReader (BufferSize : Nat) where
  frameSize : Nat
  buffer : Vector UInt8 BufferSize
  size : Nat := 0
  stats : ProtocolReaderStats := {}

namespace FixedFrameProtocolReader

variable {N : Nat}

def fresh (N frameSize : Nat) : FixedFrameProtocolReader N :=
  { frameSize := frameSize, buffer := Vector.replicate N 0 }

/-- One turn of the loop in `poll`. -/
def readByte (r : FixedFrameProtocolReader N) (byte : UInt8) :
    FixedFrameProtocolReader N × List (List UInt8) :=
  let r := { r with
    stats := { r.stats with bytes := r.stats.bytes + 1 }
    buffer := r.buffer.setIfInBounds r.size byte
    size := r.size + 1 }
  if r.size = r.frameSize then
    ({ r with size := 0, stats := { r.stats with messages := r.stats.messages + 1 } },
      [front r.buffer r.size])
  else (r, [])

/-- `poll` on a stream that has `bytes` ready, with how many of them it takes. -/
def poll (r : FixedFrameProtocolReader N) (bytes : List UInt8) :
    Nat × FixedFrameProtocolReader N × List (List UInt8) :=
  if r.frameSize = 0 ∨ r.frameSize > N then
    (0, { r with stats := { r.stats with protocolErrors := r.stats.protocolErrors + 1 } }, [])
  else (bytes.length, feed readByte r bytes)

/-- One `poll` for each arrival; what is not taken stays in the stream. -/
def pollAll (r : FixedFrameProtocolReader N) (waiting : List UInt8) :
    List (List UInt8) → List UInt8 × FixedFrameProtocolReader N × List (List UInt8)
  | [] => (waiting, r, [])
  | arrival :: arrivals =>
      let first := poll r (waiting ++ arrival)
      let rest := pollAll first.2.1 ((waiting ++ arrival).drop first.1) arrivals
      (rest.1, rest.2.1, first.2.2 ++ rest.2.2)

/-- The frames of `bytes` that are whole. -/
def frames (frameSize : Nat) (bytes : List UInt8) : List (List UInt8) :=
  (List.range (bytes.length / frameSize)).map fun k => (bytes.drop (k * frameSize)).take frameSize

/-! ## One byte -/

/-- The reader holds `text` of a frame that is not complete, and there is room
for the rest of it. -/
structure Filling (r : FixedFrameProtocolReader N) (F : Nat) (text : List UInt8) : Prop where
  frameSize : r.frameSize = F
  fits : F ≤ N
  open_ : text.length < F
  size : r.size = text.length
  held : front r.buffer r.size = text

variable {r : FixedFrameProtocolReader N} {F : Nat} {text : List UInt8}

theorem fresh_filling (hpos : 0 < F) (hfits : F ≤ N) : Filling (fresh N F) F [] :=
  ⟨rfl, hfits, hpos, rfl, front_zero _⟩

theorem Filling.index_lt (h : Filling r F text) : r.size < N := by
  rw [h.size]
  exact Nat.lt_of_lt_of_le h.open_ h.fits

/-- The byte is stored behind the others. -/
theorem Filling.stored (h : Filling r F text) (byte : UInt8) :
    front (r.buffer.setIfInBounds r.size byte) (r.size + 1) = text ++ [byte] := by
  have hset : r.buffer.setIfInBounds r.size byte = r.buffer.set r.size byte h.index_lt := by
    simp [Vector.setIfInBounds, Vector.set, Array.setIfInBounds, h.index_lt]
  rw [hset, front_push, h.held]

/-- A byte that does not complete the frame. -/
theorem Filling.more (h : Filling r F text) (byte : UInt8) (hlen : text.length + 1 < F) :
    (readByte r byte).2 = [] ∧ Filling (readByte r byte).1 F (text ++ [byte])
      ∧ (readByte r byte).1.stats = { r.stats with bytes := r.stats.bytes + 1 } := by
  have hne : ¬ r.size + 1 = r.frameSize := by
    rw [h.size, h.frameSize]
    exact Nat.ne_of_lt hlen
  unfold readByte
  dsimp only
  rw [if_neg hne]
  refine ⟨rfl, ⟨h.frameSize, h.fits, ?_, ?_, h.stored byte⟩, rfl⟩
  · rwa [List.length_append, List.length_singleton]
  · rw [List.length_append, List.length_singleton, h.size]

/-- The last byte of a frame. -/
theorem Filling.last (h : Filling r F text) (byte : UInt8) (hlen : text.length + 1 = F) :
    (readByte r byte).2 = [text ++ [byte]] ∧ Filling (readByte r byte).1 F []
      ∧ (readByte r byte).1.stats = { r.stats with
          bytes := r.stats.bytes + 1, messages := r.stats.messages + 1 } := by
  have heq : r.size + 1 = r.frameSize := by
    rw [h.size, h.frameSize]
    exact hlen
  unfold readByte
  dsimp only
  rw [if_pos heq, h.stored byte]
  exact ⟨rfl, ⟨h.frameSize, h.fits, Nat.lt_of_le_of_lt (Nat.zero_le _) h.open_, rfl,
    front_zero _⟩, rfl⟩

/-! ## The frames of a stream -/

/-- What is left behind the last whole frame. -/
def leftover (frameSize : Nat) (bytes : List UInt8) : List UInt8 :=
  bytes.drop (bytes.length / frameSize * frameSize)

theorem frames_short {bytes : List UInt8} (h : bytes.length < F) : frames F bytes = [] := by
  rw [frames, Nat.div_eq_of_lt h]
  rfl

theorem leftover_short {bytes : List UInt8} (h : bytes.length < F) : leftover F bytes = bytes := by
  rw [leftover, Nat.div_eq_of_lt h, Nat.zero_mul, List.drop_zero]

theorem div_frame (hpos : 0 < F) {frame rest : List UInt8} (h : frame.length = F) :
    (frame ++ rest).length / F = rest.length / F + 1 := by
  rw [List.length_append, h, Nat.add_comm, Nat.add_div_right _ hpos]

/-- The first frame, and those of the rest. -/
theorem frames_cons (hpos : 0 < F) {frame rest : List UInt8} (h : frame.length = F) :
    frames F (frame ++ rest) = frame :: frames F rest := by
  have htail (k : Nat) : (frame ++ rest).drop ((k + 1) * F) = rest.drop (k * F) := by
    rw [Nat.succ_mul, Nat.add_comm, ← List.drop_drop, List.drop_left' h]
  rw [frames, div_frame hpos h, List.range_succ_eq_map, List.map_cons, List.map_map, frames,
    Nat.zero_mul, List.drop_zero, List.take_left' h]
  refine congrArg (frame :: ·) (List.map_congr_left fun k _ => ?_)
  rw [Function.comp_apply, htail]

theorem leftover_cons (hpos : 0 < F) {frame rest : List UInt8} (h : frame.length = F) :
    leftover F (frame ++ rest) = leftover F rest := by
  rw [leftover, div_frame hpos h, Nat.succ_mul, Nat.add_comm, ← List.drop_drop,
    List.drop_left' h, leftover]

/-! ## Runs -/

/-- What the reader makes of `bytes` behind `text`. -/
structure Cuts (r r' : FixedFrameProtocolReader N) (F : Nat) (text bytes : List UInt8)
    (emitted : List (List UInt8)) : Prop where
  emitted : emitted = frames F (text ++ bytes)
  filling : Filling r' F (leftover F (text ++ bytes))
  messages : r'.stats.messages = r.stats.messages + UInt32.ofNat ((text ++ bytes).length / F)
  bytesRead : r'.stats.bytes = r.stats.bytes + UInt32.ofNat bytes.length
  errors : r'.stats.protocolErrors = r.stats.protocolErrors
  overflows : r'.stats.overflows = r.stats.overflows

theorem feed_filling (bytes : List UInt8) (h : Filling r F text) :
    Cuts r (feed readByte r bytes).1 F text bytes (feed readByte r bytes).2 := by
  have hpos : 0 < F := Nat.lt_of_le_of_lt (Nat.zero_le _) h.open_
  induction bytes generalizing r text with
  | nil =>
      have hshort : (text ++ []).length < F := by rw [List.append_nil]; exact h.open_
      refine ⟨(frames_short hshort).symm, ?_, ?_, ?_, rfl, rfl⟩
      · rw [leftover_short hshort, List.append_nil]
        exact h
      · rw [Nat.div_eq_of_lt hshort]
        exact (UInt32.add_zero _).symm
      · exact (UInt32.add_zero _).symm
  | cons byte bytes ih =>
      have hsplit : text ++ byte :: bytes = text ++ [byte] ++ bytes := List.append_cons ..
      have hcount (n : UInt32) : n + 1 + UInt32.ofNat bytes.length
          = n + UInt32.ofNat (byte :: bytes).length := by
        rw [List.length_cons, Nat.add_comm, UInt32.ofNat_add, UInt32.add_assoc]
        rfl
      by_cases hlen : text.length + 1 < F
      · obtain ⟨hout, hmore, hstats⟩ := h.more byte hlen
        obtain ⟨hemitted, hfilling, hmessages, hbytes, herrors, hoverflows⟩ := ih hmore
        rw [hstats] at hmessages hbytes herrors hoverflows
        refine ⟨?_, ?_, ?_, hbytes.trans (hcount _), herrors, hoverflows⟩
        · rw [feed, hout, List.nil_append, hsplit]
          exact hemitted
        · rw [hsplit]
          exact hfilling
        · rw [hsplit]
          exact hmessages
      · have hlast : text.length + 1 = F := Nat.le_antisymm h.open_ (Nat.not_lt.mp hlen)
        have hframe : (text ++ [byte]).length = F := by
          rw [List.length_append, List.length_singleton, hlast]
        obtain ⟨hout, hnext, hstats⟩ := h.last byte hlast
        obtain ⟨hemitted, hfilling, hmessages, hbytes, herrors, hoverflows⟩ := ih hnext
        rw [hstats] at hmessages hbytes herrors hoverflows
        refine ⟨?_, ?_, ?_, hbytes.trans (hcount _), herrors, hoverflows⟩
        · rw [feed, hout, hsplit, frames_cons hpos hframe]
          exact congrArg ((text ++ [byte]) :: ·) hemitted
        · rw [hsplit, leftover_cons hpos hframe]
          exact hfilling
        · rw [hsplit, div_frame hpos hframe, Nat.add_comm, UInt32.ofNat_add, ← UInt32.add_assoc]
          exact hmessages

/-- With valid options every arrival is read to its end. -/
theorem pollAll_valid (arrivals : List (List UInt8)) (h : Filling r F text) :
    pollAll r [] arrivals = ([], feedAll readByte r arrivals) := by
  have hpos : 0 < F := Nat.lt_of_le_of_lt (Nat.zero_le _) h.open_
  induction arrivals generalizing r text with
  | nil => rfl
  | cons arrival arrivals ih =>
      have hvalid : ¬ (r.frameSize = 0 ∨ r.frameSize > N) := by
        rw [h.frameSize]
        rintro (hzero | hlarge)
        · exact Nat.ne_of_gt hpos hzero
        · exact Nat.not_le_of_gt hlarge h.fits
      rw [pollAll, List.nil_append, poll, if_neg hvalid, List.drop_length,
        ih (feed_filling arrival h).filling, feedAll]

/-- With other options nothing is read, and every `poll` counts an error. -/
theorem pollAll_invalid (arrivals : List (List UInt8)) (waiting : List UInt8)
    (h : r.frameSize = 0 ∨ r.frameSize > N) :
    pollAll r waiting arrivals
      = (waiting ++ arrivals.flatten,
        { r with stats := { r.stats with
          protocolErrors := r.stats.protocolErrors + UInt32.ofNat arrivals.length } }, []) := by
  induction arrivals generalizing r waiting with
  | nil => simp [pollAll]
  | cons arrival arrivals ih =>
      have hrest := ih (r := { r with
        stats := { r.stats with protocolErrors := r.stats.protocolErrors + 1 } })
        (waiting ++ arrival) h
      rw [pollAll, poll, if_pos h, List.drop_zero]
      dsimp only
      rw [hrest, List.flatten_cons, List.length_cons, Nat.add_comm arrivals.length,
        UInt32.ofNat_add, ← UInt32.add_assoc, List.append_assoc]
      rfl

/-- **The complete input/output law of `FixedFrameProtocolReader`.** Where the
size of a frame is one its buffer can hold, every byte is read, the frames are
the stretches of that many bytes in order, what is left of the last one is held,
the counters count modulo 2^32, and no byte is stored outside the buffer.
Otherwise nothing is read, and every `poll` counts one error. -/
theorem fixed_frame_law (N F : Nat) (arrivals : List (List UInt8)) :
    (0 < F ∧ F ≤ N → ∃ reader,
        pollAll (fresh N F) [] arrivals = ([], reader, frames F arrivals.flatten)
        ∧ front reader.buffer reader.size = leftover F arrivals.flatten
        ∧ reader.stats.messages.toNat = arrivals.flatten.length / F % 2 ^ 32
        ∧ reader.stats.bytes.toNat = arrivals.flatten.length % 2 ^ 32
        ∧ reader.stats.protocolErrors = 0
        ∧ ∀ k, (feed readByte (fresh N F) (arrivals.flatten.take k)).1.size < N)
      ∧ (¬ (0 < F ∧ F ≤ N) →
        pollAll (fresh N F) [] arrivals = (arrivals.flatten,
          { fresh N F with stats := { protocolErrors := UInt32.ofNat arrivals.length } }, [])) := by
  constructor
  · rintro ⟨hpos, hfits⟩
    have hfresh := fresh_filling hpos hfits
    have hcuts := feed_filling arrivals.flatten hfresh
    refine ⟨(feed readByte (fresh N F) arrivals.flatten).1, ?_, hcuts.filling.held, ?_, ?_,
      hcuts.errors, fun k => ?_⟩
    · rw [pollAll_valid arrivals hfresh, feedAll_eq]
      exact congrArg (fun emitted => ([], _, emitted)) hcuts.emitted
    · rw [hcuts.messages]
      simp [fresh]
    · rw [hcuts.bytesRead]
      simp [fresh]
    · exact (feed_filling (arrivals.flatten.take k) hfresh).filling.index_lt
  · intro hinvalid
    have hoptions : (fresh N F).frameSize = 0 ∨ (fresh N F).frameSize > N := by
      show F = 0 ∨ F > N
      omega
    rw [pollAll_invalid arrivals [] hoptions]
    simp [fresh]

/-! ## Frames that were written -/

/-- Each frame arrives as it was written, and the reader is back where it was. -/
theorem frames_codec :
    Codec readByte (fun r : FixedFrameProtocolReader N => Filling r F [])
      (fun frame => frame.length = F) id fun frame => [frame] where
  boundary r frame h hframe := by
    have hcuts := (feed_filling frame h).filling
    rw [List.nil_append, ← List.append_nil frame, leftover_cons h.open_ hframe,
      leftover_short h.open_, List.append_nil] at hcuts
    exact hcuts
  message r frame h hframe := by
    have hcuts := (feed_filling frame h).emitted
    rw [List.nil_append] at hcuts
    rw [id_eq, hcuts, ← List.append_nil frame, frames_cons h.open_ hframe, frames_short h.open_,
      List.append_nil]

end FixedFrameProtocolReader

end AsyncEventLoop
