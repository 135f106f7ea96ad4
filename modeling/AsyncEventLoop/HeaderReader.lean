import Mathlib.Data.List.Basic
import AsyncEventLoop.LineReader

/-!
# The header and payload protocol reader

`HeaderPayloadProtocolReader` collects a header of fixed size, asks a user
function for the payload size, and emits header and payload as one frame.
Each `Output` is something the reader does to the outside: it calls the
user function, hands a frame to the callback, or counts an error.

`parse` is the reference: the outputs of a byte sequence, read off the
whole sequence at once. `readByte_open` says that one byte takes the
reader from the state of an open frame `q` to that of `q ++ [c]`, with the
outputs that make the difference between the two parses; the run lemma
`poll_open` is its induction over the bytes.
-/

namespace AsyncEventLoop

open FixedArray

/-- The values of a `size_t` are below this. -/
def sizeModulus : Nat := 2 ^ 64

/-- `HeaderPayloadProtocolOptions`; no function stands for a null pointer. -/
structure HeaderPayloadProtocolOptions where
  headerSize : Nat
  maxPayloadSize : Nat
  payloadSizeFromHeader : Option (List UInt8 → UInt64)

/-- What the reader does to the outside. -/
inductive HeaderOutput where
  /-- `payload_size_from_header` is called on this header. -/
  | asked (header : List UInt8)
  /-- The callback receives this frame. -/
  | frame (bytes : List UInt8)
  | protocolError
  | overflow
  deriving DecidableEq

structure HeaderPayloadProtocolReader (BufferSize : Nat) where
  options : HeaderPayloadProtocolOptions
  buffer : Vector UInt8 BufferSize
  size : Nat := 0
  expectedSize : Nat := 0
  haveExpectedSize : Bool := false
  stats : ProtocolReaderStats := {}

namespace HeaderPayloadProtocolReader

variable {N : Nat}

def fresh (N : Nat) (options : HeaderPayloadProtocolOptions) :
    HeaderPayloadProtocolReader N :=
  { options := options, buffer := Vector.replicate N 0 }

/-- `valid_options`. -/
def validOptions (r : HeaderPayloadProtocolReader N) : Bool :=
  r.options.headerSize ≠ 0
    && r.options.payloadSizeFromHeader.isSome
    && r.options.headerSize ≤ N
    && r.options.maxPayloadSize ≤ N
    && (r.options.headerSize + r.options.maxPayloadSize) % sizeModulus ≤ N

def reset (r : HeaderPayloadProtocolReader N) : HeaderPayloadProtocolReader N :=
  { r with size := 0, expectedSize := 0, haveExpectedSize := false }

def countError (r : HeaderPayloadProtocolReader N) : HeaderPayloadProtocolReader N :=
  { r with stats := { r.stats with protocolErrors := r.stats.protocolErrors + 1 } }

/-- `append`: `none` when the byte overflowed the buffer. -/
def append (r : HeaderPayloadProtocolReader N) (byte : UInt8) :
    HeaderPayloadProtocolReader N × Bool :=
  if h : r.size ≥ N then
    (reset { r with stats := { r.stats with overflows := r.stats.overflows + 1 } }, false)
  else
    ({ r with buffer := r.buffer.set r.size byte (by omega), size := r.size + 1 }, true)

/-- The payload size the user function reads off the collected header. -/
def payloadSize (r : HeaderPayloadProtocolReader N) (header : List UInt8) : Nat :=
  match r.options.payloadSizeFromHeader with
  | some f => (f header).toNat
  | none => 0

/-- The block of `try_emit` that fixes the expected size: `none` when the
payload is refused. -/
def expectSize (r : HeaderPayloadProtocolReader N) :
    HeaderPayloadProtocolReader N × List HeaderOutput × Bool :=
  if r.haveExpectedSize then (r, [], true)
  else
    let header := front r.buffer r.options.headerSize
    let payload := payloadSize r header
    if payload > r.options.maxPayloadSize
        ∨ (r.options.headerSize + payload) % sizeModulus > N then
      (reset (countError r), [.asked header, .protocolError], false)
    else
      ({ r with
          expectedSize := (r.options.headerSize + payload) % sizeModulus
          haveExpectedSize := true }, [.asked header], true)

/-- The copy loop of `try_emit`: bytes behind the frame move to the front. -/
def retain (buffer : Vector UInt8 N) (expectedSize remaining : Nat) : Vector UInt8 N :=
  (List.range remaining).foldl
    (fun b i => b.setIfInBounds i (b[expectedSize + i]?.getD 0)) buffer

/-- The block of `try_emit` that emits a complete frame. -/
def emitFrame (r : HeaderPayloadProtocolReader N) :
    HeaderPayloadProtocolReader N × HeaderOutput :=
  let remaining := r.size - r.expectedSize
  ({ r with
      buffer := retain r.buffer r.expectedSize remaining
      size := remaining
      expectedSize := 0
      haveExpectedSize := false
      stats := { r.stats with messages := r.stats.messages + 1 } },
    .frame (front r.buffer r.expectedSize))

/-- `try_emit`. It calls itself while a whole header is left, each time on
fewer bytes; the first argument bounds these calls. -/
def tryEmit : Nat → HeaderPayloadProtocolReader N →
    HeaderPayloadProtocolReader N × List HeaderOutput
  | 0, r => (r, [])
  | calls + 1, r =>
      if r.size < r.options.headerSize then (r, [])
      else
        match expectSize r with
        | (r, outputs, false) => (r, outputs)
        | (r, outputs, true) =>
            if r.size ≥ r.expectedSize then
              let (r, frame) := emitFrame r
              if r.size ≥ r.options.headerSize then
                let (r, more) := tryEmit calls r
                (r, outputs ++ frame :: more)
              else (r, outputs ++ [frame])
            else (r, outputs)

/-- One turn of the loop in `poll`. -/
def readByte (r : HeaderPayloadProtocolReader N) (byte : UInt8) :
    HeaderPayloadProtocolReader N × List HeaderOutput :=
  match append { r with stats := { r.stats with bytes := r.stats.bytes + 1 } } byte with
  | (r, false) => (r, [.overflow])
  | (r, true) => tryEmit (r.size + 1) r

def readBytes (r : HeaderPayloadProtocolReader N) :
    List UInt8 → HeaderPayloadProtocolReader N × List HeaderOutput
  | [] => (r, [])
  | byte :: bytes =>
      let step := readByte r byte
      let rest := readBytes step.1 bytes
      (rest.1, step.2 ++ rest.2)

/-- `poll` on a stream that has `bytes` ready. -/
def poll (r : HeaderPayloadProtocolReader N) (bytes : List UInt8) :
    HeaderPayloadProtocolReader N × List HeaderOutput :=
  if validOptions r then readBytes r bytes else (countError r, [.protocolError])

/-- One `poll` for each arrival. -/
def pollAll (r : HeaderPayloadProtocolReader N) :
    List (List UInt8) → HeaderPayloadProtocolReader N × List HeaderOutput
  | [] => (r, [])
  | arrival :: arrivals =>
      let first := poll r arrival
      let rest := pollAll first.1 arrivals
      (rest.1, first.2 ++ rest.2)

/-! ## The reference parse -/

/-- The outputs of a byte sequence under header size `H`, payload limit
`maxPayload` and size function `f`. -/
def parse (H maxPayload : Nat) (f : List UInt8 → UInt64) (bytes : List UInt8) :
    List HeaderOutput :=
  if _h : H = 0 ∨ bytes.length < H then []
  else
    let header := bytes.take H
    let p := (f header).toNat
    if p > maxPayload then
      .asked header :: .protocolError :: parse H maxPayload f (bytes.drop H)
    else if bytes.length < H + p then [.asked header]
    else
      .asked header :: .frame (bytes.take (H + p)) :: parse H maxPayload f (bytes.drop (H + p))
termination_by bytes.length
decreasing_by
  all_goals
    rw [List.length_drop]
    omega

section Parse

variable {H maxPayload : Nat} {f : List UInt8 → UInt64}

theorem parse_short {q : List UInt8} (h : q.length < H) : parse H maxPayload f q = [] := by
  rw [parse, dif_pos (Or.inr h)]

theorem parse_refused (hH : 0 < H) {q : List UInt8} (hq : q.length = H)
    (hp : (f q).toNat > maxPayload) (rest : List UInt8) :
    parse H maxPayload f (q ++ rest)
      = .asked q :: .protocolError :: parse H maxPayload f rest := by
  rw [parse, dif_neg (by simp; omega)]
  simp only [List.take_left' hq, List.drop_left' hq, if_pos hp]

theorem parse_open (hH : 0 < H) {q : List UInt8} (hq : H ≤ q.length)
    (hp : (f (q.take H)).toNat ≤ maxPayload)
    (hlen : q.length < H + (f (q.take H)).toNat) :
    parse H maxPayload f q = [.asked (q.take H)] := by
  rw [parse, dif_neg (by omega)]
  simp only [if_neg (Nat.not_lt.mpr hp), if_pos hlen]

theorem parse_frame (hH : 0 < H) {q : List UInt8} (hq : H ≤ q.length)
    (hp : (f (q.take H)).toNat ≤ maxPayload)
    (hlen : q.length = H + (f (q.take H)).toNat) (rest : List UInt8) :
    parse H maxPayload f (q ++ rest)
      = .asked (q.take H) :: .frame q :: parse H maxPayload f rest := by
  rw [parse, dif_neg (by simp; omega)]
  simp only [List.take_append_of_le_length hq, if_neg (Nat.not_lt.mpr hp)]
  rw [if_neg (by simp; omega), List.take_left' hlen, List.drop_left' hlen]

end Parse

/-! ## One byte -/

/-- The options a reader can work with: a nonempty header, a size function,
and a largest frame that fits the buffer. -/
structure Usable (N : Nat) (options : HeaderPayloadProtocolOptions)
    (f : List UInt8 → UInt64) : Prop where
  header_pos : 1 ≤ options.headerSize
  fits : options.headerSize + options.maxPayloadSize ≤ N
  asks : options.payloadSizeFromHeader = some f
  size_t : N < sizeModulus

/-- The reader holds the bytes `q` of a frame that is not complete: either
the header is still being collected, or its payload size is known and
accepted. -/
structure Open (options : HeaderPayloadProtocolOptions) (f : List UInt8 → UInt64)
    (r : HeaderPayloadProtocolReader N) (q : List UInt8) : Prop where
  options_eq : r.options = options
  text : front r.buffer r.size = q
  size_lt : r.size < N
  phase : (q.length < options.headerSize ∧ r.haveExpectedSize = false)
    ∨ (options.headerSize ≤ q.length ∧ r.haveExpectedSize = true
      ∧ (f (q.take options.headerSize)).toNat ≤ options.maxPayloadSize
      ∧ q.length < options.headerSize + (f (q.take options.headerSize)).toNat
      ∧ r.expectedSize = options.headerSize + (f (q.take options.headerSize)).toNat)

section Step

variable {options : HeaderPayloadProtocolOptions} {f : List UInt8 → UInt64}

theorem fresh_open (hu : Usable N options f) : Open options f (fresh N options) [] :=
  have hpos := hu.header_pos
  have hfits := hu.fits
  ⟨rfl, front_zero _, show 0 < N by omega, Or.inl ⟨hpos, rfl⟩⟩

/-- What one byte does to the reader of an open frame `q`: the frame stays
open with the byte, or it is closed and the reader is at a boundary. In
both cases the outputs are what the parse of the longer prefix adds. -/
inductive Advances (options : HeaderPayloadProtocolOptions) (f : List UInt8 → UInt64)
    (r r' : HeaderPayloadProtocolReader N) (q q' : List UInt8)
    (outputs : List HeaderOutput) : Prop where
  | extend (hopen : Open options f r' q')
      (hout : parse options.headerSize options.maxPayloadSize f q ++ outputs
        = parse options.headerSize options.maxPayloadSize f q')
      (hnone : HeaderOutput.protocolError ∉ outputs)
      (herr : r'.stats.protocolErrors = r.stats.protocolErrors)
      (hover : r'.stats.overflows = r.stats.overflows)
  | close (hopen : Open options f r' [])
      (hout : ∀ rest, parse options.headerSize options.maxPayloadSize f q ++ outputs
          ++ parse options.headerSize options.maxPayloadSize f rest
        = parse options.headerSize options.maxPayloadSize f (q' ++ rest))
      (herr : r'.stats.protocolErrors = r.stats.protocolErrors
        + UInt32.ofNat (outputs.count .protocolError))
      (hover : r'.stats.overflows = r.stats.overflows)

/-- Emitting a frame that fills the buffered bytes leaves nothing behind. -/
theorem emitFrame_exact {r : HeaderPayloadProtocolReader N} (h : r.size = r.expectedSize) :
    emitFrame r = ({ r with
        size := 0
        expectedSize := 0
        haveExpectedSize := false
        stats := { r.stats with messages := r.stats.messages + 1 } },
      .frame (front r.buffer r.size)) := by
  simp [emitFrame, retain, h]

/-- A completed header whose payload is too large is refused. -/
theorem expectSize_refused (hu : Usable N options f) {r : HeaderPayloadProtocolReader N}
    (hopt : r.options = options) (hhave : r.haveExpectedSize = false) {q : List UInt8}
    (htext : front r.buffer options.headerSize = q)
    (hp : (f q).toNat > options.maxPayloadSize) :
    expectSize r = (reset (countError r), [.asked q, .protocolError], false) := by
  subst hopt
  have hpay : payloadSize r q = (f q).toNat := by rw [payloadSize, hu.asks]
  simp [expectSize, hhave, htext, hpay, hp]

/-- A completed header whose payload fits fixes the expected size; the sum
does not wrap. -/
theorem expectSize_accepted (hu : Usable N options f) {r : HeaderPayloadProtocolReader N}
    (hopt : r.options = options) (hhave : r.haveExpectedSize = false) {q : List UInt8}
    (htext : front r.buffer options.headerSize = q)
    (hp : (f q).toNat ≤ options.maxPayloadSize) :
    expectSize r = ({ r with
        expectedSize := options.headerSize + (f q).toNat
        haveExpectedSize := true }, [.asked q], true) := by
  subst hopt
  obtain ⟨-, hfits, hasks, hmod⟩ := hu
  have hpay : payloadSize r q = (f q).toNat := by rw [payloadSize, hasks]
  have hwrap : (r.options.headerSize + (f q).toNat) % sizeModulus
      = r.options.headerSize + (f q).toNat := Nat.mod_eq_of_lt (by omega)
  simp only [expectSize, hhave, Bool.false_eq_true, if_false, htext, hpay, hwrap]
  rw [if_neg (by omega)]

/-- The reader at a boundary holds the bytes of the empty frame. -/
theorem open_boundary (hu : Usable N options f) {r : HeaderPayloadProtocolReader N}
    (hopt : r.options = options) (hsize : r.size = 0) (hhave : r.haveExpectedSize = false) :
    Open options f r [] := by
  have hpos := hu.header_pos
  have hfits := hu.fits
  exact ⟨hopt, by rw [hsize, front_zero], by omega, Or.inl ⟨hpos, hhave⟩⟩

/-- `try_emit` when the size of the frame is known, at most one byte early. -/
theorem tryEmit_known (hu : Usable N options f) {r : HeaderPayloadProtocolReader N}
    {outputs : List HeaderOutput} {r₁ : HeaderPayloadProtocolReader N}
    (hsize : ¬ r.size < r.options.headerSize) (hexp : expectSize r = (r₁, outputs, true))
    (hopt : r₁.options = options) (hle : r₁.size ≤ r₁.expectedSize) (k : Nat) :
    tryEmit (k + 1) r = if r₁.size = r₁.expectedSize
      then ((emitFrame r₁).1, outputs ++ [.frame (front r₁.buffer r₁.size)])
      else (r₁, outputs) := by
  have hpos := hu.header_pos
  rw [tryEmit, if_neg hsize, hexp]
  simp only
  by_cases heq : r₁.size = r₁.expectedSize
  · rw [if_pos (by omega), if_pos heq, emitFrame_exact heq]
    simp only [hopt]
    rw [if_neg (by omega)]
  · rw [if_neg (by omega), if_neg heq]

/-- `try_emit` when the last byte has completed the header. -/
theorem tryEmit_header (hu : Usable N options f)
    {b r : HeaderPayloadProtocolReader N} {q₀ q : List UInt8}
    (hopt : r.options = options) (htext : front r.buffer r.size = q)
    (hsize : r.size = options.headerSize) (hhave : r.haveExpectedSize = false)
    (herr : r.stats.protocolErrors = b.stats.protocolErrors)
    (hover : r.stats.overflows = b.stats.overflows)
    (hq₀ : q₀.length < options.headerSize) (k : Nat) :
    Advances options f b (tryEmit (k + 1) r).1 q₀ q (tryEmit (k + 1) r).2 := by
  have hpos := hu.header_pos
  have hfits := hu.fits
  have hlen : q.length = options.headerSize := by
    rw [← htext, length_front _ (by omega), hsize]
  have hq : q.take options.headerSize = q := by rw [← hlen, List.take_length]
  rw [hsize] at htext
  by_cases hp : (f q).toNat > options.maxPayloadSize
  · have hrun : tryEmit (k + 1) r
        = (reset (countError r), [.asked q, .protocolError]) := by
      rw [tryEmit, if_neg (by rw [hopt]; omega), expectSize_refused hu hopt hhave htext hp]
    rw [hrun]
    refine .close (open_boundary hu hopt rfl rfl) ?_ ?_ hover
    · intro rest
      rw [parse_short hq₀, parse_refused hpos hlen hp]
      rfl
    · show r.stats.protocolErrors + 1 = _
      rw [herr]
      rfl
  · have hple : (f q).toNat ≤ options.maxPayloadSize := Nat.not_lt.mp hp
    rw [tryEmit_known hu (by rw [hopt]; omega) (expectSize_accepted hu hopt hhave htext hple)
      hopt (by simp only; omega)]
    simp only
    by_cases hzero : (f q).toNat = 0
    · rw [if_pos (by omega), hsize, htext]
      refine .close (open_boundary hu hopt ?_ rfl) ?_ ?_ hover
      · simp only [emitFrame]
        omega
      · intro rest
        rw [parse_short hq₀, parse_frame hpos (by omega) (by rwa [hq]) (by rw [hq]; omega), hq]
        rfl
      · rw [← herr]
        simp [emitFrame]
    · rw [if_neg (by omega)]
      refine .extend ⟨hopt, by rw [← htext, ← hsize], ?_, Or.inr ?_⟩ ?_ (by simp) herr hover
      · show r.size < N
        omega
      · rw [hq]
        exact ⟨by omega, rfl, hple, by omega, rfl⟩
      · rw [parse_short hq₀, parse_open hpos (by omega) (by rwa [hq]) (by rw [hq]; omega), hq]
        rfl

/-- `try_emit` inside a payload. -/
theorem tryEmit_payload (hu : Usable N options f)
    {b r : HeaderPayloadProtocolReader N} {q₀ : List UInt8} {c : UInt8}
    (hopt : r.options = options) (htext : front r.buffer r.size = q₀ ++ [c])
    (hle : r.size ≤ N) (hhave : r.haveExpectedSize = true)
    (herr : r.stats.protocolErrors = b.stats.protocolErrors)
    (hover : r.stats.overflows = b.stats.overflows)
    (hq₀ : options.headerSize ≤ q₀.length)
    (hp : (f (q₀.take options.headerSize)).toNat ≤ options.maxPayloadSize)
    (hlt : q₀.length < options.headerSize + (f (q₀.take options.headerSize)).toNat)
    (hexp : r.expectedSize
      = options.headerSize + (f (q₀.take options.headerSize)).toNat) (k : Nat) :
    Advances options f b (tryEmit (k + 1) r).1 q₀ (q₀ ++ [c]) (tryEmit (k + 1) r).2 := by
  have hpos := hu.header_pos
  have hfits := hu.fits
  have hsize : r.size = q₀.length + 1 := by
    rw [← length_front r.buffer hle, htext]
    simp
  have htake : (q₀ ++ [c]).take options.headerSize = q₀.take options.headerSize :=
    List.take_append_of_le_length hq₀
  have hlen : (q₀ ++ [c]).length = q₀.length + 1 := by simp
  have hparse₀ := parse_open hpos hq₀ hp hlt
  rw [tryEmit_known hu (by rw [hopt]; omega) (by rw [expectSize, if_pos hhave]) hopt (by omega)]
  by_cases heq : r.size = r.expectedSize
  · rw [if_pos heq, htext]
    refine .close (open_boundary hu hopt ?_ rfl) ?_ ?_ hover
    · simp only [emitFrame]
      omega
    · intro rest
      rw [hparse₀, parse_frame hpos (by omega) (by rwa [htake]) (by rw [htake]; omega), htake]
      rfl
    · rw [← herr]
      simp [emitFrame]
  · rw [if_neg heq]
    refine .extend ⟨hopt, htext, ?_, Or.inr ?_⟩ ?_ (by simp) herr hover
    · show r.size < N
      omega
    · rw [htake]
      exact ⟨by omega, hhave, hp, by omega, hexp⟩
    · rw [hparse₀, parse_open hpos (by omega) (by rwa [htake]) (by rw [htake]; omega), htake]
      rfl

/-- **The step lemma.** -/
theorem readByte_open (hu : Usable N options f) {r : HeaderPayloadProtocolReader N}
    {q : List UInt8} (h : Open options f r q) (c : UInt8) :
    Advances options f r (readByte r c).1 q (q ++ [c]) (readByte r c).2 := by
  obtain ⟨hopt, htext, hlt, hphase⟩ := h
  have hsize : r.size = q.length := by
    rw [← htext, length_front _ (Nat.le_of_lt hlt)]
  let stored : HeaderPayloadProtocolReader N :=
    { r with
      buffer := r.buffer.set r.size c hlt
      size := r.size + 1
      stats := { r.stats with bytes := r.stats.bytes + 1 } }
  have hread : readByte r c = tryEmit (r.size + 1 + 1) stored := by
    simp only [readByte, append, dif_neg (Nat.not_le.mpr hlt)]
    rfl
  have hstored : front stored.buffer stored.size = q ++ [c] := by
    show front (r.buffer.set r.size c hlt) (r.size + 1) = _
    rw [front_push, htext]
  rw [hread]
  rcases hphase with ⟨hshort, hhave⟩ | ⟨hlong, hhave, hp, hopen, hexp⟩
  · by_cases hfull : q.length + 1 = options.headerSize
    · exact tryEmit_header hu (b := r) (r := stored) hopt hstored (by show r.size + 1 = _; omega)
        hhave rfl rfl hshort _
    · have hrun : tryEmit (r.size + 1 + 1) stored = (stored, []) := by
        rw [tryEmit, if_pos]
        show r.size + 1 < r.options.headerSize
        rw [hopt]
        omega
      have hfits := hu.fits
      rw [hrun]
      refine .extend ⟨hopt, hstored, show r.size + 1 < N by omega, Or.inl ⟨?_, hhave⟩⟩ ?_
        (by simp) rfl rfl
      · simp
        omega
      · rw [parse_short hshort, parse_short (by simp; omega)]
        rfl
  · exact tryEmit_payload hu (b := r) (r := stored) hopt hstored (show r.size + 1 ≤ N by omega)
      hhave rfl rfl hlong hp hopen hexp _

/-! ## Runs -/

/-- **The run lemma**: reading `bytes` inside the open frame `q`. -/
theorem readBytes_open (hu : Usable N options f) (bytes : List UInt8)
    {r : HeaderPayloadProtocolReader N} {q : List UInt8} (h : Open options f r q) :
    (∃ q', Open options f (readBytes r bytes).1 q')
      ∧ parse options.headerSize options.maxPayloadSize f q ++ (readBytes r bytes).2
          = parse options.headerSize options.maxPayloadSize f (q ++ bytes)
      ∧ (readBytes r bytes).1.stats.protocolErrors = r.stats.protocolErrors
          + UInt32.ofNat ((readBytes r bytes).2.count .protocolError)
      ∧ (readBytes r bytes).1.stats.overflows = r.stats.overflows := by
  induction bytes generalizing r q with
  | nil => exact ⟨⟨q, h⟩, by simp [readBytes], by simp [readBytes], rfl⟩
  | cons c bytes ih =>
      simp only [readBytes]
      rw [show q ++ c :: bytes = q ++ [c] ++ bytes by simp, List.count_append]
      cases readByte_open hu h c with
      | extend hopen hout hnone herr hover =>
          obtain ⟨hq', hparse, herrs, hovers⟩ := ih hopen
          refine ⟨hq', ?_, ?_, by rw [hovers, hover]⟩
          · rw [← List.append_assoc, hout, hparse]
          · rw [herrs, herr, List.count_eq_zero_of_not_mem hnone, Nat.zero_add]
      | close hopen hout herr hover =>
          obtain ⟨hq', hparse, herrs, hovers⟩ := ih hopen
          rw [parse_short hu.header_pos, List.nil_append, List.nil_append] at hparse
          refine ⟨hq', ?_, ?_, by rw [hovers, hover]⟩
          · rw [← List.append_assoc, hparse, hout]
          · rw [herrs, herr, UInt32.ofNat_add, UInt32.add_assoc]

theorem readBytes_append (r : HeaderPayloadProtocolReader N) (xs ys : List UInt8) :
    readBytes r (xs ++ ys)
      = ((readBytes (readBytes r xs).1 ys).1,
        (readBytes r xs).2 ++ (readBytes (readBytes r xs).1 ys).2) := by
  induction xs generalizing r with
  | nil => simp [readBytes]
  | cons x xs ih => simp [readBytes, ih]

theorem Usable.validOptions (hu : Usable N options f) {r : HeaderPayloadProtocolReader N}
    (hopt : r.options = options) : validOptions r = true := by
  obtain ⟨hpos, hfits, hasks, hmod⟩ := hu
  have hwrap : (options.headerSize + options.maxPayloadSize) % sizeModulus
      = options.headerSize + options.maxPayloadSize := Nat.mod_eq_of_lt (by omega)
  simp only [HeaderPayloadProtocolReader.validOptions, hopt, hasks, hwrap, Bool.and_eq_true,
    decide_eq_true_eq, Option.isSome_some, and_true, ne_eq]
  omega

/-- How the bytes are cut into arrivals makes no difference. -/
theorem pollAll_open (hu : Usable N options f) (arrivals : List (List UInt8))
    {r : HeaderPayloadProtocolReader N} {q : List UInt8} (h : Open options f r q) :
    pollAll r arrivals = readBytes r arrivals.flatten := by
  induction arrivals generalizing r q with
  | nil => simp [pollAll, readBytes]
  | cons arrival arrivals ih =>
      have hpoll : poll r arrival = readBytes r arrival := by
        rw [poll, if_pos (hu.validOptions h.options_eq)]
      obtain ⟨⟨q', hq'⟩, -⟩ := readBytes_open hu arrival h
      simp only [pollAll, hpoll, ih hq', List.flatten_cons, readBytes_append]

/-- **The complete input/output law of `HeaderPayloadProtocolReader`.** For
options it can work with, what the reader does to the outside is the
reference parse of the bytes, however they arrive: the same frames, the
same errors, one call of the size function for each completed header. The
error counter is the number of errors modulo 2^32, nothing overflows, and
the index is inside the buffer before each byte is stored. -/
theorem header_payload_law (N : Nat) (options : HeaderPayloadProtocolOptions)
    (f : List UInt8 → UInt64) (hu : Usable N options f) (arrivals : List (List UInt8)) :
    let bytes := arrivals.flatten
    let expected := parse options.headerSize options.maxPayloadSize f bytes
    let out := pollAll (fresh N options) arrivals
    out.2 = expected
      ∧ out.1.stats.protocolErrors.toNat = expected.count .protocolError % 2 ^ 32
      ∧ out.1.stats.overflows = 0
      ∧ ∀ k, (readBytes (fresh N options) (bytes.take k)).1.size < N := by
  intro bytes expected out
  have hfresh := fresh_open hu
  have hout : out = readBytes (fresh N options) bytes := pollAll_open hu arrivals hfresh
  obtain ⟨-, hparse, herr, hover⟩ := readBytes_open hu bytes hfresh
  rw [parse_short hu.header_pos, List.nil_append, List.nil_append] at hparse
  refine ⟨by rw [hout, hparse], ?_, by rw [hout, hover]; rfl, ?_⟩
  · rw [hout, herr, hparse]
    simp [fresh, expected]
  · intro k
    obtain ⟨⟨q', hq'⟩, -⟩ := readBytes_open hu (bytes.take k) hfresh
    exact hq'.size_lt

/-- A one-byte header that holds the payload size. -/
theorem header_payload_law_one_byte :
    (pollAll (fresh 16 ⟨1, 8, some fun header => (header.headD 0).toUInt64⟩)
        [[2, 111], [107, 3, 121, 101, 115, 200]]).2
      = [.asked [2], .frame [2, 111, 107], .asked [3], .frame [3, 121, 101, 115],
          .asked [200], .protocolError] := by
  rw [(header_payload_law 16 ⟨1, 8, some fun header => (header.headD 0).toUInt64⟩
    (fun header => (header.headD 0).toUInt64) ⟨by decide, by decide, rfl, by decide⟩ _).1]
  decide +kernel

end Step

end HeaderPayloadProtocolReader

end AsyncEventLoop
