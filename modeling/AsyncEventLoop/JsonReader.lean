import AsyncEventLoop.JsonGrammar
import AsyncEventLoop.LineReader

/-!
# The JSON text reader

`JsonProtocolReader` frames JSON values without parsing them: a state, a
buffer of the bytes read so far, a stack of the open brackets, and flags
for strings and escapes. `consume` is the code's byte-at-a-time machine
and `poll` its loop over the bytes that are ready.
-/

namespace AsyncEventLoop

open FixedArray JsonGrammar

/-- `JsonProtocolOptions`. -/
structure JsonProtocolOptions where
  skipLeadingWhitespace : Bool := true

/-- The enumeration `State`. -/
inductive JsonState where
  | idle
  | container
  | stringValue
  | numberValue
  | literalValue
  deriving DecidableEq

structure JsonProtocolReader (BufferSize : Nat) where
  options : JsonProtocolOptions
  buffer : Vector UInt8 BufferSize
  stack : Vector UInt8 BufferSize
  size : Nat := 0
  depth : Nat := 0
  inString : Bool := false
  escape : Bool := false
  literal : Option (List UInt8) := none
  literalPos : Nat := 0
  state : JsonState := .idle
  stats : ProtocolReaderStats := {}

/-! ## The number check -/

/-- `valid_number` from behind the fraction on. -/
def validExponent : List UInt8 → Bool
  | [] => true
  | e :: cs =>
      if e = 101 ∨ e = 69 then
        let ds := if cs.head? = some plus ∨ cs.head? = some minus then cs.tail else cs
        match ds with
        | [] => false
        | d :: ds => isDigit d && (ds.dropWhile isDigit).isEmpty
      else false

/-- `valid_number` from behind the integer part on. -/
def validFraction : List UInt8 → Bool
  | [] => validExponent []
  | c :: cs =>
      if c = dot then
        match cs with
        | [] => false
        | d :: ds => isDigit d && validExponent (ds.dropWhile isDigit)
      else validExponent (c :: cs)

/-- `valid_number`. The text from index `i` on stands for the index. -/
def validNumber (text : List UInt8) : Bool :=
  match (if text.head? = some minus then text.tail else text) with
  | [] => false
  | d :: ds =>
      if d = 48 then validFraction ds
      else if isNonzeroDigit d then validFraction (ds.dropWhile isDigit)
      else false

namespace JsonProtocolReader

variable {N : Nat}

def fresh (N : Nat) (options : JsonProtocolOptions) : JsonProtocolReader N :=
  { options := options, buffer := Vector.replicate N 0, stack := Vector.replicate N 0 }

def reset (r : JsonProtocolReader N) : JsonProtocolReader N :=
  { r with
    state := .idle, size := 0, depth := 0, inString := false, escape := false
    literal := none, literalPos := 0 }

def countOverflow (r : JsonProtocolReader N) : JsonProtocolReader N :=
  { r with stats := { r.stats with overflows := r.stats.overflows + 1 } }

def countError (r : JsonProtocolReader N) : JsonProtocolReader N :=
  { r with stats := { r.stats with protocolErrors := r.stats.protocolErrors + 1 } }

def append (r : JsonProtocolReader N) (c : UInt8) : JsonProtocolReader N × Bool :=
  if h : r.size ≥ N then (reset (countOverflow r), false)
  else ({ r with buffer := r.buffer.set r.size c (by omega), size := r.size + 1 }, true)

def pushContainer (r : JsonProtocolReader N) (c : UInt8) : JsonProtocolReader N × Bool :=
  if h : r.depth ≥ N then (reset (countOverflow r), false)
  else ({ r with stack := r.stack.set r.depth c (by omega), depth := r.depth + 1 }, true)

def popContainer (r : JsonProtocolReader N) (c : UInt8) : JsonProtocolReader N × Bool :=
  if r.depth = 0 then (reset (countError r), false)
  else
    let opening := r.stack[r.depth - 1]?.getD 0
    if (opening = lbrace ∧ c ≠ rbrace) ∨ (opening = lbracket ∧ c ≠ rbracket) then
      (reset (countError r), false)
    else ({ r with depth := r.depth - 1 }, true)

/-- `emit_json`: the reader after it, and the text handed to the callback. -/
def emitJson (r : JsonProtocolReader N) : JsonProtocolReader N × List (List UInt8) :=
  (reset { r with stats := { r.stats with messages := r.stats.messages + 1 } },
    [front r.buffer r.size])

/-- `literal_[literal_pos_]`; a zero byte stands behind the text. -/
def literalByte (r : JsonProtocolReader N) : UInt8 :=
  (r.literal.bind fun text => text[r.literalPos]?).getD 0

def consumeLiteralValue (r : JsonProtocolReader N) (c : UInt8) :
    JsonProtocolReader N × List (List UInt8) :=
  if r.literal = none ∨ literalByte r = 0 ∨ literalByte r ≠ c then (reset (countError r), [])
  else
    let a := append r c
    if a.2 then
      let r := { a.1 with literalPos := a.1.literalPos + 1 }
      if literalByte r = 0 then emitJson r else (r, [])
    else (a.1, [])

def startLiteral (r : JsonProtocolReader N) (literal : List UInt8) (first : UInt8) :
    JsonProtocolReader N × List (List UInt8) :=
  consumeLiteralValue
    { r with literal := some literal, literalPos := 0, state := .literalValue } first

def consumeIdle (r : JsonProtocolReader N) (c : UInt8) :
    JsonProtocolReader N × List (List UInt8) :=
  if r.options.skipLeadingWhitespace ∧ isWs c then (r, [])
  else if c = lbrace ∨ c = lbracket then
    let a := append r c
    if a.2 then
      let p := pushContainer a.1 c
      if p.2 then ({ p.1 with state := .container, inString := false, escape := false }, [])
      else (p.1, [])
    else (a.1, [])
  else if c = quote then
    let a := append r c
    if a.2 then ({ a.1 with state := .stringValue, escape := false }, []) else (a.1, [])
  else if c = minus ∨ isDigit c then
    let a := append r c
    if a.2 then ({ a.1 with state := .numberValue }, []) else (a.1, [])
  else if c = 116 then startLiteral r trueText c
  else if c = 102 then startLiteral r falseText c
  else if c = 110 then startLiteral r nullText c
  else (reset (countError r), [])

def consumeContainer (r : JsonProtocolReader N) (c : UInt8) :
    JsonProtocolReader N × List (List UInt8) :=
  let a := append r c
  if a.2 then
    let r := a.1
    if r.inString then
      if r.escape then ({ r with escape := false }, [])
      else if c = backslash then ({ r with escape := true }, [])
      else if c = quote then ({ r with inString := false }, [])
      else (r, [])
    else if c = quote then ({ r with inString := true }, [])
    else if c = lbrace ∨ c = lbracket then ((pushContainer r c).1, [])
    else if c = rbrace ∨ c = rbracket then
      let p := popContainer r c
      if p.2 ∧ p.1.depth = 0 then emitJson p.1 else (p.1, [])
    else (r, [])
  else (a.1, [])

def consumeStringValue (r : JsonProtocolReader N) (c : UInt8) :
    JsonProtocolReader N × List (List UInt8) :=
  let a := append r c
  if a.2 then
    let r := a.1
    if r.escape then ({ r with escape := false }, [])
    else if c = backslash then ({ r with escape := true }, [])
    else if c = quote then emitJson r
    else (r, [])
  else (a.1, [])

/-- `consume_number_value`. It ends in `consume(c)` on a reader that has just
been reset, which is `consume_idle(c)`. -/
def consumeNumberValue (r : JsonProtocolReader N) (c : UInt8) :
    JsonProtocolReader N × List (List UInt8) :=
  if isNumberByte c then ((append r c).1, [])
  else
    let e := if validNumber (front r.buffer r.size) then emitJson r
      else (reset (countError r), [])
    let rest := consumeIdle e.1 c
    (rest.1, e.2 ++ rest.2)

def consume (r : JsonProtocolReader N) (c : UInt8) :
    JsonProtocolReader N × List (List UInt8) :=
  match r.state with
  | .idle => consumeIdle r c
  | .container => consumeContainer r c
  | .stringValue => consumeStringValue r c
  | .numberValue => consumeNumberValue r c
  | .literalValue => consumeLiteralValue r c

def countByte (r : JsonProtocolReader N) : JsonProtocolReader N :=
  { r with stats := { r.stats with bytes := r.stats.bytes + 1 } }

/-- One turn of the loop in `poll`. -/
def readByte (r : JsonProtocolReader N) (byte : UInt8) :
    JsonProtocolReader N × List (List UInt8) :=
  consume (countByte r) byte

/-- `poll` on a stream that has `bytes` ready. -/
def poll (r : JsonProtocolReader N) : List UInt8 → JsonProtocolReader N × List (List UInt8)
  | [] => (r, [])
  | byte :: bytes =>
      let step := readByte r byte
      let rest := poll step.1 bytes
      (rest.1, step.2 ++ rest.2)

/-- One `poll` for each arrival. -/
def pollAll (r : JsonProtocolReader N) :
    List (List UInt8) → JsonProtocolReader N × List (List UInt8)
  | [] => (r, [])
  | arrival :: arrivals =>
      let first := poll r arrival
      let rest := pollAll first.1 arrivals
      (rest.1, first.2 ++ rest.2)

theorem poll_append (r : JsonProtocolReader N) (xs ys : List UInt8) :
    poll r (xs ++ ys)
      = ((poll (poll r xs).1 ys).1, (poll r xs).2 ++ (poll (poll r xs).1 ys).2) := by
  induction xs generalizing r with
  | nil => rfl
  | cons x xs ih =>
      simp only [List.cons_append, poll, ih, List.append_assoc]

/-- The split into arrivals does not matter. -/
theorem pollAll_eq_poll (r : JsonProtocolReader N) (arrivals : List (List UInt8)) :
    pollAll r arrivals = poll r arrivals.flatten := by
  induction arrivals generalizing r with
  | nil => rfl
  | cons arrival arrivals ih =>
      rw [List.flatten_cons, poll_append, pollAll, ih]

end JsonProtocolReader

end AsyncEventLoop
