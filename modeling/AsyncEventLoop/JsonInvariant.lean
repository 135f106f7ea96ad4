import Mathlib.Data.List.Induction
import AsyncEventLoop.JsonFraming

/-!
# The JSON reader's invariant

What the fields of `JsonProtocolReader` mean in each of its states, for
bytes of any kind: the text in the buffer determines the rest. `JsonScan` is
the lexer of objects and arrays, run over that text from its beginning; it
refuses a bracket that closes no matching one.

`consumeChecked` is the machine with its assertions: it is `none` where a
bracket overflows the stack or closes nothing, and where an index is outside
its array. It agrees with the machine on every stream.
-/

namespace AsyncEventLoop

open FixedArray JsonGrammar

/-! ## Lexing what is in the buffer -/

/-- The brackets that are open, the outermost first, and the flags for strings. -/
structure JsonScan where
  opened : List UInt8 := []
  inString : Bool := false
  escape : Bool := false
  deriving DecidableEq

namespace JsonScan

def next (s : JsonScan) (c : UInt8) : Option JsonScan :=
  if s.inString then
    some (if s.escape then { s with escape := false }
      else if c = backslash then { s with escape := true }
      else if c = quote then { s with inString := false }
      else s)
  else if c = quote then some { s with inString := true }
  else if c = lbrace ∨ c = lbracket then some { s with opened := s.opened ++ [c] }
  else if c = rbrace then
    if s.opened.getLast? = some lbrace then some { s with opened := s.opened.dropLast } else none
  else if c = rbracket then
    if s.opened.getLast? = some lbracket then some { s with opened := s.opened.dropLast }
    else none
  else some s

def scan (text : List UInt8) : Option JsonScan := text.foldlM next {}

theorem scan_snoc {text : List UInt8} {s : JsonScan} (h : scan text = some s) (c : UInt8) :
    scan (text ++ [c]) = s.next c := by
  rw [scan, List.foldlM_append, ← scan, h]
  simp

/-- A text of one opening bracket. -/
theorem scan_open {c : UInt8} (hc : c = lbrace ∨ c = lbracket) :
    scan [c] = some ⟨[c], false, false⟩ := by
  rcases hc with rfl | rfl <;> rfl

theorem next_close {s : JsonScan} {opened : List UInt8} {o c : UInt8}
    (hm : JsonProtocolReader.Matching o c) (hin : s.inString = false)
    (hopened : s.opened = opened ++ [o]) : s.next c = some { s with opened := opened } := by
  have hlast : s.opened.getLast? = some o ∧ s.opened.dropLast = opened := by
    simp [hopened]
  obtain ⟨hquote, hbracket, -⟩ := hm.closing
  unfold next
  rw [if_neg (by simp [hin]), if_neg hquote, if_neg hbracket, hlast.1, hlast.2]
  rcases hm with ⟨rfl, rfl⟩ | ⟨rfl, rfl⟩ <;> rfl

/-- What is open are brackets. -/
theorem scan_opened {text : List UInt8} {s : JsonScan} (h : scan text = some s) :
    ∀ c ∈ s.opened, c = lbrace ∨ c = lbracket := by
  induction text using List.reverseRecOn generalizing s with
  | nil =>
      obtain rfl := Option.some.inj h
      exact List.forall_mem_nil _
  | append_singleton text b ih =>
      rw [scan, List.foldlM_append, ← scan] at h
      obtain ⟨t, ht, hb⟩ := Option.bind_eq_some_iff.mp h
      have hold := ih ht
      have hnext : t.next b = some s := by simpa using hb
      have hsub : ∀ c ∈ t.opened.dropLast, c = lbrace ∨ c = lbracket :=
        fun c hc => hold c (List.dropLast_subset _ hc)
      unfold next at hnext
      split at hnext
      · obtain rfl := Option.some.inj hnext
        split_ifs <;> exact hold
      · split_ifs at hnext with hquote hopen hbrace hmatch hbracket hmatch
        · exact Option.some.inj hnext ▸ hold
        · obtain rfl := Option.some.inj hnext
          exact List.forall_mem_append.mpr ⟨hold, List.forall_mem_singleton.mpr hopen⟩
        · exact Option.some.inj hnext ▸ hsub
        · exact Option.some.inj hnext ▸ hsub
        · exact Option.some.inj hnext ▸ hold

end JsonScan

/-- The lexer inside a string, with the flag for escapes; none behind its end. -/
def stringNext (escape : Bool) (c : UInt8) : Option Bool :=
  if escape then some false
  else if c = backslash then some true
  else if c = quote then none
  else some false

/-- A string that begins and does not end, and whether its last byte escapes the
next. -/
def UnterminatedString (text : List UInt8) (escape : Bool) : Prop :=
  ∃ chars, text = quote :: chars ∧ chars.foldlM stringNext false = some escape

theorem UnterminatedString.snoc {text : List UInt8} {escape escape' : Bool} {c : UInt8}
    (h : UnterminatedString text escape) (hc : stringNext escape c = some escape') :
    UnterminatedString (text ++ [c]) escape' := by
  obtain ⟨chars, rfl, hchars⟩ := h
  refine ⟨chars ++ [c], rfl, ?_⟩
  rw [List.foldlM_append, hchars]
  simpa using hc

namespace JsonProtocolReader

variable {N : Nat}

/-! ## The invariant -/

/-- The text in the buffer. -/
def text (r : JsonProtocolReader N) : List UInt8 := front r.buffer r.size

/-- What the state says about the other fields. -/
def StateInv (r : JsonProtocolReader N) : Prop :=
  match r.state with
  | .idle => r.size = 0 ∧ r.depth = 0
  | .container => 1 ≤ r.depth ∧ r.depth ≤ r.size
      ∧ JsonScan.scan r.text = some ⟨front r.stack r.depth, r.inString, r.escape⟩
  | .stringValue => UnterminatedString r.text r.escape
  | .numberValue => r.text ≠ [] ∧ ∀ c ∈ r.text, isNumberByte c = true
  | .literalValue => ∃ literal, r.literal = some literal ∧ r.literalPos < literal.length
      ∧ r.text = literal.take r.literalPos

structure Inv (r : JsonProtocolReader N) : Prop where
  size_le : r.size ≤ N
  state : StateInv r

/-! ## The machine with its assertions -/

def pushContainerChecked (r : JsonProtocolReader N) (c : UInt8) :
    Option (JsonProtocolReader N × Bool) :=
  if r.depth ≥ N then none else some (pushContainer r c)

def popContainerChecked (r : JsonProtocolReader N) (c : UInt8) :
    Option (JsonProtocolReader N × Bool) :=
  if r.depth = 0 ∨ r.depth > N then none else some (popContainer r c)

def emitJsonChecked (r : JsonProtocolReader N) :
    Option (JsonProtocolReader N × List (List UInt8)) :=
  if r.size > N then none else some (emitJson r)

/-- `literal_[literal_pos_]`; the zero byte behind the text belongs to the array. -/
def literalByteChecked (r : JsonProtocolReader N) : Option UInt8 :=
  if r.literal.all fun text => r.literalPos ≤ text.length then some (literalByte r) else none

def validNumberChecked (r : JsonProtocolReader N) : Option Bool :=
  if r.size > N then none else some (validNumber (front r.buffer r.size))

def consumeLiteralValueChecked (r : JsonProtocolReader N) (c : UInt8) :
    Option (JsonProtocolReader N × List (List UInt8)) :=
  (literalByteChecked r).bind fun byte =>
    if r.literal = none ∨ byte = 0 ∨ byte ≠ c then some (reset (countError r), [])
    else
      let a := append r c
      if a.2 then
        let r := { a.1 with literalPos := a.1.literalPos + 1 }
        (literalByteChecked r).bind fun byte =>
          if byte = 0 then emitJsonChecked r else some (r, [])
      else some (a.1, [])

def startLiteralChecked (r : JsonProtocolReader N) (literal : List UInt8) (first : UInt8) :
    Option (JsonProtocolReader N × List (List UInt8)) :=
  consumeLiteralValueChecked
    { r with literal := some literal, literalPos := 0, state := .literalValue } first

def consumeIdleChecked (r : JsonProtocolReader N) (c : UInt8) :
    Option (JsonProtocolReader N × List (List UInt8)) :=
  if r.options.skipLeadingWhitespace ∧ isWs c then some (r, [])
  else if c = lbrace ∨ c = lbracket then
    let a := append r c
    if a.2 then
      (pushContainerChecked a.1 c).map fun p =>
        if p.2 then ({ p.1 with state := .container, inString := false, escape := false }, [])
        else (p.1, [])
    else some (a.1, [])
  else if c = quote then
    let a := append r c
    if a.2 then some ({ a.1 with state := .stringValue, escape := false }, [])
    else some (a.1, [])
  else if c = minus ∨ isDigit c then
    let a := append r c
    if a.2 then some ({ a.1 with state := .numberValue }, []) else some (a.1, [])
  else if c = 116 then startLiteralChecked r trueText c
  else if c = 102 then startLiteralChecked r falseText c
  else if c = 110 then startLiteralChecked r nullText c
  else some (reset (countError r), [])

def consumeContainerChecked (r : JsonProtocolReader N) (c : UInt8) :
    Option (JsonProtocolReader N × List (List UInt8)) :=
  let a := append r c
  if a.2 then
    let r := a.1
    if r.inString then
      if r.escape then some ({ r with escape := false }, [])
      else if c = backslash then some ({ r with escape := true }, [])
      else if c = quote then some ({ r with inString := false }, [])
      else some (r, [])
    else if c = quote then some ({ r with inString := true }, [])
    else if c = lbrace ∨ c = lbracket then (pushContainerChecked r c).map fun p => (p.1, [])
    else if c = rbrace ∨ c = rbracket then
      (popContainerChecked r c).bind fun p =>
        if p.2 ∧ p.1.depth = 0 then emitJsonChecked p.1 else some (p.1, [])
    else some (r, [])
  else some (a.1, [])

def consumeStringValueChecked (r : JsonProtocolReader N) (c : UInt8) :
    Option (JsonProtocolReader N × List (List UInt8)) :=
  let a := append r c
  if a.2 then
    let r := a.1
    if r.escape then some ({ r with escape := false }, [])
    else if c = backslash then some ({ r with escape := true }, [])
    else if c = quote then emitJsonChecked r
    else some (r, [])
  else some (a.1, [])

def consumeNumberValueChecked (r : JsonProtocolReader N) (c : UInt8) :
    Option (JsonProtocolReader N × List (List UInt8)) :=
  if isNumberByte c then some ((append r c).1, [])
  else
    (validNumberChecked r).bind fun valid =>
      (if valid then emitJsonChecked r else some (reset (countError r), [])).bind fun e =>
        (consumeIdleChecked e.1 c).map fun rest => (rest.1, e.2 ++ rest.2)

def consumeChecked (r : JsonProtocolReader N) (c : UInt8) :
    Option (JsonProtocolReader N × List (List UInt8)) :=
  match r.state with
  | .idle => consumeIdleChecked r c
  | .container => consumeContainerChecked r c
  | .stringValue => consumeStringValueChecked r c
  | .numberValue => consumeNumberValueChecked r c
  | .literalValue => consumeLiteralValueChecked r c

def pollChecked (r : JsonProtocolReader N) :
    List UInt8 → Option (JsonProtocolReader N × List (List UInt8))
  | [] => some (r, [])
  | byte :: bytes =>
      (consumeChecked (countByte r) byte).bind fun step =>
        (pollChecked step.1 bytes).map fun rest => (rest.1, step.2 ++ rest.2)

/-! ## One byte -/

/-- The checked machine gets through, and the invariant holds behind it. -/
def Fine (checked : Option (JsonProtocolReader N × List (List UInt8)))
    (plain : JsonProtocolReader N × List (List UInt8)) : Prop :=
  checked = some plain ∧ Inv plain.1

theorem inv_reset (r : JsonProtocolReader N) : Inv (reset r) :=
  ⟨Nat.zero_le N, rfl, rfl⟩

theorem fine_reset (r : JsonProtocolReader N) (out : List (List UInt8)) :
    Fine (some (reset r, out)) (reset r, out) :=
  ⟨rfl, inv_reset r⟩

theorem fine_emit {r : JsonProtocolReader N} (h : r.size ≤ N) :
    Fine (emitJsonChecked r) (emitJson r) :=
  ⟨if_neg (Nat.not_lt.mpr h), inv_reset _⟩

/-- The reader behind a byte that fits. -/
def put (r : JsonProtocolReader N) (c : UInt8) (h : r.size < N) : JsonProtocolReader N :=
  { r with buffer := r.buffer.set r.size c h, size := r.size + 1 }

theorem put_text (r : JsonProtocolReader N) (c : UInt8) (h : r.size < N) :
    (r.put c h).text = r.text ++ [c] :=
  front_push r.buffer h c

theorem append_put {r : JsonProtocolReader N} (c : UInt8) (h : r.size < N) :
    append r c = (r.put c h, true) :=
  dif_neg (Nat.not_le.mpr h)

theorem append_none {r : JsonProtocolReader N} (c : UInt8) (h : ¬r.size < N) :
    append r c = (reset (countOverflow r), false) :=
  dif_pos (Nat.le_of_not_lt h)

theorem pushContainer_eq {r : JsonProtocolReader N} {c : UInt8} (hroom : r.depth < N) :
    pushContainer r c
      = ({ r with stack := r.stack.set r.depth c hroom, depth := r.depth + 1 }, true) :=
  dif_neg (Nat.not_le.mpr hroom)

theorem pushContainerChecked_eq {r : JsonProtocolReader N} {c : UInt8} (hroom : r.depth < N) :
    pushContainerChecked r c = some (pushContainer r c) :=
  if_neg (Nat.not_le.mpr hroom)

theorem literalByteChecked_eq {r : JsonProtocolReader N} {literal : List UInt8}
    (hliteral : r.literal = some literal) (hpos : r.literalPos ≤ literal.length) :
    literalByteChecked r = some (literalByte r)
      ∧ literalByte r = (literal[r.literalPos]?).getD 0 := by
  unfold literalByteChecked literalByte
  rw [hliteral]
  exact ⟨if_pos (by simpa using hpos), rfl⟩

theorem literal_fine {r : JsonProtocolReader N} (hstate : r.state = .literalValue)
    (h : StateInv r) (c : UInt8) :
    Fine (consumeLiteralValueChecked r c) (consumeLiteralValue r c) := by
  rw [StateInv, hstate] at h
  obtain ⟨literal, hliteral, hpos, htext⟩ := h
  obtain ⟨hread, hbyte⟩ := literalByteChecked_eq hliteral (Nat.le_of_lt hpos)
  unfold consumeLiteralValueChecked consumeLiteralValue
  rw [hread, Option.bind_some]
  split
  · exact fine_reset _ _
  · rename_i hmatch
    have hc : literalByte r = c := by
      by_contra hne
      exact hmatch (Or.inr (Or.inr hne))
    rw [List.getElem?_eq_getElem hpos, Option.getD_some, hc] at hbyte
    by_cases hfits : r.size < N
    · rw [append_put c hfits]
      dsimp only
      rw [if_pos rfl, if_pos rfl]
      -- the reader behind the byte of the literal
      obtain ⟨hread', hbyte'⟩ := literalByteChecked_eq
        (r := { r.put c hfits with literalPos := r.literalPos + 1 }) hliteral hpos
      have hput : (r.put c hfits).literalPos = r.literalPos := rfl
      rw [hput, hread', Option.bind_some]
      split
      · exact fine_emit hfits
      · rename_i hmore
        refine ⟨rfl, hfits, ?_⟩
        have hlt : r.literalPos + 1 < literal.length := by
          by_contra hend
          rw [List.getElem?_eq_none (Nat.le_of_not_lt hend), Option.getD_none] at hbyte'
          exact hmore hbyte'
        have hput : ({ r.put c hfits with literalPos := r.literalPos + 1 } :
            JsonProtocolReader N).state = .literalValue := hstate
        rw [StateInv, hput]
        refine ⟨literal, hliteral, hlt, ?_⟩
        change (r.put c hfits).text = _
        rw [put_text, htext, List.take_add_one, List.getElem?_eq_getElem hpos, ← hbyte]
        rfl
    · rw [append_none c hfits]
      exact fine_reset _ _

theorem start_literal_fine {r : JsonProtocolReader N} (hsize : r.size = 0) {literal : List UInt8}
    (hne : literal ≠ []) (c : UInt8) :
    Fine (startLiteralChecked r literal c) (startLiteral r literal c) := by
  have hinv : StateInv
      { r with literal := some literal, literalPos := 0, state := .literalValue } := by
    refine ⟨literal, rfl, List.length_pos_iff.mpr hne, ?_⟩
    change front r.buffer r.size = _
    rw [hsize, front_zero, List.take_zero]
  exact literal_fine rfl hinv c

theorem idle_fine {r : JsonProtocolReader N} (hsize : r.size = 0) (hdepth : r.depth = 0)
    (hstate : r.state = .idle) (c : UInt8) :
    Fine (consumeIdleChecked r c) (consumeIdle r c) := by
  have htext : r.text = [] := by
    rw [text, hsize, front_zero]
  unfold consumeIdleChecked consumeIdle
  by_cases hskip : r.options.skipLeadingWhitespace = true ∧ isWs c = true
  · rw [if_pos hskip, if_pos hskip]
    refine ⟨rfl, by simp [hsize], ?_⟩
    rw [StateInv, hstate]
    exact ⟨hsize, hdepth⟩
  rw [if_neg hskip, if_neg hskip]
  by_cases hbracket : c = lbrace ∨ c = lbracket
  · rw [if_pos hbracket, if_pos hbracket]
    by_cases hfits : r.size < N
    · have hroom : (r.put c hfits).depth < N := by
        change r.depth < N
        omega
      rw [append_put c hfits]
      dsimp only
      rw [if_pos rfl, if_pos rfl, pushContainerChecked_eq hroom, Option.map_some,
        pushContainer_eq hroom]
      refine ⟨rfl, hfits, Nat.succ_pos _, ?_, ?_⟩
      · change r.depth + 1 ≤ r.size + 1
        omega
      · have hfront : front (r.stack.set r.depth c hroom) (r.depth + 1)
            = front r.stack r.depth ++ [c] := front_push r.stack hroom c
        have hbefore : front r.stack r.depth = [] := by
          rw [hdepth, front_zero]
        change JsonScan.scan (r.put c hfits).text
          = some ⟨front (r.stack.set r.depth c hroom) (r.depth + 1), false, false⟩
        rw [put_text, htext, hfront, hbefore]
        exact JsonScan.scan_open hbracket
    · rw [append_none c hfits]
      exact fine_reset _ _
  rw [if_neg hbracket, if_neg hbracket]
  by_cases hquote : c = quote
  · rw [if_pos hquote, if_pos hquote]
    by_cases hfits : r.size < N
    · rw [append_put c hfits]
      refine ⟨rfl, hfits, [], ?_, rfl⟩
      change (r.put c hfits).text = _
      rw [put_text, htext, hquote]
      rfl
    · rw [append_none c hfits]
      exact fine_reset _ _
  rw [if_neg hquote, if_neg hquote]
  by_cases hnumber : c = minus ∨ isDigit c = true
  · rw [if_pos hnumber, if_pos hnumber]
    by_cases hfits : r.size < N
    · rw [append_put c hfits]
      refine ⟨rfl, hfits, ?_⟩
      change (r.put c hfits).text ≠ [] ∧ ∀ b ∈ (r.put c hfits).text, _
      rw [put_text, htext]
      refine ⟨by simp, ?_⟩
      intro b hb
      obtain rfl := List.mem_singleton.mp hb
      rcases hnumber with rfl | hdigit
      · rfl
      · simp [isNumberByte, hdigit]
    · rw [append_none c hfits]
      exact fine_reset _ _
  rw [if_neg hnumber, if_neg hnumber]
  split
  · exact start_literal_fine hsize (List.cons_ne_nil _ _) c
  · split
    · exact start_literal_fine hsize (List.cons_ne_nil _ _) c
    · split
      · exact start_literal_fine hsize (List.cons_ne_nil _ _) c
      · exact fine_reset _ _

theorem inv_container {r : JsonProtocolReader N} (hsize : r.size ≤ N)
    (hstate : r.state = .container) (hpos : 1 ≤ r.depth) (hdepth : r.depth ≤ r.size)
    (hscan : JsonScan.scan r.text = some ⟨front r.stack r.depth, r.inString, r.escape⟩) :
    Inv r := by
  refine ⟨hsize, ?_⟩
  rw [StateInv, hstate]
  exact ⟨hpos, hdepth, hscan⟩

/-- In a container, behind the byte `c`, which the lexer has not seen yet. -/
structure Behind (r : JsonProtocolReader N) (c : UInt8) : Prop where
  size_le : r.size ≤ N
  state : r.state = .container
  depth_pos : 1 ≤ r.depth
  depth_lt : r.depth < r.size
  scan : JsonScan.scan r.text
    = JsonScan.next ⟨front r.stack r.depth, r.inString, r.escape⟩ c
  opened : ∀ o ∈ front r.stack r.depth, o = lbrace ∨ o = lbracket

namespace Behind

variable {r : JsonProtocolReader N} {c : UInt8}

/-- A byte that leaves the brackets as they are. -/
theorem flags (h : Behind r c) {inString escape : Bool}
    (hnext : JsonScan.next ⟨front r.stack r.depth, r.inString, r.escape⟩ c
      = some ⟨front r.stack r.depth, inString, escape⟩) :
    Inv { r with inString := inString, escape := escape } :=
  inv_container h.size_le h.state h.depth_pos (Nat.le_of_lt h.depth_lt) (h.scan.trans hnext)

theorem depth_le (h : Behind r c) : r.depth ≤ N :=
  Nat.le_trans (Nat.le_of_lt h.depth_lt) h.size_le

/-- The bracket on top of the stack. -/
theorem top (h : Behind r c) :
    ∃ o, front r.stack r.depth = (front r.stack r.depth).dropLast ++ [o]
      ∧ (o = lbrace ∨ o = lbracket) := by
  have hne : front r.stack r.depth ≠ [] := by
    intro hnil
    have hlen := length_front r.stack h.depth_le
    rw [hnil, List.length_nil] at hlen
    have hpos := h.depth_pos
    omega
  exact ⟨(front r.stack r.depth).getLast hne, (List.dropLast_append_getLast hne).symm,
    h.opened _ (List.getLast_mem hne)⟩

theorem push_fine (h : Behind r c) (hin : r.inString = false) (hquote : c ≠ quote)
    (hc : c = lbrace ∨ c = lbracket) :
    Fine ((pushContainerChecked r c).map fun p => (p.1, [])) ((pushContainer r c).1, []) := by
  have hroom : r.depth < N := Nat.lt_of_lt_of_le h.depth_lt h.size_le
  rw [pushContainerChecked_eq hroom, Option.map_some, pushContainer_eq hroom]
  refine ⟨rfl, inv_container h.size_le h.state (Nat.succ_pos _) h.depth_lt ?_⟩
  refine h.scan.trans ?_
  simp [JsonScan.next, hin, hquote, hc, front_push]

theorem pop_fine (h : Behind r c) (hin : r.inString = false) :
    Fine ((popContainerChecked r c).bind fun p =>
        if p.2 ∧ p.1.depth = 0 then emitJsonChecked p.1 else some (p.1, []))
      (if (popContainer r c).2 ∧ (popContainer r c).1.depth = 0 then emitJson (popContainer r c).1
        else ((popContainer r c).1, [])) := by
  obtain ⟨o, hopen, ho⟩ := h.top
  have hdepth : r.depth ≠ 0 := Nat.ne_of_gt h.depth_pos
  have hinside : ¬(r.depth = 0 ∨ r.depth > N) := by
    have := h.depth_le
    omega
  rw [popContainerChecked, if_neg hinside, Option.bind_some]
  by_cases hm : Matching o c
  · obtain ⟨hpop, -, hrest⟩ := popContainer_matching hm h.depth_le hopen
    rw [hpop]
    by_cases hlast : r.depth - 1 = 0
    · rw [if_pos ⟨rfl, hlast⟩, if_pos ⟨rfl, hlast⟩]
      exact fine_emit h.size_le
    · rw [if_neg fun h => hlast h.2, if_neg fun h => hlast h.2]
      refine ⟨rfl, inv_container h.size_le h.state (Nat.pos_of_ne_zero hlast)
        (Nat.le_trans (Nat.sub_le ..) (Nat.le_of_lt h.depth_lt)) ?_⟩
      rw [hrest]
      exact h.scan.trans (JsonScan.next_close hm hin hopen)
  · have hpop := popContainer_mismatch ho hm h.depth_le hopen
    rw [hpop, if_neg fun h => Bool.false_ne_true h.1, if_neg fun h => Bool.false_ne_true h.1]
    exact fine_reset _ _

end Behind

theorem behind_put {r : JsonProtocolReader N} (hstate : r.state = .container) (h : StateInv r)
    (c : UInt8) (hfits : r.size < N) : Behind (r.put c hfits) c := by
  rw [StateInv, hstate] at h
  obtain ⟨hpos, hdepth, hscan⟩ := h
  refine ⟨hfits, hstate, hpos, Nat.lt_succ_of_le hdepth, ?_, JsonScan.scan_opened hscan⟩
  rw [put_text, JsonScan.scan_snoc hscan]
  rfl

theorem container_fine {r : JsonProtocolReader N} (hstate : r.state = .container)
    (h : StateInv r) (c : UInt8) :
    Fine (consumeContainerChecked r c) (consumeContainer r c) := by
  unfold consumeContainerChecked consumeContainer
  by_cases hfits : r.size < N
  · have hbehind := behind_put hstate h c hfits
    rw [append_put c hfits]
    dsimp only
    rw [if_pos rfl, if_pos rfl]
    generalize r.put c hfits = r at hbehind ⊢
    by_cases hin : r.inString = true
    · rw [if_pos hin, if_pos hin]
      by_cases hescape : r.escape = true
      · rw [if_pos hescape, if_pos hescape]
        exact ⟨rfl, hbehind.flags (by simp [JsonScan.next, hin, hescape])⟩
      · rw [if_neg hescape, if_neg hescape]
        by_cases hback : c = backslash
        · rw [if_pos hback, if_pos hback]
          exact ⟨rfl, hbehind.flags (by simp [JsonScan.next, hin, hescape, hback])⟩
        · rw [if_neg hback, if_neg hback]
          by_cases hquote : c = quote
          · rw [if_pos hquote, if_pos hquote]
            exact ⟨rfl, hbehind.flags (by simp [JsonScan.next, hin, hescape, hquote])⟩
          · rw [if_neg hquote, if_neg hquote]
            exact ⟨rfl, hbehind.flags (by simp [JsonScan.next, hin, hescape, hback, hquote])⟩
    · rw [if_neg hin, if_neg hin]
      have hout : r.inString = false := Bool.eq_false_iff.mpr hin
      by_cases hquote : c = quote
      · rw [if_pos hquote, if_pos hquote]
        exact ⟨rfl, hbehind.flags (by simp [JsonScan.next, hin, hquote])⟩
      · rw [if_neg hquote, if_neg hquote]
        by_cases hopen : c = lbrace ∨ c = lbracket
        · rw [if_pos hopen, if_pos hopen]
          exact hbehind.push_fine hout hquote hopen
        · rw [if_neg hopen, if_neg hopen]
          by_cases hclose : c = rbrace ∨ c = rbracket
          · rw [if_pos hclose, if_pos hclose]
            exact hbehind.pop_fine hout
          · rw [if_neg hclose, if_neg hclose]
            rw [not_or] at hclose
            exact ⟨rfl, hbehind.flags (by simp [JsonScan.next, hin, hquote, hopen, hclose])⟩
  · rw [append_none c hfits]
    exact fine_reset _ _

theorem string_fine {r : JsonProtocolReader N} (hstate : r.state = .stringValue)
    (h : StateInv r) (c : UInt8) :
    Fine (consumeStringValueChecked r c) (consumeStringValue r c) := by
  rw [StateInv, hstate] at h
  unfold consumeStringValueChecked consumeStringValue
  by_cases hfits : r.size < N
  · -- the byte behind the string, unless it ends it
    have hmore {escape : Bool} (hnext : stringNext r.escape c = some escape) :
        Inv { r.put c hfits with escape := escape } := by
      refine ⟨hfits, ?_⟩
      have hput : ({ r.put c hfits with escape := escape } : JsonProtocolReader N).state
          = .stringValue := hstate
      rw [StateInv, hput]
      change UnterminatedString (r.put c hfits).text escape
      rw [put_text]
      exact h.snoc hnext
    rw [append_put c hfits]
    dsimp only
    rw [if_pos rfl, if_pos rfl]
    by_cases hescape : r.escape = true
    · have hput : (r.put c hfits).escape = true := hescape
      rw [if_pos hput, if_pos hput]
      exact ⟨rfl, hmore (by simp [stringNext, hescape])⟩
    · have hput : ¬(r.put c hfits).escape = true := hescape
      rw [if_neg hput, if_neg hput]
      by_cases hback : c = backslash
      · rw [if_pos hback, if_pos hback]
        exact ⟨rfl, hmore (by simp [stringNext, hescape, hback])⟩
      · rw [if_neg hback, if_neg hback]
        by_cases hquote : c = quote
        · rw [if_pos hquote, if_pos hquote]
          exact fine_emit hfits
        · rw [if_neg hquote, if_neg hquote]
          exact ⟨rfl, hmore (by simp [stringNext, hescape, hback, hquote])⟩
  · rw [append_none c hfits]
    exact fine_reset _ _

theorem number_fine {r : JsonProtocolReader N} (hsize : r.size ≤ N)
    (hstate : r.state = .numberValue) (h : StateInv r) (c : UInt8) :
    Fine (consumeNumberValueChecked r c) (consumeNumberValue r c) := by
  rw [StateInv, hstate] at h
  unfold consumeNumberValueChecked consumeNumberValue
  by_cases hnumber : isNumberByte c = true
  · rw [if_pos hnumber, if_pos hnumber]
    by_cases hfits : r.size < N
    · rw [append_put c hfits]
      refine ⟨rfl, hfits, ?_⟩
      have hput : (r.put c hfits).state = .numberValue := hstate
      rw [StateInv, hput]
      refine ⟨?_, ?_⟩ <;> rw [put_text]
      · exact List.append_ne_nil_of_right_ne_nil _ (List.cons_ne_nil _ _)
      · exact List.forall_mem_append.mpr ⟨h.2, List.forall_mem_singleton.mpr hnumber⟩
    · rw [append_none c hfits]
      exact fine_reset _ _
  · rw [if_neg hnumber, if_neg hnumber, validNumberChecked, if_neg (Nat.not_lt.mpr hsize),
      Option.bind_some]
    -- the byte behind the number meets a reader that has been reset
    have hrest (r : JsonProtocolReader N) (out : List (List UInt8)) :
        Fine ((consumeIdleChecked (reset r) c).map fun rest => (rest.1, out ++ rest.2))
          ((consumeIdle (reset r) c).1, out ++ (consumeIdle (reset r) c).2) := by
      obtain ⟨hidle, hinv⟩ := idle_fine (r := reset r) rfl rfl rfl c
      exact ⟨by rw [hidle, Option.map_some], hinv⟩
    split
    · rw [emitJsonChecked, if_neg (Nat.not_lt.mpr hsize), Option.bind_some]
      exact hrest _ _
    · rw [Option.bind_some]
      exact hrest _ _

theorem consume_fine {r : JsonProtocolReader N} (h : Inv r) (c : UInt8) :
    Fine (consumeChecked r c) (consume r c) := by
  unfold consumeChecked consume
  have hinv := h.state
  cases hstate : r.state with
  | idle =>
      rw [StateInv, hstate] at hinv
      exact idle_fine hinv.1 hinv.2 hstate c
  | container => exact container_fine hstate hinv c
  | stringValue => exact string_fine hstate hinv c
  | numberValue => exact number_fine h.size_le hstate hinv c
  | literalValue => exact literal_fine hstate hinv c

/-! ## Every stream -/

theorem inv_fresh (N : Nat) (options : JsonProtocolOptions) : Inv (fresh N options) :=
  ⟨Nat.zero_le N, rfl, rfl⟩

theorem inv_countByte {r : JsonProtocolReader N} (h : Inv r) : Inv (countByte r) :=
  ⟨h.size_le, h.state⟩

theorem poll_fine {r : JsonProtocolReader N} (h : Inv r) (bytes : List UInt8) :
    Fine (pollChecked r bytes) (poll r bytes) := by
  induction bytes generalizing r with
  | nil => exact ⟨rfl, h⟩
  | cons byte bytes ih =>
      obtain ⟨hbyte, hnext⟩ := consume_fine (inv_countByte h) byte
      obtain ⟨hrest, hlast⟩ := ih hnext
      refine ⟨?_, hlast⟩
      rw [pollChecked, hbyte, Option.bind_some, hrest, Option.map_some]
      rfl

/-- Behind every stream of bytes the invariant holds and no assertion has
failed on the way. -/
theorem state_invariant (N : Nat) (options : JsonProtocolOptions) (bytes : List UInt8) :
    Inv (poll (fresh N options) bytes).1
      ∧ pollChecked (fresh N options) bytes = some (poll (fresh N options) bytes) :=
  (poll_fine (inv_fresh N options) bytes).symm

end JsonProtocolReader

end AsyncEventLoop
