import Mathlib.Data.List.Basic

/-!
# JSON text, byte by byte

The grammar of RFC 8259 as a relation on lists of bytes. A string may hold
any byte from 0x20 on that is not a quote or a backslash, so that every
UTF-8 text is covered and the encoding plays no further part. Objects and
arrays carry the white space the grammar allows around their structural
characters.

`Text` has one index for each of the grammar's recursive nonterminals, so
that a derivation is one induction. `Stream` lays values out one after
another, as a transport does.
-/

namespace JsonGrammar

/-! ## Bytes -/

abbrev quote : UInt8 := 34
abbrev plus : UInt8 := 43
abbrev comma : UInt8 := 44
abbrev minus : UInt8 := 45
abbrev dot : UInt8 := 46
abbrev colon : UInt8 := 58
abbrev lbracket : UInt8 := 91
abbrev backslash : UInt8 := 92
abbrev rbracket : UInt8 := 93
abbrev lbrace : UInt8 := 123
abbrev rbrace : UInt8 := 125

/-- `true`, `false` and `null`. -/
def trueText : List UInt8 := [116, 114, 117, 101]
def falseText : List UInt8 := [102, 97, 108, 115, 101]
def nullText : List UInt8 := [110, 117, 108, 108]

def isWs (c : UInt8) : Bool := c = 32 || c = 9 || c = 13 || c = 10

def isDigit (c : UInt8) : Bool := 48 ≤ c && c ≤ 57

def isNonzeroDigit (c : UInt8) : Bool := 49 ≤ c && c ≤ 57

def isHexDigit (c : UInt8) : Bool :=
  isDigit c || (97 ≤ c && c ≤ 102) || (65 ≤ c && c ≤ 70)

/-- The bytes a number is made of. -/
def isNumberByte (c : UInt8) : Bool :=
  isDigit c || c = minus || c = plus || c = dot || c = 101 || c = 69

/-- The bytes a string may hold as themselves. -/
def isUnescaped (c : UInt8) : Bool := 32 ≤ c && c ≠ quote && c ≠ backslash

/-- What may follow a backslash: a quote, a backslash, a slash or one of
`b f n r t`. -/
def isEscape (c : UInt8) : Bool :=
  c = quote || c = backslash || c = 47 || c = 98 || c = 102 || c = 110 || c = 114 || c = 116

/-! ## The grammar -/

def Ws (w : List UInt8) : Prop := ∀ c ∈ w, isWs c = true

def Digits (ds : List UInt8) : Prop := ∀ d ∈ ds, isDigit d = true

inductive IntPart : List UInt8 → Prop where
  | zero : IntPart [48]
  | digits {d : UInt8} {ds : List UInt8} (hd : isNonzeroDigit d = true) (hds : Digits ds) :
      IntPart (d :: ds)

inductive FracPart : List UInt8 → Prop where
  | absent : FracPart []
  | digits {d : UInt8} {ds : List UInt8} (hd : isDigit d = true) (hds : Digits ds) :
      FracPart (dot :: d :: ds)

inductive ExpPart : List UInt8 → Prop where
  | absent : ExpPart []
  | digits {e d : UInt8} {sign ds : List UInt8} (he : e = 101 ∨ e = 69)
      (hsign : sign = [] ∨ sign = [plus] ∨ sign = [minus]) (hd : isDigit d = true)
      (hds : Digits ds) : ExpPart (e :: (sign ++ d :: ds))

inductive Number : List UInt8 → Prop where
  | mk {sign int frac exp : List UInt8} (hsign : sign = [] ∨ sign = [minus])
      (hint : IntPart int) (hfrac : FracPart frac) (hexp : ExpPart exp) :
      Number (sign ++ int ++ frac ++ exp)

/-- What stands between the quotes of a string. -/
inductive Chars : List UInt8 → Prop where
  | nil : Chars []
  | unescaped {c : UInt8} {cs : List UInt8} (hc : isUnescaped c = true) (hcs : Chars cs) :
      Chars (c :: cs)
  | escape {c : UInt8} {cs : List UInt8} (hc : isEscape c = true) (hcs : Chars cs) :
      Chars (backslash :: c :: cs)
  | hex {a b c d : UInt8} {cs : List UInt8} (ha : isHexDigit a = true)
      (hb : isHexDigit b = true) (hc : isHexDigit c = true) (hd : isHexDigit d = true)
      (hcs : Chars cs) : Chars (backslash :: 117 :: a :: b :: c :: d :: cs)

inductive Str : List UInt8 → Prop where
  | mk {cs : List UInt8} (hcs : Chars cs) : Str (quote :: (cs ++ [quote]))

inductive Literal : List UInt8 → Prop where
  | true : Literal trueText
  | false : Literal falseText
  | null : Literal nullText

/-- The recursive nonterminals: a value, the elements of an array and the
members of an object. -/
inductive Nonterminal where
  | value
  | elements
  | members

inductive Text : Nonterminal → List UInt8 → Prop where
  | literal {t : List UInt8} (h : Literal t) : Text .value t
  | number {t : List UInt8} (h : Number t) : Text .value t
  | string {t : List UInt8} (h : Str t) : Text .value t
  | emptyArray {w : List UInt8} (hw : Ws w) : Text .value (lbracket :: (w ++ [rbracket]))
  | array {t : List UInt8} (h : Text .elements t) : Text .value (lbracket :: (t ++ [rbracket]))
  | emptyObject {w : List UInt8} (hw : Ws w) : Text .value (lbrace :: (w ++ [rbrace]))
  | object {t : List UInt8} (h : Text .members t) : Text .value (lbrace :: (t ++ [rbrace]))
  | element {w t w' : List UInt8} (hw : Ws w) (h : Text .value t) (hw' : Ws w') :
      Text .elements (w ++ t ++ w')
  | moreElements {t u : List UInt8} (ht : Text .elements t) (hu : Text .elements u) :
      Text .elements (t ++ [comma] ++ u)
  | member {w k w₁ w₂ t w' : List UInt8} (hw : Ws w) (hk : Str k) (hw₁ : Ws w₁) (hw₂ : Ws w₂)
      (h : Text .value t) (hw' : Ws w') :
      Text .members (w ++ k ++ w₁ ++ [colon] ++ w₂ ++ t ++ w')
  | moreMembers {t u : List UInt8} (ht : Text .members t) (hu : Text .members u) :
      Text .members (t ++ [comma] ++ u)

/-- A JSON value, without white space around it. -/
def Value (t : List UInt8) : Prop := Text .value t

/-- The values `vs` laid out in a stream, with any white space between
them; a byte that is not a number byte follows each number. -/
inductive Stream : List (List UInt8) → List UInt8 → Prop where
  | done {w : List UInt8} (hw : Ws w) : Stream [] w
  | next {w v bytes : List UInt8} {vs : List (List UInt8)} (hw : Ws w) (hv : Value v)
      (hrest : Stream vs bytes)
      (hend : Number v → ∃ c rest, bytes = c :: rest ∧ isNumberByte c = false) :
      Stream (v :: vs) (w ++ v ++ bytes)

/-- The same with white space behind every value. -/
inductive Separated : List (List UInt8) → List UInt8 → Prop where
  | done {w : List UInt8} (hw : Ws w) : Separated [] w
  | next {w v bytes : List UInt8} {vs : List (List UInt8)} (hw : Ws w) (hv : Value v)
      (hrest : Separated vs bytes) (hend : ∃ c rest, bytes = c :: rest ∧ isWs c = true) :
      Separated (v :: vs) (w ++ v ++ bytes)

/-! ## Facts about single bytes -/

theorem isNumberByte_of_isDigit {c : UInt8} (h : isDigit c = true) : isNumberByte c = true := by
  simp [isNumberByte, h]

theorem isDigit_of_isNonzeroDigit {c : UInt8} (h : isNonzeroDigit c = true) :
    isDigit c = true := by
  simp only [isNonzeroDigit, isDigit, Bool.and_eq_true, decide_eq_true_eq] at h ⊢
  exact ⟨UInt8.le_trans (by decide) h.1, h.2⟩

theorem isNumberByte_of_isWs {c : UInt8} (h : isWs c = true) : isNumberByte c = false := by
  simp only [isWs, Bool.or_eq_true, decide_eq_true_eq] at h
  rcases h with ((rfl | rfl) | rfl) | rfl <;> rfl

theorem Separated.stream {vs : List (List UInt8)} {bytes : List UInt8}
    (h : Separated vs bytes) : Stream vs bytes := by
  induction h with
  | done hw => exact .done hw
  | next hw hv _ hend ih =>
      obtain ⟨c, rest, hbytes, hc⟩ := hend
      exact .next hw hv ih fun _ => ⟨c, rest, hbytes, isNumberByte_of_isWs hc⟩

/-! ## The shape of a number -/

theorem Digits.isNumberByte {ds : List UInt8} (h : Digits ds) :
    ∀ c ∈ ds, isNumberByte c = true :=
  fun c hc => isNumberByte_of_isDigit (h c hc)

/-- A number is made of number bytes. -/
theorem Number.bytes {t : List UInt8} (h : Number t) : ∀ c ∈ t, isNumberByte c = true := by
  obtain ⟨hsign, hint, hfrac, hexp⟩ := h
  intro c hc
  simp only [List.mem_append] at hc
  rcases hc with ((hc | hc) | hc) | hc
  · rcases hsign with rfl | rfl
    · cases hc
    · obtain rfl := List.mem_singleton.mp hc
      rfl
  · cases hint with
    | zero =>
        obtain rfl := List.mem_singleton.mp hc
        rfl
    | digits hd hds =>
        rcases List.mem_cons.mp hc with rfl | hc
        · exact isNumberByte_of_isDigit (isDigit_of_isNonzeroDigit hd)
        · exact hds.isNumberByte c hc
  · cases hfrac with
    | absent => cases hc
    | digits hd hds =>
        rcases List.mem_cons.mp hc with rfl | hc
        · rfl
        · rcases List.mem_cons.mp hc with rfl | hc
          · exact isNumberByte_of_isDigit hd
          · exact hds.isNumberByte c hc
  · cases hexp with
    | absent => cases hc
    | digits he hsign hd hds =>
        simp only [List.mem_cons, List.mem_append] at hc
        rcases hc with rfl | hc | rfl | hc
        · rcases he with rfl | rfl <;> rfl
        · rcases hsign with rfl | rfl | rfl
          · cases hc
          · obtain rfl := List.mem_singleton.mp hc
            rfl
          · obtain rfl := List.mem_singleton.mp hc
            rfl
        · exact isNumberByte_of_isDigit hd
        · exact hds.isNumberByte c hc

/-- A number starts with a minus sign or a digit. -/
theorem Number.first {t : List UInt8} (h : Number t) :
    ∃ c cs, t = c :: cs ∧ (c = minus ∨ isDigit c = true) := by
  obtain ⟨hsign, hint, -, -⟩ := h
  rcases hsign with rfl | rfl
  · cases hint with
    | zero => exact ⟨48, _, rfl, Or.inr rfl⟩
    | digits hd hds => exact ⟨_, _, rfl, Or.inr (isDigit_of_isNonzeroDigit hd)⟩
  · exact ⟨minus, _, rfl, Or.inl rfl⟩

end JsonGrammar
