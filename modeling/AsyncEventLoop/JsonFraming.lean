import AsyncEventLoop.JsonNesting
import AsyncEventLoop.JsonReader

/-!
# Framing a stream of JSON values

The proofs follow the framing grammar. `Inside`, `Quoted`, `InNumber` and
`InLiteral` say what the reader holds of an unfinished value; each has one
lemma for every kind of byte that may come next. `Neutral` is what the
grammar gives: a text that takes the reader from inside an object or array
back to the same nesting, so that the brackets around it are enough to
know when the outermost value ends (`Staged`). A value of at most `N` bytes is
emitted, one of `N + 1` bytes is dropped on its last byte, and from there
on the whole stream is an induction over its values.
-/

namespace AsyncEventLoop

open FixedArray JsonGrammar

/-! ## Numbers pass their check -/

theorem dropWhile_digits {ds rest : List UInt8} (h : Digits ds)
    (hrest : ∀ c ∈ rest.head?, isDigit c = false) :
    (ds ++ rest).dropWhile isDigit = rest := by
  rw [List.dropWhile_append_of_pos h]
  cases rest with
  | nil => rfl
  | cons c cs => exact List.dropWhile_cons_of_neg (by simp [hrest c rfl])

/-- Neither a fraction nor an exponent starts with a digit. -/
theorem head_fracExp {frac exp : List UInt8} (hfrac : FracPart frac) (hexp : ExpPart exp) :
    ∀ c ∈ (frac ++ exp).head?, isDigit c = false := by
  intro c hc
  cases hfrac with
  | digits hd hds =>
      obtain rfl := Option.some.inj hc
      rfl
  | absent =>
      cases hexp with
      | absent => cases hc
      | digits he hsign hd hds =>
          obtain rfl := Option.some.inj hc
          rcases he with rfl | rfl <;> rfl

theorem validExponent_exp {exp : List UInt8} (h : ExpPart exp) : validExponent exp = true := by
  cases h with
  | absent => rfl
  | @digits e d sign ds he hsign hd hds =>
      have hne : d ≠ plus ∧ d ≠ minus := by
        constructor <;> rintro rfl <;> exact absurd hd (by decide)
      have hdrop : ds.dropWhile isDigit = [] := by
        have hend : (ds ++ []).dropWhile isDigit = [] := dropWhile_digits hds (by simp)
        simpa using hend
      rw [validExponent, if_pos he]
      rcases hsign with rfl | rfl | rfl <;> simp [hne, hd, hdrop]

theorem validFraction_fracExp {frac exp : List UInt8} (hfrac : FracPart frac)
    (hexp : ExpPart exp) : validFraction (frac ++ exp) = true := by
  cases hfrac with
  | absent =>
      rw [List.nil_append]
      have hvalid := validExponent_exp hexp
      cases hexp with
      | absent => rfl
      | @digits e d sign ds he hsign hd hds =>
          have hne : e ≠ dot := by rcases he with rfl | rfl <;> decide
          simp only [validFraction, hne, if_false, hvalid]
  | @digits d ds hd hds =>
      have hdrop : (ds ++ exp).dropWhile isDigit = exp :=
        dropWhile_digits hds (head_fracExp .absent hexp)
      simp only [List.cons_append, validFraction, if_true, hd, hdrop, validExponent_exp hexp,
        Bool.and_self]

/-- Every number of the grammar passes `valid_number`. -/
theorem validNumber_number {t : List UInt8} (h : Number t) : validNumber t = true := by
  obtain ⟨hsign, hint, hfrac, hexp⟩ := h
  rename_i sign int frac exp
  have hunsigned : (if (sign ++ int ++ frac ++ exp).head? = some minus
      then (sign ++ int ++ frac ++ exp).tail else sign ++ int ++ frac ++ exp)
      = int ++ (frac ++ exp) := by
    rcases hsign with rfl | rfl
    · have hfirst : (int ++ (frac ++ exp)).head? ≠ some minus := by
        cases hint with
        | zero => exact fun heq => absurd (Option.some.inj heq) (by decide)
        | digits hd hds =>
            intro heq
            obtain rfl := Option.some.inj heq
            exact absurd hd (by decide)
      simp only [List.nil_append, List.append_assoc, if_neg hfirst]
    · simp
  rw [validNumber, hunsigned]
  cases hint with
  | zero => simpa using validFraction_fracExp hfrac hexp
  | @digits d ds hd hds =>
      have hne : d ≠ 48 := by
        rintro rfl
        exact absurd hd (by decide)
      simp only [List.cons_append, hne, if_false, hd, if_true,
        dropWhile_digits hds (head_fracExp hfrac hexp), validFraction_fracExp hfrac hexp]

namespace JsonProtocolReader

variable {N : Nat}

/-! ## Reading bytes -/

/-- Reading `bytes` takes `r` to `r'` with the given output, and counts
`dropped` overflows and no protocol error. -/
structure Reads (r : JsonProtocolReader N) (bytes : List UInt8) (out : List (List UInt8))
    (r' : JsonProtocolReader N) (dropped : Nat) : Prop where
  poll : poll r bytes = (r', out)
  options : r'.options = r.options
  overflows : r'.stats.overflows = r.stats.overflows + UInt32.ofNat dropped
  errors : r.options.skipLeadingWhitespace = true →
    r'.stats.protocolErrors = r.stats.protocolErrors

theorem Reads.nil (r : JsonProtocolReader N) : Reads r [] [] r 0 :=
  ⟨rfl, rfl, by simp, fun _ => rfl⟩

theorem Reads.append {r r₁ r₂ : JsonProtocolReader N} {xs ys : List UInt8}
    {out out' : List (List UInt8)} {j k : Nat} (h : Reads r xs out r₁ j)
    (h' : Reads r₁ ys out' r₂ k) : Reads r (xs ++ ys) (out ++ out') r₂ (j + k) := by
  refine ⟨?_, h'.options.trans h.options, ?_, ?_⟩
  · rw [poll_append, h.poll, h'.poll]
  · rw [h'.overflows, h.overflows, UInt32.ofNat_add, UInt32.add_assoc]
  · intro hskip
    rw [h'.errors (h.options ▸ hskip), h.errors hskip]

theorem Reads.byte {r r' : JsonProtocolReader N} {c : UInt8} {out : List (List UInt8)} {k : Nat}
    (h : readByte r c = (r', out)) (hoptions : r'.options = r.options)
    (hoverflows : r'.stats.overflows = r.stats.overflows + UInt32.ofNat k)
    (herrors : r.options.skipLeadingWhitespace = true →
      r'.stats.protocolErrors = r.stats.protocolErrors) : Reads r [c] out r' k :=
  ⟨by rw [JsonProtocolReader.poll, h]; simp [JsonProtocolReader.poll], hoptions, hoverflows,
    herrors⟩

/-- A step that counts neither an overflow nor an error. -/
theorem Reads.quiet {r r' : JsonProtocolReader N} {c : UInt8} {out : List (List UInt8)}
    (h : readByte r c = (r', out)) (hoptions : r'.options = r.options)
    (hoverflows : r'.stats.overflows = r.stats.overflows)
    (herrors : r'.stats.protocolErrors = r.stats.protocolErrors) : Reads r [c] out r' 0 :=
  .byte h hoptions (by simpa using hoverflows) fun _ => herrors

/-- The byte that does not fit is dropped with everything before it. -/
theorem Reads.overflow {r : JsonProtocolReader N} {c : UInt8}
    (h : readByte r c = (reset (countOverflow (countByte r)), [])) :
    Reads r [c] [] (reset (countOverflow (countByte r))) 1 :=
  .byte h rfl rfl fun _ => rfl

/-- The reader behind a byte that fitted into the buffer. -/
def pushed (r : JsonProtocolReader N) (c : UInt8) (h : r.size < N) : JsonProtocolReader N :=
  { countByte r with buffer := r.buffer.set r.size c h, size := r.size + 1 }

@[simp] theorem countByte_state (r : JsonProtocolReader N) :
    r.countByte.state = r.state := rfl

@[simp] theorem pushed_inString (r : JsonProtocolReader N) (c : UInt8) (h : r.size < N) :
    (r.pushed c h).inString = r.inString := rfl

@[simp] theorem pushed_escape (r : JsonProtocolReader N) (c : UInt8) (h : r.size < N) :
    (r.pushed c h).escape = r.escape := rfl

theorem append_fits {r : JsonProtocolReader N} (c : UInt8) (h : r.size < N) :
    append (countByte r) c = (pushed r c h, true) := by
  have hlt : ¬ (countByte r).size ≥ N := Nat.not_le.mpr h
  exact dif_neg hlt

theorem append_full {r : JsonProtocolReader N} (c : UInt8) (h : r.size = N) :
    append (countByte r) c = (reset (countOverflow (countByte r)), false) := by
  have hge : (countByte r).size ≥ N := Nat.le_of_eq h.symm
  exact dif_pos hge

/-- In a container, or in a string, the buffer is full. -/
theorem container_full {r : JsonProtocolReader N} (hstate : r.state = .container)
    (hfull : r.size = N) (c : UInt8) :
    Reads r [c] [] (reset (countOverflow (countByte r))) 1 :=
  .overflow (by simp [readByte, consume, hstate, consumeContainer, append_full c hfull])

theorem string_full {r : JsonProtocolReader N} (hstate : r.state = .stringValue)
    (hfull : r.size = N) (c : UInt8) :
    Reads r [c] [] (reset (countOverflow (countByte r))) 1 :=
  .overflow (by simp [readByte, consume, hstate, consumeStringValue, append_full c hfull])

theorem numberByte_full {r : JsonProtocolReader N} (hstate : r.state = .numberValue)
    (hfull : r.size = N) {c : UInt8} (hc : isNumberByte c = true) :
    Reads r [c] [] (reset (countOverflow (countByte r))) 1 :=
  .overflow (by simp [readByte, consume, hstate, consumeNumberValue, hc, append_full c hfull])

/-! ## What the reader holds -/

/-- The first `size` cells of the buffer spell `text`. -/
structure Holds (buffer : Vector UInt8 N) (size : Nat) (text : List UInt8) : Prop where
  bounded : size ≤ N
  text : front buffer size = text

theorem Holds.size {buffer : Vector UInt8 N} {size : Nat} {text : List UInt8}
    (h : Holds buffer size text) : size = text.length := by
  rw [← h.text, length_front _ h.bounded]

theorem Holds.pushed {r : JsonProtocolReader N} {text : List UInt8}
    (h : Holds r.buffer r.size text) (c : UInt8) (hfit : r.size < N) :
    Holds (r.pushed c hfit).buffer (r.pushed c hfit).size (text ++ [c]) :=
  ⟨hfit, by rw [← h.text]; exact front_push r.buffer hfit c⟩

/-- Between two values. -/
structure Idle (r : JsonProtocolReader N) : Prop where
  state : r.state = .idle
  size : r.size = 0
  depth : r.depth = 0

theorem idle_reset (r : JsonProtocolReader N) : Idle (reset r) := ⟨rfl, rfl, rfl⟩

theorem Idle.holds {r : JsonProtocolReader N} (h : Idle r) : Holds r.buffer r.size [] :=
  ⟨by simp [h.size], by simp [h.size]⟩

/-- At the first byte of a value. -/
structure Starting (r : JsonProtocolReader N) (text : List UInt8) : Prop where
  idle : Idle r
  text : text = []

/-- In a container, outside its strings; `brackets` are open. -/
structure Inside (brackets : List UInt8) (r : JsonProtocolReader N) (text : List UInt8) :
    Prop where
  holds : Holds r.buffer r.size text
  state : r.state = .container
  inString : r.inString = false
  escape : r.escape = false
  depth : r.depth ≤ r.size
  brackets : front r.stack r.depth = brackets

/-- In a string: a value of its own, or one inside the container `around`;
`escaped` when the last byte was a backslash that escapes the next. -/
structure Quoted (around : Option (List UInt8)) (escaped : Bool) (r : JsonProtocolReader N)
    (text : List UInt8) : Prop where
  holds : Holds r.buffer r.size text
  escape : r.escape = escaped
  value : around = none → r.state = .stringValue
  container : ∀ brackets, around = some brackets →
    r.state = .container ∧ r.inString = true ∧ r.depth ≤ r.size
      ∧ front r.stack r.depth = brackets

/-- In a number. -/
structure InNumber (r : JsonProtocolReader N) (text : List UInt8) : Prop where
  holds : Holds r.buffer r.size text
  state : r.state = .numberValue

/-- Behind the first `k` bytes of `literal`. -/
structure InLiteral (literal : List UInt8) (k : Nat) (r : JsonProtocolReader N)
    (text : List UInt8) : Prop where
  holds : Holds r.buffer r.size text
  state : r.state = .literalValue
  literal : r.literal = some literal
  literalPos : r.literalPos = k

/-- From `P` to `Q` by reading `bytes`, as long as they fit. -/
def Takes (P Q : JsonProtocolReader N → List UInt8 → Prop) (bytes : List UInt8) : Prop :=
  ∀ r text, P r text → text.length + bytes.length ≤ N →
    ∃ r', Reads r bytes [] r' 0 ∧ Q r' (text ++ bytes)

/-- From `P` the byte `c` ends a value: it is emitted if `c` fits, dropped if
it is the first byte that does not. -/
structure Ends (P : JsonProtocolReader N → List UInt8 → Prop) (c : UInt8) : Prop where
  fits : ∀ r text, P r text → text.length < N →
    ∃ r', Reads r [c] [text ++ [c]] r' 0 ∧ Idle r'
  full : ∀ r text, P r text → text.length = N → ∃ r', Reads r [c] [] r' 1 ∧ Idle r'

section Takes

variable {P Q R : JsonProtocolReader N → List UInt8 → Prop}

theorem Takes.nil : Takes P P [] := by
  intro r text h _
  exact ⟨r, .nil r, by simpa using h⟩

theorem Takes.append {xs ys : List UInt8} (h : Takes P Q xs) (h' : Takes Q R ys) :
    Takes P R (xs ++ ys) := by
  intro r text hP hlen
  rw [List.length_append] at hlen
  obtain ⟨r₁, hreads, hQ⟩ := h r text hP (by omega)
  obtain ⟨r₂, hreads', hR⟩ := h' r₁ (text ++ xs) hQ (by rw [List.length_append]; omega)
  exact ⟨r₂, by simpa using hreads.append hreads', by simpa using hR⟩

/-- A run of bytes, each of which keeps `P`. -/
theorem Takes.all {bytes : List UInt8} (h : ∀ c ∈ bytes, Takes P P [c]) : Takes P P bytes := by
  induction bytes with
  | nil => exact .nil
  | cons c cs ih =>
      exact (h c (List.mem_cons_self ..)).append
        (ih fun d hd => h d (List.mem_cons_of_mem _ hd))

end Takes

/-! ## Inside an object or array -/

theorem takes_plain {brackets : List UInt8} {c : UInt8} (hc : isPlain c = true) :
    Takes (N := N) (Inside brackets) (Inside brackets) [c] := by
  intro r text h hlen
  have hfit : r.size < N := by rw [h.holds.size]; exact hlen
  refine ⟨r.pushed c hfit, .quiet ?_ rfl rfl rfl, h.holds.pushed c hfit, h.state, h.inString,
    h.escape, Nat.le_succ_of_le h.depth, h.brackets⟩
  simp only [isPlain, Bool.and_eq_true, decide_eq_true_eq] at hc
  simp [readByte, consume, h.state, consumeContainer, append_fits c hfit, h.inString, hc]

theorem takes_open {brackets : List UInt8} {o c : UInt8} (hm : Matching o c) :
    Takes (N := N) (Inside brackets) (Inside (brackets ++ [o])) [o] := by
  intro r text h hlen
  have hfit : r.size < N := by rw [h.holds.size]; exact hlen
  have hdepth : r.depth < N := Nat.lt_of_le_of_lt h.depth hfit
  refine ⟨{ r.pushed o hfit with stack := r.stack.set r.depth o hdepth, depth := r.depth + 1 },
    .quiet ?_ rfl rfl rfl, h.holds.pushed o hfit, h.state, h.inString, h.escape,
    Nat.succ_le_succ h.depth, ?_⟩
  · have hpush : pushContainer (r.pushed o hfit) o
        = ({ r.pushed o hfit with
              stack := r.stack.set r.depth o hdepth, depth := r.depth + 1 }, true) :=
      dif_neg (Nat.not_le.mpr hdepth)
    simp [readByte, consume, h.state, consumeContainer, append_fits _ hfit, h.inString, hpush,
      hm.opening]
  · rw [← h.brackets]
    exact front_push r.stack hdepth o

/-- The bracket on top of the stack. -/
theorem stack_top {r : JsonProtocolReader N} {brackets : List UInt8} {o : UInt8}
    (hdepth : r.depth ≤ N) (hopen : front r.stack r.depth = brackets ++ [o]) :
    r.depth = brackets.length + 1 ∧ r.stack[r.depth - 1]? = some o := by
  have hlen : r.depth = brackets.length + 1 := by
    have h := length_front r.stack hdepth
    rw [hopen] at h
    simpa using h.symm
  refine ⟨hlen, ?_⟩
  rw [← front_getLast? r.stack (by omega) hdepth, hopen]
  simp

theorem popContainer_matching {r : JsonProtocolReader N} {brackets : List UInt8} {o c : UInt8}
    (hm : Matching o c) (hdepth : r.depth ≤ N) (hopen : front r.stack r.depth = brackets ++ [o]) :
    popContainer r c = ({ r with depth := r.depth - 1 }, true)
      ∧ r.depth = brackets.length + 1 ∧ front r.stack (r.depth - 1) = brackets := by
  obtain ⟨hlen, htop⟩ := stack_top hdepth hopen
  refine ⟨?_, hlen, ?_⟩
  · have hok : ¬ ((o = lbrace ∧ c ≠ rbrace) ∨ (o = lbracket ∧ c ≠ rbracket)) := by
      rcases hm with ⟨rfl, rfl⟩ | ⟨rfl, rfl⟩ <;> decide
    rw [popContainer, if_neg (by omega), htop]
    exact if_neg hok
  · rw [front_pred r.stack hdepth, hopen, List.dropLast_concat]

/-- A bracket of the wrong kind. -/
theorem popContainer_mismatch {r : JsonProtocolReader N} {brackets : List UInt8} {o c : UInt8}
    (ho : o = lbrace ∨ o = lbracket) (hm : ¬ Matching o c) (hdepth : r.depth ≤ N)
    (hopen : front r.stack r.depth = brackets ++ [o]) :
    popContainer r c = (reset (countError r), false) := by
  obtain ⟨hlen, htop⟩ := stack_top hdepth hopen
  have hmismatch : (o = lbrace ∧ c ≠ rbrace) ∨ (o = lbracket ∧ c ≠ rbracket) := by
    rcases ho with rfl | rfl
    · exact .inl ⟨rfl, fun h => hm (.inl ⟨rfl, h⟩)⟩
    · exact .inr ⟨rfl, fun h => hm (.inr ⟨rfl, h⟩)⟩
  rw [popContainer, if_neg (by omega), htop]
  exact if_pos hmismatch

theorem takes_close {brackets : List UInt8} {o c : UInt8} (hne : brackets ≠ [])
    (hm : Matching o c) :
    Takes (N := N) (Inside (brackets ++ [o])) (Inside brackets) [c] := by
  intro r text h hlen
  have hfit : r.size < N := by rw [h.holds.size]; exact hlen
  obtain ⟨hpop, hdepth, hbrackets⟩ :=
    popContainer_matching (r := r.pushed c hfit) hm
      (Nat.le_trans h.depth (Nat.le_of_lt hfit)) h.brackets
  refine ⟨{ r.pushed c hfit with depth := r.depth - 1 }, .quiet ?_ rfl rfl rfl,
    h.holds.pushed c hfit, h.state, h.inString, h.escape,
    Nat.le_trans (Nat.sub_le ..) (Nat.le_succ_of_le h.depth), hbrackets⟩
  have hpos : 0 < brackets.length := List.length_pos_iff.mpr hne
  have hmore : ¬ (r.pushed c hfit).depth - 1 = 0 := by omega
  simp [readByte, consume, h.state, consumeContainer, append_fits _ hfit, h.inString, hpop,
    hmore, hm.closing]
  rfl

/-- The bracket that closes the outermost container. -/
theorem ends_close {o c : UInt8} (hm : Matching o c) : Ends (N := N) (Inside [o]) c := by
  refine ⟨?_, ?_⟩
  · intro r text h hlen
    have hfit : r.size < N := by rw [h.holds.size]; exact hlen
    have hopen : front (r.pushed c hfit).stack (r.pushed c hfit).depth = [] ++ [o] := h.brackets
    obtain ⟨hpop, hdepth, -⟩ :=
      popContainer_matching (r := r.pushed c hfit) hm
        (Nat.le_trans h.depth (Nat.le_of_lt hfit)) hopen
    have hlast : (r.pushed c hfit).depth - 1 = 0 := by simp [hdepth]
    refine ⟨(emitJson { r.pushed c hfit with depth := 0 }).1, .quiet ?_ rfl rfl rfl,
      idle_reset _⟩
    have htext := (h.holds.pushed c hfit).text
    simp [readByte, consume, h.state, consumeContainer, append_fits _ hfit, h.inString, hpop,
      hlast, emitJson, htext, hm.closing]
  · intro r text h hlen
    have hfull : r.size = N := h.holds.size.trans hlen
    exact ⟨_, container_full h.state hfull c, idle_reset _⟩

/-! ## Inside a string -/

theorem takes_quote {brackets : List UInt8} :
    Takes (N := N) (Inside brackets) (Quoted (some brackets) false) [quote] := by
  intro r text h hlen
  have hfit : r.size < N := by rw [h.holds.size]; exact hlen
  refine ⟨{ r.pushed quote hfit with inString := true }, .quiet ?_ rfl rfl rfl,
    h.holds.pushed quote hfit, h.escape, nofun, ?_⟩
  · simp [readByte, consume, h.state, consumeContainer, append_fits _ hfit, h.inString]
  · intro _ hb
    obtain rfl := Option.some.inj hb
    exact ⟨h.state, rfl, Nat.le_succ_of_le h.depth, h.brackets⟩

theorem escape_self {r : JsonProtocolReader N} {b : Bool} (h : r.escape = b) :
    { r with escape := b } = r := by
  subst h
  rfl

/-- A byte of a string other than the closing quote. -/
theorem takes_char {around : Option (List UInt8)} {escaped : Bool} {c : UInt8}
    (hc : escaped = true ∨ c ≠ quote) :
    Takes (N := N) (Quoted around escaped) (Quoted around (!escaped && c = backslash)) [c] := by
  intro r text h hlen
  have hfit : r.size < N := by rw [h.holds.size]; exact hlen
  refine ⟨{ r.pushed c hfit with escape := !escaped && c = backslash }, .quiet ?_ rfl rfl rfl,
    h.holds.pushed c hfit, rfl, h.value, ?_⟩
  · have hesc := h.escape
    cases around with
    | none =>
        have hstate := h.value rfl
        cases escaped <;> by_cases hback : c = backslash <;>
          simp_all [readByte, consume, consumeStringValue, append_fits _ hfit]
        exact (escape_self (r := r.pushed c hfit) hesc).symm
    | some brackets =>
        obtain ⟨hstate, hin, -, -⟩ := h.container brackets rfl
        cases escaped <;> by_cases hback : c = backslash <;>
          simp_all [readByte, consume, consumeContainer, append_fits _ hfit]
        simpa [hin] using (escape_self (r := r.pushed c hfit) hesc).symm
  · intro brackets hb
    obtain ⟨hstate, hin, hdepth, hopen⟩ := h.container brackets hb
    exact ⟨hstate, hin, Nat.le_succ_of_le hdepth, hopen⟩

/-- A backslash and the byte it escapes. -/
theorem takes_escape {around : Option (List UInt8)} (c : UInt8) :
    Takes (N := N) (Quoted around false) (Quoted around false) [backslash, c] := by
  have hback : Takes (N := N) (Quoted around false) (Quoted around true) [backslash] := by
    have h : Takes (N := N) (Quoted around false)
        (Quoted around (!false && backslash = backslash)) [backslash] :=
      takes_char (Or.inr (by decide))
    simpa using h
  have hnext : Takes (N := N) (Quoted around true) (Quoted around false) [c] := by
    have h : Takes (N := N) (Quoted around true) (Quoted around (!true && c = backslash)) [c] :=
      takes_char (Or.inl rfl)
    simpa using h
  exact hback.append hnext

/-- The inside of a string. -/
theorem takes_body {around : Option (List UInt8)} {body : List UInt8} (h : StringBody body) :
    Takes (N := N) (Quoted around false) (Quoted around false) body := by
  induction h with
  | nil => exact .nil
  | @char c cs hquote hback _ ih =>
      have hchar : Takes (N := N) (Quoted around false)
          (Quoted around (!false && c = backslash)) [c] := takes_char (Or.inr hquote)
      have hflag : (!false && decide (c = backslash)) = false := by simp [hback]
      rw [hflag] at hchar
      exact hchar.append ih
  | escaped c _ ih => exact (takes_escape c).append ih

@[simp] theorem quote_ne_backslash : quote ≠ backslash := by decide

theorem takes_endQuote {brackets : List UInt8} :
    Takes (N := N) (Quoted (some brackets) false) (Inside brackets) [quote] := by
  intro r text h hlen
  have hfit : r.size < N := by rw [h.holds.size]; exact hlen
  obtain ⟨hstate, hin, hdepth, hopen⟩ := h.container brackets rfl
  refine ⟨{ r.pushed quote hfit with inString := false }, .quiet ?_ rfl rfl rfl,
    h.holds.pushed quote hfit, hstate, rfl, h.escape, Nat.le_succ_of_le hdepth, hopen⟩
  simp [readByte, consume, hstate, consumeContainer, append_fits _ hfit, hin, h.escape]

/-- The quote that closes a string that is a value of its own. -/
theorem ends_quote : Ends (N := N) (Quoted none false) quote := by
  refine ⟨?_, ?_⟩
  · intro r text h hlen
    have hfit : r.size < N := by rw [h.holds.size]; exact hlen
    refine ⟨(emitJson (r.pushed quote hfit)).1, .quiet ?_ rfl rfl rfl, idle_reset _⟩
    have htext := (h.holds.pushed quote hfit).text
    simp [readByte, consume, h.value rfl, consumeStringValue, append_fits _ hfit, h.escape,
      emitJson, htext]
  · intro r text h hlen
    have hfull : r.size = N := h.holds.size.trans hlen
    exact ⟨_, string_full (h.value rfl) hfull quote, idle_reset _⟩

/-! ## What the grammar derives is neutral -/

/-- Reading the text inside a container leads back to the same nesting. -/
def Neutral (N : Nat) (t : List UInt8) : Prop :=
  ∀ brackets, brackets ≠ [] → Takes (N := N) (Inside brackets) (Inside brackets) t

theorem Neutral.append {xs ys : List UInt8} (h : Neutral N xs) (h' : Neutral N ys) :
    Neutral N (xs ++ ys) :=
  fun brackets hne => (h brackets hne).append (h' brackets hne)

theorem neutral_plain {t : List UInt8} (h : ∀ c ∈ t, isPlain c = true) : Neutral N t :=
  fun _ _ => .all fun c hc => takes_plain (h c hc)

theorem neutral_bracketed {t : List UInt8} {o c : UInt8} (hm : Matching o c)
    (h : Neutral N t) : Neutral N (o :: (t ++ [c])) := by
  intro brackets hne
  have hin := h (brackets ++ [o]) (by simp)
  exact (takes_open hm).append (hin.append (takes_close hne hm))

/-- **The induction over the grammar.** -/
theorem neutral_nested {t : List UInt8} (h : Nested t) : Neutral N t := by
  induction h with
  | nil => exact neutral_plain (List.forall_mem_nil _)
  | @plain c cs hc _ ih =>
      exact (neutral_plain (t := [c]) (List.forall_mem_singleton.mpr hc)).append ih
  | @string body cs hbody _ ih =>
      intro brackets hne
      have hstring : Takes (N := N) (Inside brackets) (Inside brackets)
          ([quote] ++ (body ++ [quote])) :=
        takes_quote.append ((takes_body hbody).append takes_endQuote)
      have hall := hstring.append (ih brackets hne)
      simpa using hall
  | @bracketed o c inner cs hm _ _ ihinner ih =>
      have hall := (neutral_bracketed hm ihinner).append ih
      simpa using hall

/-! ## One value -/

/-- A value that fits is emitted; one that is a byte too long is dropped. -/
structure Framed (r : JsonProtocolReader N) (t : List UInt8) : Prop where
  fits : t.length ≤ N → ∃ r', Reads r t [t] r' 0 ∧ Idle r'
  full : t.length = N + 1 → ∃ r', Reads r t [] r' 1 ∧ Idle r'

/-- All bytes of a text but the last are taken, and the last one emits the text, or
drops it if it is a byte too long. -/
structure Staged (r : JsonProtocolReader N) (init : List UInt8) (last : UInt8) : Prop where
  fits : (init ++ [last]).length ≤ N →
    ∃ r₁ r', Reads r init [] r₁ 0 ∧ Reads r₁ [last] [init ++ [last]] r' 0 ∧ Idle r'
  full : (init ++ [last]).length = N + 1 → ∃ r', Reads r (init ++ [last]) [] r' 1 ∧ Idle r'

theorem staged_of_stages {P Q : JsonProtocolReader N → List UInt8 → Prop} {s : List UInt8}
    {c : UInt8} (hs : Takes P Q s) (hc : Ends Q c) {r : JsonProtocolReader N} (hP : P r []) :
    Staged r s c := by
  have hsize : ([] ++ s).length = s.length := rfl
  refine ⟨fun hlen => ?_, fun hlen => ?_⟩ <;>
    rw [List.length_append, List.length_singleton] at hlen
  · obtain ⟨r₁, hreads, hQ⟩ := hs r [] hP (by rw [List.length_nil]; omega)
    obtain ⟨r₂, hlast, hidle⟩ := hc.fits r₁ ([] ++ s) hQ (by omega)
    exact ⟨r₁, r₂, hreads, hlast, hidle⟩
  · obtain ⟨r₁, hreads, hQ⟩ := hs r [] hP (by rw [List.length_nil]; omega)
    obtain ⟨r₂, hlast, hidle⟩ := hc.full r₁ ([] ++ s) hQ (by omega)
    exact ⟨r₂, by simpa using hreads.append hlast, hidle⟩

theorem takes_startBracket {o c : UInt8} (hm : Matching o c) :
    Takes (N := N) Starting (Inside [o]) [o] := by
  rintro r text ⟨hidle, rfl⟩ hlen
  have hfit : r.size < N := by rw [hidle.size]; exact hlen
  have hdepth : r.depth < N := by rw [hidle.depth]; exact hlen
  have hstate : r.countByte.state = .idle := hidle.state
  have hpush : pushContainer (r.pushed o hfit) o
      = ({ r.pushed o hfit with
            stack := r.stack.set r.depth o hdepth, depth := r.depth + 1 }, true) :=
    dif_neg (Nat.not_le.mpr hdepth)
  have hws : isWs o = false := by
    rcases hm with ⟨rfl, -⟩ | ⟨rfl, -⟩ <;> rfl
  refine ⟨{ r.pushed o hfit with
      stack := r.stack.set r.depth o hdepth, depth := r.depth + 1, state := .container,
      inString := false, escape := false }, .quiet ?_ rfl rfl rfl, hidle.holds.pushed o hfit,
    rfl, rfl, rfl, ?_, ?_⟩
  · simp [readByte, consume, hidle.state, consumeIdle, hws, hm.opening, append_fits _ hfit, hpush]
  · exact Nat.succ_le_succ (by rw [hidle.depth]; exact Nat.zero_le _)
  · have hnone : front r.stack r.depth = [] := by rw [hidle.depth, front_zero]
    have hpushed := front_push r.stack hdepth o
    rwa [hnone] at hpushed

theorem takes_startQuote : Takes (N := N) Starting (Quoted none false) [quote] := by
  rintro r text ⟨hidle, rfl⟩ hlen
  have hfit : r.size < N := by rw [hidle.size]; exact hlen
  refine ⟨{ r.pushed quote hfit with state := .stringValue, escape := false },
    .quiet ?_ rfl rfl rfl, hidle.holds.pushed quote hfit, rfl, fun _ => rfl, nofun⟩
  have hws : isWs quote = false := rfl
  have hbracket : ¬ (quote = lbrace ∨ quote = lbracket) := by decide
  simp [readByte, consume, hidle.state, consumeIdle, hws, hbracket, append_fits _ hfit]

/-! ### Numbers -/

/-- The bytes a number may start with, as `consume_idle` tests for them. -/
theorem consumeIdle_number (r : JsonProtocolReader N) {c : UInt8}
    (hc : c = minus ∨ isDigit c = true) :
    consumeIdle r c
      = if (append r c).2 then ({ (append r c).1 with state := .numberValue }, [])
        else ((append r c).1, []) := by
  have hnumber : isNumberByte c = true := by
    rcases hc with rfl | hc
    · rfl
    · exact isNumberByte_of_isDigit hc
  have hne : ∀ d, isNumberByte d = false → c ≠ d := by
    rintro d hd rfl
    rw [hnumber] at hd
    cases hd
  have hws : isWs c = false := by
    cases hws : isWs c with
    | false => rfl
    | true =>
        rw [isNumberByte_of_isWs hws] at hnumber
        cases hnumber
  simp [consumeIdle, hws, hc, hne lbrace (by decide), hne lbracket (by decide),
    hne quote (by decide)]

theorem takes_startNumber {c : UInt8} (hc : c = minus ∨ isDigit c = true) :
    Takes (N := N) Starting InNumber [c] := by
  rintro r text ⟨hidle, rfl⟩ hlen
  have hfit : r.size < N := by rw [hidle.size]; exact hlen
  refine ⟨{ r.pushed c hfit with state := .numberValue }, .quiet ?_ rfl rfl rfl,
    hidle.holds.pushed c hfit, rfl⟩
  simp [readByte, consume, hidle.state, consumeIdle_number _ hc, append_fits _ hfit]

theorem takes_numberByte {c : UInt8} (hc : isNumberByte c = true) :
    Takes (N := N) InNumber InNumber [c] := by
  intro r text h hlen
  have hfit : r.size < N := by rw [h.holds.size]; exact hlen
  refine ⟨r.pushed c hfit, .quiet ?_ rfl rfl rfl, h.holds.pushed c hfit, h.state⟩
  simp [readByte, consume, h.state, consumeNumberValue, hc, append_fits _ hfit]

theorem takes_number {t : List UInt8} (h : Number t) :
    Takes (N := N) Starting InNumber t := by
  obtain ⟨c, cs, rfl, hc⟩ := h.first
  exact (takes_startNumber hc).append
    (.all fun d hd => takes_numberByte (h.bytes d (List.mem_cons_of_mem _ hd)))

/-- A number that is a byte too long. -/
theorem number_full {t : List UInt8} (h : Number t) (hlen : t.length = N + 1)
    {r : JsonProtocolReader N} (hidle : Idle r) : ∃ r', Reads r t [] r' 1 ∧ Idle r' := by
  obtain ⟨c, cs, rfl, hc⟩ := h.first
  rcases List.eq_nil_or_concat cs with rfl | ⟨mid, last, rfl⟩
  · have hfull : r.size = N := by
      rw [hidle.size]
      exact Nat.succ.inj hlen
    refine ⟨_, .overflow ?_, idle_reset _⟩
    simp [readByte, consume, hidle.state, consumeIdle_number _ hc, append_full _ hfull]
  · have hmid : Takes (N := N) Starting InNumber (c :: mid) :=
      (takes_startNumber hc).append
        (.all fun d hd => takes_numberByte (h.bytes d (by simp [hd])))
    have hsize : (c :: mid).length = N := by simpa using hlen
    obtain ⟨r₁, hreads, hin⟩ := hmid r [] ⟨hidle, rfl⟩ (by simp [← hsize])
    have hfull : r₁.size = N := by
      rw [hin.holds.size, List.nil_append, hsize]
    have hlast := numberByte_full hin.state hfull (h.bytes last (by simp))
    exact ⟨_, by simpa using hreads.append hlast, idle_reset _⟩

/-- The byte behind a number emits it, and is then read by a reader that has been
reset. -/
theorem number_ends {r : JsonProtocolReader N} {t : List UInt8} (h : InNumber r t)
    (ht : Number t) {c : UInt8} (hc : isNumberByte c = false) :
    readByte r c = ((readByte (emitJson r).1 c).1, t :: (readByte (emitJson r).1 c).2) := by
  have hvalid : validNumber (front r.countByte.buffer r.countByte.size) = true := by
    rw [show front r.countByte.buffer r.countByte.size = t from h.holds.text]
    exact validNumber_number ht
  have hmessage : (emitJson r.countByte).2 = [t] := by
    exact congrArg (fun text => [text]) h.holds.text
  have hidle : (readByte (emitJson r).1 c) = consumeIdle (emitJson r.countByte).1 c := rfl
  simp [readByte, consume, h.state, consumeNumberValue, hc, hvalid, hmessage] at hidle ⊢
  simp [hidle]

theorem number_end {r : JsonProtocolReader N} {t : List UInt8} (h : InNumber r t)
    (ht : Number t) {c : UInt8} (hc : isNumberByte c = false) :
    ∃ r₀, Idle r₀ ∧ ∀ bytes out r' k, Reads r₀ (c :: bytes) out r' k →
      Reads r (c :: bytes) (t :: out) r' k := by
  refine ⟨(emitJson r).1, idle_reset _, fun bytes out r' k hreads =>
    ⟨?_, hreads.options, hreads.overflows, hreads.errors⟩⟩
  have hrest := hreads.poll
  rw [poll, Prod.mk.injEq] at hrest
  rw [poll, number_ends h ht hc]
  simp [hrest]

/-! ### Literals -/

/-- The literals `consume_idle` recognises, each by its first byte. -/
structure Recognised (literal : List UInt8) : Prop where
  nonzero : ∀ c ∈ literal, c ≠ 0
  start : ∀ c, literal.head? = some c → ∀ {N : Nat} (r : JsonProtocolReader N),
    consumeIdle r c = startLiteral r literal c

theorem recognised_literal {t : List UInt8} (h : Literal t) : Recognised t := by
  cases h with
  | true =>
      refine ⟨by simp [trueText], ?_⟩
      intro c hc N r
      obtain rfl := Option.some.inj hc
      simp [consumeIdle, isWs, isDigit, lbrace, lbracket, quote, minus]
  | false =>
      refine ⟨by simp [falseText], ?_⟩
      intro c hc N r
      obtain rfl := Option.some.inj hc
      simp [consumeIdle, isWs, isDigit, lbrace, lbracket, quote, minus]
  | null =>
      refine ⟨by simp [nullText], ?_⟩
      intro c hc N r
      obtain rfl := Option.some.inj hc
      simp [consumeIdle, isWs, isDigit, lbrace, lbracket, quote, minus]

/-- What `consume_literal_value` does with the byte the literal goes on with. -/
theorem consumeLiteralValue_next {literal text : List UInt8} {k : Nat} {c : UInt8}
    (hl : Recognised literal) {r : JsonProtocolReader N} (h : InLiteral literal k r text)
    (hc : literal[k]? = some c) :
    consumeLiteralValue (countByte r) c
      = if (append (countByte r) c).2 then
          if literalByte { (append (countByte r) c).1 with
              literalPos := (append (countByte r) c).1.literalPos + 1 } = 0 then
            emitJson { (append (countByte r) c).1 with
              literalPos := (append (countByte r) c).1.literalPos + 1 }
          else ({ (append (countByte r) c).1 with
              literalPos := (append (countByte r) c).1.literalPos + 1 }, [])
        else ((append (countByte r) c).1, []) := by
  have hsome : r.countByte.literal = some literal := h.literal
  have hbyte : literalByte (countByte r) = c := by
    have hpos : r.countByte.literalPos = k := h.literalPos
    simp [literalByte, hsome, hpos, hc]
  have hnonzero : c ≠ 0 := hl.nonzero c (List.mem_of_getElem? hc)
  rw [consumeLiteralValue, if_neg (by simp [hsome, hbyte, hnonzero])]

theorem takes_literalByte {literal : List UInt8} (hl : Recognised literal) {k : Nat}
    {c d : UInt8} (hc : literal[k]? = some c) (hd : literal[k + 1]? = some d) :
    Takes (N := N) (InLiteral literal k) (InLiteral literal (k + 1)) [c] := by
  intro r text h hlen
  have hfit : r.size < N := by rw [h.holds.size]; exact hlen
  have hnext : literalByte { r.pushed c hfit with literalPos := r.literalPos + 1 } = d := by
    have hsome : (r.pushed c hfit).literal = some literal := h.literal
    simp [literalByte, hsome, h.literalPos, hd]
  have hmore : d ≠ 0 := hl.nonzero d (List.mem_of_getElem? hd)
  refine ⟨{ r.pushed c hfit with literalPos := r.literalPos + 1 }, .quiet ?_ rfl rfl rfl,
    h.holds.pushed c hfit, h.state, h.literal, by rw [← h.literalPos]⟩
  rw [readByte, consume, countByte_state, h.state]
  simp only [consumeLiteralValue_next hl h hc, append_fits _ hfit, if_true]
  have hpos : (r.pushed c hfit).literalPos = r.literalPos := rfl
  rw [if_neg (by rw [hpos, hnext]; exact hmore)]
  rfl

theorem literal_full {literal text : List UInt8} (hl : Recognised literal) {k : Nat} {c : UInt8}
    (hc : literal[k]? = some c) {r : JsonProtocolReader N} (h : InLiteral literal k r text)
    (hfull : r.size = N) : Reads r [c] [] (reset (countOverflow (countByte r))) 1 := by
  refine .overflow ?_
  rw [readByte, consume, countByte_state, h.state]
  simp [consumeLiteralValue_next hl h hc, append_full _ hfull]

/-- The last byte of a literal. -/
theorem ends_literal {literal : List UInt8} (hl : Recognised literal) {k : Nat} {c : UInt8}
    (hc : literal[k]? = some c) (hlast : literal[k + 1]? = none) :
    Ends (N := N) (InLiteral literal k) c := by
  refine ⟨?_, ?_⟩
  · intro r text h hlen
    have hfit : r.size < N := by rw [h.holds.size]; exact hlen
    have hnul : literalByte { r.pushed c hfit with literalPos := r.literalPos + 1 } = 0 := by
      have hsome : (r.pushed c hfit).literal = some literal := h.literal
      simp [literalByte, hsome, h.literalPos, hlast]
    have htext := (h.holds.pushed c hfit).text
    refine ⟨(emitJson { r.pushed c hfit with literalPos := r.literalPos + 1 }).1,
      .quiet ?_ rfl rfl rfl, idle_reset _⟩
    rw [readByte, consume, countByte_state, h.state]
    simp only [consumeLiteralValue_next hl h hc, append_fits _ hfit, if_true]
    rw [if_pos (by exact hnul)]
    exact Prod.ext rfl (congrArg (fun text => [text]) htext)
  · intro r text h hlen
    exact ⟨_, literal_full hl hc h (h.holds.size.trans hlen), idle_reset _⟩

/-- All of a literal but its last byte. -/
theorem takes_literal {literal : List UInt8} (hl : Recognised literal) {k : Nat}
    (hk : k < literal.length) :
    Takes (N := N) (InLiteral literal 0) (InLiteral literal k) (literal.take k) := by
  induction k with
  | zero => exact .nil
  | succ k ih =>
      have hlt : k < literal.length := by omega
      rw [List.take_succ_eq_append_getElem hlt]
      exact (ih hlt).append (takes_literalByte hl (List.getElem?_eq_getElem hlt)
        (List.getElem?_eq_getElem hk))

/-- An idle reader reads the first byte of a literal as a reader that has
recognised the literal already. -/
theorem literal_start {literal : List UInt8} (hl : Recognised literal)
    {r : JsonProtocolReader N} (hidle : Idle r) :
    ∃ r₀, InLiteral literal 0 r₀ [] ∧ ∀ c bytes out r' k, literal.head? = some c →
      Reads r₀ (c :: bytes) out r' k → Reads r (c :: bytes) out r' k := by
  refine ⟨{ r with literal := some literal, literalPos := 0, state := .literalValue },
    ⟨hidle.holds, rfl, rfl, rfl⟩, fun c bytes out r' k hc hreads =>
      ⟨?_, hreads.options, hreads.overflows, hreads.errors⟩⟩
  have hbyte : readByte r c = readByte
      { r with literal := some literal, literalPos := 0, state := .literalValue } c := by
    rw [readByte, consume, countByte_state, hidle.state]
    exact hl.start c hc _
  rw [poll, hbyte]
  exact hreads.poll

/-- **Every text of the framing grammar is emitted if it fits**, and dropped if it is a
byte too long. -/
theorem Framing.staged {t : List UInt8} (h : Framing t) {r : JsonProtocolReader N}
    (hidle : Idle r) : ∃ init last, t = init ++ [last] ∧ Staged r init last := by
  have hstart : Starting r [] := ⟨hidle, rfl⟩
  cases h with
  | @string body hbody =>
      exact ⟨quote :: body, quote, rfl,
        staged_of_stages (takes_startQuote.append (takes_body hbody)) ends_quote hstart⟩
  | @container o c inner hm hinner =>
      exact ⟨o :: inner, c, rfl, staged_of_stages
        ((takes_startBracket hm).append (neutral_nested hinner _ (List.cons_ne_nil _ _)))
        (ends_close hm) hstart⟩
  | literal hl =>
      have hrecognised := recognised_literal hl
      obtain ⟨c, cs, last, rfl⟩ : ∃ c cs last, t = c :: (cs ++ [last]) := by
        cases hl
        · exact ⟨116, [114, 117], 101, rfl⟩
        · exact ⟨102, [97, 108, 115], 101, rfl⟩
        · exact ⟨110, [117, 108], 108, rfl⟩
      obtain ⟨r₀, hin, hfrom⟩ := literal_start hrecognised hidle
      have hk : cs.length + 1 < (c :: (cs ++ [last])).length := by simp
      have htakes := takes_literal (N := N) hrecognised hk
      have htake : (c :: (cs ++ [last])).take (cs.length + 1) = c :: cs := by simp
      rw [htake] at htakes
      have hlast : (c :: (cs ++ [last]))[cs.length + 1]? = some last := by simp
      have hend := ends_literal (N := N) hrecognised hlast (by simp)
      have hstaged := staged_of_stages htakes hend hin
      refine ⟨c :: cs, last, rfl, fun hlen => ?_, fun hlen => ?_⟩
      · obtain ⟨r₁, r', hreads, hemits, hidle'⟩ := hstaged.fits hlen
        exact ⟨r₁, r', hfrom c cs _ _ _ rfl hreads, hemits, hidle'⟩
      · obtain ⟨r', hreads, hidle'⟩ := hstaged.full hlen
        exact ⟨r', hfrom c _ _ _ _ rfl hreads, hidle'⟩

theorem value_framed {t : List UInt8} (ht : Value t) (hnot : ¬ Number t)
    {r : JsonProtocolReader N} (hidle : Idle r) : Framed r t := by
  obtain ⟨init, last, rfl, hstaged⟩ := (framing_of_value ht hnot).staged hidle
  refine ⟨fun hlen => ?_, hstaged.full⟩
  obtain ⟨r₁, r', hreads, hlast, hidle'⟩ := hstaged.fits hlen
  exact ⟨r', hreads.append hlast, hidle'⟩

/-! ## The whole stream -/

/-- White space between values is skipped, or counted as an error under the
option that does not skip it. -/
theorem reads_ws {w : List UInt8} (hw : Ws w) {r : JsonProtocolReader N} (hidle : Idle r) :
    ∃ r', Reads r w [] r' 0 ∧ Idle r' := by
  induction w generalizing r with
  | nil => exact ⟨r, .nil r, hidle⟩
  | cons c w ih =>
      have hc : isWs c = true := hw c (List.mem_cons_self ..)
      obtain ⟨r₁, hread, hidle₁⟩ : ∃ r₁, Reads r [c] [] r₁ 0 ∧ Idle r₁ := by
        cases hskip : r.options.skipLeadingWhitespace with
        | true =>
            refine ⟨countByte r, .quiet ?_ rfl rfl rfl, hidle.state, hidle.size, hidle.depth⟩
            have hoption : r.countByte.options.skipLeadingWhitespace = true := hskip
            simp [readByte, consume, hidle.state, consumeIdle, hoption, hc]
        | false =>
            refine ⟨reset (countError (countByte r)),
              .byte ?_ rfl (by simp [reset, countError, countByte]) (by simp [hskip]),
              idle_reset _⟩
            have hoption : r.countByte.options.skipLeadingWhitespace = false := hskip
            simp only [isWs, Bool.or_eq_true, decide_eq_true_eq] at hc
            rcases hc with ((rfl | rfl) | rfl) | rfl <;>
              simp [readByte, consume, hidle.state, consumeIdle, hoption, isDigit, lbrace, lbracket,
                quote, minus]
      obtain ⟨r₂, hreads, hidle₂⟩ := ih (fun d hd => hw d (List.mem_cons_of_mem _ hd)) hidle₁
      exact ⟨r₂, hread.append hreads, hidle₂⟩

/-- **The run lemma.** A stream of values of at most `N + 1` bytes: the
values that fit are emitted, in order, and each other one is an overflow. -/
theorem reads_stream {vs : List (List UInt8)} {bytes : List UInt8} (h : Stream vs bytes)
    (hlen : ∀ v ∈ vs, v.length ≤ N + 1) {r : JsonProtocolReader N} (hidle : Idle r) :
    ∃ r', Reads r bytes (vs.filter (·.length ≤ N)) r' (vs.countP (N < ·.length)) ∧ Idle r' := by
  induction h generalizing r with
  | done hw => exact reads_ws hw hidle
  | @next w v bytes vs hw hv hrest hend ih =>
      have hvs : ∀ v ∈ vs, v.length ≤ N + 1 := fun u hu => hlen u (List.mem_cons_of_mem _ hu)
      obtain ⟨r₁, hspace, hidle₁⟩ := reads_ws hw hidle
      by_cases hfit : v.length ≤ N
      · have hfilter : (v :: vs).filter (·.length ≤ N) = v :: vs.filter (·.length ≤ N) :=
          List.filter_cons_of_pos (by simpa using hfit)
        have hcount : (v :: vs).countP (N < ·.length) = vs.countP (N < ·.length) :=
          List.countP_cons_of_neg (by simpa using hfit)
        rw [hfilter, hcount]
        by_cases hnumber : Number v
        · obtain ⟨c, rest, rfl, hc⟩ := hend hnumber
          obtain ⟨r₂, hv₂, hin⟩ := takes_number hnumber r₁ [] ⟨hidle₁, rfl⟩ (by simpa using hfit)
          obtain ⟨r₀, hidle₀, hfrom⟩ := number_end hin hnumber hc
          obtain ⟨r₃, hreads, hidle₃⟩ := ih hvs hidle₀
          have hall := (hspace.append hv₂).append (hfrom _ _ _ _ hreads)
          exact ⟨r₃, by simpa using hall, hidle₃⟩
        · obtain ⟨r₂, hv₂, hidle₂⟩ := (value_framed hv hnumber hidle₁).fits hfit
          obtain ⟨r₃, hreads, hidle₃⟩ := ih hvs hidle₂
          exact ⟨r₃, by simpa using (hspace.append hv₂).append hreads, hidle₃⟩
      · have hfull : v.length = N + 1 := by
          have := hlen v (List.mem_cons_self ..)
          omega
        have hfilter : (v :: vs).filter (·.length ≤ N) = vs.filter (·.length ≤ N) :=
          List.filter_cons_of_neg (by simpa using hfit)
        have hcount : (v :: vs).countP (N < ·.length) = vs.countP (N < ·.length) + 1 :=
          List.countP_cons_of_pos (by simp; omega)
        rw [hfilter, hcount]
        obtain ⟨r₂, hv₂, hidle₂⟩ : ∃ r₂, Reads r₁ v [] r₂ 1 ∧ Idle r₂ := by
          by_cases hnumber : Number v
          · exact number_full hnumber hfull hidle₁
          · exact (value_framed hv hnumber hidle₁).full hfull
        obtain ⟨r₃, hreads, hidle₃⟩ := ih hvs hidle₂
        refine ⟨r₃, ?_, hidle₃⟩
        have hall := (hspace.append hv₂).append hreads
        rw [Nat.zero_add, Nat.add_comm] at hall
        simpa using hall

theorem idle_fresh (options : JsonProtocolOptions) : Idle (fresh N options) := ⟨rfl, rfl, rfl⟩

/-- **Every stream of values that fit is framed**, however it is split into
arrivals: the reader emits the values byte for byte, counts no overflow and
no protocol error, and ends idle. -/
theorem json_stream_framed {vs : List (List UInt8)} {bytes : List UInt8} (h : Stream vs bytes)
    (hfit : ∀ v ∈ vs, v.length ≤ N) (arrivals : List (List UInt8))
    (hsplit : arrivals.flatten = bytes) :
    (pollAll (fresh N {}) arrivals).2 = vs
      ∧ (pollAll (fresh N {}) arrivals).1.stats.overflows = 0
      ∧ (pollAll (fresh N {}) arrivals).1.stats.protocolErrors = 0
      ∧ (pollAll (fresh N {}) arrivals).1.state = .idle := by
  obtain ⟨r', hreads, hidle⟩ := reads_stream h (fun v hv => Nat.le_succ_of_le (hfit v hv))
    (idle_fresh (N := N) {})
  have hfilter : vs.filter (·.length ≤ N) = vs :=
    List.filter_eq_self.mpr fun v hv => by simpa using hfit v hv
  have hcount : vs.countP (N < ·.length) = 0 :=
    List.countP_eq_zero.mpr fun v hv => by simpa using hfit v hv
  rw [pollAll_eq_poll, hsplit, hreads.poll, hfilter]
  refine ⟨rfl, ?_, hreads.errors rfl, hidle.state⟩
  rw [hreads.overflows, hcount]
  rfl

/-- `1`, as a number and as a value. -/
theorem number_one : Number [49] :=
  @Number.mk [] [49] [] [] (Or.inl rfl) (.digits rfl (by simp [Digits])) .absent .absent

theorem value_one : Value [49] := .number number_one

theorem ws_space : Ws [32] := by simp [Ws, isWs]

/-- `[1] 1 ` with a three byte buffer, in two arrivals. -/
theorem json_stream_framed_split :
    (pollAll (fresh 3 {}) [[91, 49], [93, 32, 49, 32]]).2 = [[91, 49, 93], [49]]
      ∧ (pollAll (fresh 3 {}) [[91, 49], [93, 32, 49, 32]]).1.stats.overflows = 0
      ∧ (pollAll (fresh 3 {}) [[91, 49], [93, 32, 49, 32]]).1.stats.protocolErrors = 0
      ∧ (pollAll (fresh 3 {}) [[91, 49], [93, 32, 49, 32]]).1.state = .idle := by
  have hws : Ws [] := by simp [Ws]
  have harray : Value [91, 49, 93] := .array (@Text.element [] [49] [] hws value_one hws)
  have hone : Stream [[49]] [32, 49, 32] :=
    @Stream.next [32] [49] [32] [] ws_space value_one (.done ws_space) fun _ => ⟨32, [], rfl, rfl⟩
  have hstream : Stream [[91, 49, 93], [49]] [91, 49, 93, 32, 49, 32] :=
    @Stream.next [] [91, 49, 93] [32, 49, 32] _ hws harray hone fun _ => ⟨32, _, rfl, rfl⟩
  exact json_stream_framed hstream (by decide) _ rfl

/-! ## Values that do not fit -/

/-- Without a buffer no byte is kept. -/
theorem append_no_buffer (r : JsonProtocolReader 0) (c : UInt8) :
    append r c = (reset (countOverflow r), false) := dif_pos (Nat.zero_le _)

theorem startLiteral_no_buffer (r : JsonProtocolReader 0) (literal : List UInt8) (c : UInt8) :
    (startLiteral r literal c).2 = [] ∧ Idle (startLiteral r literal c).1 := by
  simp only [startLiteral, consumeLiteralValue, append_no_buffer, Bool.false_eq_true, if_false]
  split <;> exact ⟨rfl, idle_reset _⟩

theorem consumeIdle_no_buffer {r : JsonProtocolReader 0} (hidle : Idle r) (c : UInt8) :
    (consumeIdle r c).2 = [] ∧ Idle (consumeIdle r c).1 := by
  simp only [consumeIdle, append_no_buffer, Bool.false_eq_true, if_false]
  repeat' split
  all_goals first
    | exact ⟨rfl, hidle⟩
    | exact ⟨rfl, idle_reset _⟩
    | exact startLiteral_no_buffer r _ c

theorem poll_no_buffer {r : JsonProtocolReader 0} (hidle : Idle r) (bytes : List UInt8) :
    (poll r bytes).2 = [] := by
  induction bytes generalizing r with
  | nil => rfl
  | cons c bytes ih =>
      have hstep : (readByte r c).2 = [] ∧ Idle (readByte r c).1 := by
        rw [readByte, consume, countByte_state, hidle.state]
        have hcounted : Idle (countByte r) := ⟨hidle.state, hidle.size, hidle.depth⟩
        exact consumeIdle_no_buffer hcounted c
      rw [poll]
      simp [hstep.1, ih hstep.2]

/-- A number of `k + 1` ones. -/
theorem number_ones (k : Nat) : Number (List.replicate (k + 1) 49) := by
  have hdigits : Digits (List.replicate k 49) := by
    intro d hd
    rw [List.eq_of_mem_replicate hd]
    rfl
  have h := @Number.mk [] (49 :: List.replicate k 49) [] [] (Or.inl rfl) (.digits rfl hdigits)
    .absent .absent
  simpa [List.replicate_succ] using h

/-- The last digit of a number of `N + 2` digits is emitted as a number. -/
theorem last_digit_emitted (hN : 0 < N) :
    (pollAll (fresh N {}) [List.replicate (N + 2) 49 ++ [32]]).2 = [[49]] := by
  obtain ⟨r₁, hdrop, hidle₁⟩ :=
    number_full (number_ones N) List.length_replicate (idle_fresh (N := N) {})
  obtain ⟨r₂, hone, hin⟩ := takes_number number_one r₁ [] ⟨hidle₁, rfl⟩ hN
  obtain ⟨r₀, hidle₀, hfrom⟩ := number_end (c := 32) hin number_one rfl
  obtain ⟨r₃, hspace, -⟩ := reads_ws ws_space hidle₀
  have hall := (hdrop.append hone).append (hfrom _ _ _ _ hspace)
  have hbytes : List.replicate (N + 2) 49 ++ [32]
      = List.replicate (N + 1) (49 : UInt8) ++ [49] ++ [32] := by
    rw [List.replicate_succ']
  rw [pollAll_eq_poll, List.flatten_singleton, hbytes, hall.poll]
  rfl

/-- **No oversized value is mis-framed, as long as no value has more than
`N + 1` bytes**; and that is the largest bound of which this is true. -/
theorem oversized_framed_iff (N B : Nat) :
    (∀ options vs bytes arrivals, Separated vs bytes → (∀ v ∈ vs, v.length ≤ B) →
        arrivals.flatten = bytes → ∀ m ∈ (pollAll (fresh N options) arrivals).2, m ∈ vs)
      ↔ N = 0 ∨ B ≤ N + 1 := by
  constructor
  · intro h
    by_contra hcon
    have hN : 0 < N := by omega
    have hvalue : Separated [List.replicate (N + 2) 49] (List.replicate (N + 2) 49 ++ [32]) :=
      @Separated.next [] _ [32] [] (by simp [Ws]) (.number (number_ones (N + 1)))
        (.done ws_space) ⟨32, [], rfl, rfl⟩
    have hlen : ∀ v ∈ [List.replicate (N + 2) (49 : UInt8)], v.length ≤ B := by
      intro v hv
      rw [List.mem_singleton.mp hv, List.length_replicate]
      omega
    have hmem := h {} _ _ [List.replicate (N + 2) 49 ++ [32]] hvalue hlen
      List.flatten_singleton [49] (by rw [last_digit_emitted hN]; simp)
    have hlength := congrArg List.length (List.mem_singleton.mp hmem)
    rw [List.length_replicate, List.length_singleton] at hlength
    omega
  · rintro hcase options vs bytes arrivals hsep hlen hsplit m hm
    rw [pollAll_eq_poll, hsplit] at hm
    rcases hcase with rfl | hB
    · rw [poll_no_buffer (idle_fresh options)] at hm
      cases hm
    · obtain ⟨r', hreads, -⟩ := reads_stream hsep.stream
        (fun v hv => Nat.le_trans (hlen v hv) hB) (idle_fresh (N := N) options)
      rw [hreads.poll] at hm
      exact (List.mem_filter.mp hm).1

/-- The four byte reader drops `[1,2,` from `[1,2,true] ` and emits `true`. -/
theorem nested_literal_emitted : ∃ vs bytes, Separated vs bytes
    ∧ trueText ∈ (poll (fresh 4 {}) bytes).2 ∧ trueText ∉ vs := by
  have hws : Ws [] := by simp [Ws]
  have htwo : Number [50] :=
    @Number.mk [] [50] [] [] (Or.inl rfl) (.digits rfl (by simp [Digits])) .absent .absent
  have hone : Text .elements [49] := @Text.element [] [49] [] hws value_one hws
  have htwos : Text .elements [50] := @Text.element [] [50] [] hws (.number htwo) hws
  have htrue : Text .elements trueText :=
    @Text.element [] trueText [] hws (.literal .true) hws
  have harray : Value [91, 49, 44, 50, 44, 116, 114, 117, 101, 93] :=
    .array (.moreElements (.moreElements hone htwos) htrue)
  exact ⟨_, _, @Separated.next [] _ [32] [] hws harray (.done ws_space) ⟨32, [], rfl, rfl⟩,
    by decide, by decide⟩

end JsonProtocolReader

end AsyncEventLoop
