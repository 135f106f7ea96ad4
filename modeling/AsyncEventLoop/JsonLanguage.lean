import Mathlib.Data.List.Induction
import Mathlib.Data.List.TakeWhile
import AsyncEventLoop.JsonUnended

/-!
# What the JSON reader accepts

A text is emitted at its last byte exactly if it is one of the framing grammar, and
at the byte behind it exactly if it is a number.

`Reading` says what the reader holds of a text of either kind that has not ended,
and `Turn` what one more byte does to it, whatever the byte: the text goes on or
ends, or the reader is idle again or at the first byte of another one. A reader
that has emitted nothing holds the last of the bytes it was given, and all of them
if nothing has gone wrong (`held`).
-/

namespace AsyncEventLoop

open FixedArray JsonGrammar

/-! ## Numbers -/

theorem digits_takeWhile (ds : List UInt8) : Digits (ds.takeWhile isDigit) :=
  fun _ hd => List.mem_takeWhile_imp hd

theorem digits_of_dropWhile {ds : List UInt8} (h : (ds.dropWhile isDigit).isEmpty = true) :
    Digits ds := by
  have hsplit := List.takeWhile_append_dropWhile (p := isDigit) (l := ds)
  rw [List.isEmpty_iff.mp h, List.append_nil] at hsplit
  rw [← hsplit]
  exact digits_takeWhile ds

theorem expPart_of_valid {t : List UInt8} (h : validExponent t = true) : ExpPart t := by
  cases t with
  | nil => exact .absent
  | cons e cs =>
      rw [validExponent] at h
      split at h
      · rename_i he
        -- what stands behind the sign
        have hrest : ∀ (sign : List UInt8) (d : UInt8) (ds : List UInt8),
            (sign = [] ∨ sign = [plus] ∨ sign = [minus]) →
            isDigit d = true ∧ (ds.dropWhile isDigit).isEmpty = true →
            ExpPart (e :: (sign ++ d :: ds)) :=
          fun sign d ds hsign hvalid => .digits he hsign hvalid.1 (digits_of_dropWhile hvalid.2)
        cases cs with
        | nil => cases h
        | cons c cs =>
            by_cases hsign : c = plus ∨ c = minus
            · have htail : (c :: cs).head? = some plus ∨ (c :: cs).head? = some minus := by
                simpa using hsign
              rw [if_pos htail] at h
              cases cs with
              | nil => cases h
              | cons d ds =>
                  have hvalid := (Bool.and_eq_true _ _).mp h
                  rcases hsign with rfl | rfl
                  · exact hrest [plus] d ds (Or.inr (Or.inl rfl)) hvalid
                  · exact hrest [minus] d ds (Or.inr (Or.inr rfl)) hvalid
            · have hnone : ¬ ((c :: cs).head? = some plus ∨ (c :: cs).head? = some minus) := by
                simpa using hsign
              rw [if_neg hnone] at h
              exact hrest [] c cs (Or.inl rfl) ((Bool.and_eq_true _ _).mp h)
      · cases h

theorem fracExp_of_valid {t : List UInt8} (h : validFraction t = true) :
    ∃ frac exp, t = frac ++ exp ∧ FracPart frac ∧ ExpPart exp := by
  cases t with
  | nil => exact ⟨[], [], rfl, .absent, .absent⟩
  | cons c cs =>
      by_cases hdot : c = dot
      · cases cs with
        | nil => simp [validFraction, hdot] at h
        | cons d ds =>
            rw [validFraction, if_pos hdot] at h
            obtain ⟨hd, hexp⟩ := (Bool.and_eq_true _ _).mp h
            refine ⟨dot :: d :: ds.takeWhile isDigit, ds.dropWhile isDigit, ?_,
              .digits hd (digits_takeWhile ds), expPart_of_valid hexp⟩
            rw [hdot, List.cons_append, List.cons_append, List.takeWhile_append_dropWhile]
      · have hexp : validExponent (c :: cs) = true := by simpa [validFraction, hdot] using h
        exact ⟨[], c :: cs, rfl, .absent, expPart_of_valid hexp⟩

/-- What passes `valid_number` is a number. -/
theorem number_of_valid {t : List UInt8} (h : validNumber t = true) : Number t := by
  -- behind the sign
  have hunsigned : ∀ (sign : List UInt8) (d : UInt8) (ds : List UInt8),
      (sign = [] ∨ sign = [minus]) →
      (if d = 48 then validFraction ds
        else if isNonzeroDigit d then validFraction (ds.dropWhile isDigit) else false) = true →
      Number (sign ++ d :: ds) := by
    intro sign d ds hsign hvalid
    split at hvalid
    · rename_i hzero
      obtain ⟨frac, exp, rfl, hfrac, hexp⟩ := fracExp_of_valid hvalid
      have hnumber := Number.mk hsign .zero hfrac hexp
      rw [hzero]
      simpa using hnumber
    · split at hvalid
      · rename_i hd
        obtain ⟨frac, exp, hrest, hfrac, hexp⟩ := fracExp_of_valid hvalid
        have hnumber := Number.mk hsign (.digits hd (digits_takeWhile ds)) hfrac hexp
        have hds : ds = ds.takeWhile isDigit ++ (frac ++ exp) := by
          rw [← hrest, List.takeWhile_append_dropWhile]
        rw [hds]
        simpa using hnumber
      · cases hvalid
  rw [validNumber] at h
  cases t with
  | nil => cases h
  | cons c cs =>
      by_cases hminus : c = minus
      · rw [if_pos (by simp [hminus])] at h
        cases cs with
        | nil => cases h
        | cons d ds =>
            rw [hminus]
            exact hunsigned [minus] d ds (Or.inr rfl) h
      · rw [if_neg (by simpa using hminus)] at h
        exact hunsigned [] c cs (Or.inl rfl) h

theorem validNumber_iff {t : List UInt8} : validNumber t = true ↔ Number t :=
  ⟨number_of_valid, validNumber_number⟩

namespace JsonProtocolReader

variable {N : Nat}

/-! ## One byte -/

/-- The reader holds `text`, the part of a text of either grammar that has been
read; nothing, if it is idle. -/
inductive Reading (r : JsonProtocolReader N) : (text : List UInt8) → Prop where
  | idle (h : Idle r) : Reading r []
  | inside {brackets text : List UInt8} (h : Inside brackets r text)
      (hopen : Unclosed brackets text) : Reading r text
  | quoted {brackets before chars : List UInt8} {escaped : Bool}
      (h : Quoted (some brackets) escaped r (before ++ quote :: chars))
      (hopen : Unclosed brackets before) (hchars : Unfinished chars escaped) :
      Reading r (before ++ quote :: chars)
  | string {chars : List UInt8} {escaped : Bool} (h : Quoted none escaped r (quote :: chars))
      (hchars : Unfinished chars escaped) : Reading r (quote :: chars)
  | number {text : List UInt8} (h : InNumber r text) (hbytes : NumberBytes text) : Reading r text
  | literal {literal : List UInt8} {k : Nat} (hl : Literal literal)
      (h : InLiteral literal (k + 1) r (literal.take (k + 1))) (hk : k + 1 < literal.length) :
      Reading r (literal.take (k + 1))

/-- What it holds may go on. -/
theorem Reading.unended {r : JsonProtocolReader N} {text : List UInt8} (h : Reading r text) :
    Unended text := by
  cases h with
  | idle _ => exact unended_nil
  | inside _ hopen =>
      obtain ⟨more, hmore, hframing⟩ := hopen.ends
      exact .framing more hmore hframing
  | @quoted brackets before chars escaped _ hopen hchars =>
      obtain ⟨more, hbody⟩ := hchars.ends
      obtain ⟨rest, -, hframing⟩ := (hopen.append (.string hbody .nil)).ends
      exact .framing (more ++ quote :: rest) (by simp) (by simpa using hframing)
  | @string chars escaped _ hchars =>
      obtain ⟨more, hbody⟩ := hchars.ends
      refine .framing (more ++ [quote]) (by simp) ?_
      have hframing := Framing.string hbody
      simpa using hframing
  | number _ hbytes => exact .number hbytes
  | literal hl _ hk => exact literal_unended hl hk

theorem Reading.holds {r : JsonProtocolReader N} {text : List UInt8} (h : Reading r text) :
    Holds r.buffer r.size text := by
  cases h with
  | idle h => exact h.holds
  | inside h _ => exact h.holds
  | quoted h _ _ => exact h.holds
  | string h _ => exact h.holds
  | number h _ => exact h.holds
  | literal _ h _ => exact h.holds

theorem Holds.fits_or_full {r : JsonProtocolReader N} {text : List UInt8}
    (h : Holds r.buffer r.size text) : text.length < N ∨ r.size = N := by
  rw [← h.size]
  exact Nat.lt_or_eq_of_le h.bounded

/-- What the byte `c` does to a reader that holds `text`: the text goes on or ends,
white space before it is skipped, what was read is dropped with an error or because
it fills the buffer, or a number is emitted. The byte behind a number is read again,
be the number malformed or not. -/
inductive Turn (r : JsonProtocolReader N) (text : List UInt8) (c : UInt8) : Prop where
  | more {r' : JsonProtocolReader N} (hreads : Reads r [c] [] r' 0) (h : Reading r' (text ++ [c]))
  | ends {r' : JsonProtocolReader N} (hreads : Reads r [c] [text ++ [c]] r' 0)
      (hframing : Framing (text ++ [c])) (hidle : Idle r')
  | skips {r' : JsonProtocolReader N} (htext : text = []) (hws : isWs c = true)
      (hreads : Reads r [c] [] r' 0) (hidle : Idle r')
  | drops {rest : List UInt8} (errors : UInt32) (hrest : rest = [] ∨ (rest = [c] ∧ text ≠ []))
      (hout : (readByte r c).2 = []) (h : Reading (readByte r c).1 rest)
      (herrors : (readByte r c).1.stats.protocolErrors = r.stats.protocolErrors + errors)
      (hcount : errors = 1 ∨ errors = 2) (hbreaks : Breaks N text c)
  | overflows {r' : JsonProtocolReader N} (hreads : Reads r [c] [] r' 1) (hidle : Idle r')
      (hgoes : Delimited text ∨ Unended (text ++ [c]) ∨ Framing (text ++ [c]))
  | number {rest : List UInt8} (hnumber : Number text) (hc : isNumberByte c = false)
      (hrest : rest = [] ∨ rest = [c]) (hout : (readByte r c).2 = [text])
      (h : Reading (readByte r c).1 rest)

theorem Reads.readByte {r r' : JsonProtocolReader N} {c : UInt8} {out : List (List UInt8)}
    {k : Nat} (h : Reads r [c] out r' k) : readByte r c = (r', out) := by
  have hpoll := h.poll
  simpa [JsonProtocolReader.poll, Prod.ext_iff] using hpoll

/-- The first byte of a literal. -/
theorem takes_startLiteral {literal : List UInt8} (hl : Literal literal) {c : UInt8}
    (hc : literal.head? = some c) : Takes (N := N) Starting (InLiteral literal 1) [c] := by
  have hrecognised := recognised_literal hl
  obtain ⟨d, hd⟩ : ∃ d, literal[1]? = some d := by cases hl <;> exact ⟨_, rfl⟩
  have hfirst : literal[0]? = some c := by rw [← List.head?_eq_getElem?, hc]
  rintro r text ⟨hidle, rfl⟩ hlen
  obtain ⟨r₀, hin, hfrom⟩ := literal_start hrecognised hidle
  obtain ⟨r', hreads, hend⟩ := takes_literalByte hrecognised hfirst hd r₀ [] hin hlen
  exact ⟨r', hfrom c [] [] r' 0 hc hreads, hend⟩

/-- Between two texts a byte begins one, is white space, or is an error. -/
theorem idle_turn {r : JsonProtocolReader N} (h : Idle r) (hN : 0 < N) (c : UInt8) :
    (∃ r', Reads r [c] [] r' 0 ∧ Reading r' [c])
      ∨ (isWs c = true ∧ ∃ r', Reads r [c] [] r' 0 ∧ Idle r')
      ∨ (Breaks N [] c ∧ readByte r c = (reset (countError (countByte r)), [])) := by
  have hstart : Starting r [] := ⟨h, rfl⟩
  by_cases hws : isWs c = true
  · exact Or.inr (Or.inl ⟨hws, reads_ws (by simpa [Ws] using hws) h⟩)
  by_cases hbracket : c = lbrace ∨ c = lbracket
  · have hm : ∃ d, Matching c d := by
      rcases hbracket with rfl | rfl
      · exact ⟨rbrace, matching_object⟩
      · exact ⟨rbracket, matching_array⟩
    obtain ⟨d, hm⟩ := hm
    obtain ⟨r', hreads, hin⟩ := takes_startBracket hm r [] hstart hN
    exact Or.inl ⟨r', hreads, .inside hin (.outermost hm .nil)⟩
  by_cases hquote : c = quote
  · subst hquote
    obtain ⟨r', hreads, hin⟩ := takes_startQuote r [] hstart hN
    exact Or.inl ⟨r', hreads, .string hin .nil⟩
  by_cases hnumber : c = minus ∨ isDigit c = true
  · obtain ⟨r', hreads, hin⟩ := takes_startNumber hnumber r [] hstart hN
    refine Or.inl ⟨r', hreads, .number hin ⟨⟨c, [], rfl, hnumber⟩, ?_⟩⟩
    refine List.forall_mem_singleton.mpr ?_
    rcases hnumber with rfl | hdigit
    · rfl
    · exact isNumberByte_of_isDigit hdigit
  have hliteral : ∀ {literal : List UInt8}, Literal literal → literal.head? = some c →
      ∃ r', Reads r [c] [] r' 0 ∧ Reading r' [c] := by
    intro literal hl hc
    obtain ⟨r', hreads, hin⟩ := takes_startLiteral hl hc r [] hstart hN
    have hk : 0 + 1 < literal.length := by cases hl <;> decide
    have htake : literal.take (0 + 1) = [c] := by
      rw [List.take_one, hc]
      rfl
    have hreading := Reading.literal hl (htake ▸ hin) hk
    rw [htake] at hreading
    exact ⟨r', hreads, hreading⟩
  by_cases htrue : c = 116
  · exact Or.inl (hliteral .true (by rw [htrue]; rfl))
  by_cases hfalse : c = 102
  · exact Or.inl (hliteral .false (by rw [hfalse]; rfl))
  by_cases hnull : c = 110
  · exact Or.inl (hliteral .null (by rw [hnull]; rfl))
  have hframing (more : List UInt8) : ¬Framing ([c] ++ more) := by
    intro hframing
    rcases hframing.head with (hc | hc) | hc | hc | hc
    · exact hquote hc
    · exact hbracket hc
    · exact htrue hc
    · exact hfalse hc
    · exact hnull hc
  have hended : ¬Unended [c] := by
    intro hended
    cases hended with
    | framing more _ h => exact hframing more h
    | number h =>
        obtain ⟨⟨d, ds, heq, hd⟩, -⟩ := h
        obtain ⟨rfl, -⟩ := List.cons.inj heq
        exact hnumber hd
  refine Or.inr (Or.inr ⟨⟨.inl hN, fun _ => by simpa using hws, hended, hframing []⟩, ?_⟩)
  simp [readByte, consume, h.state, consumeIdle, hws, hbracket, hquote, hnumber, htrue, hfalse,
    hnull]

/-- A bracket of the wrong kind. -/
theorem inside_mismatch {r : JsonProtocolReader N} {outer text : List UInt8} {o c : UInt8}
    (h : Inside (outer ++ [o]) r text) (ho : o = lbrace ∨ o = lbracket) (hfit : r.size < N)
    (hc : c = rbrace ∨ c = rbracket) (hm : ¬ Matching o c) :
    readByte r c = (reset (countError (r.pushed c hfit)), []) := by
  have hpop : popContainer (r.pushed c hfit) c = (reset (countError (r.pushed c hfit)), false) :=
    popContainer_mismatch ho hm (Nat.le_trans h.depth (Nat.le_of_lt hfit)) h.brackets
  have hclosing : c ≠ quote ∧ ¬ (c = lbrace ∨ c = lbracket) := by
    rcases hc with rfl | rfl <;> decide
  simp [readByte, consume, h.state, consumeContainer, append_fits _ hfit, h.inString, hpop,
    hclosing, hc]

theorem inside_turn {r : JsonProtocolReader N} {brackets text : List UInt8}
    (h : Inside brackets r text) (hopen : Unclosed brackets text) (hlen : text.length < N)
    (c : UInt8) : Turn r text c := by
  by_cases hquote : c = quote
  · subst hquote
    obtain ⟨r', hreads, hin⟩ := takes_quote r text h hlen
    exact .more hreads (.quoted hin hopen .nil)
  by_cases hbracket : c = lbrace ∨ c = lbracket
  · have hm : ∃ d, Matching c d := by
      rcases hbracket with rfl | rfl
      · exact ⟨rbrace, matching_object⟩
      · exact ⟨rbracket, matching_array⟩
    obtain ⟨d, hm⟩ := hm
    obtain ⟨r', hreads, hin⟩ := takes_open hm r text h hlen
    exact .more hreads (.inside hin (.within hopen hm .nil))
  by_cases hclose : c = rbrace ∨ c = rbracket
  · obtain ⟨outer, o, d, rfl, ho⟩ := hopen.last
    by_cases hm : Matching o c
    · rcases hopen.close hm with ⟨rfl, hframing⟩ | ⟨hne, hclosed⟩
      · obtain ⟨r', hreads, hidle⟩ := (ends_close hm).fits r text h hlen
        exact .ends hreads hframing hidle
      · obtain ⟨r', hreads, hin⟩ := takes_close hne hm r text h hlen
        exact .more hreads (.inside hin hclosed)
    · have hfit : r.size < N := by rw [h.holds.size]; exact hlen
      have hbyte := inside_mismatch h ho.opening.2 hfit hclose hm
      obtain ⟨hended, hframing⟩ := hopen.mismatch ho.opening.2 hclose hm
      obtain ⟨b, bs, hfirst, -⟩ := hopen.first
      refine .drops 1 (Or.inl rfl) (by rw [hbyte]) (.idle (by rw [hbyte]; exact idle_reset _))
        (by rw [hbyte]; rfl) (Or.inl rfl) ⟨.inl hlen, fun hnil => ?_, hended, hframing⟩
      rw [hfirst] at hnil
      cases hnil
  · have hplain : isPlain c = true := by
      rw [not_or] at hbracket hclose
      simp [isPlain, hquote, hbracket, hclose]
    obtain ⟨r', hreads, hin⟩ := takes_plain hplain r text h hlen
    exact .more hreads (.inside hin (hopen.append (.plain hplain .nil)))

theorem quoted_turn {r : JsonProtocolReader N} {brackets before chars : List UInt8}
    {escaped : Bool} (h : Quoted (some brackets) escaped r (before ++ quote :: chars))
    (hopen : Unclosed brackets before) (hchars : Unfinished chars escaped)
    (hlen : (before ++ quote :: chars).length < N) (c : UInt8) :
    Turn r (before ++ quote :: chars) c := by
  have hassoc : before ++ quote :: chars ++ [c] = before ++ quote :: (chars ++ [c]) := by simp
  by_cases hend : escaped = true ∨ c ≠ quote
  · obtain ⟨r', hreads, hin⟩ := takes_char hend r _ h hlen
    rw [hassoc] at hin
    have hreading := Reading.quoted hin hopen (hchars.next hend)
    rw [← hassoc] at hreading
    exact .more hreads hreading
  · rw [not_or, not_not] at hend
    obtain ⟨hescaped, rfl⟩ := hend
    obtain rfl := Bool.eq_false_iff.mpr hescaped
    obtain ⟨r', hreads, hin⟩ := takes_endQuote r _ h hlen
    have hstring := hopen.append (.string hchars .nil)
    rw [← hassoc] at hstring
    exact .more hreads (.inside hin hstring)

theorem string_turn {r : JsonProtocolReader N} {chars : List UInt8} {escaped : Bool}
    (h : Quoted none escaped r (quote :: chars)) (hchars : Unfinished chars escaped)
    (hlen : (quote :: chars).length < N) (c : UInt8) : Turn r (quote :: chars) c := by
  by_cases hend : escaped = true ∨ c ≠ quote
  · obtain ⟨r', hreads, hin⟩ := takes_char hend r _ h hlen
    exact .more hreads (.string hin (hchars.next hend))
  · rw [not_or, not_not] at hend
    obtain ⟨hescaped, rfl⟩ := hend
    obtain rfl := Bool.eq_false_iff.mpr hescaped
    obtain ⟨r', hreads, hidle⟩ := ends_quote.fits r _ h hlen
    exact .ends hreads (.string hchars) hidle

/-- The byte behind what is no number is read again, by a reader that has counted
the error. -/
theorem number_malformed {r : JsonProtocolReader N} {text : List UInt8} (h : InNumber r text)
    (hnot : ¬ Number text) {c : UInt8} (hc : isNumberByte c = false) :
    readByte r c = readByte (reset (countError r)) c := by
  have hvalid : validNumber (front r.countByte.buffer r.countByte.size) = false := by
    rw [show front r.countByte.buffer r.countByte.size = text from h.holds.text,
      Bool.eq_false_iff]
    exact fun hvalid => hnot (validNumber_iff.mp hvalid)
  have hagain : readByte (reset (countError r)) c
      = consumeIdle (reset (countError r.countByte)) c := rfl
  rw [hagain, readByte, consume, countByte_state, h.state]
  simp [consumeNumberValue, hc, hvalid]

/-- The byte behind a number, which is read again. -/
theorem number_emitted {r : JsonProtocolReader N} {text : List UInt8} (h : InNumber r text)
    (hnumber : Number text) (hN : 0 < N) {c : UInt8} (hc : isNumberByte c = false) :
    ∃ rest, (rest = [] ∨ rest = [c]) ∧ (readByte r c).2 = [text]
      ∧ Reading (readByte r c).1 rest := by
  have hemits := number_ends h hnumber hc
  rcases idle_turn (idle_reset _) hN c with
    ⟨r', hreads, hreading⟩ | ⟨-, r', hreads, hidle⟩ | ⟨-, herror⟩
  · have hbyte := hemits.trans (by rw [emitJson, hreads.readByte])
    exact ⟨[c], Or.inr rfl, by rw [hbyte], by rw [hbyte]; exact hreading⟩
  · have hbyte := hemits.trans (by rw [emitJson, hreads.readByte])
    exact ⟨[], Or.inl rfl, by rw [hbyte], by rw [hbyte]; exact .idle hidle⟩
  · have hbyte := hemits.trans (by rw [emitJson, herror])
    exact ⟨[], Or.inl rfl, by rw [hbyte], by rw [hbyte]; exact .idle (idle_reset _)⟩

theorem number_turn {r : JsonProtocolReader N} {text : List UInt8} (h : InNumber r text)
    (hbytes : NumberBytes text) (hskip : r.options.skipLeadingWhitespace = true) (c : UInt8) :
    Turn r text c := by
  have hne : text ≠ [] := by
    obtain ⟨⟨b, bs, rfl, -⟩, -⟩ := hbytes
    exact List.cons_ne_nil b bs
  have hN : 0 < N :=
    Nat.lt_of_lt_of_le (List.length_pos_iff.mpr hne) (h.holds.size ▸ h.holds.bounded)
  cases hc : isNumberByte c with
  | true =>
      have hmore := hbytes.more hc
      rcases h.holds.fits_or_full with hlen | hfull
      · obtain ⟨r', hreads, hin⟩ := takes_numberByte hc r text h hlen
        exact .more hreads (.number hin hmore)
      · exact .overflows (numberByte_full h.state hfull hc) (idle_reset _)
          (.inr (.inl (.number hmore)))
  | false =>
      by_cases hnumber : Number text
      · obtain ⟨rest, hrest, hout, hreading⟩ := number_emitted h hnumber hN hc
        exact .number hnumber hc hrest hout hreading
      · have hagain := number_malformed h hnumber hc
        have hoption : (reset (countError r)).options.skipLeadingWhitespace = true := hskip
        obtain ⟨hended, hframing⟩ := hbytes.ends hc
        have hbreaks : Breaks N text c :=
          ⟨.inr hbytes.not_delimited, fun hnil => absurd hnil hne, hended, hframing⟩
        rcases idle_turn (idle_reset (countError r)) hN c with
          ⟨r', hreads, hreading⟩ | ⟨-, r', hreads, hidle⟩ | ⟨-, herror⟩
        · have hbyte := hagain.trans hreads.readByte
          exact .drops 1 (Or.inr ⟨rfl, hne⟩) (by rw [hbyte]) (by rw [hbyte]; exact hreading)
            (by rw [hbyte]; exact hreads.errors hoption) (Or.inl rfl) hbreaks
        · have hbyte := hagain.trans hreads.readByte
          exact .drops 1 (Or.inl rfl) (by rw [hbyte]) (.idle (by rw [hbyte]; exact hidle))
            (by rw [hbyte]; exact hreads.errors hoption) (Or.inl rfl) hbreaks
        · have hbyte := hagain.trans herror
          refine .drops 2 (Or.inl rfl) (by rw [hbyte]) (.idle (by rw [hbyte]; exact idle_reset _))
            ?_ (Or.inr rfl) hbreaks
          rw [hbyte]
          exact UInt32.add_assoc _ 1 1

/-- A byte that is not the one a literal goes on with. -/
theorem literal_mismatch {r : JsonProtocolReader N} {literal text : List UInt8} {k : Nat}
    {c d : UInt8} (h : InLiteral literal k r text) (hd : literal[k]? = some d) (hne : c ≠ d) :
    readByte r c = (reset (countError (countByte r)), []) := by
  have hsome : r.countByte.literal = some literal := h.literal
  have hbyte : literalByte (countByte r) = d := by
    have hpos : r.countByte.literalPos = k := h.literalPos
    simp [literalByte, hsome, hpos, hd]
  rw [readByte, consume, countByte_state, h.state]
  exact if_pos (Or.inr (Or.inr (by rw [hbyte]; exact Ne.symm hne)))

theorem literal_turn {r : JsonProtocolReader N} {literal : List UInt8} {k : Nat}
    (hl : Literal literal) (h : InLiteral literal (k + 1) r (literal.take (k + 1)))
    (hk : k + 1 < literal.length) (c : UInt8) : Turn r (literal.take (k + 1)) c := by
  have hrecognised := recognised_literal hl
  have hd : literal[k + 1]? = some literal[k + 1] := List.getElem?_eq_getElem hk
  by_cases hc : c = literal[k + 1]
  · rw [← hc] at hd
    have htake : literal.take (k + 1) ++ [c] = literal.take (k + 2) := by
      rw [hc, ← List.take_succ_eq_append_getElem hk]
    rcases h.holds.fits_or_full with hlen | hfull
    · by_cases hmore : k + 2 < literal.length
      · obtain ⟨r', hreads, hin⟩ := takes_literalByte hrecognised hd
          (List.getElem?_eq_getElem hmore) r _ h hlen
        rw [htake] at hin
        have hreading := Reading.literal hl hin hmore
        rw [← htake] at hreading
        exact .more hreads hreading
      · have hlast : literal[k + 1 + 1]? = none := List.getElem?_eq_none (Nat.le_of_not_lt hmore)
        obtain ⟨r', hreads, hidle⟩ := (ends_literal hrecognised hd hlast).fits r _ h hlen
        have hwhole : literal.take (k + 2) = literal :=
          List.take_of_length_le (Nat.le_of_not_lt hmore)
        refine .ends hreads ?_ hidle
        rw [htake, hwhole]
        exact .literal hl
    · refine .overflows (literal_full hrecognised hd h hfull) (idle_reset _) (.inr ?_)
      rw [htake]
      exact literal_goes_on hl
  · have hbyte := literal_mismatch h hd hc
    obtain ⟨hended, hframing⟩ := literal_ends hl hk hc
    obtain ⟨hnil, hdelimited⟩ := literal_not_delimited hl (k := k)
    exact .drops 1 (Or.inl rfl) (by rw [hbyte]) (.idle (by rw [hbyte]; exact idle_reset _))
      (by rw [hbyte]; rfl) (Or.inl rfl)
      ⟨.inr hdelimited, fun h => absurd h hnil, hended, hframing⟩

/-- **The byte lemma.** -/
theorem Reading.turn {r : JsonProtocolReader N} {text : List UInt8} (h : Reading r text)
    (hskip : r.options.skipLeadingWhitespace = true) (hN : 0 < N) (c : UInt8) :
    Turn r text c := by
  have hroom := h.holds.fits_or_full
  cases h with
  | idle h =>
      rcases idle_turn h hN c with
        ⟨r', hreads, hreading⟩ | ⟨hws, r', hreads, hidle⟩ | ⟨hbreaks, herror⟩
      · exact .more hreads hreading
      · exact .skips rfl hws hreads hidle
      · exact .drops 1 (Or.inl rfl) (by rw [herror]) (.idle (by rw [herror]; exact idle_reset _))
          (by rw [herror]; rfl) (Or.inl rfl) hbreaks
  | inside h hopen =>
      rcases hroom with hlen | hfull
      · exact inside_turn h hopen hlen c
      · obtain ⟨b, bs, hfirst, hb⟩ := hopen.first
        exact .overflows (container_full h.state hfull c) (idle_reset _)
          (.inl ⟨b, bs, hfirst, .inr hb⟩)
  | quoted h hopen hchars =>
      rcases hroom with hlen | hfull
      · exact quoted_turn h hopen hchars hlen c
      · obtain ⟨b, bs, rfl, hb⟩ := hopen.first
        exact .overflows (container_full (h.container _ rfl).1 hfull c) (idle_reset _)
          (.inl ⟨b, _, rfl, .inr hb⟩)
  | string h hchars =>
      rcases hroom with hlen | hfull
      · exact string_turn h hchars hlen c
      · exact .overflows (string_full (h.value rfl) hfull c) (idle_reset _)
          (.inl ⟨quote, _, rfl, .inl rfl⟩)
  | number h hbytes => exact number_turn h hbytes hskip c
  | literal hl h hk => exact literal_turn hl h hk c

/-! ## Every byte -/

section Options

variable (r : JsonProtocolReader N) (c : UInt8)

@[simp] theorem reset_options : (reset r).options = r.options := rfl

@[simp] theorem append_options : (append r c).1.options = r.options := by
  unfold append
  split <;> rfl

@[simp] theorem pushContainer_options : (pushContainer r c).1.options = r.options := by
  unfold pushContainer
  split <;> rfl

@[simp] theorem popContainer_options : (popContainer r c).1.options = r.options := by
  unfold popContainer
  dsimp only
  split_ifs <;> rfl

@[simp] theorem consumeLiteralValue_options :
    (consumeLiteralValue r c).1.options = r.options := by
  unfold consumeLiteralValue
  dsimp only
  split_ifs
  · rfl
  · exact append_options r c
  · exact append_options r c
  · exact append_options r c

@[simp] theorem consumeIdle_options : (consumeIdle r c).1.options = r.options := by
  have hliteral (literal : List UInt8) : (startLiteral r literal c).1.options = r.options :=
    consumeLiteralValue_options _ c
  unfold consumeIdle
  dsimp only
  split_ifs <;> simp [hliteral, countError]

theorem readByte_options : (readByte r c).1.options = r.options := by
  unfold readByte consume
  split
  · exact consumeIdle_options _ c
  · unfold consumeContainer
    dsimp only
    split_ifs <;> simp [emitJson, countByte]
  · unfold consumeStringValue
    dsimp only
    split_ifs <;> simp [emitJson, countByte]
  · unfold consumeNumberValue
    dsimp only
    split_ifs <;> simp [emitJson, countByte, countError]
  · exact consumeLiteralValue_options _ c

end Options

theorem poll_options (r : JsonProtocolReader N) (bytes : List UInt8) :
    (poll r bytes).1.options = r.options := by
  induction bytes generalizing r with
  | nil => rfl
  | cons c bytes ih => exact (ih _).trans (readByte_options r c)

/-- Between two values of a stream. -/
theorem idle_of_state {before : List UInt8} {options : JsonProtocolOptions}
    (h : (poll (fresh N options) before).1.state = .idle) :
    Idle (poll (fresh N options) before).1 := by
  have hinv := (state_invariant N options before).1.state
  rw [StateInv, h] at hinv
  exact ⟨h, hinv.1, hinv.2⟩

theorem poll_snoc (r : JsonProtocolReader N) (bytes : List UInt8) (c : UInt8) :
    poll r (bytes ++ [c])
      = ((readByte (poll r bytes).1 c).1, (poll r bytes).2 ++ (readByte (poll r bytes).1 c).2) := by
  rw [poll_append]
  simp [poll]

/-- Neither a message nor an error, at any byte of it. -/
def Silent (r : JsonProtocolReader N) (bytes : List UInt8) : Prop :=
  ∀ p, p <+: bytes → (poll r p).2 = []
    ∧ (poll r p).1.stats.protocolErrors = r.stats.protocolErrors
    ∧ (poll r p).1.stats.overflows = r.stats.overflows

theorem Silent.nil (r : JsonProtocolReader N) : Silent r [] := by
  intro p hp
  obtain rfl := List.prefix_nil.mp hp
  exact ⟨rfl, rfl, rfl⟩

theorem Silent.init {r : JsonProtocolReader N} {bytes : List UInt8} {c : UInt8}
    (h : Silent r (bytes ++ [c])) : Silent r bytes :=
  fun p hp => h p (hp.trans (List.prefix_append bytes [c]))

theorem Silent.more {r r' : JsonProtocolReader N} {bytes : List UInt8} {c : UInt8}
    (h : Silent r bytes) (hskip : (poll r bytes).1.options.skipLeadingWhitespace = true)
    (hreads : Reads (poll r bytes).1 [c] [] r' 0) : Silent r (bytes ++ [c]) := by
  intro p hp
  rcases List.prefix_concat_iff.mp hp with rfl | hbefore
  · obtain ⟨hout, herrors, hoverflows⟩ := h bytes (List.prefix_refl bytes)
    rw [poll_snoc, hreads.readByte]
    refine ⟨by simp [hout], (hreads.errors hskip).trans herrors, ?_⟩
    rw [hreads.overflows, hoverflows]
    exact UInt32.add_zero _
  · exact h p hbefore

/-- What a reader holds that has emitted nothing: the last of the bytes, and all of
them if it was silent from the first byte of `text` on. -/
theorem held {r : JsonProtocolReader N} (hidle : Idle r)
    (hskip : r.options.skipLeadingWhitespace = true) (hN : 0 < N) {bytes : List UInt8}
    (hout : (poll r bytes).2 = []) :
    ∃ before text, bytes = before ++ text ∧ Reading (poll r bytes).1 text
      ∧ (before = [] → Silent r bytes) ∧ (Silent r bytes → Ws before) := by
  induction bytes using List.reverseRecOn with
  | nil => exact ⟨[], [], rfl, .idle hidle, fun _ => .nil r, fun _ => List.forall_mem_nil _⟩
  | append_singleton bytes c ih =>
      rw [poll_snoc] at hout
      obtain ⟨hbefore, hlast⟩ := List.append_eq_nil_iff.mp hout
      obtain ⟨before, text, hbytes, hreading, hsilent, hws⟩ := ih hbefore
      have hskip' : (poll r bytes).1.options.skipLeadingWhitespace = true := by
        rw [poll_options, hskip]
      have hafter : (poll r (bytes ++ [c])).1 = (readByte (poll r bytes).1 c).1 := by
        rw [poll_snoc]
      rw [hafter]
      cases hreading.turn hskip' hN c with
      | more hreads h =>
          rw [hreads.readByte]
          refine ⟨before, text ++ [c], by rw [hbytes, List.append_assoc], h, fun hnil => ?_,
            fun h => hws h.init⟩
          exact (hsilent hnil).more hskip' hreads
      | ends hreads _ _ =>
          rw [hreads.readByte] at hlast
          cases hlast
      | skips htext hc hreads hidle' =>
          rw [hreads.readByte]
          refine ⟨before ++ [c], [], by rw [hbytes, htext]; simp, .idle hidle', by simp, ?_⟩
          intro h
          exact List.forall_mem_append.mpr ⟨hws h.init, List.forall_mem_singleton.mpr hc⟩
      | drops errors hrest _ h herrors hcount _ =>
          -- an error cannot go unnoticed
          have hloud : ¬ Silent r (bytes ++ [c]) := by
            intro h
            have hwhole := (h _ (List.prefix_refl _)).2.1
            rw [hafter, herrors, (h.init _ (List.prefix_refl _)).2.1] at hwhole
            rcases hcount with rfl | rfl <;> exact absurd hwhole (by simp)
          rcases hrest with rfl | ⟨rfl, hne⟩
          · exact ⟨bytes ++ [c], [], by simp, h, by simp, fun h => absurd h hloud⟩
          · refine ⟨bytes, _, rfl, h, fun hnil => ?_, fun h => absurd h hloud⟩
            rw [hbytes] at hnil
            exact absurd (List.append_eq_nil_iff.mp hnil).2 hne
      | overflows hreads hidle' _ =>
          rw [hreads.readByte]
          refine ⟨bytes ++ [c], [], by simp, .idle hidle', by simp, fun h => ?_⟩
          have hwhole := (h _ (List.prefix_refl _)).2.2
          rw [hafter, hreads.readByte, hreads.overflows, (h.init _ (List.prefix_refl _)).2.2]
            at hwhole
          exact absurd hwhole (by simp)
      | number _ _ _ hnumber _ =>
          rw [hnumber] at hlast
          cases hlast

/-! ## What is accepted -/

/-- The reader emits all of `w` at its last byte, and nothing happens before. -/
def EmitsWhole (r : JsonProtocolReader N) (w : List UInt8) : Prop :=
  ∃ init last, w = init ++ [last] ∧ Silent r init ∧ (readByte (poll r init).1 last).2 = [w]

/-- The reader emits `w` at the byte `t` behind it, and nothing happens before. -/
def EmitsNumber (r : JsonProtocolReader N) (w : List UInt8) (t : UInt8) : Prop :=
  Silent r w ∧ (readByte (poll r w).1 t).2 = [w]

/-- What one byte can make the reader emit. -/
theorem Turn.emits {r : JsonProtocolReader N} {text w : List UInt8} {c : UInt8}
    (h : Turn r text c) (hout : (readByte r c).2 = [w]) :
    (w = text ++ [c] ∧ Framing w) ∨ (w = text ∧ Number w ∧ isNumberByte c = false) := by
  cases h with
  | more hreads _ | skips _ _ hreads _ | overflows hreads _ _ =>
      rw [hreads.readByte] at hout
      cases hout
  | ends hreads hframing _ =>
      rw [hreads.readByte] at hout
      obtain rfl := List.singleton_inj.mp hout
      exact Or.inl ⟨rfl, hframing⟩
  | drops _ _ hnone _ _ _ _ =>
      rw [hnone] at hout
      cases hout
  | number hnumber hc _ htext _ =>
      rw [htext] at hout
      obtain rfl := List.singleton_inj.mp hout
      exact Or.inr ⟨rfl, hnumber, hc⟩

/-- A reader that emits all it was given was silent before, and what it emits is of
the grammar. -/
theorem emitted_whole {r : JsonProtocolReader N} (hidle : Idle r)
    (hskip : r.options.skipLeadingWhitespace = true) (hN : 0 < N) {init : List UInt8}
    {last : UInt8} (hinit : (poll r init).2 = [])
    (hout : (readByte (poll r init).1 last).2 = [init ++ [last]]) :
    Framing (init ++ [last]) ∧ Silent r init := by
  obtain ⟨before, text, hbytes, hreading, hsilent, -⟩ := held hidle hskip hN hinit
  have hskip' : (poll r init).1.options.skipLeadingWhitespace = true := by
    rw [poll_options, hskip]
  have hle : text.length ≤ init.length := by simp [hbytes]
  rcases (hreading.turn hskip' hN last).emits hout with ⟨hw, hframing⟩ | ⟨hw, -, -⟩
  · refine ⟨hframing, hsilent ?_⟩
    rw [List.append_cancel_right hw] at hbytes
    simpa using hbytes
  · have hlen := congrArg List.length hw
    simp at hlen
    omega

theorem emitted_number {r : JsonProtocolReader N} (hidle : Idle r)
    (hskip : r.options.skipLeadingWhitespace = true) (hN : 0 < N) {w : List UInt8} {t : UInt8}
    (ht : isNumberByte t = false) (hw : (poll r w).2 = [])
    (hout : (readByte (poll r w).1 t).2 = [w]) :
    (Silent r w → Number w) ∧ (Number w → Silent r w) := by
  obtain ⟨before, text, hbytes, hreading, hsilent, hws⟩ := held hidle hskip hN hw
  have hskip' : (poll r w).1.options.skipLeadingWhitespace = true := by
    rw [poll_options, hskip]
  rcases (hreading.turn hskip' hN t).emits hout with ⟨hend, hframing⟩ | ⟨hend, hnumber, -⟩
  · refine ⟨fun h => ?_, fun h => ?_⟩
    · -- then `w` is one byte of white space and all of `text`
      obtain ⟨c, cs, hfirst, hc, -⟩ := hframing.first
      have hone : before.length = 1 := by
        have hlen := congrArg List.length (hbytes.symm.trans hend)
        simp at hlen
        omega
      obtain ⟨b, rfl⟩ := List.length_eq_one_iff.mp hone
      have hb : b = c := by
        rw [hfirst] at hbytes
        exact (List.cons.inj hbytes).1.symm
      have hspace := hws h b (List.mem_singleton_self b)
      rw [hb, hc] at hspace
      cases hspace
    · have htbyte := h.bytes t (by rw [hend]; simp)
      rw [ht] at htbyte
      cases htbyte
  · refine ⟨fun _ => hnumber, fun _ => hsilent ?_⟩
    rw [← hend] at hbytes
    simpa using hbytes

/-- **The reader accepts its framing grammar**, and the numbers, and nothing else:
between two texts of any stream. -/
theorem accepts_iff {N : Nat} {before w : List UInt8}
    (hidle : (poll (fresh N {}) before).1.state = .idle) (hne : w ≠ []) (hlen : w.length ≤ N) :
    (EmitsWhole (poll (fresh N {}) before).1 w ↔ Framing w)
      ∧ ∀ t, isNumberByte t = false →
        (EmitsNumber (poll (fresh N {}) before).1 w t ↔ Number w)
          ∧ (EmitsNumber (poll (fresh N {}) before).1 w t →
            (poll (poll (fresh N {}) before).1 w).1.state = .numberValue) := by
  have hN : 0 < N := Nat.lt_of_lt_of_le (List.length_pos_iff.mpr hne) hlen
  have hskip : (poll (fresh N {}) before).1.options.skipLeadingWhitespace = true := by
    rw [poll_options]
    rfl
  have hstart := idle_of_state hidle
  generalize (poll (fresh N {}) before).1 = r at hskip hstart
  -- a number is read in full before the byte behind it
  have hread (hnumber : Number w) : ∃ r', Reads r w [] r' 0 ∧ InNumber r' w :=
    takes_number hnumber r [] ⟨hstart, rfl⟩ (by simpa using hlen)
  refine ⟨⟨?_, ?_⟩, fun t ht => ?_⟩
  · rintro ⟨init, last, rfl, hsilent, hout⟩
    exact (emitted_whole hstart hskip hN (hsilent init (List.prefix_refl init)).1 hout).1
  · intro hframing
    obtain ⟨init, last, rfl, hstaged⟩ := hframing.staged hstart
    obtain ⟨r₁, r', hreads, hlast, -⟩ := hstaged.fits hlen
    have hinit : (poll r init).2 = [] := by rw [hreads.poll]
    have hout : (readByte (poll r init).1 last).2 = [init ++ [last]] := by
      rw [hreads.poll, hlast.readByte]
    exact ⟨init, last, rfl, (emitted_whole hstart hskip hN hinit hout).2, hout⟩
  · have hsound : EmitsNumber r w t → Number w := by
      rintro ⟨hsilent, hout⟩
      exact (emitted_number hstart hskip hN ht (hsilent w (List.prefix_refl w)).1 hout).1 hsilent
    refine ⟨⟨hsound, fun hnumber => ?_⟩, fun hemits => ?_⟩
    · obtain ⟨r', hreads, hin⟩ := hread hnumber
      have hw : (poll r w).2 = [] := by rw [hreads.poll]
      have hout : (readByte (poll r w).1 t).2 = [w] := by
        obtain ⟨rest, -, htext, -⟩ := number_emitted hin hnumber hN ht
        rw [hreads.poll, htext]
      exact ⟨(emitted_number hstart hskip hN ht hw hout).2 hnumber, hout⟩
    · obtain ⟨r', hreads, hin⟩ := hread (hsound hemits)
      rw [hreads.poll]
      exact hin.state

/-- `[]`, which ends itself, and `1` in front of a space. -/
theorem accepts_iff_array :
    EmitsWhole (poll (fresh 2 {}) []).1 [91, 93] ∧ EmitsNumber (poll (fresh 2 {}) []).1 [49] 32 :=
  ⟨(accepts_iff rfl (List.cons_ne_nil _ _) (Nat.le_refl 2)).1.mpr
      (.container matching_array .nil),
    ((accepts_iff rfl (List.cons_ne_nil _ _) (Nat.le_succ 1)).2 32 rfl).1.mpr number_one⟩

end JsonProtocolReader

end AsyncEventLoop
