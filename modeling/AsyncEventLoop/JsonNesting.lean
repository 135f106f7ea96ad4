import AsyncEventLoop.JsonGrammar

/-!
# The framing grammar

What `JsonProtocolReader` looks for is less than JSON: the bracket that closes an
object or array, the quote that closes a string, the end of a literal. `Framing`
is the grammar of that, and every JSON value but a number is one of its texts.
-/

namespace AsyncEventLoop

open JsonGrammar

namespace JsonProtocolReader

/-! ## Bytes inside an object or array -/

/-- The bytes that mean nothing to `consume_container` outside a string. -/
def isPlain (c : UInt8) : Bool :=
  c ≠ quote && c ≠ lbrace && c ≠ lbracket && c ≠ rbrace && c ≠ rbracket

theorem isPlain_of_isWs {c : UInt8} (h : isWs c = true) : isPlain c = true := by
  simp only [isWs, Bool.or_eq_true, decide_eq_true_eq] at h
  rcases h with ((rfl | rfl) | rfl) | rfl <;> rfl

theorem isPlain_of_isNumberByte {c : UInt8} (h : isNumberByte c = true) : isPlain c = true := by
  have hne : ∀ d, isNumberByte d = false → c ≠ d := by
    rintro d hd rfl
    rw [h] at hd
    cases hd
  simp [isPlain, hne quote (by decide), hne lbrace (by decide), hne lbracket (by decide),
    hne rbrace (by decide), hne rbracket (by decide)]

/-- The bracket `opening` and the one that closes it. -/
def Matching (opening closing : UInt8) : Prop :=
  (opening = lbrace ∧ closing = rbrace) ∨ (opening = lbracket ∧ closing = rbracket)

theorem Matching.opening {o c : UInt8} (h : Matching o c) :
    o ≠ quote ∧ (o = lbrace ∨ o = lbracket) := by
  rcases h with ⟨rfl, -⟩ | ⟨rfl, -⟩ <;> decide

theorem Matching.closing {o c : UInt8} (h : Matching o c) :
    c ≠ quote ∧ ¬ (c = lbrace ∨ c = lbracket) ∧ (c = rbrace ∨ c = rbracket) := by
  rcases h with ⟨-, rfl⟩ | ⟨-, rfl⟩ <;> decide

theorem matching_array : Matching lbracket rbracket := Or.inr ⟨rfl, rfl⟩

theorem matching_object : Matching lbrace rbrace := Or.inl ⟨rfl, rfl⟩

/-! ## The grammar -/

/-- What stands between the quotes of a string: no quote, but behind a backslash,
which escapes any byte. -/
inductive StringBody : List UInt8 → Prop where
  | nil : StringBody []
  | char {c : UInt8} {cs : List UInt8} (hquote : c ≠ quote) (hback : c ≠ backslash)
      (h : StringBody cs) : StringBody (c :: cs)
  | escaped {cs : List UInt8} (c : UInt8) (h : StringBody cs) : StringBody (backslash :: c :: cs)

/-- What stands between two brackets: brackets of either kind, matched, and strings
with brackets in them. -/
inductive Nested : List UInt8 → Prop where
  | nil : Nested []
  | plain {c : UInt8} {cs : List UInt8} (hc : isPlain c = true) (h : Nested cs) : Nested (c :: cs)
  | string {body cs : List UInt8} (hbody : StringBody body) (h : Nested cs) :
      Nested (quote :: (body ++ quote :: cs))
  | bracketed {o c : UInt8} {inner cs : List UInt8} (hm : Matching o c) (hinner : Nested inner)
      (h : Nested cs) : Nested (o :: (inner ++ c :: cs))

/-- The texts that end themselves. -/
inductive Framing : List UInt8 → Prop where
  | literal {t : List UInt8} (h : Literal t) : Framing t
  | string {body : List UInt8} (h : StringBody body) : Framing (quote :: (body ++ [quote]))
  | container {o c : UInt8} {inner : List UInt8} (hm : Matching o c) (h : Nested inner) :
      Framing (o :: (inner ++ [c]))

theorem StringBody.append {xs ys : List UInt8} (h : StringBody xs) (h' : StringBody ys) :
    StringBody (xs ++ ys) := by
  induction h with
  | nil => exact h'
  | char hquote hback _ ih => exact .char hquote hback ih
  | escaped c _ ih => exact .escaped c ih

theorem Nested.append {xs ys : List UInt8} (h : Nested xs) (h' : Nested ys) :
    Nested (xs ++ ys) := by
  induction h with
  | nil => exact h'
  | plain hc _ ih => exact .plain hc ih
  | @string body cs hbody _ ih =>
      have happend : quote :: (body ++ quote :: cs) ++ ys
          = quote :: (body ++ quote :: (cs ++ ys)) := by simp
      rw [happend]
      exact .string hbody ih
  | @bracketed o c inner cs hm hinner _ _ ih =>
      have happend : o :: (inner ++ c :: cs) ++ ys = o :: (inner ++ c :: (cs ++ ys)) := by simp
      rw [happend]
      exact .bracketed hm hinner ih

/-- What begins with a byte that is not white space, and is longer than that. -/
theorem Framing.first {t : List UInt8} (h : Framing t) :
    ∃ c cs, t = c :: cs ∧ isWs c = false ∧ cs ≠ [] := by
  cases h with
  | literal h => cases h <;> exact ⟨_, _, rfl, rfl, List.cons_ne_nil _ _⟩
  | string h => exact ⟨quote, _, rfl, rfl, by simp⟩
  | @container o c inner hm h =>
      refine ⟨o, _, rfl, ?_, by simp⟩
      rcases hm with ⟨rfl, -⟩ | ⟨rfl, -⟩ <;> rfl

/-- An object, an array or a string is longer than its first byte. -/
theorem Framing.opening {m : List UInt8} (h : Framing m) (hnot : ¬ Literal m) :
    ∃ c cs last, m = c :: (cs ++ [last]) ∧ (c = quote ∨ c = lbrace ∨ c = lbracket) := by
  cases h with
  | literal h => exact absurd h hnot
  | @string body _ => exact ⟨quote, body, quote, rfl, Or.inl rfl⟩
  | @container o c inner hm _ => exact ⟨o, inner, c, rfl, Or.inr hm.opening.2⟩

/-! ## JSON is framed -/

theorem isUnescaped_of_isHexDigit {c : UInt8} (h : isHexDigit c = true) :
    isUnescaped c = true := by
  have hquote : c ≠ quote := by
    rintro rfl
    exact absurd h (by decide)
  have hback : c ≠ backslash := by
    rintro rfl
    exact absurd h (by decide)
  have hlow : 32 ≤ c := by
    simp only [isHexDigit, isDigit, Bool.or_eq_true, Bool.and_eq_true, decide_eq_true_eq] at h
    rcases h with (h | h) | h <;> exact UInt8.le_trans (by decide) h.1
  simp [isUnescaped, hquote, hback, hlow]

theorem stringBody_of_chars {cs : List UInt8} (h : Chars cs) : StringBody cs := by
  have hunescaped {c : UInt8} {cs : List UInt8} (hc : isUnescaped c = true) (h : StringBody cs) :
      StringBody (c :: cs) := by
    simp only [isUnescaped, Bool.and_eq_true, decide_eq_true_eq] at hc
    exact .char hc.1.2 hc.2 h
  induction h with
  | nil => exact .nil
  | unescaped hc _ ih => exact hunescaped hc ih
  | escape hc _ ih => exact .escaped _ ih
  | hex ha hb hc hd _ ih =>
      have hhex {c : UInt8} {cs : List UInt8} (hc : isHexDigit c = true) (h : StringBody cs) :
          StringBody (c :: cs) := hunescaped (isUnescaped_of_isHexDigit hc) h
      exact .escaped 117 (hhex ha (hhex hb (hhex hc (hhex hd ih))))

theorem Nested.of_plain {t : List UInt8} (h : ∀ c ∈ t, isPlain c = true) : Nested t := by
  induction t with
  | nil => exact .nil
  | cons c cs ih =>
      obtain ⟨hc, hcs⟩ := List.forall_mem_cons.mp h
      exact .plain hc (ih hcs)

theorem nested_ws {w : List UInt8} (h : Ws w) : Nested w :=
  .of_plain fun c hc => isPlain_of_isWs (h c hc)

theorem nested_str {t : List UInt8} (h : Str t) : Nested t := by
  obtain ⟨hcs⟩ := h
  exact .string (stringBody_of_chars hcs) .nil

/-- A JSON text may stand between brackets. -/
theorem nested_text {s : Nonterminal} {t : List UInt8} (h : Text s t) : Nested t := by
  have hcomma : Nested [comma] := .plain rfl .nil
  have hcolon : Nested [colon] := .plain rfl .nil
  induction h with
  | literal h => cases h <;> exact .of_plain (List.all_eq_true.mp rfl)
  | number h => exact .of_plain fun c hc => isPlain_of_isNumberByte (h.bytes c hc)
  | string h => exact nested_str h
  | emptyArray hw => exact .bracketed matching_array (nested_ws hw) .nil
  | array _ ih => exact .bracketed matching_array ih .nil
  | emptyObject hw => exact .bracketed matching_object (nested_ws hw) .nil
  | object _ ih => exact .bracketed matching_object ih .nil
  | element hw _ hw' ih => exact ((nested_ws hw).append ih).append (nested_ws hw')
  | moreElements _ _ iht ihu => exact (iht.append hcomma).append ihu
  | member hw hk hw₁ hw₂ _ hw' ih =>
      have hkey := ((nested_ws hw).append (nested_str hk)).append (nested_ws hw₁)
      exact (((hkey.append hcolon).append (nested_ws hw₂)).append ih).append (nested_ws hw')
  | moreMembers _ _ iht ihu => exact (iht.append hcomma).append ihu

/-- **Every JSON value but a number is a text of the framing grammar.** -/
theorem framing_of_value {t : List UInt8} (h : Value t) (hnot : ¬ Number t) : Framing t := by
  cases h with
  | literal h => exact .literal h
  | number h => exact absurd h hnot
  | string h =>
      obtain ⟨hcs⟩ := h
      exact .string (stringBody_of_chars hcs)
  | emptyArray hw => exact .container matching_array (nested_ws hw)
  | array h => exact .container matching_array (nested_text h)
  | emptyObject hw => exact .container matching_object (nested_ws hw)
  | object h => exact .container matching_object (nested_text h)

end JsonProtocolReader

end AsyncEventLoop
