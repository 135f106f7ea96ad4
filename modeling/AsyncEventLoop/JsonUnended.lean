import AsyncEventLoop.JsonInvariant

/-!
# Texts that have not ended

What the first bytes of a text of the framing grammar, or of a number, look like: more
may follow. Where a text has ended, nothing of the grammar goes on from it, and a
bracket of the wrong kind, or a byte that a literal does not go on with, leaves nothing
to go on with.
-/

namespace AsyncEventLoop

open FixedArray JsonGrammar

namespace JsonProtocolReader

/-! ## Strings and containers -/

/-- A string behind its opening quote; `escaped` when the next byte is. -/
def Unfinished (chars : List UInt8) (escaped : Bool) : Prop :=
  if escaped then ∃ body, chars = body ++ [backslash] ∧ StringBody body else StringBody chars

theorem Unfinished.next {chars : List UInt8} {escaped : Bool} {c : UInt8}
    (h : Unfinished chars escaped) (hc : escaped = true ∨ c ≠ quote) :
    Unfinished (chars ++ [c]) (!escaped && c = backslash) := by
  cases escaped with
  | true =>
      obtain ⟨body, rfl, hbody⟩ := h
      have hescaped := hbody.append (.escaped c .nil)
      rwa [List.append_assoc]
  | false =>
      have hbody : StringBody chars := h
      have hquote : c ≠ quote := hc.resolve_left Bool.false_ne_true
      by_cases hback : c = backslash
      · rw [hback]
        exact ⟨chars, rfl, hbody⟩
      · have hchar := hbody.append (.char hquote hback .nil)
        simpa [Unfinished, hback] using hchar

/-- A container in which `brackets` are open, the outermost first, outside its
strings. -/
inductive Unclosed : (brackets : List UInt8) → List UInt8 → Prop where
  | outermost {o c : UInt8} {inner : List UInt8} (hm : Matching o c) (h : Nested inner) :
      Unclosed [o] (o :: inner)
  | within {brackets text inner : List UInt8} {o c : UInt8} (houter : Unclosed brackets text)
      (hm : Matching o c) (h : Nested inner) :
      Unclosed (brackets ++ [o]) (text ++ o :: inner)

theorem Unclosed.append {brackets text more : List UInt8} (h : Unclosed brackets text)
    (hmore : Nested more) : Unclosed brackets (text ++ more) := by
  cases h with
  | outermost hm h => exact .outermost hm (h.append hmore)
  | @within brackets text inner o c houter hm h =>
      rw [List.append_assoc]
      exact .within houter hm (h.append hmore)

/-- The innermost bracket. -/
theorem Unclosed.last {brackets text : List UInt8} (h : Unclosed brackets text) :
    ∃ outer o c, brackets = outer ++ [o] ∧ Matching o c := by
  cases h with
  | outermost hm _ => exact ⟨[], _, _, rfl, hm⟩
  | within _ hm _ => exact ⟨_, _, _, rfl, hm⟩

/-- The innermost bracket is closed, which ends the container or a part of it. -/
theorem Unclosed.close {outer text : List UInt8} {o c : UInt8}
    (h : Unclosed (outer ++ [o]) text) (hm : Matching o c) :
    (outer = [] ∧ Framing (text ++ [c])) ∨ (outer ≠ [] ∧ Unclosed outer (text ++ [c])) := by
  generalize hbrackets : outer ++ [o] = brackets at h
  cases h with
  | @outermost o' c' inner hm' hinner =>
      obtain ⟨rfl, rfl⟩ := List.append_singleton_inj.mp (hbrackets.trans (List.nil_append _).symm)
      exact Or.inl ⟨rfl, .container hm hinner⟩
  | @within outer' text inner o' c' houter hm' hinner =>
      obtain ⟨rfl, rfl⟩ := List.append_singleton_inj.mp hbrackets
      refine Or.inr ⟨?_, ?_⟩
      · obtain ⟨outer', o', c', rfl, -⟩ := houter.last
        simp
      · have hclosed := houter.append (.bracketed hm hinner .nil)
        simpa using hclosed

/-- It begins with a bracket. -/
theorem Unclosed.first {brackets text : List UInt8} (h : Unclosed brackets text) :
    ∃ o cs, text = o :: cs ∧ (o = lbrace ∨ o = lbracket) := by
  induction h with
  | outermost hm _ => exact ⟨_, _, rfl, hm.opening.2⟩
  | within _ _ _ ih =>
      obtain ⟨o, cs, rfl, ho⟩ := ih
      exact ⟨o, _, rfl, ho⟩

/-- Something closes it. -/
theorem Unclosed.ends {brackets text : List UInt8} (h : Unclosed brackets text) :
    ∃ more, more ≠ [] ∧ Framing (text ++ more) := by
  induction brackets using List.reverseRecOn generalizing text with
  | nil =>
      obtain ⟨outer, o, c, hnil, -⟩ := h.last
      exact absurd hnil.symm (by simp)
  | append_singleton outer o ih =>
      obtain ⟨outer', o', c, heq, hm⟩ := h.last
      obtain ⟨rfl, rfl⟩ := List.append_singleton_inj.mp heq
      rcases h.close hm with ⟨-, hframing⟩ | ⟨-, hclosed⟩
      · exact ⟨[c], List.cons_ne_nil _ _, hframing⟩
      · obtain ⟨more, -, hframing⟩ := ih hclosed
        rw [List.append_assoc] at hframing
        exact ⟨[c] ++ more, by simp, hframing⟩

theorem Unfinished.ends {chars : List UInt8} {escaped : Bool} (h : Unfinished chars escaped) :
    ∃ more, StringBody (chars ++ more) := by
  cases escaped with
  | false => exact ⟨[], by rw [List.append_nil]; exact h⟩
  | true =>
      obtain ⟨body, rfl, hbody⟩ := h
      refine ⟨[quote], ?_⟩
      have hescaped := hbody.append (.escaped quote .nil)
      simpa using hescaped

end JsonProtocolReader

/-! ## The lexer on the grammar -/

namespace JsonScan

open JsonProtocolReader

theorem foldlM_stringBody {body : List UInt8} (h : StringBody body) {s : JsonScan}
    (hin : s.inString = true) (hescape : s.escape = false) : body.foldlM next s = some s := by
  obtain ⟨opened, inString, escape⟩ := s
  obtain rfl : inString = true := hin
  obtain rfl : escape = false := hescape
  induction h with
  | nil => rfl
  | char hquote hback _ ih => simpa [next, hquote, hback] using ih
  | escaped c _ ih => simpa [next] using ih

theorem foldlM_nested {text : List UInt8} (h : Nested text) {s : JsonScan}
    (hin : s.inString = false) (hescape : s.escape = false) : text.foldlM next s = some s := by
  obtain ⟨opened, inString, escape⟩ := s
  obtain rfl : inString = false := hin
  obtain rfl : escape = false := hescape
  induction h generalizing opened with
  | nil => rfl
  | @plain c cs hc _ ih =>
      simp only [isPlain, ne_eq, Bool.and_eq_true, decide_eq_true_eq] at hc
      simpa [next, hc] using ih opened
  | @string body cs hbody _ ih =>
      have hstring : body.foldlM next ⟨opened, true, false⟩ = some ⟨opened, true, false⟩ :=
        foldlM_stringBody hbody rfl rfl
      simpa [next, hstring] using ih opened
  | @bracketed o c inner cs hm _ _ ihinner ih =>
      have hopened : next ⟨opened, false, false⟩ o = some ⟨opened ++ [o], false, false⟩ := by
        simp [next, hm.opening]
      have hclosed : next ⟨opened ++ [o], false, false⟩ c = some ⟨opened, false, false⟩ :=
        next_close hm rfl rfl
      simpa [hopened, ihinner (opened ++ [o]), hclosed] using ih opened

/-- The brackets that are open. -/
theorem scan_unclosed {brackets text : List UInt8} (h : Unclosed brackets text) :
    scan text = some ⟨brackets, false, false⟩ := by
  induction h with
  | @outermost o c inner hm hinner =>
      have hscan := foldlM_nested (s := ⟨[o], false, false⟩) hinner rfl rfl
      rw [scan, List.foldlM_cons, ← hscan]
      rcases hm.opening.2 with rfl | rfl <;> rfl
  | @within brackets text inner o c _ hm hinner ih =>
      have hscan := foldlM_nested (s := ⟨brackets ++ [o], false, false⟩) hinner rfl rfl
      have hopened : next ⟨brackets, false, false⟩ o = some ⟨brackets ++ [o], false, false⟩ := by
        simp [next, hm.opening]
      rw [scan, List.foldlM_append, ← scan, ih]
      simpa [hopened] using hscan

theorem scan_container {o c : UInt8} {inner : List UInt8} (hm : Matching o c)
    (h : Nested inner) : scan (o :: (inner ++ [c])) = some ⟨[], false, false⟩ := by
  have hopened : [o] = [] ++ [o] := rfl
  rw [← List.cons_append, scan_snoc (scan_unclosed (.outermost hm h))]
  exact next_close hm rfl hopened

theorem next_mismatch {outer : List UInt8} {o c : UInt8}
    (hc : c = rbrace ∨ c = rbracket) (ho : o = lbrace ∨ o = lbracket) (hm : ¬Matching o c) :
    next ⟨outer ++ [o], false, false⟩ c = none := by
  have hlast : (outer ++ [o]).getLast? = some o := by simp
  unfold next
  dsimp only
  rw [hlast]
  rcases hc with rfl | rfl <;> rcases ho with rfl | rfl
  · exact absurd matching_object hm
  · rfl
  · rfl
  · exact absurd matching_array hm

end JsonScan

namespace JsonProtocolReader

/-! ## What may go on -/

/-- A minus sign or a digit, and number bytes behind it. -/
def NumberBytes (w : List UInt8) : Prop :=
  (∃ c cs, w = c :: cs ∧ (c = minus ∨ isDigit c = true)) ∧ ∀ c ∈ w, isNumberByte c = true

/-- More may follow: a text of the framing grammar goes on from it, or it is the beginning of
what may be a number. -/
inductive Unended : List UInt8 → Prop where
  | framing {w : List UInt8} (more : List UInt8) (hmore : more ≠ []) (h : Framing (w ++ more)) :
      Unended w
  | number {w : List UInt8} (h : NumberBytes w) : Unended w

/-- The beginning of a string, an object or an array, which ends with a byte of its own. -/
def Delimited (w : List UInt8) : Prop :=
  ∃ c cs, w = c :: cs ∧ (c = quote ∨ c = lbrace ∨ c = lbracket)

theorem numberBytes_of_number {w : List UInt8} (h : Number w) : NumberBytes w := ⟨h.first, h.bytes⟩

theorem unended_nil : Unended [] := .framing trueText (by decide) (.literal .true)

/-- What comes before is unended, too. -/
theorem Unended.of_append {w more : List UInt8} (h : Unended (w ++ more)) : Unended w := by
  cases h with
  | framing rest hrest h =>
      rw [List.append_assoc] at h
      exact .framing _ (by simp [hrest]) h
  | number h =>
      obtain ⟨⟨c, cs, hfirst, hc⟩, hbytes⟩ := h
      cases w with
      | nil => exact unended_nil
      | cons d ds =>
          obtain ⟨rfl, -⟩ := List.cons.inj hfirst
          exact .number ⟨⟨d, ds, rfl, hc⟩, fun b hb => hbytes b (List.mem_append_left _ hb)⟩

/-- The bytes that a text of the framing grammar begins with. -/
theorem Framing.head {c : UInt8} {cs : List UInt8} (h : Framing (c :: cs)) :
    (c = quote ∨ c = lbrace ∨ c = lbracket) ∨ c = 116 ∨ c = 102 ∨ c = 110 := by
  generalize hw : c :: cs = w at h
  cases h with
  | literal h =>
      cases h <;> obtain ⟨rfl, -⟩ := List.cons.inj hw <;> decide
  | string _ =>
      obtain ⟨rfl, -⟩ := List.cons.inj hw
      exact .inl (.inl rfl)
  | container hm _ =>
      obtain ⟨rfl, -⟩ := List.cons.inj hw
      exact .inl (.inr hm.opening.2)

/-- No number begins with one of them, and they are no white space. -/
theorem Framing.head_plain {c : UInt8} {cs : List UInt8} (h : Framing (c :: cs)) :
    ¬(c = minus ∨ isDigit c = true) ∧ isWs c = false := by
  rcases h.head with (rfl | rfl | rfl) | rfl | rfl | rfl <;> decide

theorem NumberBytes.not_framing {w : List UInt8} (h : NumberBytes w) (more : List UInt8) :
    ¬Framing (w ++ more) := by
  obtain ⟨⟨c, cs, rfl, hc⟩, -⟩ := h
  exact fun hframing => hframing.head_plain.1 hc

theorem NumberBytes.not_delimited {w : List UInt8} (h : NumberBytes w) : ¬Delimited w := by
  obtain ⟨⟨c, cs, rfl, hc⟩, -⟩ := h
  rintro ⟨d, ds, heq, hd⟩
  obtain ⟨rfl, rfl⟩ := List.cons.inj heq
  rcases hd with rfl | rfl | rfl <;> revert hc <;> decide

theorem NumberBytes.more {w : List UInt8} (h : NumberBytes w) {c : UInt8}
    (hc : isNumberByte c = true) : NumberBytes (w ++ [c]) := by
  obtain ⟨⟨b, bs, rfl, hb⟩, hbytes⟩ := h
  exact ⟨⟨b, bs ++ [c], rfl, hb⟩,
    List.forall_mem_append.mpr ⟨hbytes, List.forall_mem_singleton.mpr hc⟩⟩

/-- A byte that is no number byte ends it. -/
theorem NumberBytes.ends {w : List UInt8} (h : NumberBytes w) {c : UInt8}
    (hc : isNumberByte c = false) : ¬Unended (w ++ [c]) ∧ ¬Framing (w ++ [c]) := by
  refine ⟨fun hended => ?_, h.not_framing [c]⟩
  cases hended with
  | framing more _ hframing =>
      rw [List.append_assoc] at hframing
      exact h.not_framing _ hframing
  | number hnumber =>
      have hbyte := hnumber.2 c (by simp)
      rw [hc] at hbyte
      cases hbyte

/-- A bracket of the wrong kind. -/
theorem Unclosed.mismatch {outer text : List UInt8} {o c : UInt8}
    (h : Unclosed (outer ++ [o]) text) (ho : o = lbrace ∨ o = lbracket)
    (hc : c = rbrace ∨ c = rbracket) (hm : ¬Matching o c) :
    ¬Unended (text ++ [c]) ∧ ¬Framing (text ++ [c]) := by
  have hnone (more : List UInt8) : ¬Framing (text ++ [c] ++ more) := by
    intro hframing
    have hscan : JsonScan.scan (text ++ [c] ++ more) = none := by
      have hlast : JsonScan.next ⟨outer ++ [o], false, false⟩ c = none :=
        JsonScan.next_mismatch hc ho hm
      rw [JsonScan.scan, List.foldlM_append, ← JsonScan.scan,
        JsonScan.scan_snoc (JsonScan.scan_unclosed h), hlast]
      rfl
    obtain ⟨b, bs, rfl, hb⟩ := h.first
    generalize hw : b :: bs ++ [c] ++ more = w at hframing hscan
    cases hframing with
    | literal hl =>
        cases hl <;> obtain ⟨rfl, -⟩ := List.cons.inj hw <;> revert hb <;> decide
    | string _ =>
        obtain ⟨rfl, -⟩ := List.cons.inj hw
        revert hb
        decide
    | container hm hinner =>
        rw [JsonScan.scan_container hm hinner] at hscan
        cases hscan
  refine ⟨fun hended => ?_, by simpa using hnone []⟩
  cases hended with
  | framing more _ hframing => exact hnone more hframing
  | number hnumber =>
      obtain ⟨b, bs, rfl, hb⟩ := h.first
      refine hnumber.not_delimited ⟨b, bs ++ [c], rfl, .inr hb⟩

/-- What begins like a literal is that literal. -/
theorem Framing.eq_literal {literal cs : List UInt8} {c : UInt8} (hl : Literal literal)
    (hc : literal.head? = some c) (h : Framing (c :: cs)) : c :: cs = literal := by
  generalize hw : c :: cs = w at h
  cases h with
  | literal h =>
      cases h <;> obtain ⟨rfl, -⟩ := List.cons.inj hw <;> cases hl <;>
        first
        | rfl
        | exact absurd (Option.some.inj hc) (by decide)
  | string _ =>
      obtain ⟨rfl, -⟩ := List.cons.inj hw
      cases hl <;> exact absurd (Option.some.inj hc) (by decide)
  | container hm _ =>
      obtain ⟨rfl, -⟩ := List.cons.inj hw
      rcases hm.opening.2 with rfl | rfl <;> cases hl <;>
        exact absurd (Option.some.inj hc) (by decide)

/-- A byte that the literal does not go on with. -/
theorem literal_ends {literal : List UInt8} (hl : Literal literal) {k : Nat}
    (hk : k + 1 < literal.length) {c : UInt8} (hc : c ≠ literal[k + 1]) :
    ¬Unended (literal.take (k + 1) ++ [c]) ∧ ¬Framing (literal.take (k + 1) ++ [c]) := by
  obtain ⟨b, bs, hb⟩ : ∃ b bs, literal = b :: bs := by cases hl <;> exact ⟨_, _, rfl⟩
  have htake : literal.take (k + 1) = b :: bs.take k := by rw [hb, List.take_succ_cons]
  have hhead : literal.head? = some b := by rw [hb, List.head?_cons]
  have hnone (more : List UInt8) : ¬Framing (literal.take (k + 1) ++ [c] ++ more) := by
    intro hframing
    have hwhole : literal.take (k + 1) ++ [c] ++ more = literal := by
      rw [htake] at hframing ⊢
      exact hframing.eq_literal hl hhead
    have hlen : (literal.take (k + 1)).length = k + 1 := by
      rw [List.length_take, Nat.min_eq_left (Nat.le_of_lt hk)]
    have hnext : (literal.take (k + 1) ++ [c] ++ more)[k + 1]? = some c := by
      rw [List.append_assoc, List.getElem?_append_right (Nat.le_of_eq hlen), hlen, Nat.sub_self]
      rfl
    rw [hwhole, List.getElem?_eq_getElem hk] at hnext
    exact hc (Option.some.inj hnext).symm
  refine ⟨fun hended => ?_, by simpa using hnone []⟩
  cases hended with
  | framing more _ hframing => exact hnone more hframing
  | number hnumber =>
      obtain ⟨⟨d, ds, heq, hd⟩, -⟩ := hnumber
      rw [htake] at heq
      obtain ⟨rfl, -⟩ := List.cons.inj heq
      have hliteral : Framing (b :: bs) := hb ▸ .literal hl
      exact hliteral.head_plain.1 hd

theorem literal_not_delimited {literal : List UInt8} (hl : Literal literal) {k : Nat} :
    literal.take (k + 1) ≠ [] ∧ ¬Delimited (literal.take (k + 1)) := by
  obtain ⟨b, bs, rfl⟩ : ∃ b bs, literal = b :: bs := by cases hl <;> exact ⟨_, _, rfl⟩
  rw [List.take_succ_cons]
  refine ⟨List.cons_ne_nil _ _, ?_⟩
  rintro ⟨c, cs, heq, hc⟩
  obtain ⟨rfl, -⟩ := List.cons.inj heq
  cases hl <;> revert hc <;> decide

theorem literal_unended {literal : List UInt8} (hl : Literal literal) {k : Nat}
    (hk : k < literal.length) : Unended (literal.take k) := by
  refine .framing (literal.drop k) ?_ ?_
  · rw [ne_eq, List.drop_eq_nil_iff, Nat.not_le]
    exact hk
  · rw [List.take_append_drop]
    exact .literal hl

/-- The first bytes of a literal, or all of them. -/
theorem literal_goes_on {literal : List UInt8} (hl : Literal literal) {k : Nat} :
    Unended (literal.take k) ∨ Framing (literal.take k) := by
  by_cases hk : k < literal.length
  · exact .inl (literal_unended hl hk)
  · rw [List.take_of_length_le (Nat.not_lt.mp hk)]
    exact .inr (.literal hl)

/-- **A text of the framing grammar ends itself**: no other one goes on from it. -/
theorem Framing.ended {w : List UInt8} (h : Framing w) : ¬Unended w := by
  intro hunended
  cases hunended with
  | number hnumber => exact hnumber.not_framing [] (by rwa [List.append_nil])
  | framing more hmore h' =>
      -- a reader with room for both emits the first, but nothing before the end of the second
      have hidle := idle_fresh (N := (w ++ more).length) {}
      obtain ⟨init, last, hw, hstaged⟩ := h.staged hidle
      obtain ⟨init', last', hall, hstaged'⟩ := h'.staged hidle
      obtain ⟨more', final, rfl⟩ : ∃ more' final, more = more' ++ [final] :=
        (List.eq_nil_or_concat' more).resolve_left hmore
      have hinit : w ++ more' = init' := by
        rw [← List.append_assoc] at hall
        exact (List.append_inj' hall rfl).1
      obtain ⟨r₁, r₂, hreads, hlast, -⟩ := hstaged.fits (by rw [← hw, List.length_append]; omega)
      obtain ⟨r₃, -, hreads', -, -⟩ := hstaged'.fits (by rw [← hall])
      have hpoll := (hreads.append hlast).poll
      have hpoll' := hreads'.poll
      rw [← hw] at hpoll
      rw [← hinit, poll_append, hpoll] at hpoll'
      cases hpoll'

/-- The byte `c` behind `w` breaks it: neither may it go on nor does it end. A string or a
container that fills the buffer is dropped before its next byte is looked at. -/
structure Breaks (N : Nat) (w : List UInt8) (c : UInt8) : Prop where
  room : w.length < N ∨ ¬Delimited w
  space : w = [] → isWs c = false
  unended : ¬Unended (w ++ [c])
  framing : ¬Framing (w ++ [c])

end JsonProtocolReader

end AsyncEventLoop
