import AsyncEventLoop.JsonLanguage

/-!
# Behind a malformed number or literal

A byte that shows a number to be malformed is read again once the error is
counted, so that it may begin the next text. A byte that is not the one a literal
goes on with is counted as the error and lost: of a text that follows, the reader
sees all but the first byte, and what it emits is never as long as the text.
-/

namespace AsyncEventLoop

open FixedArray JsonGrammar

namespace JsonProtocolReader

variable {N : Nat}

/-! ## How much is emitted -/

/-- What the reader emits, and what it goes on with, is no longer than what it held
and the byte. -/
theorem Turn.next {r : JsonProtocolReader N} {text : List UInt8} {c : UInt8}
    (h : Turn r text c) :
    (∀ w ∈ (readByte r c).2, w.length ≤ text.length + 1)
      ∧ ∃ rest, Reading (readByte r c).1 rest ∧ rest.length ≤ text.length + 1 := by
  have hshort (rest : List UInt8) (hrest : rest = [] ∨ rest = [c]) :
      rest.length ≤ text.length + 1 := by
    rcases hrest with rfl | rfl <;> simp
  cases h with
  | more hreads h =>
      rw [hreads.readByte]
      exact ⟨List.forall_mem_nil _, _, h, by simp⟩
  | ends hreads _ hidle =>
      rw [hreads.readByte]
      exact ⟨by simp, [], .idle hidle, by simp⟩
  | skips _ _ hreads hidle | overflows hreads hidle _ =>
      rw [hreads.readByte]
      exact ⟨List.forall_mem_nil _, [], .idle hidle, by simp⟩
  | drops _ hrest hout h _ _ _ =>
      rw [hout]
      exact ⟨List.forall_mem_nil _, _, h, hshort _ (hrest.imp_right And.left)⟩
  | number _ _ hrest hout h =>
      rw [hout]
      exact ⟨by simp, _, h, hshort _ hrest⟩

/-- No message is longer than the bytes it was read from. -/
theorem output_length {r : JsonProtocolReader N} {text : List UInt8} (h : Reading r text)
    (hskip : r.options.skipLeadingWhitespace = true) (hN : 0 < N) (bytes : List UInt8) :
    ∀ w ∈ (poll r bytes).2, w.length ≤ text.length + bytes.length := by
  induction bytes generalizing r text with
  | nil => exact List.forall_mem_nil _
  | cons c bytes ih =>
      obtain ⟨hout, rest, hrest, hlen⟩ := (h.turn hskip hN c).next
      have hskip' : (readByte r c).1.options.skipLeadingWhitespace = true := by
        rw [readByte_options, hskip]
      intro w hw
      rw [List.length_cons]
      rcases List.mem_append.mp hw with hfirst | hlater
      · have := hout w hfirst
        omega
      · have := ih hrest hskip' w hlater
        omega

/-! ## The next text -/

/-- What a number or a literal may turn out to be: a part of a literal, or number
bytes that are no number. -/
inductive MalformedScalar : List UInt8 → Prop where
  | literal {literal : List UInt8} {k : Nat} (hl : Literal literal) (hpos : 0 < k)
      (hk : k < literal.length) : MalformedScalar (literal.take k)
  | number {c : UInt8} {cs : List UInt8} (hfirst : c = minus ∨ isDigit c = true)
      (hbytes : ∀ d ∈ c :: cs, isNumberByte d = true) (hnot : ¬ Number (c :: cs)) :
      MalformedScalar (c :: cs)

/-- Of `p` and `m` behind it, the reader reports one error and then emits exactly `m`. -/
def Resynchronises (r : JsonProtocolReader N) (p m : List UInt8) : Prop :=
  ∃ init last, p ++ m = init ++ [last] ∧ (poll r init).2 = []
    ∧ (poll r init).1.stats.protocolErrors = r.stats.protocolErrors + 1
    ∧ (poll r (p ++ m)).2 = [m]
    ∧ (poll r (p ++ m)).1.stats.protocolErrors = r.stats.protocolErrors + 1

/-- The first byte of an object, an array or a string begins neither a number nor a
literal, and continues none. -/
theorem opening_byte {c : UInt8} (h : c = quote ∨ c = lbrace ∨ c = lbracket) :
    isNumberByte c = false ∧ ∀ {literal : List UInt8}, Literal literal → c ∉ literal := by
  refine ⟨by rcases h with rfl | rfl | rfl <;> rfl, fun hl hc => ?_⟩
  cases hl <;> rcases h with rfl | rfl | rfl <;> revert hc <;> decide

/-- Behind a malformed number the next text is read as if nothing had come before. -/
theorem resynchronises_number {r : JsonProtocolReader N} (hidle : Idle r)
    (hskip : r.options.skipLeadingWhitespace = true) {b : UInt8} {bs m : List UInt8}
    (hfirst : b = minus ∨ isDigit b = true) (hbytes : ∀ d ∈ b :: bs, isNumberByte d = true)
    (hnot : ¬ Number (b :: bs)) (hlen : (b :: bs).length ≤ N) (hm : Framing m)
    (hscalar : ¬ Literal m) (hfit : m.length ≤ N) : Resynchronises r (b :: bs) m := by
  have hnumber : Takes (N := N) Starting InNumber (b :: bs) :=
    (takes_startNumber hfirst).append
      (.all fun d hd => takes_numberByte (hbytes d (List.mem_cons_of_mem b hd)))
  obtain ⟨r₁, hreads, hin⟩ := hnumber r [] ⟨hidle, rfl⟩ (by simpa using hlen)
  obtain ⟨c, cs, last, rfl, hc⟩ := hm.opening hscalar
  -- the byte behind it, and so all that follows, meets a reader that has been reset
  have hagain (bytes : List UInt8) :
      poll r₁ (c :: bytes) = poll (reset (countError r₁)) (c :: bytes) := by
    rw [poll, poll, number_malformed hin hnot (opening_byte hc).1]
  obtain ⟨init, last', hsplit, hstaged⟩ := hm.staged (idle_reset (countError r₁))
  obtain ⟨rfl, rfl⟩ : c :: cs = init ∧ last = last' := by
    have hconcat : c :: cs ++ [last] = init ++ [last'] := hsplit
    obtain ⟨hinit, hlast⟩ := List.append_inj' hconcat rfl
    exact ⟨hinit, List.singleton_inj.mp hlast⟩
  obtain ⟨r₂, r', hinit, hlast, -⟩ := hstaged.fits (by simpa using hfit)
  have hmessage := hinit.append hlast
  have herrors : (reset (countError r₁)).stats.protocolErrors = r.stats.protocolErrors + 1 :=
    congrArg (· + 1) (hreads.errors hskip)
  have hskip' : (reset (countError r₁)).options.skipLeadingWhitespace = true :=
    (congrArg _ hreads.options).trans hskip
  refine ⟨b :: bs ++ c :: cs, last, by simp, ?_, ?_, ?_, ?_⟩
  · rw [poll_append, hreads.poll, hagain, hinit.poll]
    rfl
  · rw [poll_append, hreads.poll, hagain, hinit.poll]
    exact (hinit.errors hskip').trans herrors
  · rw [poll_append, hreads.poll, hagain, ← List.cons_append, hmessage.poll]
    rfl
  · rw [poll_append, hreads.poll, hagain, ← List.cons_append, hmessage.poll]
    exact (hmessage.errors hskip').trans herrors

/-- A part of a literal takes the first byte of the next text with it, which is then
not emitted. -/
theorem literal_swallows {r : JsonProtocolReader N} (hidle : Idle r)
    (hskip : r.options.skipLeadingWhitespace = true) {literal m : List UInt8} {k : Nat}
    (hl : Literal literal) (hpos : 0 < k) (hk : k < literal.length)
    (hlen : (literal.take k).length ≤ N) (hm : Framing m) (hscalar : ¬ Literal m) :
    (poll r (literal.take k ++ m)).2 ≠ [m] := by
  have hrecognised := recognised_literal hl
  obtain ⟨c, cs, last, rfl, hc⟩ := hm.opening hscalar
  obtain ⟨r₀, hin₀, hfrom⟩ := literal_start hrecognised hidle
  obtain ⟨r₁, hreads₀, hin⟩ := takes_literal hrecognised hk r₀ [] hin₀ (by simpa using hlen)
  -- the part of the literal, read from the beginning
  obtain ⟨b, bs, hb⟩ : ∃ b bs, literal.take k = b :: bs := by
    refine List.exists_cons_of_ne_nil ?_
    rw [← List.length_pos_iff, List.length_take]
    omega
  have hhead : literal.head? = some b := by
    have htake : (literal.take k).head? = some b := by
      rw [hb]
      rfl
    rwa [List.head?_take, if_neg (Nat.ne_of_gt hpos)] at htake
  rw [hb] at hreads₀ hlen ⊢
  have hreads := hfrom b bs [] r₁ 0 hhead hreads₀
  have hne : c ≠ literal[k] := by
    rintro rfl
    exact (opening_byte hc).2 hl (List.getElem_mem hk)
  have hbyte := literal_mismatch hin (List.getElem?_eq_getElem hk) hne
  have hskip' : (reset (countError (countByte r₁))).options.skipLeadingWhitespace = true :=
    (congrArg _ hreads.options).trans hskip
  have hN : 0 < N := Nat.lt_of_lt_of_le (Nat.zero_lt_succ _) hlen
  have hrest := output_length (.idle (idle_reset (countError (countByte r₁)))) hskip' hN
    (cs ++ [last])
  intro hout
  rw [poll_append, hreads.poll, poll, hbyte] at hout
  have hmem : c :: (cs ++ [last])
      ∈ (poll (reset (countError (countByte r₁))) (cs ++ [last])).2 := by
    change [] ++ ([] ++ (poll (reset (countError (countByte r₁))) (cs ++ [last])).2) = _ at hout
    rw [List.nil_append, List.nil_append] at hout
    rw [hout]
    exact List.mem_singleton_self _
  have hlong := hrest _ hmem
  rw [List.length_nil, Nat.zero_add, List.length_cons] at hlong
  exact absurd hlong (Nat.not_succ_le_self _)

/-- **A malformed number does not swallow the next text; a part of a literal does.** -/
theorem resynchronises_iff {N : Nat} {before p m : List UInt8}
    (hidle : (poll (fresh N {}) before).1.state = .idle) (hp : MalformedScalar p)
    (hlen : p.length ≤ N) (hm : Framing m) (hscalar : ¬ Literal m) (hfit : m.length ≤ N) :
    Resynchronises (poll (fresh N {}) before).1 p m ↔ ∀ c ∈ p, isNumberByte c = true := by
  have hskip : (poll (fresh N {}) before).1.options.skipLeadingWhitespace = true := by
    rw [poll_options]
    rfl
  have hstart := idle_of_state hidle
  cases hp with
  | number hfirst hbytes hnot =>
      exact ⟨fun _ => hbytes, fun _ =>
        resynchronises_number hstart hskip hfirst hbytes hnot hlen hm hscalar hfit⟩
  | @literal literal k hl hpos hk =>
      constructor
      · rintro ⟨-, -, -, -, -, hout, -⟩
        exact absurd hout (literal_swallows hstart hskip hl hpos hk hlen hm hscalar)
      · intro hbytes
        obtain ⟨b, hb, hbyte⟩ : ∃ b ∈ literal.take k, isNumberByte b = false := by
          obtain ⟨k, rfl⟩ := Nat.exists_eq_add_of_lt hpos
          cases hl
          · exact ⟨116, by simp [trueText], rfl⟩
          · exact ⟨102, by simp [falseText], rfl⟩
          · exact ⟨110, by simp [nullText], rfl⟩
        rw [hbytes b hb] at hbyte
        cases hbyte

/-- `-` in front of `[]`. -/
theorem resynchronises_iff_minus :
    Resynchronises (poll (fresh 2 {}) []).1 [45] [91, 93] :=
  (resynchronises_iff rfl
    (.number (Or.inl rfl) (List.forall_mem_singleton.mpr rfl)
      fun h => absurd (validNumber_number h) (by decide))
    (Nat.le_succ 1) (.container matching_array .nil) (fun h => nomatch h) (Nat.le_refl 2)).mpr
    (List.forall_mem_singleton.mpr rfl)

/-- `t` in front of `[]`: the bracket is taken for the error, the one that closes it
is another. -/
theorem literal_swallows_array :
    MalformedScalar [116] ∧ Framing [91, 93] ∧ ¬ Literal [91, 93]
      ∧ (poll (fresh 2 {}) []).1.state = .idle
      ∧ (poll (poll (fresh 2 {}) []).1 ([116] ++ [91, 93])).2 = []
      ∧ (poll (poll (fresh 2 {}) []).1 ([116] ++ [91, 93])).1.stats.protocolErrors = 2
      ∧ ¬ Resynchronises (poll (fresh 2 {}) []).1 [116] [91, 93] := by
  have hout : (poll (poll (fresh 2 {}) []).1 ([116] ++ [91, 93])).2 = [] := rfl
  have hpart : MalformedScalar [116] := .literal .true (k := 1) (by decide) (by decide)
  refine ⟨hpart, .container matching_array .nil, (fun h => nomatch h), rfl, hout, rfl, ?_⟩
  rintro ⟨-, -, -, -, -, hmessage, -⟩
  rw [hout] at hmessage
  cases hmessage

end JsonProtocolReader

end AsyncEventLoop
