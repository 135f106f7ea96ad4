import AsyncEventLoop.JsonDivision
import AsyncEventLoop.JsonLanguage

/-!
# Every byte accounted for

What a `JsonProtocolReader` has been given falls into runs, one behind the other, in
one way (`Divided`): the texts it has emitted, the white space between them, the
malformed runs, each counted as one error, and the runs that are too long, each counted
as one overflow; what is left is the text it holds. `Divides` is what one byte does to
that, and the counters are the numbers of these runs.
-/

namespace AsyncEventLoop

open FixedArray JsonGrammar

namespace JsonProtocolReader

variable {N : Nat}

/-! ## What a byte counts -/

section Counters

variable (r : JsonProtocolReader N) (c : UInt8)

/-- The messages are counted in step with the output, and each fits the buffer. -/
structure Counts (r : JsonProtocolReader N) (next : JsonProtocolReader N × List (List UInt8)) :
    Prop where
  messages : next.1.stats.messages = r.stats.messages + UInt32.ofNat next.2.length
  bytes : next.1.stats.bytes = r.stats.bytes
  fits : ∀ w ∈ next.2, w.length ≤ N

theorem Counts.quiet {r r' : JsonProtocolReader N}
    (hmessages : r'.stats.messages = r.stats.messages) (hbytes : r'.stats.bytes = r.stats.bytes) :
    Counts r (r', []) :=
  ⟨hmessages.trans (UInt32.add_zero _).symm, hbytes, List.forall_mem_nil _⟩

theorem Counts.refl (r : JsonProtocolReader N) : Counts r (r, []) := .quiet rfl rfl

theorem Counts.trans {r r' : JsonProtocolReader N}
    {next : JsonProtocolReader N × List (List UInt8)} (h : Counts r (r', []))
    (h' : Counts r' next) : Counts r next := by
  refine ⟨h'.messages.trans ?_, h'.bytes.trans h.bytes, h'.fits⟩
  rw [show r'.stats.messages = r.stats.messages from h.messages.trans (UInt32.add_zero _)]

theorem counts_append : Counts r ((append r c).1, []) := by
  unfold append
  split <;> exact .quiet rfl rfl

theorem counts_pushContainer : Counts r ((pushContainer r c).1, []) := by
  unfold pushContainer
  split <;> exact .quiet rfl rfl

theorem counts_popContainer : Counts r ((popContainer r c).1, []) := by
  unfold popContainer
  dsimp only
  split_ifs <;> exact .quiet rfl rfl

theorem counts_emitJson : Counts r (emitJson r) := by
  refine ⟨rfl, rfl, List.forall_mem_singleton.mpr ?_⟩
  rw [front, List.length_take, Vector.length_toList]
  exact Nat.min_le_right _ _

theorem counts_consumeLiteralValue : Counts r (consumeLiteralValue r c) := by
  have happend := counts_append r c
  unfold consumeLiteralValue
  dsimp only
  split_ifs
  · exact .quiet rfl rfl
  · exact happend.trans (counts_emitJson _)
  · exact happend.trans (.quiet rfl rfl)
  · exact happend

theorem counts_consumeIdle : Counts r (consumeIdle r c) := by
  have happend := counts_append r c
  have hpush := happend.trans (counts_pushContainer (append r c).1 c)
  have hliteral (literal : List UInt8) : Counts r (startLiteral r literal c) :=
    have hstart : Counts r
        ({ r with literal := some literal, literalPos := 0, state := .literalValue }, []) :=
      .quiet rfl rfl
    hstart.trans (counts_consumeLiteralValue _ c)
  unfold consumeIdle
  dsimp only
  split_ifs
  · exact .refl r
  · exact hpush.trans (.quiet rfl rfl)
  · exact hpush
  · exact happend
  · exact happend.trans (.quiet rfl rfl)
  · exact happend
  · exact happend.trans (.quiet rfl rfl)
  · exact happend
  · exact hliteral _
  · exact hliteral _
  · exact hliteral _
  · exact .quiet rfl rfl

theorem counts_consumeContainer : Counts r (consumeContainer r c) := by
  have happend := counts_append r c
  have hpop := happend.trans (counts_popContainer (append r c).1 c)
  unfold consumeContainer
  dsimp only
  split_ifs
  · exact happend.trans (.quiet rfl rfl)
  · exact happend.trans (.quiet rfl rfl)
  · exact happend.trans (.quiet rfl rfl)
  · exact happend
  · exact happend.trans (.quiet rfl rfl)
  · exact happend.trans (counts_pushContainer _ c)
  · exact hpop.trans (counts_emitJson _)
  · exact hpop
  · exact happend
  · exact happend

theorem counts_consumeStringValue : Counts r (consumeStringValue r c) := by
  have happend := counts_append r c
  unfold consumeStringValue
  dsimp only
  split_ifs
  · exact happend.trans (.quiet rfl rfl)
  · exact happend.trans (.quiet rfl rfl)
  · exact happend.trans (counts_emitJson _)
  · exact happend
  · exact happend

theorem counts_consumeNumberValue : Counts r (consumeNumberValue r c) := by
  unfold consumeNumberValue
  split_ifs
  · exact counts_append r c
  · obtain ⟨hmessages, hbytes, hfits⟩ := counts_consumeIdle (emitJson r).1 c
    refine ⟨?_, hbytes, List.forall_mem_append.mpr ⟨(counts_emitJson r).fits, hfits⟩⟩
    rw [List.length_append, UInt32.ofNat_add, ← UInt32.add_assoc]
    exact hmessages
  · have herror : Counts r (reset (countError r), []) := .quiet rfl rfl
    exact herror.trans (counts_consumeIdle _ c)

/-- What one turn of the loop counts. -/
theorem counts_consume : Counts r (consume r c) := by
  unfold consume
  split
  · exact counts_consumeIdle r c
  · exact counts_consumeContainer r c
  · exact counts_consumeStringValue r c
  · exact counts_consumeNumberValue r c
  · exact counts_consumeLiteralValue r c

end Counters

/-! ## What a byte may go wrong with -/

/-- Either no error is counted, or it is the only thing that happens. -/
def Faults (r : JsonProtocolReader N) (next : JsonProtocolReader N × List (List UInt8)) : Prop :=
  next.1.stats.protocolErrors = r.stats.protocolErrors
    ∨ ∃ r', next = (reset (countError r'), []) ∧ r'.stats = r.stats

section Faults

variable (r : JsonProtocolReader N) (c : UInt8)

@[simp] theorem append_errors :
    (append r c).1.stats.protocolErrors = r.stats.protocolErrors := by
  unfold append
  split <;> rfl

@[simp] theorem pushContainer_errors :
    (pushContainer r c).1.stats.protocolErrors = r.stats.protocolErrors := by
  unfold pushContainer
  split <;> rfl

theorem append_stats (h : (append r c).2 = true) : (append r c).1.stats = r.stats := by
  unfold append at h ⊢
  split at h
  · cases h
  · rename_i hroom
    rw [dif_neg hroom]

theorem faults_consumeLiteralValue : Faults r (consumeLiteralValue r c) := by
  unfold consumeLiteralValue
  dsimp only
  split_ifs
  · exact .inr ⟨r, rfl, rfl⟩
  · exact .inl (append_errors r c)
  · exact .inl (append_errors r c)
  · exact .inl (append_errors r c)

theorem faults_consumeIdle : Faults r (consumeIdle r c) := by
  have hliteral (literal : List UInt8) : Faults r (startLiteral r literal c) :=
    faults_consumeLiteralValue
      { r with literal := some literal, literalPos := 0, state := .literalValue } c
  unfold consumeIdle
  dsimp only
  split_ifs
  · exact .inl rfl
  · exact .inl ((pushContainer_errors _ c).trans (append_errors r c))
  · exact .inl ((pushContainer_errors _ c).trans (append_errors r c))
  · exact .inl (append_errors r c)
  · exact .inl (append_errors r c)
  · exact .inl (append_errors r c)
  · exact .inl (append_errors r c)
  · exact .inl (append_errors r c)
  · exact hliteral _
  · exact hliteral _
  · exact hliteral _
  · exact .inr ⟨r, rfl, rfl⟩

theorem popContainer_eq : popContainer r c = (reset (countError r), false)
    ∨ popContainer r c = ({ r with depth := r.depth - 1 }, true) := by
  unfold popContainer
  dsimp only
  split_ifs
  · exact .inl rfl
  · exact .inl rfl
  · exact .inr rfl

theorem faults_consumeContainer : Faults r (consumeContainer r c) := by
  have happend := append_errors r c
  have hpush := (pushContainer_errors (append r c).1 c).trans happend
  unfold consumeContainer
  dsimp only
  by_cases hfits : (append r c).2 = true
  · rw [if_pos hfits]
    split_ifs
    · exact .inl happend
    · exact .inl happend
    · exact .inl happend
    · exact .inl happend
    · exact .inl happend
    · exact .inl hpush
    · rename_i hends
      rcases popContainer_eq (append r c).1 c with hpop | hpop
      · rw [hpop] at hends
        exact absurd hends.1 Bool.false_ne_true
      · rw [hpop]
        exact .inl happend
    · rcases popContainer_eq (append r c).1 c with hpop | hpop
      · rw [hpop]
        exact .inr ⟨_, rfl, append_stats r c hfits⟩
      · rw [hpop]
        exact .inl happend
    · exact .inl happend
  · rw [if_neg hfits]
    exact .inl happend

theorem faults_consumeStringValue : Faults r (consumeStringValue r c) := by
  unfold consumeStringValue
  dsimp only
  split_ifs <;> exact .inl (append_errors r c)

/-- Outside a number, whose last byte is read again. -/
theorem faults_consume (h : r.state ≠ .numberValue) : Faults r (consume r c) := by
  unfold consume
  split
  · exact faults_consumeIdle r c
  · exact faults_consumeContainer r c
  · exact faults_consumeStringValue r c
  · rename_i hstate
    exact absurd hstate h
  · exact faults_consumeLiteralValue r c

end Faults

/-! ## Where the buffer has room -/

section Room

variable {r : JsonProtocolReader N} (c : UInt8)

theorem append_roomy (h : r.size < N) : (append r c).1.stats.overflows = r.stats.overflows
    ∧ (append r c).1.depth = r.depth := by
  unfold append
  rw [dif_neg (Nat.not_le.mpr h)]
  exact ⟨rfl, rfl⟩

theorem pushContainer_roomy (h : r.depth < N) :
    (pushContainer r c).1.stats.overflows = r.stats.overflows := by
  unfold pushContainer
  rw [dif_neg (Nat.not_le.mpr h)]

theorem consumeLiteralValue_roomy (h : r.size < N) :
    (consumeLiteralValue r c).1.stats.overflows = r.stats.overflows := by
  have happend := (append_roomy c h).1
  unfold consumeLiteralValue
  dsimp only
  split_ifs
  · rfl
  · exact happend
  · exact happend
  · exact happend

theorem consumeIdle_roomy (h : r.size < N) (hdepth : r.depth < N) :
    (consumeIdle r c).1.stats.overflows = r.stats.overflows := by
  obtain ⟨happend, hkept⟩ := append_roomy c h
  have hpush : (pushContainer (append r c).1 c).1.stats.overflows = r.stats.overflows :=
    (pushContainer_roomy c (by rw [hkept]; exact hdepth)).trans happend
  have hliteral (literal : List UInt8) :
      (startLiteral r literal c).1.stats.overflows = r.stats.overflows :=
    consumeLiteralValue_roomy c
      (r := { r with literal := some literal, literalPos := 0, state := .literalValue }) h
  unfold consumeIdle
  dsimp only
  split_ifs
  · rfl
  · exact hpush
  · exact hpush
  · exact happend
  · exact happend
  · exact happend
  · exact happend
  · exact happend
  · exact hliteral _
  · exact hliteral _
  · exact hliteral _
  · rfl

theorem consumeContainer_roomy (h : r.size < N) (hdepth : r.depth < N) :
    (consumeContainer r c).1.stats.overflows = r.stats.overflows := by
  obtain ⟨happend, hkept⟩ := append_roomy c h
  have hpush : (pushContainer (append r c).1 c).1.stats.overflows = r.stats.overflows :=
    (pushContainer_roomy c (by rw [hkept]; exact hdepth)).trans happend
  have hpop : (popContainer (append r c).1 c).1.stats.overflows = r.stats.overflows := by
    rcases popContainer_eq (append r c).1 c with hpop | hpop <;> rw [hpop] <;> exact happend
  unfold consumeContainer
  dsimp only
  split_ifs
  · exact happend
  · exact happend
  · exact happend
  · exact happend
  · exact happend
  · exact hpush
  · exact hpop
  · exact hpop
  · exact happend
  · exact happend

theorem consumeStringValue_roomy (h : r.size < N) :
    (consumeStringValue r c).1.stats.overflows = r.stats.overflows := by
  unfold consumeStringValue
  dsimp only
  split_ifs <;> exact (append_roomy c h).1

theorem consumeNumberValue_roomy (h : r.size < N) :
    (consumeNumberValue r c).1.stats.overflows = r.stats.overflows := by
  have hN : 0 < N := Nat.lt_of_le_of_lt (Nat.zero_le _) h
  unfold consumeNumberValue
  split_ifs
  · exact (append_roomy c h).1
  · exact consumeIdle_roomy (r := (emitJson r).1) c hN hN
  · exact consumeIdle_roomy (r := reset (countError r)) c hN hN

theorem consume_roomy (h : r.size < N)
    (hdepth : r.state = .idle ∨ r.state = .container → r.depth < N) :
    (consume r c).1.stats.overflows = r.stats.overflows := by
  unfold consume
  split
  · rename_i hstate
    exact consumeIdle_roomy c h (hdepth (.inl hstate))
  · rename_i hstate
    exact consumeContainer_roomy c h (hdepth (.inr hstate))
  · exact consumeStringValue_roomy c h
  · exact consumeNumberValue_roomy c h
  · exact consumeLiteralValue_roomy c h

theorem Reading.roomy {text : List UInt8} (h : Reading r text) (hroom : text.length < N) :
    (readByte r c).1.stats.overflows = r.stats.overflows := by
  have hsize : r.size < N := by rw [h.holds.size]; exact hroom
  have hdepth : r.state = .idle ∨ r.state = .container → r.depth < N := by
    intro hstate
    cases h with
    | idle h =>
        rw [h.depth]
        exact Nat.lt_of_le_of_lt (Nat.zero_le _) hroom
    | inside h _ => exact Nat.lt_of_le_of_lt h.depth hsize
    | quoted h _ _ => exact Nat.lt_of_le_of_lt (h.container _ rfl).2.2.1 hsize
    | string h _ =>
        rw [h.value rfl] at hstate
        rcases hstate with hstate | hstate <;> cases hstate
    | number h _ =>
        rw [h.state] at hstate
        rcases hstate with hstate | hstate <;> cases hstate
    | literal _ h _ =>
        rw [h.state] at hstate
        rcases hstate with hstate | hstate <;> cases hstate
  exact consume_roomy (r := countByte r) c hsize hdepth

end Room

/-! ## What the reader does with a byte -/

/-- Only in that state does it hold number bytes. -/
theorem Reading.number_iff {r : JsonProtocolReader N} {text : List UInt8} (h : Reading r text) :
    r.state = .numberValue ↔ NumberBytes text := by
  have hnot (hstate : r.state ≠ .numberValue) (hbytes : ¬NumberBytes text) :
      r.state = .numberValue ↔ NumberBytes text := iff_of_false hstate hbytes
  cases h with
  | idle h =>
      refine hnot (by rw [h.state]; decide) ?_
      rintro ⟨⟨c, cs, hnil, -⟩, -⟩
      cases hnil
  | inside h hopen =>
      obtain ⟨b, bs, rfl, hb⟩ := hopen.first
      exact hnot (by rw [h.state]; decide) fun hn => hn.not_delimited ⟨b, bs, rfl, .inr hb⟩
  | quoted h hopen _ =>
      obtain ⟨b, bs, rfl, hb⟩ := hopen.first
      exact hnot (by rw [(h.container _ rfl).1]; decide)
        fun hn => hn.not_delimited ⟨b, _, rfl, .inr hb⟩
  | string h _ =>
      exact hnot (by rw [h.value rfl]; decide)
        fun hn => hn.not_delimited ⟨quote, _, rfl, .inl rfl⟩
  | number h hbytes => exact iff_of_true h.state hbytes
  | @literal literal k hl h hk =>
      refine hnot (by rw [h.state]; decide) fun hn => ?_
      refine hn.not_framing (literal.drop (k + 1)) ?_
      rw [List.take_append_drop]
      exact .literal hl

/-- What the byte `c` does to a reader that holds `text`: the runs that it ends, and what
is left. -/
structure Divides (r : JsonProtocolReader N) (text : List UInt8) (c : UInt8)
    (runs : List (Fate × List UInt8)) (rest : List UInt8) : Prop where
  divided : Divided N runs rest (text ++ [c])
  output : (readByte r c).2 = runsOf .emitted runs
  overflows : (readByte r c).1.stats.overflows
    = r.stats.overflows + UInt32.ofNat (runsOf .oversized runs).length
  errors : (readByte r c).1.stats.protocolErrors
    = r.stats.protocolErrors + UInt32.ofNat (runsOf .malformed runs).length
  reading : Reading (readByte r c).1 rest

/-- Nothing ends. -/
theorem Divides.more {r r' : JsonProtocolReader N} {text : List UInt8} {c : UInt8}
    (hskip : r.options.skipLeadingWhitespace = true) (hreads : Reads r [c] [] r' 0)
    (hreading : Reading r' (text ++ [c])) : Divides r text c [] (text ++ [c]) := by
  have hfits : (text ++ [c]).length ≤ N := hreading.holds.size ▸ hreading.holds.bounded
  refine ⟨.held hreading.unended hfits, ?_, ?_, ?_, ?_⟩ <;> rw [hreads.readByte]
  · rfl
  · exact hreads.overflows
  · exact (hreads.errors hskip).trans (UInt32.add_zero _).symm
  · exact hreading

/-- The run ends in this byte. -/
theorem Divides.one {r r' : JsonProtocolReader N} {text : List UInt8} {c : UInt8} {fate : Fate}
    {out : List (List UInt8)} (hbyte : readByte r c = (r', out)) (hidle : Idle r')
    (hrun : Run N fate (text ++ [c]) []) (hout : out = runsOf .emitted [(fate, text ++ [c])])
    (hoverflows : r'.stats.overflows
      = r.stats.overflows + UInt32.ofNat (runsOf .oversized [(fate, text ++ [c])]).length)
    (herrors : r'.stats.protocolErrors
      = r.stats.protocolErrors + UInt32.ofNat (runsOf .malformed [(fate, text ++ [c])]).length) :
    Divides r text c [(fate, text ++ [c])] [] := by
  have hdivided := Divided.run hrun (.held unended_nil (Nat.zero_le N))
  rw [List.append_nil] at hdivided
  refine ⟨hdivided, ?_, ?_, ?_, ?_⟩ <;> rw [hbyte]
  · exact hout
  · exact hoverflows
  · exact herrors
  · exact .idle hidle

/-- The run is all that was held; the byte is read again, by a reader that holds
nothing. -/
theorem Divides.behind {r r₁ : JsonProtocolReader N} {text rest : List UInt8} {c : UInt8}
    {fate : Fate} {out : List (List UInt8)} {runs : List (Fate × List UInt8)}
    (h : Divides r₁ [] c runs rest)
    (hbyte : readByte r c = ((readByte r₁ c).1, out ++ (readByte r₁ c).2))
    (hrun : Run N fate text [c]) (hout : out = runsOf .emitted [(fate, text)])
    (hoverflows : r₁.stats.overflows
      = r.stats.overflows + UInt32.ofNat (runsOf .oversized [(fate, text)]).length)
    (herrors : r₁.stats.protocolErrors
      = r.stats.protocolErrors + UInt32.ofNat (runsOf .malformed [(fate, text)]).length) :
    Divides r text c ((fate, text) :: runs) rest := by
  have hcons (f : Fate) : runsOf f ((fate, text) :: runs)
      = runsOf f [(fate, text)] ++ runsOf f runs := runsOf_append f [(fate, text)] runs
  refine ⟨.run hrun h.divided, ?_, ?_, ?_, ?_⟩
  · rw [hbyte, hcons, h.output, hout]
  · rw [hbyte, hcons, List.length_append, UInt32.ofNat_add, ← UInt32.add_assoc, ← hoverflows]
    exact h.overflows
  · rw [hbyte, hcons, List.length_append, UInt32.ofNat_add, ← UInt32.add_assoc, ← herrors]
    exact h.errors
  · rw [hbyte]
    exact h.reading

/-- Outside a number. -/
theorem Reading.divides_plain {r : JsonProtocolReader N} {text : List UInt8}
    (h : Reading r text) (hnumber : ¬NumberBytes text)
    (hskip : r.options.skipLeadingWhitespace = true) (hN : 0 < N) (c : UInt8) :
    ∃ runs rest, Divides r text c runs rest := by
  have hfits : text.length ≤ N := h.holds.size ▸ h.holds.bounded
  cases h.turn hskip hN c with
  | more hreads hreading => exact ⟨[], _, .more hskip hreads hreading⟩
  | ends hreads hframing hidle =>
      have hshort : (text ++ [c]).length ≤ N := by
        have hcounts := (counts_consume (countByte r) c).fits
        rw [show consume (countByte r) c = _ from hreads.readByte] at hcounts
        exact hcounts _ (List.mem_singleton_self _)
      exact ⟨_, _, .one hreads.readByte hidle (.emitted hframing hshort) rfl hreads.overflows
        ((hreads.errors hskip).trans (UInt32.add_zero _).symm)⟩
  | skips htext hws hreads hidle =>
      subst htext
      exact ⟨_, _, .one hreads.readByte hidle (.space hws) rfl hreads.overflows
        ((hreads.errors hskip).trans (UInt32.add_zero _).symm)⟩
  | overflows hreads hidle hgoes =>
      have hfull : text.length = N := by
        refine Nat.le_antisymm hfits (Nat.not_lt.mp fun hroom => ?_)
        have hkept := h.roomy c hroom
        rw [hreads.readByte, hreads.overflows] at hkept
        exact absurd hkept (by simp)
      exact ⟨_, _, .one hreads.readByte hidle (.oversized h.unended hfull hgoes) rfl
        hreads.overflows ((hreads.errors hskip).trans (UInt32.add_zero _).symm)⟩
  | drops errors _ _ _ herrors hcount hbreaks =>
      have hstate : r.state ≠ .numberValue := fun hstate => hnumber (h.number_iff.mp hstate)
      rcases faults_consume (countByte r) c hstate with hclean | ⟨r', hbyte, hstats⟩
      · have hsame : r.stats.protocolErrors + errors = r.stats.protocolErrors :=
          herrors.symm.trans hclean
        rcases hcount with rfl | rfl <;> exact absurd hsame (by simp)
      · refine ⟨_, _, .one hbyte (idle_reset _) (.malformed h.unended hnumber hfits hbreaks) rfl
          ?_ ?_⟩
        · show r'.stats.overflows = _
          rw [hstats]
          exact (UInt32.add_zero _).symm
        · show r'.stats.protocolErrors + 1 = _
          rw [hstats]
          rfl
  | number h' _ _ _ _ => exact absurd (numberBytes_of_number h') hnumber

/-- In a number: its last byte is known by the one behind it. -/
theorem Reading.divides_number {r : JsonProtocolReader N} {text : List UInt8}
    (h : Reading r text) (hbytes : NumberBytes text)
    (hskip : r.options.skipLeadingWhitespace = true) (hN : 0 < N) (c : UInt8) :
    ∃ runs rest, Divides r text c runs rest := by
  have hin : InNumber r text := ⟨h.holds, h.number_iff.mpr hbytes⟩
  have hlen : text.length ≤ N := h.holds.size ▸ h.holds.bounded
  have hnil : ¬NumberBytes [] := by
    rintro ⟨⟨d, ds, hnil, -⟩, -⟩
    cases hnil
  cases hc : isNumberByte c with
  | true =>
      have hmore := hbytes.more hc
      rcases hin.holds.fits_or_full with hroom | hfull
      · obtain ⟨r', hreads, hin'⟩ := takes_numberByte hc r text hin hroom
        exact ⟨_, _, .more hskip hreads (.number hin' hmore)⟩
      · have hreads := numberByte_full hin.state hfull hc
        exact ⟨_, _, .one hreads.readByte (idle_reset _)
          (.oversized h.unended (hin.holds.size.symm.trans hfull) (.inr (.inl (.number hmore)))) rfl
          hreads.overflows ((hreads.errors hskip).trans (UInt32.add_zero _).symm)⟩
  | false =>
      by_cases hnumber : Number text
      · have hstart : Reading (emitJson r).1 [] := .idle (idle_reset _)
        obtain ⟨runs, rest, hdivides⟩ := hstart.divides_plain hnil hskip hN c
        exact ⟨_, _, hdivides.behind (number_ends hin hnumber hc) (.number hnumber hlen hc) rfl
          (UInt32.add_zero _).symm (UInt32.add_zero _).symm⟩
      · have hstart : Reading (reset (countError r)) [] := .idle (idle_reset _)
        obtain ⟨runs, rest, hdivides⟩ := hstart.divides_plain hnil hskip hN c
        exact ⟨_, _, hdivides.behind ((number_malformed hin hnumber hc).trans rfl)
          (.malformedNumber hbytes hnumber hlen hc) rfl (UInt32.add_zero _).symm rfl⟩

/-- **The byte law.** -/
theorem Reading.divides {r : JsonProtocolReader N} {text : List UInt8} (h : Reading r text)
    (hskip : r.options.skipLeadingWhitespace = true) (hN : 0 < N) (c : UInt8) :
    ∃ runs rest, Divides r text c runs rest := by
  by_cases hbytes : NumberBytes text
  · exact h.divides_number hbytes hskip hN c
  · exact h.divides_plain hbytes hskip hN c

/-! ## Whole streams -/

/-- `bytes` have been read into `runs`, and `text` is what is left of them. -/
structure Accounts (r : JsonProtocolReader N) (bytes : List UInt8)
    (runs : List (Fate × List UInt8)) (text : List UInt8) : Prop where
  divided : Divided N runs text bytes
  output : (poll r bytes).2 = runsOf .emitted runs
  overflows : (poll r bytes).1.stats.overflows
    = r.stats.overflows + UInt32.ofNat (runsOf .oversized runs).length
  errors : (poll r bytes).1.stats.protocolErrors
    = r.stats.protocolErrors + UInt32.ofNat (runsOf .malformed runs).length
  reading : Reading (poll r bytes).1 text

theorem Accounts.snoc {r : JsonProtocolReader N} {bytes text rest : List UInt8} {c : UInt8}
    {runs more : List (Fate × List UInt8)} (h : Accounts r bytes runs text)
    (hdivides : Divides (poll r bytes).1 text c more rest) :
    Accounts r (bytes ++ [c]) (runs ++ more) rest := by
  refine ⟨h.divided.append hdivides.divided, ?_, ?_, ?_, ?_⟩
  · rw [poll_snoc, runsOf_append, h.output, hdivides.output]
  · rw [poll_snoc, runsOf_append, List.length_append, UInt32.ofNat_add, ← UInt32.add_assoc,
      ← h.overflows]
    exact hdivides.overflows
  · rw [poll_snoc, runsOf_append, List.length_append, UInt32.ofNat_add, ← UInt32.add_assoc,
      ← h.errors]
    exact hdivides.errors
  · rw [poll_snoc]
    exact hdivides.reading

/-- **The run lemma.** -/
theorem exists_accounts {r : JsonProtocolReader N} (hidle : Idle r)
    (hskip : r.options.skipLeadingWhitespace = true) (hN : 0 < N) (bytes : List UInt8) :
    ∃ runs text, Accounts r bytes runs text := by
  induction bytes using List.reverseRecOn with
  | nil =>
      exact ⟨[], [], .held unended_nil (Nat.zero_le N), rfl, (UInt32.add_zero _).symm,
        (UInt32.add_zero _).symm, .idle hidle⟩
  | append_singleton bytes c ih =>
      obtain ⟨runs, text, haccounts⟩ := ih
      have hskip' : (poll r bytes).1.options.skipLeadingWhitespace = true := by
        rw [poll_options, hskip]
      obtain ⟨more, rest, hdivides⟩ := haccounts.reading.divides hskip' hN c
      exact ⟨runs ++ more, rest, haccounts.snoc hdivides⟩

theorem poll_counts (r : JsonProtocolReader N) (bytes : List UInt8) :
    (poll r bytes).1.stats.messages = r.stats.messages + UInt32.ofNat (poll r bytes).2.length
      ∧ (poll r bytes).1.stats.bytes = r.stats.bytes + UInt32.ofNat bytes.length := by
  induction bytes generalizing r with
  | nil => exact ⟨(UInt32.add_zero _).symm, (UInt32.add_zero _).symm⟩
  | cons c bytes ih =>
      have hbyte : Counts (countByte r) (readByte r c) := counts_consume (countByte r) c
      obtain ⟨hmessages, hbytes⟩ := ih (readByte r c).1
      rw [hbyte.messages] at hmessages
      rw [hbyte.bytes] at hbytes
      refine ⟨hmessages.trans ?_, hbytes.trans ?_⟩
      · rw [poll, List.length_append, UInt32.ofNat_add, ← UInt32.add_assoc]
        rfl
      · rw [List.length_cons, Nat.add_comm, UInt32.ofNat_add, ← UInt32.add_assoc]
        rfl

/-- **Every byte of every stream is accounted for.** There is one way to divide the bytes into
runs, one behind the other, and a text that has not ended. The texts the reader has emitted
are those runs that are of the grammar and fit its buffer; each malformed run is counted as
one error, and each run one byte longer than the buffer as one overflow; the text that has not
ended is what it holds. -/
theorem every_byte_accounted (hN : 0 < N) (arrivals : List (List UInt8)) :
    ∃ runs text, Divided N runs text arrivals.flatten
      ∧ (∀ runs' text', Divided N runs' text' arrivals.flatten → runs' = runs ∧ text' = text)
      ∧ ∃ r, pollAll (fresh N {}) arrivals = (r, runsOf .emitted runs)
        ∧ front r.buffer r.size = text
        ∧ r.stats.bytes.toNat = arrivals.flatten.length % 2 ^ 32
        ∧ r.stats.messages.toNat = (runsOf .emitted runs).length % 2 ^ 32
        ∧ r.stats.protocolErrors.toNat = (runsOf .malformed runs).length % 2 ^ 32
        ∧ r.stats.overflows.toNat = (runsOf .oversized runs).length % 2 ^ 32 := by
  obtain ⟨runs, text, h⟩ := exists_accounts (idle_fresh {}) rfl hN arrivals.flatten
  obtain ⟨hmessages, hbytes⟩ := poll_counts (fresh N {}) arrivals.flatten
  refine ⟨runs, text, h.divided, fun _ _ h' => h.divided.unique h',
    (poll (fresh N {}) arrivals.flatten).1, ?_, h.reading.holds.text, ?_, ?_, ?_, ?_⟩
  · rw [pollAll_eq_poll, ← h.output]
  · rw [hbytes]
    simp [fresh]
  · rw [hmessages, h.output]
    simp [fresh]
  · rw [h.errors]
    simp [fresh]
  · rw [h.overflows]
    simp [fresh]

/-- `1`, a bracket that closes nothing, and a string that has not ended. -/
theorem every_byte_accounted_run : 0 < 3 ∧ ∃ runs text, Divided 3 runs text [49, 32, 93, 34]
      ∧ (∀ runs' text', Divided 3 runs' text' [49, 32, 93, 34] → runs' = runs ∧ text' = text)
      ∧ ∃ r, pollAll (fresh 3 {}) [[49, 32], [93, 34]] = (r, runsOf .emitted runs)
        ∧ front r.buffer r.size = text
        ∧ r.stats.bytes.toNat = [[49, 32], [93, 34]].flatten.length % 2 ^ 32
        ∧ r.stats.messages.toNat = (runsOf .emitted runs).length % 2 ^ 32
        ∧ r.stats.protocolErrors.toNat = (runsOf .malformed runs).length % 2 ^ 32
        ∧ r.stats.overflows.toNat = (runsOf .oversized runs).length % 2 ^ 32 :=
  ⟨by decide, every_byte_accounted (by decide) [[49, 32], [93, 34]]⟩

end JsonProtocolReader

end AsyncEventLoop
