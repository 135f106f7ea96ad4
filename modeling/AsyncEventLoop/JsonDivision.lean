import AsyncEventLoop.JsonUnended

/-!
# The runs of a stream

A stream of bytes, divided by what becomes of them in a buffer of `N` bytes: texts of the
framing grammar and numbers, white space, runs that break off and runs that are too long.
Each run goes on as long as it may be a text, and nothing in it is left to choose: a stream
is divided in one way (`Divided.unique`).
-/

namespace AsyncEventLoop

open JsonGrammar

namespace JsonProtocolReader

variable {N : Nat}

/-! ## The runs -/

/-- What becomes of a run of bytes. -/
inductive Fate where
  | emitted
  | space
  | malformed
  | oversized
  deriving DecidableEq

/-- The runs that have that fate, where the bytes `behind` follow: a text of the framing grammar;
a number, which ends before a byte of another kind; a byte of white space; a text that its last
byte breaks, or number bytes that are no number; and a text that goes on, or a string or container
with any byte behind it, one byte too long. -/
inductive Run (N : Nat) : Fate → (w behind : List UInt8) → Prop where
  | emitted {w behind : List UInt8} (h : Framing w) (hfits : w.length ≤ N) : Run N .emitted w behind
  | number {w behind : List UInt8} {c : UInt8} (h : Number w) (hfits : w.length ≤ N)
      (hc : isNumberByte c = false) : Run N .emitted w (c :: behind)
  | space {c : UInt8} {behind : List UInt8} (h : isWs c = true) : Run N .space [c] behind
  | malformed {w behind : List UInt8} {c : UInt8} (hw : Unended w) (hnumber : ¬NumberBytes w)
      (hfits : w.length ≤ N) (hbreaks : Breaks N w c) : Run N .malformed (w ++ [c]) behind
  | malformedNumber {w behind : List UInt8} {c : UInt8} (h : NumberBytes w) (hnot : ¬Number w)
      (hfits : w.length ≤ N) (hc : isNumberByte c = false) : Run N .malformed w (c :: behind)
  | oversized {w behind : List UInt8} {c : UInt8} (hw : Unended w) (hlen : w.length = N)
      (hgoes : Delimited w ∨ Unended (w ++ [c]) ∨ Framing (w ++ [c])) :
      Run N .oversized (w ++ [c]) behind

/-- The bytes fall into runs one behind the other, and a text that has not ended. -/
inductive Divided (N : Nat) :
    (runs : List (Fate × List UInt8)) → (text bytes : List UInt8) → Prop where
  | held {text : List UInt8} (h : Unended text) (hfits : text.length ≤ N) : Divided N [] text text
  | run {fate : Fate} {w text bytes : List UInt8} {runs : List (Fate × List UInt8)}
      (hrun : Run N fate w bytes) (h : Divided N runs text bytes) :
      Divided N ((fate, w) :: runs) text (w ++ bytes)

theorem Run.behind {fate : Fate} {w behind : List UInt8} (h : Run N fate w behind)
    (more : List UInt8) : Run N fate w (behind ++ more) := by
  cases h with
  | emitted h hfits => exact .emitted h hfits
  | number h hfits hc => exact .number h hfits hc
  | space h => exact .space h
  | malformed hw hnumber hfits hbreaks => exact .malformed hw hnumber hfits hbreaks
  | malformedNumber h hnot hfits hc => exact .malformedNumber h hnot hfits hc
  | oversized hw hlen hgoes => exact .oversized hw hlen hgoes

/-- What is left and the bytes behind it are divided in their turn. -/
theorem Divided.append {runs more : List (Fate × List UInt8)} {text bytes rest s : List UInt8}
    (h : Divided N runs text bytes) (h' : Divided N more rest (text ++ s)) :
    Divided N (runs ++ more) rest (bytes ++ s) := by
  induction h with
  | held _ _ => exact h'
  | run hrun _ ih =>
      rw [List.append_assoc]
      exact .run (hrun.behind s) (ih h')

/-! ## There is one way -/

/-- As long as a run goes on, it is a text that has not ended. -/
theorem Run.unended {fate : Fate} {w behind p more : List UInt8} (h : Run N fate w behind)
    (hw : w = p ++ more) (hmore : more ≠ []) : Unended p ∧ p.length ≤ N := by
  -- all but the last byte of `u ++ [c]`
  have hinit {u : List UInt8} {c : UInt8} (hu : Unended u) (hfits : u.length ≤ N)
      (heq : u ++ [c] = p ++ more) : Unended p ∧ p.length ≤ N := by
    obtain ⟨more', c', rfl⟩ := (List.eq_nil_or_concat' more).resolve_left hmore
    rw [← List.append_assoc] at heq
    obtain ⟨rfl, -⟩ := List.append_singleton_inj.mp heq
    refine ⟨hu.of_append, Nat.le_trans ?_ hfits⟩
    rw [List.length_append]
    exact Nat.le_add_right _ _
  have hshort (hfits : w.length ≤ N) : p.length ≤ N := by
    rw [hw, List.length_append] at hfits
    omega
  cases h with
  | emitted h hfits => exact ⟨.framing more hmore (hw ▸ h), hshort hfits⟩
  | number h hfits _ =>
      exact ⟨(hw ▸ Unended.number (numberBytes_of_number h)).of_append, hshort hfits⟩
  | space _ => exact hinit (u := []) unended_nil (Nat.zero_le N) hw
  | malformed hu _ hfits _ => exact hinit hu hfits hw
  | malformedNumber h _ hfits _ => exact ⟨(hw ▸ Unended.number h).of_append, hshort hfits⟩
  | oversized hu hlen _ => exact hinit hu (Nat.le_of_eq hlen) hw

/-- White space is not the beginning of anything. -/
theorem not_unended_ws {c : UInt8} (h : isWs c = true) : ¬Unended [c] ∧ ¬Framing [c] := by
  have hframing (more : List UInt8) : ¬Framing ([c] ++ more) := by
    intro hframing
    have hplain := hframing.head_plain.2
    rw [h] at hplain
    cases hplain
  refine ⟨fun hended => ?_, hframing []⟩
  cases hended with
  | framing more _ hmore => exact hframing more hmore
  | number hnumber =>
      have hbyte := hnumber.2 c (List.mem_singleton_self c)
      rw [isNumberByte_of_isWs h] at hbyte
      cases hbyte

/-- Where a run ends: it may not go on, or it is number bytes that another byte ends. -/
theorem Run.ends {fate : Fate} {w behind : List UInt8} (h : Run N fate w behind) :
    ¬(Unended w ∧ w.length ≤ N)
      ∨ NumberBytes w ∧ ∃ c more, behind = c :: more ∧ isNumberByte c = false := by
  cases h with
  | emitted h _ => exact .inl fun hw => h.ended hw.1
  | number h _ hc => exact .inr ⟨numberBytes_of_number h, _, _, rfl, hc⟩
  | space h => exact .inl fun hw => (not_unended_ws h).1 hw.1
  | malformed _ _ _ hbreaks => exact .inl fun hw => hbreaks.unended hw.1
  | malformedNumber h _ _ hc => exact .inr ⟨h, _, _, rfl, hc⟩
  | @oversized w _ c _ hlen _ =>
      refine .inl fun hw => ?_
      have hlong := hw.2
      rw [List.length_append, hlen] at hlong
      exact Nat.not_succ_le_self N hlong

/-- No run goes from number bytes on to a byte of another kind. -/
theorem NumberBytes.not_run {w behind : List UInt8} {c : UInt8} (h : NumberBytes w)
    (hc : isNumberByte c = false) {fate : Fate} : ¬Run N fate (w ++ [c]) behind := by
  obtain ⟨hunended, hframing⟩ := h.ends hc
  have hnumber : ¬NumberBytes (w ++ [c]) := fun hbytes => hunended (.number hbytes)
  intro hrun
  generalize hw : w ++ [c] = w' at hrun
  cases hrun with
  | emitted h' _ => exact hframing (hw ▸ h')
  | number h' _ _ => exact hnumber (hw ▸ numberBytes_of_number h')
  | @space c' _ h' =>
      obtain ⟨⟨b, bs, rfl, -⟩, -⟩ := h
      simp at hw
  | malformed _ hnot _ _ =>
      obtain ⟨rfl, -⟩ := List.append_singleton_inj.mp hw
      exact hnot h
  | malformedNumber h' _ _ _ => exact hnumber (hw ▸ h')
  | oversized _ _ hgoes =>
      obtain ⟨rfl, rfl⟩ := List.append_singleton_inj.mp hw
      rcases hgoes with hdelimited | hgoes | hgoes
      · exact h.not_delimited hdelimited
      · exact hunended hgoes
      · exact hframing hgoes

/-- Two runs of the same bytes end in the same place. -/
theorem Run.not_longer {fate fate' : Fate} {w behind more behind' : List UInt8}
    (h : Run N fate w behind) (h' : Run N fate' (w ++ more) behind')
    (hbehind : behind = more ++ behind') : more = [] := by
  by_contra hmore
  rcases h.ends with hends | ⟨hnumber, c, rest, hnext, hc⟩
  · exact hends (h'.unended rfl hmore)
  · obtain ⟨d, more', rfl⟩ := List.exists_cons_of_ne_nil hmore
    rw [hnext, List.cons_append] at hbehind
    obtain ⟨rfl, -⟩ := List.cons.inj hbehind
    have hassoc : w ++ c :: more' = w ++ [c] ++ more' := by simp
    rw [hassoc] at h'
    by_cases hlast : more' = []
    · rw [hlast, List.append_nil] at h'
      exact hnumber.not_run hc h'
    · exact (hnumber.ends hc).1 (h'.unended rfl hlast).1

theorem Run.emitted_of_text {fate : Fate} {w behind : List UInt8} (h : Run N fate w behind)
    (hw : Framing w ∨ Number w) (hfits : w.length ≤ N) : fate = .emitted := by
  have hgoes : Unended w ∨ Framing w :=
    hw.symm.imp_left fun h => .number (numberBytes_of_number h)
  cases h with
  | emitted _ _ | number _ _ _ => rfl
  | space h => exact (hgoes.elim (not_unended_ws h).1 (not_unended_ws h).2).elim
  | malformed _ _ _ hbreaks => exact (hgoes.elim hbreaks.unended hbreaks.framing).elim
  | malformedNumber h hnot _ _ =>
      exact (hw.elim (by simpa using h.not_framing []) hnot).elim
  | oversized _ hlen _ =>
      rw [List.length_append, hlen] at hfits
      exact absurd hfits (Nat.not_succ_le_self N)

theorem Run.space_of_ws {fate : Fate} {c : UInt8} {behind : List UInt8}
    (h : Run N fate [c] behind) (hc : isWs c = true) : fate = .space := by
  obtain ⟨hunended, hframing⟩ := not_unended_ws hc
  generalize hw : [c] = w at h hunended hframing
  cases h with
  | emitted h _ => exact absurd h hframing
  | number h _ _ => exact absurd (.number (numberBytes_of_number h)) hunended
  | space _ => rfl
  | @malformed u _ d _ _ _ hbreaks =>
      obtain ⟨rfl, rfl⟩ := List.append_singleton_inj.mp ((List.nil_append [c]).trans hw)
      rw [hbreaks.space rfl] at hc
      cases hc
  | malformedNumber h _ _ _ => exact absurd (.number h) hunended
  | @oversized u _ d _ _ hgoes =>
      obtain ⟨rfl, -⟩ := List.append_singleton_inj.mp ((List.nil_append [c]).trans hw)
      rcases hgoes with ⟨b, bs, hnil, -⟩ | hgoes | hgoes
      · cases hnil
      · exact absurd hgoes hunended
      · exact absurd hgoes hframing

theorem Run.oversized_of_length {fate : Fate} {w behind : List UInt8} {c : UInt8}
    (h : Run N fate (w ++ [c]) behind) (hlen : w.length = N)
    (hgoes : Delimited w ∨ Unended (w ++ [c]) ∨ Framing (w ++ [c])) : fate = .oversized := by
  have hlong : ¬(w ++ [c]).length ≤ N := by
    rw [List.length_append, hlen]
    exact Nat.not_succ_le_self N
  generalize hw : w ++ [c] = w' at h hlong
  cases h with
  | emitted _ hfits | number _ hfits _ | malformedNumber _ _ hfits _ => exact absurd hfits hlong
  | @space d _ hd =>
      obtain ⟨rfl, rfl⟩ := List.append_singleton_inj.mp (hw.trans (List.nil_append [d]).symm)
      obtain ⟨hunended, hframing⟩ := not_unended_ws hd
      rcases hgoes with ⟨b, bs, hnil, -⟩ | hgoes | hgoes
      · cases hnil
      · exact absurd hgoes hunended
      · exact absurd hgoes hframing
  | malformed _ _ _ hbreaks =>
      obtain ⟨rfl, rfl⟩ := List.append_singleton_inj.mp hw
      rcases hgoes with hdelimited | hgoes | hgoes
      · rcases hbreaks.room with hroom | hnot
        · exact absurd hlen (Nat.ne_of_lt hroom)
        · exact absurd hdelimited hnot
      · exact absurd hgoes hbreaks.unended
      · exact absurd hgoes hbreaks.framing
  | oversized _ _ _ => rfl

/-- What the bytes are says what becomes of them. -/
theorem Run.fate_eq {fate fate' : Fate} {w behind behind' : List UInt8}
    (h : Run N fate w behind) (h' : Run N fate' w behind') : fate' = fate := by
  have hforward {f f' : Fate} {w b b' : List UInt8} (h : Run N f w b) (h' : Run N f' w b')
      (hf : f ≠ .malformed) : f' = f := by
    cases h with
    | emitted h hfits => exact h'.emitted_of_text (.inl h) hfits
    | number h hfits _ => exact h'.emitted_of_text (.inr h) hfits
    | space h => exact h'.space_of_ws h
    | oversized _ hlen hgoes => exact h'.oversized_of_length hlen hgoes
    | malformed _ _ _ _ | malformedNumber _ _ _ _ => exact absurd rfl hf
  by_cases hf : fate = .malformed
  · by_cases hf' : fate' = .malformed
    · rw [hf, hf']
    · exact (hforward h' h hf').symm
  · exact hforward h h' hf

theorem Run.unique {fate fate' : Fate} {w w' behind behind' : List UInt8}
    (h : Run N fate w behind) (h' : Run N fate' w' behind') (heq : w ++ behind = w' ++ behind') :
    fate' = fate ∧ w = w' ∧ behind = behind' := by
  have hsame : w = w' := by
    rcases List.append_eq_append_iff.mp heq with ⟨more, rfl, hbehind⟩ | ⟨more, rfl, hbehind⟩
    · rw [h.not_longer h' hbehind, List.append_nil]
    · rw [h'.not_longer h hbehind, List.append_nil]
  subst hsame
  exact ⟨h.fate_eq h', rfl, List.append_cancel_left heq⟩

/-- No run begins in a text that has not ended. -/
theorem Run.not_held {fate : Fate} {w behind : List UInt8} (h : Run N fate w behind)
    (htext : Unended (w ++ behind)) (hfits : (w ++ behind).length ≤ N) : False := by
  rcases h.ends with hends | ⟨hnumber, c, more, rfl, hc⟩
  · rw [List.length_append] at hfits
    exact hends ⟨htext.of_append, by omega⟩
  · rw [List.append_cons] at htext
    exact (hnumber.ends hc).1 htext.of_append

/-- **A stream is divided in one way.** -/
theorem Divided.unique {runs runs' : List (Fate × List UInt8)} {text text' bytes : List UInt8}
    (h : Divided N runs text bytes) (h' : Divided N runs' text' bytes) :
    runs' = runs ∧ text' = text := by
  induction h generalizing runs' text' with
  | held htext hfits =>
      cases h' with
      | held _ _ => exact ⟨rfl, rfl⟩
      | run hrun _ => exact (hrun.not_held htext hfits).elim
  | @run fate w text behind runs hrun _ ih =>
      generalize hbytes : w ++ behind = bytes at h'
      cases h' with
      | held htext hfits =>
          subst hbytes
          exact (hrun.not_held htext hfits).elim
      | run hrun' h' =>
          obtain ⟨rfl, rfl, rfl⟩ := hrun.unique hrun' hbytes
          obtain ⟨rfl, rfl⟩ := ih h'
          exact ⟨rfl, rfl⟩

/-- The runs of that fate, in order. -/
def runsOf (fate : Fate) (runs : List (Fate × List UInt8)) : List (List UInt8) :=
  (runs.filter fun run => run.1 = fate).map Prod.snd

theorem runsOf_append (fate : Fate) (runs more : List (Fate × List UInt8)) :
    runsOf fate (runs ++ more) = runsOf fate runs ++ runsOf fate more := by
  rw [runsOf, List.filter_append, List.map_append]
  rfl

end JsonProtocolReader

end AsyncEventLoop
