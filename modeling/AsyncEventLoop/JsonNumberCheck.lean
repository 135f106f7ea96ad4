import AsyncEventLoop.JsonLanguage

/-!
# The number check, read by read

`valid_number` is given a pointer and a length and goes over the bytes by
index. Here each of its reads is checked against the length, and each of its
loops is given a number of turns: `none` says that a byte at or beyond the
length was read, or that the turns were used up. Neither happens, and what
comes out is `validNumber`, on whose texts the reader works (`Rest`: the text
from an index on).
-/

namespace AsyncEventLoop

open JsonGrammar

namespace NumberCheck

/-! ## The check -/

/-- `i < len && p(text[i])`. -/
def nextIs (text : List UInt8) (p : UInt8 → Bool) (i : Nat) : Option Bool :=
  if i < text.length then text[i]?.map p else some false

/-- `i == len || !is_digit(text[i])`, which relies on `i` being at most `len`. -/
def lacksDigit (text : List UInt8) (i : Nat) : Option Bool :=
  if i = text.length then some true else text[i]?.map fun c => !isDigit c

/-- `while (i < len && is_digit(text[i])) ++i;`, and the index behind it. -/
def skipDigits (text : List UInt8) : (turns i : Nat) → Option Nat
  | 0, _ => none
  | turns + 1, i =>
      (nextIs text isDigit i).bind fun digit =>
        if digit then skipDigits text turns (i + 1) else some i

/-- One digit or more, and what comes behind them:
`if (i == len || !is_digit(text[i])) return false;` and the loop. -/
def digitsThen (text : List UInt8) (turns i : Nat) (behind : Nat → Option Bool) : Option Bool :=
  (lacksDigit text i).bind fun lacks =>
    if lacks then some false else (skipDigits text turns i).bind behind

/-- `valid_number` from its exponent on. -/
def validExponent (text : List UInt8) (turns i : Nat) : Option Bool :=
  (nextIs text (fun c => c = 101 ∨ c = 69) i).bind fun mark =>
    if mark then
      (nextIs text (fun c => c = plus ∨ c = minus) (i + 1)).bind fun sign =>
        digitsThen text turns (if sign then i + 2 else i + 1) fun i => some (i = text.length)
    else some (i = text.length)

/-- `valid_number` from its fraction on. -/
def validFraction (text : List UInt8) (turns i : Nat) : Option Bool :=
  (nextIs text (· = dot) i).bind fun point =>
    if point then digitsThen text turns (i + 1) (validExponent text turns)
    else validExponent text turns i

/-- `valid_number` from behind the sign on. -/
def validUnsigned (text : List UInt8) (turns i : Nat) : Option Bool :=
  text[i]?.bind fun c =>
    if c = 48 then validFraction text turns (i + 1)
    else if isNonzeroDigit c then (skipDigits text turns i).bind (validFraction text turns)
    else some false

/-- `valid_number`. The text has the given length; there is none behind a null pointer. -/
def validNumber (turns : Nat) : (text : Option (List UInt8)) → Option Bool
  | none => some false
  | some text =>
      if text.length = 0 then some false
      else
        text[0]?.bind fun c =>
          if c = minus then
            if 1 = text.length then some false else validUnsigned text turns 1
          else validUnsigned text turns 0

/-! ## The text from an index on -/

/-- Index `i` is within the text or at its end, and `rest` is what stands from there on. -/
structure Rest (text : List UInt8) (i : Nat) (rest : List UInt8) : Prop where
  le : i ≤ text.length
  drop : text.drop i = rest

section

variable {text rest : List UInt8} {c : UInt8} {i turns : Nat} {p : UInt8 → Bool}

theorem Rest.all (text : List UInt8) : Rest text 0 text := ⟨Nat.zero_le _, rfl⟩

theorem Rest.length (h : Rest text i rest) : i + rest.length = text.length := by
  rw [← h.drop, List.length_drop]
  exact Nat.add_sub_cancel' h.le

theorem Rest.at_end (h : Rest text i rest) : i = text.length ↔ rest = [] := by
  rw [← h.length, ← List.length_eq_zero_iff]
  omega

theorem Rest.next (h : Rest text i (c :: rest)) : Rest text (i + 1) rest := by
  refine ⟨?_, ?_⟩
  · rw [← h.length]
    exact Nat.add_le_add_left (Nat.succ_pos _) i
  · rw [← List.drop_drop, h.drop]
    rfl

theorem Rest.getElem? (h : Rest text i (c :: rest)) : text[i]? = some c := by
  rw [← List.head?_drop, h.drop]
  rfl

theorem Rest.nextIs_nil (h : Rest text i []) : nextIs text p i = some false := by
  rw [nextIs, if_neg (Nat.not_lt.mpr (Nat.le_of_eq (h.at_end.mpr rfl).symm))]

theorem Rest.nextIs_cons (h : Rest text i (c :: rest)) : nextIs text p i = some (p c) := by
  rw [nextIs, if_pos, h.getElem?, Option.map_some]
  rw [← h.length]
  exact Nat.lt_add_of_pos_right (Nat.succ_pos _)

theorem Rest.lacksDigit_nil (h : Rest text i []) : lacksDigit text i = some true :=
  if_pos (h.at_end.mpr rfl)

theorem Rest.lacksDigit_cons (h : Rest text i (c :: rest)) :
    lacksDigit text i = some (!isDigit c) := by
  rw [lacksDigit, if_neg (h.at_end.not.mpr (List.cons_ne_nil c rest)), h.getElem?, Option.map_some]

/-- The loop ends, where the digits do. -/
theorem Rest.skipDigits (h : Rest text i rest) (hturns : rest.length < turns) :
    ∃ j, skipDigits text turns i = some j ∧ Rest text j (rest.dropWhile isDigit) := by
  induction turns generalizing i rest with
  | zero => exact absurd hturns (Nat.not_lt_zero _)
  | succ turns ih =>
      cases rest with
      | nil => exact ⟨i, by rw [NumberCheck.skipDigits, h.nextIs_nil]; rfl, h⟩
      | cons c rest =>
          rw [NumberCheck.skipDigits, h.nextIs_cons, Option.bind_some]
          by_cases hc : isDigit c = true
          · obtain ⟨j, hj, hrest⟩ := ih h.next (Nat.lt_of_succ_lt_succ hturns)
            exact ⟨j, by rw [if_pos hc, hj], by rwa [List.dropWhile_cons_of_pos hc]⟩
          · exact ⟨i, if_neg hc, by rwa [List.dropWhile_cons_of_neg hc]⟩

/-- One digit or more, and what comes behind them, on the text itself. -/
def someDigits (valid : List UInt8 → Bool) : List UInt8 → Bool
  | [] => false
  | d :: ds => isDigit d && valid (ds.dropWhile isDigit)

theorem Rest.digitsThen (h : Rest text i rest) (hturns : rest.length < turns)
    {behind : Nat → Option Bool} {valid : List UInt8 → Bool}
    (hbehind : ∀ j rest, Rest text j rest → rest.length < turns → behind j = some (valid rest)) :
    digitsThen text turns i behind = some (someDigits valid rest) := by
  rw [NumberCheck.digitsThen]
  cases rest with
  | nil => rw [h.lacksDigit_nil]; rfl
  | cons d ds =>
      rw [h.lacksDigit_cons, Option.bind_some, someDigits]
      cases hd : isDigit d with
      | false => rfl
      | true =>
          obtain ⟨j, hj, hrest⟩ := h.skipDigits hturns
          rw [List.dropWhile_cons_of_pos hd] at hrest
          have hless : (ds.dropWhile isDigit).length < turns :=
            Nat.lt_of_le_of_lt (List.length_dropWhile_le _ _) (Nat.lt_of_succ_lt hturns)
          rw [hj]
          exact hbehind j _ hrest hless

theorem validExponent_cons :
    AsyncEventLoop.validExponent (c :: rest) = if c = 101 ∨ c = 69 then
      someDigits List.isEmpty
        (if rest.head? = some plus ∨ rest.head? = some minus then rest.tail else rest)
      else false := by
  rw [AsyncEventLoop.validExponent]
  dsimp only
  generalize (if rest.head? = some plus ∨ rest.head? = some minus then rest.tail else rest) = ds
  cases ds <;> rfl

theorem validFraction_cons :
    AsyncEventLoop.validFraction (c :: rest) = if c = dot then
      someDigits AsyncEventLoop.validExponent rest
      else AsyncEventLoop.validExponent (c :: rest) := by
  cases rest <;> rfl

theorem Rest.ended (h : Rest text i rest) : decide (i = text.length) = rest.isEmpty := by
  rw [Bool.eq_iff_iff, decide_eq_true_eq, h.at_end, List.isEmpty_iff]

/-- Over the sign of an exponent, if there is one. -/
theorem Rest.unsigned (h : Rest text i rest) :
    ∃ sign, nextIs text (fun c => c = plus ∨ c = minus) i = some sign
      ∧ Rest text (if sign then i + 1 else i)
          (if rest.head? = some plus ∨ rest.head? = some minus then rest.tail else rest) := by
  cases rest with
  | nil => exact ⟨false, h.nextIs_nil, h⟩
  | cons c cs =>
      refine ⟨_, h.nextIs_cons, ?_⟩
      by_cases hc : c = plus ∨ c = minus
      · rw [if_pos (decide_eq_true hc), if_pos (by simpa using hc)]
        exact h.next
      · rw [if_neg (by simpa using hc), if_neg (by simpa using hc)]
        exact h

theorem Rest.validExponent (h : Rest text i rest) (hturns : rest.length < turns) :
    validExponent text turns i = some (AsyncEventLoop.validExponent rest) := by
  rw [NumberCheck.validExponent, h.ended]
  cases rest with
  | nil => rw [h.nextIs_nil]; rfl
  | cons e cs =>
      rw [h.nextIs_cons, Option.bind_some, validExponent_cons]
      by_cases he : e = 101 ∨ e = 69
      · rw [if_pos (decide_eq_true he), if_pos he]
        obtain ⟨sign, hsign, hrest⟩ := h.next.unsigned
        rw [hsign, Option.bind_some]
        refine hrest.digitsThen ?_ fun j rest hj _ => congrArg some hj.ended
        have hless : cs.length < turns := Nat.lt_of_succ_lt hturns
        split
        · exact Nat.lt_of_le_of_lt (by simp) hless
        · exact hless
      · rw [if_neg (by simpa using he), if_neg he]
        rfl

theorem Rest.validFraction (h : Rest text i rest) (hturns : rest.length < turns) :
    validFraction text turns i = some (AsyncEventLoop.validFraction rest) := by
  rw [NumberCheck.validFraction]
  cases rest with
  | nil => rw [h.nextIs_nil]; exact h.validExponent hturns
  | cons c cs =>
      rw [h.nextIs_cons, Option.bind_some, validFraction_cons]
      by_cases hc : c = dot
      · rw [if_pos (decide_eq_true hc), if_pos hc]
        exact h.next.digitsThen (Nat.lt_of_succ_lt hturns) fun j rest hj => hj.validExponent
      · rw [if_neg (by simpa using hc), if_neg hc]
        exact h.validExponent hturns

theorem Rest.validUnsigned (h : Rest text i (c :: rest)) (hturns : rest.length + 1 < turns) :
    validUnsigned text turns i = some (if c = 48 then AsyncEventLoop.validFraction rest
      else if isNonzeroDigit c then AsyncEventLoop.validFraction (rest.dropWhile isDigit)
      else false) := by
  have hless : rest.length < turns := Nat.lt_of_succ_lt hturns
  rw [NumberCheck.validUnsigned, h.getElem?, Option.bind_some]
  split
  · exact h.next.validFraction hless
  · split
    · rename_i hc
      obtain ⟨j, hj, hrest⟩ := h.skipDigits hturns
      rw [List.dropWhile_cons_of_pos (isDigit_of_isNonzeroDigit hc)] at hrest
      rw [hj]
      exact hrest.validFraction (Nat.lt_of_le_of_lt (List.length_dropWhile_le _ _) hless)
    · rfl

/-- Every read is below the length, every loop ends, and what comes out is `validNumber`. -/
theorem validNumber_eq (hturns : text.length < turns) :
    validNumber turns (some text) = some (AsyncEventLoop.validNumber text) := by
  have hall := Rest.all text
  rw [NumberCheck.validNumber]
  cases text with
  | nil => rfl
  | cons c cs =>
      rw [if_neg (by simp), hall.getElem?, Option.bind_some, AsyncEventLoop.validNumber]
      by_cases hc : c = minus
      · have hhead : (c :: cs).head? = some minus := congrArg some hc
        rw [if_pos hc, if_pos hhead, List.tail_cons]
        cases cs with
        | nil => rfl
        | cons d ds =>
            rw [if_neg (by simp)]
            exact hall.next.validUnsigned (Nat.lt_of_succ_lt hturns)
      · rw [if_neg hc, if_neg (by simpa using hc)]
        exact hall.validUnsigned hturns

end

end NumberCheck

/-- For every byte string, and for a null pointer: whatever number of turns above
its length the loops are given, no byte at or beyond the length is read, the
loops end, and the answer is whether the string is a number. -/
theorem validNumber_decides_number (text : Option (List UInt8)) :
    ∃ valid, (∀ turns, (text.getD []).length < turns →
        NumberCheck.validNumber turns text = some valid)
      ∧ (valid = true ↔ ∃ t, text = some t ∧ Number t) := by
  cases text with
  | none => exact ⟨false, fun _ _ => rfl, by simp⟩
  | some t =>
      refine ⟨validNumber t, fun turns => NumberCheck.validNumber_eq, ?_⟩
      rw [validNumber_iff]
      exact ⟨fun h => ⟨t, rfl, h⟩, fun ⟨_, heq, h⟩ => Option.some.inj heq ▸ h⟩

end AsyncEventLoop
