import Mathlib.Data.Nat.Digits.Defs

/-!
# Decimal numerals in C text

A numeral is the decimal digits of a number, the leading one first.
`strtol` skips blanks, takes a sign and reads digits as far as they go, so of
a numeral with something behind that is no digit it returns the number
(`strtol_signed`).
-/

namespace DecimalText

def isSpace (c : UInt8) : Bool := c = 32 || (9 ≤ c && c ≤ 13)

def isDigit (c : UInt8) : Bool := 48 ≤ c && c ≤ 57

def digitChar (digit : Nat) : UInt8 := UInt8.ofNat (48 + digit)

/-- What the digits are worth, the leading one first. -/
def value (text : List UInt8) : Nat :=
  text.foldl (fun acc c => 10 * acc + (c.toNat - 48)) 0

/-- `strtol(text, nullptr, 10)` for a `long` of so many bits; the text ends
where the list does. -/
def strtol (longBits : Nat) (text : List UInt8) : Int :=
  let text := text.dropWhile isSpace
  match text with
  | 45 :: text => max (-value (text.takeWhile isDigit)) (-2 ^ (longBits - 1))
  | 43 :: text => min (value (text.takeWhile isDigit)) (2 ^ (longBits - 1) - 1)
  | text => min (value (text.takeWhile isDigit)) (2 ^ (longBits - 1) - 1)

/-- The numeral of a number, without leading zeros. -/
def numeral (n : Nat) : List UInt8 :=
  if n = 0 then [48] else ((Nat.digits 10 n).map digitChar).reverse

def signed (v : Int) : List UInt8 :=
  if v < 0 then 45 :: numeral v.natAbs else numeral v.natAbs

theorem toNat_digitChar {digit : Nat} (h : digit < 10) :
    (digitChar digit).toNat = 48 + digit := by
  rw [digitChar, UInt8.toNat_ofNat']
  omega

theorem isDigit_iff {c : UInt8} : isDigit c = true ↔ 48 ≤ c.toNat ∧ c.toNat ≤ 57 := by
  simp [isDigit, UInt8.le_iff_toNat_le]

theorem value_reverse (digits : List Nat) (h : ∀ digit ∈ digits, digit < 10) :
    value (digits.map digitChar).reverse = Nat.ofDigits 10 digits := by
  induction digits with
  | nil => rfl
  | cons digit digits ih =>
      obtain ⟨hdigit, hdigits⟩ := List.forall_mem_cons.mp h
      have hrest := ih hdigits
      unfold value at hrest ⊢
      rw [List.map_cons, List.reverse_cons, List.foldl_append, hrest, Nat.ofDigits_cons]
      show 10 * Nat.ofDigits 10 digits + ((digitChar digit).toNat - 48) = _
      rw [toNat_digitChar hdigit]
      omega

theorem value_numeral (n : Nat) : value (numeral n) = n := by
  unfold numeral
  split
  · subst n
    rfl
  · rw [value_reverse _ fun digit h => Nat.digits_lt_base (by omega) h, Nat.ofDigits_digits]

theorem isDigit_of_mem_numeral {n : Nat} {c : UInt8} (h : c ∈ numeral n) : isDigit c = true := by
  unfold numeral at h
  split at h
  · obtain rfl := List.mem_singleton.mp h
    rfl
  · obtain ⟨digit, hdigit, rfl⟩ := List.mem_map.mp (List.mem_reverse.mp h)
    have hlt : digit < 10 := Nat.digits_lt_base (by omega) hdigit
    rw [isDigit_iff, toNat_digitChar hlt]
    omega

theorem numeral_ne_nil (n : Nat) : numeral n ≠ [] := by
  unfold numeral
  split
  · exact List.cons_ne_nil _ _
  · rename_i hn
    simp [Nat.digits_ne_nil_iff_ne_zero.mpr hn]

theorem ne_zero_of_mem_signed {v : Int} {c : UInt8} (h : c ∈ signed v) : c ≠ 0 := by
  have hnumeral : ∀ n, c ∈ numeral n → c ≠ 0 := by
    rintro n hc rfl
    cases isDigit_of_mem_numeral hc
  unfold signed at h
  split at h
  · rcases List.mem_cons.mp h with rfl | hc
    · decide
    · exact hnumeral _ hc
  · exact hnumeral _ h

/-- A numeral is the digits in front, whatever comes behind them. -/
theorem takeWhile_numeral (n : Nat) {rest : List UInt8}
    (hrest : rest.head?.all fun c => !isDigit c) :
    (numeral n ++ rest).takeWhile isDigit = numeral n := by
  rw [List.takeWhile_append_of_pos fun c hc => isDigit_of_mem_numeral hc]
  cases rest with
  | nil => simp
  | cons c rest =>
      have hc : isDigit c = false := by simpa using hrest
      rw [List.takeWhile_cons, hc, if_neg Bool.false_ne_true, List.append_nil]

/-- **Reading a numeral back**: whatever follows it, unless another digit. -/
theorem strtol_signed {longBits : Nat} {v : Int} (hlow : -2 ^ (longBits - 1) ≤ v)
    (hhigh : v < 2 ^ (longBits - 1)) {rest : List UInt8}
    (hrest : rest.head?.all fun c => !isDigit c) :
    strtol longBits (signed v ++ rest) = v := by
  unfold signed
  split
  · rename_i hneg
    have htext : strtol longBits (45 :: numeral v.natAbs ++ rest)
        = max (-(value ((numeral v.natAbs ++ rest).takeWhile isDigit) : Int))
          (-2 ^ (longBits - 1)) := rfl
    rw [htext, takeWhile_numeral _ hrest, value_numeral]
    omega
  · rename_i hnonneg
    obtain ⟨c, digits, htext⟩ := List.exists_cons_of_ne_nil (numeral_ne_nil v.natAbs)
    have hc : isDigit c = true := isDigit_of_mem_numeral (by rw [htext]; exact List.mem_cons_self)
    have hrange := isDigit_iff.mp hc
    have hspace : isSpace c = false := by
      simp [isSpace, UInt8.le_iff_toNat_le, ← UInt8.toNat_inj]
      omega
    have hminus : c ≠ 45 := by
      rintro rfl
      cases hc
    have hplus : c ≠ 43 := by
      rintro rfl
      cases hc
    have hread : strtol longBits (numeral v.natAbs ++ rest)
        = min (value ((numeral v.natAbs ++ rest).takeWhile isDigit) : Int)
          (2 ^ (longBits - 1) - 1) := by
      unfold strtol
      rw [htext, List.cons_append, List.dropWhile_cons, hspace, if_neg Bool.false_ne_true]
      dsimp only
      split
      · exact absurd (List.cons.inj ‹_›).1 hminus
      · exact absurd (List.cons.inj ‹_›).1 hplus
      · rfl
    rw [hread, takeWhile_numeral _ hrest, value_numeral]
    omega

end DecimalText
