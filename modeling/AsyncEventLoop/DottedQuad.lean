import Mathlib.Data.Nat.Digits.Lemmas
import AsyncEventLoop.DecimalText

/-!
# IPv4 addresses in C text

`inet_ntop` and `printf("%u.%u.%u.%u")` write an address as four decimal numbers with
dots in between. `inet_pton` reads back what they write and takes nothing else
(`inetPton_eq_some_iff`): no leading zeros, no blanks, no fewer than four numbers.
-/

namespace DottedQuad

open DecimalText

/-- An address of `AF_INET`, the first number in front. -/
structure Address where
  a : UInt8 := 0
  b : UInt8 := 0
  c : UInt8 := 0
  d : UInt8 := 0
  deriving DecidableEq

def dot : UInt8 := 46

def text (ip : Address) : List UInt8 :=
  [dot].intercalate
    [numeral ip.a.toNat, numeral ip.b.toNat, numeral ip.c.toNat, numeral ip.d.toNat]

/-- One of the four numbers, from all of its digits. -/
def octet (part : List UInt8) : Option UInt8 :=
  if part = numeral (value part) ∧ value part < 256 then some (UInt8.ofNat (value part)) else none

/-- `inet_pton(AF_INET, text, ..)`. -/
def inetPton (text : List UInt8) : Option Address :=
  match text.splitOn dot with
  | [a, b, c, d] =>
      match octet a, octet b, octet c, octet d with
      | some a, some b, some c, some d => some ⟨a, b, c, d⟩
      | _, _, _, _ => none
  | _ => none

theorem octet_eq_some_iff {part : List UInt8} {x : UInt8} :
    octet part = some x ↔ part = numeral x.toNat := by
  unfold octet
  constructor
  · intro h
    split at h
    · rename_i hpart
      obtain rfl := Option.some.inj h
      rw [UInt8.toNat_ofNat_of_lt' hpart.2]
      exact hpart.1
    · cases h
  · rintro rfl
    rw [value_numeral, if_pos ⟨rfl, x.toNat_lt⟩, UInt8.ofNat_toNat]

theorem dot_notMem_numeral (n : Nat) : dot ∉ numeral n := by
  intro h
  cases isDigit_of_mem_numeral h

/-- **Reading an address**: the texts that are taken are those that are written. -/
theorem inetPton_eq_some_iff {t : List UInt8} {ip : Address} :
    inetPton t = some ip ↔ t = text ip := by
  constructor
  · intro h
    unfold inetPton at h
    split at h
    · rename_i a b c d hsplit
      split at h
      · rename_i ha hb hc hd
        obtain rfl := Option.some.inj h
        rw [show t = _ from (List.intercalate_splitOn dot).symm, hsplit]
        rw [octet_eq_some_iff] at ha hb hc hd
        rw [ha, hb, hc, hd]
        rfl
      · cases h
    · cases h
  · rintro rfl
    have hparts : (text ip).splitOn dot
        = [numeral ip.a.toNat, numeral ip.b.toNat, numeral ip.c.toNat, numeral ip.d.toNat] := by
      refine List.splitOn_intercalate dot ?_ (List.cons_ne_nil _ _)
      simp [dot_notMem_numeral]
    have hoctet (x : UInt8) : octet (numeral x.toNat) = some x := octet_eq_some_iff.mpr rfl
    unfold inetPton
    rw [hparts]
    simp only [hoctet]

@[simp]
theorem inetPton_text (ip : Address) : inetPton (text ip) = some ip :=
  inetPton_eq_some_iff.mpr rfl

theorem text_inj {ip ip' : Address} : text ip = text ip' ↔ ip = ip' := by
  refine ⟨fun h => ?_, congrArg text⟩
  exact Option.some.inj ((inetPton_text ip).symm.trans (inetPton_eq_some_iff.mpr h))

theorem length_numeral_le {n : Nat} (h : n < 256) : (numeral n).length ≤ 3 := by
  unfold numeral
  split
  · decide
  · rw [List.length_reverse, List.length_map, Nat.digits_length_le_iff (by decide)]
    omega

/-- The text fits `INET_ADDRSTRLEN` characters, the last one a NUL. -/
theorem length_text_le (ip : Address) : (text ip).length ≤ 15 := by
  have ha := length_numeral_le ip.a.toNat_lt
  have hb := length_numeral_le ip.b.toNat_lt
  have hc := length_numeral_le ip.c.toNat_lt
  have hd := length_numeral_le ip.d.toNat_lt
  simp [text, List.intercalate]
  omega

end DottedQuad
