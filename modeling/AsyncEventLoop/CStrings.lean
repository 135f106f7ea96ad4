import Mathlib.Data.List.Forall2
import Mathlib.Data.List.TakeWhile

/-!
# C strings in an array

A string is read from where it begins in an array of characters up to the first NUL. A
function of `string.h` that does not find what it looks for before the array ends would read
beyond it, and has no result here.

`At mem p s` says that the string `s` is at `p`. A separator in a string cuts it in two when a
NUL is written over it (`At.set_front`, `At.set_back`), and a write leaves alone the strings
that end before (`At.set_before`): with these rules a text is taken apart in place, field by
field, by `strchr` or by `strtok_r`. The one finds the parts of `List.splitOn`, the other
those of them that are not empty (`words`).
-/

namespace CStrings

/-- The bytes of a literal. -/
def ascii (s : String) : List UInt8 := s.toList.map Char.toUInt8

/-- How many bytes in front pass the test; one must not. -/
def spanLength (p : UInt8 → Bool) : List UInt8 → Option Nat
  | [] => none
  | c :: rest => if p c then (spanLength p rest).map (· + 1) else some 0

def strlen (mem : List UInt8) (s : Nat) : Option Nat := spanLength (· ≠ 0) (mem.drop s)

def strspn (mem : List UInt8) (s : Nat) (accept : UInt8) : Option Nat :=
  spanLength (· = accept) (mem.drop s)

def strcspn (mem : List UInt8) (s : Nat) (reject : UInt8) : Option Nat :=
  spanLength (fun c => c ≠ reject && c ≠ 0) (mem.drop s)

/-- Where the character is, if the string has it. -/
def strchr (mem : List UInt8) (s : Nat) (c : UInt8) : Option (Option Nat) :=
  (strcspn mem s c).map fun n => if mem[s + n]? = some c then some (s + n) else none

/-- The string itself. -/
def text (mem : List UInt8) (s : Nat) : Option (List UInt8) :=
  (strlen mem s).map (mem.drop s).take

/-- What `strtok_r` has returned, and what it has left in `*save` and in the array. -/
structure Token where
  token : Option Nat
  save : Nat
  mem : List UInt8

/-- `strtok_r` for one separator, called with where it goes on from. -/
def strtokR (mem : List UInt8) (s : Nat) (delim : UInt8) : Option Token := do
  let s := s + (← strspn mem s delim)
  if mem[s]? = some 0 then
    some { token := none, save := s, mem }
  else
    let stop := s + (← strcspn mem s delim)
    if mem[stop]? = some 0 then
      some { token := some s, save := stop, mem }
    else
      some { token := some s, save := stop + 1, mem := mem.set stop 0 }

/-- The parts of a text that are not empty. -/
def words (c : UInt8) (s : List UInt8) : List (List UInt8) :=
  (s.splitOn c).filter (· ≠ [])

/-- The string at `p`. -/
def At (mem : List UInt8) (p : Nat) (s : List UInt8) : Prop :=
  0 ∉ s ∧ ∃ before after, mem = before ++ (s ++ 0 :: after) ∧ before.length = p

variable {mem s front rest : List UInt8} {p k : Nat} {c : UInt8}

theorem spanLength_append {test : UInt8 → Bool} (hs : ∀ b ∈ s, test b = true)
    (hc : test c = false) : spanLength test (s ++ c :: rest) = some s.length := by
  induction s with
  | nil => simp [spanLength, hc]
  | cons b s ih =>
      obtain ⟨hb, hs⟩ := List.forall_mem_cons.mp hs
      rw [List.cons_append, spanLength, if_pos hb, ih hs]
      rfl

namespace At

theorem drop (h : At mem p s) : ∃ after, mem.drop p = s ++ 0 :: after := by
  obtain ⟨_, before, after, rfl, rfl⟩ := h
  exact ⟨after, List.drop_left⟩

theorem get (h : At mem p (front ++ c :: rest)) : mem[p + front.length]? = some c := by
  obtain ⟨after, hdrop⟩ := h.drop
  rw [← List.getElem?_drop, hdrop]
  simp

theorem get_end (h : At mem p s) : mem[p + s.length]? = some 0 := by
  obtain ⟨after, hdrop⟩ := h.drop
  rw [← List.getElem?_drop, hdrop]
  simp

/-- A part of a string at its end is a string. -/
theorem tail (h : At mem p (front ++ s)) : At mem (p + front.length) s := by
  obtain ⟨hnul, before, after, rfl, rfl⟩ := h
  exact ⟨fun hs => hnul (List.mem_append_right _ hs), before ++ front, after, by simp, by simp⟩

theorem text_eq (h : At mem p s) : text mem p = some s := by
  obtain ⟨after, hdrop⟩ := h.drop
  have hs : ∀ b ∈ s, decide (b ≠ 0) = true := fun b hb =>
    decide_eq_true fun hzero => h.1 (hzero ▸ hb)
  have hlen : strlen mem p = some s.length := by
    rw [strlen, hdrop, spanLength_append hs (by decide)]
  rw [text, hlen, Option.map_some, hdrop, List.take_left]

/-! ## Writing a NUL -/

/-- Over a separator: the text in front of it. -/
theorem set_front (h : At mem p (front ++ c :: rest)) :
    At (mem.set (p + front.length) 0) p front := by
  obtain ⟨hnul, before, after, rfl, rfl⟩ := h
  refine ⟨fun hf => hnul (List.mem_append_left _ hf), before, rest ++ 0 :: after, ?_, rfl⟩
  simp

/-- Over a separator: the text behind it. -/
theorem set_back (h : At mem p (front ++ c :: rest)) :
    At (mem.set (p + front.length) 0) (p + front.length + 1) rest := by
  obtain ⟨hnul, before, after, rfl, rfl⟩ := h
  refine ⟨fun hr => hnul (List.mem_append_right _ (List.mem_cons_of_mem _ hr)),
    before ++ (front ++ [0]), after, ?_, ?_⟩
  · simp
  · simp [Nat.add_assoc]

/-- Behind the string: it stays. -/
theorem set_before (h : At mem p s) (hk : p + s.length < k) : At (mem.set k 0) p s := by
  obtain ⟨hnul, before, after, rfl, rfl⟩ := h
  obtain ⟨j, rfl⟩ := Nat.exists_eq_add_of_lt hk
  refine ⟨hnul, before, after.set j 0, ?_, rfl⟩
  rw [List.set_append_right _ _ (by omega), List.set_append_right _ _ (by omega)]
  congr 2
  rw [show before.length + s.length + j + 1 - before.length - s.length = j + 1 by omega]
  rfl

/-! ## Looking for a character -/

theorem strcspn_found (h : At mem p (front ++ c :: rest)) (hfront : c ∉ front) :
    strcspn mem p c = some front.length := by
  obtain ⟨after, hdrop⟩ := h.drop
  rw [strcspn, hdrop, List.append_assoc, List.cons_append]
  refine spanLength_append (fun b hb => ?_) (by simp)
  have hc : b ≠ c := fun hbc => hfront (hbc ▸ hb)
  have hzero : b ≠ 0 := fun hb0 => h.1 (hb0 ▸ List.mem_append_left _ hb)
  simp [hc, hzero]

theorem strcspn_absent (h : At mem p s) (hs : c ∉ s) : strcspn mem p c = some s.length := by
  obtain ⟨after, hdrop⟩ := h.drop
  rw [strcspn, hdrop]
  refine spanLength_append (fun b hb => ?_) (by simp)
  have hc : b ≠ c := fun hbc => hs (hbc ▸ hb)
  have hzero : b ≠ 0 := fun hb0 => h.1 (hb0 ▸ hb)
  simp [hc, hzero]

theorem strchr_found (h : At mem p (front ++ c :: rest)) (hfront : c ∉ front) :
    strchr mem p c = some (some (p + front.length)) := by
  rw [strchr, h.strcspn_found hfront, Option.map_some, if_pos h.get]

theorem strchr_absent (h : At mem p s) (hs : c ∉ s) (hc : c ≠ 0) :
    strchr mem p c = some none := by
  rw [strchr, h.strcspn_absent hs, Option.map_some, h.get_end, if_neg]
  exact fun heq => hc (Option.some.inj heq).symm

end At

/-! ## The words of a text -/

theorem words_absent (hs : c ∉ s) (hne : s ≠ []) : words c s = [s] := by
  rw [words, List.splitOn_eq_singleton hs, List.filter_cons_of_pos (by simpa using hne),
    List.filter_nil]

theorem words_cons (hfront : c ∉ front) (hne : front ≠ []) :
    words c (front ++ c :: rest) = front :: words c rest := by
  rw [words, List.splitOn_append_cons_self_of_not_mem hfront,
    List.filter_cons_of_pos (by simpa using hne), words]

/-- Separators in front make no difference. -/
theorem words_skip (hfront : ∀ b ∈ front, b = c) : words c (front ++ rest) = words c rest := by
  induction front with
  | nil => rfl
  | cons b front ih =>
      obtain ⟨rfl, hfront⟩ := List.forall_mem_cons.mp hfront
      rw [← ih hfront, List.cons_append, words]
      have hsplit : (b :: (front ++ rest)).splitOn b = [] :: (front ++ rest).splitOn b :=
        List.splitOn_append_cons_self_of_not_mem List.not_mem_nil (front ++ rest)
      rw [hsplit, List.filter_cons_of_neg (by simp), words]

theorem At.strspn_eq (h : At mem p (front ++ rest)) (hfront : ∀ b ∈ front, b = c)
    (hrest : ∀ b ∈ rest.head?, b ≠ c) (hc : c ≠ 0) : strspn mem p c = some front.length := by
  obtain ⟨after, hdrop⟩ := h.drop
  have hpass : ∀ b ∈ front, decide (b = c) = true := fun b hb => decide_eq_true (hfront b hb)
  rw [strspn, hdrop, List.append_assoc]
  cases rest with
  | nil => exact spanLength_append hpass (decide_eq_false fun h0 => hc h0.symm)
  | cons b rest => exact spanLength_append hpass (decide_eq_false (hrest b rfl))

/-- One call: no word is left, or the first of them is returned and the others are to be found
where it has stopped. What ends before the place it goes on from stays. -/
theorem strtokR_cases (h : At mem p s) (hc : c ≠ 0) : ∃ r, strtokR mem p c = some r ∧
    ((words c s = [] ∧ r.token = none ∧ r.mem = mem) ∨
      ∃ q word others, words c s = word :: words c others ∧ r.token = some q ∧
        At r.mem q word ∧ p ≤ r.save ∧ q + word.length ≤ r.save ∧ At r.mem r.save others ∧
        ∀ q' s', At mem q' s' → q' + s'.length ≤ p → At r.mem q' s') := by
  obtain ⟨front, rest, rfl, hfront, hrest⟩ : ∃ front rest, s = front ++ rest ∧
      (∀ b ∈ front, b = c) ∧ ∀ b ∈ rest.head?, b ≠ c := by
    refine ⟨s.takeWhile (· = c), s.dropWhile (· = c), (List.takeWhile_append_dropWhile).symm,
      fun b hb => by simpa using List.mem_takeWhile_imp hb, fun b hb => ?_⟩
    have hnot := List.head?_dropWhile_not (fun x => decide (x = c)) s
    rw [Option.mem_def.mp hb] at hnot
    simpa using hnot
  have hspn := h.strspn_eq hfront hrest hc
  have hat := h.tail
  by_cases hnil : rest = []
  · subst hnil
    have hend : mem[p + front.length]? = some 0 := hat.get_end
    refine ⟨⟨none, p + front.length, mem⟩, ?_, .inl ⟨?_, rfl, rfl⟩⟩
    · simp only [strtokR, hspn, Option.bind_eq_bind, Option.bind_some]
      rw [if_pos hend]
    · rw [words_skip hfront]
      rfl
  have hword : mem[p + front.length]? ≠ some 0 := by
    obtain ⟨b, rest, rfl⟩ := List.exists_cons_of_ne_nil hnil
    have hfirst : At mem (p + front.length) ([] ++ b :: rest) := hat
    intro hget
    rw [← Nat.add_zero (p + front.length), ← List.length_nil, hfirst.get] at hget
    exact hat.1 (Option.some.inj hget ▸ List.mem_cons_self)
  by_cases hmem : c ∈ rest
  · -- the separator behind the word is overwritten
    obtain ⟨word, others, rfl, hnot⟩ := List.eq_append_cons_of_mem hmem
    have hne : word ≠ [] := by
      rintro rfl
      exact hrest c rfl rfl
    have hstop : mem[p + front.length + word.length]? ≠ some 0 := by
      rw [hat.get]
      exact fun h0 => hc (Option.some.inj h0)
    refine ⟨⟨some (p + front.length), p + front.length + word.length + 1,
      mem.set (p + front.length + word.length) 0⟩, ?_, .inr ⟨p + front.length, word, others, ?_,
        rfl, hat.set_front, ?_, Nat.le_succ _, hat.set_back, fun q' s' hs' hq' => ?_⟩⟩
    · simp only [strtokR, hspn, Option.bind_eq_bind, Option.bind_some,
        hat.strcspn_found hnot]
      rw [if_neg hword, if_neg hstop]
    · rw [words_skip hfront, words_cons hnot hne]
    · show p ≤ p + front.length + word.length + 1
      omega
    · have hpos := List.length_pos_iff.mpr hne
      exact hs'.set_before (by omega)
  · -- the word goes on to the end of the string
    refine ⟨⟨some (p + front.length), p + front.length + rest.length, mem⟩, ?_,
      .inr ⟨p + front.length, rest, [], ?_, rfl, hat, ?_, Nat.le_refl _, ?_, fun _ _ hs' _ => hs'⟩⟩
    · simp only [strtokR, hspn, Option.bind_eq_bind, Option.bind_some,
        hat.strcspn_absent hmem]
      rw [if_neg hword, if_pos hat.get_end]
    · rw [words_skip hfront, words_absent hmem hnil]
      rfl
    · show p ≤ p + front.length + rest.length
      omega
    · exact At.tail (s := []) (by rwa [List.append_nil])

end CStrings
