import Mathlib.Data.Rat.Defs
import Mathlib.Data.List.Forall2
import Mathlib.Data.List.GetD
import AsyncEventLoop.CStrings

/-!
# NMEA sentences

The NMEA side of `MiniSignalKServerExample`. A line is copied to an array on the stack
(`line_to_cstr`), split there at its commas by `NmeaTokenizer`, and read by `parse_mwv`, which
sets the data model; what it is then is published as a line of JSON.

The tests have a tokenizer of their own, on `strtok_r`. It passes over empty fields, so that
the two give the same fields exactly if none of the first eight is empty (`tokenizers_agree_iff`).
-/

namespace AsyncEventLoop

open CStrings

/-- `line_to_cstr`; `dst` is the array with what happens to be in it. -/
def lineToCstr (line dst : List UInt8) : List UInt8 :=
  if dst.length = 0 then dst
  else
    let n := if line.length ≥ dst.length then dst.length - 1 else line.length
    (line.take n ++ dst.drop n).set n 0

/-- The string an array of so many bytes has of a line. -/
def cText (capacity : Nat) (line : List UInt8) : List UInt8 :=
  (line.take (capacity - 1)).takeWhile (· ≠ 0)

def comma : UInt8 := 44

/-! ## The tokenizers -/

/-- `fields` are the `fields_` that are set, as places in the text. -/
structure NmeaTokenizer where
  text : List UInt8
  fields : List Nat

namespace NmeaTokenizer

def maxFields : Nat := 8

/-- The loop of the examples' `tokenize`, with room for `left` more fields. -/
def split : Nat → List UInt8 → Nat → List Nat → Option NmeaTokenizer
  | 0, text, _, fields => some { text, fields }
  | left + 1, text, fieldStart, fields => do
      match ← strchr text fieldStart comma with
      | none => some { text, fields := fields ++ [fieldStart] }
      | some comma => split left (text.set comma 0) (comma + 1) (fields ++ [fieldStart])

def tokenize (text : List UInt8) : Option (Bool × NmeaTokenizer) :=
  (split maxFields text 0 []).map fun t => (decide (0 < t.fields.length), t)

/-- The loop of the tests' `tokenize`, with the token it has. -/
def splitTokens : Nat → Token → List Nat → Option NmeaTokenizer
  | _, ⟨none, _, text⟩, fields => some { text, fields }
  | 0, ⟨some _, _, text⟩, fields => some { text, fields }
  | left + 1, ⟨some token, save, text⟩, fields => do
      splitTokens left (← strtokR text save comma) (fields ++ [token])

def tokenizeTokens (text : List UInt8) : Option (Bool × NmeaTokenizer) := do
  let t ← splitTokens maxFields (← strtokR text 0 comma) []
  some (decide (0 < t.fields.length), t)

def field (t : NmeaTokenizer) (index : Nat) : Option (List UInt8) :=
  match t.fields[index]? with
  | none => some []
  | some p => CStrings.text t.text p

/-- The fields, read one after the other. -/
def Reads (t : NmeaTokenizer) (fields : List (List UInt8)) : Prop :=
  List.Forall₂ (At t.text) t.fields fields

end NmeaTokenizer

/-! ## `parse_mwv` -/

/-- Arithmetic of `Real`, with `strtod` (nothing, where it has set `end` to the beginning) and
the `%.6f` of `printf`. -/
structure Reals (ρ : Type) where
  lit : ℚ → ρ
  mul : ρ → ρ → ρ
  div : ρ → ρ → ρ
  strtod : List UInt8 → Option ρ
  fixed6 : ρ → List UInt8

structure DataValue (ρ : Type) where
  value : ρ
  lastUpdateUs : UInt64 := 0
  valid : Bool := false

def DataValue.set {ρ : Type} (_ : DataValue ρ) (newValue : ρ) (nowUs : UInt64) : DataValue ρ :=
  { value := newValue, lastUpdateUs := nowUs, valid := true }

structure DataModel (ρ : Type) where
  apparentWindDirectionRad : DataValue ρ
  apparentWindSpeedMS : DataValue ρ

namespace DataModel

variable {ρ : Type}

def initial (R : Reals ρ) : DataModel ρ where
  apparentWindDirectionRad := { value := R.lit 0 }
  apparentWindSpeedMS := { value := R.lit 0 }

def hasApparentWind (m : DataModel ρ) : Bool :=
  m.apparentWindDirectionRad.valid && m.apparentWindSpeedMS.valid

def setWind (m : DataModel ρ) (direction speed : ρ) (nowUs : UInt64) : DataModel ρ where
  apparentWindDirectionRad := m.apparentWindDirectionRad.set direction nowUs
  apparentWindSpeedMS := m.apparentWindSpeedMS.set speed nowUs

end DataModel

namespace Reals

variable {ρ : Type} (R : Reals ρ)

def pi : ℚ := 3.14159265358979323846

/-- What a speed is multiplied with, for each of the three units. -/
def speedFactor (unit : List UInt8) : Option ρ :=
  if unit = ascii "N" then some (R.lit 0.514444)
  else if unit = ascii "M" then some (R.lit 1)
  else if unit = ascii "K" then some (R.div (R.lit 1000) (R.lit 3600))
  else none

/-- `parse_mwv`, with the least length of the first field and the conversion of angles. -/
def parseMwvWith (minTalker : Nat) (toRad : ρ → ρ) (t : NmeaTokenizer) (model : DataModel ρ)
    (nowUs : UInt64) : Option (Bool × DataModel ρ) := do
  if t.fields.length < 6 then return (false, model)
  let talkerSentence ← t.field 0
  if talkerSentence.length < minTalker then return (false, model)
  if talkerSentence.drop (talkerSentence.length - 3) ≠ ascii "MWV" then return (false, model)
  if (← t.field 2) ≠ ascii "R" then return (false, model)
  if (← t.field 5).headD 0 ≠ 65 then return (false, model)
  match R.strtod (← t.field 1), R.strtod (← t.field 3) with
  | some angleDeg, some speedValue =>
      match R.speedFactor (← t.field 4) with
      | some factor => return (true, model.setWind (toRad angleDeg) (R.mul speedValue factor) nowUs)
      | none => return (false, model)
  | _, _ => return (false, model)

/-- The examples' `parse_mwv`. -/
def parseMwv : NmeaTokenizer → DataModel ρ → UInt64 → Option (Bool × DataModel ρ) :=
  R.parseMwvWith 3 fun angleDeg => R.div (R.mul angleDeg (R.lit pi)) (R.lit 180)

/-- The tests' `parse_mwv`. -/
def testsParseMwv : NmeaTokenizer → DataModel ρ → UInt64 → Option (Bool × DataModel ρ) :=
  R.parseMwvWith 6 fun angleDeg => R.mul angleDeg (R.div (R.lit pi) (R.lit 180))

/-- What a sentence says: its first six fields are the talker with `MWV` behind it, the angle,
`R`, the speed, its unit, and something that begins with `A`. -/
def mwv (minTalker : Nat) (toRad : ρ → ρ) : List (List UInt8) → Option (ρ × ρ)
  | talker :: angle :: reference :: speed :: unit :: status :: _ =>
      if minTalker ≤ talker.length ∧ ascii "MWV" <:+ talker ∧ reference = ascii "R" ∧
          status.head? = some 65 then do
        let angle ← R.strtod angle
        let speed ← R.strtod speed
        let factor ← R.speedFactor unit
        some (toRad angle, R.mul speed factor)
      else none
  | _ => none

end Reals

/-! ## The array -/

theorem lineToCstr_at (line : List UInt8) {dst : List UInt8} (hdst : 0 < dst.length) :
    At (lineToCstr line dst) 0 (cText dst.length line) := by
  let n := min line.length (dst.length - 1)
  have hn : lineToCstr line dst = line.take n ++ 0 :: dst.drop (n + 1) := by
    have hmin : (if line.length ≥ dst.length then dst.length - 1 else line.length) = n := by
      split <;> omega
    have hlen : (line.take n).length = n := by
      rw [List.length_take]
      omega
    rw [lineToCstr, if_neg (by omega)]
    dsimp only
    rw [hmin, List.set_append_right _ _ (by omega), hlen, Nat.sub_self,
      List.drop_eq_getElem_cons (show n < dst.length by omega), List.set_cons_zero]
  have htake : line.take (dst.length - 1) = line.take n := by
    rw [List.take_eq_take_min, Nat.min_comm]
  -- the string may end before, at a NUL of the line
  have hcut : line.take n = cText dst.length line ++ (line.take n).dropWhile (· ≠ 0) := by
    rw [cText, htake, List.takeWhile_append_dropWhile]
  refine ⟨fun h0 => by simpa using List.mem_takeWhile_imp h0, [], ?_⟩
  rw [hn, hcut]
  cases hrest : (line.take n).dropWhile (· ≠ 0) with
  | nil => exact ⟨dst.drop (n + 1), by simp, rfl⟩
  | cons c rest =>
      have hc := List.head?_dropWhile_not (fun x : UInt8 => decide (x ≠ 0)) (line.take n)
      rw [hrest] at hc
      obtain rfl : c = 0 := by simpa using hc
      exact ⟨rest ++ 0 :: dst.drop (n + 1), by simp, rfl⟩

namespace NmeaTokenizer

theorem split_reads (left : Nat) : ∀ {text s : List UInt8} {p : Nat} {fields : List Nat}
    {found : List (List UInt8)}, At text p s →
    List.Forall₂ (fun q w => At text q w ∧ q + w.length < p) fields found →
    ∃ t, split left text p fields = some t ∧ t.Reads (found ++ (s.splitOn comma).take left) := by
  induction left with
  | zero =>
      intro text s p fields found _ hfields
      refine ⟨_, rfl, ?_⟩
      rw [List.take_zero, List.append_nil]
      exact hfields.imp fun _ _ h => h.1
  | succ left ih =>
      intro text s p fields found hs hfields
      by_cases hmem : comma ∈ s
      · obtain ⟨front, rest, rfl, hnot⟩ := List.eq_append_cons_of_mem hmem
        have hrest : List.Forall₂ (fun q w => At (text.set (p + front.length) 0) q w ∧
            q + w.length < p + front.length + 1) (fields ++ [p]) (found ++ [front]) := by
          refine List.rel_append (hfields.imp fun q w h => ?_)
            (.cons ⟨hs.set_front, Nat.lt_succ_self _⟩ .nil)
          exact ⟨h.1.set_before (by omega), by omega⟩
        obtain ⟨t, hsplit, hreads⟩ := ih hs.set_back hrest
        refine ⟨t, ?_, ?_⟩
        · simp only [split, hs.strchr_found hnot, Option.bind_eq_bind, Option.bind_some]
          exact hsplit
        · rw [List.splitOn_append_cons_self_of_not_mem hnot, List.take_succ_cons]
          rwa [List.append_assoc, List.singleton_append] at hreads
      · refine ⟨{ text, fields := fields ++ [p] }, ?_, ?_⟩
        · simp only [split, hs.strchr_absent hmem (by decide), Option.bind_eq_bind,
            Option.bind_some]
        · rw [List.splitOn_eq_singleton hmem, List.take_succ_cons, List.take_nil]
          exact List.rel_append (hfields.imp fun _ _ h => h.1) (.cons hs .nil)

/-- With a token in hand that is a word, and the other words from where the next call goes on. -/
theorem splitTokens_reads (left : Nat) : ∀ {r : Token} {q : Nat} {word s : List UInt8}
    {fields : List Nat} {found : List (List UInt8)}, r.token = some q → At r.mem q word →
    q + word.length ≤ r.save → At r.mem r.save s →
    List.Forall₂ (fun q w => At r.mem q w ∧ q + w.length ≤ r.save) fields found →
    ∃ t, splitTokens left r fields = some t ∧
      t.Reads (found ++ (word :: words comma s).take left) := by
  induction left with
  | zero =>
      intro r q word s fields found hq _ _ _ hfields
      obtain ⟨token, save, text⟩ := r
      obtain rfl : token = some q := hq
      refine ⟨_, rfl, ?_⟩
      rw [List.take_zero, List.append_nil]
      exact hfields.imp fun _ _ h => h.1
  | succ left ih =>
      intro r q word s fields found hq hword hle hs hfields
      obtain ⟨token, save, text⟩ := r
      obtain rfl : token = some q := hq
      have hall : List.Forall₂ (fun q w => At text q w ∧ q + w.length ≤ save) (fields ++ [q])
          (found ++ [word]) := List.rel_append hfields (.cons ⟨hword, hle⟩ .nil)
      obtain ⟨next, hnext, ⟨hnone, htoken, hmem⟩ | ⟨q', word', others, hwords, htoken, hword',
        hsaved, hle', hs', hkeep⟩⟩ := strtokR_cases hs (c := comma) (by decide)
      · refine ⟨{ text, fields := fields ++ [q] }, ?_, ?_⟩
        · rw [splitTokens, hnext]
          obtain ⟨token', save', text'⟩ := next
          obtain rfl : token' = none := htoken
          obtain rfl : text' = text := hmem
          cases left <;> rfl
        · rw [hnone, List.take_succ_cons, List.take_nil]
          exact hall.imp fun _ _ h => h.1
      · obtain ⟨t, hsplit, hreads⟩ := ih htoken hword' hle' hs'
          (hall.imp fun q w h => ⟨hkeep q w h.1 h.2, h.2.trans hsaved⟩)
        refine ⟨t, ?_, ?_⟩
        · rw [splitTokens, hnext]
          exact hsplit
        · rw [hwords, List.take_succ_cons]
          rwa [List.append_assoc, List.singleton_append] at hreads

/-- **Splitting in place**: the fields are the first eight parts of the text, and the array is
not left. -/
theorem tokenize_reads {text s : List UInt8} (h : At text 0 s) :
    ∃ t, tokenize text = some (true, t) ∧ t.Reads ((s.splitOn comma).take maxFields) := by
  obtain ⟨t, hsplit, hreads⟩ := split_reads maxFields h (.nil : List.Forall₂ _ [] [])
  rw [List.nil_append] at hreads
  refine ⟨t, ?_, hreads⟩
  have hpos : 0 < t.fields.length := by
    rw [hreads.length_eq, List.length_take]
    have hne := List.length_pos_iff.mpr (List.splitOn_ne_nil comma s)
    simp only [maxFields]
    omega
  rw [tokenize, hsplit, Option.map_some, decide_eq_true hpos]

/-- The tests' tokenizer has the first eight parts that are not empty. -/
theorem tokenizeTokens_reads {text s : List UInt8} (h : At text 0 s) :
    ∃ t, tokenizeTokens text = some (decide (0 < t.fields.length), t) ∧
      t.Reads ((words comma s).take maxFields) := by
  obtain ⟨r, hr, ⟨hnone, htoken, hmem⟩ | ⟨q, word, others, hwords, htoken, hword, _, hle, hs,
    _⟩⟩ := strtokR_cases h (c := comma) (by decide)
  · obtain ⟨token, save, mem⟩ := r
    obtain rfl : token = none := htoken
    refine ⟨⟨mem, []⟩, ?_, ?_⟩
    · simp only [tokenizeTokens, hr, Option.bind_eq_bind, Option.bind_some, splitTokens]
    · rw [hnone, List.take_nil]
      exact .nil
  · obtain ⟨t, hsplit, hreads⟩ := splitTokens_reads maxFields htoken hword hle hs
      (.nil : List.Forall₂ _ [] [])
    rw [List.nil_append] at hreads
    refine ⟨t, ?_, hwords ▸ hreads⟩
    simp only [tokenizeTokens, hr, Option.bind_eq_bind, Option.bind_some, hsplit]

theorem Reads.field_eq {t : NmeaTokenizer} {fields : List (List UInt8)} (h : t.Reads fields)
    (i : Nat) : t.field i = some (fields.getD i []) := by
  have hlen := h.length_eq
  unfold field
  rcases Nat.lt_or_ge i fields.length with hi | hi
  · rw [List.getElem?_eq_getElem (hlen ▸ hi), List.getD_eq_getElem _ _ hi]
    exact (h.get (hlen ▸ hi) hi).text_eq
  · rw [List.getElem?_eq_none (hlen ▸ hi), List.getD_eq_default _ _ hi]

/-- The same number of fields, and the same in each. -/
def SameFields (t t' : NmeaTokenizer) : Prop :=
  t.fields.length = t'.fields.length ∧ ∀ i, t.field i = t'.field i

theorem Reads.sameFields_iff {t t' : NmeaTokenizer} {fields fields' : List (List UInt8)}
    (h : t.Reads fields) (h' : t'.Reads fields') : SameFields t t' ↔ fields = fields' := by
  constructor
  · rintro ⟨hcount, hsame⟩
    have hlen : fields.length = fields'.length := h.length_eq ▸ h'.length_eq ▸ hcount
    refine List.ext_getElem hlen fun i hi hi' => ?_
    have hfield := hsame i
    rw [h.field_eq, h'.field_eq, List.getD_eq_getElem _ _ hi, List.getD_eq_getElem _ _ hi']
      at hfield
    exact Option.some.inj hfield
  · rintro rfl
    exact ⟨h.length_eq.trans h'.length_eq.symm, fun i => by rw [h.field_eq, h'.field_eq]⟩

theorem take_filter_eq_iff {α : Type} {test : α → Bool} (n : Nat) (l : List α) :
    (l.filter test).take n = l.take n ↔ ∀ x ∈ l.take n, test x = true := by
  constructor
  · intro h x hx
    rw [← h] at hx
    exact (List.mem_filter.mp (List.mem_of_mem_take hx)).2
  · intro h
    induction l generalizing n with
    | nil => rfl
    | cons a l ih =>
        cases n with
        | zero => rw [List.take_zero, List.take_zero]
        | succ n =>
            rw [List.take_succ_cons] at h ⊢
            obtain ⟨ha, hl⟩ := List.forall_mem_cons.mp h
            rw [List.filter_cons_of_pos ha, List.take_succ_cons, ih n hl]

end NmeaTokenizer

/-! ## Reading a sentence -/

namespace Reals

variable {ρ : Type} (R : Reals ρ)

/-- `parse_mwv` takes what is an MWV sentence, and sets both values then; otherwise it leaves
the model as it is. -/
theorem parseMwvWith_eq (minTalker : Nat) (toRad : ρ → ρ) {t : NmeaTokenizer}
    {fields : List (List UInt8)} (h : t.Reads fields) (model : DataModel ρ) (nowUs : UInt64) :
    R.parseMwvWith minTalker toRad t model nowUs =
      some (match R.mwv minTalker toRad fields with
        | some wind => (true, model.setWind wind.1 wind.2 nowUs)
        | none => (false, model)) := by
  have hlen : t.fields.length = fields.length := h.length_eq
  unfold parseMwvWith
  match fields with
  | [] | [_] | [_, _] | [_, _, _] | [_, _, _, _] | [_, _, _, _, _] =>
      rw [hlen, if_pos (by simp)]
      rfl
  | talker :: angle :: reference :: speed :: unit :: status :: others =>
      rw [hlen, if_neg (by simp)]
      have hmwv : talker.drop (talker.length - 3) = ascii "MWV" ↔ ascii "MWV" <:+ talker := by
        rw [List.suffix_iff_eq_drop, eq_comm]
        rfl
      have hstatus : status.headD 0 = 65 ↔ status.head? = some 65 := by
        cases status <;> simp
      simp only [h.field_eq, List.getD_cons_zero, List.getD_cons_succ, Option.bind_eq_bind,
        Option.bind_some, Option.pure_def, ne_eq, mwv]
      by_cases htalker : minTalker ≤ talker.length
      · rw [if_neg (Nat.not_lt.mpr htalker)]
        by_cases hsentence : talker.drop (talker.length - 3) = ascii "MWV"
        · rw [if_neg (not_not_intro hsentence)]
          by_cases hreference : reference = ascii "R"
          · rw [if_neg (not_not_intro hreference)]
            by_cases hvalid : status.headD 0 = 65
            · rw [if_neg (not_not_intro hvalid),
                if_pos ⟨htalker, hmwv.mp hsentence, hreference, hstatus.mp hvalid⟩]
              cases R.strtod angle with
              | none => rfl
              | some angleDeg =>
                  cases R.strtod speed with
                  | none => rfl
                  | some speedValue => cases R.speedFactor unit <;> rfl
            · rw [if_pos hvalid, if_neg fun h => hvalid (hstatus.mpr h.2.2.2)]
          · rw [if_pos hreference, if_neg fun h => hreference h.2.2.1]
        · rw [if_pos hsentence, if_neg fun h => hsentence (hmwv.mpr h.2.1)]
      · rw [if_pos (Nat.not_le.mp htalker), if_neg fun h => htalker h.1]

/-- Neither the conversion of angles nor the least length decides on more than the first field. -/
theorem mwv_isSome {minTalker : Nat} (hmin : 3 ≤ minTalker) (toRad toRad' : ρ → ρ)
    (fields : List (List UInt8)) :
    (R.mwv minTalker toRad fields).isSome =
      ((R.mwv 3 toRad' fields).isSome && decide (minTalker ≤ (fields.headD []).length)) := by
  match fields with
  | [] | [_] | [_, _] | [_, _, _] | [_, _, _, _] | [_, _, _, _, _] => rfl
  | talker :: angle :: reference :: speed :: unit :: status :: others =>
      have hread (f : ρ → ρ) : ((R.strtod angle).bind fun angle =>
          (R.strtod speed).bind fun speed => (R.speedFactor unit).bind fun factor =>
            some (f angle, R.mul speed factor)).isSome =
          ((R.strtod angle).isSome && (R.strtod speed).isSome && (R.speedFactor unit).isSome) := by
        cases R.strtod angle <;> cases R.strtod speed <;> cases R.speedFactor unit <;> rfl
      by_cases htalker : minTalker ≤ talker.length
      · have hthree := hmin.trans htalker
        simp only [mwv, Option.bind_eq_bind, List.headD_cons, htalker, hthree, true_and,
          decide_true, Bool.and_true]
        split
        · rw [hread, hread]
        · rfl
      · simp [mwv, htalker]

theorem testsParseMwv_fst {t t' : NmeaTokenizer} {fields : List (List UInt8)} (h : t.Reads fields)
    (h' : t'.Reads fields) (model : DataModel ρ) (nowUs : UInt64) :
    (R.testsParseMwv t' model nowUs).map Prod.fst =
      (R.parseMwv t model nowUs).map fun r => r.1 && decide (6 ≤ (fields.headD []).length) := by
  have hfst {m : Option (ρ × ρ)} : (match m with
      | some wind => (true, model.setWind wind.1 wind.2 nowUs)
      | none => (false, model)).1 = m.isSome := by
    cases m <;> rfl
  rw [testsParseMwv, parseMwv, R.parseMwvWith_eq _ _ h', R.parseMwvWith_eq _ _ h, Option.map_some,
    Option.map_some, hfst, hfst, R.mwv_isSome (by decide)]

end Reals

namespace NmeaTokenizer

/-- **Two tokenizers**: of the same line, whatever the array has held, the examples' and the
tests' tokenizer give the same fields if none of the first eight is empty, and only then. Both
keep to their array. The tests' `parse_mwv` then takes the sentences of the examples', but for
a first field of fewer than six characters. -/
theorem tokenizers_agree_iff {ρ : Type} (R : Reals ρ) (line : List UInt8) {dst : List UInt8}
    (hdst : 0 < dst.length) :
    ∃ t t', (tokenize (lineToCstr line dst)).map Prod.snd = some t ∧
      (tokenizeTokens (lineToCstr line dst)).map Prod.snd = some t' ∧
      (SameFields t t' ↔
        ∀ w ∈ ((cText dst.length line).splitOn comma).take maxFields, w ≠ []) ∧
      (SameFields t t' → ∀ model nowUs, (R.testsParseMwv t' model nowUs).map Prod.fst =
        (R.parseMwv t model nowUs).map fun r => r.1 && decide (6 ≤
          ((((cText dst.length line).splitOn comma).take maxFields).headD []).length)) := by
  have hat := lineToCstr_at line hdst
  obtain ⟨t, ht, hreads⟩ := tokenize_reads hat
  obtain ⟨t', ht', hreads'⟩ := tokenizeTokens_reads hat
  refine ⟨t, t', by rw [ht]; rfl, by rw [ht']; rfl, ?_, fun hsame model nowUs => ?_⟩
  · rw [hreads.sameFields_iff hreads', eq_comm, words, take_filter_eq_iff]
    simp only [decide_eq_true_eq]
  · rw [← (hreads.sameFields_iff hreads').mp hsame] at hreads'
    exact R.testsParseMwv_fst hreads hreads' model nowUs

/-- `A,,B` in an array of eight bytes. -/
theorem tokenizers_agree_iff_empty :
    ∃ t t', (tokenize (lineToCstr (ascii "A,,B") (List.replicate 8 7))).map Prod.snd = some t ∧
      (tokenizeTokens (lineToCstr (ascii "A,,B") (List.replicate 8 7))).map Prod.snd = some t' ∧
      ¬ SameFields t t' := by
  obtain ⟨t, t', ht, ht', hsame, -⟩ := tokenizers_agree_iff
    { lit := fun q => q, mul := (· * ·), div := (· / ·), strtod := fun _ => none,
      fixed6 := fun _ => [] } (ascii "A,,B") (show 0 < (List.replicate 8 7).length by decide)
  exact ⟨t, t', ht, ht', fun h => hsame.mp h [] (by decide) rfl⟩

end NmeaTokenizer

end AsyncEventLoop
