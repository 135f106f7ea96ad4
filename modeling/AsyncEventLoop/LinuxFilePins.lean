import AsyncEventLoop.DecimalText
import AsyncEventLoop.FixedArray

/-!
# Pins that are files

Under Linux a pin may be a file with a number in it, as `sysfs` has them.
`write_int` spells the number in decimal, last digit first into one buffer and
from there the right way round into another, and overwrites the beginning of
the file; `read_int` lets `strtol` read the beginning back.

The number is followed by a newline, so what an older, longer text leaves
behind in the file is never taken for part of it (`readInt_writeInt`).
-/

namespace AsyncEventLoop

open DecimalText FixedArray

/-! ## The file system -/

/-- Regular files by their paths; no file where `open` fails. -/
abbrev Files := String → Option (List UInt8)

/-- `::write` to the beginning of a file that was opened without `O_TRUNC`. It takes
so many of the bytes at most, or fails. -/
def Files.write (files : Files) (path : String) (bytes : List UInt8) :
    Option Nat → Int × Files
  | none => (-1, files)
  | some most =>
      let taken := bytes.take most
      (taken.length, fun p =>
        if p = path then (files p).map fun content => taken ++ content.drop taken.length
        else files p)

/-- The widths of `long` under Linux. -/
inductive LongWidth where
  | w32
  | w64

def LongWidth.bits : LongWidth → Nat
  | .w32 => 32
  | .w64 => 64

/-! ## The encoder -/

/-- `array[i] = x`; there is no outcome outside of the array. -/
def store {N : Nat} (array : Vector UInt8 N) (i : Nat) (x : UInt8) : Option (Vector UInt8 N) :=
  if h : i < N then some (array.set i x) else none

/-- `while (v > 0 && d < sizeof(digits))`; `room` is what `d` lacks of the size. -/
def digitLoop : Nat → Vector UInt8 16 → Nat → Int32 → Option (Vector UInt8 16 × Nat)
  | 0, digits, d, _ => some (digits, d)
  | room + 1, digits, d, v =>
      if 0 < v then
        (store digits d (48 + v % 10).toUInt32.toUInt8).bind fun digits =>
          digitLoop room digits (d + 1) (v / 10)
      else some (digits, d)

/-- `while (d > 0)`. -/
def copyLoop (digits : Vector UInt8 16) :
    Nat → Vector UInt8 32 → Nat → Option (Vector UInt8 32 × Nat)
  | 0, buffer, n => some (buffer, n)
  | d + 1, buffer, n =>
      digits[d]?.bind fun c =>
        (store buffer n c).bind fun buffer => copyLoop digits d buffer (n + 1)

/-- The branch for a value other than zero. -/
def encodeNonzero (digits : Vector UInt8 16) (buffer : Vector UInt8 32) (value : Int32) :
    Option (Vector UInt8 32 × Nat) :=
  let v := if value < 0 then -value else value
  (if value < 0 then (store buffer 0 45).map fun buffer => (buffer, 1)
    else some (buffer, 0)).bind fun text =>
      (digitLoop 16 digits 0 v).bind fun r => copyLoop r.1 r.2 text.1 text.2

/-- What `write_int` makes of its two arrays, which hold anything before, and how
many characters of the text buffer it uses. -/
def encode (digits : Vector UInt8 16) (buffer : Vector UInt8 32) (value : Int32) :
    Option (Vector UInt8 32 × Nat) :=
  (if value = 0 then (store buffer 0 48).map fun buffer => (buffer, 1)
    else encodeNonzero digits buffer value).bind fun text =>
      (store text.1 text.2 10).map fun buffer => (buffer, text.2 + 1)

/-! ### What the encoder writes -/

theorem store_eq {N : Nat} {array : Vector UInt8 N} {i : Nat} {x : UInt8} (h : i < N) :
    store array i x = some (array.set i x) := dif_pos h

/-- The character of the last digit. -/
theorem char_mod {v : Int32} {m : Nat} (hv : v.toInt = m) :
    (48 + v % 10).toUInt32.toUInt8 = digitChar (m % 10) := by
  have hmod : v % 10 = Int32.ofNat (m % 10) := by
    rw [← Int32.toInt_inj, Int32.toInt_mod, hv, Int32.toInt_ofNat_of_lt (by omega)]
    rfl
  have hchars : ∀ k < 10, (48 + Int32.ofNat k).toUInt32.toUInt8 = digitChar k := by decide
  rw [hmod]
  exact hchars _ (Nat.mod_lt m (by omega))

theorem toInt_div_ten {v : Int32} {m : Nat} (hv : v.toInt = m) :
    (v / 10).toInt = (m / 10 : Nat) := by
  rw [Int32.toInt_div_of_ne_right _ _ (by decide), hv]
  rfl

/-- The first loop spells a number that has no more digits than there is room, the
last digit first. -/
theorem digitLoop_spec (room : Nat) (digits : Vector UInt8 16) {d : Nat} {v : Int32} {m : Nat}
    (hroom : d + room = 16) (hv : v.toInt = m) (hm : m < 10 ^ room) :
    ∃ digits' d', digitLoop room digits d v = some (digits', d') ∧ d' ≤ 16
      ∧ front digits' d' = front digits d ++ (Nat.digits 10 m).map digitChar := by
  induction room generalizing digits d v m with
  | zero =>
      obtain rfl : m = 0 := by simpa using hm
      exact ⟨digits, d, rfl, by omega, by simp⟩
  | succ room ih =>
      rw [digitLoop]
      by_cases hpos : 0 < m
      · have hlt : 0 < v := by
          rw [Int32.lt_iff_toInt_lt, hv, Int32.toInt_zero]
          exact Int.natCast_pos.mpr hpos
        rw [if_pos hlt, store_eq (by omega), Option.bind_some]
        have hnext : m / 10 < 10 ^ room := by
          rw [Nat.pow_succ] at hm
          omega
        obtain ⟨digits', d', hloop, hd', hfront⟩ :=
          ih (digits.set d (48 + v % 10).toUInt32.toUInt8) (by omega : d + 1 + room = 16)
            (toInt_div_ten hv) hnext
        refine ⟨digits', d', hloop, hd', ?_⟩
        rw [hfront, front_push _ (by omega), char_mod hv, Nat.digits_def' (by omega) hpos,
          List.map_cons, List.append_assoc, List.singleton_append]
      · obtain rfl : m = 0 := by omega
        rw [if_neg (by rw [Int32.lt_iff_toInt_lt, hv]; decide)]
        exact ⟨digits, d, rfl, by omega, by simp⟩

/-- The second loop turns them round. -/
theorem copyLoop_spec (digits : Vector UInt8 16) {d : Nat} (buffer : Vector UInt8 32) {n : Nat}
    (hd : d ≤ 16) (hn : n + d ≤ 32) :
    ∃ buffer', copyLoop digits d buffer n = some (buffer', n + d)
      ∧ front buffer' (n + d) = front buffer n ++ (front digits d).reverse := by
  induction d generalizing buffer n with
  | zero => exact ⟨buffer, rfl, by simp⟩
  | succ d ih =>
      obtain ⟨buffer', hloop, hfront⟩ :=
        ih (buffer.set n digits[d]) (by omega) (by omega : n + 1 + d ≤ 32)
      have hcount : n + 1 + d = n + (d + 1) := by omega
      refine ⟨buffer', ?_, ?_⟩
      · rw [copyLoop, Vector.getElem?_eq_getElem (by omega), Option.bind_some,
          store_eq (by omega), Option.bind_some, hloop, hcount]
      · rw [← hcount, hfront, front_push _ (by omega), front_succ _ (by omega),
          List.reverse_append, List.append_assoc]
        rfl

theorem lt_zero_iff {value : Int32} : value < 0 ↔ value.toInt < 0 := by
  rw [Int32.lt_iff_toInt_lt, Int32.toInt_zero]

/-- `-value` overflows for the least value alone. -/
theorem toInt_magnitude {value : Int32} (hvalue : value ≠ Int32.minValue) :
    (if value < 0 then -value else value).toInt = value.toInt.natAbs := by
  have hlow := value.le_toInt
  have hhigh := value.toInt_lt
  have hne : value.toInt ≠ -2 ^ 31 := fun h => hvalue (Int32.toInt_inj.mp h)
  by_cases hneg : value < 0
  · rw [if_pos hneg, Int32.toInt_neg, Int.bmod_eq_of_le (by omega) (by omega)]
    have hsign := lt_zero_iff.mp hneg
    omega
  · rw [if_neg hneg]
    have hsign : ¬value.toInt < 0 := fun h => hneg (lt_zero_iff.mpr h)
    omega

theorem encodeNonzero_spec {digits : Vector UInt8 16} {buffer : Vector UInt8 32}
    {value : Int32} (hzero : value ≠ 0) (hvalue : value ≠ Int32.minValue) :
    ∃ buffer' n, encodeNonzero digits buffer value = some (buffer', n) ∧ n ≤ 17
      ∧ front buffer' n = signed value.toInt := by
  have hlow := value.le_toInt
  have hhigh := value.toInt_lt
  have hmag := toInt_magnitude hvalue
  have hpos : value.toInt.natAbs ≠ 0 :=
    fun h => hzero (Int32.toInt_inj.mp (Int.natAbs_eq_zero.mp h))
  obtain ⟨digits', d, hloop, hd, hdigits⟩ :=
    digitLoop_spec 16 digits (Nat.zero_add 16) hmag (by omega)
  have hnumeral : (front digits' d).reverse = numeral value.toInt.natAbs := by
    rw [hdigits, front_zero, List.nil_append, numeral, if_neg hpos]
  by_cases hneg : value < 0
  · obtain ⟨buffer', hcopy, hfront⟩ :=
      copyLoop_spec digits' (buffer.set 0 45) hd (by omega : 1 + d ≤ 32)
    refine ⟨buffer', 1 + d, ?_, by omega, ?_⟩
    · rw [encodeNonzero, hloop, if_pos hneg, store_eq (by omega)]
      exact hcopy
    · rw [hfront, front_push _ (by omega), front_zero, hnumeral, signed,
        if_pos (lt_zero_iff.mp hneg)]
      rfl
  · obtain ⟨buffer', hcopy, hfront⟩ :=
      copyLoop_spec digits' buffer hd (by omega : 0 + d ≤ 32)
    refine ⟨buffer', 0 + d, ?_, by omega, ?_⟩
    · rw [encodeNonzero, hloop, if_neg hneg]
      exact hcopy
    · rw [hfront, front_zero, hnumeral, signed, if_neg (fun h => hneg (lt_zero_iff.mpr h)),
        List.nil_append]

/-- **The text of a value**: it fits, with its newline, and nothing is written
outside of the arrays. -/
theorem encode_spec (digits : Vector UInt8 16) (buffer : Vector UInt8 32) {value : Int32}
    (hvalue : value ≠ Int32.minValue) :
    ∃ buffer' n, encode digits buffer value = some (buffer', n) ∧ n ≤ 31
      ∧ front buffer' n = signed value.toInt ++ [10] := by
  have htext : ∃ buffer' n,
      (if value = 0 then (store buffer 0 48).map fun buffer => (buffer, 1)
        else encodeNonzero digits buffer value) = some (buffer', n)
      ∧ n ≤ 17 ∧ front buffer' n = signed value.toInt := by
    by_cases hzero : value = 0
    · subst hzero
      refine ⟨buffer.set 0 48, 1, ?_, by omega, ?_⟩
      · rw [if_pos rfl, store_eq (by omega), Option.map_some]
      · rw [front_push _ (by omega), front_zero]
        rfl
    · rw [if_neg hzero]
      exact encodeNonzero_spec hzero hvalue
  obtain ⟨buffer', n, htext, hn, hfront⟩ := htext
  refine ⟨buffer'.set n 10, n + 1, ?_, by omega, ?_⟩
  · rw [encode, htext, Option.bind_some, store_eq (by omega), Option.map_some]
  · rw [front_push _ (by omega), hfront]

/-! ## The pins -/

structure LinuxFilePinAccess where
  path : Option String := none

namespace LinuxFilePinAccess

def valid (a : LinuxFilePinAccess) : Bool := a.path.any (· ≠ "")

def readInt (a : LinuxFilePinAccess) (long : LongWidth) (files : Files) (fallback : Int32) :
    Int32 :=
  if !a.valid then fallback
  else
    match files (a.path.getD "") with
    | none => fallback
    | some content =>
        let got := content.take 31
        let buffer := got ++ List.replicate (32 - got.length) 0
        if got.length = 0 then fallback
        else Int32.ofInt (strtol long.bits (buffer.takeWhile (· ≠ 0)))

/-- `write_int`; `outcome` is that of the call of `::write`. -/
def writeInt (a : LinuxFilePinAccess) (digits : Vector UInt8 16) (buffer : Vector UInt8 32)
    (files : Files) (outcome : Option Nat) (value : Int32) : Option (Bool × Files) :=
  if !a.valid then some (false, files)
  else
    (encode digits buffer value).map fun text =>
      let path := a.path.getD ""
      if (files path).isNone then (false, files)
      else
        let r := files.write path (front text.1 text.2) outcome
        (r.1 = text.2, r.2)

variable {a b : LinuxFilePinAccess}

/-- What is read of a text that stands in front of something else. -/
theorem readInt_text {files : Files} {path : String} (hpath : b.path = some path)
    (hne : path ≠ "") {value : Int32} (hlen : (signed value.toInt ++ [10]).length ≤ 31)
    (rest : List UInt8) (hfile : files path = some (signed value.toInt ++ [10] ++ rest))
    (long : LongWidth) (fallback : Int32) : b.readInt long files fallback = value := by
  have hvalid : b.valid = true := by simp [valid, hpath, hne]
  have htake : (signed value.toInt ++ [10] ++ rest).take 31
      = signed value.toInt ++ [10] ++ rest.take (31 - (signed value.toInt ++ [10]).length) := by
    rw [List.take_append, List.take_of_length_le hlen]
  generalize rest.take (31 - (signed value.toInt ++ [10]).length) = rest' at htake
  have hgot : (signed value.toInt ++ [10] ++ rest').length ≠ 0 := by simp
  have hchars : ∀ c ∈ signed value.toInt, decide (c ≠ 0) = true :=
    fun c hc => decide_eq_true (ne_zero_of_mem_signed hc)
  have hlong : (2 : Int) ^ 31 ≤ 2 ^ (long.bits - 1) := by
    cases long <;> decide
  have hlow := value.le_toInt
  have hhigh := value.toInt_lt
  rw [readInt, hvalid, if_neg (by simp), hpath, Option.getD_some, hfile]
  dsimp only
  rw [htake, if_neg hgot, List.append_assoc, List.append_assoc,
    List.takeWhile_append_of_pos hchars, strtol_signed (by omega) (by omega) rfl,
    Int32.ofInt_toInt]

/-- **The round trip**: what `write_int` reports as written, `read_int` reads back
from the same path, and the arrays are large enough. -/
theorem readInt_writeInt (digits : Vector UInt8 16) (buffer : Vector UInt8 32)
    (hpath : b.path = a.path) {value : Int32} (hvalue : value ≠ Int32.minValue) (files : Files)
    (outcome : Option Nat) :
    ∃ ok files', a.writeInt digits buffer files outcome value = some (ok, files')
      ∧ (ok = true → ∀ long fallback, b.readInt long files' fallback = value) := by
  obtain ⟨buffer', n, hencode, hn, hfront⟩ := encode_spec digits buffer hvalue
  by_cases hvalid : a.valid = true
  · obtain ⟨path, hapath, hne⟩ : ∃ path, a.path = some path ∧ path ≠ "" := by
      simpa [valid, Option.any_eq_true] using hvalid
    rw [writeInt, hvalid, if_neg (by simp), hencode, Option.map_some, hapath, Option.getD_some]
    dsimp only
    cases hfile : files path with
    | none => exact ⟨false, files, rfl, fun h => absurd h Bool.false_ne_true⟩
    | some content =>
        refine ⟨_, _, rfl, fun hok long fallback => ?_⟩
        have hlen : (signed value.toInt ++ [10]).length = n := by
          rw [← hfront, length_front _ (by omega)]
        cases outcome with
        | none =>
            have hcount : (-1 : Int) = (n : Nat) := of_decide_eq_true hok
            omega
        | some most =>
            -- a write that took all of the text left it in front of what was there
            have hcount : (((front buffer' n).take most).length : Int) = n :=
              of_decide_eq_true hok
            have hall : (front buffer' n).take most = signed value.toInt ++ [10] := by
              rw [← hfront]
              refine List.take_of_length_le ?_
              rw [List.length_take, length_front _ (by omega)] at hcount
              rw [length_front _ (by omega)]
              omega
            refine readInt_text (hpath.trans hapath) hne (by omega) (content.drop n) ?_ long
              fallback
            show (if path = path then _ else _) = _
            rw [if_pos rfl, hfile, Option.map_some, hall, hlen]
  · rw [writeInt, if_pos (by simp [hvalid])]
    exact ⟨false, files, rfl, fun h => absurd h Bool.false_ne_true⟩

end LinuxFilePinAccess

structure LinuxFileDigitalInputPin extends LinuxFilePinAccess

def LinuxFileDigitalInputPin.read (p : LinuxFileDigitalInputPin) (long : LongWidth)
    (files : Files) : Bool :=
  p.readInt long files 0 ≠ 0

structure LinuxFileDigitalOutputPin extends LinuxFilePinAccess

def LinuxFileDigitalOutputPin.write (p : LinuxFileDigitalOutputPin) (digits : Vector UInt8 16)
    (buffer : Vector UInt8 32) (files : Files) (outcome : Option Nat) (high : Bool) :
    Option (Bool × Files) :=
  p.writeInt digits buffer files outcome (if high then 1 else 0)

structure LinuxFileAnalogInputPin extends LinuxFilePinAccess where
  maxValue : Int32 := 4095

def LinuxFileAnalogInputPin.read (p : LinuxFileAnalogInputPin) (long : LongWidth)
    (files : Files) : Int32 :=
  p.readInt long files 0

structure LinuxFileAnalogOutputPin extends LinuxFilePinAccess where
  maxValue : Int32 := 255

def LinuxFileAnalogOutputPin.write (p : LinuxFileAnalogOutputPin) (digits : Vector UInt8 16)
    (buffer : Vector UInt8 32) (files : Files) (outcome : Option Nat) (value : Int32) :
    Option (Bool × Files) :=
  let value := if value < 0 then 0 else value
  let value := if value > p.maxValue then p.maxValue else value
  p.writeInt digits buffer files outcome value

/-! ## Round trips -/

section

variable (digits : Vector UInt8 16) (buffer : Vector UInt8 32)

/-- A digital pin reads the level that was written. -/
theorem digital_round_trip (out : LinuxFileDigitalOutputPin) (input : LinuxFileDigitalInputPin)
    (hpath : input.path = out.path) (long : LongWidth) (files : Files) (outcome : Option Nat)
    (high : Bool) :
    ∃ ok files', out.write digits buffer files outcome high = some (ok, files')
      ∧ (ok = true → input.read long files' = high) := by
  have hvalue : (if high = true then 1 else 0) ≠ Int32.minValue := by
    cases high <;> decide
  obtain ⟨ok, files', hwrite, hread⟩ :=
    LinuxFilePinAccess.readInt_writeInt digits buffer hpath hvalue files outcome
  refine ⟨ok, files', hwrite, fun hok => ?_⟩
  rw [LinuxFileDigitalInputPin.read, hread hok]
  cases high <;> rfl

theorem toInt_clamped (value maximum : Int32) :
    (if (if value < 0 then 0 else value) > maximum then maximum
      else if value < 0 then 0 else value).toInt = min (max value.toInt 0) maximum.toInt := by
  have hlower : (if value < 0 then 0 else value).toInt = max value.toInt 0 := by
    by_cases hneg : value < 0
    · rw [if_pos hneg, Int32.toInt_zero]
      have hsign := lt_zero_iff.mp hneg
      omega
    · rw [if_neg hneg]
      have hsign : ¬value.toInt < 0 := fun h => hneg (lt_zero_iff.mpr h)
      omega
  rw [← hlower]
  generalize (if value < 0 then 0 else value) = lower
  by_cases habove : lower > maximum
  · rw [if_pos habove]
    have hlt := Int32.lt_iff_toInt_lt.mp habove
    omega
  · rw [if_neg habove]
    have hle : ¬maximum.toInt < lower.toInt := fun h => habove (Int32.lt_iff_toInt_lt.mpr h)
    omega

/-- An analog pin with a maximum of at least zero reads the clamped value. The
write has an outcome: nothing was stored outside of the arrays. -/
theorem analog_round_trip (out : LinuxFileAnalogOutputPin) (input : LinuxFileAnalogInputPin)
    (hmax : 0 ≤ out.maxValue) (hpath : input.path = out.path) (long : LongWidth)
    (files : Files) (outcome : Option Nat) (value : Int32) :
    ∃ ok files', out.write digits buffer files outcome value = some (ok, files')
      ∧ (ok = true → (input.read long files').toInt
          = min (max value.toInt 0) out.maxValue.toInt) := by
  have hclamped := toInt_clamped value out.maxValue
  have hvalue : (if (if value < 0 then 0 else value) > out.maxValue then out.maxValue
      else if value < 0 then 0 else value) ≠ Int32.minValue := by
    intro h
    rw [h, Int32.toInt_minValue] at hclamped
    have hnonneg := Int32.le_iff_toInt_le.mp hmax
    rw [Int32.toInt_zero] at hnonneg
    omega
  obtain ⟨ok, files', hwrite, hread⟩ :=
    LinuxFilePinAccess.readInt_writeInt digits buffer hpath hvalue files outcome
  refine ⟨ok, files', hwrite, fun hok => ?_⟩
  rw [LinuxFileAnalogInputPin.read, hread hok, hclamped]

/-- A 7 over a longer number: what is left of that is not read. -/
theorem analog_round_trip_stale :
    ∃ ok files', LinuxFileAnalogOutputPin.write { path := some "duty" } (.replicate 16 0)
        (.replicate 32 0) (fun _ => some [49, 50, 51, 52, 10]) (some 32) 7
          = some (ok, files')
      ∧ ok = true ∧ LinuxFileAnalogInputPin.read { path := some "duty" } .w32 files' = 7 := by
  obtain ⟨ok, files', hwrite, hread⟩ := analog_round_trip (.replicate 16 0) (.replicate 32 0)
    { path := some "duty" } { path := some "duty" } (by decide) rfl .w32
    (fun _ => some [49, 50, 51, 52, 10]) (some 32) 7
  have hdone : (LinuxFileAnalogOutputPin.write { path := some "duty" } (.replicate 16 0)
      (.replicate 32 0) (fun _ => some [49, 50, 51, 52, 10]) (some 32) 7).map Prod.fst
        = some true := rfl
  rw [hwrite] at hdone
  have hok : ok = true := Option.some.inj hdone
  exact ⟨ok, files', hwrite, hok, Int32.toInt_inj.mp (hread hok)⟩

end

end AsyncEventLoop
