import AsyncEventLoop.NmeaSentences
import AsyncEventLoop.ReaderDelivery
import AsyncEventLoop.Runs

/-!
# From NMEA lines to Signal K updates

What `NmeaCallbacks` of `MiniSignalKServerExample` makes of the lines it is called with. A
line is looked at as it stands in the array of 160 bytes, cut to it and at its first NUL: if
that is an MWV sentence, it sets the data model and is published as one JSON text, and if it
is none, all stays as it was (`NmeaCallbacks.wind_published`). A `JsonProtocolReader` gets the
texts back whole, provided that what was measured can be printed
(`NmeaCallbacks.wind_updates_read`).
-/

namespace AsyncEventLoop

open CStrings Runs

variable {ρ : Type}

/-! ## The callbacks -/

/-- The format of `format_signalk_wind_update`, filled in; the newline comes behind it. -/
def signalkWindUpdate (R : Reals ρ) (sourceLabel : List UInt8) (direction speed : ρ) :
    List UInt8 :=
  ascii "\x7b\"updates\":[\x7b\"source\":\x7b\"label\":\"" ++ sourceLabel ++
    ascii "\"\x7d,\"values\":[\x7b\"path\":\"environment.wind.angleApparent\",\"value\":" ++
    R.fixed6 direction ++
    ascii "\x7d,\x7b\"path\":\"environment.wind.speedApparent\",\"value\":" ++
    R.fixed6 speed ++ ascii "\x7d]\x7d]\x7d"

/-- `format_signalk_wind_update`: what it returns, and the string that is in `dst`. -/
def formatSignalkWindUpdate (R : Reals ρ) (model : DataModel ρ) (dstSize : Nat) :
    Nat × List UInt8 :=
  if dstSize = 0 ∨ !model.hasApparentWind then (0, [])
  else
    let text := signalkWindUpdate R (ascii "mini-signalk") model.apparentWindDirectionRad.value
      model.apparentWindSpeedMS.value ++ [10]
    (text.length, text.take (dstSize - 1))

/-- What `on_line` is called with, what its array has held before, and what the clock says. -/
structure NmeaLine where
  line : List UInt8
  stack : List UInt8
  size : stack.length = 160
  nowUs : UInt64

/-- `published` is what was written to each of the subscribers. -/
structure NmeaCallbacks (ρ : Type) where
  dataModel : DataModel ρ
  published : List (List UInt8) := []

namespace NmeaCallbacks

def fresh (R : Reals ρ) : NmeaCallbacks ρ := { dataModel := .initial R }

/-- `broadcast_wind_update` of the Signal K side. -/
def broadcastWindUpdate (R : Reals ρ) (s : NmeaCallbacks ρ) : NmeaCallbacks ρ :=
  let (len, json) := formatSignalkWindUpdate R s.dataModel 512
  if len ≤ 0 ∨ len ≥ 512 then s
  else { s with published := s.published ++ [json.take len] }

def onLine (R : Reals ρ) (s : NmeaCallbacks ρ) (l : NmeaLine) : Option (NmeaCallbacks ρ) := do
  let (tokenized, tokenizer) ← NmeaTokenizer.tokenize (lineToCstr l.line l.stack)
  if !tokenized then return s
  let (parsed, dataModel) ← R.parseMwv tokenizer s.dataModel l.nowUs
  let s := { s with dataModel }
  if !parsed then return s
  return s.broadcastWindUpdate R

end NmeaCallbacks

/-! ## What the lines say -/

namespace Reals

variable (R : Reals ρ)

/-- The direction in radians and the speed of an MWV sentence: of what is in the array, the first
159 bytes of the line, up to a NUL. -/
def wind (l : NmeaLine) : Option (ρ × ρ) :=
  R.mwv 3 (fun angleDeg => R.div (R.mul angleDeg (R.lit pi)) (R.lit 180))
    (((cText 160 l.line).splitOn comma).take NmeaTokenizer.maxFields)

/-- The update for it. -/
def update (wind : ρ × ρ) : List UInt8 :=
  signalkWindUpdate R (ascii "mini-signalk") wind.1 wind.2

/-- The data model behind a line. -/
def observe (model : DataModel ρ) (l : NmeaLine) : DataModel ρ :=
  match R.wind l with
  | some wind => model.setWind wind.1 wind.2 l.nowUs
  | none => model

/-- What is in the data model, and since when. -/
def observation (l : NmeaLine) : Option ((ρ × ρ) × UInt64) :=
  (R.wind l).map fun wind => (wind, l.nowUs)

end Reals

namespace NmeaCallbacks

variable {R : Reals ρ}

/-- What has been published behind a line. A text that does not fit into the array with its NUL
is not. -/
def publish (R : Reals ρ) (published : List (List UInt8)) (l : NmeaLine) : List (List UInt8) :=
  published ++ ((R.wind l).map fun wind => R.update wind ++ [10]).toList.filter (·.length < 512)

theorem broadcastWindUpdate_eq (published : List (List UInt8)) (model : DataModel ρ)
    (wind : ρ × ρ) (nowUs : UInt64) :
    broadcastWindUpdate R { dataModel := model.setWind wind.1 wind.2 nowUs, published } =
      { dataModel := model.setWind wind.1 wind.2 nowUs
        published := published ++ [R.update wind ++ [10]].filter (·.length < 512) } := by
  have hformat : formatSignalkWindUpdate R (model.setWind wind.1 wind.2 nowUs) 512
      = ((R.update wind ++ [10]).length, (R.update wind ++ [10]).take 511) := rfl
  have hpos : 0 < (R.update wind ++ [10]).length := by simp
  unfold broadcastWindUpdate
  rw [hformat]
  dsimp only
  by_cases hfits : (R.update wind ++ [10]).length < 512
  · rw [if_neg (by omega), List.take_take, List.take_of_length_le (by omega),
      List.filter_cons_of_pos (by simpa using hfits), List.filter_nil]
  · rw [if_pos (by omega), List.filter_cons_of_neg (by simpa using hfits), List.filter_nil,
      List.append_nil]

/-- One line: the array is not left, and the sentence is read as a whole or not at all. -/
theorem onLine_eq (s : NmeaCallbacks ρ) (l : NmeaLine) :
    onLine R s l =
      some { dataModel := R.observe s.dataModel l, published := publish R s.published l } := by
  have hat := lineToCstr_at l.line (show 0 < l.stack.length by rw [l.size]; decide)
  rw [l.size] at hat
  obtain ⟨t, htokenize, hreads⟩ := NmeaTokenizer.tokenize_reads hat
  have hparse := R.parseMwvWith_eq 3
    (fun angleDeg => R.div (R.mul angleDeg (R.lit Reals.pi)) (R.lit 180)) hreads s.dataModel l.nowUs
  simp only [onLine, htokenize, Option.bind_eq_bind, Option.bind_some, Bool.not_true,
    Bool.false_eq_true, if_false, Reals.parseMwv, hparse, publish, Reals.observe, Reals.wind]
  cases R.mwv 3 _ _ with
  | none => simp
  | some wind => exact congrArg some (broadcastWindUpdate_eq s.published s.dataModel wind l.nowUs)

theorem run_from (lines : List NmeaLine) (s : NmeaCallbacks ρ) :
    run (onLine R) s lines = some
      { dataModel := (lines.filterMap R.observation).getLast?.elim s.dataModel fun o =>
          s.dataModel.setWind o.1.1 o.1.2 o.2
        published := s.published ++
          ((lines.filterMap R.wind).map fun wind => R.update wind ++ [10]).filter
            (·.length < 512) } := by
  induction lines generalizing s with
  | nil =>
      simp only [List.filterMap_nil, List.map_nil, List.filter_nil, List.append_nil]
      rfl
  | cons l lines ih =>
      rw [run, onLine_eq, Option.bind_some, ih]
      cases hwind : R.wind l with
      | none =>
          have hobservation : R.observation l = none := by rw [Reals.observation, hwind]; rfl
          rw [List.filterMap_cons_none hwind, List.filterMap_cons_none hobservation]
          simp only [Reals.observe, publish, hwind, Option.map_none, Option.toList_none,
            List.filter_nil, List.append_nil]
      | some wind =>
          have hobservation : R.observation l = some (wind, l.nowUs) := by
            rw [Reals.observation, hwind]
            rfl
          rw [List.filterMap_cons_some hwind, List.filterMap_cons_some hobservation,
            List.getLast?_cons, List.map_cons]
          simp only [Reals.observe, publish, hwind, Option.map_some, Option.toList_some,
            List.append_assoc, ← List.filter_append, List.singleton_append]
          cases (lines.filterMap R.observation).getLast? <;> rfl

/-- Two printed values leave room for the NUL. -/
theorem update_length {wind : ρ × ρ} (hdirection : (R.fixed6 wind.1).length ≤ 47)
    (hspeed : (R.fixed6 wind.2).length ≤ 47) : (R.update wind).length ≤ 256 := by
  have hlen := Nat.add_le_add hdirection hspeed
  simp only [Reals.update, signalkWindUpdate, List.length_append]
  change 32 + 12 + 62 + (R.fixed6 wind.1).length + 51 + (R.fixed6 wind.2).length + 5 ≤ 256
  omega

theorem published_all {winds : List (ρ × ρ)} (h : ∀ wind ∈ winds,
    (R.fixed6 wind.1).length ≤ 47 ∧ (R.fixed6 wind.2).length ≤ 47) :
    (winds.map fun wind => R.update wind ++ [10]).filter (·.length < 512)
      = winds.map fun wind => R.update wind ++ [10] := by
  refine List.filter_eq_self.mpr fun text htext => ?_
  obtain ⟨wind, hwind, rfl⟩ := List.mem_map.mp htext
  obtain ⟨hdirection, hspeed⟩ := h wind hwind
  have hlen := update_length hdirection hspeed
  rw [decide_eq_true_eq, List.length_append, List.length_singleton]
  omega

/-- **A run over any lines**: whatever they are and whatever the arrays have held, the callback
keeps to its arrays; there is one update for each MWV sentence, in order, and the data model is
what the last of the sentences says. No text of a `float` is longer than 47 bytes. -/
theorem wind_published (hfixed6 : ∀ x, (R.fixed6 x).length ≤ 47) (lines : List NmeaLine) :
    ∃ s, run (onLine R) (fresh R) lines = some s ∧
      s.published = (lines.filterMap R.wind).map (fun wind => R.update wind ++ [10]) ∧
      s.dataModel = (lines.filterMap R.observation).getLast?.elim (.initial R) fun o =>
        (DataModel.initial R).setWind o.1.1 o.1.2 o.2 := by
  refine ⟨_, run_from lines (fresh R), ?_, rfl⟩
  exact published_all fun wind _ => ⟨hfixed6 wind.1, hfixed6 wind.2⟩

/-- Whole numbers of one digit, as they are read and printed. -/
def oneDigit : Reals Nat where
  lit q := q.floor.toNat
  mul := (· * ·)
  div := (· / ·)
  strtod text :=
    if (text.takeWhile JsonGrammar.isDigit).length = 1 then some ((text.headD 48).toNat - 48)
    else none
  fixed6 x := UInt8.ofNat (48 + x) :: ascii ".000000"

/-- A sentence, and a line that is none. -/
def windAhead : List NmeaLine :=
  [{ line := ascii "$IIMWV,0,R,2,M,A*00", stack := List.replicate 160 7,
     size := List.length_replicate, nowUs := 5 },
   { line := ascii "$IIMWV,0,R,,M,A*00", stack := List.replicate 160 65,
     size := List.length_replicate, nowUs := 6 }]

theorem wind_published_run : ∃ s, run (onLine oneDigit) (fresh oneDigit) windAhead = some s
    ∧ s.published = [oneDigit.update (0, 2) ++ [10]]
    ∧ s.dataModel.apparentWindSpeedMS.value = 2 := by
  have hwind : windAhead.filterMap oneDigit.wind = [(0, 2)] := by decide +kernel
  have hobservation : windAhead.filterMap oneDigit.observation = [((0, 2), 5)] := by
    decide +kernel
  obtain ⟨s, hrun, hpublished, hmodel⟩ :=
    wind_published (R := oneDigit) (fun _ => by simp [oneDigit, ascii]) windAhead
  rw [hwind] at hpublished
  rw [hobservation] at hmodel
  exact ⟨s, hrun, hpublished, by rw [hmodel]; rfl⟩

end NmeaCallbacks

/-! ## The updates are JSON -/

open JsonGrammar

/-- The documented text of `%.6f` for the numbers of type `float` that are finite. -/
structure Reals.Prints (R : Reals ρ) (finite : ρ → Prop) : Prop where
  fixed6 : ∀ x, finite x → ∃ sign int frac, R.fixed6 x = sign ++ int ++ dot :: frac ∧
    (sign = [] ∨ sign = [minus]) ∧ IntPart int ∧ int.length ≤ 39 ∧ Digits frac ∧
    frac.length = 6

variable {R : Reals ρ} {finite : ρ → Prop}

theorem Reals.Prints.number (h : R.Prints finite) {x : ρ} (hx : finite x) :
    Number (R.fixed6 x) := by
  obtain ⟨sign, int, frac, htext, hsign, hint, -, hfrac, hlen⟩ := h.fixed6 x hx
  rw [htext, ← List.append_nil (sign ++ int ++ dot :: frac)]
  refine .mk hsign hint ?_ .absent
  obtain ⟨d, ds, rfl⟩ := List.exists_cons_of_length_eq_add_one hlen
  obtain ⟨hd, hds⟩ := List.forall_mem_cons.mp hfrac
  exact .digits hd hds

theorem Reals.Prints.length_le (h : R.Prints finite) {x : ρ} (hx : finite x) :
    (R.fixed6 x).length ≤ 47 := by
  obtain ⟨sign, int, frac, htext, hsign, -, hint, -, hlen⟩ := h.fixed6 x hx
  have hone : sign.length ≤ 1 := by
    rcases hsign with rfl | rfl <;> simp
  rw [htext]
  simp only [List.length_append, List.length_cons]
  omega

theorem str_of_unescaped {cs : List UInt8} (h : cs.all isUnescaped = true) :
    Str (quote :: (cs ++ [quote])) := by
  refine .mk ?_
  induction cs with
  | nil => exact .nil
  | cons c cs ih =>
      rw [List.all_cons, Bool.and_eq_true] at h
      exact .unescaped h.1 (ih h.2)

/-- A member of an object, without white space. -/
theorem member_of_str {k t : List UInt8} (hk : Str k) (ht : Text .value t) :
    Text .members (k ++ colon :: t) := by
  have hnone : Ws [] := List.forall_mem_nil _
  have h := Text.member hnone hk hnone hnone ht hnone
  simpa using h

theorem element_of_value {t : List UInt8} (ht : Text .value t) : Text .elements t := by
  have hnone : Ws [] := List.forall_mem_nil _
  have h := Text.element hnone ht hnone
  simpa using h

theorem signalkWindUpdate_value {label : List UInt8}
    (hlabel : label.all isUnescaped = true) {direction speed : ρ}
    (hdirection : Number (R.fixed6 direction)) (hspeed : Number (R.fixed6 speed)) :
    Value (signalkWindUpdate R label direction speed) := by
  have hstr (s : String) (hs : (ascii s).all isUnescaped = true) :
      Str (quote :: (ascii s ++ [quote])) := str_of_unescaped hs
  have hsource := Text.object (member_of_str (hstr "label" (by decide))
    (.string (str_of_unescaped hlabel)))
  have hreading (path : String) (hpath : (ascii path).all isUnescaped = true)
      {number : List UInt8} (hnumber : Number number) :=
    Text.object (.moreMembers
      (member_of_str (hstr "path" (by decide)) (.string (hstr path hpath)))
      (member_of_str (hstr "value" (by decide)) (.number hnumber)))
  have hvalues := Text.array (.moreElements
    (element_of_value (hreading "environment.wind.angleApparent" (by decide) hdirection))
    (element_of_value (hreading "environment.wind.speedApparent" (by decide) hspeed)))
  have hupdate := Text.array (element_of_value (.object (.moreMembers
    (member_of_str (hstr "source" (by decide)) hsource)
    (member_of_str (hstr "values" (by decide)) hvalues))))
  have htext := Text.object (member_of_str (hstr "updates" (by decide)) hupdate)
  refine Eq.mp (congrArg Value ?_) htext
  simp [signalkWindUpdate, ascii, Char.toUInt8]

namespace NmeaCallbacks

/-- **The updates are read**: if all that was measured is finite, the updates are JSON texts
that a `JsonProtocolReader` with room for them emits byte for byte, through a stream of any
capacity and however it is written and read. The sentences are those of the lines as cut to
the array of 160 bytes, and at their first NUL. -/
theorem wind_updates_read {C N : Nat} (hC : 0 < C) (hN : 256 ≤ N) (options : JsonProtocolOptions)
    (hprints : R.Prints finite) (lines : List NmeaLine)
    (hfinite : ∀ l ∈ lines, ∀ wind ∈ R.wind l, finite wind.1 ∧ finite wind.2) :
    ∃ s, run (onLine R) (fresh R) lines = some s ∧
      s.published = (lines.filterMap R.wind).map (fun wind => R.update wind ++ [10]) ∧
      ∀ events : List DeliveryEvent,
        let d : Delivery C _ _ := Delivery.run JsonProtocolReader.readByte
          (JsonProtocolReader.fresh N options) events
        d.accepted <+: s.published.flatten →
          Delivery.Arrives JsonProtocolReader.readByte d s.published.flatten
            ((lines.filterMap R.wind).map R.update) := by
  have hall : ∀ wind ∈ lines.filterMap R.wind, finite wind.1 ∧ finite wind.2 := by
    intro wind hwind
    obtain ⟨l, hl, hwind⟩ := List.mem_filterMap.mp hwind
    exact hfinite l hl wind hwind
  have hmessages : ∀ m ∈ (lines.filterMap R.wind).map fun wind => (R.update wind, [10]),
      JsonProtocolReader.Message N m := by
    intro m hm
    obtain ⟨wind, hwind, rfl⟩ := List.mem_map.mp hm
    obtain ⟨hdirection, hspeed⟩ := hall wind hwind
    exact ⟨signalkWindUpdate_value (by decide) (hprints.number hdirection)
      (hprints.number hspeed),
      (update_length (hprints.length_le hdirection) (hprints.length_le hspeed)).trans hN,
      by simp [Ws, isWs], List.cons_ne_nil _ _⟩
  have hpublished := published_all fun wind hwind =>
    ⟨hprints.length_le (hall wind hwind).1, hprints.length_le (hall wind hwind).2⟩
  have hrun := run_from (R := R) lines (fresh R)
  rw [hpublished, show (fresh R).published = [] from rfl, List.nil_append] at hrun
  refine ⟨_, hrun, rfl, ?_⟩
  intro events d haccepted
  have hencoded : ((lines.filterMap R.wind).map fun wind => R.update wind ++ [10]).flatten =
      ((lines.filterMap R.wind).map fun wind => (R.update wind, ([10] : List UInt8))).flatMap
        fun m => m.1 ++ m.2 := by
    rw [List.flatMap_map, List.flatMap_def]
  rw [hencoded] at haccepted ⊢
  have harrives := Delivery.codec_arrives (JsonProtocolReader.values_codec N)
    (JsonProtocolReader.idle_fresh options) hmessages hC events haccepted
  rw [← List.map_eq_flatMap, List.map_map] at harrives
  exact harrives

theorem oneDigit_prints : oneDigit.Prints (· < 10) where
  fixed6 x hx := by
    refine ⟨[], [UInt8.ofNat (48 + x)], ascii "000000", rfl, .inl rfl, ?_, by simp, ?_, rfl⟩
    · have hint : UInt8.ofNat (48 + x) = 48 ∨ isNonzeroDigit (UInt8.ofNat (48 + x)) = true := by
        revert x
        decide
      rcases hint with hzero | hdigit
      · rw [hzero]
        exact .zero
      · exact .digits hdigit (List.forall_mem_nil _)
    · exact List.all_eq_true.mp (by decide)

theorem wind_updates_read_run :
    Delivery.Arrives JsonProtocolReader.readByte
      (Delivery.run JsonProtocolReader.readByte (JsonProtocolReader.fresh 256 {})
        [.write (some (oneDigit.update (0, 2) ++ [10])), .turn] : Delivery 512 _ _)
      (oneDigit.update (0, 2) ++ [10]) [oneDigit.update (0, 2)] := by
  have hwind : windAhead.filterMap oneDigit.wind = [(0, 2)] := by decide +kernel
  obtain ⟨s, -, hpublished, harrives⟩ := wind_updates_read (C := 512) (N := 256) (by decide)
    (by decide) {} oneDigit_prints windAhead (by
      intro l hl wind hwind'
      have hmem := List.mem_filterMap.mpr ⟨l, hl, hwind'⟩
      rw [hwind, List.mem_singleton] at hmem
      subst hmem
      decide)
  rw [hwind] at hpublished harrives
  have h := harrives [.write (some (oneDigit.update (0, 2) ++ [10])), .turn]
    (by rw [hpublished]; decide +kernel)
  rw [hpublished] at h
  simpa using h

end NmeaCallbacks

end AsyncEventLoop
