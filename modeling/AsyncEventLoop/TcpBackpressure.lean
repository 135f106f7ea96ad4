import AsyncEventLoop.TcpLineServer
import Mathlib.Data.List.Induction

/-!
# When backpressure is reported

`TcpBackpressureMonitor` counts the checks that find a connection over the
high watermark and takes the count back at the low one. The count
saturates and the report is latched; in terms of the checks since the last
low one (`overHighSinceLow`) neither shows, and `report_iff` says exactly
which checks report. `LineServer.check_eq` ties the monitor to the one the
line server consults.
-/

namespace AsyncEventLoop

/-- What a connection answers in one call of `check`: `valid()`,
`output_size()`, and both again for the information that is filled in. -/
structure ConnectionAnswers where
  valid : Bool := true
  outputSize : Nat := 0
  infoValid : Bool := valid
  infoOutputSize : Nat := outputSize

namespace TcpBackpressureMonitor

def configure (_m : TcpBackpressureMonitor) (options : TcpBackpressureOptions) :
    TcpBackpressureMonitor :=
  reset { options := options }

/-- `fill_info`; with a null pointer nothing is filled in. -/
def fillInfo (m : TcpBackpressureMonitor) (a : ConnectionAnswers) : TcpBackpressureInfo where
  pendingBytes := if a.infoValid then a.infoOutputSize else 0
  highWaterBytes := m.options.highWaterBytes
  lowWaterBytes := m.options.lowWaterBytes
  overHighPolls := m.overHighPolls
  closeOnLimit := m.options.closeOnLimit

def check (m : TcpBackpressureMonitor) (a : ConnectionAnswers) :
    (Bool × TcpBackpressureInfo) × TcpBackpressureMonitor :=
  if !m.options.enabled || !a.valid then ((false, m.fillInfo a), m)
  else
    let m := m.count a.outputSize
    ((m.due, m.fillInfo a), { m with reported := m.reported || m.due })

/-- The monitor behind a sequence of checks. -/
def after (m : TcpBackpressureMonitor) (checks : List ConnectionAnswers) :
    TcpBackpressureMonitor :=
  checks.foldl (fun m a => (m.check a).2) m

end TcpBackpressureMonitor

/-! ## The line server's monitors -/

section

variable {W : Type} {N n : Nat} (env : ConnectionEnv W)

theorem LineServer.fillInfo_eq (s : LineServer W N n) (m : TcpBackpressureMonitor)
    (connection : Nat) :
    ∃ valid outputSize, (s.fillInfo env m connection).2.slots = s.slots
      ∧ ∀ a : ConnectionAnswers, a.infoValid = valid → a.infoOutputSize = outputSize →
        (s.fillInfo env m connection).1 = m.fillInfo a := by
  let valid := s.ask (env.valid connection)
  let size := valid.2.ask (env.outputSize connection)
  unfold LineServer.fillInfo TcpBackpressureMonitor.fillInfo
  dsimp only
  by_cases h : valid.1 = true
  · refine ⟨true, size.1, ?_, ?_⟩
    · rw [if_pos h]
      rfl
    · rintro a hvalid hsize
      rw [if_pos h, hvalid, hsize, if_pos rfl]
  · refine ⟨false, 0, ?_, ?_⟩
    · rw [if_neg h]
      rfl
    · rintro a hvalid -
      rw [if_neg h, hvalid, if_neg Bool.false_ne_true]

/-- `check` on the monitor of a slot, whatever the connection answers. -/
theorem LineServer.check_eq (s : LineServer W N n) (i connection : Nat) :
    ∃ a : ConnectionAnswers,
      (s.check env i connection).1 = ((s.slots i).backpressure.check a).1
        ∧ ((s.check env i connection).2.slots i).backpressure
            = ((s.slots i).backpressure.check a).2 := by
  let m := (s.slots i).backpressure
  let valid := s.andValid env m.options.enabled connection
  have hslots : valid.2.slots = s.slots := by
    show (s.andValid env m.options.enabled connection).2.slots = _
    unfold LineServer.andValid
    split <;> rfl
  have henabled : valid.1 = true → m.options.enabled = true := by
    show (s.andValid env m.options.enabled connection).1 = true → _
    unfold LineServer.andValid
    split
    · exact fun _ => ‹_›
    · exact fun h => absurd h Bool.false_ne_true
  unfold LineServer.check TcpBackpressureMonitor.check
  dsimp only
  by_cases hvalid : valid.1 = true
  · let pending := valid.2.ask (env.outputSize connection)
    obtain ⟨v, size, hframe, hinfo⟩ :=
      pending.2.fillInfo_eq env (m.count pending.1) connection
    refine ⟨⟨true, pending.1, v, size⟩, ?_, ?_⟩
    · rw [if_neg (by simp [m, valid, hvalid]), if_neg (by simp [m, henabled hvalid]),
        hinfo ⟨true, pending.1, v, size⟩ rfl rfl]
    · rw [if_neg (by simp [m, valid, hvalid]), if_neg (by simp [m, henabled hvalid])]
      simp [LineServer.putSlot, m, pending, valid]
  · obtain ⟨v, size, hframe, hinfo⟩ := valid.2.fillInfo_eq env m connection
    refine ⟨⟨false, 0, v, size⟩, ?_, ?_⟩
    · rw [if_pos (by simp [m, valid, hvalid]), if_pos (by simp),
        hinfo ⟨false, 0, v, size⟩ rfl rfl]
    · rw [if_pos (by simp [m, valid, hvalid]), if_pos (by simp), hframe, hslots]

end

/-! ## Episodes -/

namespace TcpBackpressureOptions

def overHigh (o : TcpBackpressureOptions) (a : ConnectionAnswers) : Bool :=
  a.valid && decide (a.outputSize > o.highWaterBytes)

def low (o : TcpBackpressureOptions) (a : ConnectionAnswers) : Bool :=
  a.valid && decide (a.outputSize ≤ o.highWaterBytes) && decide (a.outputSize ≤ o.lowWaterBytes)

/-- The over-high checks since the last low one. -/
def overHighSinceLow (o : TcpBackpressureOptions) (checks : List ConnectionAnswers) : Nat :=
  (checks.reverse.takeWhile fun a => !o.low a).countP o.overHigh

def trigger (o : TcpBackpressureOptions) : Nat := max 1 o.maxOverHighPolls.toNat

theorem overHighSinceLow_snoc (o : TcpBackpressureOptions) (checks : List ConnectionAnswers)
    (a : ConnectionAnswers) :
    o.overHighSinceLow (checks ++ [a])
      = if o.low a then 0
        else if o.overHigh a then o.overHighSinceLow checks + 1 else o.overHighSinceLow checks := by
  unfold overHighSinceLow
  rw [List.reverse_append, List.reverse_singleton, List.singleton_append, List.takeWhile_cons]
  cases o.low a with
  | true => rfl
  | false => rw [Bool.not_false, if_pos rfl, List.countP_cons]; split <;> rfl

/-- Without a low check the count does not go down. -/
theorem overHighSinceLow_mono (o : TcpBackpressureOptions) (checks : List ConnectionAnswers)
    {more : List ConnectionAnswers} (h : ∀ a ∈ more, o.low a = false) :
    o.overHighSinceLow checks ≤ o.overHighSinceLow (checks ++ more) := by
  induction more using List.reverseRecOn with
  | nil => rw [List.append_nil]
  | append_singleton more a ih =>
      rw [← List.append_assoc, overHighSinceLow_snoc,
        h a (List.mem_append_right _ (List.mem_singleton_self a))]
      have hle := ih fun b hb => h b (List.mem_append_left _ hb)
      rw [if_neg Bool.false_ne_true]
      split <;> omega

end TcpBackpressureOptions

/-! ## The monitor in terms of them -/

namespace TcpBackpressureMonitor

open TcpBackpressureOptions

/-- The monitor after `count` over-high checks of an episode. -/
structure Counted (o : TcpBackpressureOptions) (count : Nat) (m : TcpBackpressureMonitor) :
    Prop where
  options : m.options = o
  overHighPolls : m.overHighPolls.toNat = min count 0xffffffff
  reported : m.reported = decide (o.trigger ≤ count)

theorem counted_reset (m : TcpBackpressureMonitor) : Counted m.options 0 m.reset where
  options := rfl
  overHighPolls := rfl
  reported := by
    have hpos : 0 < m.options.trigger := Nat.lt_of_lt_of_le Nat.one_pos (Nat.le_max_left ..)
    exact (decide_eq_false (Nat.not_le.mpr hpos)).symm

theorem trigger_le (o : TcpBackpressureOptions) : o.trigger ≤ 0xffffffff :=
  Nat.max_le.mpr ⟨by decide, Nat.le_of_lt_succ o.maxOverHighPolls.toNat_lt⟩

section

variable {o : TcpBackpressureOptions} {count : Nat} {m : TcpBackpressureMonitor}

/-- The saturated count reaches the limit when the count does. -/
theorem due_eq (hoptions : m.options = o)
    (hpolls : m.overHighPolls.toNat = min count 0xffffffff) :
    m.due = (decide (o.trigger ≤ count) && !m.reported) := by
  have htrigger : (if m.options.maxOverHighPolls = 0 then 1 else m.options.maxOverHighPolls).toNat
      = o.trigger := by
    rw [hoptions, trigger]
    split
    · rename_i hzero
      rw [hzero]
      rfl
    · rename_i hzero
      have hpos : o.maxOverHighPolls.toNat ≠ 0 := fun heq => hzero (UInt32.toNat_inj.mp heq)
      omega
  have hle := trigger_le o
  unfold due
  dsimp only
  congr 1
  rw [decide_eq_decide, ge_iff_le, UInt32.le_iff_toNat_le, htrigger, hpolls]
  omega

theorem check_idle {a : ConnectionAnswers} (h : a.valid = false) :
    m.check a = ((false, m.fillInfo a), m) := by
  rw [check, h, Bool.not_false, Bool.or_true, if_pos rfl]

theorem check_valid {a : ConnectionAnswers} (h : Counted o count m) (henabled : o.enabled = true)
    (hvalid : a.valid = true) :
    m.check a = (((m.count a.outputSize).due, (m.count a.outputSize).fillInfo a),
      { m.count a.outputSize with
        reported := (m.count a.outputSize).reported || (m.count a.outputSize).due }) := by
  rw [check, h.options, henabled, hvalid]
  rfl

theorem Counted.over (h : Counted o count m) {pending : Nat} (hover : pending > o.highWaterBytes) :
    (m.count pending).options = o ∧ (m.count pending).reported = m.reported
      ∧ (m.count pending).overHighPolls.toNat = min (count + 1) 0xffffffff := by
  have hpolls := h.overHighPolls
  rw [TcpBackpressureMonitor.count, h.options, if_pos hover]
  refine ⟨rfl, rfl, ?_⟩
  dsimp only
  split
  · rename_i hlt
    have hlt' : m.overHighPolls.toNat < 0xffffffff := UInt32.lt_iff_toNat_lt.mp hlt
    rw [UInt32.toNat_add, show (1 : UInt32).toNat = 1 from rfl, Nat.mod_eq_of_lt (by omega)]
    omega
  · rename_i hfull
    have hfull' : ¬m.overHighPolls.toNat < 0xffffffff :=
      fun hlt => hfull (UInt32.lt_iff_toNat_lt.mpr hlt)
    omega

theorem Counted.low (h : Counted o count m) {pending : Nat}
    (hover : ¬pending > o.highWaterBytes) (hlow : pending ≤ o.lowWaterBytes) :
    m.count pending = m.reset := by
  rw [TcpBackpressureMonitor.count, h.options, if_neg hover, if_pos hlow, reset, h.options]

/-- Between the watermarks. -/
theorem Counted.between (h : Counted o count m) {pending : Nat}
    (hover : ¬pending > o.highWaterBytes) (hlow : ¬pending ≤ o.lowWaterBytes) :
    m.count pending = m := by
  rw [TcpBackpressureMonitor.count, h.options, if_neg hover, if_neg hlow]

/-- Without an over-high check there is nothing to report. -/
theorem Counted.not_due (h : Counted o count m) : m.due = false := by
  rw [due_eq h.options h.overHighPolls, h.reported, Bool.and_not_self]

theorem Counted.or_due (h : Counted o count m) :
    { m with reported := m.reported || m.due } = m := by
  rw [h.not_due, Bool.or_false]

/-- **The step**: the monitor keeps count, and reports when the count gets to
the trigger. -/
theorem Counted.check {past : List ConnectionAnswers}
    (h : Counted o (o.overHighSinceLow past) m) (henabled : o.enabled = true)
    (a : ConnectionAnswers) :
    Counted o (o.overHighSinceLow (past ++ [a])) (m.check a).2
      ∧ ((m.check a).1.1 = true
          ↔ o.overHigh a = true ∧ o.overHighSinceLow (past ++ [a]) = o.trigger) := by
  rw [overHighSinceLow_snoc]
  by_cases hvalid : a.valid = true
  · rw [check_valid h henabled hvalid]
    by_cases hover : a.outputSize > o.highWaterBytes
    · have hoverHigh : o.overHigh a = true := by simp [overHigh, hvalid, hover]
      have hlow : o.low a = false := by
        simp [TcpBackpressureOptions.low, Nat.not_le.mpr hover]
      obtain ⟨hoptions, hreported, hpolls⟩ := h.over hover
      have hdue := due_eq hoptions hpolls
      rw [hreported, h.reported] at hdue
      rw [hlow, hoverHigh, if_neg Bool.false_ne_true, if_pos rfl]
      refine ⟨⟨hoptions, hpolls, ?_⟩, ?_⟩
      · dsimp only
        rw [hdue, hreported, h.reported, Bool.eq_iff_iff]
        simp only [Bool.or_eq_true, Bool.and_eq_true, Bool.not_eq_true', decide_eq_true_eq,
          decide_eq_false_iff_not]
        omega
      · rw [hdue]
        simp only [Bool.and_eq_true, Bool.not_eq_true', decide_eq_true_eq,
          decide_eq_false_iff_not, true_and]
        omega
    · have hoverHigh : o.overHigh a = false := by simp [overHigh, Nat.not_lt.mp hover]
      by_cases hle : a.outputSize ≤ o.lowWaterBytes
      · have hlow : o.low a = true := by
          simp [TcpBackpressureOptions.low, hvalid, Nat.not_lt.mp hover, hle]
        have hreset : Counted o 0 m.reset := h.options ▸ counted_reset m
        rw [h.low hover hle, hlow, hoverHigh, if_pos rfl, hreset.or_due, hreset.not_due]
        exact ⟨hreset, by simp⟩
      · have hlow : o.low a = false := by simp [TcpBackpressureOptions.low, hle]
        rw [h.between hover hle, hlow, hoverHigh, if_neg Bool.false_ne_true,
          if_neg Bool.false_ne_true, h.or_due, h.not_due]
        exact ⟨h, by simp⟩
  · have hidle : a.valid = false := Bool.eq_false_iff.mpr hvalid
    have hoverHigh : o.overHigh a = false := by simp [overHigh, hidle]
    have hlow : o.low a = false := by simp [TcpBackpressureOptions.low, hidle]
    rw [check_idle hidle, hlow, hoverHigh, if_neg Bool.false_ne_true, if_neg Bool.false_ne_true]
    exact ⟨h, by simp⟩

theorem after_snoc (checks : List ConnectionAnswers) (a : ConnectionAnswers) :
    m.after (checks ++ [a]) = ((m.after checks).check a).2 := by
  simp [after]

/-- **The run.** -/
theorem counted_after (henabled : m.options.enabled = true) (checks : List ConnectionAnswers) :
    Counted m.options (m.options.overHighSinceLow checks) (m.reset.after checks) := by
  induction checks using List.reverseRecOn with
  | nil => exact counted_reset m
  | append_singleton checks a ih =>
      rw [after_snoc]
      exact (ih.check henabled a).1

end

/-- After a reset, whatever the watermarks and the sizes, a check reports exactly
if it is over-high and the over-high checks since the last low one, itself
included, are as many as the trigger. So a low check lies between any two
reports, and a size between the watermarks or a check of an invalid
connection leaves the monitor as it was. -/
theorem report_iff (m : TcpBackpressureMonitor) (henabled : m.options.enabled = true) :
    (∀ past a, ((m.reset.after past).check a).1.1 = true
        ↔ m.options.overHigh a = true
          ∧ m.options.overHighSinceLow (past ++ [a]) = m.options.trigger)
      ∧ (∀ past a between b, ((m.reset.after past).check a).1.1 = true →
          ((m.reset.after (past ++ a :: between)).check b).1.1 = true →
          ∃ c ∈ between, m.options.low c = true)
      ∧ (∀ past a, m.options.lowWaterBytes < a.outputSize →
          a.outputSize ≤ m.options.highWaterBytes →
          ((m.reset.after past).check a).1.1 = false
            ∧ ((m.reset.after past).check a).2 = m.reset.after past)
      ∧ ∀ (m' : TcpBackpressureMonitor) a, a.valid = false →
          (m'.check a).1.1 = false ∧ (m'.check a).2 = m' := by
  have hreport := fun past a => ((counted_after henabled past).check henabled a).2
  refine ⟨hreport, ?_, ?_, ?_⟩
  · intro past a between b hfirst hsecond
    obtain ⟨-, hcount⟩ := (hreport past a).mp hfirst
    obtain ⟨hover, hcount'⟩ := (hreport (past ++ a :: between) b).mp hsecond
    by_contra hnone
    have hquiet : ∀ c ∈ between, m.options.low c = false :=
      fun c hc => Bool.eq_false_iff.mpr fun hlow => hnone ⟨c, hc, hlow⟩
    -- the second check would be one more than the trigger
    have hmono := m.options.overHighSinceLow_mono (past ++ [a]) hquiet
    rw [List.append_assoc, List.singleton_append] at hmono
    have hlow : m.options.low b = false := by
      have hlt : b.outputSize > m.options.highWaterBytes := by
        simpa using (Bool.and_eq_true_iff.mp hover).2
      simp [TcpBackpressureOptions.low, Nat.not_le.mpr hlt]
    rw [overHighSinceLow_snoc, hlow, hover, if_neg Bool.false_ne_true, if_pos rfl] at hcount'
    omega
  · intro past a hlow hhigh
    have h := counted_after henabled past
    by_cases hvalid : a.valid = true
    · rw [check_valid h henabled hvalid, h.between (Nat.not_lt.mpr hhigh) (Nat.not_le.mpr hlow),
        h.or_due, h.not_due]
      exact ⟨rfl, rfl⟩
    · rw [check_idle (Bool.eq_false_iff.mpr hvalid)]
      exact ⟨rfl, rfl⟩
  · intro m' a hidle
    rw [check_idle hidle]
    exact ⟨rfl, rfl⟩

/-- A low watermark above the high one, and a connection that goes away in
between. -/
theorem report_iff_run :
    (((TcpBackpressureMonitor.reset { options := ⟨true, 10, 20, 2, true⟩ }).after
      [{ outputSize := 11 }, { valid := false }]).check { outputSize := 12 }).1.1 = true :=
  ((report_iff { options := ⟨true, 10, 20, 2, true⟩ } rfl).1 _ _).mpr (by decide)

end TcpBackpressureMonitor

end AsyncEventLoop
