import Mathlib.Data.List.Basic
import Mathlib.Data.List.TakeWhile
import AsyncEventLoop.Runs

/-!
# Writing lines to a connection

`tcp_write_line` writes the text of a line and then the newline, and says
whether all of it was accepted. A connection accepts a prefix of what it is
given; a call that is cut short leaves that prefix in the stream, and the
next line is glued to it.

The lines of the stream are those of the calls that returned true exactly if
every call was accepted whole or not at all: a stray byte in the stream is
never made good (`Stray` is kept by every call).

The overload for C strings does not look at how much of the text was accepted.
It returns true for a line cut short whenever the newline is accepted then.
-/

namespace AsyncEventLoop

open Runs

/-- `write` of an `ITcpConnection`: the number of bytes it has accepted, or -1.
Any call may change the world. -/
structure TcpWriter (W : Type) where
  write : List UInt8 → W → Int × W
  write_le : ∀ bytes world, (write bytes world).1 ≤ bytes.length

/-- `accepted` is the stream, and `written` are the lines of the calls that
returned true. -/
structure WriterState (W : Type) where
  world : W
  accepted : List UInt8 := []
  written : List (List UInt8) := []

namespace WriterState

variable {W : Type} (connection : TcpWriter W)

def write (s : WriterState W) (bytes : List UInt8) : Int × WriterState W :=
  let r := connection.write bytes s.world
  (r.1, { s with world := r.2, accepted := s.accepted ++ bytes.take r.1.toNat })

def tcpWriteNewline (s : WriterState W) : Int × WriterState W := s.write connection [10]

def tcpWriteLine (s : WriterState W) (line : List UInt8) : Bool × WriterState W :=
  let body := if line.length = 0 then (0, s) else s.write connection line
  if body.1 < 0 ∨ body.1.toNat ≠ line.length then (false, body.2)
  else
    let newline := body.2.tcpWriteNewline connection
    (decide (newline.1 = 1), newline.2)

end WriterState

/-- Calls, and what goes on between them. -/
inductive WriterCall (W : Type) where
  | tcpWriteLine (line : List UInt8)
  | outside (world : W)

namespace WriterState

variable {W : Type} (connection : TcpWriter W)

def step (s : WriterState W) : WriterCall W → Option (WriterState W)
  | .tcpWriteLine line =>
      let r := s.tcpWriteLine connection line
      some (if r.1 then { r.2 with written := r.2.written ++ [line] } else r.2)
  | .outside world => some { s with world := world }

/-- The connection takes nothing of the text, or all of it and then the newline. -/
def takesWhole (s : WriterState W) : WriterCall W → Bool
  | .tcpWriteLine line =>
      let body := connection.write line s.world
      line.isEmpty || decide (body.1 ≤ 0)
        || (decide (body.1.toNat = line.length) && decide ((connection.write [10] body.2).1 = 1))
  | .outside _ => true

/-- The stream is made of the lines that were written, each with its newline. -/
def Framed (s : WriterState W) : Prop := s.accepted.splitOn 10 = s.written ++ [[]]

/-! ## One call -/

/-- What a call comes to: whether it returned true, and whether it was accepted
whole or not at all. -/
inductive Outcome (s t : WriterState W) (line : List UInt8) : Bool → Bool → Prop where
  | written (haccepted : t.accepted = s.accepted ++ (line ++ [10])) : Outcome s t line true true
  | refused (haccepted : t.accepted = s.accepted) : Outcome s t line false true
  | cut (text : List UInt8) (hpre : text <+: line) (hne : text ≠ [])
      (haccepted : t.accepted = s.accepted ++ text) : Outcome s t line false false

theorem newline_outcome (s : WriterState W) :
    ((s.tcpWriteNewline connection).1 = 1
        ∧ (s.tcpWriteNewline connection).2.accepted = s.accepted ++ [10])
      ∨ ((s.tcpWriteNewline connection).1 ≠ 1
        ∧ (s.tcpWriteNewline connection).2.accepted = s.accepted) := by
  have hle : (connection.write [10] s.world).1 ≤ 1 := connection.write_le [10] s.world
  unfold tcpWriteNewline write
  dsimp only
  by_cases hone : (connection.write [10] s.world).1 = 1
  · exact Or.inl ⟨hone, by rw [hone]; rfl⟩
  · have hzero : (connection.write [10] s.world).1.toNat = 0 := by omega
    exact Or.inr ⟨hone, by rw [hzero, List.take_zero, List.append_nil]⟩

theorem tcpWriteLine_spec (s : WriterState W) (line : List UInt8) :
    Outcome s (s.tcpWriteLine connection line).2 line (s.tcpWriteLine connection line).1
        (s.takesWhole connection (.tcpWriteLine line))
      ∧ (s.tcpWriteLine connection line).2.written = s.written := by
  unfold tcpWriteLine takesWhole
  by_cases hempty : line.length = 0
  · obtain rfl := List.eq_nil_of_length_eq_zero hempty
    simp only [List.length_nil, if_pos, List.isEmpty_nil, Bool.true_or]
    rcases newline_outcome connection s with ⟨hone, haccepted⟩ | ⟨hother, haccepted⟩
    · rw [if_neg (by simp), decide_eq_true hone]
      exact ⟨.written haccepted, rfl⟩
    · rw [if_neg (by simp), decide_eq_false hother]
      exact ⟨.refused haccepted, rfl⟩
  · have hne : line.isEmpty = false := by
      cases line with
      | nil => exact absurd rfl hempty
      | cons _ _ => rfl
    have hle := connection.write_le line s.world
    simp only [if_neg hempty, hne, Bool.false_or, write]
    generalize hr : connection.write line s.world = r at hle ⊢
    obtain ⟨count, world⟩ := r
    dsimp only at hle ⊢
    by_cases hcut : count < 0 ∨ count.toNat ≠ line.length
    · rw [if_pos hcut]
      refine ⟨?_, rfl⟩
      by_cases hnothing : count ≤ 0
      · have hzero : count.toNat = 0 := by omega
        rw [decide_eq_true hnothing, Bool.true_or]
        exact .refused (by simp [hzero])
      · have hnot : count.toNat ≠ line.length := by omega
        rw [decide_eq_false hnothing, decide_eq_false hnot, Bool.false_and, Bool.or_false]
        refine .cut (line.take count.toNat) (List.take_prefix _ _) ?_ rfl
        intro hnil
        have hlength := congrArg List.length hnil
        rw [List.length_take, List.length_nil] at hlength
        omega
    · rw [if_neg hcut]
      have hall : count.toNat = line.length := by omega
      have hsome : ¬count ≤ 0 := by omega
      refine ⟨?_, rfl⟩
      rw [decide_eq_false hsome, decide_eq_true hall, Bool.false_or, Bool.true_and, hall,
        List.take_length]
      have hafter := newline_outcome connection
        { s with world := world, accepted := s.accepted ++ line }
      rcases hafter with ⟨hone, haccepted⟩ | ⟨hother, haccepted⟩
      · have hwrite : (connection.write [10] world).1 = 1 := hone
        rw [decide_eq_true hone, decide_eq_true hwrite]
        exact .written (by rw [haccepted, List.append_assoc])
      · have hwrite : (connection.write [10] world).1 ≠ 1 := hother
        rw [decide_eq_false hother, decide_eq_false hwrite]
        exact .cut line (List.prefix_refl line) (fun hnil => by simp [hnil] at hempty) haccepted

/-! ## Streams -/

theorem flatten_splitOn (bytes : List UInt8) :
    (bytes.splitOn 10).flatten = bytes.filter (· ≠ 10) := by
  induction bytes with
  | nil => rfl
  | cons b bytes ih =>
      rw [List.splitOn_cons_eq_if_modifyHead]
      by_cases hb : b = 10
      · rw [if_pos (beq_iff_eq.mpr hb), List.flatten_cons, List.nil_append, ih,
          List.filter_cons_of_neg (by simpa using hb)]
      · rw [if_neg (fun h => hb (beq_iff_eq.mp h)), List.filter_cons_of_pos (by simpa using hb),
          ← ih]
        cases hsplit : bytes.splitOn 10 with
        | nil => exact absurd hsplit (List.splitOn_ne_nil 10 bytes)
        | cons first rest => rfl

theorem filter_text {line : List UInt8} (h : 10 ∉ line) : line.filter (· ≠ 10) = line :=
  List.filter_eq_self.mpr fun b hb => by
    rw [decide_eq_true_eq]
    rintro rfl
    exact h hb

/-- The lines that were written, each with its newline. -/
def framing (lines : List (List UInt8)) : List UInt8 := (lines.map (· ++ [10])).flatten

theorem splitOn_framing {lines : List (List UInt8)} (h : ∀ line ∈ lines, 10 ∉ line) :
    (framing lines).splitOn 10 = lines ++ [[]] := by
  induction lines with
  | nil => rfl
  | cons line lines ih =>
      obtain ⟨hline, hrest⟩ := List.forall_mem_cons.mp h
      have hcons : framing (line :: lines) = line ++ 10 :: framing lines := by
        simp [framing]
      rw [hcons, List.splitOn_append_cons_self, List.splitOn_eq_singleton hline, ih hrest]
      rfl

/-! ## Runs -/

/-- Nothing but whole lines has been accepted. -/
structure Whole (s : WriterState W) : Prop where
  lines : ∀ line ∈ s.written, 10 ∉ line
  accepted : s.accepted = framing s.written

/-- There is text in the stream that is of none of the lines written. -/
def Stray (s : WriterState W) : Prop :=
  s.written.flatten.length < (s.accepted.filter (· ≠ 10)).length

theorem Whole.framed {s : WriterState W} (h : Whole s) : Framed s := by
  rw [Framed, h.accepted]
  exact splitOn_framing h.lines

theorem Stray.not_framed {s : WriterState W} (h : Stray s) : ¬Framed s := by
  intro hframed
  have htext := flatten_splitOn s.accepted
  rw [hframed, List.flatten_append, List.flatten_singleton, List.append_nil] at htext
  rw [Stray, htext] at h
  exact absurd h (Nat.lt_irrefl _)

/-- The call is of a line without a newline in it. -/
def WellFormed : WriterCall W → Prop
  | .tcpWriteLine line => 10 ∉ line
  | .outside _ => True

theorem step_whole {s t : WriterState W} {call : WriterCall W} (h : Whole s)
    (hcall : WellFormed call) (hstep : s.step connection call = some t) :
    (s.takesWhole connection call = true ∧ Whole t)
      ∨ (s.takesWhole connection call = false ∧ Stray t) := by
  cases call with
  | outside world =>
      obtain rfl := Option.some.inj hstep
      exact Or.inl ⟨rfl, h.lines, h.accepted⟩
  | tcpWriteLine line =>
      obtain ⟨houtcome, hwritten⟩ := tcpWriteLine_spec connection s line
      simp only [step] at hstep
      generalize s.tcpWriteLine connection line = r at houtcome hwritten hstep
      generalize s.takesWhole connection (.tcpWriteLine line) = whole at houtcome ⊢
      obtain ⟨returned, u⟩ := r
      dsimp only at houtcome hwritten hstep
      obtain rfl := Option.some.inj hstep
      cases houtcome with
      | written haccepted =>
          refine Or.inl ⟨rfl, ?_, ?_⟩
          · simp only [if_pos, hwritten]
            exact List.forall_mem_append.mpr ⟨h.lines, List.forall_mem_singleton.mpr hcall⟩
          · simp [haccepted, hwritten, h.accepted, framing]
      | refused haccepted =>
          refine Or.inl ⟨rfl, ?_, ?_⟩
          · exact hwritten ▸ h.lines
          · exact haccepted.trans (h.accepted.trans (congrArg framing hwritten.symm))
      | cut text hpre hne haccepted =>
          refine Or.inr ⟨rfl, ?_⟩
          have htext : 10 ∉ text := fun hmem => hcall (hpre.subset hmem)
          have hbefore : (s.accepted.filter (· ≠ 10)) = s.written.flatten := by
            rw [← flatten_splitOn, h.framed, List.flatten_append, List.flatten_singleton,
              List.append_nil]
          change u.written.flatten.length < (u.accepted.filter (· ≠ 10)).length
          rw [hwritten, haccepted, List.filter_append, hbefore, filter_text htext,
            List.length_append]
          exact Nat.lt_add_of_pos_right (List.length_pos_iff.mpr hne)

/-- What is stray stays in the stream. -/
theorem step_stray {s t : WriterState W} {call : WriterCall W} (h : Stray s)
    (hcall : WellFormed call) (hstep : s.step connection call = some t) : Stray t := by
  cases call with
  | outside world =>
      obtain rfl := Option.some.inj hstep
      exact h
  | tcpWriteLine line =>
      obtain ⟨houtcome, hwritten⟩ := tcpWriteLine_spec connection s line
      simp only [step] at hstep
      generalize s.tcpWriteLine connection line = r at houtcome hwritten hstep
      generalize s.takesWhole connection (.tcpWriteLine line) = whole at houtcome
      obtain ⟨returned, u⟩ := r
      dsimp only at houtcome hwritten hstep
      obtain rfl := Option.some.inj hstep
      unfold Stray at h ⊢
      cases houtcome with
      | written haccepted =>
          simp only [if_pos, hwritten, haccepted, List.filter_append, filter_text hcall,
            List.flatten_append, List.flatten_singleton, List.length_append]
          omega
      | refused haccepted =>
          change u.written.flatten.length < (u.accepted.filter (· ≠ 10)).length
          rw [hwritten, haccepted]
          exact h
      | cut text hpre hne haccepted =>
          change u.written.flatten.length < (u.accepted.filter (· ≠ 10)).length
          rw [hwritten, haccepted, List.filter_append, List.length_append]
          omega

theorem run_whole {s t : WriterState W} {calls : List (WriterCall W)} (h : Whole s)
    (hcalls : ∀ call ∈ calls, WellFormed call)
    (hrun : run (step connection) s calls = some t) :
    Framed t ↔ run (restrict (takesWhole connection) (step connection)) s calls = some t := by
  have hsound : ∀ s call t, Whole s → WellFormed call → step connection s call = some t →
      (takesWhole connection s call = true ∧ Whole t)
        ∨ (takesWhole connection s call = false ∧ Stray t) :=
    fun _ _ _ => step_whole connection
  have hspoiled : ∀ s call t, Stray s → WellFormed call → step connection s call = some t →
      Stray t := fun _ _ _ => step_stray connection
  exact run_blame_events hsound hspoiled (fun _ h => h.framed) (fun _ h => h.not_framed) h
    hcalls hrun

/-- **Lines are framed exactly if no call is cut short**: behind any sequence of
calls with lines free of newlines, the lines of the stream are those of the
calls that returned true, with nothing behind them, if and only if every call
was accepted whole or not at all. -/
theorem lines_framed_iff (world : W) {calls : List (WriterCall W)}
    (hcalls : ∀ call ∈ calls, WellFormed call) :
    ∃ s, run (step connection) { world := world } calls = some s
      ∧ (Framed s ↔ run (restrict (takesWhole connection) (step connection))
        { world := world } calls = some s) := by
  have hstep : ∀ (s : WriterState W) (call : WriterCall W), True →
      ∃ t, s.step connection call = some t ∧ True := fun s call _ => by
    cases call <;> exact ⟨_, rfl, trivial⟩
  obtain ⟨s, hrun, -⟩ := run_total hstep trivial calls
  have hwhole : Whole ({ world := world } : WriterState W) := ⟨List.forall_mem_nil _, rfl⟩
  exact ⟨s, hrun, run_whole connection hwhole hcalls hrun⟩

/-- A connection with room for so many bytes. -/
def bounded : TcpWriter Nat where
  write bytes room := (min bytes.length room, room - bytes.length)
  write_le bytes room := by
    dsimp only
    omega

/-- A line that is accepted whole, and one for which there is no room at all. -/
theorem lines_framed_iff_run : ∃ s,
    run (step bounded) { world := 3 } [.tcpWriteLine [97, 98], .tcpWriteLine [99]] = some s
      ∧ s.written = [[97, 98]] ∧ Framed s := by
  have hcalls : ∀ call ∈ [WriterCall.tcpWriteLine [97, 98], .tcpWriteLine [99]],
      WellFormed (W := Nat) call := by
    simp [WellFormed]
  obtain ⟨s, hrun, hiff⟩ := lines_framed_iff bounded 3 hcalls
  refine ⟨s, hrun, ?_, hiff.mpr ?_⟩ <;> obtain rfl := Option.some.inj hrun <;> rfl

/-- A line is cut short, and what was accepted of it is glued to the next. -/
theorem cut_line_merges : ∃ s,
    run (step bounded) { world := 1 }
        [.tcpWriteLine [97, 98], .outside 8, .tcpWriteLine [99]] = some s
      ∧ s.written = [[99]] ∧ s.accepted.splitOn 10 = [[97, 99], []] ∧ ¬Framed s := by
  refine ⟨_, rfl, rfl, rfl, ?_⟩
  intro h
  have hsplit : [[97, 99], []] = [[99], ([] : List UInt8)] := h
  simp at hsplit

/-! ## The overload for C strings -/

/-- `tcp_write_text`, of the characters up to the first NUL. -/
def tcpWriteText (s : WriterState W) : Option (List UInt8) → Int × WriterState W
  | none => (0, s)
  | some text => s.write connection (text.takeWhile (· ≠ 0))

/-- `tcp_write_line` of a C string. -/
def tcpWriteLineText (s : WriterState W) (text : Option (List UInt8)) : Bool × WriterState W :=
  let body := s.tcpWriteText connection text
  if body.1 < 0 then (false, body.2)
  else
    let newline := body.2.tcpWriteNewline connection
    (decide (newline.1 = 1), newline.2)

/-- The connection takes a part of the text, and then the newline. -/
def cutAndGoesOn (s : WriterState W) (text : List UInt8) : Bool :=
  let body := connection.write text s.world
  decide (0 ≤ body.1) && decide (body.1.toNat < text.length)
    && decide ((connection.write [10] body.2).1 = 1)

/-- The line was accepted with its newline. -/
def TakenWhole (s t : WriterState W) (line : List UInt8) : Prop :=
  t.accepted = s.accepted ++ (line ++ [10])

theorem tcpWriteText_some (s : WriterState W) {text : List UInt8} (hnul : 0 ∉ text) :
    s.tcpWriteText connection (some text) = s.write connection text := by
  have hall : text.takeWhile (· ≠ 0) = text := by
    refine List.takeWhile_eq_self_iff.mpr ?_
    intro b hb
    rw [decide_eq_true_eq]
    rintro rfl
    exact hnul hb
  exact congrArg (s.write connection) hall

/-- What the overload for C strings comes to. -/
theorem tcpWriteLineText_spec (s : WriterState W) {text : List UInt8} (hnul : 0 ∉ text) :
    ((s.tcpWriteLineText connection (some text)).1 = true
        ↔ 0 ≤ (connection.write text s.world).1
          ∧ (connection.write [10] (connection.write text s.world).2).1 = 1)
      ∧ ((s.tcpWriteLineText connection (some text)).1 = true →
        (s.tcpWriteLineText connection (some text)).2.accepted
          = s.accepted ++ (text.take (connection.write text s.world).1.toNat ++ [10])) := by
  unfold tcpWriteLineText
  rw [tcpWriteText_some connection s hnul]
  dsimp only
  have hbody : (s.write connection text).1 = (connection.write text s.world).1 := rfl
  rw [← hbody]
  by_cases hneg : (s.write connection text).1 < 0
  · rw [if_pos hneg]
    simp [Int.not_le.mpr hneg]
  · have hpos : 0 ≤ (s.write connection text).1 := Int.not_lt.mp hneg
    rw [if_neg hneg]
    simp only [decide_eq_true_eq]
    refine ⟨⟨fun hone => ⟨hpos, hone⟩, And.right⟩, ?_⟩
    intro hone
    have hnewline : (connection.write [10] (connection.write text s.world).2).1 = 1 := hone
    simp only [tcpWriteNewline, write, hnewline, List.append_assoc]
    rfl

/-- What the overload for lines comes to. -/
theorem tcpWriteLine_true (s : WriterState W) (text : List UInt8) :
    (s.tcpWriteLine connection text).1 = true
      ↔ if text = [] then (connection.write [10] s.world).1 = 1
        else (connection.write text s.world).1 = text.length
          ∧ (connection.write [10] (connection.write text s.world).2).1 = 1 := by
  unfold tcpWriteLine
  by_cases hempty : text = []
  · subst hempty
    simp [tcpWriteNewline, write]
  · have hlength : text.length ≠ 0 := fun h => hempty (List.eq_nil_of_length_eq_zero h)
    simp only [if_neg hempty, if_neg hlength, write, tcpWriteNewline]
    generalize connection.write text s.world = body
    by_cases hcut : body.1 < 0 ∨ body.1.toNat ≠ text.length
    · rw [if_pos hcut]
      constructor
      · exact fun h => by cases h
      · rintro ⟨hall, -⟩
        omega
    · rw [if_neg hcut]
      have hall : body.1 = text.length := by omega
      simp [hall]

/-- All of a text whose line is reported has been accepted, unless it was cut. -/
theorem cutAndGoesOn_eq_false (s : WriterState W) {text : List UInt8} (hnul : 0 ∉ text) :
    s.cutAndGoesOn connection text = false
      ↔ ((s.tcpWriteLineText connection (some text)).1 = true →
        (connection.write text s.world).1.toNat = text.length) := by
  have hle := connection.write_le text s.world
  rw [(tcpWriteLineText_spec connection s hnul).1, Bool.eq_false_iff]
  simp only [cutAndGoesOn, ne_eq, Bool.and_eq_true, decide_eq_true_eq]
  generalize connection.write text s.world = body at hle
  constructor
  · rintro hnot ⟨hpos, hone⟩
    by_contra hne
    exact hnot ⟨⟨hpos, by omega⟩, hone⟩
  · rintro hall ⟨⟨hpos, hlt⟩, hone⟩
    exact absurd (hall ⟨hpos, hone⟩) (Nat.ne_of_lt hlt)

theorem tcpWriteLine_taken (s : WriterState W) {text : List UInt8}
    (hok : (s.tcpWriteLine connection text).1 = true) :
    TakenWhole s (s.tcpWriteLine connection text).2 text := by
  obtain ⟨houtcome, -⟩ := tcpWriteLine_spec connection s text
  rw [hok] at houtcome
  generalize s.takesWhole connection (.tcpWriteLine text) = whole at houtcome
  cases houtcome with
  | written haccepted => exact haccepted

/-- **The two overloads agree exactly if no cut text is followed by a newline**: the one
for C strings returns true only for a line that was accepted whole, if and only if
the connection does not take a part of the text and then the newline; the one for
lines never does anything else; and the two return the same if and only if that
holds, on a connection that does nothing when it is given nothing. -/
theorem text_overload_agrees_iff (s : WriterState W) {text : List UInt8} (hnul : 0 ∉ text) :
    (((s.tcpWriteLineText connection (some text)).1 = true →
          TakenWhole s (s.tcpWriteLineText connection (some text)).2 text)
        ↔ s.cutAndGoesOn connection text = false)
      ∧ ((s.tcpWriteLine connection text).1 = true →
        TakenWhole s (s.tcpWriteLine connection text).2 text)
      ∧ (text ≠ [] ∨ connection.write [] s.world = (0, s.world) →
        ((s.tcpWriteLineText connection (some text)).1 = (s.tcpWriteLine connection text).1
          ↔ s.cutAndGoesOn connection text = false)) := by
  obtain ⟨htrue, haccepted⟩ := tcpWriteLineText_spec connection s hnul
  have hle := connection.write_le text s.world
  have hcut := cutAndGoesOn_eq_false connection s hnul
  refine ⟨?_, tcpWriteLine_taken connection s, ?_⟩
  · rw [hcut]
    refine forall_congr' ?_
    intro hok
    rw [TakenWhole, haccepted hok, List.append_cancel_left_eq, List.append_cancel_right_eq]
    constructor
    · intro heq
      have hlength := congrArg List.length heq
      rw [List.length_take] at hlength
      omega
    · exact fun heq => by rw [heq, List.take_length]
  · intro hnothing
    rw [hcut, Bool.eq_iff_iff, tcpWriteLine_true, htrue]
    by_cases hempty : text = []
    · subst hempty
      have hnone : connection.write [] s.world = (0, s.world) :=
        hnothing.resolve_left fun h => h rfl
      simp [hnone]
    · rw [if_neg hempty]
      constructor
      · rintro heq hok
        rw [(heq.mp hok).1]
        rfl
      · intro hall
        constructor
        · intro hok
          have hlength := hall hok
          exact ⟨by omega, hok.2⟩
        · rintro ⟨hlength, hone⟩
          exact ⟨by omega, hone⟩

/-- A connection that takes so many bytes at each call. -/
def draining : TcpWriter (List Nat) where
  write bytes rooms := (min bytes.length (rooms.headD 0), rooms.tail)
  write_le bytes rooms := by
    dsimp only
    omega

/-- There is room for all of the text, and for the newline. -/
theorem text_overload_agrees_whole :
    TakenWhole (W := List Nat) { world := [2, 1] }
      (tcpWriteLineText draining { world := [2, 1] } (some [97, 98])).2 [97, 98] :=
  (text_overload_agrees_iff draining { world := [2, 1] } (by decide)).1.mpr rfl rfl

/-- There is room for one byte at each call: the line is cut, and reported as written. -/
theorem cut_text_reported :
    (tcpWriteLineText draining { world := [1, 1] } (some [97, 98])).1 = true
      ∧ ¬TakenWhole { world := [1, 1] }
        (tcpWriteLineText draining { world := [1, 1] } (some [97, 98])).2 [97, 98]
      ∧ (tcpWriteLine draining { world := [1, 1] } [97, 98]).1 = false := by
  refine ⟨rfl, ?_, rfl⟩
  intro hwhole
  have hstream : ([97, 10] : List UInt8) = [97, 98, 10] := hwhole
  simp at hstream

end WriterState

end AsyncEventLoop
