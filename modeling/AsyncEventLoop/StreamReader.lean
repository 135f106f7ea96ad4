import Mathlib.Data.List.Infix

/-!
# Readers of a stream

A reader takes the symbols of a stream one at a time, and each of them may
make it emit messages. What it emits of a stream does not depend on how the
symbols arrive (`feedAll_eq`), and what it has emitted of the part that has
arrived is a prefix of what it emits of the whole (`feed_mono`).

A `Codec` is a reader and the encoding it undoes: at a boundary, the symbols
of one message lead to a boundary again, and make the reader emit what that
message stands for. The rules carry this over to a stream of messages and to
the part of one that has arrived.
-/

namespace StreamReader

variable {σ α ω μ : Type*} {next : σ → α → σ × List ω}

/-- The reader behind some symbols, and what they made it emit. -/
def feed (next : σ → α → σ × List ω) : σ → List α → σ × List ω
  | s, [] => (s, [])
  | s, a :: as =>
      let r := next s a
      let rest := feed next r.1 as
      (rest.1, r.2 ++ rest.2)

/-- One arrival after another. -/
def feedAll (next : σ → α → σ × List ω) : σ → List (List α) → σ × List ω
  | s, [] => (s, [])
  | s, arrival :: arrivals =>
      let r := feed next s arrival
      let rest := feedAll next r.1 arrivals
      (rest.1, r.2 ++ rest.2)

theorem feed_append (s : σ) (xs ys : List α) :
    feed next s (xs ++ ys)
      = ((feed next (feed next s xs).1 ys).1,
        (feed next s xs).2 ++ (feed next (feed next s xs).1 ys).2) := by
  induction xs generalizing s with
  | nil => rfl
  | cons x xs ih => simp only [List.cons_append, feed, ih, List.append_assoc]

theorem feed_snoc (s : σ) (xs : List α) (x : α) :
    feed next s (xs ++ [x])
      = ((next (feed next s xs).1 x).1, (feed next s xs).2 ++ (next (feed next s xs).1 x).2) := by
  rw [feed_append]
  simp [feed]

/-- How the symbols are cut into arrivals makes no difference. -/
theorem feedAll_eq (s : σ) (arrivals : List (List α)) :
    feedAll next s arrivals = feed next s arrivals.flatten := by
  induction arrivals generalizing s with
  | nil => rfl
  | cons arrival arrivals ih => rw [feedAll, List.flatten_cons, feed_append, ih]

theorem feed_mono (s : σ) {xs ys : List α} (h : xs <+: ys) :
    (feed next s xs).2 <+: (feed next s ys).2 := by
  obtain ⟨rest, rfl⟩ := h
  rw [feed_append]
  exact List.prefix_append _ _

/-! ## Encodings -/

/-- The messages that are `Valid` are encoded by `encode`; a reader at a
`Boundary` emits `emitted m` of the encoding of `m`, and is at a boundary. -/
structure Codec (next : σ → α → σ × List ω) (Boundary : σ → Prop) (Valid : μ → Prop)
    (encode : μ → List α) (emitted : μ → List ω) : Prop where
  boundary : ∀ s m, Boundary s → Valid m → Boundary (feed next s (encode m)).1
  message : ∀ s m, Boundary s → Valid m → (feed next s (encode m)).2 = emitted m

variable {Boundary : σ → Prop} {Valid : μ → Prop} {encode : μ → List α} {emitted : μ → List ω}
  {s : σ} {ms : List μ}

theorem Codec.messages (h : Codec next Boundary Valid encode emitted) (hs : Boundary s)
    (hms : ∀ m ∈ ms, Valid m) :
    Boundary (feed next s (ms.flatMap encode)).1
      ∧ (feed next s (ms.flatMap encode)).2 = ms.flatMap emitted := by
  induction ms generalizing s with
  | nil => exact ⟨hs, rfl⟩
  | cons m ms ih =>
      obtain ⟨hm, hms⟩ := List.forall_mem_cons.mp hms
      obtain ⟨hboundary, hrest⟩ := ih (h.boundary s m hs hm) hms
      rw [List.flatMap_cons, List.flatMap_cons, feed_append, hrest, h.message s m hs hm]
      exact ⟨hboundary, rfl⟩

/-- Of a part of the stream, a part of the messages. -/
theorem Codec.arrived (h : Codec next Boundary Valid encode emitted) (hs : Boundary s)
    (hms : ∀ m ∈ ms, Valid m) {xs : List α} (hxs : xs <+: ms.flatMap encode) :
    (feed next s xs).2 <+: ms.flatMap emitted := by
  rw [← (h.messages hs hms).2]
  exact feed_mono s hxs

/-- However the stream arrives, and however much of it has. -/
theorem Codec.arrivals (h : Codec next Boundary Valid encode emitted) (hs : Boundary s)
    (hms : ∀ m ∈ ms, Valid m) {arrivals : List (List α)}
    (harrivals : arrivals.flatten <+: ms.flatMap encode) :
    (feedAll next s arrivals).2 <+: ms.flatMap emitted
      ∧ (arrivals.flatten = ms.flatMap encode →
        (feedAll next s arrivals).2 = ms.flatMap emitted) := by
  rw [feedAll_eq]
  refine ⟨h.arrived hs hms harrivals, fun hall => ?_⟩
  rw [hall, (h.messages hs hms).2]

end StreamReader
