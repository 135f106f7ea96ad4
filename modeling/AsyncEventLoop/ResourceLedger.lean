import Mathlib.Data.Finset.Basic
import Mathlib.Logic.Function.Basic

/-!
# Ledgers of resources

Resources are acquired, used and released under a name that may come back once it was
released, as the numbers of file descriptors do. `held` is what is held behind a
ledger, the newest entry first: `none` if a resource was released, or used, that was
not held then, or acquired while it was.

Whoever holds resources keeps their names in cells. `cell` is what the entries about
one cell make of its content, and `Keeps` says that a piece of a ledger, each entry with
its cell, takes all cells from one content to another. If whoever hands out the resources
gives out only names that are not held (`Grants`), the cells and the ledger go on agreeing
(`Books.post`): what is held is in one cell, and in one cell only. Nothing here knows what
the resources are.
-/

namespace ResourceLedger

variable {ρ ι : Type*}

inductive Entry (ρ : Type*) where
  | acquired (r : ρ)
  | used (r : ρ)
  | released (r : ρ)
  deriving DecidableEq

def Entry.name : Entry ρ → ρ
  | .acquired r | .used r | .released r => r

section Held

variable [DecidableEq ρ]

/-- What is held behind the ledger, the newest entry first. -/
def held : List (Entry ρ) → Option (Finset ρ)
  | [] => some ∅
  | .acquired r :: log => (held log).bind fun s => if r ∈ s then none else some (insert r s)
  | .used r :: log => (held log).bind fun s => if r ∈ s then some s else none
  | .released r :: log => (held log).bind fun s => if r ∈ s then some (s.erase r) else none

variable {log es : List (Entry ρ)} {s : Finset ρ} {r : ρ}

theorem held_acquired (h : held log = some s) (hr : r ∉ s) :
    held (.acquired r :: log) = some (insert r s) := by
  rw [held, h, Option.bind_some, if_neg hr]

theorem held_used (h : held log = some s) (hr : r ∈ s) : held (.used r :: log) = some s := by
  rw [held, h, Option.bind_some, if_pos hr]

theorem held_released (h : held log = some s) (hr : r ∈ s) :
    held (.released r :: log) = some (s.erase r) := by
  rw [held, h, Option.bind_some, if_pos hr]

/-- A ledger that balances has balanced at every earlier time. -/
theorem held_of_append (h : held (es ++ log) = some s) : ∃ s', held log = some s' := by
  induction es generalizing s with
  | nil => exact ⟨s, h⟩
  | cons e es ih =>
      have hrest : ∃ s', held (es ++ log) = some s' := by
        cases e <;>
          exact (Option.bind_eq_some_iff.mp h).imp fun _ hs => hs.1
      obtain ⟨s', hs'⟩ := hrest
      exact ih hs'

/-- What is used, or released, was held then. -/
theorem held_before {e : Entry ρ} (he : e = .used r ∨ e = .released r)
    (h : held (es ++ e :: log) = some s) : ∃ s', held log = some s' ∧ r ∈ s' := by
  obtain ⟨after, hafter⟩ := held_of_append h
  rcases he with rfl | rfl <;>
    · obtain ⟨s', hs', hsome⟩ := Option.bind_eq_some_iff.mp hafter
      refine ⟨s', hs', ?_⟩
      by_contra hnot
      rw [if_neg hnot] at hsome
      cases hsome

/-- **No leak and no double release**: every acquisition has its release, but for the
resources that are held. -/
theorem count_acquired (h : held log = some s) (r : ρ) :
    log.count (.acquired r) = log.count (.released r) + if r ∈ s then 1 else 0 := by
  induction log generalizing s with
  | nil =>
      obtain rfl := Option.some.inj h
      simp
  | cons e log ih =>
      cases e with
      | acquired q =>
          obtain ⟨s', hs', hsome⟩ := Option.bind_eq_some_iff.mp h
          have hcount := ih hs'
          split at hsome
          · cases hsome
          · rename_i hnew
            obtain rfl := Option.some.inj hsome
            by_cases hqr : q = r
            · subst hqr
              simp [hnew] at hcount ⊢
              omega
            · have hrq : ¬ r = q := fun heq => hqr heq.symm
              simp [hqr, hrq] at hcount ⊢
              exact hcount
      | used q =>
          obtain ⟨s', hs', hsome⟩ := Option.bind_eq_some_iff.mp h
          have hcount := ih hs'
          split at hsome
          · obtain rfl := Option.some.inj hsome
            simp at hcount ⊢
            exact hcount
          · cases hsome
      | released q =>
          obtain ⟨s', hs', hsome⟩ := Option.bind_eq_some_iff.mp h
          have hcount := ih hs'
          split at hsome
          · rename_i hheld
            obtain rfl := Option.some.inj hsome
            by_cases hqr : q = r
            · subst hqr
              simp [hheld] at hcount ⊢
              omega
            · have hrq : ¬ r = q := fun heq => hqr heq.symm
              simp [hqr, hrq] at hcount ⊢
              exact hcount
          · cases hsome

end Held

/-! ## Cells -/

section Cells

variable [DecidableEq ι]

/-- The entries that are about a cell. -/
def entriesOf (i : ι) (es : List (ι × Entry ρ)) : List (Entry ρ) :=
  (es.filter (·.1 = i)).map Prod.snd

theorem entriesOf_cons_self (i : ι) (e : Entry ρ) (es : List (ι × Entry ρ)) :
    entriesOf i ((i, e) :: es) = e :: entriesOf i es := by
  simp [entriesOf]

theorem entriesOf_cons_of_ne {i j : ι} (h : j ≠ i) (e : Entry ρ) (es : List (ι × Entry ρ)) :
    entriesOf i ((j, e) :: es) = entriesOf i es := by
  simp [entriesOf, h]

variable [DecidableEq ρ]

/-- What an entry makes of the cell it is about. -/
def Entry.apply : Entry ρ → Option ρ → Option (Option ρ)
  | .acquired r, none => some (some r)
  | .used r, some q => if r = q then some (some q) else none
  | .released r, some q => if r = q then some none else none
  | _, _ => none

/-- What the entries, the newest first, make of the one cell they are about. -/
def cell (x : Option ρ) : List (Entry ρ) → Option (Option ρ)
  | [] => some x
  | e :: es => (cell x es).bind e.apply

theorem cell_append (x : Option ρ) (es' es : List (Entry ρ)) :
    cell x (es' ++ es) = (cell x es).bind fun y => cell y es' := by
  induction es' with
  | nil => exact (Option.bind_fun_some _).symm
  | cons e es' ih =>
      rw [List.cons_append, cell, ih, Option.bind_assoc]
      rfl

/-- The newest entries `es` take the cells from `c` to `d`. -/
def Keeps (c : ι → Option ρ) (es : List (ι × Entry ρ)) (d : ι → Option ρ) : Prop :=
  ∀ i, cell (c i) (entriesOf i es) = some (d i)

/-- Entries about one cell change that one only. -/
theorem keeps_of_cell {c : ι → Option ρ} {i : ι} {es : List (Entry ρ)} {y : Option ρ}
    (h : cell (c i) es = some y) : Keeps c (es.map (Prod.mk i)) (Function.update c i y) := by
  intro j
  by_cases hji : j = i
  · subst hji
    have hall : entriesOf j (es.map (Prod.mk j)) = es := by
      simp [entriesOf, List.filter_map, Function.comp_def]
    rw [hall, h, Function.update_self]
  · have hnone : entriesOf j (es.map (Prod.mk i)) = [] := by
      simp [entriesOf, Ne.symm hji]
    rw [hnone, Function.update_of_ne hji]
    rfl

/-- The names handed out in `es` were not held then. -/
def Grants (log : List (Entry ρ)) : List (Entry ρ) → Bool
  | [] => true
  | .acquired r :: es => Grants log es && decide (∀ s ∈ held (es ++ log), r ∉ s)
  | _ :: es => Grants log es

end Cells

section Books

variable [DecidableEq ρ]

/-- What is held is in one cell, and in one cell only. -/
structure Books (log : List (Entry ρ)) (c : ι → Option ρ) : Prop where
  held : ∃ s, held log = some s ∧ ∀ r, r ∈ s ↔ ∃ i, c i = some r
  once : ∀ i j r, c i = some r → c j = some r → i = j

theorem books_nil : Books ([] : List (Entry ρ)) fun _ : ι => none :=
  ⟨⟨∅, rfl, by simp⟩, fun i j r h _ => by cases h⟩

variable [DecidableEq ι] {c d : ι → Option ρ} {i : ι} {y : Option ρ}

theorem Books.acquire (h : Books log c) (hfree : c i = none)
    (hnew : ∀ s ∈ ResourceLedger.held log, r ∉ s) :
    Books (.acquired r :: log) (Function.update c i (some r)) := by
  obtain ⟨⟨s, hs, hmem⟩, honce⟩ := h
  have hr : r ∉ s := hnew s hs
  have hnone (j : ι) : c j ≠ some r := fun hj => hr ((hmem r).mpr ⟨j, hj⟩)
  refine ⟨⟨insert r s, held_acquired hs hr, fun q => ?_⟩, fun j k q hj hk => ?_⟩
  · rw [Finset.mem_insert, hmem]
    constructor
    · rintro (rfl | ⟨j, hj⟩)
      · exact ⟨i, Function.update_self ..⟩
      · have hji : j ≠ i := by
          rintro rfl
          rw [hfree] at hj
          cases hj
        exact ⟨j, (Function.update_of_ne hji ..).trans hj⟩
    · rintro ⟨j, hj⟩
      by_cases hji : j = i
      · subst hji
        rw [Function.update_self] at hj
        exact .inl (Option.some.inj hj).symm
      · rw [Function.update_of_ne hji] at hj
        exact .inr ⟨j, hj⟩
  · by_cases hji : j = i <;> by_cases hki : k = i
    · rw [hji, hki]
    · rw [hji, Function.update_self] at hj
      rw [Function.update_of_ne hki] at hk
      exact absurd ((Option.some.inj hj) ▸ hk) (hnone k)
    · rw [hki, Function.update_self] at hk
      rw [Function.update_of_ne hji] at hj
      exact absurd ((Option.some.inj hk) ▸ hj) (hnone j)
    · rw [Function.update_of_ne hji] at hj
      rw [Function.update_of_ne hki] at hk
      exact honce j k q hj hk

omit [DecidableEq ι] in
theorem Books.use (h : Books log c) (hheld : c i = some r) : Books (.used r :: log) c := by
  obtain ⟨⟨s, hs, hmem⟩, honce⟩ := h
  exact ⟨⟨s, held_used hs ((hmem r).mpr ⟨i, hheld⟩), hmem⟩, honce⟩

theorem Books.release (h : Books log c) (hheld : c i = some r) :
    Books (.released r :: log) (Function.update c i none) := by
  obtain ⟨⟨s, hs, hmem⟩, honce⟩ := h
  have hkept (j : ι) (q : ρ) : Function.update c i none j = some q ↔ c j = some q ∧ q ≠ r := by
    by_cases hji : j = i
    · subst hji
      rw [Function.update_self, hheld]
      constructor
      · intro hq
        cases hq
      · rintro ⟨hq, hne⟩
        exact absurd (Option.some.inj hq).symm hne
    · rw [Function.update_of_ne hji]
      refine ⟨fun hq => ⟨hq, ?_⟩, And.left⟩
      rintro rfl
      exact hji (honce j i q hq hheld)
  refine ⟨⟨s.erase r, held_released hs ((hmem r).mpr ⟨i, hheld⟩), fun q => ?_⟩,
    fun j k q hj hk => honce j k q ((hkept j q).mp hj).1 ((hkept k q).mp hk).1⟩
  rw [Finset.mem_erase, hmem]
  constructor
  · rintro ⟨hne, j, hj⟩
    exact ⟨j, (hkept j q).mpr ⟨hj, hne⟩⟩
  · rintro ⟨j, hj⟩
    obtain ⟨hq, hne⟩ := (hkept j q).mp hj
    exact ⟨hne, j, hq⟩

/-- One entry, about the cell `i`. -/
theorem Books.entry {e : Entry ρ} (h : Books log c) (happly : e.apply (c i) = some y)
    (hgrants : ∀ r, e = .acquired r → ∀ s ∈ ResourceLedger.held log, r ∉ s) :
    Books (e :: log) (Function.update c i y) := by
  cases e with
  | acquired r =>
      cases hci : c i with
      | none =>
          rw [hci] at happly
          exact Option.some.inj happly ▸ h.acquire hci (hgrants r rfl)
      | some q => simp [Entry.apply, hci] at happly
  | used r =>
      cases hci : c i with
      | none => simp [Entry.apply, hci] at happly
      | some q =>
          obtain ⟨rfl, rfl⟩ : r = q ∧ some q = y := by
            simpa [Entry.apply, hci] using happly
          rw [← hci, Function.update_eq_self]
          exact h.use hci
  | released r =>
      cases hci : c i with
      | none => simp [Entry.apply, hci] at happly
      | some q =>
          obtain ⟨rfl, rfl⟩ : r = q ∧ none = y := by
            simpa [Entry.apply, hci] using happly
          exact h.release hci

/-- **The rule**: cells that are kept agree with the ledger. -/
theorem Books.post {es : List (ι × Entry ρ)} (h : Books log c) (hkeeps : Keeps c es d)
    (hgrants : Grants log (es.map Prod.snd) = true) : Books (es.map Prod.snd ++ log) d := by
  induction es generalizing d with
  | nil =>
      have hsame : d = c := funext fun i => (Option.some.inj (hkeeps i)).symm
      exact hsame ▸ h
  | cons e es ih =>
      obtain ⟨i, e⟩ := e
      have hi := hkeeps i
      rw [entriesOf_cons_self] at hi
      obtain ⟨y, hy, happly⟩ := Option.bind_eq_some_iff.mp hi
      have hbefore : Keeps c es (Function.update d i y) := by
        intro j
        by_cases hji : j = i
        · subst hji
          rw [hy, Function.update_self]
        · have hj := hkeeps j
          rw [entriesOf_cons_of_ne (Ne.symm hji)] at hj
          rw [hj, Function.update_of_ne hji]
      have hgrants' : Grants log (es.map Prod.snd) = true
          ∧ ∀ r, e = .acquired r → ∀ s ∈ ResourceLedger.held (es.map Prod.snd ++ log), r ∉ s := by
        cases e with
        | acquired r =>
            obtain ⟨hrest, hnew⟩ := (Bool.and_eq_true _ _).mp hgrants
            refine ⟨hrest, fun q hq => ?_⟩
            cases hq
            exact of_decide_eq_true hnew
        | used r => exact ⟨hgrants, fun q hq => by cases hq⟩
        | released r => exact ⟨hgrants, fun q hq => by cases hq⟩
      have hpost := (ih hbefore hgrants'.1).entry (i := i) (y := d i)
        (by rw [Function.update_self]; exact happly) hgrants'.2
      rwa [Function.update_idem, Function.update_eq_self] at hpost

end Books

end ResourceLedger
