import Mathlib.Logic.Function.Iterate
import AsyncEventLoop.Runs

/-!
# Mailboxes and the loop that empties them

A mailbox takes what arrives and hands it out again, one at a time and in order. Its owner
may ask whether there is anything (`ready`) before it takes the next one (`take`). Some of
what arrives is silent: nobody is told about it when it is taken. `Lawful` is what is asked
of a mailbox, over what it still has (`pending`); an answer of `ready` may cost a silent one.

The loop of a `Reader` is entered if the mailbox says that it is ready, and left when it
says that it is not, or hands out nothing. Whatever arrives in between, what the reader has
got and what is pending are together what has arrived (`Reader.run_accounts`), and once
nothing arrives any more the reader gets all of it (`Reader.settles`). Nothing here knows
what is sent.
-/

namespace Mailbox

open Runs

variable {σ δ μ : Type*}

/-- The operations of a mailbox with the states `σ`, for what arrives (`δ`) and what is
handed out of it (`μ`). -/
structure Box (σ δ μ : Type*) where
  arrive : σ → δ → σ
  ready : σ → Bool × σ
  take : σ → Option μ × σ

/-- The laws of a mailbox whose states are in `Inv`, for what `accepts` lets arrive; `told` is
what is handed out of an arrival, none if it is silent. -/
structure Lawful (box : Box σ δ μ) (Inv : σ → Prop) (pending : σ → List δ)
    (accepts : δ → Prop) (told : δ → Option μ) : Prop where
  arrive : ∀ s d, Inv s → accepts d →
    Inv (box.arrive s d) ∧ pending (box.arrive s d) = pending s ++ [d]
  ready : ∀ s, Inv s → Inv (box.ready s).2 ∧
    (((box.ready s).1 = false → pending s = []) ∧ pending (box.ready s).2 = pending s ∨
      (box.ready s).1 = false ∧ ∃ d, told d = none ∧ pending s = d :: pending (box.ready s).2)
  take : ∀ s, Inv s → Inv (box.take s).2 ∧
    (pending s = [] ∧ (box.take s).1 = none ∧ pending (box.take s).2 = [] ∨
      ∃ d, pending s = d :: pending (box.take s).2 ∧ (box.take s).1 = told d)

/-- A reader: its mailbox, whether it is in its loop, what it has got and what has arrived,
the last one at the end. -/
structure Reader (σ δ μ : Type*) where
  box : σ
  looping : Bool := false
  got : List μ := []
  arrived : List δ := []

/-- Something arrives, or the reader makes its next step: it enters its loop, or goes
through it once. -/
inductive Event (δ : Type*) where
  | arrives (d : δ)
  | next

variable (box : Box σ δ μ)

namespace Reader

/-- The next step of the reader. -/
def next (r : Reader σ δ μ) : Reader σ δ μ :=
  let asked := box.ready r.box
  if !r.looping then { r with box := asked.2, looping := asked.1 }
  else if !asked.1 then { r with box := asked.2, looping := false }
  else
    let taken := box.take asked.2
    match taken.1 with
    | none => { r with box := taken.2, looping := false }
    | some m => { r with box := taken.2, got := r.got ++ [m] }

def step (r : Reader σ δ μ) : Event δ → Option (Reader σ δ μ)
  | .arrives d => some { r with box := box.arrive r.box d, arrived := r.arrived ++ [d] }
  | .next => some (r.next box)

/-- Only what the mailbox accepts arrives. -/
def accepted (accepts : δ → Prop) [DecidablePred accepts] (_ : Reader σ δ μ) : Event δ → Bool
  | .arrives d => accepts d
  | .next => true

variable {box} {Inv : σ → Prop} {pending : σ → List δ} {accepts : δ → Prop}
  {told : δ → Option μ}

/-- What has been got and what is pending are what has arrived. -/
structure Accounts (Inv : σ → Prop) (pending : σ → List δ) (told : δ → Option μ)
    (r : Reader σ δ μ) : Prop where
  inv : Inv r.box
  arrived : r.got ++ (pending r.box).filterMap told = r.arrived.filterMap told

/-- What a step does: nothing, or it takes the first one that is pending. -/
theorem next_cases (h : Lawful box Inv pending accepts told) {r : Reader σ δ μ}
    (hinv : Inv r.box) :
    Inv (r.next box).box ∧ (r.next box).arrived = r.arrived ∧
      ((r.next box).got = r.got ∧ pending (r.next box).box = pending r.box ∧
          (pending r.box = [] ∨ r.looping = false ∧ (r.next box).looping = true) ∨
        ∃ d, pending r.box = d :: pending (r.next box).box ∧
          (r.next box).got = r.got ++ (told d).toList) := by
  obtain ⟨hready, hasked⟩ := h.ready r.box hinv
  unfold next
  dsimp only
  cases hlooping : r.looping with
  | false =>
      refine ⟨hready, rfl, ?_⟩
      rcases hasked with ⟨hempty, hsame⟩ | ⟨hfalse, d, hd, hpending⟩
      · refine .inl ⟨rfl, hsame, ?_⟩
        cases hanswer : (box.ready r.box).1 with
        | false => exact .inl (hempty hanswer)
        | true => exact .inr (by simp)
      · exact .inr ⟨d, hpending, by simp [hd]⟩
  | true =>
      cases hanswer : (box.ready r.box).1 with
      | false =>
          refine ⟨hready, rfl, ?_⟩
          rcases hasked with ⟨hempty, hsame⟩ | ⟨-, d, hd, hpending⟩
          · exact .inl ⟨rfl, hsame, .inl (hempty hanswer)⟩
          · exact .inr ⟨d, hpending, by simp [hd]⟩
      | true =>
          have hsame : pending (box.ready r.box).2 = pending r.box := by
            rcases hasked with ⟨-, hsame⟩ | ⟨hfalse, -⟩
            · exact hsame
            · rw [hanswer] at hfalse
              cases hfalse
          obtain ⟨htake, htaken⟩ := h.take _ hready
          rw [hsame] at htaken
          rcases htaken with ⟨hempty, hnone, hstill⟩ | ⟨d, hpending, htold⟩
          · rw [hnone]
            exact ⟨htake, rfl, .inl ⟨rfl, hstill.trans hempty.symm, .inl hempty⟩⟩
          · cases htold' : (box.take (box.ready r.box).2).1 with
            | none =>
                refine ⟨htake, rfl, .inr ⟨d, hpending, ?_⟩⟩
                simp [← htold, htold']
            | some m =>
                refine ⟨htake, rfl, .inr ⟨d, hpending, ?_⟩⟩
                simp [← htold, htold']

theorem next_accounts (h : Lawful box Inv pending accepts told) {r : Reader σ δ μ}
    (hr : Accounts Inv pending told r) : Accounts Inv pending told (r.next box) := by
  obtain ⟨hinv, harrived, ⟨hgot, hpending, -⟩ | ⟨d, hpending, hgot⟩⟩ := next_cases h hr.inv
  · exact ⟨hinv, by rw [hgot, hpending, harrived, hr.arrived]⟩
  · refine ⟨hinv, ?_⟩
    rw [harrived, ← hr.arrived, hpending, hgot, List.append_assoc]
    cases htold : told d <;> simp [htold]

/-- **Nothing is lost, repeated or reordered**: at every moment of every run. -/
theorem run_accounts [DecidablePred accepts] (h : Lawful box Inv pending accepts told)
    {s : σ} (hs : Inv s) (hempty : pending s = []) {r : Reader σ δ μ} {es : List (Event δ)}
    (hrun : run (restrict (accepted accepts) (step box)) { box := s } es = some r) :
    Accounts Inv pending told r := by
  refine run_invariant (fun r e r' hr hstep => ?_) ⟨hs, by simp [hempty]⟩ hrun
  obtain ⟨haccepts, hstep⟩ := restrict_eq_some.mp hstep
  cases e with
  | arrives d =>
      obtain rfl := Option.some.inj hstep
      obtain ⟨hinv, hpending⟩ := h.arrive r.box d hr.inv (of_decide_eq_true haccepts)
      refine ⟨hinv, ?_⟩
      simp only [hpending, List.filterMap_append, ← List.append_assoc, hr.arrived]
  | next =>
      obtain rfl := Option.some.inj hstep
      exact next_accounts h hr

theorem pending_nil (h : Lawful box Inv pending accepts told) {r : Reader σ δ μ}
    (hinv : Inv r.box) (hnil : pending r.box = []) (n : Nat) :
    pending ((next box)^[n] r).box = [] := by
  induction n generalizing r with
  | zero => exact hnil
  | succ n ih =>
      obtain ⟨hinv', -, ⟨-, hsame, -⟩ | ⟨d, hcons, -⟩⟩ := next_cases h hinv
      · exact ih hinv' (hsame.trans hnil)
      · rw [hnil] at hcons
        cases hcons

/-- Two steps for each that is pending, and one to enter the loop. -/
theorem pending_iterate (h : Lawful box Inv pending accepts told) (n : Nat) {r : Reader σ δ μ}
    (hinv : Inv r.box)
    (hn : 2 * (pending r.box).length + (if r.looping then 0 else 1) ≤ n) :
    pending ((next box)^[n] r).box = [] := by
  induction n generalizing r with
  | zero =>
      have hlength : (pending r.box).length = 0 := by omega
      exact List.eq_nil_of_length_eq_zero hlength
  | succ n ih =>
      by_cases hnil : pending r.box = []
      · exact pending_nil h hinv hnil (n + 1)
      · rw [Function.iterate_succ_apply]
        obtain ⟨hinv', -, ⟨-, hsame, hlast⟩ | ⟨d, hcons, -⟩⟩ := next_cases h hinv
        · obtain ⟨hidle, hlooping⟩ := hlast.resolve_left hnil
          refine ih hinv' ?_
          rw [hidle, if_neg Bool.false_ne_true] at hn
          rw [hsame, hlooping, if_pos rfl]
          omega
        · refine ih hinv' ?_
          rw [hcons, List.length_cons] at hn
          split <;> omega

/-- **Once nothing arrives any more**, the reader gets all that has arrived. -/
theorem settles (h : Lawful box Inv pending accepts told) {r : Reader σ δ μ}
    (hr : Accounts Inv pending told r) {n : Nat} (hn : 2 * (pending r.box).length + 1 ≤ n) :
    ((next box)^[n] r).got = r.arrived.filterMap told := by
  have hnil : pending ((next box)^[n] r).box = [] :=
    pending_iterate h n hr.inv (by split <;> omega)
  have haccounts : ∀ m, Accounts Inv pending told ((next box)^[m] r)
      ∧ ((next box)^[m] r).arrived = r.arrived := by
    intro m
    induction m with
    | zero => exact ⟨hr, rfl⟩
    | succ m ih =>
        rw [Function.iterate_succ_apply']
        exact ⟨next_accounts h ih.1, (next_cases h ih.1.inv).2.1.trans ih.2⟩
  have harrived := (haccounts n).1.arrived
  rw [hnil, (haccounts n).2] at harrived
  simpa using harrived

end Reader

end Mailbox
