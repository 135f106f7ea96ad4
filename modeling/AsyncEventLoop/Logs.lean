import Mathlib.Data.List.Basic

/-!
# Laws of a log

A log is a list of entries, the newest first. `EachEntry P` says `P` of every
entry and of what was there before it, so a log that grows by entries that
comply keeps to the law.
-/

namespace Logs

variable {α : Type*} {P : α → List α → Prop} {a : α} {log notes : List α}

/-- `P` of each entry and what was there before it. -/
def EachEntry (P : α → List α → Prop) (log : List α) : Prop :=
  ∀ newer a older, log = newer ++ a :: older → P a older

theorem eachEntry_nil (P : α → List α → Prop) : EachEntry P [] := by
  intro newer a older h
  simp at h

theorem eachEntry_cons : EachEntry P (a :: log) ↔ P a log ∧ EachEntry P log := by
  constructor
  · intro h
    refine ⟨h [] a log rfl, ?_⟩
    intro newer b older heq
    exact h (a :: newer) b older (by rw [heq, List.cons_append])
  · rintro ⟨hfirst, hrest⟩ newer b older heq
    cases newer with
    | nil =>
        obtain ⟨rfl, rfl⟩ := List.cons.inj heq
        exact hfirst
    | cons d newer =>
        obtain ⟨-, rfl⟩ := List.cons.inj heq
        exact hrest newer b older rfl

theorem EachEntry.of_append (h : EachEntry P (notes ++ log)) : EachEntry P log := by
  intro newer a older heq
  exact h (notes ++ newer) a older (by rw [heq, List.append_assoc])

/-- New entries that comply whatever was there before. -/
theorem EachEntry.append (h : EachEntry P log) (hnotes : ∀ a ∈ notes, ∀ older, P a older) :
    EachEntry P (notes ++ log) := by
  induction notes with
  | nil => exact h
  | cons a notes ih =>
      obtain ⟨hfirst, hrest⟩ := List.forall_mem_cons.mp hnotes
      exact eachEntry_cons.mpr ⟨hfirst _, ih hrest⟩

end Logs
