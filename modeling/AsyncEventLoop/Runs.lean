import Mathlib.Logic.Basic

/-!
# Runs of a transition system

A system is a step function: from a state and an event to the next state,
or to `none` where the event cannot happen. `run` folds it over a list of
events. `restrict c step` is the same system with the condition `c` put on
every step, so that a run of it is a run whose steps all meet `c`.

`run_invariant` packages the induction: what every step preserves, every
run preserves. `run_total` does the same where every step can be made.
Nothing here knows what the states are.
-/

namespace Runs

variable {σ ε : Type*}

/-- The state after a list of events, if each of them could happen. -/
def run (step : σ → ε → Option σ) : σ → List ε → Option σ
  | s, [] => some s
  | s, e :: es => (step s e).bind (run step · es)

/-- The steps that meet the condition. -/
def restrict (c : σ → ε → Bool) (step : σ → ε → Option σ) (s : σ) (e : ε) : Option σ :=
  if c s e then step s e else none

theorem restrict_eq_some {c : σ → ε → Bool} {step : σ → ε → Option σ} {s s' : σ} {e : ε} :
    restrict c step s e = some s' ↔ c s e = true ∧ step s e = some s' := by
  unfold restrict
  split <;> simp_all

theorem run_cons {step : σ → ε → Option σ} {s s' : σ} {e : ε} {es : List ε} :
    run step s (e :: es) = some s'
      ↔ ∃ m, step s e = some m ∧ run step m es = some s' := by
  simp [run, Option.bind_eq_some_iff]

theorem run_append {step : σ → ε → Option σ} {s s' : σ} {es fs : List ε} :
    run step s (es ++ fs) = some s'
      ↔ ∃ m, run step s es = some m ∧ run step m fs = some s' := by
  induction es generalizing s with
  | nil => simp [run]
  | cons e es ih =>
      simp only [List.cons_append, run_cons, ih]
      constructor
      · rintro ⟨m, hm, m', hm', h⟩
        exact ⟨m', ⟨m, hm, hm'⟩, h⟩
      · rintro ⟨m', ⟨m, hm, hm'⟩, h⟩
        exact ⟨m, hm, m', hm', h⟩

/-- A run of the restricted system is one of the system. -/
theorem run_of_restrict {c : σ → ε → Bool} {step : σ → ε → Option σ} {s s' : σ} {es : List ε}
    (hrun : run (restrict c step) s es = some s') : run step s es = some s' := by
  induction es generalizing s with
  | nil => exact hrun
  | cons e es ih =>
      obtain ⟨m, hm, hrest⟩ := run_cons.mp hrun
      exact run_cons.mpr ⟨m, (restrict_eq_some.mp hm).2, ih hrest⟩

/-- **The invariant rule.** -/
theorem run_invariant {step : σ → ε → Option σ} {I : σ → Prop}
    (hstep : ∀ s e s', I s → step s e = some s' → I s') {s s' : σ} {es : List ε}
    (hs : I s) (hrun : run step s es = some s') : I s' := by
  induction es generalizing s with
  | nil => exact Option.some.inj hrun ▸ hs
  | cons e es ih =>
      obtain ⟨m, hm, hrest⟩ := run_cons.mp hrun
      exact ih (hstep s e m hs hm) hrest

/-- **The progress rule**: where every step can be made and keeps the invariant,
every run can. -/
theorem run_total {step : σ → ε → Option σ} {I : σ → Prop}
    (hstep : ∀ s e, I s → ∃ s', step s e = some s' ∧ I s') {s : σ} (hs : I s) (es : List ε) :
    ∃ s', run step s es = some s' ∧ I s' := by
  induction es generalizing s with
  | nil => exact ⟨s, rfl, hs⟩
  | cons e es ih =>
      obtain ⟨m, hm, hkept⟩ := hstep s e hs
      obtain ⟨s', hrun, hend⟩ := ih hkept
      exact ⟨s', run_cons.mpr ⟨m, hm, hrun⟩, hend⟩

/-- **The simulation rule**: where every step is matched by a run of another
system, every run is. -/
theorem run_simulation {σ' ε' : Type*} {step : σ → ε → Option σ} {step' : σ' → ε' → Option σ'}
    {R : σ → σ' → Prop}
    (hstep : ∀ s t e s', R s t → step s e = some s' → ∃ fs t', run step' t fs = some t' ∧ R s' t')
    {s s' : σ} {t : σ'} {es : List ε} (hs : R s t) (hrun : run step s es = some s') :
    ∃ fs t', run step' t fs = some t' ∧ R s' t' := by
  induction es generalizing s t with
  | nil => exact ⟨[], t, rfl, Option.some.inj hrun ▸ hs⟩
  | cons e es ih =>
      obtain ⟨m, hm, hrest⟩ := run_cons.mp hrun
      obtain ⟨fs, u, hfs, hu⟩ := hstep s t e m hs hm
      obtain ⟨gs, v, hgs, hv⟩ := ih hu hrest
      exact ⟨fs ++ gs, v, run_append.mpr ⟨u, hfs, hgs⟩, hv⟩

/-- The invariant rule for the runs of some events only. -/
theorem run_invariant_events {step : σ → ε → Option σ} {E : ε → Prop} {I : σ → Prop}
    (hstep : ∀ s e s', I s → E e → step s e = some s' → I s') {s s' : σ} {es : List ε} (hs : I s)
    (hes : ∀ e ∈ es, E e) (hrun : run step s es = some s') : I s' := by
  induction es generalizing s with
  | nil => exact Option.some.inj hrun ▸ hs
  | cons e es ih =>
      obtain ⟨he, hes⟩ := List.forall_mem_cons.mp hes
      obtain ⟨m, hm, hrest⟩ := run_cons.mp hrun
      exact ih (hstep s e m hs he hm) hes hrest

/-- **The blame rule**: where the steps that meet the condition keep a state sound,
and the others spoil it for good, a run ends in a good state exactly if all its
steps meet the condition. -/
theorem run_blame_events {step : σ → ε → Option σ} {c : σ → ε → Bool} {E : ε → Prop}
    {Sound Spoiled Good : σ → Prop}
    (hsound : ∀ s e s', Sound s → E e → step s e = some s' →
      (c s e = true ∧ Sound s') ∨ (c s e = false ∧ Spoiled s'))
    (hspoiled : ∀ s e s', Spoiled s → E e → step s e = some s' → Spoiled s')
    (hgood : ∀ s, Sound s → Good s) (hbad : ∀ s, Spoiled s → ¬ Good s)
    {s s' : σ} {es : List ε} (hs : Sound s) (hes : ∀ e ∈ es, E e)
    (hrun : run step s es = some s') : Good s' ↔ run (restrict c step) s es = some s' := by
  induction es generalizing s with
  | nil => exact ⟨fun _ => hrun, fun _ => hgood s' (Option.some.inj hrun ▸ hs)⟩
  | cons e es ih =>
      obtain ⟨he, hes⟩ := List.forall_mem_cons.mp hes
      obtain ⟨m, hm, hrest⟩ := run_cons.mp hrun
      rcases hsound s e m hs he hm with ⟨hc, hkept⟩ | ⟨hc, hspoilt⟩
      · have hcons : run (restrict c step) s (e :: es) = run (restrict c step) m es := by
          simp [run, restrict, hc, hm]
        rw [hcons]
        exact ih hkept hes hrest
      · have hcons : run (restrict c step) s (e :: es) = none := by
          simp [run, restrict, hc]
        have hend : Spoiled s' := run_invariant_events hspoiled hspoilt hes hrest
        refine ⟨fun h => absurd h (hbad s' hend), fun hsome => ?_⟩
        rw [hcons] at hsome
        cases hsome

theorem run_blame {step : σ → ε → Option σ} {c : σ → ε → Bool} {Sound Spoiled Good : σ → Prop}
    (hsound : ∀ s e s', Sound s → step s e = some s' →
      (c s e = true ∧ Sound s') ∨ (c s e = false ∧ Spoiled s'))
    (hspoiled : ∀ s e s', Spoiled s → step s e = some s' → Spoiled s')
    (hgood : ∀ s, Sound s → Good s) (hbad : ∀ s, Spoiled s → ¬ Good s)
    {s s' : σ} {es : List ε} (hs : Sound s) (hrun : run step s es = some s') :
    Good s' ↔ run (restrict c step) s es = some s' :=
  run_blame_events (E := fun _ => True) (fun s e s' h _ => hsound s e s' h)
    (fun s e s' h _ => hspoiled s e s' h) hgood hbad hs (fun _ _ => trivial) hrun

/-- **The blame rule for what does not come back**: where a step leads to a good
state exactly if it starts in one and meets the condition, a run ends in a good
state exactly if all its steps meet the condition. -/
theorem run_iff_restrict {step : σ → ε → Option σ} {c : σ → ε → Bool} {I Good : σ → Prop}
    (hstep : ∀ s e s', I s → step s e = some s' → I s' ∧ (Good s' ↔ Good s ∧ c s e = true))
    {s s' : σ} {es : List ε} (hs : I s) (hgood : Good s) (hrun : run step s es = some s') :
    Good s' ↔ run (restrict c step) s es = some s' := by
  have hsound : ∀ s e s', I s ∧ Good s → step s e = some s' →
      (c s e = true ∧ I s' ∧ Good s') ∨ (c s e = false ∧ I s' ∧ ¬Good s') := by
    rintro s e s' ⟨hinv, hgood⟩ hs'
    obtain ⟨hinv', hiff⟩ := hstep s e s' hinv hs'
    cases hc : c s e with
    | true => exact Or.inl ⟨rfl, hinv', hiff.mpr ⟨hgood, hc⟩⟩
    | false =>
        refine Or.inr ⟨rfl, hinv', fun hstill => ?_⟩
        rw [(hiff.mp hstill).2] at hc
        cases hc
  have hspoiled : ∀ s e s', I s ∧ ¬Good s → step s e = some s' → I s' ∧ ¬Good s' := by
    rintro s e s' ⟨hinv, hbad⟩ hs'
    obtain ⟨hinv', hiff⟩ := hstep s e s' hinv hs'
    exact ⟨hinv', fun hstill => hbad (hiff.mp hstill).1⟩
  exact run_blame hsound hspoiled (fun _ h => h.2) (fun _ h => h.2) ⟨hs, hgood⟩ hrun

/-- **The exactness rule**: where a step leads to a good state exactly if it meets
the condition, all states of a run are good exactly if all its steps meet the
condition. The invariant holds either way. -/
theorem run_always_iff {step : σ → ε → Option σ} {c : σ → ε → Bool} {I Good : σ → Prop}
    (hinv : ∀ s e s', I s → step s e = some s' → I s')
    (hgood : ∀ s e s', I s → Good s → step s e = some s' → (c s e = true ↔ Good s'))
    {s s' : σ} {es : List ε} (hs : I s) (hsgood : Good s) (hrun : run step s es = some s') :
    (∀ fs gs t, es = fs ++ gs → run step s fs = some t → Good t)
      ↔ run (restrict c step) s es = some s' := by
  induction es generalizing s with
  | nil =>
      refine ⟨fun _ => hrun, ?_⟩
      intro _ fs gs t heq ht
      obtain ⟨rfl, -⟩ := List.append_eq_nil_iff.mp heq.symm
      exact Option.some.inj ht ▸ hsgood
  | cons e es ih =>
      obtain ⟨m, hm, hrest⟩ := run_cons.mp hrun
      have hcondition := hgood s e m hs hsgood hm
      constructor
      · intro hall
        have hmgood : Good m := hall [e] es m rfl (run_cons.mpr ⟨m, hm, rfl⟩)
        have hstep : restrict c step s e = some m :=
          restrict_eq_some.mpr ⟨hcondition.mpr hmgood, hm⟩
        refine run_cons.mpr ⟨m, hstep, (ih (hinv s e m hs hm) hmgood hrest).mp ?_⟩
        intro fs gs t heq ht
        exact hall (e :: fs) gs t (by rw [heq, List.cons_append]) (run_cons.mpr ⟨m, hm, ht⟩)
      · intro hrestricted fs gs t heq ht
        obtain ⟨m', hstep, hrestricted⟩ := run_cons.mp hrestricted
        obtain ⟨hc, hm'⟩ := restrict_eq_some.mp hstep
        obtain rfl := Option.some.inj (hm.symm.trans hm')
        cases fs with
        | nil => exact Option.some.inj ht ▸ hsgood
        | cons f fs =>
            obtain ⟨rfl, htail⟩ := List.cons.inj heq
            obtain ⟨m', hm', ht⟩ := run_cons.mp ht
            obtain rfl := Option.some.inj (hm.symm.trans hm')
            exact (ih (hinv s e m hs hm) (hcondition.mp hc) hrest).mpr hrestricted fs gs t htail ht

/-! ## Outputs -/

variable {σ' ω : Type*}

/-- What a system with outputs says on the way, if each event could happen. -/
def outputs (step : σ → ε → Option (σ × ω)) : σ → List ε → Option (List ω)
  | _, [] => some []
  | s, e :: es => (step s e).bind fun r => (outputs step r.1 es).map (r.2 :: ·)

/-- **The refinement rule**: where the steps of two systems agree, their outputs
do. -/
theorem outputs_eq {step : σ → ε → Option (σ × ω)} {step' : σ' → ε → Option (σ' × ω)}
    {R : σ → σ' → Prop}
    (hstep : ∀ s t e, R s t →
      Option.Rel (fun r r' => R r.1 r'.1 ∧ r.2 = r'.2) (step s e) (step' t e))
    {s : σ} {t : σ'} (hs : R s t) (es : List ε) : outputs step s es = outputs step' t es := by
  induction es generalizing s t with
  | nil => rfl
  | cons e es ih =>
      have he := hstep s t e hs
      unfold outputs
      generalize step s e = r, step' t e = r' at he
      cases he with
      | none => rfl
      | some h =>
          rw [Option.bind_some, Option.bind_some, ih h.1, h.2]

/-- The refinement rule for the runs of some events only. -/
theorem outputs_eq_events {step : σ → ε → Option (σ × ω)} {step' : σ' → ε → Option (σ' × ω)}
    {E : ε → Prop} {R : σ → σ' → Prop}
    (hstep : ∀ s t e, R s t → E e →
      Option.Rel (fun r r' => R r.1 r'.1 ∧ r.2 = r'.2) (step s e) (step' t e))
    {s : σ} {t : σ'} {es : List ε} (hs : R s t) (hes : ∀ e ∈ es, E e) :
    outputs step s es = outputs step' t es := by
  induction es generalizing s t with
  | nil => rfl
  | cons e es ih =>
      obtain ⟨hfirst, hes⟩ := List.forall_mem_cons.mp hes
      have he := hstep s t e hs hfirst
      unfold outputs
      generalize step s e = r, step' t e = r' at he
      cases he with
      | none => rfl
      | some h =>
          rw [Option.bind_some, Option.bind_some, ih h.1 hes, h.2]

end Runs
