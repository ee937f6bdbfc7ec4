import Mathlib.Data.List.Basic

/-! # Runs of a partial step function

A component is a state type `σ`, calls `α` and a partial step `step : σ → α → Option σ` (`none` when
the call is not allowed or does not come back). A **run** is a list of calls; `AllSteps P s as` says
that every call of the run meets `P` in the state it is made in. Each safety proof over runs of any
length is then an invariant, one step lemma, and one of the rules below. -/

namespace OS44.Runs

universe u v

variable {σ : Type u} {α : Type v}

/-- The state after the calls `as`, made in order from `s`. -/
def run (step : σ → α → Option σ) : σ → List α → Option σ
  | s, [] => some s
  | s, a :: as => (step s a).bind fun s' => run step s' as

/-- **Every call of the run meets `P`** in the state it is made in. -/
def AllSteps (step : σ → α → Option σ) (P : σ → α → Prop) : σ → List α → Prop
  | _, [] => True
  | s, a :: as => P s a ∧ ∀ s', step s a = some s' → AllSteps step P s' as

variable {step : σ → α → Option σ} {P Q : σ → α → Prop} {Inv : σ → Prop}

@[simp] theorem run_nil (s : σ) : run step s [] = some s := rfl

@[simp] theorem allSteps_nil (s : σ) : AllSteps step P s [] := trivial

@[simp] theorem allSteps_cons (s : σ) (a : α) (as : List α) :
    AllSteps step P s (a :: as) ↔ P s a ∧ ∀ s',
      step s a = some s' → AllSteps step P s' as := Iff.rfl

/-- A run of `a :: as` that comes back makes the step `a`, then runs `as`. -/
theorem run_cons_eq_some {s t : σ} {a : α} {as : List α} :
    run step s (a :: as) = some t ↔ ∃ s', step s a = some s' ∧ run step s' as = some t := by
  simp only [run, Option.bind_eq_some_iff]

/-- Running `as ++ bs` is running `as` and then `bs`. -/
theorem run_append (s : σ) (as bs : List α) :
    run step s (as ++ bs) = (run step s as).bind fun t => run step t bs := by
  induction as generalizing s with
  | nil => rfl
  | cons a as ih =>
    simp only [List.cons_append, run, Option.bind_assoc]
    congr 1
    funext s'
    exact ih s'

/-- **Invariant rule.** What holds at the start and is kept by every call that meets `P` holds in
the state a run of such calls ends in. -/
theorem run_invariant (hstep : ∀ s a s', Inv s → P s a → step s a = some s' → Inv s')
    {s t : σ} {as : List α} (hs : Inv s) (hP : AllSteps step P s as)
    (hrun : run step s as = some t) : Inv t := by
  induction as generalizing s with
  | nil => cases hrun; exact hs
  | cons a as ih =>
    obtain ⟨s', hs', hrun'⟩ := run_cons_eq_some.mp hrun
    exact ih (hstep s a s' hs hP.1 hs') (hP.2 s' hs') hrun'

/-- **Simulation rule.** What holds of the state and of a reference at the start, and is kept when
both take a call, holds of the state a run ends in and of the reference after the same calls. -/
theorem run_simulates {τ : Type*} {R : σ → τ → Prop} {next : τ → α → τ}
    (hstep : ∀ s x a s', R s x → step s a = some s' → R s' (next x a)) {s t : σ} {x : τ}
    {as : List α} (h : R s x) (hrun : run step s as = some t) : R t (as.foldl next x) := by
  induction as generalizing s x with
  | nil => cases hrun; exact h
  | cons a as ih =>
    obtain ⟨s', hs', hrun'⟩ := run_cons_eq_some.mp hrun
    exact ih (hstep s x a s' h hs') hrun'

/-- **Consequence rule.** If calls that meet `P` keep the invariant, and under the invariant `P`
gives `Q`, then every call of a run of `P`-calls meets `Q`. -/
theorem AllSteps.consequence (hstep : ∀ s a s', Inv s → P s a → step s a = some s' → Inv s')
    (hPQ : ∀ s a, Inv s → P s a → Q s a) {s : σ} {as : List α} (hs : Inv s)
    (hP : AllSteps step P s as) : AllSteps step Q s as := by
  induction as generalizing s with
  | nil => trivial
  | cons a as ih =>
    exact ⟨hPQ s a hs hP.1, fun s' hs' => ih (hstep s a s' hs hP.1 hs') (hP.2 s' hs')⟩

/-- **Progress rule.** If under the invariant every call that meets `P` comes back and keeps the
invariant, a run of such calls comes through. -/
theorem AllSteps.exists_run (hstep : ∀ s a, Inv s → P s a → ∃ s', step s a = some s' ∧ Inv s')
    {s : σ} {as : List α} (hs : Inv s) (hP : AllSteps step P s as) :
    ∃ t, run step s as = some t ∧ Inv t := by
  induction as generalizing s with
  | nil => exact ⟨s, rfl, hs⟩
  | cons a as ih =>
    obtain ⟨s', hs', hinv⟩ := hstep s a hs hP.1
    obtain ⟨t, hrun, ht⟩ := ih hinv (hP.2 s' hs')
    exact ⟨t, run_cons_eq_some.mpr ⟨s', hs', hrun⟩, ht⟩

/-- A property of all calls is a property of every run. -/
theorem AllSteps.of_forall (h : ∀ s a, P s a) (s : σ) (as : List α) : AllSteps step P s as := by
  induction as generalizing s with
  | nil => trivial
  | cons a as ih => exact ⟨h s a, fun s' _ => ih s'⟩

/-- The calls after the first part of a run. -/
theorem AllSteps.of_append {s t : σ} {as bs : List α} (hP : AllSteps step P s (as ++ bs))
    (hrun : run step s as = some t) : AllSteps step P t bs := by
  induction as generalizing s with
  | nil => cases hrun; exact hP
  | cons a as ih =>
    obtain ⟨s', hs', hrun'⟩ := run_cons_eq_some.mp hrun
    exact ih (hP.2 s' hs') hrun'

/-- Two step properties at once. -/
theorem AllSteps.and {s : σ} {as : List α} (hP : AllSteps step P s as)
    (hQ : AllSteps step Q s as) : AllSteps step (fun s a => P s a ∧ Q s a) s as := by
  induction as generalizing s with
  | nil => trivial
  | cons a as ih => exact ⟨⟨hP.1, hQ.1⟩, fun s' hs' => ih (hP.2 s' hs') (hQ.2 s' hs')⟩

end OS44.Runs
