import Mathlib.Data.List.Basic
import Mathlib.Data.List.Flatten
import Mathlib.Logic.Relation

/-! # Runs of labelled transition relations

A *transition relation* `step : σ → α → σ → Prop` says which states an action may lead to. This
file fixes what a finite **run** is (`Run`) and packages the inductions over runs once and for all:

* `Run.invariant` — what one step preserves, a whole run preserves;
* `Run.simulate` — a forward simulation that answers every step by one step lifts to runs;
* `EveryStep.congr` — what the steps of a run do may be checked under an invariant;
* `everyState_iff_everyStep` — a property of states, when a condition on steps decides whether a
  step keeps it;
* `Observed.simulate` — a forward simulation that answers every step by a (possibly empty) run of
  which the same is observed lifts to runs. -/

namespace Transition

variable {σ τ α β γ : Type*}

/-- `Run step s as s'`: the actions `as`, taken one after the other from `s`, may lead to `s'`. -/
inductive Run (step : σ → α → σ → Prop) : σ → List α → σ → Prop
  /-- The empty run stays where it is. -/
  | nil (s : σ) : Run step s [] s
  /-- A first step followed by a run. -/
  | cons {s s' s'' : σ} {a : α} {as : List α} :
      step s a s' → Run step s' as s'' → Run step s (a :: as) s''

namespace Run

variable {step : σ → α → σ → Prop} {s s' s'' : σ} {a : α} {as bs : List α}

/-- One step is a run. -/
theorem single (h : step s a s') : Run step s [a] s' := .cons h (.nil s')

/-- A run without actions does not move. -/
@[simp] theorem nil_iff : Run step s [] s' ↔ s = s' := by
  constructor
  · intro h
    cases h
    rfl
  · rintro rfl
    exact .nil s

/-- A run that begins with `a` is a step for `a` followed by a run. -/
theorem cons_iff : Run step s (a :: as) s' ↔ ∃ t, step s a t ∧ Run step t as s' := by
  constructor
  · intro h
    cases h with
    | cons h₁ h₂ => exact ⟨_, h₁, h₂⟩
  · rintro ⟨t, h₁, h₂⟩
    exact .cons h₁ h₂

/-- Runs compose. -/
theorem append (h₁ : Run step s as s') (h₂ : Run step s' bs s'') :
    Run step s (as ++ bs) s'' := by
  induction h₁ with
  | nil => exact h₂
  | cons hstep _ ih => exact .cons hstep (ih h₂)

/-- A run over one action is a step. -/
@[simp] theorem singleton_iff : Run step s [a] s' ↔ step s a s' := by
  rw [cons_iff]
  constructor
  · rintro ⟨t, h, ht⟩
    rw [nil_iff] at ht
    exact ht ▸ h
  · intro h
    exact ⟨s', h, .nil s'⟩

/-- A run may be extended by one step at its end. -/
theorem snoc (h₁ : Run step s as s') (h₂ : step s' a s'') : Run step s (as ++ [a]) s'' :=
  append h₁ (single h₂)

/-- **Invariant rule.** A property that every step preserves holds at the end of a run that starts
with it. -/
theorem invariant {I : σ → Prop} (hstep : ∀ s a s', I s → step s a s' → I s')
    (hs : I s) (hrun : Run step s as s') : I s' := by
  induction hrun with
  | nil => exact hs
  | cons h _ ih => exact ih (hstep _ _ _ hs h)

/-- **Simulation in lock-step.** When every step from related states is answered by a step for the
same action, every run is answered by a run over the same actions. The relation between the states
may depend on the actions taken so far. -/
theorem simulate {step' : τ → α → τ → Prop} {R : List α → σ → τ → Prop} (done : List α)
    (hstep : ∀ done s a s' t, R done s t → step s a s' → ∃ t', step' t a t' ∧ R (done ++ [a]) s' t')
    {t : τ} (hs : R done s t) (hrun : Run step s as s') :
    ∃ t', Run step' t as t' ∧ R (done ++ as) s' t' := by
  induction hrun generalizing t done with
  | nil => exact ⟨t, .nil t, by rwa [List.append_nil]⟩
  | cons h _ ih =>
      obtain ⟨t', ht', hr⟩ := hstep _ _ _ _ _ hs h
      obtain ⟨t'', hrun', hr'⟩ := ih _ hr
      rw [List.append_assoc, List.singleton_append] at hr'
      exact ⟨t'', .cons ht' hrun', hr'⟩

/-- A run of a relation is a run of every weaker relation. -/
theorem mono {step' : σ → α → σ → Prop} (h : ∀ s a s', step s a s' → step' s a s')
    (hrun : Run step s as s') : Run step' s as s' := by
  induction hrun with
  | nil => exact .nil _
  | cons h₁ _ ih => exact .cons (h _ _ _ h₁) ih

end Run

/-- `P` holds of every step that the runs over the actions `as` from `s` take. -/
def EveryStep (step P : σ → α → σ → Prop) (s : σ) (as : List α) : Prop :=
  ∀ before a after t u, as = before ++ a :: after → Run step s before t → step t a u → P t a u

/-- Two properties of steps are the same for runs that keep an invariant, as far as they are for the
steps that begin with the invariant. -/
theorem EveryStep.congr {step P Q : σ → α → σ → Prop} {I : σ → Prop} {s : σ} {as : List α}
    (hinv : ∀ s a s', I s → step s a s' → I s') (hs : I s)
    (h : ∀ t a u, I t → step t a u → (P t a u ↔ Q t a u)) :
    EveryStep step P s as ↔ EveryStep step Q s as := by
  constructor
  · intro hevery before a after t u has hrun hstep
    exact (h t a u (hrun.invariant hinv hs) hstep).mp (hevery before a after t u has hrun hstep)
  · intro hevery before a after t u has hrun hstep
    exact (h t a u (hrun.invariant hinv hs) hstep).mpr (hevery before a after t u has hrun hstep)

/-- A property of the steps that the runs over `a :: as` take, by the first step. -/
theorem everyStep_cons {step P : σ → α → σ → Prop} {s : σ} {a : α} {as : List α} :
    EveryStep step P s (a :: as) ↔
      ∀ s', step s a s' → P s a s' ∧ EveryStep step P s' as := by
  constructor
  · intro h s' hstep
    refine ⟨h [] a as s s' rfl (.nil s) hstep, ?_⟩
    rintro before b after t u rfl hrun hlast
    exact h (a :: before) b after t u rfl (.cons hstep hrun) hlast
  · intro h before b after t u has hrun hlast
    cases hrun with
    | nil =>
        obtain ⟨rfl, rfl⟩ := List.cons.inj has
        exact (h u hlast).1
    | cons hstep hrest =>
        obtain ⟨rfl, rfl⟩ := List.cons.inj has
        exact (h _ hstep).2 _ b after t u rfl hrest hlast

/-- **Invariant rule under a condition.** What the steps that meet a condition preserve holds at the
end of a run all of whose steps meet it. -/
theorem EveryStep.invariant {step P : σ → α → σ → Prop} {I : σ → Prop} {s s' : σ} {as : List α}
    (hstep : ∀ s a s', I s → step s a s' → P s a s' → I s') (hevery : EveryStep step P s as)
    (hs : I s) (hrun : Run step s as s') : I s' := by
  induction hrun with
  | nil => exact hs
  | cons h _ ih =>
      obtain ⟨hp, hrest⟩ := everyStep_cons.mp hevery _ h
      exact ih hrest (hstep _ _ _ hs h hp)

/-- `P` holds of every state that the runs over the actions `as` from `s` reach. -/
def EveryState (step : σ → α → σ → Prop) (P : σ → Prop) (s : σ) (as : List α) : Prop :=
  ∀ before after t, as = before ++ after → Run step s before t → P t

/-- A property of the states that the runs over `a :: as` reach, by the first step. -/
theorem everyState_cons {step : σ → α → σ → Prop} {P : σ → Prop} {s : σ} {a : α} {as : List α} :
    EveryState step P s (a :: as) ↔ P s ∧ ∀ s', step s a s' → EveryState step P s' as := by
  constructor
  · intro h
    refine ⟨h [] (a :: as) s rfl (.nil s), ?_⟩
    rintro s' hstep before after t rfl hrun
    exact h (a :: before) after t rfl (.cons hstep hrun)
  · rintro ⟨hs, h⟩ before after t has hrun
    cases hrun with
    | nil => exact hs
    | cons hstep hrest =>
        obtain ⟨rfl, rfl⟩ := List.cons.inj has
        exact h _ hstep _ after t rfl hrest

/-- **A property that a condition on the steps decides**: the states with the invariant `I` have the
property `P`, and a step from such a state keeps the invariant if it meets the condition `Q` and
loses the property if it does not. Then all states have the property if and only if all steps meet
the condition. -/
theorem everyState_iff_everyStep {step Q : σ → α → σ → Prop} {I P : σ → Prop} {s : σ} {as : List α}
    (hI : ∀ s, I s → P s) (hkeep : ∀ s a s', I s → step s a s' → Q s a s' → I s')
    (hlose : ∀ s a s', I s → step s a s' → ¬ Q s a s' → ¬ P s') (hs : I s) :
    EveryState step P s as ↔ EveryStep step Q s as := by
  induction as generalizing s with
  | nil =>
      constructor
      · rintro - before a after t u has
        simp at has
      · intro _ before after t has hrun
        obtain ⟨rfl, -⟩ := List.append_eq_nil_iff.mp has.symm
        exact Run.nil_iff.mp hrun ▸ hI s hs
  | cons a as ih =>
      rw [everyState_cons, everyStep_cons]
      constructor
      · rintro ⟨-, h⟩ s' hstep
        have hnext : P s' := h s' hstep [] as s' rfl (.nil s')
        have hq : Q s a s' := not_not.mp fun hq => hlose s a s' hs hstep hq hnext
        exact ⟨hq, (ih (hkeep s a s' hs hstep hq)).mp (h s' hstep)⟩
      · intro h
        refine ⟨hI s hs, fun s' hstep => ?_⟩
        obtain ⟨hq, hrest⟩ := h s' hstep
        exact (ih (hkeep s a s' hs hstep hq)).mpr hrest

/-- `Observed step obs s as os s'`: a run over the actions `as` from `s` to `s'`, of which `os` is
observed. What one step shows depends on its action and on the state it leads to. -/
inductive Observed (step : σ → α → σ → Prop) (obs : α → σ → List γ) :
    σ → List α → List γ → σ → Prop
  /-- Nothing is observed of the empty run. -/
  | nil (s : σ) : Observed step obs s [] [] s
  /-- The observations of the first step come first. -/
  | cons {s s' s'' : σ} {a : α} {as : List α} {os : List γ} :
      step s a s' → Observed step obs s' as os s'' →
        Observed step obs s (a :: as) (obs a s' ++ os) s''

namespace Observed

variable {step : σ → α → σ → Prop} {obs : α → σ → List γ} {s s' s'' : σ} {as as' : List α}
  {os os' : List γ}

/-- What is observed of one step. -/
theorem single {a : α} (h : step s a s') : Observed step obs s [a] (obs a s') s' := by
  have hcons : Observed step obs s [a] (obs a s' ++ []) s' := .cons h (.nil s')
  rwa [List.append_nil] at hcons

/-- An observed run is a run. -/
theorem run (h : Observed step obs s as os s') : Run step s as s' := by
  induction h with
  | nil s => exact .nil s
  | cons hstep _ ih => exact .cons hstep ih

/-- Observed runs compose. -/
theorem append (h : Observed step obs s as os s') (h' : Observed step obs s' as' os' s'') :
    Observed step obs s (as ++ as') (os ++ os') s'' := by
  induction h with
  | nil => exact h'
  | cons hstep _ ih =>
      rw [List.append_assoc]
      exact .cons hstep (ih h')

/-- **Forward simulation.** The relation between the states may depend on the actions taken so far.
When every step from related states is answered by a run of the other system of which the same is
observed, every run is answered by a run of which the same is observed. -/
theorem simulate {step' : τ → β → τ → Prop} {obs' : β → τ → List γ} {R : List α → σ → τ → Prop}
    (done : List α) (hstep : ∀ done s a s' t, R done s t → step s a s' →
      ∃ bs t', Observed step' obs' t bs (obs a s') t' ∧ R (done ++ [a]) s' t')
    {t : τ} (hs : R done s t) (hrun : Observed step obs s as os s') :
    ∃ bs t', Observed step' obs' t bs os t' ∧ R (done ++ as) s' t' := by
  induction hrun generalizing t done with
  | nil => exact ⟨[], t, .nil t, by rwa [List.append_nil]⟩
  | cons h _ ih =>
      obtain ⟨bs, t', hbs, ht'⟩ := hstep _ _ _ _ _ hs h
      obtain ⟨cs, t'', hcs, ht''⟩ := ih _ ht'
      rw [List.append_assoc, List.singleton_append] at ht''
      exact ⟨bs ++ cs, t'', hbs.append hcs, ht''⟩

end Observed

/-- Something is observed of every run. -/
theorem Run.observed {step : σ → α → σ → Prop} (obs : α → σ → List γ) {s s' : σ} {as : List α}
    (h : Run step s as s') : ∃ os, Observed step obs s as os s' := by
  induction h with
  | nil s => exact ⟨[], .nil s⟩
  | cons hstep _ ih =>
      obtain ⟨os, hos⟩ := ih
      exact ⟨_, .cons hstep hos⟩

end Transition
