import Mathlib.Tactic

/-!
# Monkey.Lib.Run

Finite runs of a labelled transition relation `step : σ → α → σ → Prop` and
the one induction every safety proof goes through: what each step keeps, a
whole run keeps.

A run under a side condition on its steps is a run of the restricted relation
`Guarded P step`, so conditional safety results use the same rule.
-/

namespace Monkey

variable {σ α : Type*}

/-- `Run step s as s'`: the labels `as`, in order, lead from `s` to `s'`. -/
inductive Run (step : σ → α → σ → Prop) : σ → List α → σ → Prop
  | nil (s : σ) : Run step s [] s
  | cons {s s' s'' : σ} {a : α} {as : List α} :
      step s a s' → Run step s' as s'' → Run step s (a :: as) s''

/-- The steps of `step` that also meet `P` in the state they start from. -/
def Guarded (P : σ → α → Prop) (step : σ → α → σ → Prop) (s : σ) (a : α) (s' : σ) : Prop :=
  P s a ∧ step s a s'

namespace Run

variable {step : σ → α → σ → Prop} {s s' s'' : σ} {a : α} {as bs : List α}

/-- **Invariant rule**: a property kept by every step is kept by every run. -/
theorem invariant {I : σ → Prop} (hstep : ∀ s a s', I s → step s a s' → I s')
    (h : Run step s as s') (hs : I s) : I s' := by
  induction h with
  | nil s => exact hs
  | cons hab _ ih => exact ih (hstep _ _ _ hs hab)

/-- A run of a relation is a run of every larger one. -/
theorem mono {step' : σ → α → σ → Prop} (hsub : ∀ s a s', step s a s' → step' s a s')
    (h : Run step s as s') : Run step' s as s' := by
  induction h with
  | nil s => exact .nil s
  | cons hab _ ih => exact .cons (hsub _ _ _ hab) ih

/-- One run after another. -/
theorem append (h : Run step s as s') (h' : Run step s' bs s'') : Run step s (as ++ bs) s'' := by
  induction h with
  | nil s => exact h'
  | cons hab _ ih => exact .cons hab (ih h')

/-- A run of the guarded relation is a run. -/
theorem of_guarded {P : σ → α → Prop} (h : Run (Guarded P step) s as s') : Run step s as s' :=
  h.mono fun _ _ _ hs => hs.2

/-- A condition that holds of every label guards the run. -/
theorem guarded_of_forall {P : α → Prop} (h : Run step s as s') (hall : ∀ a ∈ as, P a) :
    Run (Guarded (fun _ a => P a) step) s as s' := by
  induction h with
  | nil s => exact .nil s
  | cons hab _ ih =>
      exact .cons ⟨hall _ List.mem_cons_self, hab⟩ (ih fun a ha => hall a (List.mem_cons_of_mem _ ha))

/-- Executing a partial step function gives a run of its graph. -/
theorem of_foldlM {f : σ → α → Option σ} (h : as.foldlM f s = some s') :
    Run (fun s a s' => f s a = some s') s as s' := by
  induction as generalizing s with
  | nil =>
      obtain rfl : s = s' := by simpa using h
      exact .nil s
  | cons a as ih =>
      rw [List.foldlM_cons] at h
      obtain ⟨t, ht, hrest⟩ := Option.bind_eq_some_iff.mp h
      exact .cons ht (ih hrest)

/-- Executing it with a check before every step gives a guarded run. -/
theorem guarded_of_foldlM {f : σ → α → Option σ} {P : σ → α → Prop} [∀ s a, Decidable (P s a)]
    (h : as.foldlM (fun s a => if P s a then f s a else none) s = some s') :
    Run (Guarded P fun s a s' => f s a = some s') s as s' := by
  refine (of_foldlM h).mono fun s a s' hs => ?_
  by_cases hp : P s a
  · exact ⟨hp, by rwa [if_pos hp] at hs⟩
  · rw [if_neg hp] at hs
    contradiction

/-- The same with two checks. -/
theorem guarded_guarded_of_foldlM {f : σ → α → Option σ} {P Q : σ → α → Prop}
    [∀ s a, Decidable (P s a)] [∀ s a, Decidable (Q s a)]
    (h : as.foldlM (fun s a => if P s a ∧ Q s a then f s a else none) s = some s') :
    Run (Guarded P (Guarded Q fun s a s' => f s a = some s')) s as s' :=
  (guarded_of_foldlM h).mono fun _ _ _ hs => ⟨hs.1.1, hs.1.2, hs.2⟩

/-- The states of a guarded run keep what the guarded steps keep. -/
theorem guarded_invariant {I : σ → Prop} {P : σ → α → Prop}
    (hI : ∀ s a s', I s → P s a → step s a s' → I s')
    (h : Run (Guarded P step) s as s') (hs : I s) : I s' :=
  h.invariant (fun _ _ _ hi hg => hI _ _ _ hi hg.1 hg.2) hs

/-- A prefix of a guarded run is guarded, and ends where the guarded steps
lead. -/
theorem guarded_of_initial {P : σ → α → Prop}
    (hdet : ∀ s a s₁ s₂, step s a s₁ → step s a s₂ → s₁ = s₂)
    (h : Run (Guarded P step) s as s') (hbs : bs <+: as) (hb : Run step s bs s'') :
    Run (Guarded P step) s bs s'' := by
  induction h generalizing bs with
  | nil s =>
      obtain rfl := List.prefix_nil.mp hbs
      cases hb
      exact .nil _
  | cons hab _ ih =>
      cases hb with
      | nil => exact .nil _
      | cons hab' hrest =>
          obtain ⟨rfl, hbs'⟩ := List.cons_prefix_cons.mp hbs
          cases hdet _ _ _ _ hab.2 hab'
          exact .cons hab (ih hbs' hrest)

/-- **Exactness rule**: when guarded steps keep an invariant that gives `Q`, and
a step from the invariant into `Q` was guarded, the runs that stay in `Q` are
exactly the guarded ones. -/
theorem always_iff_guarded {I Q : σ → Prop} {P : σ → α → Prop}
    (hdet : ∀ s a s₁ s₂, step s a s₁ → step s a s₂ → s₁ = s₂)
    (hI : ∀ s a s', I s → P s a → step s a s' → I s') (hQ : ∀ s, I s → Q s)
    (hP : ∀ s a s', I s → step s a s' → Q s' → P s a) (hs : I s) (h : Run step s as s') :
    (∀ bs t, bs <+: as → Run step s bs t → Q t) ↔ Run (Guarded P step) s as s' := by
  constructor
  · intro hall
    induction h with
    | nil s => exact .nil s
    | cons hab _ ih =>
        have hq := hall [_] _ (by simp) (.cons hab (.nil _))
        have hp := hP _ _ _ hs hab hq
        refine .cons ⟨hp, hab⟩ (ih (hI _ _ _ hs hp hab) ?_)
        intro bs t hbs hrun
        exact hall (_ :: bs) t (by simpa using hbs) (.cons hab hrun)
  · intro hg bs t hbs hrun
    exact hQ t ((guarded_of_initial hdet hg hbs hrun).guarded_invariant hI hs)

/-- **Exactness rule** for a property that is never regained: when a step from the
invariant was guarded exactly if the property is kept, a run was guarded exactly if it
holds in the end. -/
theorem guarded_and_iff {I Q : σ → Prop} {P : σ → α → Prop}
    (hdet : ∀ s a s₁ s₂, step s a s₁ → step s a s₂ → s₁ = s₂)
    (hI : ∀ s a s', I s → step s a s' → I s')
    (hQ : ∀ s a s', I s → step s a s' → (P s a ∧ Q s ↔ Q s')) (hs : I s) (h : Run step s as s') :
    Run (Guarded P step) s as s' ∧ Q s ↔ Q s' := by
  induction h with
  | nil s => exact and_iff_right (.nil s)
  | cons hab hrest ih =>
      have hstep := hQ _ _ _ hs hab
      have hih := ih (hI _ _ _ hs hab)
      constructor
      · rintro ⟨hguarded, hq⟩
        cases hguarded with
        | cons hg hrest' =>
            obtain rfl := hdet _ _ _ _ hab hg.2
            exact hih.mp ⟨hrest', hstep.mp ⟨hg.1, hq⟩⟩
      · intro hq
        obtain ⟨hguarded, hq'⟩ := hih.mpr hq
        obtain ⟨hp, hq''⟩ := hstep.mpr hq'
        exact ⟨.cons ⟨hp, hab⟩ hguarded, hq''⟩

end Run

end Monkey
