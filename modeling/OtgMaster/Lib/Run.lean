import Mathlib.Logic.Basic

/-!
Runs of a labelled transition system, and the rule for what holds throughout them: an invariant
that holds at the start and is kept by every step that meets a side condition holds in every state
that such steps reach.
-/

namespace OtgMaster.Lib

variable {σ α : Type}

/-- The states reached from `s₀` by steps that all meet the condition `C`. -/
inductive Reaches (step : σ → α → σ → Prop) (C : σ → α → Prop) (s₀ : σ) : σ → Prop
  | init : Reaches step C s₀ s₀
  | step {s s' : σ} {a : α} (h : Reaches step C s₀ s) (hC : C s a) (hs : step s a s') :
      Reaches step C s₀ s'

theorem Reaches.invariant {step : σ → α → σ → Prop} {C : σ → α → Prop} {s₀ s : σ} {I : σ → Prop}
    (h : Reaches step C s₀ s) (h₀ : I s₀)
    (keeps : ∀ s a s', I s → C s a → step s a s' → I s') : I s := by
  induction h with
  | init => exact h₀
  | step _ hC hs ih => exact keeps _ _ _ ih hC hs

/-- The steps of a list of actions all meet `C`, where `step` computes the next state. -/
def Met (step : σ → α → Option σ) (C : σ → α → Prop) : σ → List α → Prop
  | _, [] => True
  | s, a :: as => C s a ∧ (step s a).elim True fun s' => Met step C s' as

instance Met.decidable (step : σ → α → Option σ) (C : σ → α → Prop) [∀ s a, Decidable (C s a)] :
    ∀ s as, Decidable (Met step C s as)
  | _, [] => .isTrue trivial
  | s, a :: as =>
    match h : step s a with
    | none => decidable_of_iff (C s a) (by simp [Met, h])
    | some s' =>
      have := Met.decidable step C s' as
      decidable_of_iff (C s a ∧ Met step C s' as) (by simp [Met, h])

theorem Reaches.of_run {step : σ → α → Option σ} {C : σ → α → Prop} {s₀ s₁ s : σ} {as : List α}
    (h : Reaches (fun s a s' => step s a = some s') C s₀ s₁) (hC : Met step C s₁ as)
    (hrun : as.foldlM step s₁ = some s) : Reaches (fun s a s' => step s a = some s') C s₀ s := by
  induction as generalizing s₁ with
  | nil =>
    cases hrun
    exact h
  | cons a as ih =>
    rw [List.foldlM_cons] at hrun
    obtain ⟨s', hs', hrest⟩ := Option.bind_eq_some_iff.1 hrun
    have hmet := hC.2
    rw [hs'] at hmet
    exact ih (h.step hC.1 hs') hmet hrest

end OtgMaster.Lib
