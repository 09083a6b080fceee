import Mathlib.Logic.Relation

/-!
Walks that are led from one place to the next by what they find there.
-/

namespace OtgMaster.Lib

variable {α : Type} {next : α → Option α} {need : α → Prop} {p q : α}

/-- Every place that the walk from `p` comes to is as needed. -/
def Always (next : α → Option α) (need : α → Prop) (p : α) : Prop :=
  ∀ q, Relation.ReflTransGen (fun p q => next p = some q) p q → need q

lemma always_iff : Always next need p ↔ need p ∧ ∀ q, next p = some q → Always next need q := by
  constructor
  · intro h
    exact ⟨h p .refl, fun q hq r hr => h r (.head hq hr)⟩
  · rintro ⟨hp, hrest⟩ r hr
    rcases hr.cases_head with rfl | ⟨q, hq, hr⟩
    · exact hp
    · exact hrest q hq r hr

lemma always_last (h : next p = none) : Always next need p ↔ need p := by
  rw [always_iff]
  exact and_iff_left fun q hq => by rw [h] at hq; cases hq

lemma always_step (h : next p = some q) : Always next need p ↔ need p ∧ Always next need q := by
  rw [always_iff]
  refine and_congr_right fun _ => ⟨fun hall => hall q h, fun hq r hr => ?_⟩
  rw [h] at hr
  cases hr
  exact hq

end OtgMaster.Lib
