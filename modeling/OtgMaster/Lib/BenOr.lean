import Mathlib.Algebra.Polynomial.BigOperators
import Mathlib.FieldTheory.Finite.Extension
import Mathlib.RingTheory.Polynomial.UniqueFactorization

/-!
Ben-Or's test. Over a field of `q` elements the irreducible polynomials that divide `X ^ q ^ i - X`
are those whose degree divides `i`; a polynomial that is not irreducible has an irreducible factor
of at most half its degree. So a monic polynomial is irreducible just when it is coprime to `X ^ q ^
i - X` for each `i` up to half its degree.
-/

namespace OtgMaster.Lib

open Polynomial

variable {k : Type*} [Field k] {f : k[X]}

/-- An irreducible polynomial has no factor in common with `X ^ q ^ i - X` while `i` is below its
degree. -/
lemma coprime_of_irreducible (hf : Irreducible f) {i : ℕ} (hi : 0 < i) (hlt : i < f.natDegree) :
    IsCoprime f (X ^ Nat.card k ^ i - X) := by
  rw [hf.coprime_iff_not_dvd]
  intro hdvd
  have := Nat.le_of_dvd hi (hf.natDegree_dvd_of_dvd_X_pow_card_pow_sub_X hdvd)
  omega

/-- **Ben-Or's test.** -/
theorem irreducible_iff_coprime [Finite k] (hmonic : f.Monic) (hdeg : 0 < f.natDegree) :
    Irreducible f ↔ ∀ i, 0 < i → i ≤ f.natDegree / 2 → IsCoprime f (X ^ Nat.card k ^ i - X) := by
  have hne : f ≠ 1 := by
    rintro rfl
    rw [natDegree_one] at hdeg
    exact lt_irrefl 0 hdeg
  constructor
  · intro hf i hi hle
    exact coprime_of_irreducible hf hi (by omega)
  · intro h
    rw [hmonic.irreducible_iff_lt_natDegree_lt hne]
    intro g hg hmem hdvd
    rw [Finset.mem_Ioc] at hmem
    -- an irreducible factor of `g` is one of `f`
    have hunit : ¬IsUnit g := fun hu => by
      rw [hg.isUnit_iff.1 hu, natDegree_one] at hmem
      exact lt_irrefl 0 hmem.1
    obtain ⟨p, hp, hpg⟩ := WfDvdMonoid.exists_irreducible_factor hunit hg.ne_zero
    have hle : p.natDegree ≤ g.natDegree := natDegree_le_of_dvd hpg hg.ne_zero
    have hdiv : p ∣ X ^ Nat.card k ^ p.natDegree - X :=
      hp.natDegree_dvd_iff_dvd_X_pow_card_pow_sub_X.1 dvd_rfl
    exact hp.not_isUnit ((h _ hp.natDegree_pos (hle.trans hmem.2)).isUnit_of_dvd' (hpg.trans hdvd) hdiv)

end OtgMaster.Lib
