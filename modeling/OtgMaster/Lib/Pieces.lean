import Mathlib.Data.List.Basic
import Mathlib.Data.List.Nodup
import Mathlib.Data.List.Range

/-!
Partial functions on the natural numbers given by pieces: a piece sends a run of numbers to a run of
numbers, with a tag. `look` reads the function off a list of pieces, `Ordered` says that the pieces
follow one another, and `targets` are the numbers the pieces lead to.
-/

namespace OtgMaster.Lib

/-- The `count` numbers from `start` on go to the numbers from `base` on. -/
@[ext]
structure Piece (τ : Type) where
  start : ℕ
  count : ℕ
  base : ℕ
  tag : τ
  deriving DecidableEq

namespace Piece

variable {τ : Type}

def Covers (p : Piece τ) (t : ℕ) : Prop := p.start ≤ t ∧ t < p.start + p.count

instance (p : Piece τ) (t : ℕ) : Decidable (p.Covers t) := inferInstanceAs (Decidable (_ ∧ _))

def look : List (Piece τ) → ℕ → Option (ℕ × τ)
  | [], _ => none
  | p :: ps, t => if p.Covers t then some (p.base + (t - p.start), p.tag) else look ps t

/-- The pieces are not empty and follow one another, from `lo` on and up to `hi`. -/
def Ordered : ℕ → ℕ → List (Piece τ) → Prop
  | lo, hi, [] => lo ≤ hi
  | lo, hi, p :: ps => lo ≤ p.start ∧ 0 < p.count ∧ Ordered (p.start + p.count) hi ps

section Ordered

variable {lo mid hi t : ℕ} {p : Piece τ} {ps qs : List (Piece τ)}

lemma Ordered.le : ∀ {ps : List (Piece τ)} {lo : ℕ}, Ordered lo hi ps → lo ≤ hi
  | [], _, h => h
  | p :: ps, lo, h => by
    have := Ordered.le h.2.2
    have := h.1
    omega

lemma Ordered.append : ∀ {ps : List (Piece τ)} {lo : ℕ}, Ordered lo mid ps → Ordered mid hi qs →
    Ordered lo hi (ps ++ qs)
  | [], lo, h, hq => by
    cases qs with
    | nil => exact Nat.le_trans h hq
    | cons q qs => exact ⟨Nat.le_trans h hq.1, hq.2⟩
  | p :: ps, lo, h, hq => ⟨h.1, h.2.1, Ordered.append h.2.2 hq⟩

lemma Ordered.mono {hi' : ℕ} : ∀ {ps : List (Piece τ)} {lo lo' : ℕ}, Ordered lo hi ps → lo' ≤ lo →
    hi ≤ hi' → Ordered lo' hi' ps
  | [], _, _, h, hlo, hhi => Nat.le_trans hlo (Nat.le_trans h hhi)
  | _ :: _, _, _, h, hlo, hhi => ⟨Nat.le_trans hlo h.1, h.2.1, Ordered.mono h.2.2 le_rfl hhi⟩

lemma Ordered.mem : ∀ {ps : List (Piece τ)} {lo : ℕ}, Ordered lo hi ps → p ∈ ps →
    lo ≤ p.start ∧ 0 < p.count ∧ p.start + p.count ≤ hi
  | q :: ps, lo, h, hp => by
    rcases List.mem_cons.1 hp with rfl | hp
    · exact ⟨h.1, h.2.1, h.2.2.le⟩
    · have := Ordered.mem h.2.2 hp
      have := h.1
      omega

lemma Ordered.covers_unique {p q : Piece τ} (h : Ordered lo hi ps) (hp : p ∈ ps) (hq : q ∈ ps)
    (hpt : p.Covers t) (hqt : q.Covers t) : p = q := by
  induction ps generalizing lo with
  | nil => cases hp
  | cons x ps ih =>
    have hlater : ∀ y ∈ ps, y.Covers t → ¬x.Covers t := fun y hy hyt hxt => by
      have := h.2.2.mem hy
      unfold Covers at hyt hxt
      omega
    rcases List.mem_cons.1 hp with hpx | hps <;> rcases List.mem_cons.1 hq with hqx | hqs
    · rw [hpx, hqx]
    · exact absurd (hpx ▸ hpt) (hlater q hqs hqt)
    · exact absurd (hqx ▸ hqt) (hlater p hps hpt)
    · exact ih h.2.2 hps hqs

end Ordered

section Look

variable {lo hi t b : ℕ} {g : τ} {p : Piece τ} {ps qs : List (Piece τ)}

lemma look_mem : ∀ {ps : List (Piece τ)}, look ps t = some (b, g) →
    ∃ p ∈ ps, p.Covers t ∧ b = p.base + (t - p.start) ∧ g = p.tag
  | q :: ps, h => by
    unfold look at h
    split at h
    · cases h
      exact ⟨q, List.mem_cons_self .., ‹_›, rfl, rfl⟩
    · obtain ⟨p, hp, hrest⟩ := look_mem h
      exact ⟨p, List.mem_cons_of_mem _ hp, hrest⟩

lemma look_eq_none : look ps t = none ↔ ∀ p ∈ ps, ¬p.Covers t := by
  induction ps with
  | nil => simp [look]
  | cons p ps ih =>
    by_cases hp : p.Covers t
    · simp [look, hp]
    · simp [look, hp, ih]

lemma look_below (h : Ordered lo hi ps) (ht : t < lo) : look ps t = none :=
  look_eq_none.2 fun p hp hcov => by
    have := h.mem hp
    unfold Covers at hcov
    omega

lemma look_above (h : Ordered lo hi ps) (ht : hi ≤ t) : look ps t = none :=
  look_eq_none.2 fun p hp hcov => by
    have := h.mem hp
    unfold Covers at hcov
    omega

lemma look_append : look (ps ++ qs) t = (look ps t).or (look qs t) := by
  induction ps with
  | nil => rfl
  | cons p ps ih =>
    rw [List.cons_append, look, look, ih]
    split <;> rfl

lemma look_append_left (h : Ordered lo hi qs) (ht : t < lo) : look (ps ++ qs) t = look ps t := by
  rw [look_append, look_below h ht, Option.or_none]

lemma look_append_right (h : Ordered lo hi ps) (ht : hi ≤ t) : look (ps ++ qs) t = look qs t := by
  rw [look_append, look_above h ht, Option.none_or]

end Look

end Piece

end OtgMaster.Lib
