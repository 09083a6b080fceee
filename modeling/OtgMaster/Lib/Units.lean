import Mathlib.Data.List.Basic
import Mathlib.Logic.Basic

/-!
A function applied to a list unit by unit (`mapUnits`), each unit with its number, as a block cipher
is applied to the sectors of a buffer. Two functions that undo one another on a unit undo one
another on the list, and the second may be given fewer units than the first was.
-/

namespace OtgMaster.Lib

variable {α : Type}

/-- The first `k` units of `n` elements, each mapped by `f` with its number, counted from `i`; what
follows them stays. -/
def mapUnits (f : ℕ → List α → List α) (n : ℕ) : (k i : ℕ) → List α → List α
  | 0, _, l => l
  | k + 1, i, l => f i (l.take n) ++ mapUnits f n k (i + 1) (l.drop n)

variable {f g : ℕ → List α → List α} {n : ℕ}

lemma length_mapUnits (hf : ∀ i l, l.length ≤ n → (f i l).length = l.length) :
    ∀ (k i : ℕ) (l : List α), (mapUnits f n k i l).length = l.length := by
  intro k
  induction k with
  | zero => intro i l; rfl
  | succ k ih =>
    intro i l
    rw [mapUnits, List.length_append, hf _ _ (List.length_take_le ..), ih, List.length_take,
      List.length_drop]
    omega

lemma mapUnits_last : ∀ (k i : ℕ) (l : List α), k * n ≤ l.length →
    mapUnits f n (k + 1) i l = mapUnits f n k i (l.take (k * n)) ++
      f (i + k) ((l.drop (k * n)).take n) ++ l.drop (k * n + n) := by
  intro k
  induction k with
  | zero => intro i l _; simp [mapUnits]
  | succ k ih =>
    intro i l hl
    rw [Nat.succ_mul, Nat.add_comm (k * n) n] at hl ⊢
    have hdrop : (l.take (n + k * n)).drop n = (l.drop n).take (k * n) := by
      rw [List.drop_take, Nat.add_sub_cancel_left]
    rw [mapUnits, ih (i + 1) (l.drop n) (by rw [List.length_drop]; omega), mapUnits, hdrop,
      List.take_take, Nat.min_eq_left (Nat.le_add_right _ _), List.drop_drop, List.drop_drop,
      Nat.add_right_comm i 1 k, Nat.add_assoc i k 1, Nat.add_assoc n]
    simp only [List.append_assoc]

lemma mapUnits_congr {a b : ℕ} (hfg : ∀ i l, l.length = n → f (a + i) l = g (b + i) l) :
    ∀ (k i : ℕ) (l : List α), k * n ≤ l.length →
    mapUnits f n k (a + i) l = mapUnits g n k (b + i) l := by
  intro k
  induction k with
  | zero => intro i l _; rfl
  | succ k ih =>
    intro i l hl
    rw [Nat.succ_mul] at hl
    rw [mapUnits, mapUnits, hfg i _ (List.length_take_of_le (by omega)), Nat.add_assoc, Nat.add_assoc,
      ih (i + 1) _ (by rw [List.length_drop]; omega)]

theorem mapUnits_undo (hf : ∀ i l, (f i l).length = l.length)
    (hg : ∀ i l, l.length = n → g i (f i l) = l) :
    ∀ (k j i : ℕ) (l : List α), (k + j) * n ≤ l.length →
      mapUnits g n k i ((mapUnits f n (k + j) i l).take (k * n)) = l.take (k * n) := by
  intro k
  induction k with
  | zero => intro j i l _; simp [mapUnits]
  | succ k ih =>
    intro j i l hl
    rw [Nat.add_right_comm, Nat.succ_mul] at hl
    have hn : (l.take n).length = n := List.length_take_of_le (by omega)
    have hfn : (f i (l.take n)).length = n := (hf i _).trans hn
    -- the first unit comes out as it was, and the induction hypothesis is about the others
    have htail := ih j (i + 1) (l.drop n) (by rw [List.length_drop]; omega)
    have hhead : (mapUnits f n (k + j + 1) i l).take (n + k * n) =
        f i (l.take n) ++ (mapUnits f n (k + j) (i + 1) (l.drop n)).take (k * n) := by
      rw [mapUnits, List.take_add, List.take_left' hfn, List.drop_left' hfn]
    rw [Nat.add_right_comm, Nat.succ_mul, Nat.add_comm (k * n) n, hhead, mapUnits, List.take_left' hfn,
      List.drop_left' hfn, hg i _ hn, htail, List.take_add]

lemma unit_mapUnits (hf : ∀ i l, (f i l).length = l.length) :
    ∀ (k i m : ℕ) (l : List α), k * n ≤ l.length → m < k →
      ((mapUnits f n k i l).drop (m * n)).take n = f (i + m) ((l.drop (m * n)).take n) := by
  intro k
  induction k with
  | zero => intro i m l _ hm; omega
  | succ k ih =>
    intro i m l hl hm
    rw [Nat.succ_mul] at hl
    have hlen : (f i (l.take n)).length = n := (hf i _).trans (List.length_take_of_le (by omega))
    rw [mapUnits]
    cases m with
    | zero => rw [Nat.zero_mul, List.drop_zero, List.take_left' hlen, List.drop_zero, Nat.add_zero]
    | succ m =>
      rw [Nat.succ_mul, Nat.add_comm (m * n) n, ← List.drop_drop, List.drop_left' hlen,
        ih (i + 1) m (l.drop n) (by rw [List.length_drop]; omega) (by omega), List.drop_drop,
        Nat.add_assoc, Nat.add_comm 1 m]

end OtgMaster.Lib
