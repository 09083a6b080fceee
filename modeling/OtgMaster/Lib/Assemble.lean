import Mathlib.Data.List.Basic
import Mathlib.Logic.Basic

/-!
A buffer assembled from pieces that are copied to their offsets. A range of the buffer that no piece
touches stays as it was, and a piece that no later piece touches is read back.
-/

namespace OtgMaster.Lib

variable {α : Type}

def copyInto (src l : List α) (offset : ℕ) : List α :=
  l.take offset ++ src ++ l.drop (offset + src.length)

section CopyInto

variable {src l : List α} {o a n : ℕ}

lemma copyInto_length (h : o + src.length ≤ l.length) : (copyInto src l o).length = l.length := by
  simp only [copyInto, List.length_append, List.length_take, List.length_drop]
  omega

lemma copyInto_zero : copyInto src l 0 = src ++ l.drop src.length := by simp [copyInto]

lemma getElem?_copyInto (h : o ≤ l.length) (i : ℕ) :
    (copyInto src l o)[i]? = if o ≤ i ∧ i < o + src.length then src[i - o]? else l[i]? := by
  have hlen : (l.take o).length = o := List.length_take_of_le h
  unfold copyInto
  rcases Nat.lt_or_ge i o with hi | hi
  · rw [if_neg (by omega), List.append_assoc, List.getElem?_append_left (by omega),
      List.getElem?_take, if_pos hi]
  rcases Nat.lt_or_ge i (o + src.length) with hi' | hi'
  · rw [if_pos ⟨hi, hi'⟩, List.getElem?_append_left (by rw [List.length_append]; omega),
      List.getElem?_append_right (by omega), hlen]
  · rw [if_neg (by omega), List.getElem?_append_right (by rw [List.length_append]; omega),
      List.getElem?_drop, List.length_append, hlen]
    congr 1
    omega

lemma range_copyInto_outside (ho : o ≤ l.length) (h : a + n ≤ o ∨ o + src.length ≤ a) :
    ((copyInto src l o).drop a).take n = (l.drop a).take n := by
  refine List.ext_getElem? fun i => ?_
  rw [List.getElem?_take, List.getElem?_take, List.getElem?_drop, List.getElem?_drop,
    getElem?_copyInto ho]
  split
  · rw [if_neg (by omega)]
  · rfl

lemma range_copyInto (ho : o ≤ l.length) : ((copyInto src l o).drop o).take src.length = src := by
  have hlen : (l.take o).length = o := List.length_take_of_le ho
  rw [copyInto, List.append_assoc, List.drop_left' hlen, List.take_left]

end CopyInto

/-! ### Pieces in order -/

def assemble (l : List α) (ps : List (List α × ℕ)) : List α := ps.foldl (fun l p => copyInto p.1 l p.2) l

section Assemble

variable {l : List α} {ps : List (List α × ℕ)} {p : List α × ℕ} {a n : ℕ}

lemma assemble_length (h : ∀ p ∈ ps, p.2 + p.1.length ≤ l.length) :
    (assemble l ps).length = l.length := by
  induction ps generalizing l with
  | nil => rfl
  | cons p ps ih =>
    have hp := copyInto_length (h p List.mem_cons_self)
    exact (ih (by rw [hp]; exact fun q hq => h q (List.mem_cons_of_mem _ hq))).trans hp

lemma range_assemble_outside (h : ∀ p ∈ ps, p.2 + p.1.length ≤ l.length)
    (hout : ∀ p ∈ ps, a + n ≤ p.2 ∨ p.2 + p.1.length ≤ a) :
    ((assemble l ps).drop a).take n = (l.drop a).take n := by
  induction ps generalizing l with
  | nil => rfl
  | cons p ps ih =>
    have hp := h p List.mem_cons_self
    have hrest : ∀ q ∈ ps, q.2 + q.1.length ≤ (copyInto p.1 l p.2).length := by
      rw [copyInto_length hp]
      exact fun q hq => h q (List.mem_cons_of_mem _ hq)
    exact (ih hrest fun q hq => hout q (List.mem_cons_of_mem _ hq)).trans
      (range_copyInto_outside (by omega) (hout p List.mem_cons_self))

lemma range_assemble {i : ℕ} (hi : ps[i]? = some p) (h : ∀ q ∈ ps, q.2 + q.1.length ≤ l.length)
    (hout : ∀ q ∈ ps.drop (i + 1), p.2 + p.1.length ≤ q.2 ∨ q.2 + q.1.length ≤ p.2) :
    ((assemble l ps).drop p.2).take p.1.length = p.1 := by
  have hps : (assemble l (ps.take i)).length = l.length :=
    assemble_length fun q hq => h q (List.mem_of_mem_take hq)
  have hp : p.2 + p.1.length ≤ (assemble l (ps.take i)).length := by
    rw [hps]
    exact h p (List.mem_of_getElem? hi)
  obtain ⟨hlt, hget⟩ := List.getElem?_eq_some_iff.1 hi
  have hsplit : assemble l ps = assemble (copyInto p.1 (assemble l (ps.take i)) p.2)
      (ps.drop (i + 1)) := by
    conv_lhs => rw [← List.take_append_drop i ps, List.drop_eq_getElem_cons hlt, hget]
    rw [assemble, List.foldl_append]
    rfl
  rw [hsplit]
  refine (range_assemble_outside (fun q hq => ?_) hout).trans (range_copyInto (by omega))
  rw [copyInto_length hp, hps]
  exact h q (List.mem_of_mem_drop hq)

end Assemble

end OtgMaster.Lib
