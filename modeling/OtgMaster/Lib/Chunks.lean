import OtgMaster.Lib.Blocks

/-!
A loop that goes over `total` units and takes at most `size` of them in a turn: `chunks size total`
are its turns, each with where it starts and how many units it takes.
-/

namespace OtgMaster.Lib

/-- The turns of a loop over `total` units, `size` at a time: where each starts and what it
takes. -/
def chunks (size total : ℕ) : List (ℕ × ℕ) :=
  (List.range ((total + size - 1) / size)).map fun k => (k * size, min size (total - k * size))

section Chunks

variable {size total : ℕ} {c : ℕ × ℕ}

lemma mem_chunks (h : c ∈ chunks size total) : 0 < c.2 ∧ c.1 + c.2 ≤ total := by
  obtain ⟨k, hk, rfl⟩ := List.mem_map.1 h
  rw [List.mem_range] at hk
  rcases Nat.eq_zero_or_pos size with rfl | hsize
  · simp at hk
  have hlt : (k + 1) * size ≤ total + size - 1 :=
    Nat.le_trans (Nat.mul_le_mul_right size hk) (Nat.div_mul_le_self ..)
  rw [Nat.add_mul, Nat.one_mul] at hlt
  simp only
  omega

lemma chunks_zero : chunks size 0 = [] := by
  rcases Nat.eq_zero_or_pos size with rfl | h
  · simp [chunks]
  · rw [chunks, Nat.div_eq_of_lt (by omega)]
    rfl

lemma exists_chunk {u : ℕ} (hsize : 0 < size) (hu : u < total) :
    ∃ c ∈ chunks size total, c.1 ≤ u ∧ u < c.1 + c.2 := by
  have hmod := Nat.div_add_mod' u size
  have hlt := Nat.mod_lt u hsize
  have hturn : u / size < (total + size - 1) / size := by
    rw [Nat.div_lt_iff_lt_mul hsize]
    have h := Nat.div_add_mod' (total + size - 1) size
    have h' := Nat.mod_lt (total + size - 1) hsize
    omega
  refine ⟨_, List.mem_map.2 ⟨u / size, List.mem_range.2 hturn, rfl⟩, ?_⟩
  simp only
  omega

end Chunks

end OtgMaster.Lib
