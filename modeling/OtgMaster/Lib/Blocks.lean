import Mathlib.Data.List.Basic
import Mathlib.Logic.Basic

/-!
A device as the function of its blocks, a run of blocks written to it (`overwrite`), and a list of
such writes made in order (`rewrite`). A block that some write covers holds afterwards what the last
of them put there, whatever it held before; the other blocks stay.
-/

namespace OtgMaster.Lib

variable {β : Type}

def overwrite (dev : ℕ → β) (start : ℕ) (data : List β) : ℕ → β := fun b =>
  if start ≤ b then (data[b - start]?).getD (dev b) else dev b

section Overwrite

variable {dev dev' : ℕ → β} {start b : ℕ} {data : List β}

lemma overwrite_outside (h : ¬(start ≤ b ∧ b < start + data.length)) :
    overwrite dev start data b = dev b := by
  unfold overwrite
  split
  · rw [List.getElem?_eq_none (by omega)]
    rfl
  · rfl

lemma overwrite_nil : overwrite dev start [] = dev :=
  funext fun _ => overwrite_outside (by simp only [List.length_nil]; omega)

/-- A written block does not depend on what was there. -/
lemma overwrite_inside (h : start ≤ b ∧ b < start + data.length) :
    overwrite dev start data b = overwrite dev' start data b := by
  unfold overwrite
  rw [if_pos h.1, if_pos h.1, List.getElem?_eq_getElem (by omega)]
  rfl

lemma overwrite_split (k : ℕ) :
    overwrite (overwrite dev start (data.take k)) (start + k) (data.drop k) =
      overwrite dev start data := by
  funext b
  unfold overwrite
  rw [List.getElem?_drop, List.getElem?_take]
  split
  · rename_i h
    rw [if_pos (by omega), if_neg (by omega), show k + (b - (start + k)) = b - start by omega]
    simp [show start ≤ b by omega]
  · rename_i h
    split
    · rw [if_pos (by omega)]
    · rfl

end Overwrite

/-! ### Writes in order -/

structure Write (β : Type) where
  block : ℕ
  data : List β

def Write.covers (w : Write β) (b : ℕ) : Bool := w.block ≤ b && b < w.block + w.data.length

lemma Write.covers_iff {w : Write β} {b : ℕ} :
    w.covers b = true ↔ w.block ≤ b ∧ b < w.block + w.data.length := by
  simp [covers]

def rewrite (ws : List (Write β)) (dev : ℕ → β) : ℕ → β :=
  ws.foldl (fun d w => overwrite d w.block w.data) dev

section Rewrite

variable {dev dev' : ℕ → β} {b : ℕ} {w : Write β} {ws ws' : List (Write β)}

lemma rewrite_append : rewrite (ws ++ ws') dev = rewrite ws' (rewrite ws dev) := List.foldl_append ..

lemma rewrite_outside (h : ∀ w ∈ ws, w.covers b = false) : rewrite ws dev b = dev b := by
  induction ws generalizing dev with
  | nil => rfl
  | cons w ws ih =>
    have hw : ¬(w.block ≤ b ∧ b < w.block + w.data.length) := by
      rw [← Write.covers_iff, h w List.mem_cons_self]
      exact Bool.false_ne_true
    exact (ih fun x hx => h x (List.mem_cons_of_mem _ hx)).trans (overwrite_outside hw)

lemma rewrite_covered (dev dev' : ℕ → β) (h : ∃ w ∈ ws, w.covers b = true) :
    rewrite ws dev b = rewrite ws dev' b := by
  induction ws generalizing dev dev' with
  | nil => simp at h
  | cons w ws ih =>
    by_cases hws : ∃ w ∈ ws, w.covers b = true
    · exact ih _ _ hws
    · have hout : ∀ x ∈ ws, x.covers b = false := fun x hx => by
        by_contra hne
        exact hws ⟨x, hx, by simpa using hne⟩
      have hw : w.covers b = true := by
        obtain ⟨x, hx, hc⟩ := h
        rcases List.mem_cons.1 hx with rfl | hx
        · exact hc
        · exact absurd ⟨x, hx, hc⟩ hws
      show rewrite ws _ b = rewrite ws _ b
      rw [rewrite_outside hout, rewrite_outside hout]
      exact overwrite_inside (Write.covers_iff.1 hw)

lemma rewrite_const {v : β} (hv : ∀ w ∈ ws, ∀ x ∈ w.data, x = v) (h : ∃ w ∈ ws, w.covers b = true) :
    rewrite ws dev b = v := by
  have hstay : ∀ ws' : List (Write β), (∀ w ∈ ws', ∀ x ∈ w.data, x = v) →
      rewrite ws' (fun _ => v) = fun _ => v := by
    intro ws' hws
    induction ws' with
    | nil => rfl
    | cons w ws' ih =>
      have hw : overwrite (fun _ => v) w.block w.data = fun _ => v := by
        funext i
        unfold overwrite
        split
        · cases hx : w.data[i - w.block]? with
          | none => rfl
          | some x => exact hws w List.mem_cons_self x (List.mem_of_getElem? hx)
        · rfl
      show rewrite ws' (overwrite _ w.block w.data) = _
      rw [hw]
      exact ih fun x hx => hws x (List.mem_cons_of_mem _ hx)
  rw [rewrite_covered dev (fun _ => v) h, hstay ws hv]

end Rewrite

end OtgMaster.Lib
