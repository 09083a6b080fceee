import Mathlib.Logic.Function.Basic
import Mathlib.Data.List.Basic

/-!
Sweeps over an array that change its entries in place, one after the other. An entry is changed by a
value that the other entries give (`Blind`), so that the change can be taken back while the others
are as they were: a sweep is undone by the sweep the other way (`sweep_reverse`).
-/

namespace OtgMaster.Lib

section InPlace

variable {ι α : Type*} [DecidableEq ι] {op op' : α → α → α} {g : ι → (ι → α) → α} {p q : ι} {d : ι → α}

/-- Entry `p` of the array changed by the value that `g` makes of the array for it. -/
def bump (op : α → α → α) (g : ι → (ι → α) → α) (p : ι) (d : ι → α) : ι → α :=
  Function.update d p (op (d p) (g p d))

/-- The entries `ps` changed in this order. -/
def sweep (op : α → α → α) (g : ι → (ι → α) → α) (ps : List ι) (d : ι → α) : ι → α :=
  ps.foldl (fun d p => bump op g p d) d

/-- The value for entry `p` does not depend on the entry itself. -/
def Blind (g : ι → (ι → α) → α) (p : ι) : Prop := ∀ d x, g p (Function.update d p x) = g p d

lemma bump_bump (hg : Blind g p) (hop : ∀ x y, op' (op x y) y = x) :
    bump op' g p (bump op g p d) = d := by
  unfold bump
  rw [hg, Function.update_self, Function.update_idem, hop, Function.update_eq_self]

lemma sweep_cons (ps : List ι) : sweep op g (p :: ps) d = sweep op g ps (bump op g p d) := rfl

lemma sweep_append (ps qs : List ι) : sweep op g (ps ++ qs) d = sweep op g qs (sweep op g ps d) :=
  List.foldl_append

/-- **A sweep is undone** by the inverse changes in the opposite order. -/
theorem sweep_reverse (hop : ∀ x y, op' (op x y) y = x) {ps : List ι} (hg : ∀ p ∈ ps, Blind g p)
    (d : ι → α) : sweep op' g ps.reverse (sweep op g ps d) = d := by
  induction ps generalizing d with
  | nil => rfl
  | cons p ps ih =>
    rw [List.reverse_cons, sweep_append, sweep_cons ps, ih fun q hq => hg q (List.mem_cons_of_mem _ hq)]
    exact bump_bump (hg p List.mem_cons_self) hop

lemma sweep_outside {ps : List ι} (hq : q ∉ ps) : sweep op g ps d q = d q := by
  induction ps generalizing d with
  | nil => rfl
  | cons p ps ih =>
    rw [List.mem_cons, not_or] at hq
    rw [sweep_cons, ih hq.2, bump, Function.update_of_ne hq.1]

end InPlace

end OtgMaster.Lib
