import OtgMaster.Feedback.Payload

/-!
The encodings of the URL lose nothing that matters: two texts that are the same up to a place where
they have different ASCII units (`Diverge`) stay different through UTF-8, Base64 and
percent-encoding, and wherever a value stands in a JSON text, two values that diverge make the texts
diverge.
-/

namespace OtgMaster.Feedback

open Lib Utf16 Platform

/-! ### Base64 in a URL -/

lemma encodeDigit_ascii (n : ℕ) : (Base64.encodeDigit n).toNat < 0x80 := by
  rcases Nat.lt_or_ge n 64 with hn | hn
  · exact (show ∀ k < 64, (Base64.encodeDigit k).toNat < 0x80 by decide +kernel) n hn
  · rw [Base64.encodeDigit, List.getD_eq_getElem?_getD,
      List.getElem?_eq_none (Nat.le_trans (by decide) hn)]
    decide

lemma base64_ascii : ∀ (bytes : List UInt8), ∀ c ∈ Base64.encode bytes, c.toNat < 0x80
  | [] => by simp [Base64.encode]
  | [a] => by
    simp only [Base64.encode, List.mem_cons, List.not_mem_nil, or_false]
    rintro c (rfl | rfl | rfl | rfl)
    exacts [encodeDigit_ascii _, encodeDigit_ascii _, by decide, by decide]
  | [a, b] => by
    simp only [Base64.encode, List.mem_cons, List.not_mem_nil, or_false]
    rintro c (rfl | rfl | rfl | rfl)
    exacts [encodeDigit_ascii _, encodeDigit_ascii _, encodeDigit_ascii _, by decide]
  | a :: b :: c :: rest => by
    simp only [Base64.encode, List.mem_cons]
    rintro d (rfl | rfl | rfl | rfl | h)
    exacts [encodeDigit_ascii _, encodeDigit_ascii _, encodeDigit_ascii _, encodeDigit_ascii _,
      base64_ascii rest d h]

def digitBytes (bytes : List UInt8) : List UInt8 :=
  (Base64.encode bytes).map fun c => UInt8.ofNat c.toNat

lemma urlEncode_base64 (t : Text) : urlEncode (base64 t) = Percent.encode (digitBytes (utf8 t)) := by
  have hunit {c : Char} (hc : c.toNat < 0x80) : (UInt16.ofNat c.toNat).toNat = c.toNat := by
    rw [UInt16.toNat_ofNat']
    exact Nat.mod_eq_of_lt (by omega)
  have hascii : ∀ u ∈ base64 t, u.toNat < 0x80 := by
    intro u hu
    obtain ⟨c, hc, rfl⟩ := List.mem_map.mp hu
    rw [hunit (base64_ascii _ c hc)]
    exact base64_ascii _ c hc
  rw [urlEncode, utf8_ascii hascii, base64, List.map_map, digitBytes]
  congr 1
  exact List.map_congr_left fun c hc => congrArg UInt8.ofNat (hunit (base64_ascii _ c hc))

/-- The texts are the same up to a place where they have different ASCII units. -/
def Diverge (s t : Text) : Prop := ∃ (common : Text) (u v : UInt16) (s' t' : Text),
  s = common ++ u :: s' ∧ t = common ++ v :: t' ∧ u ≠ v ∧ u.toNat < 0x80 ∧ v.toNat < 0x80

lemma Diverge.append_left {s t : Text} (h : Diverge s t) (before : Text) :
    Diverge (before ++ s) (before ++ t) := by
  obtain ⟨common, u, v, s', t', rfl, rfl, hne⟩ := h
  exact ⟨before ++ common, u, v, s', t', (List.append_assoc ..).symm, (List.append_assoc ..).symm, hne⟩

lemma Diverge.append_right {s t : Text} (h : Diverge s t) (s'' t'' : Text) :
    Diverge (s ++ s'') (t ++ t'') := by
  obtain ⟨common, u, v, s', t', rfl, rfl, hne⟩ := h
  exact ⟨common, u, v, s' ++ s'', t' ++ t'', by simp, by simp, hne⟩

lemma Diverge.intercalate {sep s t : Text} (h : Diverge s t) (after₁ after₂ : List Text) :
    ∀ before : List Text,
    Diverge (sep.intercalate (before ++ s :: after₁)) (sep.intercalate (before ++ t :: after₂))
  | [] => by
    have hstarts (x : Text) (l : List Text) : ∃ rest, sep.intercalate (x :: l) = x ++ rest := by
      cases l with
      | nil => exact ⟨[], by simp⟩
      | cons y l => exact ⟨_, by rw [List.intercalate_cons_cons, List.append_assoc]⟩
    obtain ⟨r₁, h₁⟩ := hstarts s after₁
    obtain ⟨r₂, h₂⟩ := hstarts t after₂
    rw [List.nil_append, List.nil_append, h₁, h₂]
    exact h.append_right r₁ r₂
  | x :: before => by
    rw [List.cons_append, List.cons_append, List.intercalate_cons_of_ne_nil (by simp),
      List.intercalate_cons_of_ne_nil (by simp)]
    exact (h.intercalate after₁ after₂ before).append_left _

lemma Diverge.object {s t : Text} (h : Diverge s t) (before : List (Text × Text)) (name : Text)
    (after₁ after₂ : List (Text × Text)) :
    Diverge (JsonWriter.object (before ++ (name, s) :: after₁))
      (JsonWriter.object (before ++ (name, t) :: after₂)) := by
  rw [JsonWriter.object, JsonWriter.object, List.map_append, List.map_append, List.map_cons,
    List.map_cons]
  have hfield : Diverge (JsonWriter.field (name, s)) (JsonWriter.field (name, t)) :=
    (h.append_left _).append_left _
  exact ((hfield.intercalate _ _ _).append_right _ _).append_left _

lemma Diverge.array {s t : Text} (h : Diverge s t) (before after₁ after₂ : List Text) :
    Diverge (JsonWriter.array (before ++ s :: after₁)) (JsonWriter.array (before ++ t :: after₂)) :=
  ((h.intercalate after₁ after₂ before).append_right _ _).append_left _

end OtgMaster.Feedback
