import OtgMaster.Lib.Utf16

/-!
The text that `org.json` writes for a value: objects keep the order in which their fields were put,
nothing is indented, and a string is escaped unit by unit.
-/

namespace OtgMaster.Platform.JsonWriter

open Lib.Utf16

def hexDigit (n : ℕ) : UInt16 := UInt16.ofNat (if n < 10 then 0x30 + n else 0x57 + n)

/-- The escape of a unit that has a short one; quote, backslash and slash stand for themselves. -/
def shortEscape : ℕ → Option UInt16
  | 0x22 => some 0x22
  | 0x5C => some 0x5C
  | 0x2F => some 0x2F
  | 0x09 => some 0x74
  | 0x08 => some 0x62
  | 0x0A => some 0x6E
  | 0x0D => some 0x72
  | 0x0C => some 0x66
  | _ => none

/-- `JSONStringer.string`, of one unit. -/
def escapeUnit (u : UInt16) : Text :=
  match shortEscape u.toNat with
  | some v => [0x5C, v]
  | none =>
    if u.toNat ≤ 0x1F then
      [0x5C, 0x75, 0x30, 0x30, hexDigit (u.toNat / 16), hexDigit (u.toNat % 16)]
    else [u]

def escape (t : Text) : Text := t.flatMap escapeUnit

def string (t : Text) : Text := text "\"" ++ escape t ++ text "\""

def decimal (n : ℕ) : Text := (Nat.toDigits 10 n).map fun c => UInt16.ofNat c.toNat

lemma mem_decimal {n : ℕ} {u : UInt16} (h : u ∈ decimal n) : 0x30 ≤ u.toNat ∧ u.toNat ≤ 0x39 := by
  obtain ⟨c, hc, rfl⟩ := List.mem_map.mp h
  have hdigit := Nat.isDigit_of_mem_toDigits (by decide) (by decide) hc
  rw [Char.isDigit, Bool.and_eq_true, decide_eq_true_eq, decide_eq_true_eq] at hdigit
  have hlo : 0x30 ≤ c.toNat := hdigit.1
  have hhi : c.toNat ≤ 0x39 := hdigit.2
  rw [UInt16.toNat_ofNat', Nat.mod_eq_of_lt (by omega)]
  exact ⟨hlo, hhi⟩

lemma length_decimal_le {n k : ℕ} (hk : 0 < k) (h : n < 10 ^ k) : (decimal n).length ≤ k := by
  rw [decimal, List.length_map]
  exact (Nat.length_toDigits_le_iff (by decide) hk).mpr h

def boolean (b : Bool) : Text := if b then text "true" else text "false"

def field (f : Text × Text) : Text := string f.1 ++ (text ":" ++ f.2)

def object (fields : List (Text × Text)) : Text :=
  text "\x7b" ++ ((text ",").intercalate (fields.map field) ++ text "\x7d")

def array (items : List Text) : Text := text "[" ++ ((text ",").intercalate items ++ text "]")

end OtgMaster.Platform.JsonWriter
