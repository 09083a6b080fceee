import OtgMaster.Lib.Utf16

/-!
Percent-encoding as `application/x-www-form-urlencoded` has it: letters, digits and four marks stay,
a blank is a plus sign, and any other byte is a percent sign and two digits. What is encoded is
decoded again (`decode_encode`).
-/

namespace OtgMaster.Lib.Percent

open Utf16

/-- The bytes that stay: letters, digits and `.`, `-`, `*`, `_`. -/
def unreserved (b : UInt8) : Bool :=
  let n := b.toNat
  (0x30 ≤ n && n ≤ 0x39) || (0x41 ≤ n && n ≤ 0x5A) || (0x61 ≤ n && n ≤ 0x7A) ||
    n == 0x2E || n == 0x2D || n == 0x2A || n == 0x5F

def hexDigit (n : ℕ) : UInt16 := UInt16.ofNat (if n < 10 then 0x30 + n else 0x37 + n)

def encodeByte (b : UInt8) : Text :=
  if unreserved b then [UInt16.ofNat b.toNat]
  else if b.toNat = 0x20 then [0x2B]
  else [0x25, hexDigit (b.toNat / 16), hexDigit (b.toNat % 16)]

def encode (bytes : List UInt8) : Text := bytes.flatMap encodeByte

def digitValue (u : UInt16) : ℕ := if u.toNat < 0x3A then u.toNat - 0x30 else u.toNat - 0x37

def decode : Text → List UInt8
  | [] => []
  | [u] => [if u.toNat = 0x2B then 0x20 else UInt8.ofNat u.toNat]
  | [u, v] => (if u.toNat = 0x2B then 0x20 else UInt8.ofNat u.toNat) :: decode [v]
  | u :: v :: w :: rest =>
    if u.toNat = 0x25 then UInt8.ofNat (digitValue v * 16 + digitValue w) :: decode rest
    else (if u.toNat = 0x2B then 0x20 else UInt8.ofNat u.toNat) :: decode (v :: w :: rest)

lemma digitValue_hexDigit : ∀ n < 16, digitValue (hexDigit n) = n := by decide +kernel

lemma decode_cons {u : UInt16} (h : u.toNat ≠ 0x25) (rest : Text) :
    decode (u :: rest) = (if u.toNat = 0x2B then 0x20 else UInt8.ofNat u.toNat) :: decode rest := by
  match rest with
  | [] => simp only [decode]
  | [v] => simp only [decode]
  | v :: w :: rest => rw [decode, if_neg h]

lemma decode_encodeByte (b : UInt8) (rest : Text) :
    decode (encodeByte b ++ rest) = b :: decode rest := by
  have hb := b.toNat_lt
  rw [encodeByte]
  by_cases hstays : unreserved b = true
  · rw [if_pos hstays, List.singleton_append]
    simp only [unreserved, Bool.or_eq_true, Bool.and_eq_true, decide_eq_true_eq, beq_iff_eq] at hstays
    have htoNat : (UInt16.ofNat b.toNat).toNat = b.toNat := by
      rw [UInt16.toNat_ofNat']
      exact Nat.mod_eq_of_lt (by omega)
    rw [decode_cons (by omega), htoNat, if_neg (by omega), UInt8.ofNat_toNat]
  · rw [if_neg hstays]
    split
    · rename_i hblank
      rw [List.singleton_append, decode_cons (by decide), if_pos (by decide)]
      congr 1
      exact (UInt8.toNat_inj.mp hblank).symm
    · rw [List.cons_append, List.cons_append, List.cons_append, List.nil_append, decode,
        if_pos (by decide),
        digitValue_hexDigit _ (by omega), digitValue_hexDigit _ (Nat.mod_lt _ (by omega)),
        Nat.div_add_mod', UInt8.ofNat_toNat]

theorem decode_encode : ∀ bytes : List UInt8, decode (encode bytes) = bytes
  | [] => rfl
  | b :: bytes => by
    rw [encode, List.flatMap_cons, decode_encodeByte]
    exact congrArg (b :: ·) (decode_encode bytes)

end OtgMaster.Lib.Percent
