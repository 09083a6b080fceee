import Mathlib

/-!
Base64 with padding: three bytes are four digits of six bits. The decoder also takes a last group
without its padding. What is encoded is decoded again (`decode_encode`).
-/

namespace OtgMaster.Lib.Base64

def digits : List Char := "ABCDEFGHIJKLMNOPQRSTUVWXYZabcdefghijklmnopqrstuvwxyz0123456789+/".toList

def encodeDigit (n : ℕ) : Char := digits.getD n '='

def decodeDigit (c : Char) : Option ℕ := digits.idxOf? c

def encode : List UInt8 → List Char
  | [] => []
  | [a] => [encodeDigit (a.toNat / 4), encodeDigit (a.toNat % 4 * 16), '=', '=']
  | [a, b] => [encodeDigit (a.toNat / 4), encodeDigit (a.toNat % 4 * 16 + b.toNat / 16),
      encodeDigit (b.toNat % 16 * 4), '=']
  | a :: b :: c :: rest => encodeDigit (a.toNat / 4) :: encodeDigit (a.toNat % 4 * 16 + b.toNat / 16) ::
      encodeDigit (b.toNat % 16 * 4 + c.toNat / 64) :: encodeDigit (c.toNat % 64) :: encode rest

/-- The byte that the digits `x` and `y` give, of which `x` holds `k` bits more than `y`. -/
def joinByte (x y k : ℕ) : UInt8 := UInt8.ofNat (x % 2 ^ k * 2 ^ (8 - k) + y / 2 ^ (k - 2))

def decodeOne (a b : Char) : Option (List UInt8) := do
  let x ← decodeDigit a
  let y ← decodeDigit b
  return [joinByte x y 6]

def decodeTwo (a b c : Char) : Option (List UInt8) := do
  let x ← decodeDigit a
  let y ← decodeDigit b
  let z ← decodeDigit c
  return [joinByte x y 6, joinByte y z 4]

def decode : List Char → Option (List UInt8)
  | [] => some []
  | [_] => none
  | [a, b] => decodeOne a b
  | [a, b, c] => decodeTwo a b c
  | a :: b :: c :: d :: rest =>
    if d = '=' then
      -- padding ends the text
      if rest ≠ [] then none else if c = '=' then decodeOne a b else decodeTwo a b c
    else do
      let x ← decodeDigit a
      let y ← decodeDigit b
      let z ← decodeDigit c
      let u ← decodeDigit d
      let bytes ← decode rest
      return joinByte x y 6 :: joinByte y z 4 :: joinByte z u 2 :: bytes

lemma decodeDigit_encodeDigit : ∀ n < 64, decodeDigit (encodeDigit n) = some n := by decide +kernel

lemma encodeDigit_ne_pad : ∀ n < 64, encodeDigit n ≠ '=' := by decide +kernel

lemma joinByte_eq (a : UInt8) {x y k : ℕ} (h : x % 2 ^ k * 2 ^ (8 - k) + y / 2 ^ (k - 2) = a.toNat) :
    joinByte x y k = a := by
  rw [joinByte, h, UInt8.ofNat_toNat]

theorem decode_encode : ∀ bytes : List UInt8, decode (encode bytes) = some bytes
  | [] => rfl
  | [a] => by
    have ha := a.toNat_lt
    simp only [encode, decode, if_true, ne_eq, not_true, if_false, decodeOne]
    rw [decodeDigit_encodeDigit _ (by omega), decodeDigit_encodeDigit _ (by omega)]
    exact congrArg (fun x => some [x]) (joinByte_eq a (by omega))
  | [a, b] => by
    have ha := a.toNat_lt
    have hb := b.toNat_lt
    have hpad := encodeDigit_ne_pad (b.toNat % 16 * 4) (by omega)
    simp only [encode, decode, if_true, ne_eq, not_true, if_false, hpad, decodeTwo]
    rw [decodeDigit_encodeDigit _ (by omega), decodeDigit_encodeDigit _ (by omega),
      decodeDigit_encodeDigit _ (by omega)]
    show some [joinByte _ _ 6, joinByte _ _ 4] = _
    rw [joinByte_eq a (by omega), joinByte_eq b (by omega)]
  | a :: b :: c :: rest => by
    have ha := a.toNat_lt
    have hb := b.toNat_lt
    have hc := c.toNat_lt
    have hpad := encodeDigit_ne_pad (c.toNat % 64) (by omega)
    simp only [encode, decode, if_false, hpad]
    rw [decodeDigit_encodeDigit _ (by omega), decodeDigit_encodeDigit _ (by omega),
      decodeDigit_encodeDigit _ (by omega), decodeDigit_encodeDigit _ (by omega), decode_encode rest]
    show some (joinByte _ _ 6 :: joinByte _ _ 4 :: joinByte _ _ 2 :: rest) = _
    rw [joinByte_eq a (by omega), joinByte_eq b (by omega), joinByte_eq c (by omega)]

end OtgMaster.Lib.Base64
