import OtgMaster.Platform.Json
import Mathlib.Data.Nat.Digits.Defs

/-!
A library of texts for the examples, which can be run: a byte for each character, and JSON with a letter
before each value, a full stop before each character of a text and a mark at each end. What is written
is read back (`parseJson_encode`).
-/

namespace OtgMaster.Platform

namespace Codec

/-! ### Texts and numbers -/

def quote (s : List Char) : List Char := s.flatMap (fun c => ['.', c]) ++ ['!']

def unquote : List Char → Option (List Char × List Char)
  | '.' :: c :: rest => (unquote rest).map fun p => (c :: p.1, p.2)
  | '!' :: rest => some ([], rest)
  | _ => none

lemma unquote_quote (s rest : List Char) : unquote (quote s ++ rest) = some (s, rest) := by
  induction s with
  | nil => rfl
  | cons c s ih =>
    rw [quote, List.append_assoc] at ih
    rw [quote, List.flatMap_cons, List.append_assoc, List.append_assoc, List.cons_append,
      List.singleton_append, unquote, ih]
    rfl

def natText (n : ℕ) : List Char := (Nat.digits 10 n).map fun d => Char.ofNat (48 + d)

def natOf (s : List Char) : ℕ := Nat.ofDigits 10 (s.map fun c => c.toNat - 48)

lemma natOf_natText (n : ℕ) : natOf (natText n) = n := by
  have hdigit : ∀ d < 10, (Char.ofNat (48 + d)).toNat - 48 = d := by decide
  rw [natOf, natText, List.map_map]
  refine (congrArg (Nat.ofDigits 10) ?_).trans (Nat.ofDigits_digits 10 n)
  refine (List.map_congr_left fun d hd => ?_).trans (List.map_id _)
  exact hdigit d (Nat.digits_lt_base (by decide) hd)

def intText (n : ℤ) : List Char := (if n < 0 then '-' else '+') :: natText n.natAbs

def intOf : List Char → ℤ
  | '-' :: s => -(natOf s : ℤ)
  | _ :: s => natOf s
  | [] => 0

lemma intOf_intText (n : ℤ) : intOf (intText n) = n := by
  rw [intText]
  split
  · rw [intOf, natOf_natText]
    omega
  · rw [intOf, natOf_natText]
    · omega
    · decide

/-! ### Values -/

mutual

def encode : Json → List Char
  | .null => ['n']
  | .str s => 's' :: quote s
  | .int n => 'i' :: quote (intText n)
  | .other n => 'o' :: quote (natText n)
  | .arr items => 'a' :: encodeItems items
  | .obj fields => '{' :: encodeFields fields

def encodeItems : List Json → List Char
  | [] => ['!']
  | j :: js => ',' :: (encode j ++ encodeItems js)

def encodeFields : List (String × Json) → List Char
  | [] => ['}']
  | (k, j) :: fs => ',' :: (quote k.toList ++ (encode j ++ encodeFields fs))

end

mutual

/-- The value at the start of a text and what is after it, for texts up to a length. -/
def decode : ℕ → List Char → Option (Json × List Char)
  | _ + 1, 'n' :: rest => some (.null, rest)
  | _ + 1, 's' :: rest => (unquote rest).map fun p => (.str p.1, p.2)
  | _ + 1, 'i' :: rest => (unquote rest).map fun p => (.int (intOf p.1), p.2)
  | _ + 1, 'o' :: rest => (unquote rest).map fun p => (.other (natOf p.1), p.2)
  | n + 1, 'a' :: rest => (decodeItems n rest).map fun p => (.arr p.1, p.2)
  | n + 1, '{' :: rest => (decodeFields n rest).map fun p => (.obj p.1, p.2)
  | _, _ => none

def decodeItems : ℕ → List Char → Option (List Json × List Char)
  | _ + 1, '!' :: rest => some ([], rest)
  | n + 1, ',' :: rest => do
    let (j, rest) ← decode n rest
    let (js, rest) ← decodeItems n rest
    return (j :: js, rest)
  | _, _ => none

def decodeFields : ℕ → List Char → Option (List (String × Json) × List Char)
  | _ + 1, '}' :: rest => some ([], rest)
  | n + 1, ',' :: rest => do
    let (k, rest) ← unquote rest
    let (j, rest) ← decode n rest
    let (fs, rest) ← decodeFields n rest
    return ((String.ofList k, j) :: fs, rest)
  | _, _ => none

end

mutual

lemma decode_encode : ∀ (j : Json) (n : ℕ) (rest : List Char), (encode j).length ≤ n →
    decode n (encode j ++ rest) = some (j, rest)
  | j, 0, _, h => by cases j <;> simp [encode] at h
  | .null, _ + 1, _, _ => rfl
  | .str s, _ + 1, rest, _ => by rw [encode, List.cons_append, decode, unquote_quote]; rfl
  | .int m, _ + 1, rest, _ => by
    rw [encode, List.cons_append, decode, unquote_quote, Option.map_some, intOf_intText]
  | .other m, _ + 1, rest, _ => by
    rw [encode, List.cons_append, decode, unquote_quote, Option.map_some, natOf_natText]
  | .arr items, n + 1, rest, h => by
    rw [encode, List.length_cons] at h
    rw [encode, List.cons_append, decode, decodeItems_encode items n rest (by omega)]
    rfl
  | .obj fields, n + 1, rest, h => by
    rw [encode, List.length_cons] at h
    rw [encode, List.cons_append, decode, decodeFields_encode fields n rest (by omega)]
    rfl

lemma decodeItems_encode : ∀ (js : List Json) (n : ℕ) (rest : List Char),
    (encodeItems js).length ≤ n → decodeItems n (encodeItems js ++ rest) = some (js, rest)
  | js, 0, _, h => by cases js <;> simp [encodeItems] at h
  | [], _ + 1, _, _ => rfl
  | j :: js, n + 1, rest, h => by
    rw [encodeItems, List.length_cons, List.length_append] at h
    rw [encodeItems, List.cons_append, List.append_assoc, decodeItems,
      decode_encode j n _ (by omega)]
    dsimp only [Option.bind_eq_bind, Option.bind_some]
    rw [decodeItems_encode js n rest (by omega)]
    rfl

lemma decodeFields_encode : ∀ (fs : Fields) (n : ℕ) (rest : List Char),
    (encodeFields fs).length ≤ n → decodeFields n (encodeFields fs ++ rest) = some (fs, rest)
  | fs, 0, _, h => by cases fs <;> simp [encodeFields] at h
  | [], _ + 1, _, _ => rfl
  | (k, j) :: fs, n + 1, rest, h => by
    simp only [encodeFields, List.length_cons, List.length_append] at h
    rw [encodeFields, List.cons_append, List.append_assoc, List.append_assoc, decodeFields,
      unquote_quote]
    dsimp only [Option.bind_eq_bind, Option.bind_some]
    rw [decode_encode j n _ (by omega)]
    dsimp only [Option.bind_some]
    rw [decodeFields_encode fs n rest (by omega), String.ofList_toList]
    rfl

end

end Codec

open Codec

def codec : Texts where
  utf8Encode s := s.map fun c => UInt8.ofNat c.toNat
  utf8Decode b := b.map fun x => Char.ofNat x.toNat
  parseJson s :=
    match decode s.length s with
    | some (.obj fields, _) => some fields
    | _ => none
  renderJson fields := encode (.obj fields)
  renderIndented fields := encode (.obj fields)
  coerceString _ := none
  coerceInt _ := none

/-- **An object that is written is read back.** -/
theorem parseJson_encode (o : Fields) : codec.parseJson (encode (.obj o)) = some o := by
  have hrun := decode_encode (.obj o) _ [] le_rfl
  rw [List.append_nil] at hrun
  unfold codec
  dsimp only
  rw [hrun]

lemma getLast?_encode (o : Fields) : (encode (.obj o)).getLast? = some '}' := by
  suffices h : (encodeFields o).getLast? = some '}' by
    rw [encode, List.getLast?_cons, h]
    rfl
  induction o with
  | nil => rfl
  | cons f o ih =>
    rw [encodeFields, List.getLast?_cons, List.getLast?_append, List.getLast?_append, ih]
    rfl

lemma utf8Decode_utf8Encode {s : List Char} (h : s.all (·.toNat < 256) = true) :
    codec.utf8Decode (codec.utf8Encode s) = s := by
  show (s.map _).map _ = s
  rw [List.map_map]
  refine (List.map_congr_left fun c hc => ?_).trans (List.map_id s)
  show Char.ofNat (UInt8.ofNat c.toNat).toNat = c
  rw [UInt8.toNat_ofNat', Nat.mod_eq_of_lt (of_decide_eq_true (List.all_eq_true.1 h c hc)),
    Char.ofNat_toNat]

/-- NUL bytes behind a text are read as characters. -/
lemma utf8Decode_append_zeros {s : List Char} (h : s.all (·.toNat < 256) = true) (k : ℕ) :
    codec.utf8Decode (codec.utf8Encode s ++ List.replicate k 0) =
      s ++ List.replicate k (Char.ofNat 0) := by
  show (codec.utf8Encode s ++ List.replicate k 0).map _ = _
  rw [List.map_append, List.map_replicate]
  exact congrArg (· ++ _) (utf8Decode_utf8Encode h)

end OtgMaster.Platform
