import OtgMaster.Block.Calls
import OtgMaster.Lib.Units
import Mathlib.Data.FinEnum
import Mathlib.Data.Fintype.Vector
import Mathlib.Data.List.GetD

/-!
Encryption sectors that may be larger than the blocks of the drive. A range of bytes is widened to
whole sectors (`floorTo`, `ceilTo`), and a buffer of whole sectors is crypted sector by sector, each
under its own number (`cryptSectors`).
-/

namespace OtgMaster.Block

open Lib

/-- The cipher of a volume: a sector by its number, encrypted or decrypted. -/
structure SectorCipher (sectorSize : ℕ) where
  crypt : (encrypt : Bool) → ℤ → List UInt8 → List UInt8
  length : ∀ encrypt n l, (crypt encrypt n l).length = l.length
  undo : ∀ n l, l.length = sectorSize → crypt false n (crypt true n l) = l

/-- `BitLockerNative.cryptSectors`; `none` for an error code. -/
def SectorCipher.cryptSectors {n : ℕ} (c : SectorCipher n) (encrypt : Bool) (firstSector : ℤ)
    (data : List UInt8) : Option (List UInt8) :=
  if data.length % n ≠ 0 then none
  else some (mapUnits (fun i l => c.crypt encrypt (firstSector + i) l) n (data.length / n) 0 data)

/-- `System.arraycopy(src, 0, dst, pos, src.size)`. -/
def arraycopy (src dst : List UInt8) (pos : ℤ) : E (List UInt8) := do
  failIf (pos < 0 ∨ (dst.length : ℤ) < pos + src.length)
    ⟨.indexOutOfBounds, s!"arraycopy: last destination index"⟩
  return dst.take pos.toNat ++ src ++ dst.drop (pos.toNat + src.length)

/-- `b / n * n`: where the sector that a byte is in starts. -/
def floorTo (n : ℕ) (b : ℤ) : ℤ := i64 (b.tdiv n * n)

/-- `(b + n - 1) / n * n`: where the sectors up to a byte end. -/
def ceilTo (n : ℕ) (b : ℤ) : ℤ := i64 ((i64 (b + n - 1)).tdiv n * n)

lemma SectorCipher.cryptSectors_length {n : ℕ} {c : SectorCipher n} {encrypt : Bool} {firstSector : ℤ}
    {data out : List UInt8} (h : c.cryptSectors encrypt firstSector data = some out) :
    out.length = data.length := by
  unfold cryptSectors at h
  split at h
  · cases h
  · cases h
    exact length_mapUnits (fun _ _ _ => c.length ..) ..

/-! ### Sectors of a buffer and of the drive -/

namespace SectorCipher

variable {n : ℕ} {c : SectorCipher n} {encrypt : Bool} {first : ℤ}

/-- A sector of which the decryption is encrypted again: there are finitely many sectors, and no two
of them have one ciphertext. -/
lemma redo (k : ℤ) {l : List UInt8} (hl : l.length = n) : c.crypt true k (c.crypt false k l) = l := by
  let f : List.Vector UInt8 n → List.Vector UInt8 n :=
    fun v => ⟨c.crypt true k v.1, (c.length ..).trans v.2⟩
  have hinj : Function.Injective f := by
    intro v v' h
    have h' : c.crypt true k v.1 = c.crypt true k v'.1 := congrArg Subtype.val h
    exact Subtype.ext (by rw [← c.undo k v.1 v.2, h', c.undo k v'.1 v'.2])
  obtain ⟨v, hv⟩ := Finite.injective_iff_surjective.1 hinj ⟨l, hl⟩
  have hv : c.crypt true k v.1 = l := congrArg Subtype.val hv
  rw [← hv, c.undo k v.1 v.2]

lemma getD_unit (hn : 0 < n) (l : List UInt8) (j : ℕ) :
    l.getD j 0 = ((l.drop (j / n * n)).take n).getD (j % n) 0 := by
  simp only [List.getD_eq_getElem?_getD, List.getElem?_take, List.getElem?_drop, Nat.mod_lt j hn,
    if_true, Nat.div_add_mod']

lemma unit_cryptSectors (hn : 0 < n) {data out : List UInt8}
    (h : c.cryptSectors encrypt first data = some out) : ∀ m, (m + 1) * n ≤ data.length →
      (out.drop (m * n)).take n = c.crypt encrypt (first + m) ((data.drop (m * n)).take n) := by
  intro m hm
  unfold cryptSectors at h
  split at h
  · cases h
  · cases h
    rw [unit_mapUnits (fun _ _ => c.length ..) _ 0 m data (Nat.div_mul_le_self ..)
      ((Nat.le_div_iff_mul_le hn).2 hm), Nat.zero_add]

lemma cryptSectors_some {data : List UInt8} (h : n ∣ data.length) :
    ∃ out, c.cryptSectors encrypt first data = some out :=
  ⟨_, if_neg (not_not.2 (Nat.mod_eq_zero_of_dvd h))⟩

lemma cryptSectors_undo {data out : List UInt8} (h : c.cryptSectors true first data = some out) :
    c.cryptSectors false first out = some data := by
  have hlen := cryptSectors_length h
  unfold cryptSectors at h ⊢
  split at h
  · cases h
  · rename_i hmod
    cases h
    have hwhole : data.length / n * n = data.length :=
      Nat.div_mul_cancel (Nat.dvd_of_mod_eq_zero (not_not.1 hmod))
    have hback :=
      mapUnits_undo (f := fun i l => c.crypt true (first + i) l)
        (g := fun i l => c.crypt false (first + i) l)
      (fun _ _ => c.length ..) (fun _ l hl => c.undo _ l hl) (data.length / n) 0 0 data hwhole.le
    rw [hwhole, Nat.add_zero, List.take_of_length_le hlen.le, List.take_length] at hback
    rw [hlen, if_neg hmod, hback]

/-- The plaintext of byte `q` of the sectors that start at byte `base`, the first of which has the
number `first`. -/
def plainByte (c : SectorCipher n) (first : ℤ) (base : ℕ) (bytes : Bytes) (q : ℕ) : UInt8 :=
  (c.crypt false (first + (q / n : ℕ)) (bytes.slice (base + q / n * n) n)).getD (q % n) 0

lemma plainByte_add (hn : 0 < n) (base : ℕ) (bytes : Bytes) (s j : ℕ) :
    c.plainByte first base bytes (n * s + j) = c.plainByte (first + s) (base + n * s) bytes j := by
  unfold plainByte
  rw [Nat.mul_add_div hn, Nat.mul_add_mod, Nat.add_mul, Nat.mul_comm s n, Int.natCast_add,
    ← Int.add_assoc, Nat.add_assoc]

/-- **Whole sectors, decrypted.** -/
lemma cryptSectors_slice (hn : 0 < n) (base : ℕ) (bytes : Bytes) {m : ℕ} (hm : n ∣ m) :
    c.cryptSectors false
      first (bytes.slice base m) = some ((List.range m).map (c.plainByte first base bytes)) := by
  obtain ⟨k, rfl⟩ := hm
  obtain ⟨out, hsome⟩ : ∃ out, c.cryptSectors false first (bytes.slice base (n * k)) = some out :=
    cryptSectors_some (by rw [Bytes.length_slice]; exact Dvd.intro _ rfl)
  have hlen := cryptSectors_length hsome
  have hunit := unit_cryptSectors hn hsome
  rw [Bytes.length_slice] at hlen hunit
  rw [hsome]
  congr 1
  refine List.ext_getElem (by simpa using hlen) fun j h1 h2 => ?_
  have hj : (j / n + 1) * n ≤ n * k := by
    rw [Nat.mul_comm n k]
    exact Nat.mul_le_mul_right _ (Nat.div_lt_of_lt_mul (by simpa using h2))
  have hj' : j / n * n + n ≤ n * k := by rwa [Nat.succ_mul] at hj
  simp only [List.getElem_map, List.getElem_range]
  rw [← List.getD_eq_getElem _ (0 : UInt8) h1, getD_unit hn, hunit _ hj, Bytes.take_drop_slice hj']
  rfl

/-- **Plaintext that is encrypted again** gives the bytes that it was decrypted from. -/
lemma cryptSectors_plain (hn : 0 < n) (base : ℕ) (bytes : Bytes) {m : ℕ} (hm : n ∣ m) :
    c.cryptSectors true
      first ((List.range m).map (c.plainByte first base bytes)) = some (bytes.slice base m) := by
  have hdec : c.cryptSectors false first (bytes.slice base m) = _ := cryptSectors_slice hn base bytes hm
  have hunit := unit_cryptSectors hn hdec
  obtain ⟨k, rfl⟩ := hm
  generalize (List.range (n * k)).map (c.plainByte first base bytes) = data at *
  have hdata := cryptSectors_length hdec
  rw [Bytes.length_slice] at hdata hunit
  obtain ⟨out, hout⟩ : ∃ out, c.cryptSectors true first data = some out :=
    cryptSectors_some (by rw [hdata]; exact Dvd.intro _ rfl)
  have hlen := cryptSectors_length hout
  rw [hout]
  congr 1
  refine List.ext_getElem (by rw [hlen, hdata, Bytes.length_slice]) fun j h1 h2 => ?_
  have hj : (j / n + 1) * n ≤ n * k := by
    rw [Nat.mul_comm n k]
    exact Nat.mul_le_mul_right _ (Nat.div_lt_of_lt_mul (by omega))
  have hsector : ((Bytes.slice bytes base (n * k)).drop (j / n * n) |>.take n).length = n := by
    rw [Nat.succ_mul] at hj
    rw [List.length_take, List.length_drop, Bytes.length_slice]
    omega
  rw [← List.getD_eq_getElem _ (0 : UInt8) h1, ← List.getD_eq_getElem _ (0 : UInt8) h2, getD_unit hn,
    unit_cryptSectors hn hout _ (hj.trans_eq hdata.symm), hunit _ hj, redo _ hsector, ← getD_unit hn]

end SectorCipher

lemma arraycopy_length {src dst out : List UInt8} {pos : ℤ} (h : arraycopy src dst pos = .ok out) :
    out.length = dst.length := by
  obtain ⟨hpos, hout⟩ := failIf_bind_ok h
  cases hout
  simp only [List.length_append, List.length_take, List.length_drop]
  omega

lemma arraycopy_slice {P : Bytes} {aF aT F : ℕ} {data : List UInt8} (h1 : aF ≤ F)
    (h2 : F + data.length ≤ aT) (hsize : aT - aF < 2 ^ 31) :
    arraycopy data (P.slice aF (aT - aF)) (i32 ((F : ℤ) - aF)) =
      .ok (Bytes.slice (overwrite P F data) aF (aT - aF)) := by
  rw [← Int.ofNat_sub h1, i32_natCast (by omega)]
  unfold arraycopy
  rw [failIf_bind_run (by simp; omega)]
  refine congrArg Except.ok (List.ext_getElem (by simp; omega) fun i hi _ => ?_)
  have hlen : i < aT - aF := by
    simp only [List.length_append, List.length_take, List.length_drop, Bytes.length_slice,
      Int.toNat_natCast] at hi
    omega
  simp only [Int.toNat_natCast, Bytes.slice, List.getElem_map, List.getElem_range, overwrite]
  rw [List.getElem_append]
  split
  · rename_i hleft
    rw [List.getElem_append]
    split
    · rename_i hpre
      simp only [List.length_take, List.length_map, List.length_range] at hpre
      rw [if_neg (by omega)]
      simp
    · rename_i hdata
      simp only [List.length_append, List.length_take, List.length_map, List.length_range] at hleft hdata
      rw [if_pos (by omega), List.getElem?_eq_getElem (by omega)]
      simp only [List.length_take, List.length_map, List.length_range, Option.getD_some]
      congr 1
      omega
  · rename_i hright
    simp only [List.length_append, List.length_take, List.length_map, List.length_range] at hright
    rw [if_pos (by omega), List.getElem?_eq_none (by omega)]
    simp only [List.length_append, List.length_take, List.length_map, List.length_range,
      List.getElem_drop, List.getElem_map, List.getElem_range, Option.getD_none]
    congr 1
    omega

lemma slice_overwrite_self (P : Bytes) (F : ℕ) (data : List UInt8) :
    Bytes.slice (overwrite P F data) F data.length = data := by
  refine List.ext_getElem Bytes.length_slice fun i _ hi => ?_
  simp only [Bytes.slice, List.getElem_map, List.getElem_range, overwrite, Nat.le_add_right, if_true,
    Nat.add_sub_cancel_left]
  rw [List.getElem?_eq_getElem hi]
  rfl

variable {n F m T : ℕ}

lemma floorTo_natCast (hF : F < 2 ^ 63) : floorTo n F = (F / n * n : ℕ) := by
  unfold floorTo
  rw [← Int.ofNat_tdiv, ← Int.natCast_mul, i64_natCast (Nat.lt_of_le_of_lt (Nat.div_mul_le_self ..) hF)]

lemma ceilTo_natCast (hn : 0 < n) (hF : F + (n - 1) < 2 ^ 63) :
    ceilTo n F = ((F + (n - 1)) / n * n : ℕ) := by
  unfold ceilTo
  rw [show (F : ℤ) + n - 1 = (F + (n - 1) : ℕ) by
    omega, i64_natCast hF, ← Int.ofNat_tdiv, ← Int.natCast_mul,
    i64_natCast (Nat.lt_of_le_of_lt (Nat.div_mul_le_self ..) hF)]

lemma tdiv_mul_bounds (a : ℤ) (k : ℕ) :
    (0 ≤ a → 0 ≤ a.tdiv k * k ∧ a.tdiv k * k ≤ a) ∧ (a ≤ 0 → a ≤ a.tdiv k * k ∧ a.tdiv k * k ≤ 0) := by
  have hnat : ∀ n : ℕ, 0 ≤ (n : ℤ).tdiv k * k ∧ (n : ℤ).tdiv k * k ≤ n := fun n => by
    rw [← Int.ofNat_tdiv, ← Int.natCast_mul]
    exact ⟨Int.natCast_nonneg _, Int.ofNat_le.2 (Nat.div_mul_le_self ..)⟩
  refine ⟨fun h => ?_, fun h => ?_⟩
  · obtain ⟨n, rfl⟩ := Int.eq_ofNat_of_zero_le h
    exact hnat n
  · obtain ⟨n, hn⟩ := Int.eq_ofNat_of_zero_le (show 0 ≤ -a by omega)
    have := hnat n
    rw [show a = -(n : ℤ) by omega, Int.neg_tdiv, Int.neg_mul]
    omega

/-- The end of the sectors is not behind that of a longer range; it is before it where the sum
wraps. -/
lemma ceilTo_le (hn : 0 < n) (hsmall : n < 2 ^ 63) (hF : F ≤ T) (hlt : F < 2 ^ 63) :
    ceilTo n F ≤ ((T + (n - 1)) / n * n : ℕ) := by
  by_cases hwrap : F + (n - 1) < 2 ^ 63
  · rw [ceilTo_natCast hn hwrap]
    exact Int.ofNat_le.2 (Nat.mul_le_mul_right _ (Nat.div_le_div_right (by omega)))
  · obtain ⟨k, hk, hlo, hhi⟩ := i64_eq (F + n - 1)
    obtain ⟨h1, h2⟩ := (tdiv_mul_bounds (i64 (F + n - 1)) n).2 (by omega)
    unfold ceilTo
    rw [i64_of_range (by omega) (by omega)]
    exact h2.trans (Int.natCast_nonneg _)

lemma add_le_long (hn : n ∣ 2 ^ 63) (hT : n ∣ T) (hlt : T < 2 ^ 63) : T + n ≤ 2 ^ 63 := by
  obtain ⟨k, hk⟩ := hn
  obtain ⟨t, rfl⟩ := hT
  rw [hk] at hlt ⊢
  rw [← Nat.mul_succ]
  exact Nat.mul_le_mul_left n (Nat.lt_of_mul_lt_mul_left hlt)

lemma widened (hn : n ∣ 2 ^ 63) (hT : n ∣ T) (hlt : T < 2 ^ 63) (hin : F + m ≤ T) :
    ∃ aF aT : ℕ, floorTo n F = aF ∧ ceilTo n (F + m : ℕ) = aT ∧ n ∣ aF ∧ n ∣ aT ∧ aF ≤ F ∧
      F + m ≤ aT ∧ aT ≤ T ∧ aT - aF < m + 2 * n := by
  have hpos : 0 < n := Nat.pos_of_dvd_of_pos hn (by decide)
  have hwrap := add_le_long hn hT hlt
  have hfloor := Nat.div_add_mod' F n
  have hmodF := Nat.mod_lt F hpos
  have hceil := Nat.div_add_mod' (F + m + (n - 1)) n
  have hmodT := Nat.mod_lt (F + m + (n - 1)) hpos
  have hend : (F + m + (n - 1)) / n * n ≤ T := by
    obtain ⟨t, rfl⟩ := hT
    rw [Nat.mul_comm n t] at hin ⊢
    refine Nat.mul_le_mul_right _ (Nat.le_of_lt_succ (Nat.div_lt_of_lt_mul ?_))
    rw [Nat.mul_succ, Nat.mul_comm]
    omega
  exact ⟨F / n * n, (F + m + (n - 1)) / n * n, floorTo_natCast (by omega),
    ceilTo_natCast hpos (by omega),
    Dvd.intro_left _ rfl, Dvd.intro_left _ rfl, by omega, by omega, hend, by omega⟩

end OtgMaster.Block
