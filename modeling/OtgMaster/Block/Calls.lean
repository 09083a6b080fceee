import OtgMaster.Block.Drive

/-!
The drive under an unlocked volume, with the calls that reach it. A request to a volume is turned
into calls on the drive at other places and of other sizes; where they fall is read off the list of
calls (`Host.calls`), whether the drive then serves them or not.
-/

namespace OtgMaster.Block

open Lib

structure DriveCall where
  write : Bool
  start : ℤ
  count : ℤ
  deriving DecidableEq

def DriveCall.Inside (p : Slice) (c : DriveCall) : Prop :=
  ∀ b, c.start ≤ b → b < c.start + c.count → (p.firstBlock : ℤ) ≤ b ∧ b < p.firstBlock + p.blockCount

structure Host where
  drive : Machine
  calls : List DriveCall

abbrev D := EStateM Thrown Host

def Host.logged (h : Host) (c : DriveCall) : Host := { h with calls := h.calls ++ [c] }

/-- `device.readBlocks(start, count)`. An array has less than `2 ^ 31` bytes. -/
def readDrive (start count : ℤ) : D (List UInt8) := do
  modify fun h => h.logged ⟨false, start, count⟩
  let h ← get
  throwIf (start < 0) ⟨.io, "read before the start of the drive"⟩
  throwIf (count < 0 ∨ 2 ^ 31 ≤ count * h.drive.blockSize) ⟨.negativeArraySize,
    s!"{i32 (count * h.drive.blockSize)}"⟩
  h.drive.readBlocks start.toNat count.toNat

/-- `device.writeBlocks(start, data)`. -/
def writeDrive (start : ℤ) (data : List UInt8) : D PUnit := do
  let h ← get
  throwIf (data.length % h.drive.blockSize ≠ 0) ⟨.illegalArgument, "Write length must be block aligned"⟩
  modify fun h => h.logged ⟨true, start, (data.length / h.drive.blockSize : ℕ)⟩
  throwIf (start < 0) ⟨.io, "write before the start of the drive"⟩
  throwIf (h.drive.blockCount < start.toNat + data.length / h.drive.blockSize)
    ⟨.io, "write past the end of the drive"⟩
  modify fun h => { h with drive := h.drive.written start.toNat data }

inductive Request
  | read (start count : ℤ)
  | write (start : ℤ) (data : List UInt8)

/-- The range of the request ends before the `Long`s do; a write has whole blocks, in an array. -/
def Request.Sane (bs : ℕ) : Request → Prop
  | .read start count => start + count < 2 ^ 63
  | .write start data => bs ∣ data.length ∧ data.length < 2 ^ 31 ∧
    start + (data.length / bs : ℕ) < 2 ^ 63

def callsOf {α : Type} (m : D α) (w : Machine) : List DriveCall :=
  match m ⟨w, []⟩ with
  | .ok _ h | .error _ h => h.calls

def requireInRange (blockCount start blocks : ℤ) (op : String) : E PUnit :=
  require (0 ≤ start ∧ 0 ≤ blocks ∧ i64 (start + blocks) ≤ blockCount)
    s!"{op} of {blocks} blocks at {start} exceeds device ({blockCount} blocks)"

/-! ### What the calls do -/

section Specs

variable {α : Type} {h : Host} {start count : ℤ} {data : List UInt8} {Q : α → Host → Prop}
  {E : Thrown → Host → Prop}

variable {blockCount blocks : ℤ} {op : String}

lemma requireInRange_ok {u : PUnit}
    (hr : requireInRange blockCount start blocks op = .ok u) (hlong : start + blocks < 2 ^ 63) :
    0 ≤ start ∧ 0 ≤ blocks ∧ start + blocks ≤ blockCount := by
  obtain ⟨h1, h2, h3⟩ := require_ok hr
  rw [i64_of_lt (by omega) hlong] at h3
  exact ⟨h1, h2, h3⟩

lemma requireInRange_kind {e : Thrown}
    (hr : requireInRange blockCount start blocks op = .error e) : e.kind = .illegalArgument := by
  unfold requireInRange require failIf at hr
  split at hr
  · cases hr
    rfl
  · cases hr

lemma requireInRange_run (h1 : 0 ≤ start) (h2 : 0 ≤ blocks)
    (h3 : start + blocks ≤ blockCount) (hlong : blockCount < 2 ^ 63) :
    requireInRange blockCount start blocks op = .ok ⟨⟩ := by
  unfold requireInRange
  rw [i64_of_lt (by omega) (by omega)]
  exact require_run ⟨h1, h2, h3⟩

lemma wp_readDrive {Q : List UInt8 → Host → Prop}
    (hok : 0 ≤ start → 0 ≤ count → count * h.drive.blockSize < 2 ^ 31 →
      Q (h.drive.bytes.slice (start.toNat * h.drive.blockSize) (count.toNat * h.drive.blockSize))
        (h.logged ⟨false, start, count⟩))
    (herr : ∀ e, E e (h.logged ⟨false, start, count⟩)) : wp (readDrive start count) Q E h := by
  unfold readDrive
  simp only [wp_bind, wp_modify, wp_get, wp_throwIf]
  refine ⟨fun _ => herr _,
    fun h1 => ⟨fun _ => herr _, fun h2 => wp_lift.2 ⟨fun bytes hb => ?_, fun e _ => herr e⟩⟩⟩
  cases (failIf_bind_ok hb).2
  exact hok (by omega) (by omega)
    (by show count * h.drive.blockSize < _; change ¬(_ ∨
      2 ^ 31 ≤ count * h.drive.blockSize) at h2; omega)

lemma wp_readDrive_logged {Q : List UInt8 → Host → Prop}
    (hok : ∀ data h', (⟨false, start, count⟩ : DriveCall) ∈ h'.calls → Q data h')
    (herr : ∀ e h', (⟨false, start, count⟩ : DriveCall) ∈ h'.calls → E e h') :
    wp (readDrive start count) Q E h := by
  have hmem : (⟨false, start, count⟩ : DriveCall) ∈ (h.logged ⟨false, start, count⟩).calls :=
    List.mem_append_right _ (List.mem_singleton.2 rfl)
  exact wp_readDrive (fun _ _ _ => hok _ _ hmem) (fun e => herr e _ hmem)

lemma wp_writeDrive {Q : PUnit → Host → Prop}
    (hok : data.length % h.drive.blockSize = 0 → 0 ≤ start →
      Q ⟨⟩ ⟨h.drive.written start.toNat data,
        h.calls ++ [⟨true, start, (data.length / h.drive.blockSize : ℕ)⟩]⟩)
    (herr : ∀ e, E e (h.logged ⟨true, start, (data.length / h.drive.blockSize : ℕ)⟩))
    (hrefused : ∀ e, E e h) : wp (writeDrive start data) Q E h := by
  unfold writeDrive
  simp only [wp_bind, wp_modify, wp_get, wp_throwIf]
  refine ⟨fun _ => hrefused _, fun h1 => ⟨fun _ => herr _, fun h2 => ⟨fun _ => herr _, fun _ => ?_⟩⟩⟩
  exact hok (not_not.1 h1) (by omega)

lemma wp_readDrive_run {start count : ℕ} {Q : List UInt8 → Host → Prop}
    (hin : start + count ≤ h.drive.blockCount) (hsize : count * h.drive.blockSize < 2 ^ 31)
    (hok : Q (h.drive.bytes.slice (start * h.drive.blockSize) (count * h.drive.blockSize))
      (h.logged ⟨false, start, count⟩)) : wp (readDrive start count) Q E h := by
  unfold readDrive
  simp only [wp_bind, wp_modify, wp_get, wp_throwIf]
  refine ⟨fun hneg => by omega, fun _ => ⟨fun hbad => ?_, fun _ => ?_⟩⟩
  · have : (count : ℤ) * (h.logged ⟨false, start, count⟩).drive.blockSize < 2 ^ 31 := by
      show (count : ℤ) * h.drive.blockSize < 2 ^ 31
      rw [← Int.natCast_mul]
      omega
    omega
  · rw [Int.toNat_natCast, Int.toNat_natCast, Machine.readBlocks_run (by exact hin)]
    exact wp_lift.2 ⟨fun _ hb => by cases hb; exact hok, fun _ he => by cases he⟩

lemma wp_writeDrive_run {start : ℕ} {Q : PUnit → Host → Prop}
    (hlen : data.length % h.drive.blockSize = 0)
    (hin : start + data.length / h.drive.blockSize ≤ h.drive.blockCount)
    (hok : Q ⟨⟩ ⟨h.drive.written start data,
      h.calls ++ [⟨true, start, (data.length / h.drive.blockSize : ℕ)⟩]⟩) :
    wp (writeDrive start data) Q E h := by
  unfold writeDrive
  simp only [wp_bind, wp_modify, wp_get, wp_throwIf]
  refine ⟨fun h1 => absurd hlen h1, fun _ => ⟨fun h2 => by omega, fun _ => ⟨fun h3 => ?_, fun _ => ?_⟩⟩⟩
  · rw [Int.toNat_natCast] at h3
    omega
  · rw [Int.toNat_natCast]
    exact hok

/-! ### Where the calls fall -/

variable {bs : ℕ} {P : DriveCall → Prop}

/-- The calls so far all have `P`, on a drive of blocks of `bs` bytes. -/
structure Host.Within (bs : ℕ) (P : DriveCall → Prop) (h : Host) : Prop where
  blockSize : h.drive.blockSize = bs
  calls : ∀ c ∈ h.calls, P c

lemma Host.Within.logged (hw : h.Within bs P) {c : DriveCall} (hc : P c) : (h.logged c).Within bs P := by
  refine ⟨hw.blockSize, fun c' hc' => ?_⟩
  rcases List.mem_append.1 hc' with hc' | hc'
  · exact hw.calls c' hc'
  · rw [List.mem_singleton.1 hc']
    exact hc

lemma Host.Within.read (hw : h.Within bs P) {Q : List UInt8 → Host → Prop} (hc : P ⟨false, start, count⟩)
    (hok : ∀ data h', 0 ≤ count → data.length = count.toNat * bs → h'.Within bs P → Q data h')
    (herr : ∀ e h', h'.Within bs P → E e h') : wp (readDrive start count) Q E h :=
  wp_readDrive
    (fun _ hcount _ => hok _ _ hcount (by rw [Bytes.length_slice, hw.blockSize]) (hw.logged hc))
    (fun e => herr e _ (hw.logged hc))

lemma Host.Within.write (hw : h.Within bs P) {Q : PUnit → Host → Prop}
    (hc : P ⟨true, start, (data.length / bs : ℕ)⟩) (hok : ∀ h', h'.Within bs P → Q ⟨⟩ h')
    (herr : ∀ e h', h'.Within bs P → E e h') : wp (writeDrive start data) Q E h := by
  rw [← hw.blockSize] at hc
  have hlog := hw.logged hc
  exact wp_writeDrive (fun _ _ => hok _ ⟨hlog.blockSize, hlog.calls⟩) (fun e => herr e _ hlog)
    (fun e => herr e _ hw)

lemma callsOf_within (bs : ℕ) {m : D α} {w : Machine}
    (h : wp m (fun _ h' => h'.Within bs P) (fun _ h' => h'.Within bs P) ⟨w, []⟩) :
    ∀ c ∈ callsOf m w, P c := by
  unfold wp at h
  unfold callsOf
  split at h
  · rename_i heq
    rw [heq]
    exact h.calls
  · rename_i heq
    rw [heq]
    exact h.calls

lemma mem_callsOf {m : D α} {w : Machine} {c : DriveCall}
    (h : wp m (fun _ h' => c ∈ h'.calls) (fun _ h' => c ∈ h'.calls) ⟨w, []⟩) : c ∈ callsOf m w := by
  unfold wp at h
  unfold callsOf
  split at h
  · rename_i heq
    rw [heq]
    exact h
  · rename_i heq
    rw [heq]
    exact h

end Specs

end OtgMaster.Block
