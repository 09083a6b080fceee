import OtgMaster.Lib.Base64
import OtgMaster.Lib.Lines
import OtgMaster.Lib.Percent
import OtgMaster.Platform.JsonWriter

/-!
`FeedbackPayload`: what a report contains, the summary that the user reads, and the URL that carries
the report to the form. The URL has the contents as JSON in its query, with a short log, and the
whole log in its fragment.
-/

namespace OtgMaster.Feedback

open Lib Utf16 Platform

inductive ContainerType where
  | VERACRYPT | LUKS1 | LUKS2 | BITLOCKER | APFS | UNENCRYPTED | UNKNOWN
  deriving DecidableEq, Repr

structure MountedDrive where
  /-- `sourceVolumeCandidate?.containerType`. -/
  containerType : Option ContainerType
  isPlain : Bool
  /-- `fileSystem.capacity`; `none` if the getter throws. -/
  capacity : Option Int64
  filesystemName : Text
  sourceDeviceDisplayName : Option Text

/-- The phone, the app's build, and how `"%.1f".format(n / 1_000_000_000.0)` writes a number in the
phone's language. -/
structure Phone where
  manufacturer : Text
  model : Text
  release : Text
  versionName : Text
  versionCode : ℕ
  formatGb : Int64 → Text
  /-- A number has no blanks and no line ends. -/
  formatGb_closed : ∀ n, ∀ u ∈ formatGb n, u ≠ 0x20 ∧ u ≠ 0x0A
  /-- Ten digits before the point at most, one after it, the point and a sign. -/
  formatGb_short : ∀ n, (formatGb n).length ≤ 13

inductive EncryptionType where
  | luks1 | luks2 | veracrypt | bitlocker | apfs | none
  deriving DecidableEq, Repr

def EncryptionType.name : EncryptionType → Text
  | luks1 => text "luks1"
  | luks2 => text "luks2"
  | veracrypt => text "veracrypt"
  | bitlocker => text "bitlocker"
  | apfs => text "apfs"
  | none => text "none"

structure Partition where
  sizeGb : Text
  fileSystem : Text
  encrypted : Bool
  encryptionType : EncryptionType

structure Contents where
  deviceName : Text
  appVersion : Text
  usbMake : Text
  usbSize : Text
  partitions : List Partition
  logLines : List Text
  logLinesDropped : ℕ
  fullLogLines : List Text

structure Selection where
  device : Bool := true
  appVersion : Bool := true
  usb : Bool := true
  partitions : Bool := true
  logs : Bool := true

def Selection.nothing (sel : Selection) : Bool :=
  !sel.device && !sel.appVersion && !sel.usb && !sel.partitions && !sel.logs

def MAX_URL_CHARS : ℕ := 8000
def MAX_LOG_CHARS : ℤ := 3500
def MAX_USB_CHARS : ℤ := 1200
def MAX_FULL_LOG_CHARS : ℤ := 40000
def MAX_FULL_USB_CHARS : ℤ := 8000
def EARLIER_USB_HEADER : Text := text "--- earlier USB events ---"
def RECENT_LOG_HEADER : Text := text "--- recent log ---"

/-! ### collecting a report -/

/-- The loop of `trimLogs`: the lines come newest first, and each that still fits goes in front of
`kept`. -/
def keepNewest (budget : ℤ) : List Text → (kept : List Text) → List Text
  | [], kept => kept
  | line :: rest, kept =>
    if budget - (line.length + 1) < 0 then kept
    else keepNewest (budget - (line.length + 1)) rest (line :: kept)

def lineCost (lines : List Text) : ℤ := (lines.map fun line => (line.length : ℤ) + 1).sum

/-- The lines that stand for USB events which have scrolled out of the log. -/
def header (earlier : List Text) : List Text :=
  if earlier.isEmpty then [] else EARLIER_USB_HEADER :: (earlier ++ [RECENT_LOG_HEADER])

/-- The USB lines that have scrolled out of the log, as far as they fit. -/
def earlierUsb (logs usbEvents : List Text) (maxUsbChars : ℤ) : List Text :=
  keepNewest maxUsbChars (usbEvents.filter (· ∉ logs)).reverse []

/-- The newest lines that fit, and how many were dropped. -/
def trimLogs (logs usbEvents : List Text) (maxChars maxUsbChars : ℤ) : List Text × ℕ :=
  let earlier := earlierUsb logs usbEvents maxUsbChars
  let kept := keepNewest (maxChars - lineCost (header earlier)) logs.reverse []
  (header earlier ++ kept, logs.length - kept.length)

def MountedDrive.encType (d : MountedDrive) : EncryptionType :=
  match d.containerType with
  | some .LUKS1 => .luks1
  | some .LUKS2 => .luks2
  | some .VERACRYPT => .veracrypt
  | some .BITLOCKER => .bitlocker
  | some .APFS => .apfs
  | _ => if d.isPlain then .none else .veracrypt

section Collect

variable (phone : Phone)

/-- `runCatching { "%.1f".format(…) }.getOrDefault("?")`. -/
def MountedDrive.sizeGb (d : MountedDrive) : Text :=
  match d.capacity with
  | some n => phone.formatGb n
  | none => text "?"

def MountedDrive.partition (d : MountedDrive) : Partition where
  sizeGb := d.sizeGb phone
  fileSystem := if d.filesystemName.isEmpty then text "unknown" else d.filesystemName
  encrypted := d.encType ≠ .none
  encryptionType := d.encType

def Phone.deviceName : Text :=
  phone.manufacturer ++ text " " ++ phone.model ++ text " (Android " ++ phone.release ++ text ")"

def Phone.appVersion : Text :=
  phone.versionName ++ text " (" ++ JsonWriter.decimal phone.versionCode ++ text ")"

def collect (drives : List MountedDrive) (logs usbEvents : List Text) : Contents :=
  let partitions := drives.map (·.partition phone)
  let kept := trimLogs logs usbEvents MAX_LOG_CHARS MAX_USB_CHARS
  let full := trimLogs logs usbEvents MAX_FULL_LOG_CHARS MAX_FULL_USB_CHARS
  { fullLogLines := full.1
    deviceName := phone.deviceName
    appVersion := phone.appVersion
    usbMake := (drives.head?.bind (·.sourceDeviceDisplayName)).getD []
    usbSize := (partitions.head?.map (·.sizeGb ++ text " GB")).getD []
    partitions := partitions
    logLines := kept.1
    logLinesDropped := kept.2 }

end Collect

/-! ### a phone -/

/-- `"%.1f"` in English: the tenths, rounded half up. -/
def oneDecimal (n : Int64) : Text :=
  let tenths := (n.toInt.natAbs + 50000000) / 100000000
  (if n.toInt < 0 then text "-" else []) ++
    (JsonWriter.decimal (tenths / 10) ++ (text "." ++ JsonWriter.decimal (tenths % 10)))

lemma oneDecimal_closed (n : Int64) : ∀ u ∈ oneDecimal n, u ≠ 0x20 ∧ u ≠ 0x0A := by
  intro u hu
  have hdigit {m : ℕ} (h : u ∈ JsonWriter.decimal m) : u ≠ 0x20 ∧ u ≠ 0x0A := by
    have := JsonWriter.mem_decimal h
    constructor <;> rintro rfl <;> revert this <;> decide
  simp only [oneDecimal, List.mem_append] at hu
  rcases hu with hu | hu | hu | hu
  · split at hu
    · rw [show text "-" = [0x2D] by decide, List.mem_singleton] at hu
      exact hu ▸ (by decide)
    · cases hu
  · exact hdigit hu
  · rw [show text "." = [0x2E] by decide, List.mem_singleton] at hu
    exact hu ▸ (by decide)
  · exact hdigit hu

lemma oneDecimal_short (n : Int64) : (oneDecimal n).length ≤ 13 := by
  have hlo := n.le_toInt
  have hhi := n.toInt_lt
  have habs : n.toInt.natAbs ≤ 2 ^ 63 := by omega
  have hwhole :=
    @JsonWriter.length_decimal_le ((n.toInt.natAbs + 50000000) / 100000000 / 10) 10 (by decide)
      (by omega)
  have htenth :=
    @JsonWriter.length_decimal_le ((n.toInt.natAbs + 50000000) / 100000000 % 10) 1 (by decide)
      (by omega)
  have hsign : (if n.toInt < 0 then text "-" else []).length ≤ 1 := by
    split
    · decide
    · exact Nat.zero_le 1
  have hpoint : (text ".").length = 1 := by decide
  simp only [oneDecimal, List.length_append]
  omega

/-- The phone of the source's tests. -/
def testPhone : Phone where
  manufacturer := text "TestCo"
  model := text "TestPhone"
  release := text "99"
  versionName := text "0.0.0"
  versionCode := 0
  formatGb := oneDecimal
  formatGb_closed := oneDecimal_closed
  formatGb_short := oneDecimal_short

/-! ### the URL -/

/-- `Char.isWhitespace`: the white space and the space characters of Unicode. -/
def isWhitespace (u : UInt16) : Bool :=
  let n := u.toNat
  (0x09 ≤ n && n ≤ 0x0D) || (0x1C ≤ n && n ≤ 0x20) || (0x2000 ≤ n && n ≤ 0x200A) ||
    n ∈ [0xA0, 0x1680, 0x2028, 0x2029, 0x202F, 0x205F, 0x3000]

def isBlank (t : Text) : Bool := t.all isWhitespace

def joinLines (lines : List Text) : Text := (text "\n").intercalate lines

/-- A field that is only put `if` there is something to put. -/
def fieldIf (present : Bool) (name : String) (value : Text) : List (Text × Text) :=
  if present then [(text name, value)] else []

def Partition.toJson (p : Partition) : Text := JsonWriter.object
  [(text "size_gb", JsonWriter.string p.sizeGb), (text "file_system", JsonWriter.string p.fileSystem),
    (text "encrypted", JsonWriter.boolean p.encrypted),
    (text "encryption_type", JsonWriter.string p.encryptionType.name)]

def toJson (c : Contents) (sel : Selection) : Text := JsonWriter.object (
  fieldIf sel.device "deviceName" (JsonWriter.string c.deviceName) ++
  fieldIf sel.appVersion "appVersion" (JsonWriter.string c.appVersion) ++
  fieldIf (sel.logs && !c.logLines.isEmpty) "deviceLogs" (JsonWriter.string (joinLines c.logLines)) ++
  fieldIf (sel.usb && !isBlank c.usbMake) "usbMake" (JsonWriter.string c.usbMake) ++
  fieldIf (sel.usb && !isBlank c.usbSize) "usbSize" (JsonWriter.string c.usbSize) ++
  fieldIf (sel.partitions && !c.partitions.isEmpty) "partitionCount"
    (JsonWriter.decimal c.partitions.length) ++
  fieldIf (sel.partitions && !c.partitions.isEmpty) "partitionsData"
    (JsonWriter.array (c.partitions.map (·.toJson))))

def base64 (t : Text) : Text := (Base64.encode (utf8 t)).map fun c => UInt16.ofNat c.toNat

def urlEncode (t : Text) : Text := Percent.encode (utf8 t)

def query (base : Text) (c : Contents) (sel : Selection) : Text :=
  base ++ (text "?payload=" ++ urlEncode (base64 (toJson c sel)))

def fragment (c : Contents) (sel : Selection) : Text :=
  if !sel.logs || c.fullLogLines.isEmpty then []
  else text "#logs=" ++ urlEncode (base64 (joinLines c.fullLogLines))

def url (base : Text) (c : Contents) (sel : Selection) : Text :=
  if sel.nothing then base else query base c sel ++ fragment c sel

/-! ### the summary -/

def EncryptionType.encLabel : EncryptionType → Text
  | luks1 => text "LUKS1"
  | luks2 => text "LUKS2"
  | veracrypt => text "VeraCrypt"
  | bitlocker => text "BitLocker"
  | _ => text "not encrypted"

def Partition.line (i : ℕ) (p : Partition) : Text :=
  text "  " ++ (JsonWriter.decimal (i + 1) ++ (text ". " ++ (p.sizeGb ++ (text " GB, " ++
    (p.fileSystem ++ (text ", " ++ p.encryptionType.encLabel))))))

def logLines (c : Contents) : List Text :=
  [] :: if c.fullLogLines.isEmpty then [text "Log: empty"]
    else (text "Log: " ++ JsonWriter.decimal c.fullLogLines.length ++ text " line(s)") ::
      c.fullLogLines.map (text "  " ++ ·)

def newline : UInt16 := 0x0A

end OtgMaster.Feedback
