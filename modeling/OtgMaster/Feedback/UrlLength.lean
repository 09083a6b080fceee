import OtgMaster.Feedback.Consent

/-!
How long the URL is up to its fragment. Counted in thirds of a character, a byte of the JSON costs
four (three bytes are four digits), and twelve more if it can give a digit that is percent-encoded.
The budget of the log is in characters, and escaping and UTF-8 make more than one byte of some: with
few of those in what is selected, and few lines, the URL is within its limit (`url_short`).
-/

namespace OtgMaster.Feedback

open Lib Utf16 Platform

/-! ### what a byte costs -/

/-- A byte of which a digit can be one of the last two, which are percent-encoded. -/
def noisy (b : UInt8) : Bool := 0x80 ≤ b.toNat || 62 ≤ b.toNat % 64

/-- What a byte adds to the URL, in thirds of a character. -/
def byteCost (b : UInt8) : ℕ := if noisy b then 16 else 4

def digitLength (n : ℕ) : ℕ := (Percent.encodeByte (UInt8.ofNat (Base64.encodeDigit n).toNat)).length

lemma digitLength_eq : ∀ n < 64, digitLength n = if n < 62 then 1 else 3 := by decide +kernel

lemma byteCost_ge (b : UInt8) : 4 ≤ byteCost b := by
  rw [byteCost]
  split <;> omega

lemma byteCost_of_high {b : UInt8} (h : 0x80 ≤ b.toNat) : byteCost b = 16 := by simp [byteCost, noisy, h]

lemma byteCost_of_low {b : UInt8} (h : 62 ≤ b.toNat % 64) : byteCost b = 16 := by
  simp [byteCost, noisy, h]

lemma digitLength_first (a : UInt8) : 3 * digitLength (a.toNat / 4) + 1 ≤ byteCost a := by
  have ha := a.toNat_lt
  have := byteCost_ge a
  rw [digitLength_eq _ (by omega)]
  split
  · omega
  · rw [byteCost_of_high (by omega)]
    omega

lemma digitLength_second (a b : UInt8) :
    3 * digitLength (a.toNat % 4 * 16 + b.toNat / 16) + 1 ≤ byteCost b := by
  have hb := b.toNat_lt
  have := byteCost_ge b
  rw [digitLength_eq _ (by omega)]
  split
  · omega
  · rw [byteCost_of_high (by omega)]
    omega

lemma digitLength_third (b c : UInt8) :
    3 * digitLength (b.toNat % 16 * 4 + c.toNat / 64) + 3 * digitLength (c.toNat % 64) ≤
      byteCost c + 2 := by
  have hc := c.toNat_lt
  have := byteCost_ge c
  rw [digitLength_eq _ (by omega), digitLength_eq _ (by omega)]
  by_cases h : c.toNat % 64 < 62
  · rw [if_pos h]
    split
    · omega
    · rw [byteCost_of_high (by omega)]
      omega
  · rw [if_neg h, byteCost_of_low (by omega)]
    split <;> omega

lemma length_encode_cons (b : UInt8) (bytes : List UInt8) :
    (Percent.encode (b :: bytes)).length = (Percent.encodeByte b).length +
      (Percent.encode bytes).length := by
  rw [Percent.encode, List.flatMap_cons, List.length_append, Percent.encode]

/-- **The length of the encoded bytes**, with at most twenty thirds more for the padding. -/
theorem length_encode_digitBytes : ∀ bytes : List UInt8,
    3 * (Percent.encode (digitBytes bytes)).length ≤ cost byteCost bytes + 20
  | [] => by simp [digitBytes, Base64.encode, Percent.encode]
  | [a] => by
    have hpad : (Percent.encodeByte (UInt8.ofNat '='.toNat)).length = 3 := by decide
    have hfirst := digitLength_first a
    have hsecond : digitLength (a.toNat % 4 * 16) ≤ 1 := by
      rw [digitLength_eq _ (by omega), if_pos (by omega)]
    simp only [digitBytes, Base64.encode, List.map_cons, List.map_nil, length_encode_cons, hpad,
      cost_cons, cost_nil]
    simp only [Percent.encode, List.flatMap_nil, List.length_nil]
    simp only [digitLength] at hfirst hsecond
    omega
  | [a, b] => by
    have hpad : (Percent.encodeByte (UInt8.ofNat '='.toNat)).length = 3 := by decide
    have hfirst := digitLength_first a
    have hsecond := digitLength_second a b
    have hthird : digitLength (b.toNat % 16 * 4) ≤ 1 := by
      rw [digitLength_eq _ (by omega), if_pos (by omega)]
    simp only [digitBytes, Base64.encode, List.map_cons, List.map_nil, length_encode_cons, hpad,
      cost_cons, cost_nil]
    simp only [Percent.encode, List.flatMap_nil, List.length_nil]
    simp only [digitLength] at hfirst hsecond hthird
    omega
  | a :: b :: c :: rest => by
    have ih := length_encode_digitBytes rest
    have hfirst := digitLength_first a
    have hsecond := digitLength_second a b
    have hthird := digitLength_third b c
    simp only [digitBytes] at ih
    simp only [digitBytes, Base64.encode, List.map_cons, length_encode_cons, cost_cons]
    simp only [digitLength] at hfirst hsecond hthird
    omega

/-! ### what a unit costs -/

/-- What a unit of the JSON adds to the URL, in thirds of a character. -/
def unitCost (u : UInt16) : ℕ :=
  if u.toNat < 0x80 then (if 62 ≤ u.toNat % 64 then 16 else 4) else if u.toNat < 0x800 then 32 else 48

lemma byteCost_le (b : UInt8) : byteCost b ≤ 16 := by
  rw [byteCost]
  split <;> omega

lemma cost_loneBytes (u : UInt16) : cost byteCost (loneBytes u) ≤ unitCost u := by
  by_cases hascii : u.toNat < 0x80
  · rw [loneBytes_of_ascii hascii, unitCost, if_pos hascii, cost_cons, cost_nil, byteCost, noisy,
      UInt8.toNat_ofNat', Nat.mod_eq_of_lt (by omega)]
    have hlow : ¬0x80 ≤ u.toNat := by omega
    by_cases hnoisy : 62 ≤ u.toNat % 64 <;> simp [hlow, hnoisy]
  · rw [loneBytes, unitCost, if_neg hascii]
    split
    · rw [cost_cons, cost_nil]
      have := byteCost_le 0x3F
      split <;> omega
    · rw [unitBytes, if_neg hascii]
      split
      · simp only [cost_cons, cost_nil]
        have := byteCost_le (UInt8.ofNat (0xC0 + u.toNat / 64))
        have := byteCost_le (UInt8.ofNat (0x80 + u.toNat % 64))
        omega
      · simp only [cost_cons, cost_nil]
        have := byteCost_le (UInt8.ofNat (0xE0 + u.toNat / 4096))
        have := byteCost_le (UInt8.ofNat (0x80 + u.toNat / 64 % 64))
        have := byteCost_le (UInt8.ofNat (0x80 + u.toNat % 64))
        omega

lemma cost_pairBytes (u v : UInt16) (hu : isHigh u) (hv : isLow v) :
    cost byteCost (pairBytes u v) ≤ unitCost u + unitCost v := by
  have hsurrogate {w : UInt16} (h : 0x800 ≤ w.toNat) : unitCost w = 48 := by
    rw [unitCost, if_neg (by omega), if_neg (by omega)]
  simp only [isHigh, isLow, Bool.and_eq_true, decide_eq_true_eq] at hu hv
  rw [hsurrogate (by omega), hsurrogate (by omega)]
  simp only [pairBytes, cost_cons, cost_nil]
  have := byteCost_le (UInt8.ofNat (0xF0 + codePoint u v / 262144))
  have := byteCost_le (UInt8.ofNat (0x80 + codePoint u v / 4096 % 64))
  have := byteCost_le (UInt8.ofNat (0x80 + codePoint u v / 64 % 64))
  have := byteCost_le (UInt8.ofNat (0x80 + codePoint u v % 64))
  omega

theorem length_urlEncode_base64 (t : Text) :
    3 * (urlEncode (base64 t)).length ≤ cost unitCost t + 20 := by
  rw [urlEncode_base64]
  have hbytes := cost_utf8 cost_loneBytes cost_pairBytes t
  have hdigits := length_encode_digitBytes (utf8 t)
  omega

/-! ### what a text costs in JSON -/

/-- What a unit of a text adds beyond one plain character: bytes from escaping it and from UTF-8,
and three for each byte that can be percent-encoded. Printable ASCII but for quote, slash,
backslash, `>`, `?` and `~` adds nothing. -/
def extra (u : UInt16) : ℕ :=
  if u.toNat < 0x20 then (if u.toNat ∈ [0x08, 0x09, 0x0A, 0x0C, 0x0D] then 1 else 5)
  else if u.toNat < 0x80 then
    (if u.toNat ∈ [0x22, 0x2F, 0x5C] then 1 else if 62 ≤ u.toNat % 64 then 3 else 0)
  else if u.toNat < 0x800 then 7 else 11

lemma cost_escapeUnit (u : UInt16) : cost unitCost (JsonWriter.escapeUnit u) ≤ 4 * (1 + extra u) := by
  by_cases hascii : u.toNat < 0x80
  · -- 128 units, checked one by one
    have hall : ∀ n < 0x80, cost unitCost (JsonWriter.escapeUnit (UInt16.ofNat n)) ≤
        4 * (1 + extra (UInt16.ofNat n)) := by
      decide
    simpa using hall u.toNat hascii
  · have hplain : JsonWriter.escapeUnit u = [u] := by
      have hshort : JsonWriter.shortEscape u.toNat = none := by
        unfold JsonWriter.shortEscape
        split <;> first | omega | rfl
      rw [JsonWriter.escapeUnit, hshort]
      exact if_neg (by omega)
    rw [hplain, cost_cons, cost_nil, unitCost, extra, if_neg hascii,
      if_neg (by omega : ¬u.toNat < 0x20), if_neg hascii]
    split <;> omega

/-- What a text counts as: its length and what its units add. -/
def load (t : Text) : ℕ := t.length + cost extra t

lemma load_append (s t : Text) : load (s ++ t) = load s + load t := by
  simp only [load, List.length_append, cost_append]
  omega

lemma cost_escape : ∀ t : Text, cost unitCost (JsonWriter.escape t) ≤ 4 * load t
  | [] => Nat.zero_le _
  | u :: t => by
    have ih := cost_escape t
    have hunit := cost_escapeUnit u
    simp only [JsonWriter.escape, load] at ih ⊢
    rw [List.flatMap_cons, cost_append, List.length_cons, cost_cons]
    omega

lemma cost_string (t : Text) : cost unitCost (JsonWriter.string t) ≤ 8 + 4 * load t := by
  have := cost_escape t
  have hquote : cost unitCost (text "\"") = 4 := by decide
  rw [JsonWriter.string, cost_append, cost_append, hquote]
  omega

lemma cost_intercalate (sep : Text) : ∀ l : List Text,
    cost unitCost (sep.intercalate l) ≤ cost (fun t => cost unitCost t + cost unitCost sep) l
  | [] => Nat.zero_le _
  | [t] => by
    rw [List.intercalate_singleton, cost_cons, cost_nil]
    omega
  | t :: u :: rest => by
    have ih := cost_intercalate sep (u :: rest)
    rw [List.intercalate_cons_cons, cost_append, cost_append, cost_cons]
    omega

def fieldCost (f : Text × Text) : ℕ := cost unitCost (JsonWriter.string f.1) + cost unitCost f.2 + 8

lemma cost_object (fields : List (Text × Text)) :
    cost unitCost (JsonWriter.object fields) ≤ 8 + cost fieldCost fields := by
  have hbraces : cost unitCost (text "\x7b") = 4 ∧ cost unitCost (text "\x7d") = 4 := by decide
  have hcomma : cost unitCost (text ",") = 4 := by decide
  have hcolon : cost unitCost (text ":") = 4 := by decide
  have hfields := cost_intercalate (text ",") (fields.map JsonWriter.field)
  have hsum : cost (fun t => cost unitCost t + cost unitCost (text ",")) (fields.map JsonWriter.field) =
      cost fieldCost fields := by
    rw [cost, List.map_map, cost]
    congr 1
    refine List.map_congr_left fun f _ => ?_
    show cost unitCost (JsonWriter.field f) + cost unitCost (text ",") = fieldCost f
    rw [JsonWriter.field, cost_append, cost_append, hcomma, hcolon, fieldCost]
    omega
  rw [JsonWriter.object, cost_append, cost_append, hbraces.1, hbraces.2]
  omega

lemma cost_array (items : List Text) :
    cost unitCost (JsonWriter.array items) ≤ 8 + cost (fun t => cost unitCost t + 4) items := by
  have hbrackets : cost unitCost (text "[") = 4 ∧ cost unitCost (text "]") = 4 := by decide
  have hcomma : cost unitCost (text ",") = 4 := by decide
  have hitems := cost_intercalate (text ",") items
  rw [hcomma] at hitems
  rw [JsonWriter.array, cost_append, cost_append, hbrackets.1, hbrackets.2]
  omega

lemma cost_fieldIf {selected b : Bool} {name : String} {v : Text} {k n : ℕ}
    (h : fieldCost (text name, v) ≤ k + 4 * n) :
    cost fieldCost (fieldIf (selected && b) name v) ≤ k + 4 * if selected then n else 0 := by
  cases selected
  · exact Nat.zero_le _
  · cases b
    · exact Nat.zero_le _
    · exact h

/-! ### the partitions -/

lemma load_sizeGb (phone : Phone) (d : MountedDrive) :
    load (d.sizeGb phone) ≤ 13 + cost extra (d.sizeGb phone) := by
  refine Nat.add_le_add_right ?_ _
  rw [MountedDrive.sizeGb]
  split
  · exact phone.formatGb_short _
  · decide

lemma load_fileSystem (phone : Phone) (d : MountedDrive) :
    load (d.partition phone).fileSystem ≤ load d.filesystemName + 7 := by
  show load (if d.filesystemName.isEmpty then text "unknown" else d.filesystemName) ≤ _
  split
  · have : load (text "unknown") = 7 := by decide
    omega
  · omega

/-- What a drive adds to the URL beyond the fields of its partition. -/
def MountedDrive.strain (phone : Phone) (d : MountedDrive) : ℕ :=
  load d.filesystemName + cost extra (d.sizeGb phone)

lemma cost_toJson_partition (phone : Phone) (d : MountedDrive) :
    cost unitCost (d.partition phone).toJson ≤ 400 + 4 * d.strain phone := by
  have hsize := load_sizeGb phone d
  have hfs := load_fileSystem phone d
  have hstring := cost_string (d.partition phone).sizeGb
  have hstring' := cost_string (d.partition phone).fileSystem
  have hbool : ∀ b, cost unitCost (JsonWriter.boolean b) ≤ 20 := by decide
  have htype : ∀ e : EncryptionType, cost unitCost (JsonWriter.string e.name) ≤ 44 := by
    intro e
    cases e <;> decide
  have hnames : cost unitCost (JsonWriter.string (text "size_gb")) = 36 ∧
      cost unitCost (JsonWriter.string (text "file_system")) = 52 ∧
      cost unitCost (JsonWriter.string (text "encrypted")) = 44 ∧
      cost unitCost (JsonWriter.string (text "encryption_type")) = 68 := by decide
  have hbool' := hbool (d.partition phone).encrypted
  have htype' := htype (d.partition phone).encryptionType
  have hobject := cost_object [(text "size_gb", JsonWriter.string (d.partition phone).sizeGb),
    (text "file_system", JsonWriter.string (d.partition phone).fileSystem),
    (text "encrypted", JsonWriter.boolean (d.partition phone).encrypted),
    (text "encryption_type", JsonWriter.string (d.partition phone).encryptionType.name)]
  simp only [cost_cons, cost_nil, fieldCost, hnames] at hobject
  have hsize' : load (d.partition phone).sizeGb ≤ 13 + cost extra (d.sizeGb phone) := hsize
  rw [Partition.toJson, MountedDrive.strain]
  omega

lemma cost_partitionsData (phone : Phone) (drives : List MountedDrive) :
    cost unitCost (JsonWriter.array ((drives.map (·.partition phone)).map (·.toJson))) ≤
      8 + 404 * drives.length + 4 * cost (·.strain phone) drives := by
  have harray := cost_array ((drives.map (·.partition phone)).map (·.toJson))
  have hsum : cost (fun t => cost unitCost t + 4) ((drives.map (·.partition phone)).map (·.toJson)) ≤
      404 * drives.length + 4 * cost (·.strain phone) drives := by
    clear harray
    induction drives with
    | nil => exact Nat.zero_le _
    | cons d rest ih =>
      have := cost_toJson_partition phone d
      simp only [List.map_cons, cost_cons, List.length_cons]
      omega
  omega

/-! ### the short log -/

lemma load_joinLines (lines : List Text) :
    load (joinLines lines) ≤ cost (fun l => load l + 2) lines := by
  have hnewline : load (text "\n") = 2 := by decide
  induction lines with
  | nil => exact Nat.zero_le _
  | cons l rest ih =>
    rw [joinLines] at ih ⊢
    rcases eq_or_ne rest [] with rfl | hne
    · rw [List.intercalate_singleton, cost_cons, cost_nil]
      omega
    · rw [List.intercalate_cons_of_ne_nil hne, load_append, load_append, hnewline, cost_cons]
      omega

/-- What the lines of a log add, one each and what their units add. -/
def strain (lines : List Text) : ℕ := cost (fun l => 1 + cost extra l) lines

lemma cost_lines (lines : List Text) :
    (cost (fun l => load l + 2) lines : ℤ) = lineCost lines + strain lines := by
  induction lines with
  | nil => rfl
  | cons l rest ih =>
    simp only [strain, load] at ih ⊢
    simp only [cost_cons, lineCost_cons]
    push_cast
    omega

lemma cost_sublist {α : Type} {f : α → ℕ} {l m : List α} (h : l.Sublist m) : cost f l ≤ cost f m := by
  induction h with
  | slnil => exact Nat.le_refl _
  | cons x _ ih =>
    rw [cost_cons]
    omega
  | cons_cons x _ ih =>
    rw [cost_cons, cost_cons]
    omega

lemma newest_sublist : ∀ (budget : ℤ) (lines : List Text), (newest budget lines).Sublist lines
  | _, [] => List.Sublist.slnil
  | budget, line :: rest => by
    rw [newest]
    split
    · exact List.nil_sublist _
    · exact (newest_sublist _ rest).cons_cons line

lemma keepNewest_sublist (budget : ℤ) (lines : List Text) :
    (keepNewest budget lines.reverse []).Sublist lines := by
  rw [keepNewest_eq, List.append_nil]
  simpa using (newest_sublist budget lines.reverse).reverse

def chars (lines : List Text) : ℕ := cost (fun l => l.length + 1) lines

lemma lineCost_eq_chars (lines : List Text) : lineCost lines = chars lines := by
  induction lines with
  | nil => rfl
  | cons l rest ih =>
    rw [lineCost_cons, ih, chars, chars, cost_cons]
    push_cast
    rfl

/-- What a log adds to the URL: its characters, as far as the budget goes, and what the lines that
are kept add. -/
def logStrain (logs usbEvents : List Text) : ℕ :=
  min 3500 (chars logs + chars usbEvents + 46) +
    strain (trimLogs logs usbEvents MAX_LOG_CHARS MAX_USB_CHARS).1

/-- **The short log is within its budget.** -/
lemma load_shortLog (logs usbEvents : List Text) :
    load (joinLines (trimLogs logs usbEvents MAX_LOG_CHARS MAX_USB_CHARS).1) ≤
      logStrain logs usbEvents := by
  have hjoin := load_joinLines (trimLogs logs usbEvents MAX_LOG_CHARS MAX_USB_CHARS).1
  have hlines := cost_lines (trimLogs logs usbEvents MAX_LOG_CHARS MAX_USB_CHARS).1
  have hbudget : lineCost (trimLogs logs usbEvents MAX_LOG_CHARS MAX_USB_CHARS).1 ≤ 3500 :=
    lineCost_trimLogs (by decide) (by decide)
  have hall : lineCost (trimLogs logs usbEvents MAX_LOG_CHARS MAX_USB_CHARS).1 ≤
      chars logs + chars usbEvents + 46 := by
    have hheader := lineCost_header (earlierUsb logs usbEvents MAX_USB_CHARS)
    have hearlier : chars (earlierUsb logs usbEvents MAX_USB_CHARS) ≤ chars usbEvents :=
      cost_sublist ((keepNewest_sublist _ _).trans List.filter_sublist)
    have hrecent : chars (recentLog logs usbEvents MAX_LOG_CHARS MAX_USB_CHARS) ≤ chars logs :=
      cost_sublist (keepNewest_sublist _ _)
    rw [lineCost_eq_chars (earlierUsb ..)] at hheader
    rw [trimLogs_fst, lineCost_append, lineCost_eq_chars (recentLog ..)]
    omega
  rw [logStrain]
  omega

/-! ### the whole URL -/

def beforeFragment (u : Text) : Text := u.takeWhile (· ≠ 0x23)

lemma length_beforeFragment (base : Text) (c : Contents) (sel : Selection) :
    (beforeFragment (url base c sel)).length ≤ base.length + 9 +
      (urlEncode (base64 (toJson c sel))).length := by
  have hquery : (query base c sel).length = base.length + 9 +
      (urlEncode (base64 (toJson c sel))).length := by
    rw [query, List.length_append, List.length_append, show (text "?payload=").length = 9 by decide]
    omega
  have htake (l : Text) : (beforeFragment l).length ≤ l.length := (List.takeWhile_sublist _).length_le
  rw [url]
  split
  · have := htake base
    omega
  · rw [← hquery, beforeFragment, List.takeWhile_append]
    split
    · -- the fragment starts with the sign that ends the part before it
      have hfragment : (fragment c sel).takeWhile (· ≠ 0x23) = [] := by
        rw [fragment]
        split
        · rfl
        · rw [show text "#logs=" = 0x23 :: text "logs=" by decide, List.cons_append, List.takeWhile_cons]
          rfl
      rw [hfragment, List.append_nil]
    · exact htake _

/-- What a report adds to the URL, of the categories that are selected: the log, the characters of
the file system names, and what all units add that are not plain. -/
def Report.strain (r : Report) (sel : Selection) : ℕ :=
  (if sel.device then cost extra r.phone.deviceName else 0) +
  (if sel.appVersion then cost extra r.phone.appVersion else 0) +
  (if sel.logs then logStrain r.logs r.usbEvents else 0) +
  (if sel.usb then cost extra r.contents.usbMake else 0) +
    (if sel.usb then cost extra r.contents.usbSize else 0) +
  (if sel.partitions then cost (·.strain r.phone) r.drives else 0)

lemma length_usbSize (r : Report) : r.contents.usbSize.length ≤ 16 := by
  cases hd : r.drives with
  | nil => simp [Report.contents, collect, hd]
  | cons d rest =>
    have husb : r.contents.usbSize = d.sizeGb r.phone ++ text " GB" := by
      simp [Report.contents, collect, hd, MountedDrive.partition]
    have hgb : (text " GB").length = 3 := by decide
    have := load_sizeGb r.phone d
    rw [husb, List.length_append, hgb]
    rw [load] at this
    omega

lemma cost_toJson (r : Report) (sel : Selection) (hdrives : r.drives.length ≤ 8) :
    cost unitCost (toJson r.contents sel) ≤ 3792 +
      4 * (r.phone.deviceName.length + r.phone.appVersion.length + r.contents.usbMake.length +
        r.strain sel) := by
  have hnames : cost unitCost (JsonWriter.string (text "deviceName")) = 48 ∧
      cost unitCost (JsonWriter.string (text "appVersion")) = 48 ∧
      cost unitCost (JsonWriter.string (text "deviceLogs")) = 48 ∧
      cost unitCost (JsonWriter.string (text "usbMake")) = 36 ∧
      cost unitCost (JsonWriter.string (text "usbSize")) = 36 ∧
      cost unitCost (JsonWriter.string (text "partitionCount")) = 64 ∧
      cost unitCost (JsonWriter.string (text "partitionsData")) = 64 := by decide
  have hcount : cost unitCost (JsonWriter.decimal r.contents.partitions.length) ≤ 4 := by
    have hlength : r.contents.partitions.length < 9 := by
      show (r.drives.map (·.partition r.phone)).length < 9
      rw [List.length_map]
      omega
    exact (show ∀ n < 9, cost unitCost (JsonWriter.decimal n) ≤ 4 by decide) _ hlength
  have hstring {name : String} {v : Text}
    {n : ℕ} (hn : cost unitCost (JsonWriter.string (text name)) = n) :
      fieldCost (text name, JsonWriter.string v) ≤ n + 16 + 4 * v.length + 4 * cost extra v := by
    have hv := cost_string v
    rw [load] at hv
    simp only [fieldCost, hn]
    omega
  have hlog : fieldCost (text "deviceLogs", JsonWriter.string (joinLines r.contents.logLines)) ≤
      64 + 4 * logStrain r.logs r.usbEvents := by
    have hload : load (joinLines r.contents.logLines) ≤ logStrain r.logs r.usbEvents := load_shortLog ..
    have hcost := cost_string (joinLines r.contents.logLines)
    simp only [fieldCost, hnames]
    omega
  have hnumber :
      fieldCost (text "partitionCount", JsonWriter.decimal r.contents.partitions.length) ≤
          76 + 4 * 0 := by
    simp only [fieldCost, hnames]
    omega
  have hdata :
    fieldCost (text "partitionsData", JsonWriter.array (r.contents.partitions.map (·.toJson))) ≤
      3312 + 4 * cost (·.strain r.phone) r.drives := by
    have hcost : cost unitCost (JsonWriter.array (r.contents.partitions.map (·.toJson))) ≤ _ :=
      cost_partitionsData r.phone r.drives
    simp only [fieldCost, hnames]
    omega
  have hobject := cost_object (leadFields r.contents sel ++
    fieldIf (sel.partitions && !r.contents.partitions.isEmpty) "partitionsData"
      (JsonWriter.array (r.contents.partitions.map (·.toJson))))
  have h₁ := @cost_fieldIf sel.device true _ _ _ _ (hstring (v := r.phone.deviceName) hnames.1)
  have h₂ := @cost_fieldIf sel.appVersion true _ _ _ _ (hstring (v := r.phone.appVersion) hnames.2.1)
  have h₃ := @cost_fieldIf sel.logs (!r.contents.logLines.isEmpty) _ _ _ _ hlog
  have h₄ := @cost_fieldIf sel.usb (!isBlank r.contents.usbMake) _ _ _ _
    (hstring (v := r.contents.usbMake) hnames.2.2.2.1)
  have h₅ := @cost_fieldIf sel.usb (!isBlank r.contents.usbSize) _ _ _ _
    (hstring (v := r.contents.usbSize) hnames.2.2.2.2.1)
  have h₆ := @cost_fieldIf sel.partitions (!r.contents.partitions.isEmpty) _ _ _ _ hnumber
  have h₇ := @cost_fieldIf sel.partitions (!r.contents.partitions.isEmpty) _ _ _ _ hdata
  have husb := length_usbSize r
  have hdevice : r.contents.deviceName = r.phone.deviceName := rfl
  have hversion : r.contents.appVersion = r.phone.appVersion := rfl
  rw [Bool.and_true] at h₁ h₂
  rw [toJson_eq]
  simp only [leadFields, cost_append, hdevice, hversion] at hobject ⊢
  rw [Report.strain]
  rw [ite_self] at h₆
  omega

/-- **The URL is within its limit** up to its fragment, with eight partitions at most, 200
characters for the base, the device, the version and the make, and a report whose selected
categories add 4840 at most: a character of the log or of a file system name one, a line of the log
another one, and a unit that is escaped or not ASCII what it adds. -/
theorem url_short (base : Text) (r : Report) (sel : Selection) (hdrives : r.drives.length ≤ 8)
    (hlength : base.length + r.phone.deviceName.length + r.phone.appVersion.length +
      r.contents.usbMake.length ≤ 200)
    (hstrain : r.strain sel ≤ 4840) :
    (beforeFragment (url base r.contents sel)).length ≤ MAX_URL_CHARS := by
  have hbefore := length_beforeFragment base r.contents sel
  have hencoded := length_urlEncode_base64 (toJson r.contents sel)
  have hjson := cost_toJson r sel hdrives
  rw [MAX_URL_CHARS]
  omega

def arabicPhone : Phone := { testPhone with
  formatGb := fun _ => [0x0666, 0x0662, 0x066B, 0x0660]
  formatGb_closed := fun _ => by simp
  formatGb_short := fun _ => by decide }

def manyLines : Report :=
  ⟨testPhone, [testDrive .LUKS1 false], List.replicate 300 (text "USB: attached"), [text "mounted"]⟩

def longLine : Report := ⟨arabicPhone, [testDrive .LUKS1 false], [List.replicate 2000 0x4E00], []⟩

theorem url_short_mounted :
    (beforeFragment (url (text "https") manyLines.contents {})).length ≤ MAX_URL_CHARS ∧
    (beforeFragment (url (text "https") longLine.contents ⟨true, true, true, true, false⟩)).length ≤
      MAX_URL_CHARS :=
  ⟨url_short (text "https") manyLines {} (by decide) (by decide +kernel) (by decide +kernel),
    url_short (text "https") longLine ⟨true, true, true, true, false⟩ (by decide)
      (by decide +kernel) (by decide +kernel)⟩

/-- One line of 2000 characters that take three bytes each: the log is within its budget, and the
URL is too long. -/
theorem url_too_long : MAX_URL_CHARS <
    (beforeFragment (url [] (collect testPhone [] [List.replicate 2000 0x4E00] []) {})).length := by
  decide +kernel

end OtgMaster.Feedback
