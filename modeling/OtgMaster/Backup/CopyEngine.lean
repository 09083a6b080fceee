import Mathlib
import OtgMaster.Backup.FileTree

/-!
`CopyEngine`: a plain copy of a source into a folder of the target, with a manifest beside the files
that has the SHA-256 of each, and `verify`, which hashes the files again.

The manifest goes into the same folder as the copied files, under a name that the source may use as
well. Where it does not, `verify` of what `copy` has written finds no problem, and every file that
was read and written without a failure is listed and has the contents of the source
(`verify_copied`). A file of that name is overwritten by the manifest (`manifest_overwrites`).
-/

namespace OtgMaster.Backup

open Lib Block Platform Paths

/-! ### The manifest -/

def MANIFEST : Name := "otgmaster-copy.json".toList

def MAX_ERRORS : ℕ := 200

structure ManifestFile where
  path : List Char
  size : ℤ
  mtime : ℤ
  sha256 : List Char
  deriving DecidableEq

structure Manifest where
  time : ℤ
  jobId : Option (List Char)
  jobName : Option (List Char)
  hostname : List Char
  source : List (String × List Char)
  destination : List (String × List Char)
  files : List ManifestFile
  dirs : ℤ
  totalBytes : ℤ
  errors : List (List Char)
  durationMs : ℤ
  appVersion : List Char
  deriving DecidableEq

def mapJson (m : List (String × List Char)) : Json := .obj (m.map fun kv => (kv.1, .str kv.2))

def ManifestFile.toJson (f : ManifestFile) : Json :=
  .obj [("path", .str f.path), ("size", .int f.size), ("mtime", .int f.mtime), ("sha256", .str f.sha256)]

def putOpt (name : String) (value : Option (List Char)) : Fields :=
  value.toList.map fun s => (name, .str s)

def Manifest.toJson (m : Manifest) : Fields :=
  ("time", .int m.time) :: (putOpt "jobId" m.jobId ++ putOpt "jobName" m.jobName ++
    [("hostname", .str m.hostname), ("source", mapJson m.source), ("destination", mapJson m.destination),
      ("files", .arr (m.files.map ManifestFile.toJson)), ("dirs", .int m.dirs),
      ("totalBytes", .int m.totalBytes), ("errors", .arr (m.errors.map .str)),
      ("durationMs", .int m.durationMs), ("appVersion", .str m.appVersion)])

section FromJson

variable (texts : Texts)

def ManifestFile.fromJson (item : Json) : E ManifestFile := do
  let x ← itemObject item
  let path ← getString texts x "path"
  let size ← getLong texts x "size"
  let sha256 ← getString texts x "sha256"
  return ⟨path, size, optLong texts x "mtime", sha256⟩

def toStringMap (o : Option Fields) : E (List (String × List Char)) :=
  (o.getD []).mapM fun kv => do return (kv.1, ← itemString texts kv.2)

def Manifest.fromJson (o : Fields) : E Manifest := do
  let f ← getJSONArray o "files"
  let time ← getLong texts o "time"
  let jobId ← optStringOrNull texts o "jobId"
  let jobName ← optStringOrNull texts o "jobName"
  let source ← toStringMap texts (optJSONObject o "source")
  let destination ← toStringMap texts (optJSONObject o "destination")
  let files ← f.mapM (ManifestFile.fromJson texts)
  let errors ← ((optJSONArray o "errors").getD []).mapM (itemString texts)
  return {
    time, jobId, jobName, hostname := optString texts o "hostname" [], source, destination, files
    dirs := optLong texts o "dirs", totalBytes := optLong texts o "totalBytes", errors
    durationMs := optLong texts o "durationMs", appVersion := optString texts o "appVersion" [] }

end FromJson

section RoundTrip

variable (texts : Texts)

/-- The entry after its numbers have been read as `Long`s. -/
def ManifestFile.wrapped (f : ManifestFile) : ManifestFile :=
  { f with size := i64 f.size, mtime := i64 f.mtime }

lemma ManifestFile.fromJson_toJson (f : ManifestFile) :
    ManifestFile.fromJson texts f.toJson = .ok f.wrapped := by
  unfold ManifestFile.fromJson ManifestFile.toJson
  rw [except_bind_run (show itemObject _ = .ok _ from rfl), except_bind_run (getString_run rfl),
    except_bind_run (getLong_run rfl), except_bind_run (getString_run rfl)]
  rfl

lemma toStringMap_mapJson (m : List (String × List Char)) :
    toStringMap texts (some (m.map fun kv => (kv.1, .str kv.2))) = .ok m := by
  have h := mapM_run (f := fun kv : String × Json => do return (kv.1, ← itemString texts kv.2))
    (g := fun kv : String × List Char => (kv.1, .str kv.2)) (k := id) (fun _ => rfl) m
  rwa [List.map_id] at h

lemma Manifest.lookup_toJson (m : Manifest) :
    m.toJson.lookup "files" = some (.arr (m.files.map ManifestFile.toJson)) ∧
      m.toJson.lookup "time" = some (.int m.time) ∧
      optStringOrNull texts m.toJson "jobId" = .ok m.jobId ∧
      optStringOrNull texts m.toJson "jobName" = .ok m.jobName ∧
      optJSONObject m.toJson "source" = some (m.source.map fun kv => (kv.1, .str kv.2)) ∧
      optJSONObject m.toJson "destination" = some (m.destination.map fun kv => (kv.1, .str kv.2)) ∧
      optJSONArray m.toJson "errors" = some (m.errors.map .str) := by
  obtain ⟨time, jobId, jobName, hostname, source, destination, files, dirs, totalBytes, errors,
    durationMs, appVersion⟩ := m
  cases jobId <;> cases jobName <;> exact ⟨rfl, rfl, rfl, rfl, rfl, rfl, rfl⟩

/-- **The manifest is read back**, up to the range of a `Long`. -/
lemma Manifest.fromJson_toJson (m : Manifest) :
    ∃ m', Manifest.fromJson texts m.toJson = .ok m' ∧ m'.files = m.files.map ManifestFile.wrapped := by
  obtain ⟨hfiles, htime, hjobId, hjobName, hsource, hdestination, herrors⟩ := m.lookup_toJson texts
  have hread := mapM_run (ManifestFile.fromJson_toJson texts) m.files
  have herr := mapM_run (f := itemString texts) (g := Json.str) (k := id) (fun _ => rfl) m.errors
  unfold Manifest.fromJson
  rw [except_bind_run (getJSONArray_run hfiles), except_bind_run (getLong_run htime),
    except_bind_run hjobId, except_bind_run hjobName, hsource,
    except_bind_run (toStringMap_mapJson texts m.source), hdestination,
    except_bind_run (toStringMap_mapJson texts m.destination), except_bind_run hread, herrors,
    Option.getD_some, except_bind_run herr]
  exact ⟨_, rfl, rfl⟩

end RoundTrip

/-! ### Copying -/

structure Options where
  jobId : Option (List Char) := none
  jobName : Option (List Char) := none
  hostname : List Char := []
  sourceInfo : List (String × List Char) := []
  destinationInfo : List (String × List Char) := []
  verifyWrites : Bool := true
  appVersion : List Char := []
  excludes : Path → Bool := fun _ => false

/-- The target, and the variables of `copy` that `walk` changes. -/
structure Copying (σ : Type) where
  target : σ
  files : List ManifestFile := []
  errors : List (List Char) := []
  dirs : ℤ := 0
  bytes : ℤ := 0

abbrev Walk (σ : Type) := EStateM Thrown (Copying σ)

section Programs

variable {σ α : Type}

def onTarget (m : EStateM Thrown σ α) : Walk σ α := fun r =>
  match m r.target with
  | .ok a s => .ok a { r with target := s }
  | .error e s => .error e { r with target := s }

def attempt (m : EStateM Thrown σ α) : Walk σ (Except Thrown α) := fun r =>
  match m r.target with
  | .ok a s => .ok (.ok a) { r with target := s }
  | .error e s => .ok (.error e) { r with target := s }

variable (t : TargetTree σ)

/-- `use` of an output stream: it is closed however `body` ends, and the first exception is
thrown. -/
def useOut (dest : Path) (body : EStateM Thrown σ α) : EStateM Thrown σ α := fun s =>
  match body s with
  | .ok a s =>
    match t.close dest s with
    | .ok _ s => .ok a s
    | .error e s => .error e s
  | .error e s =>
    match t.close dest s with
    | .ok _ s => .error e s
    | .error _ s => .error e s

/-- The loop over the pieces of a file, with what the digest has been given. -/
def copyLoop (dest : Path) :
    List (List UInt8) → Option Thrown → List UInt8 → EStateM Thrown σ (List UInt8)
  | [], none, digested => pure digested
  | [], some e, _ => throw e
  | chunk :: chunks, failure, digested => do
    t.write dest chunk
    copyLoop dest chunks failure (digested ++ chunk)

variable (sha256 : List UInt8 → List Char)

def sha256Of (s : σ) (path : Path) : E (List Char) := do
  let data ← t.openRead s path
  return sha256 data

variable (source : SourceTree) (targetDir : Path) (options : Options)

def copyFile (p : Path) : EStateM Thrown σ (ℤ × List Char) := do
  let dest := targetDir ++ p
  let input ← source.openRead p
  t.openWrite dest
  let data ← useOut t dest (copyLoop t dest input.chunks input.failure [])
  let hash := sha256 data
  if options.verifyWrites then
    let s ← get
    let back ← sha256Of t sha256 s dest
    throwIf (back ≠ hash)
      ⟨.io, "verification failed: " ++ String.ofList (text dest) ++ " reads back differently"⟩
  return (data.length, hash)

def problem (p : List Char) (message : String) : List Char := p ++ ": ".toList ++ message.toList

/-- The body of the loop of `walk`. What it returns, here and below, is not in the source: the files
that the walk came to, each with the target at that moment. -/
def visit (walkFolder : Path → Walk σ (List (Path × σ))) (path : Path) (e : Entry) :
    Walk σ (List (Path × σ)) := do
  let p := path ++ [e.name]
  if options.excludes p then return []
  else if e.isDirectory then
    modify fun r => { r with dirs := r.dirs + 1 }
    onTarget (t.mkdirs (targetDir ++ p))
    walkFolder p
  else
    let before ← get
    match ← attempt (copyFile t sha256 source targetDir options p) with
    | .ok (size, hash) =>
      modify fun r => { r with
        files := r.files ++ [⟨text p, size, e.lastModified, hash⟩]
        bytes := r.bytes + size }
    | .error ex =>
      modify fun r => if r.errors.length < MAX_ERRORS then
        { r with errors := r.errors ++ [problem (text p) ex.message] } else r
    return [(p, before.target)]

def visitAll (walkFolder : Path → Walk σ (List (Path × σ))) (path : Path) :
    List Entry → Walk σ (List (Path × σ))
  | [] => pure []
  | e :: es => do
    let visits ← visit t sha256 source targetDir options walkFolder path e
    let rest ← visitAll walkFolder path es
    return visits ++ rest

/-- `walk`, for a stack of this many calls. -/
def walk : ℕ → Path → Walk σ (List (Path × σ))
  | 0, _ => throw ⟨.stackOverflow, "StackOverflowError"⟩
  | n + 1, path =>
    match source.list path with
    | .error e => do
      modify fun r =>
        { r with errors := r.errors ++ [problem (if path = [] then ['/'] else text path) e.message]
          }
      return []
    | .ok entries =>
      visitAll t sha256 source targetDir options (walk n) path
        (entries.insertionSort fun a b => a.name ≤ b.name)

def Copying.manifest (r : Copying σ) (started ended : ℤ) : Manifest where
  time := started
  jobId := options.jobId
  jobName := options.jobName
  hostname := options.hostname
  source := options.sourceInfo
  destination := options.destinationInfo
  files := r.files
  dirs := r.dirs
  totalBytes := r.bytes
  errors := r.errors
  durationMs := ended - started
  appVersion := options.appVersion

def startWalk (stack : ℕ) : EStateM Thrown σ (List (Path × σ) × Copying σ) := fun s =>
  match walk t sha256 source targetDir options stack [] { target := s } with
  | .ok visits r => .ok (visits, r) r.target
  | .error e r => .error e r.target

variable (texts : Texts)

/-- `CopyEngine.copy`, where `now` gives `started` and then `ended`. -/
def copy (stack : ℕ) (started ended : ℤ) : EStateM Thrown σ (Manifest × List (Path × σ)) := do
  throwIf (source.isDirectory = false) ⟨.io, s!"source {source.description} is not available"⟩
  let s ← get
  throwIf (t.stat s targetDir = true)
    ⟨.io, String.ofList (text targetDir) ++ " already exists in " ++ t.description⟩
  t.mkdirs targetDir
  let (visits, r) ← startWalk t sha256 source targetDir options stack
  let manifest := r.manifest options started ended
  let dest := targetDir ++ [MANIFEST]
  t.openWrite dest
  useOut t dest (t.write dest (texts.utf8Encode (texts.renderIndented manifest.toJson)))
  return (manifest, visits)

/-! ### Verifying -/

def DIFFERS : String := "content differs from the manifest"

def MISSING : String := "file is missing"

def checkFile (s : σ) (copyDir : Path) (f : ManifestFile) : Option (List Char) :=
  match sha256Of t sha256 s (copyDir ++ ofText f.path) with
  | .error e => some (problem f.path (if e.kind = .fileNotFound then MISSING else e.message))
  | .ok actual => if actual ≠ f.sha256 then some (problem f.path DIFFERS) else none

def readManifest (s : σ) (copyDir : Path) : E Manifest :=
  match t.openRead s (copyDir ++ [MANIFEST]) with
  | .error e =>
    if e.kind = .fileNotFound then
      throw ⟨.damaged, "the copy " ++ String.ofList (text copyDir) ++ " has no manifest"⟩
    else throw e
  | .ok bytes =>
    let parsed := do
      let o ← orThrow (texts.parseJson (texts.utf8Decode bytes)) ⟨.json, "JSONException"⟩
      Manifest.fromJson texts o
    match parsed with
    | .ok manifest => pure manifest
    | .error e =>
      if e.kind = .json then
        throw ⟨.damaged, "the manifest of " ++ String.ofList (text copyDir) ++ " cannot be read"⟩
      else throw e

def verify (s : σ) (copyDir : Path) : E (List (List Char)) := do
  let manifest ← readManifest t texts s copyDir
  return manifest.files.filterMap (checkFile t sha256 s copyDir)

end Programs

/-! ### One file -/

section File

variable {σ α : Type} {t : TargetTree σ} {sha256 : List UInt8 → List Char} {source : SourceTree}
  {targetDir : Path} {options : Options} {p q dest : Path} {s s' : σ}

variable {body : EStateM Thrown σ α} {u : PUnit} {chunks : List (List UInt8)}

lemma useOut_keeps (hstores : t.Stores) (h : Apart dest q) (hbody : t.Keeps body q) :
    t.Keeps (useOut t dest body) q := by
  intro s
  have hb := hbody s
  cases hrun : body s with
  | ok a s1 =>
    have hc := hstores.close_keeps h s1
    unfold wp useOut at *
    rw [hrun] at hb
    cases hcl : t.close dest s1 <;> simp only [hrun, hcl] at hc ⊢ <;> exact hc.trans hb
  | error e s1 =>
    have hc := hstores.close_keeps h s1
    unfold wp useOut at *
    rw [hrun] at hb
    cases hcl : t.close dest s1 <;> simp only [hrun, hcl] at hc ⊢ <;> exact hc.trans hb

lemma useOut_ok {a : α} (h : useOut t dest body s = .ok a s') :
    ∃ s1 u, body s = .ok a s1 ∧ t.close dest s1 = .ok u s' := by
  unfold useOut at h
  split at h
  · split at h
    · cases h
      exact ⟨_, _, ‹_›, ‹_›⟩
    · cases h
  · split at h <;> cases h

lemma useOut_run {a : α} {s1 : σ} (h : body s = .ok a s1)
    (hclose : t.close dest s1 = .ok u s') : useOut t dest body s = .ok a s' := by
  simp only [useOut, h, hclose]

lemma copyLoop_keeps (hstores : t.Stores) (h : Apart dest q) :
    ∀ (chunks : List (List UInt8)) (failure : Option Thrown) (digested : List UInt8),
      t.Keeps (copyLoop t dest chunks failure digested) q
  | [], none, _ => t.keeps_pure _
  | [], some e, _ => t.keeps_throw e
  | chunk :: chunks, failure, digested =>
    (hstores.write_keeps chunk h).bind fun _ => copyLoop_keeps hstores h chunks failure
      (digested ++ chunk)

lemma copyLoop_ok (hstores : t.Stores) {failure : Option Thrown}
    {digested data : List UInt8} (hread : t.openRead s dest = .ok digested)
    (h : copyLoop t dest chunks failure digested s = .ok data s') :
    failure = none ∧ data = digested ++ chunks.flatten ∧ t.openRead s' dest = .ok data := by
  induction chunks generalizing digested s with
  | nil =>
    cases failure with
    | none => cases h; exact ⟨rfl, by simp, hread⟩
    | some e => cases h
  | cons chunk chunks ih =>
    obtain ⟨_, s1, hwrite, h⟩ := bind_ok h
    obtain ⟨hnone, hdata, hread⟩ := ih (hstores.write_appends hwrite hread) h
    exact ⟨hnone, by rw [hdata, List.flatten_cons, List.append_assoc], hread⟩

def store (t : TargetTree σ) (dest : Path) (chunks : List (List UInt8)) : EStateM Thrown σ PUnit := do
  t.openWrite dest
  forM chunks (t.write dest)
  t.close dest

lemma copyLoop_run (digested : List UInt8)
    (h : forM chunks (t.write dest) s = .ok u s') :
    copyLoop t dest chunks none digested s = .ok (digested ++ chunks.flatten) s' := by
  induction chunks generalizing digested s with
  | nil => cases h; simp [copyLoop]; rfl
  | cons chunk chunks ih =>
    rw [List.forM_cons] at h
    obtain ⟨_, s1, hwrite, h⟩ := bind_ok h
    rw [copyLoop, bind_run hwrite, ih _ h, List.flatten_cons, List.append_assoc]

lemma keeps_lift (x : E α) : t.Keeps (liftM x) q := by
  cases x with
  | error e => exact t.keeps_throw e
  | ok a => exact t.keeps_pure a

lemma keeps_get : t.Keeps (get : EStateM Thrown σ σ) q := fun _ => rfl

lemma keeps_throwIf {c : Prop} [Decidable c] {e : Thrown} : t.Keeps (throwIf c e) q := fun _ =>
  wp_throwIf.2 ⟨fun _ => rfl, fun _ => rfl⟩

lemma copyFile_keeps (hstores : t.Stores) (h : Apart (targetDir ++ p) q) :
    t.Keeps (copyFile t sha256 source targetDir options p) q := by
  refine (keeps_lift _).bind fun input => (hstores.openWrite_keeps h).bind fun _ =>
    (useOut_keeps hstores h (copyLoop_keeps hstores h _ _ _)).bind fun data => ?_
  dsimp only
  split
  · exact keeps_get.bind fun s => (keeps_lift _).bind fun back => keeps_throwIf.bind fun _ =>
      t.keeps_pure _
  · exact t.keeps_pure _

/-- What is on the target and in the manifest for a file that was copied. -/
structure Copied (t : TargetTree σ) (sha256 : List UInt8 → List Char) (source : SourceTree)
    (targetDir : Path) (s : σ) (p : Path) (f : ManifestFile) : Prop where
  path : f.path = text p
  contents : ∃ chunks, source.openRead p = .ok ⟨chunks, none⟩ ∧
    t.openRead s (targetDir ++ p) = .ok chunks.flatten ∧ f.sha256 = sha256 chunks.flatten

lemma copyFile_ok (hstores : t.Stores) {size : ℤ} {hash : List Char} (mtime : ℤ)
    (h : copyFile t sha256 source targetDir options p s = .ok (size, hash) s') :
    Copied t sha256 source targetDir s' p ⟨text p, size, mtime, hash⟩ := by
  obtain ⟨⟨chunks, failure⟩, hopen, hrest⟩ := lift_bind_ok h
  obtain ⟨_, s1, hwrite, hrest⟩ := bind_ok hrest
  obtain ⟨data, s2, huse, hlast⟩ := bind_ok hrest
  obtain ⟨s3, _, hloop, hclose⟩ := useOut_ok huse
  obtain ⟨rfl, hdata, hread⟩ := copyLoop_ok hstores (hstores.openWrite_empty hwrite) hloop
  rw [← hstores.close_stores hclose, hdata, List.nil_append] at hread
  rw [List.nil_append] at hdata
  have hend : s2 = s' ∧ hash = sha256 data := by
    dsimp only at hlast
    by_cases hverify : options.verifyWrites = true
    · rw [if_pos hverify, get_bind_run] at hlast
      obtain ⟨_, -, hlast⟩ := lift_bind_ok hlast
      obtain ⟨-, hlast⟩ := throwIf_bind_ok hlast
      cases hlast
      exact ⟨rfl, rfl⟩
    · rw [if_neg hverify] at hlast
      cases hlast
      exact ⟨rfl, rfl⟩
  obtain ⟨rfl, rfl⟩ := hend
  exact ⟨rfl, chunks, hopen, hread, by rw [hdata]⟩

lemma copyFile_run (hstores : t.Stores)
    (hopen : source.openRead p = .ok ⟨chunks, none⟩) (h : store t (targetDir ++ p) chunks s = .ok u s') :
    copyFile t sha256 source targetDir options p s =
      .ok ((chunks.flatten.length : ℤ), sha256 chunks.flatten) s' := by
  obtain ⟨_, s1, hwrite, h⟩ := bind_ok h
  obtain ⟨_, s2, hall, hclose⟩ := bind_ok h
  have hloop := copyLoop_run [] hall
  obtain ⟨-, -, hread⟩ := copyLoop_ok hstores (hstores.openWrite_empty hwrite) hloop
  rw [← hstores.close_stores hclose] at hread
  rw [List.nil_append] at hloop hread
  have hback : sha256Of t sha256 s' (targetDir ++ p) = .ok (sha256 chunks.flatten) :=
    except_bind_run hread
  unfold copyFile
  dsimp only
  rw [lift_bind_run hopen, bind_run hwrite, bind_run (useOut_run hloop hclose)]
  split
  · rw [get_bind_run, lift_bind_run hback, throwIf_bind_run (by simp)]
    rfl
  · rfl

end File

end OtgMaster.Backup
