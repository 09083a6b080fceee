import OtgMaster.Backup.CopyEngine

/-!
What `copy` has written passes `verify`.

A call of the walk is specified by the files it is to copy and the paths it may touch (`Visited`):
other files stay as they were, each entry that it adds to the manifest is one of its files with its
contents on the target, and each of its files is added unless its reading or writing fails. Two such
calls follow one another if the second does not touch the files of the first (`Visited.seq`), which
is so for the entries of a folder because their names differ. The manifest is written last, and is
one more call like these.
-/

namespace OtgMaster.Backup

open Lib Block Platform Paths

/-! ### The files of a source -/

section Files

variable {source : SourceTree} {excludes : Path → Bool} {path p : Path} {e : Entry}

/-- `p` is a file in the folder `path` or below, and nothing on the way to it is excluded. -/
inductive FileBelow (source : SourceTree) (excludes : Path → Bool) : Path → Path → Prop
  | here {path : Path} {entries : List Entry} {e : Entry} (hlist : source.list path = .ok entries)
      (he : e ∈ entries) (hfile : e.isDirectory = false) (hin : excludes (path ++ [e.name]) = false)
        :
      FileBelow source excludes path (path ++ [e.name])
  | deeper {path p : Path} {entries : List Entry} {e : Entry} (hlist : source.list path = .ok entries)
      (he : e ∈ entries) (hfolder : e.isDirectory = true) (hin : excludes (path ++ [e.name]) = false)
      (hp : FileBelow source excludes (path ++ [e.name]) p) : FileBelow source excludes path p

/-- `p` is such a file at the entry `e` of the folder `path`, or below it. -/
def Through (source : SourceTree) (excludes : Path → Bool) (path : Path) (e : Entry) (p : Path) : Prop :=
  excludes (path ++ [e.name]) = false ∧
    (e.isDirectory = false ∧ p = path ++ [e.name] ∨
      e.isDirectory = true ∧ FileBelow source excludes (path ++ [e.name]) p)

lemma fileBelow_iff : FileBelow source excludes path p ↔
    ∃ entries, source.list path = .ok entries ∧ ∃ e ∈ entries, Through source excludes path e p := by
  constructor
  · rintro (⟨hlist, he, hfile, hin⟩ | ⟨hlist, he, hfolder, hin, hp⟩)
    · exact ⟨_, hlist, _, he, hin, Or.inl ⟨hfile, rfl⟩⟩
    · exact ⟨_, hlist, _, he, hin, Or.inr ⟨hfolder, hp⟩⟩
  · rintro ⟨entries, hlist, e, he, hin, ⟨hfile, rfl⟩ | ⟨hfolder, hp⟩⟩
    · exact .here hlist he hfile hin
    · exact .deeper hlist he hfolder hin hp

lemma FileBelow.exists_append (h : FileBelow source excludes path p) : ∃ n r, p = path ++ n :: r := by
  induction h with
  | here => exact ⟨_, [], rfl⟩
  | deeper _ _ _ _ _ ih =>
    obtain ⟨n, r, rfl⟩ := ih
    exact ⟨_, n :: r, List.append_assoc ..⟩

lemma Through.isPrefix (h : Through source excludes path e p) : path ++ [e.name] <+: p := by
  obtain ⟨-, ⟨-, rfl⟩ | ⟨-, hp⟩⟩ := h
  · exact List.prefix_refl _
  · obtain ⟨n, r, rfl⟩ := hp.exists_append
    exact List.prefix_append ..

lemma FileBelow.proper (h : FileBelow source excludes path p) (hpath : Proper path) : Proper p := by
  have hstep : ∀ {path entries e}, source.list path = .ok entries → e ∈ entries → Proper path →
      Proper (path ++ [e.name]) := by
    intro path entries e hlist he hpath n hn
    rcases List.mem_append.1 hn with hn | hn
    · exact hpath n hn
    · rw [List.mem_singleton.1 hn]
      exact source.proper hlist e he
  induction h with
  | here hlist he => exact hstep hlist he hpath
  | deeper hlist he _ _ _ ih => exact ih (hstep hlist he hpath)

end Files

/-! ### Calls of the walk -/

section Walk

variable {σ : Type} {t : TargetTree σ} {sha256 : List UInt8 → List Char} {source : SourceTree}
  {targetDir : Path} {options : Options} {F F' R R' : Path → Prop} {r r' r'' : Copying σ}
  {visits visits' : List (Path × σ)}

/-- What a call does that is to copy the files `F` and may touch the paths `R`. -/
structure Visited (t : TargetTree σ) (sha256 : List UInt8 → List Char) (source : SourceTree)
    (targetDir : Path) (F R : Path → Prop) (r r' : Copying σ) (visits : List (Path × σ)) :
    Prop where
  keeps : ∀ q, ¬R q → t.openRead r'.target (targetDir ++ q) = t.openRead r.target (targetDir ++ q)
  listed : ∃ new, r'.files = r.files ++ new ∧ ∀ f ∈ new, ∃ p, F p ∧
    Copied t sha256 source targetDir r'.target p f
  /-- A file that the call came to is listed, unless reading or writing it failed. -/
  copied : ∀ p chunks, F p → source.openRead p = .ok ⟨chunks, none⟩ → ∃ s, (p, s) ∈ visits ∧
    ((∃ e s', store t (targetDir ++ p) chunks s = .error e s') ∨
      ∃ f ∈ r'.files, Copied t sha256 source targetDir r'.target p f)

lemma Copied.of_openRead_eq {s s' : σ} {p : Path} {f : ManifestFile}
    (h : Copied t sha256 source targetDir s p f)
    (heq : t.openRead s' (targetDir ++ p) = t.openRead s (targetDir ++ p)) :
    Copied t sha256 source targetDir s' p f := by
  obtain ⟨chunks, hopen, hread, hhash⟩ := h.contents
  exact ⟨h.path, chunks, hopen, heq.trans hread, hhash⟩

lemma Visited.mono (h : Visited t sha256 source targetDir F R r r' visits) (hF : ∀ p, F' p ↔ F p)
    (hR : ∀ q, R q → R' q) : Visited t sha256 source targetDir F' R' r r' visits where
  keeps q hq := h.keeps q fun hr => hq (hR q hr)
  listed := by
    obtain ⟨new, hnew, hall⟩ := h.listed
    refine ⟨new, hnew, fun f hf => ?_⟩
    obtain ⟨p, hp, hc⟩ := hall f hf
    exact ⟨p, (hF p).2 hp, hc⟩
  copied p chunks hp := h.copied p chunks ((hF p).1 hp)

lemma Visited.nothing (hfiles : r'.files = r.files) (hF : ∀ p, ¬F p)
    (hkeeps : ∀ q, ¬R q → t.openRead r'.target (targetDir ++ q) = t.openRead r.target (targetDir ++ q)) :
    Visited t sha256 source targetDir F R r r' [] where
  keeps := hkeeps
  listed := ⟨[], by rw [hfiles, List.append_nil], by simp⟩
  copied p _ hp := absurd hp (hF p)

/-- **One call after the other**, where the second does not touch the files of the first. -/
lemma Visited.seq (h : Visited t sha256 source targetDir F R r r' visits)
    (h' : Visited t sha256 source targetDir F' R' r' r'' visits') (hapart : ∀ p, F p → ¬R' p) :
    Visited t sha256 source targetDir (fun p => F p ∨ F' p) (fun q => R q ∨ R' q) r r''
      (visits ++ visits') where
  keeps q hq := (h'.keeps q fun hr => hq (Or.inr hr)).trans (h.keeps q fun hr => hq (Or.inl hr))
  listed := by
    obtain ⟨new, hnew, hall⟩ := h.listed
    obtain ⟨new', hnew', hall'⟩ := h'.listed
    refine ⟨new ++ new', by rw [hnew', hnew, List.append_assoc], fun f hf => ?_⟩
    rcases List.mem_append.1 hf with hf | hf
    · obtain ⟨p, hp, hc⟩ := hall f hf
      exact ⟨p, Or.inl hp, hc.of_openRead_eq (h'.keeps p (hapart p hp))⟩
    · obtain ⟨p, hp, hc⟩ := hall' f hf
      exact ⟨p, Or.inr hp, hc⟩
  copied p chunks hp hopen := by
    rcases hp with hp | hp
    · obtain ⟨s, hs, hfail | ⟨f, hf, hc⟩⟩ := h.copied p chunks hp hopen
      · exact ⟨s, List.mem_append_left _ hs, Or.inl hfail⟩
      · obtain ⟨new', hnew', -⟩ := h'.listed
        exact ⟨s, List.mem_append_left _ hs, Or.inr ⟨f, hnew' ▸ List.mem_append_left _ hf,
          hc.of_openRead_eq (h'.keeps p (hapart p hp))⟩⟩
    · obtain ⟨s, hs, hres⟩ := h'.copied p chunks hp hopen
      exact ⟨s, List.mem_append_right _ hs, hres⟩

def WalksFolders (t : TargetTree σ) (sha256 : List UInt8 → List Char) (source : SourceTree)
    (targetDir : Path) (options : Options) (walkFolder : Path → Walk σ (List (Path × σ))) : Prop :=
  ∀ path r visits r', walkFolder path r = .ok visits r' →
    Visited t sha256 source targetDir (FileBelow source options.excludes path)
      (fun q => ¬Apart path q) r r' visits

variable {walkFolder : Path → Walk σ (List (Path × σ))} {path : Path} {e : Entry}

lemma onTarget_ok {α : Type} {m : EStateM Thrown σ α} {a : α} (h : onTarget m r = .ok a r') :
    ∃ s, m r.target = .ok a s ∧ r' = { r with target := s } := by
  unfold onTarget at h
  split at h
  · cases h
    exact ⟨_, ‹_›, rfl⟩
  · cases h

lemma visit_file (hstores : t.Stores) (hin : options.excludes (path ++ [e.name]) = false)
    (hfile : e.isDirectory = false)
    (h : visit t sha256 source targetDir options walkFolder path e r = .ok visits r') :
    Visited t sha256 source targetDir (Through source options.excludes path e)
      (fun q => ¬Apart (path ++ [e.name]) q) r r' visits := by
  have hthrough : ∀ p, Through source options.excludes path e p ↔ p = path ++ [e.name] := by
    simp [Through, hin, hfile]
  have hkeeps : ∀ q, ¬¬Apart (path ++ [e.name]) q → t.Keeps
      (copyFile t sha256 source targetDir options (path ++ [e.name])) (targetDir ++ q) := fun q hq =>
    copyFile_keeps hstores ((not_not.1 hq).under targetDir)
  rw [visit, if_neg (by simp [hin]), if_neg (by simp [hfile]), get_bind_run] at h
  obtain ⟨res, r1, hattempt, h⟩ := bind_ok h
  cases hcopy : copyFile t sha256 source targetDir options (path ++ [e.name]) r.target with
  | ok sh s =>
    have hrun : res = .ok sh ∧ r1 = { r with target := s } := by
      simp only [attempt, hcopy] at hattempt
      cases hattempt
      exact ⟨rfl, rfl⟩
    obtain ⟨rfl, rfl⟩ := hrun
    obtain ⟨size, hash⟩ := sh
    cases h
    have hcopied := copyFile_ok hstores e.lastModified hcopy
    refine ⟨fun q hq => (hkeeps q hq).of_ok hcopy, ⟨_, rfl, fun f hf => ?_⟩, fun p chunks hp _ => ?_⟩
    · rw [List.mem_singleton.1 hf]
      exact ⟨_, (hthrough _).2 rfl, hcopied⟩
    · rw [(hthrough p).1 hp]
      exact ⟨r.target, List.mem_singleton.2 rfl,
        Or.inr ⟨_, List.mem_append_right _ (List.mem_singleton.2 rfl), hcopied⟩⟩
  | error ex s =>
    have hrun : res = .error ex ∧ r1 = { r with target := s } := by
      simp only [attempt, hcopy] at hattempt
      cases hattempt
      exact ⟨rfl, rfl⟩
    obtain ⟨rfl, rfl⟩ := hrun
    have hend : visits = [(path ++ [e.name], r.target)] ∧ r'.target = s ∧ r'.files = r.files := by
      cases h
      refine ⟨rfl, ?_, ?_⟩ <;> dsimp only <;> split <;> rfl
    obtain ⟨rfl, rfl, hfiles⟩ := hend
    refine ⟨fun q hq => (hkeeps q hq).of_error hcopy, ⟨[], by rw [hfiles, List.append_nil], by simp⟩,
      fun p chunks hp hopen => ?_⟩
    rw [(hthrough p).1 hp] at hopen ⊢
    refine ⟨r.target, List.mem_singleton.2 rfl, Or.inl ?_⟩
    cases hstore : store t (targetDir ++ (path ++ [e.name])) chunks r.target with
    | error e' s' => exact ⟨e', s', rfl⟩
    | ok u s' =>
      rw [copyFile_run hstores hopen hstore] at hcopy
      cases hcopy

lemma visit_folder (hstores : t.Stores)
    (hwalk : WalksFolders t sha256 source targetDir options walkFolder)
    (hin : options.excludes (path ++ [e.name]) = false) (hfolder : e.isDirectory = true)
    (h : visit t sha256 source targetDir options walkFolder path e r = .ok visits r') :
    Visited t sha256 source targetDir (Through source options.excludes path e)
      (fun q => ¬Apart (path ++ [e.name]) q) r r' visits := by
  have hthrough : ∀ p, Through source options.excludes path e p ↔
      FileBelow source options.excludes (path ++ [e.name]) p := by simp [Through, hin, hfolder]
  rw [visit, if_neg (by simp [hin]), if_pos hfolder] at h
  obtain ⟨_, r1, hr1, h⟩ := bind_ok h
  cases hr1
  obtain ⟨_, r2, hmkdirs, h⟩ := bind_ok h
  obtain ⟨s, hs, rfl⟩ := onTarget_ok hmkdirs
  have hbelow := hwalk _ _ _ _ h
  refine ⟨fun q hq => (hbelow.keeps q hq).trans ?_, ?_,
    fun p chunks hp => hbelow.copied p chunks ((hthrough p).1 hp)⟩
  · have hapart := (not_not.1 hq).under targetDir
    exact (hstores.mkdirs_keeps hapart.2).of_ok hs
  · obtain ⟨new, hnew, hall⟩ := hbelow.listed
    refine ⟨new, hnew, fun f hf => ?_⟩
    obtain ⟨p, hp, hc⟩ := hall f hf
    exact ⟨p, (hthrough p).2 hp, hc⟩

lemma visit_spec (hstores : t.Stores) (hwalk : WalksFolders t sha256 source targetDir options walkFolder)
    (h : visit t sha256 source targetDir options walkFolder path e r = .ok visits r') :
    Visited t sha256 source targetDir (Through source options.excludes path e)
      (fun q => ¬Apart (path ++ [e.name]) q) r r' visits := by
  cases hin : options.excludes (path ++ [e.name]) with
  | true =>
    rw [visit, if_pos hin] at h
    cases h
    exact .nothing rfl (by simp [Through, hin]) fun _ _ => rfl
  | false =>
    cases hfolder : e.isDirectory with
    | true => exact visit_folder hstores hwalk hin hfolder h
    | false => exact visit_file hstores hin hfolder h

lemma visitAll_spec (hstores : t.Stores)
    (hwalk : WalksFolders t sha256 source targetDir options walkFolder) {entries : List Entry}
    (hnames : (entries.map Entry.name).Nodup)
    (h : visitAll t sha256 source targetDir options walkFolder path entries r = .ok visits r') :
    Visited t sha256 source targetDir (fun p => ∃ e ∈ entries, Through source options.excludes path e p)
      (fun q => ∃ e ∈ entries, ¬Apart (path ++ [e.name]) q) r r' visits := by
  induction entries generalizing r visits with
  | nil =>
    cases h
    exact .nothing rfl (by simp) fun _ _ => rfl
  | cons e entries ih =>
    rw [visitAll] at h
    obtain ⟨visits1, r1, hvisit, h⟩ := bind_ok h
    obtain ⟨visits2, r2, hrest, h⟩ := bind_ok h
    cases h
    rw [List.map_cons, List.nodup_cons] at hnames
    refine ((visit_spec hstores hwalk hvisit).seq (ih hnames.2 hrest) ?_).mono (by simp) (by simp)
    -- a file at one entry is apart from the paths of the others
    rintro p hp ⟨e', he', hnot⟩
    have hne : e'.name ≠ e.name := fun heq => hnames.1 (heq ▸ List.mem_map_of_mem he')
    obtain ⟨rest, rfl⟩ := hp.isPrefix
    exact hnot ((apart_of_ne hne.symm path).append rest).symm

lemma walk_spec (hstores : t.Stores) (n : ℕ) :
    WalksFolders t sha256 source targetDir options (walk t sha256 source targetDir options n) := by
  induction n with
  | zero =>
    intro path r visits r' h
    cases h
  | succ n ih =>
    intro path r visits r' h
    rw [walk] at h
    cases hlist : source.list path with
    | error ex =>
      rw [hlist] at h
      cases h
      refine .nothing rfl (fun p hp => ?_) fun _ _ => rfl
      obtain ⟨_, hlist', -⟩ := fileBelow_iff.1 hp
      rw [hlist] at hlist'
      cases hlist'
    | ok entries =>
      rw [hlist] at h
      have hperm := List.perm_insertionSort (fun a b : Entry => a.name ≤ b.name) entries
      refine (visitAll_spec hstores ih ((hperm.map _).nodup_iff.2 (source.names hlist)) h).mono
        (fun p => ?_) ?_
      · rw [fileBelow_iff]
        simp [hlist, hperm.mem_iff]
      · rintro q ⟨e, -, hnot⟩ hapart
        exact hnot (hapart.append _)

end Walk

/-! ### The copy and its manifest -/

section Copy

variable {σ : Type} {t : TargetTree σ} {sha256 : List UInt8 → List Char} {source : SourceTree}
  {targetDir : Path} {options : Options} {texts : Texts} {stack : ℕ} {started ended : ℤ}
  {manifest : Manifest} {visits : List (Path × σ)} {s s' : σ}

lemma copy_ok (hstores : t.Stores)
    (h : copy t sha256 source targetDir options texts stack started ended s =
      .ok (manifest, visits) s') : ∃ r r' : Copying σ, r.files = [] ∧ manifest.files = r'.files ∧
      Visited t sha256 source targetDir (FileBelow source options.excludes [])
        (fun q => ¬Apart [] q) r r' visits ∧
      t.openRead s' (targetDir ++ [MANIFEST]) =
        .ok (texts.utf8Encode (texts.renderIndented manifest.toJson)) ∧
      ∀ q, Apart [MANIFEST] q →
      t.openRead s' (targetDir ++ q) = t.openRead r'.target (targetDir ++ q) := by
  unfold copy at h
  obtain ⟨-, h⟩ := throwIf_bind_ok h
  rw [get_bind_run] at h
  obtain ⟨-, h⟩ := throwIf_bind_ok h
  obtain ⟨_, s1, -, h⟩ := bind_ok h
  obtain ⟨⟨visits', r'⟩, s2, hstartWalk, h⟩ := bind_ok h
  obtain ⟨_, s3, hopen, h⟩ := bind_ok h
  obtain ⟨_, s4, huse, h⟩ := bind_ok h
  cases h
  have hstart : walk t sha256 source targetDir options stack [] { target := s1 } = .ok visits r' ∧
      s2 = r'.target := by
    unfold startWalk at hstartWalk
    split at hstartWalk
    · cases hstartWalk
      exact ⟨‹_›, rfl⟩
    · cases hstartWalk
  obtain ⟨hwalk, rfl⟩ := hstart
  obtain ⟨s5, _, hwrite, hclose⟩ := useOut_ok huse
  refine ⟨_, r', rfl, rfl, walk_spec hstores stack _ _ _ _ hwalk, ?_, fun q hq => ?_⟩
  · rw [hstores.close_stores hclose, hstores.write_appends hwrite (hstores.openWrite_empty hopen),
      List.nil_append]
  · have hapart := hq.under targetDir
    rw [(hstores.close_keeps hapart).of_ok hclose, (hstores.write_keeps _ hapart).of_ok hwrite,
      (hstores.openWrite_keeps hapart).of_ok hopen]

lemma readManifest_run {m : Manifest}
    (hread : t.openRead s (targetDir ++ [MANIFEST]) =
      .ok (texts.utf8Encode (texts.renderIndented m.toJson)))
    (hjson : texts.parseJson (texts.utf8Decode (texts.utf8Encode (texts.renderIndented m.toJson))) =
      some m.toJson) :
    ∃ m', readManifest t texts s targetDir = .ok m' ∧ m'.files = m.files.map ManifestFile.wrapped := by
  obtain ⟨m', hm', hfiles⟩ := Manifest.fromJson_toJson texts m
  refine ⟨m', ?_, hfiles⟩
  unfold readManifest
  rw [hread]
  dsimp only
  rw [hjson, except_bind_run orThrow_run, hm']
  rfl

lemma checkFile_copied {p : Path} {f : ManifestFile} (hp : Proper p)
    (h : Copied t sha256 source targetDir s p f) :
    checkFile t sha256 s targetDir f.wrapped = none := by
  obtain ⟨chunks, -, hread, hhash⟩ := h.contents
  have hpath : ofText f.wrapped.path = p := by
    show ofText f.path = p
    rw [h.path, ofText_text hp]
  have hof : sha256Of t sha256 s (targetDir ++ p) = .ok (sha256 chunks.flatten) := except_bind_run hread
  unfold checkFile
  rw [hpath, hof]
  exact if_neg (not_not.2 hhash.symm)

/-- **What `copy` has written passes `verify`**, where no file of the source that is not excluded
lies at the name of the manifest or in a folder of that name. Each file of the source that is not
excluded and whose stream ends without a failure was come to, and then either writing it failed or
it is listed in the manifest and its copy has the same contents. -/
theorem verify_copied (hstores : t.Stores)
    (hname : ∀ p, FileBelow source options.excludes [] p → p.head? ≠ some MANIFEST)
    (h : copy t sha256 source targetDir options texts stack started ended s = .ok (manifest, visits) s')
    (hjson : texts.parseJson
      (texts.utf8Decode (texts.utf8Encode (texts.renderIndented manifest.toJson))) =
        some manifest.toJson) : verify t sha256 texts s' targetDir = .ok [] ∧
      ∀ p chunks, FileBelow source options.excludes [] p → source.openRead p = .ok ⟨chunks, none⟩ →
        ∃ u, (p, u) ∈ visits ∧ ((∃ e u', store t (targetDir ++ p) chunks u = .error e u') ∨
          ∃ f ∈ manifest.files, f.path = text p ∧
          t.openRead s' (targetDir ++ p) = .ok chunks.flatten) := by
  obtain ⟨r, r', hr, hfiles, hvisited, hmanifest, hkeeps⟩ := copy_ok hstores h
  have hkept : ∀ p, FileBelow source options.excludes [] p →
      t.openRead s' (targetDir ++ p) = t.openRead r'.target (targetDir ++ p) := by
    intro p hp
    refine hkeeps p ?_
    have hne := hname p hp
    obtain ⟨n, rest, rfl⟩ := hp.exists_append
    have hne : n ≠ MANIFEST := by simpa using hne
    exact ((apart_of_ne hne []).append rest).symm
  constructor
  · obtain ⟨m', hm', hmfiles⟩ := readManifest_run hmanifest hjson
    obtain ⟨new, hnew, hall⟩ := hvisited.listed
    rw [hr, List.nil_append] at hnew
    refine (except_bind_run hm').trans (congrArg Except.ok (List.filterMap_eq_nil_iff.2 fun f hf => ?_))
    rw [hmfiles, hfiles, hnew] at hf
    obtain ⟨g, hg, rfl⟩ := List.mem_map.1 hf
    obtain ⟨p, hp, hcopied⟩ := hall g hg
    exact checkFile_copied (hp.proper (by simp [Proper])) (hcopied.of_openRead_eq (hkept p hp))
  · intro p chunks hp hopen
    obtain ⟨u, hu, hfail | ⟨f, hf, hcopied⟩⟩ := hvisited.copied p chunks hp hopen
    · exact ⟨u, hu, Or.inl hfail⟩
    · obtain ⟨chunks', hopen', hread, -⟩ := hcopied.contents
      rw [hopen] at hopen'
      cases hopen'
      exact ⟨u, hu, Or.inr ⟨f, hfiles ▸ hf, hcopied.path, (hkept p hp).trans hread⟩⟩

end Copy

/-! ### A source of one file -/

def oneFile (name : Name) (h : name ≠ [] ∧ '/' ∉ name) : SourceTree where
  description := "source"
  isDirectory := true
  list path := if path = [] then .ok [⟨name, false, 1, 0⟩] else .error ⟨.fileNotFound, ""⟩
  openRead path := if path = [name] then .ok ⟨[[1]], none⟩ else .error ⟨.fileNotFound, ""⟩
  names {path entries} hlist := by
    split at hlist <;> cases hlist
    simp
  proper {path entries} hlist e he := by
    split at hlist <;> cases hlist
    rw [List.mem_singleton.1 he]
    exact h

def plainHash (data : List UInt8) : List Char := data.map fun b => Char.ofNat b.toNat

def oneFileManifest (name : Name) : Manifest :=
  ⟨0, none, none, [], [], [], [⟨name, 1, 0, plainHash [1]⟩], 0, 1, [], 0, []⟩

/-- A library that reads every text as the manifest of the one file. -/
def oneFileTexts (name : Name) : Texts where
  utf8Encode s := s.map fun c => UInt8.ofNat c.toNat
  utf8Decode b := b.map fun x => Char.ofNat x.toNat
  parseJson _ := some (oneFileManifest name).toJson
  renderJson _ := ['{', '}']
  renderIndented _ := ['{', '}']
  coerceString _ := none
  coerceInt _ := none

def emptyDisk : Disk := fun p => if p = [] then .folder else .absent

def oneFileCopy (name : Name) (h : name ≠ [] ∧ '/' ∉ name) :
    EStateM.Result Thrown Disk (Manifest × List (Path × Disk)) :=
  copy localFileTree plainHash (oneFile name h) ["copy".toList] {} (oneFileTexts name) 9 0 0 emptyDisk

def Returned {ε σ α : Type} (x : EStateM.Result ε σ α) (P : α → σ → Prop) : Prop :=
  match x with
  | .ok a s => P a s
  | .error _ _ => False

instance {ε σ α : Type} (x : EStateM.Result ε σ α) (P : α → σ → Prop) [∀ a s, Decidable (P a s)] :
    Decidable (Returned x P) := by
  unfold Returned
  split <;> infer_instance

lemma Returned.exists {ε σ α : Type} {x : EStateM.Result ε σ α} {P : α → σ → Prop} (h : Returned x P) :
    ∃ a s, x = .ok a s ∧ P a s := by
  unfold Returned at h
  split at h
  · exact ⟨_, _, rfl, h⟩
  · exact h.elim

/-- **The manifest takes the place of a file of its name.** The file is copied and listed, nothing
fails, and then `verify` reports it and the copy has other contents than the source. -/
theorem manifest_overwrites :
    ∃ visits d, oneFileCopy MANIFEST (by decide) = .ok (oneFileManifest MANIFEST, visits) d ∧
    (oneFile MANIFEST (by decide)).openRead [MANIFEST] = .ok ⟨[[1]], none⟩ ∧
    verify localFileTree plainHash (oneFileTexts MANIFEST) d ["copy".toList] =
      .ok ["otgmaster-copy.json: content differs from the manifest".toList] ∧
    localFileTree.openRead d ["copy".toList, MANIFEST] = .ok [123, 125] := by
  have hrun : Returned (oneFileCopy MANIFEST (by decide)) fun a d => a.1 = oneFileManifest MANIFEST ∧
      verify localFileTree plainHash (oneFileTexts MANIFEST) d ["copy".toList] =
        .ok ["otgmaster-copy.json: content differs from the manifest".toList] ∧
      localFileTree.openRead d ["copy".toList, MANIFEST] = .ok [123, 125] := by decide +kernel
  obtain ⟨⟨m, visits⟩, d, hcopy, hm, hverify, hread⟩ := hrun.exists
  dsimp only at hm
  subst hm
  exact ⟨visits, d, hcopy, rfl, hverify, hread⟩

theorem verify_copied_note : ∃ visits d, oneFileCopy "note".toList (by decide) =
      .ok (oneFileManifest "note".toList, visits) d ∧
    verify localFileTree plainHash (oneFileTexts "note".toList) d ["copy".toList] = .ok [] := by
  have hrun : Returned (oneFileCopy "note".toList (by decide)) fun a _ => a.1 =
      oneFileManifest "note".toList := by
    decide +kernel
  obtain ⟨⟨m, visits⟩, d, hcopy, hm⟩ := hrun.exists
  dsimp only at hm
  subst hm
  have hname : ∀ p, FileBelow (oneFile "note".toList (by decide)) (fun _ => false) [] p →
      p.head? ≠ some MANIFEST := by
    intro p hp
    obtain ⟨entries, hlist, e, he, hthrough⟩ := fileBelow_iff.1 hp
    cases hlist
    rw [List.mem_singleton.1 he] at hthrough
    obtain ⟨rest, rfl⟩ := hthrough.isPrefix
    show some "note".toList ≠ some MANIFEST
    decide
  exact ⟨visits, d, hcopy, (verify_copied localFileTree_stores hname hcopy rfl).1⟩

end OtgMaster.Backup
