import Mathlib.Data.List.Infix

/-!
Document ids and the files they name: `parseDocId` and `getFileForDocId` of
`VeraCryptDocumentProvider`.

A document id is a drive, a colon and a path, and the same file has many ids, since empty parts of
a path are skipped. The provider itself only issues one of them, the canonical one (`docIdOf`). The
directory tree of the drive is the list of its directory entries in listing order; a file with
several names has several entries, a folder with something in it only one.
-/

namespace OtgMaster.Provider

abbrev Str := List Char

/-! ### Document ids -/

def isWhitespace (c : Char) : Bool :=
  let n := c.toNat
  (9 ≤ n && n ≤ 13) || (28 ≤ n && n ≤ 32) || n == 0xA0 || n == 0x1680 || (0x2000 ≤ n && n ≤ 0x200A) ||
    n == 0x2028 || n == 0x2029 || n == 0x202F || n == 0x205F || n == 0x3000

def isBlank (s : Str) : Bool := s.all isWhitespace

structure ParsedDocId where
  driveId : Str
  path : Str
  deriving DecidableEq

def parseDocId (docId : Str) : Option ParsedDocId :=
  -- `split(":", limit = 2)` leaves the colons after the first in the second part
  match docId.span (· ≠ ':') with
  | (_, []) => none
  | (driveId, _ :: rest) =>
    if isBlank driveId then none
    else
      let path := if isBlank rest then ['/'] else rest
      some ⟨driveId, if path.head? = some '/' then path else '/' :: path⟩

/-- The names along a path: its parts that are not empty. -/
def partsOf (path : Str) : List Str := (path.splitOn '/').filter (· ≠ [])

/-- The names on the path of a document of the drive `drive`. -/
def namesOf (drive docId : Str) : Option (List Str) :=
  match parseDocId docId with
  | some parsed => if parsed.driveId = drive then some (partsOf parsed.path) else none
  | none => none

def pathOf (ps : List Str) : Str := if ps = [] then ['/'] else ps.flatMap ('/' :: ·)

/-- The canonical id of the document with the names `ps` on its path. -/
def docIdOf (drive : Str) (ps : List Str) : Str := drive ++ ':' :: pathOf ps

def DriveOk (drive : Str) : Prop := ':' ∉ drive ∧ isBlank drive = false

def NameOk (p : Str) : Prop := p ≠ [] ∧ '/' ∉ p

section Canonical

variable {drive : Str} {ps qs : List Str}

lemma splitOn_names (p : Str) (ps : List Str) (hp : '/' ∉ p) (hps : ∀ q ∈ ps, '/' ∉ q) :
    (p ++ ps.flatMap ('/' :: ·)).splitOn '/' = p :: ps := by
  have noSlash : ∀ {q : Str}, '/' ∉ q → ∀ c ∈ q, (c == '/') = false := by
    intro q hq c hc
    simp only [beq_eq_false_iff_ne, ne_eq]
    rintro rfl
    exact hq hc
  induction ps generalizing p with
  | nil =>
    rw [List.flatMap_nil, List.append_nil]
    exact List.splitOnP_eq_singleton (noSlash hp)
  | cons q ps ih =>
    rw [List.flatMap_cons, List.cons_append]
    unfold List.splitOn
    rw [List.splitOnP_append_cons_of_forall_mem (noSlash hp) '/' (by simp)]
    congr 1
    exact ih q (hps q (List.mem_cons_self ..)) fun r hr => hps r (List.mem_cons_of_mem _ hr)

lemma partsOf_pathOf (hps : ∀ p ∈ ps, NameOk p) : partsOf (pathOf ps) = ps := by
  unfold partsOf pathOf
  split
  · rename_i h
    subst h
    decide
  · have h := splitOn_names [] ps (by simp) fun q hq => (hps q hq).2
    rw [List.nil_append] at h
    rw [h, List.filter_cons_of_neg (by simp), List.filter_eq_self]
    exact fun p hp => by simpa using (hps p hp).1

lemma pathOf_head (ps : List Str) : ∃ rest, pathOf ps = '/' :: rest := by
  unfold pathOf
  split
  · exact ⟨[], rfl⟩
  · cases ps with
    | nil => contradiction
    | cons p ps => exact ⟨_, rfl⟩

lemma namesOf_docIdOf (hd : DriveOk drive) (hps : ∀ p ∈ ps, NameOk p) :
    namesOf drive (docIdOf drive ps) = some ps := by
  have hpos : ∀ c ∈ drive, (decide (c ≠ ':')) = true := by
    intro c hc
    simp only [ne_eq, decide_not, Bool.not_eq_true', decide_eq_false_iff_not]
    rintro rfl
    exact hd.1 hc
  have hspan : (docIdOf drive ps).span (· ≠ ':') = (drive, ':' :: pathOf ps) := by
    rw [List.span_eq_takeWhile_dropWhile, docIdOf, List.takeWhile_append_of_pos hpos,
      List.dropWhile_append_of_pos hpos]
    simp
  obtain ⟨rest, hrest⟩ := pathOf_head ps
  have hblank : isBlank (pathOf ps) = false := by rw [hrest]; rfl
  rw [namesOf, parseDocId, hspan]
  simp only [hd.2, hblank, if_false, Bool.false_eq_true]
  rw [if_pos trivial, if_pos (by rw [hrest]; rfl), partsOf_pathOf hps]

/-- The string test of `writerInside` sees every document below another one. -/
lemma docIdOf_below (drive : Str) (hps : ps ≠ []) (h : ps <+: qs) :
    docIdOf drive qs = docIdOf drive ps ∨ (docIdOf drive ps ++ ['/']) <+: docIdOf drive qs := by
  obtain ⟨rest, rfl⟩ := h
  cases rest with
  | nil => left; rw [List.append_nil]
  | cons r rest =>
    right
    have hne : ps ++ r :: rest ≠ [] := by simp
    rw [docIdOf, docIdOf, pathOf, pathOf, if_neg hps, if_neg hne]
    exact ⟨r ++ rest.flatMap ('/' :: ·), by simp⟩

end Canonical

/-! ### The tree -/

structure Entry where
  parent : ℕ
  name : Str
  node : ℕ
  deriving DecidableEq

abbrev File := Option Entry

def rootNode : ℕ := 0

def nodeOf : File → ℕ
  | none => rootNode
  | some e => e.node

def child (es : List Entry) (dir : ℕ) (name : Str) : Option Entry :=
  es.find? fun e => e.parent = dir ∧ e.name = name

def walk (es : List Entry) : File → List Str → Option File
  | cur, [] => some cur
  | cur, part :: parts =>
    match child es (nodeOf cur) part with
    | some e => walk es (some e) parts
    | none => none

def getFileForDocId (drive : Str) (es : List Entry) (docId : Str) : Option File :=
  match namesOf drive docId with
  | some parts => walk es none parts
  | none => none

/-- `Path es ps f`: the file `f` has the names `ps` on its path. -/
inductive Path (es : List Entry) : List Str → File → Prop
  | root : Path es [] none
  | step {ps : List Str} {f : File} {e : Entry} (h : Path es ps f) (he : e ∈ es)
      (hp : e.parent = nodeOf f) : Path es (ps ++ [e.name]) (some e)

/-- `Under es x e`: the entry `e` lies in the folder `x`, or below it. -/
inductive Under (es : List Entry) (x : ℕ) : Entry → Prop
  | inside {e : Entry} (he : e ∈ es) (hp : e.parent = x) : Under es x e
  | deeper {e f : Entry} (he : e ∈ es) (hf : f ∈ es) (h : Under es x f) (hp : e.parent = f.node) :
      Under es x e

/-- The same, as a test that climbs at most `fuel` folders. -/
def under (es : List Entry) (x : ℕ) : ℕ → Entry → Bool
  | 0, e => e.parent = x
  | fuel + 1, e => e.parent = x || es.any fun f => f.node = e.parent && under es x fuel f

/-- The entries form a tree below the root, in which a file may have several names. -/
structure TreeOk (es : List Entry) : Prop where
  /-- No entry leads back to the root. -/
  root : ∀ e ∈ es, e.node ≠ rootNode
  /-- A folder with something in it has one entry. -/
  folder : ∀ e ∈ es, ∀ f ∈ es, ∀ g ∈ es, e.node = f.node → g.parent = e.node → e = f

section Tree

variable {es es' : List Entry} {ps qs : List Str} {f : File} {e x : Entry}

lemma child_mem {dir : ℕ} {name : Str} (h : child es dir name = some e) :
    e ∈ es ∧ e.parent = dir ∧ e.name = name := by
  have hp := List.find?_some h
  simp only [decide_eq_true_eq] at hp
  exact ⟨List.mem_of_find?_eq_some h, hp⟩

lemma walk_path : ∀ (qs ps : List Str) (cur : File), Path es ps cur → walk es cur qs = some f →
    Path es (ps ++ qs) f := by
  intro qs
  induction qs with
  | nil =>
    intro ps cur h hw
    cases hw
    rwa [List.append_nil]
  | cons q qs ih =>
    intro ps cur h hw
    rw [walk] at hw
    cases hc : child es (nodeOf cur) q with
    | none => rw [hc] at hw; cases hw
    | some e =>
      rw [hc] at hw
      obtain ⟨he, hp, rfl⟩ := child_mem hc
      have := ih (ps ++ [e.name]) (some e) (.step h he hp) hw
      rwa [List.append_assoc] at this

lemma Path.mem (h : Path es ps (some e)) : e ∈ es := by
  cases h with
  | step h he hp => exact he

lemma Path.ne_nil (h : Path es ps (some e)) : ps ≠ [] := by
  intro hps
  generalize hf : some e = f at h
  cases h with
  | root => cases hf
  | step => simp at hps

lemma Path.unique (ht : TreeOk es) (h : Path es ps (some e)) (h' : Path es qs (some e)) : ps = qs := by
  have key : ∀ {ps f}, Path es ps f → ∀ {qs f'}, Path es qs f' → nodeOf f = nodeOf f' →
      (∃ g ∈ es, g.parent = nodeOf f) → ps = qs := by
    intro ps f h
    induction h with
    | root =>
      intro qs f' h' hn _
      cases h' with
      | root => rfl
      | step h' he' hp' => exact absurd hn.symm (ht.root _ he')
    | @step ps f e h he hp ih =>
      intro qs f' h' hn hg
      cases h' with
      | root => exact absurd hn (ht.root _ he)
      | @step qs f' e' h' he' hp' =>
        obtain ⟨g, hg, hgp⟩ := hg
        obtain rfl : e = e' := ht.folder e he e' he' g hg hn hgp
        rw [ih h' (hp.symm.trans hp') ⟨e, he, hp⟩]
  cases h with
  | step h he hp =>
    cases h' with
    | step h' he' hp' => rw [key h h' (hp.symm.trans hp') ⟨e, he, hp⟩]

lemma Path.parent (ht : TreeOk es) {y : Entry} (h : Path es ps f) (he : e ∈ es) (hy : y ∈ es)
    (hf : e.parent = nodeOf f) (hey : e.parent = y.node) : f = some y := by
  cases h with
  | root => exact absurd (hey.symm.trans hf) (ht.root y hy)
  | @step _ _ y' _ hy' _ => rw [ht.folder y hy y' hy' e he (hey.symm.trans hf) hey]

lemma Path.prefix_of_under (ht : TreeOk es) (hx : Path es qs (some x)) (hu : Under es x.node e) :
    ∀ {ps}, Path es ps (some e) → qs <+: ps := by
  induction hu with
  | inside he hp =>
    intro ps h
    cases h with
    | step h he' hp' =>
      obtain rfl := h.parent ht he hx.mem hp' hp
      rw [h.unique ht hx]
      exact List.prefix_append ..
  | deeper he hf hu hp ih =>
    intro ps h
    cases h with
    | step h he' hp' =>
      obtain rfl := h.parent ht he hf hp' hp
      exact (ih h).trans (List.prefix_append ..)

lemma under_sound {y : ℕ} :
    ∀ (fuel : ℕ) {e : Entry}, e ∈ es → under es y fuel e = true → Under es y e := by
  intro fuel
  induction fuel with
  | zero => intro e he h; exact .inside he (by simpa [under] using h)
  | succ fuel ih =>
    intro e he h
    simp only [under, Bool.or_eq_true, decide_eq_true_eq, List.any_eq_true, Bool.and_eq_true] at h
    rcases h with h | ⟨f, hf, hn, hu⟩
    · exact .inside he h
    · exact .deeper he hf (ih hf hu) hn.symm

lemma Path.keep (h : Path es ps f)
    (hkeep : ∀ qs e, qs <+: ps → Path es qs (some e) → e ∈ es') : Path es' ps f := by
  induction h with
  | root => exact .root
  | @step ps f e h he hp ih =>
    refine .step (ih fun qs e' hqs hp' => hkeep qs e' (hqs.trans (List.prefix_append ..)) hp') ?_ hp
    exact hkeep _ e (List.prefix_rfl) (.step h he hp)

lemma TreeOk.subset (ht : TreeOk es) (h : ∀ e ∈ es', e ∈ es) : TreeOk es' :=
  ⟨fun e he => ht.root e (h e he),
    fun e he f hf g hg => ht.folder e (h e he) f (h f hf) g (h g hg)⟩

end Tree

end OtgMaster.Provider
