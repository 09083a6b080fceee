import OtgMaster.Provider.Documents
import OtgMaster.Lib.Run

/-!
Deleting documents that are open for writing: `openDocument`, the callbacks of the file it opens,
`renameDocument` and `deleteDocument` of `VeraCryptDocumentProvider`, one step for each section
that holds the drive's lock or the lock of `openWriters`.

An open looks the document up, truncates it if asked to, and only then counts as a writer; the
lookup and the truncation hold no lock. A delete waits until it sees no writer at or below its
document id and then deletes in a section of its own. The writers are counted by document id, so
the guard holds as long as the id of an open file keeps leading to it, and as long as no open is
between its lookup and its count while a delete is between its check and its deletion
(`Careful`).
-/

namespace OtgMaster.Provider

open Lib

/-! ### States -/

inductive Stage where
  /-- Looked up, not yet counted as a writer; the flag is set until the truncation is done. -/
  | looked (truncate : Bool)
  | writing
  /-- Closed by `onRelease`, still counted as a writer. -/
  | closing
  | gone
  deriving DecidableEq

/-- Whether `openWriters` counts the handle. -/
def Stage.counted : Stage → Bool
  | .writing | .closing => true
  | .looked _ | .gone => false

structure Handle where
  docId : Str
  node : ℕ
  stage : Stage
  deriving DecidableEq

inductive DeleteStage where
  | waiting
  /-- `awaitWriters` has returned, with this result. -/
  | settled (ok : Bool)
  | done
  deriving DecidableEq

structure Deletion where
  docId : Str
  stage : DeleteStage
  deriving DecidableEq

/-- The drive and the provider. `openWriters` holds each document once for every handle that has it
open for writing. -/
structure World where
  entries : List Entry
  openWriters : List Str
  handles : List Handle
  deletes : List Deletion

def writerOpened (docId : Str) (w : World) : World :=
  { w with openWriters := docId :: w.openWriters }

def writerClosed (docId : Str) (w : World) : World :=
  { w with openWriters := w.openWriters.erase docId }

def writerInside (docId : Str) (w : World) : Bool :=
  w.openWriters.any fun key => key = docId || (docId ++ ['/']).isPrefixOf key

/-! ### Steps -/

inductive Action where
  /-- `openDocument` finds the file. -/
  | lookup (docId : Str) (truncate : Bool)
  | truncate (h : ℕ)
  /-- `openDocument` fails before it counts the writer. -/
  | abandon (h : ℕ)
  | opened (h : ℕ)
  /-- `openProxyFileDescriptor` throws. -/
  | openFailed (h : ℕ)
  | onWrite (h : ℕ)
  /-- The first section of `onRelease`: `file.close()`. -/
  | close (h : ℕ)
  /-- The second section of `onRelease`: `writerClosed`. -/
  | released (h : ℕ)
  /-- `renameDocument`; `listing` is the tree as the filesystem lists it afterwards. -/
  | rename (docId name : Str) (listing : List Entry)
  | deleteCalled (docId : Str)
  /-- One turn of the loop in `awaitWriters`. -/
  | check (d : ℕ)
  /-- `awaitWriters` runs out of time. -/
  | giveUp (d : ℕ)
  /-- The section of `deleteDocument` under the drive's lock; `left` is what the filesystem has not
  deleted. -/
  | delete (d : ℕ) (left : List Entry)

/-- Move handle `h` on to the stage that `next` gives for its present one. -/
def moveHandle (w : World) (h : ℕ) (next : Stage → Option Stage) : Option (World × Handle) :=
  match w.handles[h]? with
  | some hd =>
    match next hd.stage with
    | some stage => some ({ w with handles := w.handles.set h { hd with stage := stage } }, hd)
    | none => none
  | none => none

def renameEntry (e : Entry) (name : Str) (x : Entry) : Entry :=
  if x = e then { x with name := name } else x

/-- The filesystem deletes nothing but the file `e` and what is below it. -/
def deletesOnly (es : List Entry) (e : Entry) (left : List Entry) : Bool :=
  left.isSublist es && es.all fun x => left.contains x || x = e || under es e.node es.length x

def step (drive : Str) (w : World) : Action → Option World
  | .lookup docId truncate =>
    match getFileForDocId drive w.entries docId with
    | some file => some { w with handles := w.handles ++ [⟨docId, nodeOf file, .looked truncate⟩] }
    | none => none
  | .truncate h =>
    (moveHandle w h fun st => if st = .looked true then some (.looked false) else none).map (·.1)
  | .abandon h =>
    (moveHandle w h fun st => match st with | .looked _ => some .gone | _ => none).map (·.1)
  | .opened h =>
    (moveHandle w h fun st => if st = .looked false then some .writing else none).map fun r =>
      writerOpened r.2.docId r.1
  | .openFailed h =>
    (moveHandle w h fun st => if st = .writing then some .gone else none).map fun r =>
      writerClosed r.2.docId r.1
  | .onWrite h =>
    (moveHandle w h fun st => if st = .writing then some .writing else none).map (·.1)
  | .close h =>
    (moveHandle w h fun st => if st = .writing then some .closing else none).map (·.1)
  | .released h =>
    (moveHandle w h fun st => if st = .closing then some .gone else none).map fun r =>
      writerClosed r.2.docId r.1
  | .rename docId name listing =>
    match getFileForDocId drive w.entries docId with
    | some (some e) =>
      if listing.isPerm (w.entries.map (renameEntry e name)) then some { w with entries := listing }
      else none
    | _ => none
  | .deleteCalled docId => some { w with deletes := w.deletes ++ [⟨docId, .waiting⟩] }
  | .check d =>
    match w.deletes[d]? with
    | some ⟨docId, .waiting⟩ =>
      if writerInside docId w then some w
      else some { w with deletes := w.deletes.set d ⟨docId, .settled true⟩ }
    | _ => none
  | .giveUp d =>
    match w.deletes[d]? with
    | some ⟨docId, .waiting⟩ =>
      if writerInside docId w then some { w with deletes := w.deletes.set d ⟨docId, .settled false⟩ }
      else none
    | _ => none
  | .delete d left =>
    match w.deletes[d]? with
    | some ⟨docId, .settled true⟩ =>
      match getFileForDocId drive w.entries docId with
      | some (some e) =>
        if deletesOnly w.entries e left then
          some { w with entries := left, deletes := w.deletes.set d ⟨docId, .done⟩ }
        else none
      -- not found, or the root, which is not deleted
      | _ => some { w with deletes := w.deletes.set d ⟨docId, .done⟩ }
    | some ⟨docId, .settled false⟩ => some { w with deletes := w.deletes.set d ⟨docId, .done⟩ }
    | _ => none

/-- The file that a step writes to through a handle. -/
def Action.touches (w : World) : Action → Option ℕ
  | .truncate h | .onWrite h | .close h => (w.handles[h]?).map (·.node)
  | _ => none

def Linked (w : World) (node : ℕ) : Prop := node = rootNode ∨ ∃ e ∈ w.entries, e.node = node

instance (w : World) (node : ℕ) : Decidable (Linked w node) :=
  inferInstanceAs (Decidable (_ ∨ _))

/-! ### Careful steps -/

/-- `docId` is an id as the provider issues it. -/
def Canonical (drive docId : Str) : Prop := ∃ ps, (∀ p ∈ ps, NameOk p) ∧ docId = docIdOf drive ps

/-- Document `a`, which is not the root, is document `b` or a folder above it. -/
def AtOrAbove (drive a b : Str) : Prop :=
  ∃ ps qs, namesOf drive a = some ps ∧ namesOf drive b = some qs ∧ ps ≠ [] ∧ ps <+: qs

/-- What keeps the guard of `deleteDocument` sound: canonical ids, no rename at or above a document
that is open for writing or being opened, and no open between its lookup and its count while a
delete at or above it is between its check and its deletion. -/
def Careful (drive : Str) (w : World) : Action → Prop
  | .lookup docId _ => Canonical drive docId ∧
      ∀ dl ∈ w.deletes, dl.stage = .settled true → ¬AtOrAbove drive dl.docId docId
  | .rename docId _ _ => ∀ h ∈ w.handles, h.stage ≠ .gone → ¬AtOrAbove drive docId h.docId
  | .deleteCalled docId => Canonical drive docId
  | .check d => ∀ dl, w.deletes[d]? = some dl → writerInside dl.docId w = false →
      ∀ h ∈ w.handles, (∃ t, h.stage = .looked t) → ¬AtOrAbove drive dl.docId h.docId
  | _ => True

/-- What holds throughout a run of careful steps. -/
structure Inv (drive : Str) (w : World) : Prop where
  tree : TreeOk w.entries
  /-- The id of an open file leads to it. -/
  path : ∀ h ∈ w.handles, h.stage ≠ .gone → ∃ ps f, (∀ p ∈ ps, NameOk p) ∧
    h.docId = docIdOf drive ps ∧ Path w.entries ps f ∧ nodeOf f = h.node
  /-- The writers are counted. -/
  count : ∀ docId, w.openWriters.count docId =
    w.handles.countP fun h => h.stage.counted && h.docId = docId
  ids : ∀ dl ∈ w.deletes, Canonical drive dl.docId
  /-- Nothing is open below a document that is about to be deleted. -/
  settled : ∀ dl ∈ w.deletes, dl.stage = .settled true → ∀ h ∈ w.handles, h.stage ≠ .gone →
    ¬AtOrAbove drive dl.docId h.docId

/-! ### One step keeps the invariant -/

section Steps

variable {drive : Str} {w w' : World} {a : Action}

variable {h : ℕ} {hd : Handle} {stage : Stage} {docId : Str} {es : List Entry} {e : Entry} {d : ℕ}

lemma moveHandle_ok {next : Stage → Option Stage} {r : World × Handle}
    (hr : moveHandle w h next = some r) :
    ∃ stage, w.handles[h]? = some r.2 ∧ next r.2.stage = some stage ∧
      r.1 = { w with handles := w.handles.set h { r.2 with stage := stage } } := by
  unfold moveHandle at hr
  split at hr
  · rename_i hd hget
    split at hr
    · rename_i stage hnext
      cases hr
      exact ⟨stage, hget, hnext, rfl⟩
    · cases hr
  · cases hr

lemma Inv.move (hi : Inv drive w) (hget : w.handles[h]? = some hd)
    (hlive : stage ≠ .gone → hd.stage ≠ .gone) (ws : List Str)
    (hcount : ∀ docId, ws.count docId = (w.handles.set h { hd with stage := stage }).countP
      fun x => x.stage.counted && x.docId = docId) :
    Inv drive { w with handles := w.handles.set h { hd with stage := stage }, openWriters := ws } := by
  have hmem : ∀ x ∈ w.handles.set h { hd with stage := stage }, x.stage ≠ .gone →
      ∃ y ∈ w.handles, y.stage ≠ .gone ∧ y.docId = x.docId ∧ y.node = x.node := by
    intro x hx hxl
    rcases List.mem_or_eq_of_mem_set hx with hx | rfl
    · exact ⟨x, hx, hxl, rfl, rfl⟩
    · exact ⟨hd, List.mem_of_getElem? hget, hlive hxl, rfl, rfl⟩
  refine ⟨hi.tree, fun x hx hxl => ?_, hcount, hi.ids, fun dl hdl hs x hx hxl => ?_⟩
  · obtain ⟨y, hy, hyl, hdoc, hnode⟩ := hmem x hx hxl
    rw [← hdoc, ← hnode]
    exact hi.path y hy hyl
  · obtain ⟨y, hy, hyl, hdoc, -⟩ := hmem x hx hxl
    rw [← hdoc]
    exact hi.settled dl hdl hs y hy hyl

lemma countP_move (hget : w.handles[h]? = some hd) (stage : Stage) (docId : Str) :
    ((w.handles.set h { hd with stage := stage }).countP fun x => x.stage.counted && x.docId = docId) +
        (if hd.stage.counted && hd.docId = docId then 1 else 0) =
      (w.handles.countP fun x => x.stage.counted && x.docId = docId) +
        (if stage.counted && hd.docId = docId then 1 else 0) := by
  obtain ⟨hlt, rfl⟩ := List.getElem?_eq_some_iff.1 hget
  rw [List.countP_set hlt]
  by_cases hc : (w.handles[h].stage.counted && decide (w.handles[h].docId = docId)) = true
  · have hpos : 0 < w.handles.countP fun x => x.stage.counted && x.docId = docId :=
      List.countP_pos_iff.2 ⟨_, List.getElem_mem hlt, hc⟩
    simp only [hc, if_true]
    omega
  · rw [Bool.not_eq_true] at hc
    simp only [hc, Bool.false_eq_true, if_false]
    omega

lemma Inv.move_same (hi : Inv drive w)
    (hget : w.handles[h]? = some hd) (hlive : stage ≠ .gone → hd.stage ≠ .gone)
    (hsame : stage.counted = hd.stage.counted) :
    Inv drive { w with handles := w.handles.set h { hd with stage := stage } } := by
  refine hi.move hget hlive w.openWriters fun docId => ?_
  have := countP_move hget stage docId
  rw [hsame] at this
  rw [hi.count]
  omega

lemma Inv.move_opened (hi : Inv drive w)
    (hget : w.handles[h]? = some hd) (hlive : hd.stage ≠ .gone) (hold : hd.stage.counted = false)
    (hnew : stage.counted = true) :
    Inv drive { w with
      handles := w.handles.set h { hd with stage := stage },
      openWriters := hd.docId :: w.openWriters } := by
  refine hi.move hget (fun _ => hlive) _ fun docId => ?_
  have := countP_move hget stage docId
  simp only [hold, hnew, Bool.false_and, Bool.true_and, Bool.false_eq_true, if_false,
    decide_eq_true_eq] at this
  rw [List.count_cons, hi.count]
  simp only [beq_iff_eq]
  omega

lemma Inv.move_closed (hi : Inv drive w) (hget : w.handles[h]? = some hd)
    (hold : hd.stage.counted = true) :
    Inv drive { w with
      handles := w.handles.set h { hd with stage := .gone }
      openWriters := w.openWriters.erase hd.docId } := by
  refine hi.move hget (fun hne => absurd rfl hne) _ fun docId => ?_
  have hgone : Stage.gone.counted = false := rfl
  have := countP_move hget .gone docId
  simp only [hold, hgone, Bool.false_and, Bool.true_and, Bool.false_eq_true, if_false,
    decide_eq_true_eq] at this
  rw [List.count_erase, hi.count]
  simp only [beq_iff_eq]
  omega

lemma getFileForDocId_path {f : File} (h : getFileForDocId drive w.entries docId = some f) :
    ∃ ps, namesOf drive docId = some ps ∧ Path w.entries ps f := by
  unfold getFileForDocId at h
  split at h
  · rename_i ps hps
    exact ⟨ps, hps, by simpa using walk_path ps [] none .root h⟩
  · cases h

lemma Inv.change_tree {dls : List Deletion} (hi : Inv drive w) (ht : TreeOk es)
    (hkeep : ∀ h ∈ w.handles, h.stage ≠ .gone → ∀ ps qs e, namesOf drive h.docId = some ps → qs <+: ps →
      Path w.entries qs (some e) → e ∈ es) (hd : DriveOk drive)
    (hdls : ∀ dl ∈ dls, ∃ dl' ∈ w.deletes, dl'.docId = dl.docId ∧
      (dl.stage = .settled true → dl'.stage = .settled true)) :
    Inv drive { w with entries := es, deletes := dls } := by
  refine ⟨ht, fun h hh hl => ?_, hi.count, fun dl hdl => ?_, fun dl hdl hs => ?_⟩
  · obtain ⟨ps, f, hps, hdoc, hp, hn⟩ := hi.path h hh hl
    have hnames : namesOf drive h.docId = some ps := by rw [hdoc, namesOf_docIdOf hd hps]
    exact ⟨ps, f, hps, hdoc, hp.keep fun qs e hqs he => hkeep h hh hl ps qs e hnames hqs he, hn⟩
  · obtain ⟨dl', hdl', hdoc, -⟩ := hdls dl hdl
    rw [← hdoc]
    exact hi.ids dl' hdl'
  · obtain ⟨dl', hdl', hdoc, hst⟩ := hdls dl hdl
    rw [← hdoc]
    exact hi.settled dl' hdl' (hst hs)

lemma TreeOk.rename {listing : List Entry} {name : Str} (ht : TreeOk es)
    (hl : listing.Perm (es.map (renameEntry e name))) : TreeOk listing := by
  have hnode : ∀ x, (renameEntry e name x).node = x.node ∧ (renameEntry e name x).parent = x.parent := by
    intro x
    unfold renameEntry
    split <;> exact ⟨rfl, rfl⟩
  have hback : ∀ x ∈ listing, ∃ y ∈ es, renameEntry e name y = x := fun x hx =>
    List.mem_map.1 (hl.mem_iff.1 hx)
  refine ⟨fun x hx => ?_, fun x hx y hy g hg hxy hgx => ?_⟩
  · obtain ⟨x', hx', rfl⟩ := hback x hx
    rw [(hnode x').1]
    exact ht.root x' hx'
  · obtain ⟨x', hx', rfl⟩ := hback x hx
    obtain ⟨y', hy', rfl⟩ := hback y hy
    obtain ⟨g', hg', rfl⟩ := hback g hg
    rw [(hnode x').1, (hnode y').1] at hxy
    rw [(hnode g').2, (hnode x').1] at hgx
    rw [ht.folder x' hx' y' hy' g' hg' hxy hgx]

lemma deletesOnly_spec {left : List Entry} (h : deletesOnly es e left = true) :
    (∀ x ∈ left, x ∈ es) ∧ ∀ x ∈ es, x ∉ left → x = e ∨ Under es e.node x := by
  simp only [deletesOnly, Bool.and_eq_true, List.all_eq_true, Bool.or_eq_true, List.contains_iff_mem,
    decide_eq_true_eq] at h
  refine ⟨fun x hx => (List.isSublist_iff_sublist.1 h.1).subset hx, fun x hx hnot => ?_⟩
  rcases h.2 x hx with (hx' | hx') | hx'
  · exact absurd hx' hnot
  · exact Or.inl hx'
  · exact Or.inr (under_sound _ hx hx')

lemma Inv.writer_seen {h : Handle} (hi : Inv drive w) (hd : DriveOk drive)
    (hdoc : Canonical drive docId) (hh : h ∈ w.handles) (hc : h.stage.counted = true)
    (habove : AtOrAbove drive docId h.docId) : writerInside docId w = true := by
  obtain ⟨ds, hds, rfl⟩ := hdoc
  have hlive : h.stage ≠ .gone := by
    intro hg
    rw [hg] at hc
    cases hc
  obtain ⟨ps, f, hps, hhdoc, -, -⟩ := hi.path h hh hlive
  obtain ⟨ds', ps', hds', hps', hne, hpre⟩ := habove
  rw [namesOf_docIdOf hd hds] at hds'
  rw [hhdoc, namesOf_docIdOf hd hps] at hps'
  cases hds'
  cases hps'
  have hkey : h.docId ∈ w.openWriters := by
    rw [← List.count_pos_iff, hi.count, List.countP_pos_iff]
    exact ⟨h, hh, by simp [hc]⟩
  rw [writerInside, List.any_eq_true]
  refine ⟨h.docId, hkey, ?_⟩
  rw [hhdoc]
  rcases docIdOf_below drive hne hpre with heq | hbelow
  · simp [heq]
  · simp [List.isPrefixOf_iff_prefix.2 hbelow]

lemma Inv.lookup {t : Bool} {f : File} (hi : Inv drive w) (hd : DriveOk drive)
    (hc : Careful drive w (.lookup docId t)) (hf : getFileForDocId drive w.entries docId = some f) :
    Inv drive { w with handles := w.handles ++ [⟨docId, nodeOf f, .looked t⟩] } := by
  obtain ⟨⟨ps, hps, hdoc⟩, hsettled⟩ := hc
  obtain ⟨ps', hnames, hpath⟩ := getFileForDocId_path hf
  rw [hdoc, namesOf_docIdOf hd hps] at hnames
  cases hnames
  refine ⟨hi.tree, fun h hh hl => ?_, fun d => ?_, hi.ids, fun dl hdl hs h hh hl => ?_⟩
  · rcases List.mem_append.1 hh with hh | hh
    · exact hi.path h hh hl
    · obtain rfl := List.mem_singleton.1 hh
      exact ⟨ps, f, hps, hdoc, hpath, rfl⟩
  · rw [List.countP_append, ← hi.count]
    rfl
  · rcases List.mem_append.1 hh with hh | hh
    · exact hi.settled dl hdl hs h hh hl
    · obtain rfl := List.mem_singleton.1 hh
      exact hsettled dl hdl hs

lemma Inv.rename {name : Str} {listing : List Entry} (hi : Inv drive w)
    (hd : DriveOk drive) (hc : Careful drive w (.rename docId name listing))
    (hf : getFileForDocId drive w.entries docId = some (some e))
    (hl : listing.Perm (w.entries.map (renameEntry e name))) :
    Inv drive { w with entries := listing } := by
  obtain ⟨qs, hqs, hpath⟩ := getFileForDocId_path hf
  refine hi.change_tree (hi.tree.rename hl) (fun h hh hlive ps rs x hps hrs hx => ?_) hd
    fun dl hdl => ⟨dl, hdl, rfl, id⟩
  have hne : x ≠ e := by
    rintro rfl
    exact hc h hh hlive ⟨qs, ps, hqs, hps, hpath.ne_nil, hpath.unique hi.tree hx ▸ hrs⟩
  rw [hl.mem_iff, List.mem_map]
  exact ⟨x, hx.mem, if_neg hne⟩

lemma Inv.settle (hi : Inv drive w) (hd : DriveOk drive)
    (hc : Careful drive w (.check d)) (hget : w.deletes[d]? = some ⟨docId, .waiting⟩)
    (hclean : writerInside docId w = false) :
    Inv drive { w with deletes := w.deletes.set d ⟨docId, .settled true⟩ } := by
  have hcan : Canonical drive docId := hi.ids _ (List.mem_of_getElem? hget)
  refine ⟨hi.tree, hi.path, hi.count, fun dl hdl => ?_, fun dl hdl hs h hh hl => ?_⟩
  · rcases List.mem_or_eq_of_mem_set hdl with hdl | rfl
    · exact hi.ids dl hdl
    · exact hcan
  · rcases List.mem_or_eq_of_mem_set hdl with hdl | rfl
    · exact hi.settled dl hdl hs h hh hl
    · intro habove
      cases hst : h.stage with
      | looked t => exact hc _ hget hclean h hh ⟨t, hst⟩ habove
      | gone => exact hl hst
      | writing | closing =>
        have := hi.writer_seen hd hcan hh (by rw [hst]; rfl) habove
        rw [hclean] at this
        cases this

lemma Inv.delete {left : List Entry} (hi : Inv drive w)
    (hd : DriveOk drive) (hget : w.deletes[d]? = some ⟨docId, .settled true⟩)
    (hf : getFileForDocId drive w.entries docId = some (some e))
    (hleft : deletesOnly w.entries e left = true) :
    Inv drive { w with entries := left, deletes := w.deletes.set d ⟨docId, .done⟩ } := by
  obtain ⟨qs, hqs, hpath⟩ := getFileForDocId_path hf
  obtain ⟨hsub, honly⟩ := deletesOnly_spec hleft
  have hmem : (⟨docId, .settled true⟩ : Deletion) ∈ w.deletes := List.mem_of_getElem? hget
  refine hi.change_tree (hi.tree.subset hsub) (fun h hh hlive ps rs x hps hrs hx => ?_) hd
    fun dl hdl => ?_
  · by_contra hnot
    have hpre : qs <+: rs := by
      rcases honly x hx.mem hnot with rfl | hu
      · rw [hpath.unique hi.tree hx]
      · exact hpath.prefix_of_under hi.tree hu hx
    exact hi.settled _ hmem rfl h hh hlive ⟨qs, ps, hqs, hps, hpath.ne_nil, hpre.trans hrs⟩
  · rcases List.mem_or_eq_of_mem_set hdl with hdl | rfl
    · exact ⟨dl, hdl, rfl, id⟩
    · exact ⟨_, hmem, rfl, fun _ => rfl⟩

lemma Inv.delete_moves {st st' : DeleteStage} (hi : Inv drive w)
    (hget : w.deletes[d]? = some ⟨docId, st⟩) (hst : st' ≠ .settled true) :
    Inv drive { w with deletes := w.deletes.set d ⟨docId, st'⟩ } := by
  refine ⟨hi.tree, hi.path, hi.count, fun dl hdl => ?_, fun dl hdl hs => ?_⟩
  · rcases List.mem_or_eq_of_mem_set hdl with hdl | rfl
    · exact hi.ids dl hdl
    · have := hi.ids _ (List.mem_of_getElem? hget)
      exact this
  · rcases List.mem_or_eq_of_mem_set hdl with hdl | rfl
    · exact hi.settled dl hdl hs
    · exact absurd hs hst

/-- **One careful step keeps the invariant.** -/
theorem Inv.step_keeps (hi : Inv drive w) (hd : DriveOk drive) (hc : Careful drive w a)
    (hs : step drive w a = some w') : Inv drive w' := by
  cases a with
  | lookup docId t =>
    simp only [step] at hs
    split at hs
    · rename_i f hf
      cases hs
      exact hi.lookup hd hc hf
    · cases hs
  | truncate h | abandon h | onWrite h | close h =>
    obtain ⟨r, hr, rfl⟩ := Option.map_eq_some_iff.1 hs
    obtain ⟨stage, hget, hnext, hw⟩ := moveHandle_ok hr
    rw [hw]
    refine hi.move_same hget ?_ ?_ <;> grind [Stage.counted]
  | opened h =>
    obtain ⟨r, hr, rfl⟩ := Option.map_eq_some_iff.1 hs
    obtain ⟨stage, hget, hnext, hw⟩ := moveHandle_ok hr
    rw [hw]
    refine hi.move_opened hget ?_ ?_ ?_ <;> grind [Stage.counted]
  | openFailed h | released h =>
    obtain ⟨r, hr, rfl⟩ := Option.map_eq_some_iff.1 hs
    obtain ⟨stage, hget, hnext, hw⟩ := moveHandle_ok hr
    obtain ⟨hold, rfl⟩ : r.2.stage.counted = true ∧ stage = .gone := by grind [Stage.counted]
    rw [hw]
    exact hi.move_closed hget hold
  | rename docId name listing =>
    simp only [step] at hs
    split at hs
    · rename_i e hf
      split at hs
      · rename_i hl
        cases hs
        exact hi.rename hd hc hf (List.isPerm_iff.1 hl)
      · cases hs
    · cases hs
  | deleteCalled docId =>
    cases hs
    refine ⟨hi.tree, hi.path, hi.count, fun dl hdl => ?_, fun dl hdl hst => ?_⟩
    · rcases List.mem_append.1 hdl with hdl | hdl
      · exact hi.ids dl hdl
      · obtain rfl := List.mem_singleton.1 hdl
        exact hc
    · rcases List.mem_append.1 hdl with hdl | hdl
      · exact hi.settled dl hdl hst
      · obtain rfl := List.mem_singleton.1 hdl
        cases hst
  | check d =>
    simp only [step] at hs
    split at hs
    · rename_i docId hget
      split at hs
      · cases hs
        exact hi
      · rename_i hclean
        cases hs
        exact hi.settle hd hc hget (Bool.not_eq_true _ ▸ hclean)
    · cases hs
  | giveUp d =>
    simp only [step] at hs
    split at hs
    · rename_i docId hget
      split at hs
      · cases hs
        exact hi.delete_moves hget (by simp)
      · cases hs
    · cases hs
  | delete d left =>
    simp only [step] at hs
    split at hs
    · rename_i docId hget
      split at hs
      · rename_i e hf
        split at hs
        · rename_i hleft
          cases hs
          exact hi.delete hd hget hf hleft
        · cases hs
      · cases hs
        exact hi.delete_moves hget (by simp)
    · rename_i docId hget
      cases hs
      exact hi.delete_moves hget (by simp)
    · cases hs

lemma Inv.linked {h : Handle} (hi : Inv drive w) (hh : h ∈ w.handles) (hl : h.stage ≠ .gone) :
    Linked w h.node := by
  obtain ⟨ps, f, -, -, hp, hn⟩ := hi.path h hh hl
  rw [← hn]
  cases hp with
  | root => exact Or.inl rfl
  | step _ he _ => exact Or.inr ⟨_, he, rfl⟩

end Steps

/-! ### Runs -/

def idle (es : List Entry) : World := ⟨es, [], [], []⟩

lemma idle_inv {drive : Str} {es : List Entry} (ht : TreeOk es) : Inv drive (idle es) :=
  ⟨ht, by simp [idle], by simp [idle], by simp [idle], by simp [idle]⟩

/-- **Nothing is written to a deleted file.** In a run of careful steps from an idle drive, every
write, truncation and close through an open file reaches a file that still has a name. -/
theorem careful_writes_linked {drive : Str} {es : List Entry} {w w' : World} {a : Action} {node : ℕ}
    (hd : DriveOk drive) (ht : TreeOk es)
    (hr : Reaches (fun w a w' => step drive w a = some w') (Careful drive) (idle es) w)
    (hs : step drive w a = some w') (htouch : a.touches w = some node) : Linked w node := by
  have hi : Inv drive w :=
    hr.invariant (idle_inv ht) fun _ _ _ hi hc hs => hi.step_keeps hd hc hs
  have hlive : ∀ {h : ℕ} {next : Stage → Option Stage} {r : World × Handle},
      moveHandle w h next = some r → next .gone = none → (w.handles[h]?).map (·.node) = some node →
      Linked w node := by
    intro h next r hr hgone htouch
    obtain ⟨stage, hget, hnext, -⟩ := moveHandle_ok hr
    rw [hget] at htouch
    cases htouch
    refine hi.linked (List.mem_of_getElem? hget) fun hst => ?_
    rw [hst, hgone] at hnext
    cases hnext
  cases a with
  | truncate h | onWrite h | close h =>
    obtain ⟨r, hr, -⟩ := Option.map_eq_some_iff.1 hs
    exact hlive hr rfl htouch
  | _ => cases htouch

def sampleTree : List Entry := [⟨rootNode, ['a'], 1⟩]

def sampleDrive : Str := ['d']

def sampleDoc : Str := ['d', ':', '/', 'a']

/-- The open file is renamed, and deleted under its new name. -/
def renamedRun : List Action :=
  [.lookup sampleDoc false, .opened 0, .rename sampleDoc ['b'] [⟨rootNode, ['b'], 1⟩],
    .deleteCalled ['d', ':', '/', 'b'], .check 0, .delete 0 []]

/-- The file is opened between the check and the deletion. -/
def slippedRun : List Action :=
  [.deleteCalled sampleDoc, .check 0, .lookup sampleDoc false, .opened 0, .delete 0 []]

/-- The file is opened under an id with an empty part. -/
def aliasedRun : List Action :=
  [.lookup ['d', ':', '/', '/', 'a'] false, .opened 0, .deleteCalled sampleDoc, .check 0, .delete 0 []]

/-- After the actions `as`, a write of the first handle reaches a file that is deleted. -/
def WritesDeleted (as : List Action) : Prop := ∃ w w',
  as.foldlM (step sampleDrive) (idle sampleTree) = some w ∧ step sampleDrive w (.onWrite 0) = some w' ∧
    (Action.onWrite 0).touches w = some 1 ∧ ¬Linked w 1

lemma writesDeleted_of_run {as : List Action}
    (h : ((as.foldlM (step sampleDrive) (idle sampleTree)).any fun w =>
      (step sampleDrive w (.onWrite 0)).isSome && (Action.onWrite 0).touches w = some 1 &&
        decide (¬Linked w 1)) = true) : WritesDeleted as := by
  obtain ⟨w, hw, hrest⟩ := (Option.any_eq_true ..).1 h
  simp only [Bool.and_eq_true, decide_eq_true_eq, Option.isSome_iff_exists] at hrest
  obtain ⟨⟨⟨w', hw'⟩, htouch⟩, hnot⟩ := hrest
  exact ⟨w, w', hw, hw', htouch, hnot⟩

/-- Each condition of `Careful` is needed: without it a write reaches a deleted file. -/
theorem write_after_delete :
    WritesDeleted renamedRun ∧ WritesDeleted slippedRun ∧ WritesDeleted aliasedRun :=
  ⟨writesDeleted_of_run (by decide +kernel), writesDeleted_of_run (by decide +kernel),
    writesDeleted_of_run (by decide +kernel)⟩

/-- The world while a delete of the file waits for the one handle that has it open. -/
def sampleWaiting : World :=
  ⟨sampleTree, [sampleDoc], [⟨sampleDoc, 1, .writing⟩], [⟨sampleDoc, .waiting⟩]⟩

lemma sampleDoc_canonical : Canonical sampleDrive sampleDoc :=
  ⟨[['a']], by simp [NameOk], by decide⟩

lemma sampleWaiting_reached :
    Reaches (fun w a w' => step sampleDrive w a = some w') (Careful sampleDrive) (idle sampleTree)
      sampleWaiting := by
  have hcalled : Careful sampleDrive (idle sampleTree) (.deleteCalled sampleDoc) := sampleDoc_canonical
  have hlooked : Careful sampleDrive ⟨sampleTree, [], [], [⟨sampleDoc, .waiting⟩]⟩
      (.lookup sampleDoc false) := ⟨sampleDoc_canonical, by simp⟩
  have hopened : Careful sampleDrive
      ⟨sampleTree, [], [⟨sampleDoc, 1, .looked false⟩], [⟨sampleDoc, .waiting⟩]⟩ (.opened 0) := trivial
  exact ((Reaches.init.step hcalled rfl).step hlooked rfl).step hopened rfl

theorem sample_write_linked : Linked sampleWaiting 1 :=
  careful_writes_linked ⟨by decide, by decide⟩ ⟨by decide, by decide⟩ sampleWaiting_reached
    (show step sampleDrive sampleWaiting (.onWrite 0) = some sampleWaiting from rfl) rfl

end OtgMaster.Provider
