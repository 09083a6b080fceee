import OtgMaster.Ntfs.Volume
import Mathlib.Algebra.BigOperators.Group.List.Basic
import Mathlib.Algebra.Order.BigOperators.Group.List

/-!
Under which names a file is found after `rename` and `moveTo`, whatever the single steps do.

A file is found under a name if the name is in a directory that the root leads to (`Volume.Found`).
A rename links the new name and then unlinks the old one: if a step fails, the file is still found
under the old one. If both succeed, the file is found under the new one unless the root led to the
new directory by the old name only (`Detached`); the test for that looks at the parents that the
handles remember, which a move leaves as they were.

Where only the case of the name changes, the new name would clash with the old one, so a temporary
name is linked first and the old one is unlinked before the new one is linked. If that third step
fails, the file is left under the temporary name (`Stranded`). It fails not only by a fault of the
library: the test for clashes sees every other name in the directory that is equal ignoring case.
-/

namespace OtgMaster.Ntfs

open Lib Block

/-! ### What the root leads to -/

def FILE_root : ℕ := 5

/-- The names `links` lead from the root to the directory. -/
inductive Reached (links : List Link) : Ref → Prop
  | root {dir : Ref} (h : mftNo dir = FILE_root) : Reached links dir
  | step {l : Link} (hl : l ∈ links) (h : Reached links l.dir) : Reached links l.file

section Reached

variable {links links' : List Link} {dir : Ref} {l : Link}

lemma Reached.mono (hsub : ∀ m ∈ links, m ∈ links') (h : Reached links dir) : Reached links' dir := by
  induction h with
  | root h => exact .root h
  | step hl _ ih => exact .step (hsub _ hl) ih

/-- A way to the directory of a name need not use that name. -/
lemma Reached.without (hsub : ∀ m ∈ links, m ≠ l → m ∈ links') (h : Reached links l.dir) :
    Reached links' l.dir := by
  have hway : ∀ d, Reached links d → Reached links' d ∨ Reached links' l.dir := by
    intro d hd
    induction hd with
    | root h => exact .inl (.root h)
    | @step m hm _ ih =>
      rcases ih with ih | ih
      · by_cases hml : m = l
        · exact .inr (hml ▸ ih)
        · exact .inl (.step (hsub m hm hml) ih)
      · exact .inr ih
  exact (hway _ h).elim id id

lemma Reached.invariant {P : Ref → Prop} (hroot : ∀ d, mftNo d = FILE_root → P d)
    (hstep : ∀ m ∈ links, P m.dir → P m.file) (h : Reached links dir) : P dir := by
  induction h with
  | root h => exact hroot _ h
  | step hl _ ih => exact hstep _ hl ih

end Reached

namespace Volume

variable {t : Tables} {v : Volume} {mref dir file : Ref} {name : Name} {l m : Link}

/-- The file is found under the name, in a directory that the root leads to. -/
def Found (v : Volume) (dir : Ref) (name : Name) (file : Ref) : Prop :=
  v.Has dir name file ∧ Reached v.links dir

/-! ### Names after a step -/

@[simp] lemma has_advance {d : Ref} : v.advance.Has d name file ↔ v.Has d name file := Iff.rfl

instance : Std.Symm Link.Apart := ⟨fun _ _ h hdir _ hb ha => h hdir.symm ha hb⟩

lemma eq_of_name (hl : l ∈ v.links) (hm : m ∈ v.links) (hdir : l.dir = m.dir) (h : name ∈ l.names)
    (h' : name ∈ m.names) : l = m := by
  by_contra hne
  exact v.distinct.forall hl hm hne hdir h h'

lemma has_removeLink (hl : l ∈ v.links) :
    (v.advance.removeLink l).Has dir name file ↔ v.Has dir name file ∧
    ¬(l.dir = dir ∧ l.name = name) := by
  unfold Has removeLink advance
  simp only [List.mem_filter, decide_eq_true_eq]
  constructor
  · rintro ⟨m, ⟨hm, hne⟩, rfl, rfl, rfl⟩
    refine ⟨⟨m, hm, rfl, rfl, rfl⟩, ?_⟩
    rintro ⟨hdir, hname⟩
    exact hne (eq_of_name hm hl hdir.symm List.mem_cons_self (hname ▸ List.mem_cons_self))
  · rintro ⟨⟨m, hm, rfl, rfl, rfl⟩, hne⟩
    refine ⟨m, ⟨hm, ?_⟩, rfl, rfl, rfl⟩
    rintro rfl
    exact hne ⟨rfl, rfl⟩

/-! ### What a step does -/

structure Linkable (t : Tables) (v : Volume) (mref dir : Ref) (name : Name) : Prop where
  accepted : t.refuses name = false
  fault : v.fault = none
  opensFile : v.opens mref = true
  opensDir : v.opens dir = true
  isDir : v.isDir dir = true
  extend : mftNo dir ≠ FILE_Extend
  reparse : v.reparse dir = false
  untaken : ¬v.nameTaken t dir name = true
  other : mftNo mref ≠ mftNo dir

def Linkable.linked (h : Linkable t v mref dir name) : Volume :=
  v.advance.addLink ⟨dir, name, mref, true, none⟩ (apart_of_not_taken h.untaken)

lemma Linkable.mem_linked (h : Linkable t v mref dir name) :
    l ∈ h.linked.links ↔ l ∈ v.links ∨ l = ⟨dir, name, mref, true, none⟩ :=
  List.mem_append.trans (or_congr Iff.rfl List.mem_singleton)

lemma Linkable.has_linked {d : Ref} {n : Name} (h : Linkable t v mref dir name) :
    h.linked.Has d n file ↔ v.Has d n file ∨ dir = d ∧ name = n ∧ mref = file := by
  unfold Has
  simp only [h.mem_linked]
  constructor
  · rintro ⟨m, hm | rfl, hmem⟩
    · exact .inl ⟨m, hm, hmem⟩
    · exact .inr hmem
  · rintro (⟨m, hm, hmem⟩ | hmem)
    · exact ⟨m, .inl hm, hmem⟩
    · exact ⟨_, .inr rfl, hmem⟩

lemma Linkable.fault_linked (h : Linkable t v mref dir name) :
    h.linked.fault = v.faults.getD 1 none := by
  show v.faults.tail.headD none = _
  rcases v.faults with _ | ⟨_, _ | _⟩ <;> rfl

lemma linkName_run (h : Linkable t v mref dir name) : v.linkName t mref dir name = (0, h.linked) := by
  unfold linkName Linkable.linked
  rw [if_neg (by simp [h.accepted]), h.fault]
  dsimp only
  rw [if_neg (by simp [h.opensFile]), if_neg (by simp [h.opensDir]),
    if_neg (by simp [h.isDir, h.extend, h.reparse]),
    dif_neg h.untaken, if_neg h.other]

lemma linkName_fails (h : ¬Linkable t v mref dir name) :
    ∃ rc, rc ≠ 0 ∧ v.linkName t mref dir name = (rc, v.advance) := by
  unfold linkName
  split
  · exact ⟨_, by decide, rfl⟩
  rename_i haccepted
  split
  · rename_i f hfault
    exact ⟨_, by have := f.pos; omega, rfl⟩
  rename_i hfault
  split
  · exact ⟨_, by decide, rfl⟩
  rename_i hfile
  split
  · exact ⟨_, by decide, rfl⟩
  rename_i hdir
  split
  · exact ⟨_, by decide, rfl⟩
  rename_i hkind
  split
  · exact ⟨_, by decide, rfl⟩
  rename_i htaken
  split
  · exact ⟨_, by decide, rfl⟩
  rename_i hother
  simp only [not_or, Bool.not_eq_false, Bool.not_eq_true] at haccepted hfile hdir hkind
  exact absurd ⟨haccepted, hfault, hfile, hdir, hkind.1, hkind.2.1, hkind.2.2, htaken, hother⟩ h

lemma unlinkName_cases (t : Tables) (v : Volume) (dir mref : Ref) (name : Name) :
    (∃ rc, rc ≠ 0 ∧ v.unlinkName t dir mref name = (rc, v.advance)) ∨
      ∃ l, v.findLink t dir mref name = some l ∧
      v.unlinkName t dir mref name = (0, v.advance.removeLink l) := by
  unfold unlinkName
  split
  · rename_i f hfault
    exact .inl ⟨_, by have := f.pos; omega, rfl⟩
  split
  · exact .inl ⟨_, by decide, rfl⟩
  split
  · exact .inl ⟨_, by decide, rfl⟩
  split
  · exact .inl ⟨_, by decide, rfl⟩
  split
  · exact .inl ⟨_, by decide, rfl⟩
  split
  · exact .inl ⟨_, by decide, rfl⟩
  rename_i l hl
  split
  · exact .inl ⟨_, by decide, rfl⟩
  · exact .inr ⟨l, hl, rfl⟩

lemma findLink_eq (hl : l ∈ v.links) (hdir : l.dir = dir) (hfile : l.file = mref)
    (hname : l.name = name) : v.findLink t dir mref name = some l := by
  have hmem : name ∈ l.names := hname ▸ List.mem_cons_self
  unfold findLink
  cases hfind : v.links.find? fun l => l.dir = dir ∧ l.file = mref ∧ name ∈ l.names with
  | none =>
    have := List.find?_eq_none.1 hfind l hl
    simp [hdir, hfile, hmem] at this
  | some m =>
    have hm := List.mem_of_find?_eq_some hfind
    have hsome := List.find?_some hfind
    simp only [decide_eq_true_eq] at hsome
    rw [eq_of_name hm hl (hsome.1.trans hdir.symm) hsome.2.2 hmem]
    rfl

lemma unlinkName_own (hl : l ∈ v.links) (hdir : l.dir = dir) (hfile : l.file = mref)
    (hname : l.name = name) : (∃ rc, rc ≠ 0 ∧ v.unlinkName t dir mref name = (rc, v.advance)) ∨
      v.unlinkName t dir mref name = (0, v.advance.removeLink l) := by
  rcases unlinkName_cases t v dir mref name with hfails | ⟨m, hfind, hrun⟩
  · exact .inl hfails
  · rw [findLink_eq hl hdir hfile hname, Option.some.injEq] at hfind
    exact .inr (hfind ▸ hrun)

lemma le_linkCount (hl : l ∈ v.links) (hm : m ∈ v.links) (hne : m ≠ l) (hfile : m.file = l.file) :
    2 + l.dosName.toList.length ≤ v.linkCount l.file := by
  unfold linkCount
  have hl' : l ∈ v.links.filter (·.file = l.file) := by simp [hl]
  have hm' : m ∈ (v.links.filter (·.file = l.file)).erase l := by
    rw [List.mem_erase_of_ne hne]
    simp [hm, hfile]
  rw [← List.sum_map_erase _ hl']
  have := List.single_le_sum (fun _ _ => Nat.zero_le _) _
    (List.mem_map_of_mem (f := fun l : Link => 1 + l.dosName.toList.length) hm')
  omega

lemma unlinkName_run (hl : l ∈ v.links) (hdir : l.dir = dir) (hfile : l.file = mref)
    (hname : l.name = name) (hm : m ∈ v.links) (hne : m ≠ l) (hmfile : m.file = mref)
    (hfault : v.fault = none) (hopens : v.opens mref = true) (huser : FILE_first_user ≤ mftNo mref)
    (hopensDir : v.opens dir = true) (hextend : mftNo dir ≠ FILE_Extend) :
    v.unlinkName t dir mref name = (0, v.advance.removeLink l) := by
  have hcount := le_linkCount hl hm hne (hmfile.trans hfile.symm)
  have hlast : v.lastOfDir l = false := by
    unfold lastOfDir
    cases hdos : l.dosName with
    | none =>
      rw [hdos] at hcount
      simp only [Option.toList_none, List.length_nil] at hcount
      simp [show v.linkCount l.file ≠ 1 by omega]
    | some dos =>
      rw [hdos] at hcount
      simp only [Option.toList_some, List.length_singleton] at hcount
      simp [show v.linkCount l.file ≠ 1 by omega, show v.linkCount l.file ≠ 2 by omega]
  unfold unlinkName
  rw [hfault]
  dsimp only
  rw [if_neg (by simp [hopens]), if_neg (by omega), if_neg (by simp [hopensDir]), if_neg hextend,
    findLink_eq hl hdir hfile hname]
  dsimp only
  rw [if_neg (by simp [hlast])]

lemma unlinkName_fails (h : ¬((v.fault = none ∧ FILE_first_user ≤ mftNo mref) ∧
      v.opens dir = true ∧ mftNo dir ≠ FILE_Extend)) :
    ∃ rc, rc ≠ 0 ∧ v.unlinkName t dir mref name = (rc, v.advance) := by
  unfold unlinkName
  split
  · rename_i f hfault
    exact ⟨_, by have := f.pos; omega, rfl⟩
  rename_i hfault
  split
  · exact ⟨_, by decide, rfl⟩
  split
  · exact ⟨_, by decide, rfl⟩
  rename_i huser
  split
  · exact ⟨_, by decide, rfl⟩
  rename_i hopens
  split
  · exact ⟨_, by decide, rfl⟩
  rename_i hextend
  exact absurd ⟨⟨hfault, Nat.le_of_not_lt huser⟩, by simpa using hopens, hextend⟩ h

/-! ### The native call -/

/-- The file is found under its old or its new name, and if the call has succeeded under the new one
only. -/
def Kept (mref oldDir : Ref) (oldName : Name) (newDir : Ref) (newName : Name) (r : ℤ × Volume) : Prop :=
  (r.1 = 0 → r.2.Found newDir newName mref ∧ ¬r.2.Has oldDir oldName mref) ∧
    (r.1 ≠ 0 → r.2.Found oldDir oldName mref ∨ r.2.Found newDir newName mref)

section Calls

variable {oldDir newDir : Ref} {oldName newName : Name}

lemma kept_of_failed {rc : ℤ} (hrc : rc ≠ 0)
    (h : v.Found oldDir oldName mref ∨ v.Found newDir newName mref) :
    Kept mref oldDir oldName newDir newName (rc, v) :=
  ⟨fun h0 => absurd h0 hrc, fun _ => h⟩

/-- The names of the volume but the one that is given up. -/
def linksBut (v : Volume) (dir : Ref) (name : Name) : List Link :=
  v.links.filter fun l => ¬(l.dir = dir ∧ l.name = name)

/-- What makes a rename take a file away from the root: both steps succeed, and the root leads to
the new directory by the old name only. -/
structure Detaches (t : Tables) (v : Volume) (mref oldDir : Ref) (oldName : Name) (newDir : Ref)
    (newName : Name) : Prop where
  linked : Linkable t v mref newDir newName
  unlinked : v.faults.getD 1 none = none ∧ FILE_first_user ≤ mftNo mref
  opensOld : v.opens oldDir = true ∧ mftNo oldDir ≠ FILE_Extend
  apart : ¬Reached (v.linksBut oldDir oldName) newDir

lemma Detaches.newDir_ne (h : Detaches t v mref oldDir oldName newDir newName)
    (hfound : v.Found oldDir oldName mref) : newDir ≠ oldDir := by
  rintro rfl
  obtain ⟨⟨l, hl, rfl, rfl, -⟩, hreached⟩ := hfound
  refine h.apart (hreached.without fun m hm hml => List.mem_filter.2 ⟨hm, decide_eq_true ?_⟩)
  rintro ⟨hdir, hname⟩
  exact hml (eq_of_name hm hl hdir List.mem_cons_self (hname ▸ List.mem_cons_self))

/-- The volume after both steps: its names lead to the new directory if those but the old one do. -/
lemma reached_moved (h : Linkable t v mref newDir newName) (hl : l ∈ v.links) (hdir : l.dir = oldDir)
    (hname : l.name = oldName) :
    Reached (h.linked.advance.removeLink l).links newDir ↔
    Reached (v.linksBut oldDir oldName) newDir := by
  have hbut : ∀ m ∈ v.links, m ≠ l ↔ ¬(m.dir = oldDir ∧ m.name = oldName) := by
    intro m hm
    rw [not_iff_not]
    constructor
    · rintro rfl
      exact ⟨hdir, hname⟩
    · rintro ⟨hmdir, hmname⟩
      refine eq_of_name hm hl (hmdir.trans hdir.symm) List.mem_cons_self ?_
      rw [hmname, ← hname]
      exact List.mem_cons_self
  have hmem : ∀ {m}, m ∈ (h.linked.advance.removeLink l).links ↔
      (m ∈ v.links ∨ m = ⟨newDir, newName, mref, true, none⟩) ∧ m ≠ l := by
    intro m
    unfold removeLink
    simp only [List.mem_filter, decide_eq_true_eq]
    exact and_congr_left fun _ => h.mem_linked
  constructor
  · -- a way to the new directory need not use the new name, which starts there
    refine fun hway => Reached.without (l := ⟨newDir, newName, mref, true, none⟩)
      (fun m hm hne => ?_) hway
    obtain ⟨hm | rfl, hml⟩ := hmem.1 hm
    · exact List.mem_filter.2 ⟨hm, decide_eq_true ((hbut m hm).1 hml)⟩
    · exact absurd rfl hne
  · refine Reached.mono fun m hm => ?_
    obtain ⟨hm, hne⟩ := List.mem_filter.1 hm
    exact hmem.2 ⟨.inl hm, (hbut m hm).2 (of_decide_eq_true hne)⟩

/-- **A rename that is not a change of case keeps the file, unless it detaches it.** -/
lemma rename_kept_iff (hfound : v.Found oldDir oldName mref)
    (hne : ¬(newDir = oldDir ∧ newName = oldName)) :
    Kept mref oldDir oldName newDir newName (v.rename t mref oldDir oldName newDir newName false) ↔
      ¬Detaches t v mref oldDir oldName newDir newName := by
  obtain ⟨l, hl, hdir, hname, hfile⟩ := hfound.1
  unfold rename
  dsimp only
  by_cases hlink : Linkable t v mref newDir newName
  swap
  · obtain ⟨rc, hrc, hrun⟩ := linkName_fails hlink
    rw [hrun]
    simp only [if_neg hrc]
    exact iff_of_true (kept_of_failed hrc (.inl hfound)) fun hd => hlink hd.linked
  rw [linkName_run hlink, if_pos rfl]
  have hold : hlink.linked.Found oldDir oldName mref :=
    ⟨hlink.has_linked.2 (.inl hfound.1), hfound.2.mono fun m hm => hlink.mem_linked.2 (.inl hm)⟩
  have hother : (⟨newDir, newName, mref, true, none⟩ : Link) ≠ l := by
    rintro rfl
    exact hne ⟨hdir, hname⟩
  by_cases hun : (v.faults.getD 1 none = none ∧ FILE_first_user ≤ mftNo mref) ∧
      v.opens oldDir = true ∧ mftNo oldDir ≠ FILE_Extend
  swap
  · obtain ⟨rc, hrc, hrun⟩ : ∃ rc, rc ≠ 0 ∧ hlink.linked.unlinkName t oldDir mref oldName =
        (rc, hlink.linked.advance) := by
      apply unlinkName_fails
      rw [hlink.fault_linked]
      tauto
    rw [hrun]
    exact iff_of_true (kept_of_failed hrc (.inl hold)) fun hd => hun ⟨hd.unlinked, hd.opensOld⟩
  obtain ⟨⟨hfault, huser⟩, hopens, hextend⟩ := hun
  rw [unlinkName_run (hlink.mem_linked.2 (.inl hl)) hdir hfile hname (hlink.mem_linked.2 (.inr rfl))
    hother rfl (hlink.fault_linked.trans hfault) hlink.opensFile huser hopens hextend]
  have hmem := hlink.mem_linked.2 (.inl hl)
  have hgone : (hlink.linked.advance.removeLink l).Has oldDir oldName mref ↔ _ := has_removeLink hmem
  have hthere : (hlink.linked.advance.removeLink l).Has newDir newName mref ↔ _ := has_removeLink hmem
  have hreach := reached_moved hlink hl hdir hname
  constructor
  · intro hkept hd
    exact hd.apart (hreach.1 (hkept.1 rfl).1.2)
  · intro hd
    refine ⟨fun _ => ⟨⟨hthere.2 ⟨hlink.has_linked.2 (.inr ⟨rfl, rfl, rfl⟩), ?_⟩, hreach.2 ?_⟩, ?_⟩,
      fun h => absurd rfl h⟩
    · rintro ⟨hd', hn'⟩
      exact hne ⟨hd'.symm.trans hdir, hn'.symm.trans hname⟩
    · by_contra hapart
      exact hd ⟨hlink, ⟨hfault, huser⟩, ⟨hopens, hextend⟩, hapart⟩
    · intro hhas
      exact (hgone.1 hhas).2 ⟨hdir, hname⟩

/-- After the first two steps of a change of case: the file has the temporary name in place of the
old one. -/
def renamedAside (h : Linkable t v mref dir (tmpName mref)) (l : Link) : Volume :=
  h.linked.advance.removeLink l

/-- What makes a change of case leave the file under its temporary name. -/
structure Strands (t : Tables) (v : Volume) (mref dir : Ref) (oldName newName : Name) : Prop where
  aside : Linkable t v mref dir (tmpName mref)
  unlinked : v.faults.getD 1 none = none ∧ FILE_first_user ≤ mftNo mref
  /-- The new name cannot be linked: it is refused, the third step is at fault, or another name in
  the directory, or the temporary one, is equal ignoring case. -/
  blocked : t.refuses newName = true ∨ v.faults.getD 2 none ≠ none ∨
    (∃ l ∈ v.links, l.dir = dir ∧ l.name ≠ oldName ∧ l.names.any (t.collate · newName) = true) ∨
    t.collate (tmpName mref) newName = true
  /-- The file does not have the new name already. -/
  fresh : newName ≠ tmpName mref ∧ ¬v.Has dir newName mref

section Aside

variable {h : Linkable t v mref dir (tmpName mref)}

lemma tmpName_ne (h : Linkable t v mref dir (tmpName mref)) (hl : l ∈ v.links) (hdir : l.dir = dir) :
    l.name ≠ tmpName mref := by
  rintro hname
  refine h.untaken (List.any_eq_true.2 ⟨l, hl, ?_⟩)
  simp [hdir, Link.names, hname, Tables.collate]

lemma has_renamedAside (hl : l ∈ v.links) (hdir : l.dir = dir) : (renamedAside h l).Has dir name mref ↔
    v.Has dir name mref ∧ l.name ≠ name ∨ name = tmpName mref := by
  have htmp := tmpName_ne h hl hdir
  unfold renamedAside
  rw [has_removeLink (h.mem_linked.2 (.inl hl)), h.has_linked]
  simp only [hdir, true_and, and_true]
  constructor
  · rintro ⟨hhas | hname, hne⟩
    · exact .inl ⟨hhas, hne⟩
    · exact .inr hname.symm
  · rintro (⟨hhas, hne⟩ | rfl)
    · exact ⟨.inl hhas, hne⟩
    · exact ⟨.inr rfl, htmp⟩

lemma mem_renamedAside {x : Link} : x ∈ (renamedAside h l).links ↔
    (x ∈ v.links ∨ x = ⟨dir, tmpName mref, mref, true, none⟩) ∧ x ≠ l := by
  unfold renamedAside removeLink
  simp only [List.mem_filter, decide_eq_true_eq]
  exact and_congr_left fun _ => h.mem_linked

/-- The test for clashes, in the directory that the first two steps have left. -/
lemma nameTaken_renamedAside (hl : l ∈ v.links) (hdir : l.dir = dir) :
    (renamedAside h l).nameTaken t dir name = true ↔
      (∃ m ∈ v.links, m.dir = dir ∧ m.name ≠ l.name ∧ m.names.any (t.collate · name) = true) ∨
        t.collate (tmpName mref) name = true := by
  have htmp := tmpName_ne h hl hdir
  unfold nameTaken
  simp only [List.any_eq_true, Bool.and_eq_true, decide_eq_true_eq, mem_renamedAside]
  constructor
  · rintro ⟨m, ⟨hm | rfl, hne⟩, hmdir, n, hn, hcollate⟩
    · refine .inl ⟨m, hm, hmdir, ?_, n, hn, hcollate⟩
      intro hname
      exact hne (eq_of_name hm hl (hmdir.trans hdir.symm) List.mem_cons_self
        (hname ▸ List.mem_cons_self))
    · rw [List.mem_singleton.1 hn] at hcollate
      exact .inr hcollate
  · rintro (⟨m, hm, hmdir, hname, n, hn, hcollate⟩ | hcollate)
    · refine ⟨m, ⟨.inl hm, ?_⟩, hmdir, n, hn, hcollate⟩
      rintro rfl
      exact hname rfl
    · refine ⟨_, ⟨.inr rfl, ?_⟩, rfl, tmpName mref, List.mem_cons_self, hcollate⟩
      rintro rfl
      exact htmp rfl

/-- The third step goes wrong for what is wrong with the new name only. -/
lemma not_linkable_renamedAside (newName : Name) (hl : l ∈ v.links) (hdir : l.dir = dir)
    (hfile : l.file = mref) : ¬Linkable t (renamedAside h l) mref dir newName ↔
      t.refuses newName = true ∨ v.faults.getD 2 none ≠ none ∨
        (∃ m ∈ v.links, m.dir = dir ∧ m.name ≠ l.name ∧ m.names.any (t.collate · newName) = true) ∨
        t.collate (tmpName mref) newName = true := by
  have htmp := tmpName_ne h hl hdir
  have hfault : (renamedAside h l).fault = v.faults.getD 2 none := by
    show v.faults.tail.tail.headD none = _
    rcases v.faults with _ | ⟨_, _ | ⟨_, _ | _⟩⟩ <;> rfl
  have hother : (renamedAside h l).links.any (·.file = l.file) = true := by
    refine List.any_eq_true.2 ⟨_, mem_renamedAside.2 ⟨.inr rfl, ?_⟩, by simp [hfile]⟩
    rintro rfl
    exact htmp rfl
  have hopens (ref : Ref) : (renamedAside h l).opens ref = v.opens ref := by
    show (v.opens ref && (decide (ref ≠ l.file) || (renamedAside h l).links.any (·.file = l.file))) = _
    rw [hother, Bool.or_true, Bool.and_true]
  rw [← nameTaken_renamedAside (h := h) hl hdir, ← hfault]
  constructor
  · intro hnot
    by_contra hgood
    simp only [not_or, ne_eq, not_not, Bool.not_eq_true] at hgood
    exact hnot ⟨hgood.1, hgood.2.1, (hopens _).trans h.opensFile, (hopens _).trans h.opensDir,
      h.isDir, h.extend, h.reparse, by simp [hgood.2.2], h.other⟩
  · rintro hbad hlink
    rcases hbad with hrefused | hfault | htaken
    · simp [hlink.accepted] at hrefused
    · exact hfault hlink.fault
    · exact hlink.untaken htaken

/-- The last two steps, with the file under its temporary name: they succeed, or the new name cannot
be linked. -/
lemma kept_of_renamedAside (hl : l ∈ v.links) (hdir : l.dir = dir) (hname : l.name = oldName)
    (hreached : Reached v.links dir) (hne : newName ≠ oldName)
    (hlink : Linkable t (renamedAside h l) mref dir newName) : Kept mref dir oldName dir newName
      (hlink.linked.unlinkName t dir mref (tmpName mref)) := by
  have htmp := tmpName_ne h hl hdir
  have haside : (⟨dir, tmpName mref, mref, true, none⟩ : Link) ∈ hlink.linked.links := by
    refine hlink.mem_linked.2 (.inl (mem_renamedAside.2 ⟨.inr rfl, ?_⟩))
    rintro rfl
    exact htmp rfl
  have hfresh : tmpName mref ≠ newName := by
    rintro heq
    exact hlink.untaken ((nameTaken_renamedAside hl hdir).2 (.inr (by rw [heq]; simp [Tables.collate])))
  have hlinked : ∀ m ∈ v.links, m ≠ l → m ∈ hlink.linked.links := fun m hm hml =>
    hlink.mem_linked.2 (.inl (mem_renamedAside.2 ⟨.inl hm, hml⟩))
  subst hdir
  rcases unlinkName_own (t := t) haside rfl rfl rfl with ⟨rc, hrc, hrun⟩ | hrun <;> rw [hrun]
  · exact kept_of_failed hrc (.inr ⟨hlink.has_linked.2 (.inr ⟨rfl, rfl, rfl⟩), hreached.without hlinked⟩)
  · constructor
    · intro _
      have hreached' :
          Reached (hlink.linked.advance.removeLink ⟨l.dir, tmpName mref, mref, true, none⟩).links
              l.dir := by
        refine hreached.without fun m hm hml => List.mem_filter.2 ⟨hlinked m hm hml, decide_eq_true ?_⟩
        rintro rfl
        exact tmpName_ne h hm rfl rfl
      refine and_assoc.2 (and_left_comm.2 ⟨hreached', ?_⟩)
      rw [has_removeLink haside, has_removeLink haside]
      rw [hlink.has_linked, hlink.has_linked, has_renamedAside hl rfl, has_renamedAside hl rfl, hname]
      refine ⟨⟨.inr ⟨rfl, rfl, rfl⟩, fun heq => hfresh heq.2⟩, ?_⟩
      rintro ⟨(⟨-, hold⟩ | hold) | ⟨-, hold, -⟩, htmp'⟩
      · exact hold rfl
      · exact htmp (hname.trans hold)
      · exact hne hold
    · intro hrc
      exact absurd rfl hrc

end Aside

/-- **A change of case keeps the file, unless it strands it.** -/
lemma rename_caseOnly_kept_iff (hfound : v.Found dir oldName mref) (hne : newName ≠ oldName) :
    Kept mref dir oldName dir newName (v.rename t mref dir oldName dir newName true) ↔
      ¬Strands t v mref dir oldName newName := by
  obtain ⟨hhas, hreached⟩ := id hfound
  obtain ⟨l, hl, hdir, hname, hfile⟩ := id hhas
  unfold rename
  simp only [if_true]
  by_cases h : Linkable t v mref dir (tmpName mref)
  swap
  · obtain ⟨rc, hrc, hrun⟩ := linkName_fails h
    simp only [hrun, if_neg hrc]
    exact iff_of_true (kept_of_failed hrc (.inl hfound)) fun hs => h hs.aside
  simp only [linkName_run h, if_true]
  by_cases hun : v.faults.getD 1 none = none ∧ FILE_first_user ≤ mftNo mref
  swap
  · obtain ⟨rc, hrc, hrun⟩ : ∃ rc, rc ≠ 0 ∧ h.linked.unlinkName t dir mref oldName =
        (rc, h.linked.advance) :=
      unlinkName_fails fun hgood => hun (h.fault_linked ▸ hgood.1)
    simp only [hrun, if_neg hrc]
    refine iff_of_true (kept_of_failed hrc (.inl ⟨h.has_linked.2 (.inl hhas), ?_⟩)) fun hs =>
      hun hs.unlinked
    exact hreached.mono fun m hm => h.mem_linked.2 (.inl hm)
  -- the old name and the temporary one are both there
  have hother : (⟨dir, tmpName mref, mref, true, none⟩ : Link) ≠ l := by
    rintro rfl
    exact tmpName_ne h hl hdir rfl
  rw [unlinkName_run (h.mem_linked.2 (.inl hl)) hdir hfile hname (h.mem_linked.2 (.inr rfl)) hother rfl
    (h.fault_linked.trans hun.1) h.opensFile hun.2 h.opensDir h.extend]
  simp only [if_true]
  have hblocked := not_linkable_renamedAside (h := h) newName hl hdir hfile
  by_cases hlink : Linkable t (renamedAside h l) mref dir newName
  · have hrun := linkName_run hlink
    unfold renamedAside at hrun
    rw [hrun, if_pos rfl]
    refine iff_of_true (kept_of_renamedAside hl hdir hname hreached hne hlink) fun hs =>
      hblocked.2 ?_ hlink
    rw [hname]
    exact hs.blocked
  · obtain ⟨rc, hrc, hrun⟩ := linkName_fails hlink
    unfold renamedAside at hrun
    rw [hrun, if_neg hrc]
    have hold : ¬(renamedAside h l).advance.Has dir oldName mref := by
      rw [has_advance, has_renamedAside hl hdir]
      rintro (⟨-, hold⟩ | hold)
      · exact hold hname
      · exact tmpName_ne h hl hdir (hname.trans hold)
    have hnew : (renamedAside h l).advance.Has dir newName mref ↔
        v.Has dir newName mref ∨ newName = tmpName mref := by
      rw [has_advance, has_renamedAside hl hdir, hname]
      simp [hne.symm]
    constructor
    · intro hkept hs
      rcases hkept.2 hrc with hfound' | hfound'
      · exact hold hfound'.1
      · exact (hnew.1 hfound'.1).elim hs.fresh.2 hs.fresh.1
    · intro hs
      refine kept_of_failed hrc (.inr ⟨hnew.2 ?_, ?_⟩)
      · by_contra hfresh
        rw [not_or] at hfresh
        exact hs ⟨h, hun, hname ▸ hblocked.1 hlink, hfresh.2, hfresh.1⟩
      · subst hdir
        exact hreached.without fun m hm hml => mem_renamedAside.2 ⟨.inl hm, hml⟩

end Calls

end Volume

/-! ### Renaming and moving a file -/

section Files

variable (t : Tables) (fold : Char → Char) (fs : Fs Volume) (file newParent target : NtfsFile)
  (newName : Name)

/-- The file of the handle is found under its old name or under the new one, however the call ends;
if it returns, under the new one, and no longer under the old one if that is another. -/
def KeepsName (m : M Volume PUnit) (oldDir newDir : Ref) (newName : Name) : Prop :=
  let node := fs.node file.node
  wp m
    (fun _ fs' => fs'.vol.Found newDir newName node.mref ∧
      (¬(newDir = oldDir ∧ newName = node.name) → ¬fs'.vol.Has oldDir node.name node.mref))
    (fun _ fs' => fs'.vol.Found oldDir node.name node.mref ∨ fs'.vol.Found newDir newName node.mref) fs

/-- The target is the directory itself, or one of the parents of the target is, as the handles know
them. -/
def IntoItself : Prop :=
  (fs.node file.node).isDirectory = true ∧
    ∃ p ∈ newParent.node :: newParent.parents, (fs.node p).mref = (fs.node file.node).mref

/-- The call gets as far as the native one. -/
structure Calls : Prop where
  writable : fs.readOnlyReason = none
  mounted : fs.isUnmounted = false
  outside : ¬IntoItself fs file newParent

/-- The call gets as far as a native change of case, and that strands the file. -/
structure Stranded (oldDir : Ref) : Prop where
  calls : Calls fs file newParent
  sameDir : (fs.node newParent.node).mref = oldDir
  differs : newName ≠ (fs.node file.node).name
  caseOnly : NtfsFile.equalsIgnoreCase fold newName (fs.node file.node).name = true
  strands : fs.vol.Strands t (fs.node file.node).mref oldDir (fs.node file.node).name newName

/-- The call gets as far as the native one, and that detaches the file. -/
structure Detached (oldDir : Ref) : Prop where
  calls : Calls fs file newParent
  detaches : fs.vol.Detaches t (fs.node file.node).mref oldDir (fs.node file.node).name
    (fs.node newParent.node).mref newName

variable {t fold fs file newParent target newName} {oldParent : ℕ} {rest : List ℕ}

lemma keepsName_rename (hparents : file.parents = oldParent :: rest)
    (hfound : fs.vol.Found (fs.node oldParent).mref (fs.node file.node).name (fs.node file.node).mref) :
    KeepsName fs file (file.rename (ntfs3g t) fold newParent newName) (fs.node oldParent).mref
        (fs.node newParent.node).mref newName ↔
      (Calls fs file newParent →
        ¬((fs.node newParent.node).mref = (fs.node oldParent).mref ∧
          newName = (fs.node file.node).name) →
        Volume.Kept (fs.node file.node).mref (fs.node oldParent).mref (fs.node file.node).name
          (fs.node newParent.node).mref newName
          (fs.vol.rename t (fs.node file.node).mref (fs.node oldParent).mref (fs.node file.node).name
            (fs.node newParent.node).mref newName
            (decide ((fs.node newParent.node).mref = (fs.node oldParent).mref) &&
              NtfsFile.equalsIgnoreCase fold newName (fs.node file.node).name))) := by
  unfold KeepsName NtfsFile.rename
  rw [hparents]
  dsimp only
  rw [wp_bind, wp_checkWritable]
  cases hreason : fs.readOnlyReason with
  | some reason =>
    refine iff_of_true ⟨by simp, fun _ _ => .inl hfound⟩ fun hcalls => ?_
    simp [hcalls.writable] at hreason
  | none =>
    have hcalls : Calls fs file newParent ↔ ¬IntoItself fs file newParent ∧ fs.isUnmounted = false :=
      ⟨fun h => ⟨h.outside, h.mounted⟩, fun h => ⟨hreason, h.2, h.1⟩⟩
    rw [hcalls, and_imp]
    refine (and_iff_left (by simp)).trans ((forall_prop_of_true rfl).trans ?_)
    rw [wp_bind, wp_get, wp_bind, wp_throwIf]
    refine (and_iff_right fun _ => .inl hfound).trans (forall_congr' fun _ => ?_)
    simp only [decide_eq_true_eq]
    refine Iff.trans ?_ forall_comm
    rw [wp_ite, wp_pure]
    have hsame (h : (fs.node newParent.node).mref = (fs.node oldParent).mref ∧
      newName = (fs.node file.node).name) :
        fs.vol.Found (fs.node newParent.node).mref newName (fs.node file.node).mref := by
      rw [h.1, h.2]
      exact hfound
    refine (and_iff_right fun h => ⟨hsame h, fun hne => absurd h hne⟩).trans
      (forall_congr' fun hne => ?_)
    rw [wp_bind, wp_checkMounted]
    refine (and_iff_right fun _ => .inl hfound).trans (forall_congr' fun _ => ?_)
    simp only [wp_bind, wp_native, wp_invalidateListings, NtfsFile.path, wp_get, wp_pure,
      wp_throwIf, NtfsFile.set, wp_modify, ne_eq, not_not, Volume.Kept, ntfs3g, hne,
      not_false_eq_true, forall_const]
    exact and_comm

lemma keepsName_rename_iff (hparents : file.parents = oldParent :: rest)
    (hfound : fs.vol.Found (fs.node oldParent).mref (fs.node file.node).name (fs.node file.node).mref) :
    KeepsName fs file (file.rename (ntfs3g t) fold newParent newName) (fs.node oldParent).mref
        (fs.node newParent.node).mref newName ↔
      ¬Stranded t fold fs file newParent newName (fs.node oldParent).mref ∧
        ¬Detached t fs file newParent newName (fs.node oldParent).mref := by
  rw [keepsName_rename hparents hfound]
  constructor
  · intro hkept
    constructor
    · intro hs
      have hsame : (fs.node newParent.node).mref = (fs.node oldParent).mref := hs.sameDir
      have hcase := hkept hs.calls fun h => hs.differs h.2
      rw [hsame, decide_eq_true rfl, hs.caseOnly, Bool.true_and] at hcase
      exact (Volume.rename_caseOnly_kept_iff hfound hs.differs).1 hcase hs.strands
    · intro hd
      have hother := hd.detaches.newDir_ne hfound
      have hmoved := hkept hd.calls fun h => hother h.1
      rw [decide_eq_false hother, Bool.false_and] at hmoved
      exact (Volume.rename_kept_iff hfound fun h => hother h.1).1 hmoved hd.detaches
  · rintro ⟨hs, hd⟩ hcalls hne
    by_cases hcase : (fs.node newParent.node).mref = (fs.node oldParent).mref ∧
        NtfsFile.equalsIgnoreCase fold newName (fs.node file.node).name = true
    · have hdiffers : newName ≠ (fs.node file.node).name := fun h => hne ⟨hcase.1, h⟩
      rw [hcase.1, decide_eq_true rfl, hcase.2, Bool.true_and,
        Volume.rename_caseOnly_kept_iff hfound hdiffers]
      exact fun hstrands => hs ⟨hcalls, hcase.1, hdiffers, hcase.2, hstrands⟩
    · rw [show (decide _ && _) = false by simpa using hcase, Volume.rename_kept_iff hfound hne]
      exact fun hdetaches => hd ⟨hcalls, hdetaches⟩

/-- A file keeps its name when it is moved, so that a move is never a change of case. -/
lemma keepsName_moveTo_iff (hparents : file.parents = oldParent :: rest)
    (hfound : fs.vol.Found (fs.node oldParent).mref (fs.node file.node).name (fs.node file.node).mref) :
    KeepsName fs file (file.moveTo (ntfs3g t) fold target) (fs.node oldParent).mref
      (fs.node target.node).mref
        (fs.node file.node).name ↔
      ((fs.node target.node).isDirectory = true →
        ¬Detached t fs file target (fs.node file.node).name (fs.node oldParent).mref) := by
  have hname : file.name fs = (fs.node file.node).name := by
    unfold NtfsFile.name NtfsFile.isRoot
    rw [hparents]
    rfl
  have hrename : KeepsName fs file (file.rename (ntfs3g t) fold target (fs.node file.node).name)
      (fs.node oldParent).mref (fs.node target.node).mref (fs.node file.node).name ↔ _ :=
    keepsName_rename_iff hparents hfound
  rw [and_iff_right fun hs => hs.differs rfl] at hrename
  rw [← hrename]
  unfold KeepsName NtfsFile.moveTo
  rw [wp_bind, wp_get, wp_bind, wp_throwIf, hname, Bool.not_eq_false]
  exact and_iff_right fun _ => .inl hfound

/-- **A file that is renamed or moved is found under its old or its new name**, and only under the
new one if the call returns, unless a change of case strands it (the temporary name is linked and
the old one unlinked, and then the new one cannot be linked) or the file is a directory on every way
from the root to the new directory. -/
theorem rename_keeps_name_iff (t : Tables) (fold : Char → Char) (fs : Fs Volume)
    (file newParent : NtfsFile) (newName : Name) (oldParent : ℕ) (rest : List ℕ)
    (hparents : file.parents = oldParent :: rest)
    (hfound : fs.vol.Found (fs.node oldParent).mref (fs.node file.node).name
      (fs.node file.node).mref) :
    (KeepsName fs file (file.rename (ntfs3g t) fold newParent newName) (fs.node oldParent).mref
        (fs.node newParent.node).mref newName ↔
      ¬Stranded t fold fs file newParent newName (fs.node oldParent).mref ∧
        ¬Detached t fs file newParent newName (fs.node oldParent).mref) ∧
    ∀ target : NtfsFile, KeepsName fs file (file.moveTo (ntfs3g t) fold target) (fs.node oldParent).mref
        (fs.node target.node).mref (fs.node file.node).name ↔
      ((fs.node target.node).isDirectory = true →
        ¬Detached t fs file target (fs.node file.node).name (fs.node oldParent).mref) :=
  ⟨keepsName_rename_iff hparents hfound, fun _ => keepsName_moveTo_iff hparents hfound⟩

end Files

/-! ### A volume with names that differ in case only -/

def asciiTables : Tables := ⟨Char.toUpper, List.isEmpty⟩

/-- The root, with the files `ab`, `AB` and `cd` and the folders `d` and `x`. -/
def caseVolume : Volume where
  links := [⟨5, "ab".toList, 24, true, none⟩, ⟨5, "AB".toList, 25, true, none⟩,
    ⟨5, "cd".toList, 26, true, none⟩, ⟨5, "d".toList, 27, true, none⟩,
    ⟨5, "x".toList, 28, true, none⟩]
  isDir ref := ref = 5 ∨ ref = 27 ∨ ref = 28
  reparse _ := false
  size _ := 0
  opens _ := true
  free := 29
  faults := []
  distinct := by simp [Link.Apart, Link.names]

def caseFs : Fs Volume where
  vol := caseVolume
  nodes := [⟨5, [], true, 0⟩, ⟨24, "ab".toList, false, 0⟩, ⟨25, "AB".toList, false, 0⟩,
    ⟨26, "cd".toList, false, 0⟩, ⟨27, "d".toList, true, 0⟩, ⟨28, "x".toList, true, 0⟩]
  dirCache := [(5, [1, 2, 3, 4, 5])]
  readOnlyReason := none
  isUnmounted := false
  listed := []

/-- A change of case where it does not clash, and a folder that is moved into another one. -/
theorem case_change_kept :
    KeepsName caseFs
      ⟨3, [0]⟩ (NtfsFile.rename ⟨3, [0]⟩ (ntfs3g asciiTables) Char.toLower ⟨0, []⟩ "Cd".toList) 5 5
        "Cd".toList ∧
      KeepsName caseFs
        ⟨4, [0]⟩ (NtfsFile.moveTo ⟨4, [0]⟩ (ntfs3g asciiTables) Char.toLower ⟨5, [0]⟩) 5 28
        "d".toList := by
  have hfile : caseFs.vol.Found 5 "cd".toList 26 := ⟨by decide, .root rfl⟩
  have hdir : caseFs.vol.Found 5 "d".toList 27 := ⟨by decide, .root rfl⟩
  have hcase :=
    rename_keeps_name_iff asciiTables Char.toLower caseFs ⟨3, [0]⟩ ⟨0, []⟩ "Cd".toList 0
      [] rfl hfile
  have hmove := rename_keeps_name_iff asciiTables Char.toLower caseFs ⟨4, [0]⟩ ⟨0, []⟩ [] 0 [] rfl hdir
  constructor
  · refine hcase.1.2 ⟨fun hs => ?_, fun hd => hd.detaches.apart (.root rfl)⟩
    rcases hs.strands.blocked with h | h | h | h <;> revert h <;> decide
  · refine (hmove.2 ⟨5, [0]⟩).2 fun _ hd => hd.detaches.apart ?_
    exact .step (l := ⟨5, "x".toList, 28, true, none⟩) (by decide) (.root rfl)

/-- **A change of case loses the file**: `ab` is renamed to `Ab`, next to `AB`. The new name is
taken when it is to be linked, the call fails, and the file is left under its temporary name. **So
do two moves**: `d` is moved into `x`, and then `x` into `d`, whose handle still has the root as its
parent. Both calls return, and the root leads to neither. -/
theorem renames_lose_files :
    (caseFs.vol.Found 5 "ab".toList 24 ∧
      wp (NtfsFile.rename ⟨1, [0]⟩ (ntfs3g asciiTables) Char.toLower ⟨0, []⟩ "Ab".toList)
        (fun _ _ => False)
          (fun e fs' => e = ioError "NTFS rename of /ab to Ab failed: already exists (EEXIST)" ∧
            ¬fs'.vol.Has 5 "ab".toList 24 ∧ ¬fs'.vol.Has 5 "Ab".toList 24 ∧
          fs'.vol.Has 5 ".otg-rename-0000000000000018".toList 24) caseFs) ∧
    ∃ fs' fs'',
      NtfsFile.moveTo ⟨4, [0]⟩ (ntfs3g asciiTables) Char.toLower ⟨5, [0]⟩ caseFs = .ok ⟨⟩ fs' ∧
      fs'.vol.Found 5 "x".toList 28 ∧
      NtfsFile.moveTo ⟨5, [0]⟩ (ntfs3g asciiTables) Char.toLower ⟨4, [0]⟩ fs' = .ok ⟨⟩ fs'' ∧
      ¬Reached fs''.vol.links 27 ∧ ¬Reached fs''.vol.links 28 := by
  refine ⟨⟨⟨by decide, .root rfl⟩, ?_, ?_, ?_, ?_⟩, ?_⟩
  iterate 4 decide
  -- the names in `d` and `x` lead to `d` and `x`, and no other name does
  have hrun : returns (NtfsFile.moveTo ⟨4, [0]⟩ (ntfs3g asciiTables) Char.toLower ⟨5, [0]⟩)
      caseFs fun _ fs' =>
      decide (fs'.vol.Has 5 "x".toList 28) &&
        returns (NtfsFile.moveTo ⟨5, [0]⟩ (ntfs3g asciiTables) Char.toLower ⟨4, [0]⟩) fs' fun _ fs'' =>
          fs''.vol.links.all fun l => l.dir ∈ [27, 28] ∨ l.file ∉ [27, 28] := by
    decide +kernel
  obtain ⟨⟨⟩, fs', hmove, hthen⟩ := returns_ok hrun
  obtain ⟨hx, hthen⟩ := Bool.and_eq_true_iff.1 hthen
  obtain ⟨⟨⟩, fs'', hmove', hclosed⟩ := returns_ok hthen
  have houtside : ∀ dir, Reached fs''.vol.links dir → dir ∉ [27, 28] := by
    intro dir hreached
    refine hreached.invariant (P := fun d => d ∉ [27, 28]) (fun d hd hmem => ?_) fun m hm hdir => ?_
    · revert hd
      rcases List.mem_cons.1 hmem with rfl | hmem
      · decide
      · rw [List.mem_singleton.1 hmem]
        decide
    · exact (of_decide_eq_true (List.all_eq_true.1 hclosed m hm)).resolve_left hdir
  exact ⟨fs', fs'', hmove, ⟨of_decide_eq_true hx, .root rfl⟩, hmove',
    fun h => houtside _ h (by simp), fun h => houtside _ h (by simp)⟩

end OtgMaster.Ntfs
