import OtgMaster.Platform.Json
import Mathlib.Data.List.Sort

/-!
`FileTree`: the folders that a backup reads from and writes to.

A source is a tree that stays as it is; listing a folder, opening a file and reading on from it may
each fail (`SourceTree`). A target is a state with calls on it, each of which may fail and leave the
state changed (`TargetTree`). What is asked of it is that it stores what is written (`Stores`): a
file that was opened, written and closed reads back as that, and a call on one path leaves the files
on other paths alone. `LocalFileTree` is such a target (`localFileTree_stores`).
-/

namespace OtgMaster.Backup

open Lib Block

/-! ### Paths -/

abbrev Name := List Char

/-- A path by its components; `Paths.join` appends them. -/
abbrev Path := List Name

namespace Paths

def text (p : Path) : List Char := ['/'].intercalate p

def ofText (s : List Char) : Path := if s = [] then [] else s.splitOn '/'

def Proper (p : Path) : Prop := ∀ n ∈ p, n ≠ [] ∧ '/' ∉ n

variable {p q : Path}

lemma ofText_text (h : Proper p) : ofText (text p) = p := by
  cases p with
  | nil => rfl
  | cons n p =>
    have hne : text (n :: p) ≠ [] := by
      obtain ⟨c, r, hn⟩ := List.exists_cons_of_ne_nil (h n (by simp)).1
      cases p <;> simp [text, hn, List.intercalate]
    rw [ofText, if_neg hne]
    exact List.splitOn_intercalate _ (fun m hm => (h m hm).2) (by simp)

def Apart (p q : Path) : Prop := ¬p <+: q ∧ ¬q <+: p

lemma Apart.ne (h : Apart p q) : q ≠ p := fun hqp => h.1 (hqp ▸ List.prefix_refl _)

lemma Apart.symm (h : Apart p q) : Apart q p := ⟨h.2, h.1⟩

lemma Apart.append (h : Apart p q) (r : Path) : Apart (p ++ r) q := by
  refine ⟨fun hp => h.1 ((List.prefix_append p r).trans hp), fun hq => ?_⟩
  exact (List.prefix_or_prefix_of_prefix (List.prefix_append p r) hq).elim h.1 h.2

lemma apart_of_ne {a b : Name} (h : a ≠ b) (p : Path) : Apart (p ++ [a]) (p ++ [b]) := by
  constructor <;> intro hp <;> rw [List.prefix_append_right_inj] at hp
  · exact h (by simpa using hp)
  · exact h.symm (by simpa using hp)

lemma Apart.under (h : Apart p q) (r : Path) : Apart (r ++ p) (r ++ q) :=
  ⟨fun hp => h.1 ((List.prefix_append_right_inj r).1 hp),
    fun hq => h.2 ((List.prefix_append_right_inj r).1 hq)⟩

end Paths

open Paths

/-! ### Sources -/

structure Entry where
  name : Name
  isDirectory : Bool
  size : ℕ
  lastModified : ℤ
  deriving DecidableEq

/-- What the stream of a file gives: the pieces that `read` returns, and then the end or an
exception. -/
structure Stream where
  chunks : List (List UInt8)
  failure : Option Thrown

structure SourceTree where
  description : String
  isDirectory : Bool
  list : Path → E (List Entry)
  openRead : Path → E Stream
  names : ∀ {path entries}, list path = .ok entries → (entries.map Entry.name).Nodup
  proper : ∀ {path entries}, list path = .ok entries → ∀ e ∈ entries, e.name ≠ [] ∧ '/' ∉ e.name

/-! ### Targets -/

/-- A tree that is written to, with states `σ`. `openWrite`, `write` and `close` are the calls on an
output stream; `openRead` gives the whole contents of a file. -/
structure TargetTree (σ : Type) where
  description : String
  stat : σ → Path → Bool
  mkdirs : Path → EStateM Thrown σ PUnit
  openWrite : Path → EStateM Thrown σ PUnit
  write : Path → List UInt8 → EStateM Thrown σ PUnit
  close : Path → EStateM Thrown σ PUnit
  openRead : σ → Path → E (List UInt8)

section Target

variable {σ α β : Type}

/-- However `m` ends, the file at `q` is as it was. -/
def TargetTree.Keeps (t : TargetTree σ) (m : EStateM Thrown σ α) (q : Path) : Prop :=
  ∀ s, wp m (fun _ s' => t.openRead s' q = t.openRead s q)
    (fun _ s' => t.openRead s' q = t.openRead s q) s

structure TargetTree.Stores (t : TargetTree σ) : Prop where
  /-- A folder takes the place of a file at its path or on the way to it, of no other. -/
  mkdirs_keeps : ∀ {p q}, ¬q <+: p → t.Keeps (t.mkdirs p) q
  openWrite_keeps : ∀ {p q}, Apart p q → t.Keeps (t.openWrite p) q
  write_keeps : ∀ {p q} data, Apart p q → t.Keeps (t.write p data) q
  close_keeps : ∀ {p q}, Apart p q → t.Keeps (t.close p) q
  openWrite_empty : ∀ {p s u s'}, t.openWrite p s = .ok u s' → t.openRead s' p = .ok []
  write_appends : ∀ {p data s u s' old}, t.write p data s = .ok u s' → t.openRead s p = .ok old →
    t.openRead s' p = .ok (old ++ data)
  close_stores : ∀ {p s u s'}, t.close p s = .ok u s' → t.openRead s' p = t.openRead s p

variable {t : TargetTree σ} {q : Path}

variable {m : EStateM Thrown σ α}

lemma TargetTree.Keeps.of_ok (h : t.Keeps m q) {s s' : σ} {a : α} (hm : m s = .ok a s') :
    t.openRead s' q = t.openRead s q := by
  have hw := h s
  rwa [wp_of_ok hm] at hw

lemma TargetTree.Keeps.of_error (h : t.Keeps m q) {s s' : σ} {e : Thrown}
    (hm : m s = .error e s') : t.openRead s' q = t.openRead s q := by
  have hw := h s
  rwa [wp_of_error hm] at hw

lemma TargetTree.keeps_pure (a : α) : t.Keeps (pure a) q := fun _ => rfl

lemma TargetTree.keeps_throw (e : Thrown) : t.Keeps (throw e : EStateM Thrown σ α) q := fun _ => rfl

lemma TargetTree.Keeps.bind {f : α → EStateM Thrown σ β} (hm : t.Keeps m q)
    (hf : ∀ a, t.Keeps (f a) q) : t.Keeps (m >>= f) q := by
  intro s
  rw [wp_bind]
  refine wp_mono (hm s) (fun a s' h => ?_) fun _ _ h => h
  exact wp_mono (hf a s') (fun _ _ h' => h'.trans h) fun _ _ h' => h'.trans h

end Target

/-! ### `LocalFileTree` -/

inductive Item where
  | absent
  | folder
  | file (data : List UInt8)
  deriving DecidableEq

def Item.isFile : Item → Bool
  | file _ => true
  | _ => false

abbrev Disk := Path → Item

namespace Disk

/-- A file is on the way to `p` or at it: `File.mkdirs` then does nothing. -/
def blocked (d : Disk) (p : Path) : Bool := p.inits.any fun q => (d q).isFile

def makeFolders (d : Disk) (p : Path) : Disk :=
  if d.blocked p then d else fun q => if q.isPrefixOf p then .folder else d q

def deleteRecursively (d : Disk) (p : Path) : Disk := fun q => if p.isPrefixOf q then .absent else d q

def put (d : Disk) (p : Path) (item : Item) : Disk := fun q => if q = p then item else d q

def mkdirs (d : Disk) (p : Path) : Disk := makeFolders (if (d p).isFile then d.put p .absent else d) p

def cleared (d : Disk) (p : Path) : Disk :=
  let d := d.makeFolders p.dropLast
  if d p = .folder then d.deleteRecursively p else d

def openRead (d : Disk) (p : Path) : E (List UInt8) :=
  match d p with
  | .file data => pure data
  | _ => throw ⟨.fileNotFound, String.ofList (text p)⟩

end Disk

def localFileTree : TargetTree Disk where
  description := "local"
  stat d p := d p ≠ .absent
  mkdirs p := modify fun d => d.mkdirs p
  openWrite p := do
    modify fun d => d.cleared p
    let d ← get
    throwIf (d p.dropLast ≠ .folder) ⟨.fileNotFound, String.ofList (text p)⟩
    set (d.put p (.file []))
  write p data := modify fun d => match d p with
    | .file old => d.put p (.file (old ++ data))
    | _ => d
  close _ := pure ⟨⟩
  openRead := Disk.openRead

section Local

variable {d : Disk} {p q : Path}

lemma Disk.openRead_congr {d' : Disk} (h : d' q = d q) : d'.openRead q = d.openRead q := by
  unfold Disk.openRead
  rw [h]

lemma Disk.openRead_ok {data : List UInt8} : d.openRead p = .ok data ↔ d p = .file data := by
  unfold Disk.openRead
  split
  · rename_i old hd
    rw [hd]
    exact ⟨fun h => congrArg Item.file (Except.ok.inj h), fun h => congrArg Except.ok (Item.file.inj h)⟩
  · rename_i hne
    exact ⟨fun h => (by cases h), fun h => absurd h (hne data)⟩

lemma Disk.makeFolders_apart (h : ¬q <+: p) : d.makeFolders p q = d q := by
  unfold Disk.makeFolders
  split
  · rfl
  · exact if_neg (by simpa [List.isPrefixOf_iff_prefix] using h)

lemma Disk.put_apart {item : Item} (h : q ≠ p) : d.put p item q = d q := if_neg h

lemma Disk.mkdirs_apart (h : ¬q <+: p) : d.mkdirs p q = d q := by
  have hne : q ≠ p := fun hqp => h (hqp ▸ List.prefix_refl q)
  rw [Disk.mkdirs, Disk.makeFolders_apart h]
  split
  · exact Disk.put_apart hne
  · rfl

lemma Disk.cleared_apart (h : Apart p q) : d.cleared p q = d q := by
  have hq : ¬q <+: p.dropLast := fun hq => h.2 (hq.trans (List.dropLast_prefix p))
  unfold Disk.cleared
  split
  · rw [Disk.deleteRecursively, if_neg (by simpa [List.isPrefixOf_iff_prefix] using h.1),
      Disk.makeFolders_apart hq]
  · exact Disk.makeFolders_apart hq

theorem localFileTree_stores : localFileTree.Stores where
  mkdirs_keeps h _ := Disk.openRead_congr (Disk.mkdirs_apart h)
  openWrite_keeps h d := by
    simp only [localFileTree, wp_bind, wp_modify, wp_get, wp_throwIf, wp_set]
    refine ⟨fun _ => Disk.openRead_congr (Disk.cleared_apart h), fun _ => Disk.openRead_congr ?_⟩
    rw [Disk.put_apart h.ne, Disk.cleared_apart h]
  write_keeps {p q} data h d := by
    simp only [localFileTree, wp_modify]
    cases hd : d p with
    | file old => exact Disk.openRead_congr (Disk.put_apart h.ne)
    | _ => rfl
  close_keeps _ _ := rfl
  openWrite_empty h := by
    obtain ⟨_, d, -, h⟩ := bind_ok h
    obtain ⟨-, h⟩ := throwIf_bind_ok h
    cases h
    exact Disk.openRead_ok.2 (if_pos rfl)
  write_appends {p data d u d' old} h hold := by
    have hold : d p = .file old := Disk.openRead_ok.1 hold
    cases h
    refine Disk.openRead_ok.2 ?_
    rw [hold]
    exact if_pos rfl
  close_stores h := by cases h; rfl

end Local

end OtgMaster.Backup
