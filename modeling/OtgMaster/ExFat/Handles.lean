import OtgMaster.Lib.Run
import Mathlib.Data.Int.Notation
import Mathlib.Data.List.Basic

/-!
`ExFatFileSystem` and `ExFatFile`: the lock, the flags and the queue that stand between the threads
of the app and libexfat.

A call is the list of the steps it has still to make (`Step`), and any number of calls is under way.
A section of the file system's lock is one step, and so is every look at a flag outside of it;
between two steps of one call the others may run. What the calls of libexfat return is not modelled:
it comes with the step (`Answer`).

The handles that no call uses and nothing else has may be finalized. How far the finalizer of a
handle has come is part of the handle. The native calls are recorded with what was true when they
were made (`NativeCall`), which no code reads.
-/

namespace OtgMaster.ExFat

inductive Finalizer
  /-- It has not been started. -/
  | idle
  /-- At `if (isClosed || isRoot) return`. -/
  | checking
  /-- At `isClosed = true`. -/
  | closing
  /-- At `if (isUnmounted) return` of `releaseNodeLater`. -/
  | releasing
  /-- At `pendingReleases.offer(nodePtr)`. -/
  | offering
  | over
  deriving DecidableEq

/-- An `ExFatFile`. Its node pointer is known by the handle. -/
structure Handle where
  parent : Option ℕ
  isDirectory : Bool
  isClosed : Bool
  dirty : Bool
  /-- Something outside of the calls that are under way has the handle. -/
  reachable : Bool
  finalizer : Finalizer
  /-- How often its reference on the node has been released. -/
  released : ℕ
  deriving DecidableEq

def Handle.new (parent : Option ℕ) (isDirectory reachable : Bool) : Handle :=
  ⟨parent, isDirectory, false, false, reachable, .idle, 0⟩

instance : Inhabited Handle := ⟨.new none false false⟩

def Handle.isRoot (h : Handle) : Bool := h.parent.isNone

/-- The functions of `ExFatNative` that are given the volume pointer. -/
inductive Fn
  | getRootNode | getLabel | getFreeSpace | readDir | readFile | writeFile | setLength | createFile
      | createDirectory
  | rename | deleteNode | flush | putNode | unmount
  deriving DecidableEq

structure NativeCall where
  fn : Fn
  mounted : Bool
  handle : Option ℕ
  /-- How often the reference of that handle had been released. -/
  released : ℕ
  deriving DecidableEq

/-- An element of `pendingReleases`: `STOP_RELEASER`, or the node pointer of a handle. -/
inductive Entry
  | stop
  | node (handle : ℕ)
  deriving DecidableEq

inductive Releaser
  | waiting
  /-- It has taken the node pointer of the handle. -/
  | holding (handle : ℕ)
  | stopped
  deriving DecidableEq

inductive Step
  /-- `checkNotClosed()`, or the `if (isClosed) return` of `flush` and `close`. -/
  | check (h : ℕ)
  /-- `if (isDirectory) throw`. -/
  | checkFile (h : ℕ)
  /-- `if (!isDirectory) throw`. -/
  | checkDirectory (h : ℕ)
  /-- `if (isRoot) throw`. -/
  | checkNotRoot (h : ℕ)
  | checkWritable
  /-- The getter of `absolutePath`. -/
  | checkPath (h : ℕ)
  /-- `parent?.absolutePath`. -/
  | checkParentPath (h : ℕ)
  /-- `if (isDirectory) listFiles().forEach { it.delete() }`, up to the listing. -/
  | descend (h : ℕ)
  | getRootNode
  | getLabel
  | getFreeSpace
  /-- The listing of a directory, in `delete` or for the caller. -/
  | readDir (h : ℕ) (delete : Bool)
  | readFile (h : ℕ)
  /-- The loop of `write`, with `left` bytes to go. -/
  | writeFile (h : ℕ) (left : ℕ)
  | setLength (h : ℕ)
  | create (fn : Fn)
  | rename (h : ℕ)
  | deleteNode (h : ℕ)
  | setDirty (h : ℕ)
  | flush (h : ℕ)
  | close (h : ℕ)
  | unmount
  | clear
  | offerStop
  | interrupt
  deriving DecidableEq

structure Fs where
  readOnly : Bool
  isUnmounted : Bool
  handles : List Handle
  pendingReleases : List Entry
  releaser : Releaser
  interrupted : Bool
  /-- What the calls that have been started have still to do. -/
  calls : List (List Step)
  /-- `exfat_unmount` has freed the volume. -/
  freed : Bool
  natives : List NativeCall

def mounted (readOnly : Bool) : Fs := ⟨readOnly, false, [], [], .waiting, false, [], false, []⟩

/-- What a native call returns: a number, or for the nodes of a directory which of them are
directories. -/
structure Answer where
  n : ℤ
  nodes : Option (List Bool)

namespace Fs

variable (s : Fs)

def handle (i : ℕ) : Handle := s.handles.getD i default

def update (i : ℕ) (f : Handle → Handle) : Fs := { s with handles := s.handles.modify i f }

def native (fn : Fn) : Fs := { s with natives := s.natives ++ [⟨fn, !s.freed, none, 0⟩] }

def nativeNode (fn : Fn) (i : ℕ) : Fs :=
  { s with natives := s.natives ++ [⟨fn, !s.freed, some i, (s.handle i).released⟩] }

def putNode (i : ℕ) : Fs :=
  (s.nativeNode .putNode i).update i fun h => { h with released := h.released + 1 }

/-- `checkNotClosed()` of the handle or of one of its parents fails. -/
def pathClosed : ℕ → ℕ → Bool
  | 0, _ => false
  | depth + 1, i => (s.handle i).isClosed || (s.handle i).parent.any (pathClosed depth)

/-- The getter of `absolutePath` fails. -/
def noPath (i : ℕ) : Bool := s.pathClosed (s.handles.length + 1) i

def addListing (parent : ℕ) (nodes : List Bool) (reachable : Bool) : Fs :=
  { s with handles := s.handles ++ nodes.map (Handle.new (some parent) · reachable) }

/-- `pendingReleases.offer`: a queue that is full drops the entry. -/
def offer (e : Entry) : Fs :=
  if s.pendingReleases.length < 512 then { s with pendingReleases := s.pendingReleases ++ [e] } else s

end Fs

/-! ### The steps -/

def listFiles (h : ℕ) (delete : Bool) : List Step := [.check h, .checkDirectory h, .readDir h delete]

def delete (h : ℕ) : List Step :=
  [.check h, .checkNotRoot h, .checkWritable, .descend h, .deleteNode h, .setDirty h]

def goOn (s : Fs) (more : List Step) : Fs × Option (List Step) := (s, some more)

def leave (s : Fs) : Fs × Option (List Step) := (s, none)

def orLeave (leaves : Bool) (s : Fs) : Fs × Option (List Step) := if leaves then leave s else goOn s []

def withNative (s : Fs) (body : Fs × Option (List Step)) : Fs × Option (List Step) :=
  if s.isUnmounted then leave s else body

/-- A step: the file system after it, and what the call has to do before it goes on, if it does. -/
def Step.exec (s : Fs) (a : Answer) : Step → Fs × Option (List Step)
  | .check h => orLeave (s.handle h).isClosed s
  | .checkFile h => orLeave ((s.handle h).isClosed || (s.handle h).isDirectory) s
  | .checkDirectory h => orLeave ((s.handle h).isClosed || !(s.handle h).isDirectory) s
  | .checkNotRoot h => orLeave (s.handle h).isRoot s
  | .checkWritable => orLeave s.readOnly s
  | .checkPath h => orLeave (s.noPath h) s
  | .checkParentPath h => orLeave ((s.handle h).parent.any s.noPath) s
  | .descend h =>
    if (s.handle h).isClosed then leave s
    else goOn s (if (s.handle h).isDirectory then listFiles h true else [])
  | .getRootNode =>
    if s.handles.any (·.isRoot) then goOn s []
    else withNative s
      (goOn { s.native .getRootNode with handles := s.handles ++ [.new none true true] } [])
  | .getLabel => if s.isUnmounted then leave s else leave (s.native .getLabel)
  | .getFreeSpace => if s.isUnmounted then leave s else leave (s.native .getFreeSpace)
  | .readDir h delete => withNative s <|
    let s := s.nativeNode .readDir h
    match a.nodes with
    | none => leave s
    | some nodes =>
      goOn (s.addListing h nodes !delete)
        (if delete then (List.range' s.handles.length nodes.length).flatMap ExFat.delete else [])
  | .readFile h => withNative s (orLeave (a.n < 0) (s.nativeNode .readFile h))
  | .writeFile h left =>
    if left = 0 then goOn s []
    else withNative s <|
      if a.n ≤ 0 then leave (s.nativeNode .writeFile h)
      else goOn (s.nativeNode .writeFile h) [.writeFile h (left - a.n.toNat)]
  | .setLength h => withNative s (orLeave (a.n ≠ 0) (s.nativeNode .setLength h))
  | .create fn => withNative s (orLeave (a.n ≠ 0) (s.native fn))
  | .rename h => withNative s (if s.noPath h then leave s else orLeave (a.n ≠ 0) (s.native .rename))
  | .deleteNode h => withNative s (orLeave (a.n ≠ 0) (s.nativeNode .deleteNode h))
  | .setDirty h => goOn (s.update h fun f => { f with dirty := true }) []
  | .flush h =>
    leave (if (s.handle h).isClosed || s.isUnmounted || s.readOnly then s else s.native .flush)
  | .close h =>
    if (s.handle h).isClosed then leave s
    else if s.isUnmounted then leave (s.update h fun f => { f with isClosed := true })
    else
      let flushed := if (s.handle h).dirty then s.native .flush else s
      let closed := flushed.update h fun f => { f with isClosed := true, dirty := false }
      leave (if (s.handle h).isRoot then closed else closed.putNode h)
  | .unmount =>
    if s.isUnmounted then leave s
    else
      let s := { s with isUnmounted := true }
      let s := if s.readOnly then s else s.native .flush
      goOn { s.native .unmount with freed := true } []
  | .clear => goOn { s with pendingReleases := [] } []
  | .offerStop => goOn (s.offer .stop) []
  | .interrupt => goOn { s with interrupted := true } []

/-! ### The calls -/

inductive Op
  | rootDirectory
  | volumeLabel
  | freeSpace
  /-- A getter: `name`, `length`, `isDirectory` or a time. -/
  | attribute (h : ℕ)
  | absolutePath (h : ℕ)
  | listFiles (h : ℕ)
  | read (h : ℕ)
  | write (h : ℕ) (size : ℕ)
  | setLength (h : ℕ)
  | setName (h : ℕ)
  | moveTo (h destination : ℕ)
  | createFile (h : ℕ)
  | createDirectory (h : ℕ)
  | delete (h : ℕ)
  | flush (h : ℕ)
  | close (h : ℕ)
  | unmount
  deriving DecidableEq

def Op.handles : Op → List ℕ
  | .rootDirectory | .volumeLabel | .freeSpace | .unmount => []
  | .attribute h | .absolutePath h | .listFiles h | .read h | .write h _ | .setLength h | .setName h
      | .createFile h
  | .createDirectory h | .delete h | .flush h | .close h => [h]
  | .moveTo h destination => [h, destination]

/-- `create`, and the listing in which the new file is looked up. -/
def create (fn : Fn) (h : ℕ) : List Step :=
  [.check h, .checkWritable, .checkDirectory h, .checkPath h, .create fn, .setDirty h, .check h,
    .checkDirectory h] ++
    ExFat.listFiles h false

def Op.steps : Op → List Step
  | .rootDirectory => [.getRootNode]
  | .volumeLabel => [.getLabel]
  | .freeSpace => [.getFreeSpace]
  | .attribute h => [.check h]
  | .absolutePath h => [.checkPath h]
  | .listFiles h => ExFat.listFiles h false
  | .read h => [.check h, .checkFile h, .readFile h]
  | .write h size => [.check h, .checkWritable, .checkFile h, .writeFile h size, .setDirty h]
  | .setLength h => [.check h, .checkFile h, .checkWritable, .setLength h, .setDirty h]
  | .setName h => [.check h, .checkWritable, .checkParentPath h, .rename h, .setDirty h]
  | .moveTo h destination => [.check h, .checkWritable, .checkPath destination, .check h, .rename h,
      .setDirty h]
  | .createFile h => ExFat.create .createFile h
  | .createDirectory h => ExFat.create .createDirectory h
  | .delete h => ExFat.delete h
  | .flush h => [.check h, .flush h]
  | .close h => [.check h, .close h]
  | .unmount => [.unmount, .clear, .offerStop, .interrupt]

def Step.on : Step → Option ℕ
  | .check h | .checkFile h | .checkDirectory h | .checkNotRoot h | .checkPath h | .checkParentPath
      h | .descend h
  | .readDir h _ | .readFile h | .writeFile h _ | .setLength h | .rename h | .deleteNode h
      | .setDirty h | .flush h
  | .close h => some h
  | .checkWritable | .getRootNode | .getLabel | .getFreeSpace | .create _ | .unmount | .clear
      | .offerStop
  | .interrupt => none

/-! ### Runs -/

inductive Act
  | start (op : Op)
  | run (t : ℕ) (a : Answer)
  | drop (h : ℕ)
  /-- The finalizer of the handle makes a step; the first one is made when nothing has the
  handle. -/
  | finalize (h : ℕ)
  | take
  /-- The section of the lock in the releaser. -/
  | release

def finalizeStep (s : Fs) (h : ℕ) : Option Fs :=
  let f := s.handle h
  let become (x : Finalizer) := s.update h fun f => { f with finalizer := x }
  match f.finalizer with
  | .idle =>
    if h < s.handles.length ∧ f.reachable = false ∧ ∀ call ∈ s.calls, ∀ m ∈ call, m.on ≠ some h then
      some (become .checking)
    else none
  | .checking => some (become (if f.isClosed || f.isRoot then .over else .closing))
  | .closing => some (s.update h fun f => { f with isClosed := true, finalizer := .releasing })
  | .releasing => some (become (if s.isUnmounted then .over else .offering))
  | .offering => some ((become .over).offer (.node h))
  | .over => none

def step (s : Fs) : Act → Option Fs
  | .start op =>
    if ∀ h ∈ op.handles, (s.handle h).reachable = true then
      some { s with calls := s.calls ++ [op.steps] }
    else none
  | .run t a =>
    match s.calls[t]? with
    | some (m :: rest) =>
      let r := m.exec s a
      some { r.1 with calls := s.calls.set t (r.2.elim [] (· ++ rest)) }
    | _ => none
  | .drop h => some (s.update h fun f => { f with reachable := false })
  | .finalize h => finalizeStep s h
  | .take =>
    if s.releaser = .waiting then
      if s.interrupted then some { s with releaser := .stopped }
      else match s.pendingReleases with
        | [] => none
        | .stop :: queue => some { s with releaser := .stopped, pendingReleases := queue }
        | .node h :: queue => some { s with releaser := .holding h, pendingReleases := queue }
    else none
  | .release =>
    match s.releaser with
    | .holding h => some { (if s.isUnmounted then s else s.putNode h) with releaser := .waiting }
    | _ => none

end OtgMaster.ExFat
