import OtgMaster.ExFat.Handles
import Mathlib.Data.List.Count
import Mathlib.Data.List.Flatten
import Mathlib.Data.List.GetD

/-!
What holds in every interleaving of the calls, the finalizers and the releaser.

No native call is made after the unmount, because every section of the lock looks at `isUnmounted`
first, and every handle releases its reference at most once: `close` looks at `isClosed` again in
its section, and a handle that is being finalized is one that no call has (`Owned`).

The third property is not one of the code. `read`, `write`, the setter of `length` and `delete` look
at `isClosed` before they wait for the lock and not again, so that a `close` in between takes their
reference away. It holds in the runs in which a `close` is alone with its handle (`Alone`).
-/

namespace OtgMaster.ExFat

open Lib

/-! ### Calls that have passed their check -/

def Step.uses : Step → Option ℕ
  | .readDir h _ | .readFile h | .writeFile h _ | .setLength h | .deleteNode h => some h
  | _ => none

def Step.checks (m : Step) (i : ℕ) : Bool :=
  match m with
  | .check h | .checkFile h | .checkDirectory h | .checkPath h | .descend h | .rename h => h = i
  | _ => false

/-- The call will pass the node pointer of the handle on, whether it is closed by then or not. -/
def exposed (i : ℕ) : List Step → Bool
  | [] => false
  | m :: rest => !m.checks i && (decide (m.uses = some i) || exposed i rest)

def closing (s : Fs) : Act → Option ℕ
  | .run t _ =>
    match s.calls[t]? with
    | some (.close h :: _) => some h
    | _ => none
  | _ => none

/-- A `close` that releases the reference of a handle is alone with it: no call that has passed its
check is still to use the node pointer. -/
def Alone (s : Fs) (act : Act) : Prop :=
  ∀ h ∈ closing s act, (s.handle h).isClosed = false → (s.handle h).isRoot = false →
  s.isUnmounted = false →
    ∀ call ∈ s.calls, exposed h call = false

instance (s : Fs) (act : Act) : Decidable (Alone s act) :=
  inferInstanceAs (Decidable (∀ h ∈ closing s act, _))

variable {s s' : Fs} {a : Answer} {m m' : Step} {i j h : ℕ} {call rest more : List Step}

lemma exposed_of_not_on (hcall : ∀ m ∈ call, m.on ≠ some i) : exposed i call = false := by
  induction call with
  | nil => rfl
  | cons m rest ih =>
    have hm := hcall m List.mem_cons_self
    have huses : m.uses ≠ some i := by
      intro h
      cases m <;> simp_all [Step.uses, Step.on]
    rw [exposed, ih fun m' hm' => hcall m' (List.mem_cons_of_mem _ hm')]
    simp [huses]

lemma exposed_append (hmore : ∀ m ∈ more, m.on ≠ some i) :
    exposed i (more ++ rest) = exposed i rest := by
  induction more with
  | nil => rfl
  | cons m more ih =>
    have hm := hmore m List.mem_cons_self
    have huses : m.uses ≠ some i ∧ m.checks i = false := by
      cases m <;> simp_all [Step.uses, Step.checks, Step.on]
    rw [List.cons_append, exposed, ih fun m' hm' => hmore m' (List.mem_cons_of_mem _ hm')]
    simp [huses]

lemma exposed_steps (op : Op) (i : ℕ) : exposed i op.steps = false := by
  cases op <;> simp [Op.steps, create, listFiles, delete, exposed, Step.checks, Step.uses]

lemma mem_handles_of_on {op : Op} (hm : m ∈ op.steps) (hon : m.on = some i) : i ∈ op.handles := by
  have hall : ∀ m ∈ op.steps, ∀ i, m.on = some i → i ∈ op.handles := by
    cases op <;> simp [Op.steps, create, listFiles, delete, Op.handles, Step.on]
  exact hall m hm i hon

/-! ### The handles of a file system -/

lemma handle_update (f : Handle → Handle) :
    (s.update i f).handle j = if j = i ∧ i < s.handles.length then f (s.handle i) else s.handle j := by
  unfold Fs.update Fs.handle
  simp only [List.getD_eq_getElem?_getD, List.getElem?_modify]
  by_cases hj : j = i
  · subst hj
    by_cases hlt : j < s.handles.length
    · simp [hlt]
    · simp [hlt]
  · simp [hj, Ne.symm hj]

lemma handle_putNode : (s.putNode i).handle j =
    if j = i ∧ i < s.handles.length then { s.handle i with released := (s.handle i).released + 1 }
      else s.handle j :=
  handle_update (s := s.nativeNode .putNode i) _

lemma length_update (f : Handle → Handle) : (s.update i f).handles.length = s.handles.length :=
  List.length_modify ..

lemma handle_of_le (hi : s.handles.length ≤ i) : s.handle i = .new none false false := by
  unfold Fs.handle
  rw [List.getD_eq_getElem?_getD, List.getElem?_eq_none hi]
  rfl

lemma lt_of_isClosed (hi : (s.handle i).isClosed = true) : i < s.handles.length := by
  by_contra hle
  rw [handle_of_le (Nat.le_of_not_lt hle)] at hi
  cases hi

lemma lt_of_finalizer (hi : (s.handle i).finalizer ≠ .idle) : i < s.handles.length := by
  by_contra hle
  rw [handle_of_le (Nat.le_of_not_lt hle)] at hi
  exact hi rfl

lemma noPath_of_isClosed (hi : (s.handle i).isClosed = true) : s.noPath i = true := by
  simp [Fs.noPath, Fs.pathClosed, hi]

/-! ### What a step does -/

/-- A step that releases nothing: nothing changes that the protocol rests on, but that handles are
added. The native calls that it makes are made on a mounted volume and pass on the node pointer of
`use` at most. -/
structure Quiet (use : Option ℕ) (s s' : Fs) : Prop where
  isUnmounted : s'.isUnmounted = s.isUnmounted
  freed : s'.freed = s.freed
  releaser : s'.releaser = s.releaser
  queue : ∀ i, s'.pendingReleases.count (.node i) ≤ s.pendingReleases.count (.node i)
  isClosed : ∀ i, (s'.handle i).isClosed = (s.handle i).isClosed
  finalizer : ∀ i, (s'.handle i).finalizer = (s.handle i).finalizer
  released : ∀ i, (s'.handle i).released = (s.handle i).released
  reachable : ∀ i < s.handles.length, (s'.handle i).reachable = (s.handle i).reachable
  natives : ∀ c ∈ s'.natives, c ∈ s.natives ∨ s.isUnmounted = false ∧ c.mounted = !s.freed ∧
    (c.released = 0 ∨ ∃ h ∈ use, c.released = (s.handle h).released)

namespace Quiet

variable {use : Option ℕ}

lemma of_natives {natives : List NativeCall}
    (hnatives : ∀ c ∈ natives, c ∈ s.natives ∨ s.isUnmounted = false ∧ c.mounted = !s.freed ∧
      (c.released = 0 ∨ ∃ h ∈ use, c.released = (s.handle h).released)) :
    Quiet use s { s with natives := natives } where
  isUnmounted := rfl
  freed := rfl
  releaser := rfl
  queue _ := Nat.le_refl _
  isClosed _ := rfl
  finalizer _ := rfl
  released _ := rfl
  reachable _ _ := rfl
  natives := hnatives

lemma refl : Quiet use s s := of_natives fun _ hc => .inl hc

lemma native (hs : s.isUnmounted = false) (fn : Fn) : Quiet use s (s.native fn) := by
  refine of_natives fun c hc => ?_
  rcases List.mem_append.1 hc with hc | hc
  · exact .inl hc
  · rw [List.mem_singleton.1 hc]
    exact .inr ⟨hs, rfl, .inl rfl⟩

lemma nativeNode (hs : s.isUnmounted = false) (fn : Fn) (i : ℕ) :
    Quiet (some i) s (s.nativeNode fn i) := by
  refine of_natives fun c hc => ?_
  rcases List.mem_append.1 hc with hc | hc
  · exact .inl hc
  · rw [List.mem_singleton.1 hc]
    exact .inr ⟨hs, rfl, .inr ⟨i, rfl, rfl⟩⟩

lemma of_queue {queue : List Entry} (interrupted : Bool)
    (hqueue : ∀ i, queue.count (.node i) ≤ s.pendingReleases.count (.node i)) :
    Quiet use s { s with pendingReleases := queue, interrupted := interrupted } where
  isUnmounted := rfl
  freed := rfl
  releaser := rfl
  queue := hqueue
  isClosed _ := rfl
  finalizer _ := rfl
  released _ := rfl
  reachable _ _ := rfl
  natives _ hc := .inl hc

lemma append {new : List Handle} (hq : Quiet use s s') (hhandles : s'.handles = s.handles)
    (hnew : ∀ f ∈ new, f.isClosed = false ∧ f.finalizer = .idle ∧ f.released = 0) :
    Quiet use s { s' with handles := s'.handles ++ new } := by
  have hold (i : ℕ) (hi : i < s.handles.length) :
      { s' with handles := s'.handles ++ new }.handle i = s.handle i := by
    unfold Fs.handle
    rw [hhandles]
    exact List.getD_append _ _ _ _ hi
  have hfresh (i : ℕ) (hi : ¬i < s.handles.length) :
      let f := { s' with handles := s'.handles ++ new }.handle i
      f.isClosed = false ∧ f.finalizer = .idle ∧ f.released = 0 := by
    unfold Fs.handle
    rw [hhandles]
    dsimp only
    rw [List.getD_append_right _ _ _ _ (Nat.le_of_not_lt hi), List.getD_eq_getElem?_getD]
    cases hget : new[i - s.handles.length]? with
    | none => exact ⟨rfl, rfl, rfl⟩
    | some f => exact hnew f (List.mem_of_getElem? hget)
  have hnone (i : ℕ) (hi : ¬i < s.handles.length) := handle_of_le (Nat.le_of_not_lt hi)
  constructor
  case isUnmounted => exact hq.isUnmounted
  case freed => exact hq.freed
  case releaser => exact hq.releaser
  case queue => exact hq.queue
  case natives => exact hq.natives
  case reachable =>
    intro i hi
    rw [hold i hi]
  all_goals
    intro i
    by_cases hi : i < s.handles.length
    · rw [hold i hi]
    · rw [hnone i hi]
      simp [hfresh i hi, Handle.new]

lemma dirty (i : ℕ) (value : Bool) : Quiet use s (s.update i fun f => { f with dirty := value }) := by
  constructor
  case natives =>
    intro c hc
    exact .inl hc
  case queue =>
    intro _
    exact Nat.le_refl _
  all_goals first | rfl | skip
  all_goals
    intros
    rw [handle_update]
    split <;> simp_all

end Quiet

@[simp] lemma orLeave_fst (b : Bool) : (orLeave b s).1 = s := by
  unfold orLeave
  split <;> rfl

lemma Quiet.withNative {use : Option ℕ} {body : Fs × Option (List Step)}
    (hbody : s.isUnmounted = false → Quiet use s body.1) : Quiet use s (withNative s body).1 := by
  unfold ExFat.withNative
  split
  · exact .refl
  · rename_i hs
    exact hbody (Bool.not_eq_true _ ▸ hs)

/-- All steps are quiet ones but the sections of `close` and `unmount`. -/
lemma exec_quiet (hclose : ∀ h, m ≠ .close h) (hunmount : m ≠ .unmount) :
    Quiet m.uses s (m.exec s a).1 := by
  cases m with
  | close h => exact absurd rfl (hclose h)
  | unmount => exact absurd rfl hunmount
  | check | checkFile | checkDirectory | checkNotRoot | checkWritable | checkPath | checkParentPath =>
    rw [Step.exec, orLeave_fst]
    exact .refl
  | descend h =>
    rw [Step.exec]
    split <;> exact .refl
  | getRootNode =>
    rw [Step.exec]
    split
    · exact .refl
    · refine .withNative fun hs => (Quiet.native hs _).append rfl ?_
      simp [Handle.new]
  | getLabel | getFreeSpace =>
    rw [Step.exec]
    split
    · exact .refl
    · rename_i hs
      exact .native (Bool.not_eq_true _ ▸ hs) _
  | readDir h delete =>
    refine .withNative fun hs => ?_
    cases a.nodes with
    | none => exact .nativeNode hs _ _
    | some nodes =>
      refine (Quiet.nativeNode hs _ _).append rfl fun f hf => ?_
      obtain ⟨isDirectory, -, rfl⟩ := List.mem_map.1 hf
      exact ⟨rfl, rfl, rfl⟩
  | readFile h | setLength h | deleteNode h =>
    refine .withNative fun hs => ?_
    rw [orLeave_fst]
    exact .nativeNode hs _ _
  | writeFile h left =>
    rw [Step.exec]
    split
    · exact .refl
    · refine .withNative fun hs => ?_
      split <;> exact .nativeNode hs _ _
  | create fn =>
    refine .withNative fun hs => ?_
    rw [orLeave_fst]
    exact .native hs _
  | rename h =>
    refine .withNative fun hs => ?_
    split
    · exact .refl
    · rw [orLeave_fst]
      exact .native hs _
  | setDirty h => exact .dirty h true
  | flush h =>
    rw [Step.exec]
    unfold leave
    split
    · exact .refl
    · rename_i hs
      simp only [Bool.or_eq_true, not_or, Bool.not_eq_true] at hs
      exact .native hs.1.2 _
  | clear => exact .of_queue s.interrupted fun _ => by simp
  | offerStop =>
    simp only [Step.exec, goOn, Fs.offer]
    split
    · exact .of_queue s.interrupted fun _ => by simp
    · exact .refl
  | interrupt => exact .of_queue true fun _ => Nat.le_refl _

lemma orLeave_some {b : Bool} (hgo : (orLeave b s).2 = some more) : b = false ∧ more = [] := by
  cases b
  · exact ⟨rfl, (Option.some.inj hgo).symm⟩
  · cases hgo

lemma withNative_some {body : Fs × Option (List Step)} (hgo : (withNative s body).2 = some more) :
    body.2 = some more := by
  unfold ExFat.withNative at hgo
  split at hgo
  · cases hgo
  · exact hgo

lemma exec_close_snd : ((Step.close h).exec s a).2 = none := by
  rw [Step.exec]
  split
  · rfl
  · split <;> rfl

lemma exec_more (hgo : (m.exec s a).2 = some more) :
    (more = [] ∧ ∀ i, m.checks i = true → (s.handle i).isClosed = false) ∨
    (∃ h, m = .descend h ∧ (s.handle h).isClosed = false ∧ more = listFiles h true) ∨
    (∃ h left left', m = .writeFile h left ∧ more = [.writeFile h left']) ∨
    ∃ h n, m = .readDir h true ∧ more = (List.range' s.handles.length n).flatMap delete := by
  have hplain (hmore : more = []) (hchecks : ∀ i, m.checks i = false) :
      more = [] ∧ ∀ i, m.checks i = true → (s.handle i).isClosed = false :=
    ⟨hmore, fun i hi => absurd hi (by simp [hchecks i])⟩
  cases m with
  | check h | checkFile h | checkDirectory h =>
    obtain ⟨hopen, hmore⟩ := orLeave_some hgo
    refine .inl ⟨hmore, fun i hi => ?_⟩
    simp_all [Step.checks]
  | checkPath h =>
    obtain ⟨hpath, hmore⟩ := orLeave_some hgo
    refine .inl ⟨hmore, fun i hi => ?_⟩
    have hi : h = i := by simpa [Step.checks] using hi
    by_contra hclosed
    rw [hi, noPath_of_isClosed (by simpa using hclosed)] at hpath
    cases hpath
  | checkNotRoot h => exact .inl (hplain (orLeave_some hgo).2 fun _ => rfl)
  | checkWritable => exact .inl (hplain (orLeave_some hgo).2 fun _ => rfl)
  | checkParentPath h => exact .inl (hplain (orLeave_some hgo).2 fun _ => rfl)
  | descend h =>
    rw [Step.exec] at hgo
    split at hgo
    · cases hgo
    · rename_i hopen
      have hopen : (s.handle h).isClosed = false := by simpa using hopen
      have hmore := (Option.some.inj hgo).symm
      split at hmore
      · exact .inr (.inl ⟨h, rfl, hopen, hmore⟩)
      · refine .inl ⟨hmore, fun i hi => ?_⟩
        rwa [show h = i by simpa [Step.checks] using hi] at hopen
  | getRootNode =>
    rw [Step.exec] at hgo
    split at hgo
    · exact .inl (hplain (Option.some.inj hgo).symm fun _ => rfl)
    · exact .inl (hplain (Option.some.inj (withNative_some hgo)).symm fun _ => rfl)
  | getLabel | getFreeSpace =>
    rw [Step.exec] at hgo
    split at hgo <;> cases hgo
  | readDir h delete =>
    have hgo := withNative_some hgo
    cases hnodes : a.nodes with
    | none =>
      rw [hnodes] at hgo
      cases hgo
    | some nodes =>
      rw [hnodes] at hgo
      have hmore := (Option.some.inj hgo).symm
      cases delete
      · exact .inl (hplain hmore fun _ => rfl)
      · exact .inr (.inr (.inr ⟨h, nodes.length, rfl, hmore⟩))
  | readFile h | setLength h | deleteNode h =>
    exact .inl (hplain (orLeave_some (withNative_some hgo)).2 fun _ => rfl)
  | writeFile h left =>
    rw [Step.exec] at hgo
    split at hgo
    · exact .inl (hplain (Option.some.inj hgo).symm fun _ => rfl)
    · have hgo := withNative_some hgo
      split at hgo
      · cases hgo
      · exact .inr (.inr (.inl ⟨h, left, _, rfl, (Option.some.inj hgo).symm⟩))
  | create fn => exact .inl (hplain (orLeave_some (withNative_some hgo)).2 fun _ => rfl)
  | rename h =>
    have hgo := withNative_some hgo
    split at hgo
    · cases hgo
    · rename_i hpath
      refine .inl ⟨(orLeave_some hgo).2, fun i hi => ?_⟩
      have hi : h = i := by simpa [Step.checks] using hi
      by_contra hclosed
      rw [hi, noPath_of_isClosed (by simpa using hclosed)] at hpath
      exact hpath rfl
  | setDirty h => exact .inl (hplain (Option.some.inj hgo).symm fun _ => rfl)
  | flush h => cases hgo
  | close h =>
    rw [exec_close_snd] at hgo
    cases hgo
  | unmount =>
    rw [Step.exec] at hgo
    split at hgo
    · cases hgo
    · exact .inl (hplain (Option.some.inj hgo).symm fun _ => rfl)
  | clear => exact .inl (hplain (Option.some.inj hgo).symm fun _ => rfl)
  | offerStop => exact .inl (hplain (Option.some.inj hgo).symm fun _ => rfl)
  | interrupt => exact .inl (hplain (Option.some.inj hgo).symm fun _ => rfl)

lemma on_delete (hm : m ∈ delete h) (hon : m.on = some i) : i = h := by
  simp only [delete, List.mem_cons, List.not_mem_nil, or_false] at hm
  rcases hm with rfl | rfl | rfl | rfl | rfl | rfl <;> simp_all [Step.on]

variable {n : ℕ} {f : Handle} {busy : Prop} {t : ℕ}

lemma le_of_on_children {k : ℕ} (hm : m ∈ (List.range' n k).flatMap delete) (hon : m.on = some i) :
    n ≤ i := by
  obtain ⟨c, hc, hm⟩ := List.mem_flatMap.1 hm
  rw [on_delete hm hon]
  exact (List.mem_range'_1.1 hc).1

lemma on_more (hgo : (m.exec s a).2 = some more) (hm' : m' ∈ more) (hon : m'.on = some i) :
    m.on = some i ∨ s.handles.length ≤ i := by
  rcases exec_more hgo with ⟨rfl, -⟩ | ⟨h, rfl, -, rfl⟩ | ⟨h, left, left', rfl, rfl⟩ | ⟨h, n, rfl, rfl⟩
  · cases hm'
  · simp only [listFiles, List.mem_cons, List.not_mem_nil, or_false] at hm'
    rcases hm' with rfl | rfl | rfl <;> exact .inl hon
  · rw [List.mem_singleton.1 hm'] at hon
    exact .inl hon
  · exact .inr (le_of_on_children hm' hon)

/-- A call that is not exposed at a closed handle does not become so. -/
lemma exposed_more (hgo : (m.exec s a).2 = some more) (hclosed : (s.handle i).isClosed = true)
    (hexposed : exposed i (m :: rest) = false) : exposed i (more ++ rest) = false := by
  have hrest (hchecks : m.checks i = false) : m.uses ≠ some i ∧ exposed i rest = false := by
    simpa [exposed, hchecks] using hexposed
  rcases exec_more hgo with ⟨rfl, hopen⟩ | ⟨h, rfl, hopen, rfl⟩ | ⟨h, left, left', rfl, rfl⟩ | ⟨h,
    n, rfl, rfl⟩
  · refine (hrest ?_).2
    by_contra hchecks
    rw [hopen i (by simpa using hchecks)] at hclosed
    cases hclosed
  · have hne : h ≠ i := by
      rintro rfl
      rw [hopen] at hclosed
      cases hclosed
    rw [exposed_append]
    · exact (hrest (by simp [Step.checks, hne])).2
    · simp [listFiles, Step.on, hne]
  · rw [exposed_append]
    · exact (hrest rfl).2
    · simpa [Step.on, Step.uses] using (hrest rfl).1
  · rw [exposed_append]
    · exact (hrest rfl).2
    · intro m' hm' hon
      exact absurd (lt_of_isClosed hclosed) (Nat.not_lt.2 (le_of_on_children hm' hon))

/-! ### The reference of a handle -/

/-- Some call that is under way is about the handle. -/
def Fs.Busy (s : Fs) (i : ℕ) : Prop := ∃ call ∈ s.calls, ∃ m ∈ call, m.on = some i

/-- Who is to release the reference of a handle: nobody any more, its `close`, its finalizer, or the
releaser, who has its node pointer in the queue (`n` times) or in hand. -/
structure Owned (f : Handle) (n : ℕ) (inHand busy : Prop) : Prop where
  once : f.released ≤ 1
  closed : 0 < f.released → f.isClosed = true
  closing : f.finalizer = .closing → f.isClosed = false
  leaving : f.finalizer = .releasing ∨ f.finalizer = .offering → f.isClosed = true ∧ f.released = 0
  queued : 0 < n → f.finalizer = .over ∧ f.isClosed = true ∧ f.released = 0
  single : n ≤ 1
  held : inHand → f.finalizer = .over ∧ f.isClosed = true ∧ f.released = 0 ∧ n = 0
  alone : f.finalizer ≠ .idle → f.reachable = false ∧ ¬busy

lemma Owned.mono {f' : Handle} {q q' : ℕ} {held held' busy' : Prop} (ho : Owned f q held busy)
    (hclosed : f'.isClosed = f.isClosed) (hreleased : f'.released = f.released)
    (hfinalizer : f'.finalizer = f.finalizer) (hq : q' ≤ q) (hheld : held' → held)
    (halone : f.finalizer ≠ .idle → (f.reachable = false → f'.reachable = false) ∧ (busy' → busy)) :
    Owned f' q' held' busy' := by
  constructor
  · rw [hreleased]
    exact ho.once
  · rw [hreleased, hclosed]
    exact ho.closed
  · rw [hfinalizer, hclosed]
    exact ho.closing
  · rw [hfinalizer, hclosed, hreleased]
    exact ho.leaving
  · rw [hfinalizer, hclosed, hreleased]
    exact fun h => ho.queued (Nat.lt_of_lt_of_le h hq)
  · exact Nat.le_trans hq ho.single
  · rw [hfinalizer, hclosed, hreleased]
    intro h
    obtain ⟨h1, h2, h3, h4⟩ := ho.held (hheld h)
    exact ⟨h1, h2, h3, Nat.le_zero.1 (h4 ▸ hq)⟩
  · rw [hfinalizer]
    intro h
    exact ⟨(halone h).1 (ho.alone h).1, fun hb => (ho.alone h).2 ((halone h).2 hb)⟩

structure Inv (s : Fs) : Prop where
  freed : s.freed = s.isUnmounted
  mounted : ∀ c ∈ s.natives, c.mounted = true
  owned : ∀ i, Owned (s.handle i) (s.pendingReleases.count (.node i)) (s.releaser = .holding i)
    (s.Busy i)

lemma inv_mounted (readOnly : Bool) : Inv (mounted readOnly) where
  freed := rfl
  mounted _ hc := by cases hc
  owned i := by
    have hi : (mounted readOnly).handle i = .new none false false := handle_of_le (Nat.zero_le i)
    rw [hi]
    constructor <;> simp [Handle.new, mounted]

lemma Inv.mounted_of {natives : List NativeCall} (hi : Inv s)
    (hnatives : ∀ c ∈ natives, c ∈ s.natives ∨ s.isUnmounted = false ∧ c.mounted = !s.freed) :
    ∀ c ∈ natives, c.mounted = true := by
  intro c hc
  rcases hnatives c hc with hold | ⟨hs, hnew⟩
  · exact hi.mounted c hold
  · rw [hnew, hi.freed, hs]
    rfl

/-! ### Steps of the calls -/

/-- What a call makes of the calls that are under way: the call number `t` was at `m`, and it goes
on with `more`. -/
lemma busy_set (hcall : s.calls[t]? = some (m :: rest)) (o : Option (List Step))
    (hmore : ∀ more ∈ o, ∀ m' ∈ more, m'.on = some i → m.on = some i)
    (hbusy : ({ s' with calls := s.calls.set t (o.elim [] (· ++ rest)) } : Fs).Busy i) : s.Busy i := by
  obtain ⟨call, hmem, m', hm', hon⟩ := hbusy
  have hold : (m :: rest) ∈ s.calls := List.mem_of_getElem? hcall
  rcases List.mem_or_eq_of_mem_set hmem with hmem | rfl
  · exact ⟨call, hmem, m', hm', hon⟩
  · cases o with
    | none => cases hm'
    | some more =>
      rcases List.mem_append.1 hm' with hm' | hm'
      · exact ⟨_, hold, m, List.mem_cons_self, hmore more rfl m' hm' hon⟩
      · exact ⟨_, hold, m', List.mem_cons_of_mem _ hm', hon⟩

lemma inv_quiet (hi : Inv s) (hcall : s.calls[t]? = some (m :: rest))
    (hq : Quiet m.uses s (m.exec s a).1) :
    Inv { (m.exec s a).1 with calls := s.calls.set t ((m.exec s a).2.elim [] (· ++ rest)) } where
  freed := hq.freed.trans (hi.freed.trans hq.isUnmounted.symm)
  mounted := hi.mounted_of fun c hc => (hq.natives c hc).imp_right fun h => ⟨h.1, h.2.1⟩
  owned i := by
    refine (hi.owned i).mono (hq.isClosed i) (hq.released i) (hq.finalizer i) (hq.queue i) ?_ ?_
    · exact fun h => hq.releaser ▸ h
    · intro hfinal
      have hlt := lt_of_finalizer hfinal
      refine ⟨fun h => (hq.reachable i hlt).trans h, busy_set hcall _ ?_⟩
      intro more hgo m' hm' hon
      exact (on_more hgo hm' hon).resolve_right (Nat.not_le.2 hlt)

/-- What the section of `close` does, on a handle that is open. -/
structure Closes (h : ℕ) (s s' : Fs) : Prop where
  isUnmounted : s'.isUnmounted = s.isUnmounted
  freed : s'.freed = s.freed
  releaser : s'.releaser = s.releaser
  queue : s'.pendingReleases = s.pendingReleases
  other : ∀ i, i ≠ h → s'.handle i = s.handle i
  finalizer : (s'.handle h).finalizer = (s.handle h).finalizer
  reachable : (s'.handle h).reachable = (s.handle h).reachable
  isClosed : (s'.handle h).isClosed = true ∨ s'.handle h = s.handle h
  released : (s'.handle h).released = (s.handle h).released ∨
    (s'.handle h).released = (s.handle h).released + 1 ∧ (s'.handle h).isClosed = true ∧
    (s.handle h).isRoot = false ∧
      s.isUnmounted = false
  natives : ∀ c ∈ s'.natives, c ∈ s.natives ∨ s.isUnmounted = false ∧ c.mounted = !s.freed ∧
    (c.released = 0 ∨ c.released = (s.handle h).released)

lemma exec_close (hopen : (s.handle h).isClosed = false) : Closes h s ((Step.close h).exec s a).1 := by
  rw [Step.exec, if_neg (by simp [hopen])]
  by_cases hs : s.isUnmounted = true
  · rw [if_pos hs]
    constructor
    case other =>
      intro i hne
      rw [leave, handle_update, if_neg fun hi => hne hi.1]
    case natives =>
      intro c hc
      exact .inl hc
    all_goals first | rfl | skip
    all_goals
      rw [leave, handle_update]
      split <;> simp
  rw [if_neg hs]
  have hs : s.isUnmounted = false := by simpa using hs
  -- the flush only adds to the native calls
  obtain ⟨l, hflushed, hl⟩ : ∃ l, (if (s.handle h).dirty then s.native .flush else s) =
    { s with natives := l } ∧
      ∀ c ∈ l, c ∈ s.natives ∨ c.mounted = !s.freed ∧ c.released = 0 := by
    split
    · refine ⟨_, rfl, fun c hc => (List.mem_append.1 hc).imp_right fun hc => ?_⟩
      rw [List.mem_singleton.1 hc]
      exact ⟨rfl, rfl⟩
    · exact ⟨s.natives, rfl, fun c hc => .inl hc⟩
  dsimp only
  rw [hflushed]
  have hsame (i : ℕ) : ({ s with natives := l } : Fs).handle i = s.handle i := rfl
  by_cases hroot : (s.handle h).isRoot = true
  · rw [if_pos hroot, leave]
    constructor
    case other =>
      intro i hne
      rw [handle_update, if_neg fun hi => hne hi.1, hsame]
    case natives =>
      intro c hc
      exact (hl c hc).imp_right fun hc => ⟨hs, hc.1, .inl hc.2⟩
    all_goals first | rfl | skip
    all_goals
      rw [handle_update]
      split <;> simp [hsame]
  · rw [if_neg hroot, leave]
    have hlt : h < s.handles.length := by
      by_contra hle
      rw [handle_of_le (Nat.le_of_not_lt hle)] at hroot
      exact hroot rfl
    have hh (f : Handle → Handle) : (({ s with natives := l } : Fs).update h f).handle h =
        f (s.handle h) := by
      rw [handle_update, if_pos ⟨rfl, by exact hlt⟩, hsame]
    constructor
    case other =>
      intro i hne
      rw [handle_putNode, if_neg fun hi => hne hi.1, handle_update, if_neg fun hi => hne hi.1, hsame]
    case natives =>
      intro c hc
      rcases List.mem_append.1 hc with hc | hc
      · exact (hl c hc).imp_right fun hc => ⟨hs, hc.1, .inl hc.2⟩
      · rw [List.mem_singleton.1 hc]
        exact .inr ⟨hs, rfl, .inr (by rw [hh])⟩
    case isUnmounted | freed | releaser | queue => rfl
    all_goals rw [handle_putNode, if_pos ⟨rfl, by rw [length_update]; exact hlt⟩, hh]
    · exact .inl rfl
    · exact .inr ⟨rfl, rfl, by simpa using hroot, hs⟩

lemma inv_close (hi : Inv s) (hcall : s.calls[t]? = some (.close h :: rest))
    (hopen : (s.handle h).isClosed = false) (hc : Closes h s s') :
    Inv { s' with calls := s.calls.set t [] } where
  freed := hc.freed.trans (hi.freed.trans hc.isUnmounted.symm)
  mounted := hi.mounted_of fun c hmem => (hc.natives c hmem).imp_right fun h => ⟨h.1, h.2.1⟩
  owned i := by
    have hbusy (i : ℕ) (hb : ({ s' with calls := s.calls.set t [] } : Fs).Busy i) : s.Busy i :=
      busy_set hcall none (fun _ h => by cases h) hb
    have hold := hi.owned i
    have hcount : s'.pendingReleases.count (.node i) = s.pendingReleases.count (.node i) := by
      rw [hc.queue]
    by_cases hne : i = h
    swap
    · have hsame : ({ s' with calls := s.calls.set t [] } : Fs).handle i = s.handle i := hc.other i hne
      rw [hsame]
      exact hold.mono rfl rfl rfl (Nat.le_of_eq hcount) (fun h => hc.releaser ▸ h) fun _ => ⟨id, hbusy i⟩
    subst hne
    -- the call is about the handle, so that it is not being finalized and nobody else is to release its reference
    have hidle : (s.handle i).finalizer = .idle := by
      by_contra hfinal
      exact (hold.alone hfinal).2 ⟨_, List.mem_of_getElem? hcall, _, List.mem_cons_self, rfl⟩
    have hidle' : (s'.handle i).finalizer = .idle := hc.finalizer.trans hidle
    have hzero : (s.handle i).released = 0 := by
      by_contra hpos
      have := hold.closed (Nat.pos_of_ne_zero hpos)
      rw [hopen] at this
      cases this
    have hreleased := hc.released
    rw [hzero] at hreleased
    show Owned (s'.handle i) (s'.pendingReleases.count (.node i)) (s'.releaser = .holding i) _
    rw [hcount, hc.releaser]
    constructor
    · rcases hreleased with h | ⟨h, -⟩ <;> omega
    · rcases hreleased with h | ⟨-, h, -⟩
      · omega
      · exact fun _ => h
    · rw [hidle']
      exact fun h => by cases h
    · rw [hidle']
      rintro (h | h) <;> cases h
    · intro hq
      have := (hold.queued hq).1
      rw [hidle] at this
      cases this
    · exact hold.single
    · intro hheld
      have := (hold.held hheld).1
      rw [hidle] at this
      cases this
    · exact fun h => absurd hidle' h

/-- The flag is set and the volume is freed in one section, which flushes it before. -/
lemma exec_unmount (hs : s.isUnmounted = false) :
    ∃ natives, Step.unmount.exec s a =
        goOn { s with isUnmounted := true, freed := true, natives := natives } [] ∧
      ∀ c ∈ natives, c ∈ s.natives ∨ c.mounted = !s.freed ∧ c.released = 0 := by
  rw [Step.exec, if_neg (by simp [hs])]
  by_cases hro : s.readOnly = true
  · refine ⟨s.natives ++ [⟨.unmount, !s.freed, none, 0⟩], by simp [hro, Fs.native], fun c hc => ?_⟩
    refine (List.mem_append.1 hc).imp_right fun hc => ?_
    rw [List.mem_singleton.1 hc]
    exact ⟨rfl, rfl⟩
  · refine ⟨s.natives ++ [⟨.flush, !s.freed, none, 0⟩] ++ [⟨.unmount, !s.freed, none, 0⟩],
      by simp [hro, Fs.native],
      fun c hc => ?_⟩
    rw [List.append_assoc] at hc
    refine (List.mem_append.1 hc).imp_right fun hc => ?_
    simp only [List.cons_append, List.nil_append, List.mem_cons, List.not_mem_nil, or_false] at hc
    rcases hc with rfl | rfl <;> exact ⟨rfl, rfl⟩

lemma inv_run (hi : Inv s) (hcall : s.calls[t]? = some (m :: rest)) :
    Inv { (m.exec s a).1 with calls := s.calls.set t ((m.exec s a).2.elim [] (· ++ rest)) } := by
  by_cases hunmount : m = .unmount
  · subst hunmount
    by_cases hs : s.isUnmounted = true
    · refine inv_quiet hi hcall ?_
      rw [Step.exec, if_pos hs]
      exact .refl
    obtain ⟨natives, hexec, hnatives⟩ := exec_unmount (a := a) (s := s) (by simpa using hs)
    rw [hexec]
    refine ⟨rfl, hi.mounted_of fun c hc => ?_, fun i => ?_⟩
    · exact (hnatives c hc).imp_right fun h => ⟨by simpa using hs, h.1⟩
    · refine (hi.owned i).mono rfl rfl rfl (Nat.le_refl _) id fun _ => ⟨id, ?_⟩
      exact busy_set hcall (some []) fun more hmore m' hm' => by
        rw [← Option.some.inj hmore] at hm'
        cases hm'
  by_cases hclose : ∃ h, m = .close h
  · obtain ⟨h, rfl⟩ := hclose
    by_cases hclosed : (s.handle h).isClosed = true
    · refine inv_quiet hi hcall ?_
      rw [Step.exec, if_pos hclosed]
      exact .refl
    have hopen : (s.handle h).isClosed = false := by simpa using hclosed
    rw [exec_close_snd]
    exact inv_close hi hcall hopen (exec_close hopen)
  · exact inv_quiet hi hcall (exec_quiet (fun h hm => hclose ⟨h, hm⟩) hunmount)

/-! ### Steps of the finalizers and of the releaser -/

lemma inv_start (hi : Inv s) {op : Op} (hreach : ∀ h ∈ op.handles, (s.handle h).reachable = true) :
    Inv { s with calls := s.calls ++ [op.steps] } where
  freed := hi.freed
  mounted := hi.mounted
  owned i := by
    refine (hi.owned i).mono rfl rfl rfl (Nat.le_refl _) id fun hfinal => ⟨id, ?_⟩
    rintro ⟨call, hcall, m, hm, hon⟩
    rcases List.mem_append.1 hcall with hcall | hcall
    · exact ⟨call, hcall, m, hm, hon⟩
    · -- the caller has the handle, which a handle that is being finalized is not
      rw [List.mem_singleton.1 hcall] at hm
      have hreachable := hreach i (mem_handles_of_on hm hon)
      rw [((hi.owned i).alone hfinal).1] at hreachable
      cases hreachable

lemma inv_update (hi : Inv s) (f : Handle → Handle)
    (hf : h < s.handles.length →
      Owned (f (s.handle h)) (s.pendingReleases.count (.node h)) (s.releaser = .holding h) (s.Busy h)) :
    Inv (s.update h f) where
  freed := hi.freed
  mounted := hi.mounted
  owned i := by
    rw [handle_update]
    split
    · rename_i heq
      rw [heq.1]
      exact hf heq.2
    · exact hi.owned i

lemma inv_drop (hi : Inv s) : Inv (s.update h fun f => { f with reachable := false }) := by
  refine inv_update hi _ fun _ => ?_
  exact (hi.owned h).mono rfl rfl rfl (Nat.le_refl _) id fun _ => ⟨fun _ => rfl, id⟩

lemma Owned.finalizer_to {inHand : Prop} (ho : Owned f n inHand busy) (x : Finalizer)
    (hfrom : f.finalizer ≠ .over) (hclosing : x = .closing → f.isClosed = false)
    (hleaving : x = .releasing ∨ x = .offering → f.isClosed = true ∧ f.released = 0)
    (halone : x ≠ .idle → f.reachable = false ∧ ¬busy) :
    Owned { f with finalizer := x } n inHand busy where
  once := ho.once
  closed := ho.closed
  closing := hclosing
  leaving := hleaving
  queued h := absurd (ho.queued h).1 hfrom
  single := ho.single
  held h := absurd (ho.held h).1 hfrom
  alone := halone

lemma Owned.enqueue {inHand : Prop} (ho : Owned f n inHand busy)
    (hoffering : f.finalizer = .offering) : Owned { f with finalizer := .over } (n + 1) inHand busy := by
  have hne : f.finalizer ≠ .over := by simp [hoffering]
  obtain ⟨hclosed, hreleased⟩ := ho.leaving (.inr hoffering)
  have hn : n = 0 := by
    by_contra hpos
    exact hne (ho.queued (Nat.pos_of_ne_zero hpos)).1
  constructor
  · exact ho.once
  · exact ho.closed
  · exact fun h => by cases h
  · rintro (h | h) <;> cases h
  · exact fun _ => ⟨rfl, hclosed, hreleased⟩
  · omega
  · exact fun h => absurd (ho.held h).1 hne
  · exact fun _ => ho.alone (by simp [hoffering])

lemma inv_finalize (hi : Inv s) (hstep : finalizeStep s h = some s') : Inv s' := by
  have ho := hi.owned h
  unfold finalizeStep at hstep
  cases hfinal : (s.handle h).finalizer with
  | idle =>
    simp only [hfinal] at hstep
    split at hstep
    · rename_i hguard
      cases hstep
      refine inv_update hi _ fun _ => ho.finalizer_to _ (by simp [hfinal]) (by simp)
        (by simp) fun _ => ?_
      refine ⟨hguard.2.1, ?_⟩
      rintro ⟨call, hcall, m, hm, hon⟩
      exact hguard.2.2 call hcall m hm hon
    · cases hstep
  | checking =>
    simp only [hfinal] at hstep
    cases hstep
    refine inv_update hi _ fun _ => ho.finalizer_to _ (by simp [hfinal]) ?_ ?_ fun _ =>
      ho.alone (by simp [hfinal])
    · intro hx
      by_contra hclosed
      rw [if_pos (by simp [hclosed])] at hx
      cases hx
    · intro hx
      split at hx <;> simp at hx
  | closing =>
    simp only [hfinal] at hstep
    cases hstep
    have hzero : (s.handle h).released = 0 := by
      by_contra hpos
      have := ho.closed (Nat.pos_of_ne_zero hpos)
      rw [ho.closing hfinal] at this
      cases this
    refine inv_update hi _ fun _ => ?_
    constructor
    · exact ho.once
    · exact fun _ => rfl
    · exact fun h => by cases h
    · exact fun _ => ⟨rfl, hzero⟩
    · exact fun hq => absurd (ho.queued hq).1 (by simp [hfinal])
    · exact ho.single
    · exact fun hheld => absurd (ho.held hheld).1 (by simp [hfinal])
    · exact fun _ => ho.alone (by simp [hfinal])
  | releasing =>
    simp only [hfinal] at hstep
    cases hstep
    refine inv_update hi _ fun _ => ho.finalizer_to _ (by simp [hfinal]) ?_ ?_ fun _ =>
      ho.alone (by simp [hfinal])
    · intro hx
      split at hx <;> cases hx
    · exact fun _ => ho.leaving (.inl hfinal)
  | offering =>
    simp only [hfinal] at hstep
    cases hstep
    have hover : Inv (s.update h fun f => { f with finalizer := .over }) :=
      inv_update hi _ fun _ => ho.finalizer_to _ (by simp [hfinal]) (by simp) (by simp) fun _ =>
        ho.alone (by simp [hfinal])
    unfold Fs.offer
    split
    swap
    · exact hover
    refine ⟨hover.freed, hover.mounted, fun i => ?_⟩
    show Owned ((s.update h fun f => { f with finalizer := .over }).handle i)
      ((s.pendingReleases ++ [Entry.node h]).count (.node i)) (s.releaser = .holding i) (s.Busy i)
    rw [handle_update, List.count_append, List.count_singleton]
    by_cases hih : i = h
    · subst hih
      rw [if_pos ⟨rfl, lt_of_finalizer (by simp [hfinal])⟩]
      simpa using ho.enqueue hfinal
    · rw [if_neg fun heq => hih heq.1]
      simpa [Ne.symm hih] using hi.owned i
  | «over» =>
    simp only [hfinal] at hstep
    cases hstep

lemma inv_take (hi : Inv s) (hstep : step s .take = some s') : Inv s' := by
  simp only [step] at hstep
  split at hstep
  swap
  · cases hstep
  rename_i hwaiting
  have hnot (x : Releaser) (hx : ∀ i, x ≠ .holding i) (queue : List Entry)
      (hqueue : ∀ i, queue.count (.node i) ≤ s.pendingReleases.count (.node i)) :
      Inv { s with releaser := x, pendingReleases := queue } := by
    refine ⟨hi.freed, hi.mounted, fun i => ?_⟩
    exact (hi.owned i).mono rfl rfl rfl (hqueue i) (fun h => absurd h (hx i)) fun _ => ⟨id, id⟩
  split at hstep
  · cases hstep
    exact hnot .stopped (fun _ h => by cases h) s.pendingReleases fun _ => Nat.le_refl _
  split at hstep
  · cases hstep
  · rename_i queue hqueue
    cases hstep
    refine hnot .stopped (fun _ h => by cases h) queue fun i => ?_
    rw [hqueue, List.count_cons]
    omega
  · rename_i h queue hqueue
    cases hstep
    refine ⟨hi.freed, hi.mounted, fun i => ?_⟩
    have ho := hi.owned i
    rw [hqueue, List.count_cons] at ho
    show Owned (s.handle i) (queue.count (.node i)) (Releaser.holding h = .holding i) (s.Busy i)
    by_cases hih : h = i
    · -- the one entry of the handle is taken from the queue
      subst hih
      simp only [beq_self_eq_true, if_true] at ho
      obtain ⟨hover, hclosed, hreleased⟩ := ho.queued (Nat.succ_pos _)
      have hnone : queue.count (.node h) = 0 := by
        have := ho.single
        omega
      constructor
      · exact ho.once
      · exact ho.closed
      · exact ho.closing
      · exact ho.leaving
      · omega
      · omega
      · exact fun _ => ⟨hover, hclosed, hreleased, hnone⟩
      · exact ho.alone
    · refine ho.mono rfl rfl rfl (by omega) (fun h => ?_) fun _ => ⟨id, id⟩
      cases h
      exact absurd rfl hih

/-- The releaser has the only right to release the reference that it holds. -/
lemma inv_release (hi : Inv s) (hholding : s.releaser = .holding h) :
    Inv { (if s.isUnmounted then s else s.putNode h) with releaser := .waiting } := by
  have ho := hi.owned h
  obtain ⟨hover, hclosed, hzero, hnone⟩ := ho.held hholding
  split
  · refine ⟨hi.freed, hi.mounted, fun i => ?_⟩
    exact (hi.owned i).mono rfl rfl rfl (Nat.le_refl _) (fun h => by cases h) fun _ => ⟨id, id⟩
  rename_i hs
  have hs : s.isUnmounted = false := by simpa using hs
  refine ⟨hi.freed, hi.mounted_of fun c hc => ?_, fun i => ?_⟩
  · refine (List.mem_append.1 hc).imp_right fun hc => ?_
    rw [List.mem_singleton.1 hc]
    exact ⟨hs, rfl⟩
  show Owned ((s.putNode h).handle i) (s.pendingReleases.count (.node i))
    (Releaser.waiting = .holding i) (s.Busy i)
  rw [handle_putNode]
  split
  · rename_i heq
    rw [heq.1]
    constructor
    · simp [hzero]
    · exact fun _ => hclosed
    · simp [hover]
    · simp [hover]
    · omega
    · exact ho.single
    · exact fun h => by cases h
    · exact ho.alone
  · exact (hi.owned i).mono rfl rfl rfl (Nat.le_refl _) (fun h => by cases h) fun _ => ⟨id, id⟩

lemma inv_step {act : Act} (hi : Inv s) (hstep : step s act = some s') : Inv s' := by
  cases act with
  | start op =>
    simp only [step] at hstep
    split at hstep
    · rename_i hreach
      cases hstep
      exact inv_start hi hreach
    · cases hstep
  | run t a =>
    simp only [step] at hstep
    split at hstep
    · rename_i m rest hcall
      cases hstep
      exact inv_run hi hcall
    · cases hstep
  | drop h =>
    cases hstep
    exact inv_drop hi
  | finalize h => exact inv_finalize hi hstep
  | take => exact inv_take hi hstep
  | release =>
    simp only [step] at hstep
    split at hstep
    · rename_i h hholding
      cases hstep
      exact inv_release hi hholding
    · cases hstep

/-! ### Runs in which every `close` is alone -/

/-- What holds besides: no call is exposed at a handle whose reference has been released. -/
structure Guarded (s : Fs) : Prop where
  inv : Inv s
  unexposed : ∀ i, 0 < (s.handle i).released → ∀ call ∈ s.calls, exposed i call = false
  natives : ∀ c ∈ s.natives, c.released = 0

lemma exposed_of_uses (huses : m.uses = some i) : exposed i (m :: rest) = true := by
  have hchecks : m.checks i = false := by
    cases m <;> simp_all [Step.uses, Step.checks]
  simp [exposed, huses, hchecks]

lemma guarded_quiet (hg : Guarded s) (hcall : s.calls[t]? = some (m :: rest))
    (hq : Quiet m.uses s (m.exec s a).1) :
    Guarded { (m.exec s a).1 with calls := s.calls.set t ((m.exec s a).2.elim [] (· ++ rest)) } := by
  have hmem : (m :: rest) ∈ s.calls := List.mem_of_getElem? hcall
  refine ⟨inv_quiet hg.inv hcall hq, ?_, ?_⟩
  · intro i hpos call hin
    have hpos : 0 < (s.handle i).released := hq.released i ▸ hpos
    rcases List.mem_or_eq_of_mem_set hin with hold | rfl
    · exact hg.unexposed i hpos call hold
    · cases hgo : (m.exec s a).2 with
      | none => rfl
      | some more =>
        have hclosed := (hg.inv.owned i).closed hpos
        exact exposed_more hgo hclosed (hg.unexposed i hpos _ hmem)
  · intro c hc
    rcases hq.natives c hc with hold | ⟨-, -, hzero | ⟨h, huses, hreleased⟩⟩
    · exact hg.natives c hold
    · exact hzero
    · rw [hreleased]
      by_contra hpos
      have := hg.unexposed h (Nat.pos_of_ne_zero hpos) _ hmem
      rw [exposed_of_uses huses] at this
      cases this

lemma guarded_close (hg : Guarded s) (hcall : s.calls[t]? = some (.close h :: rest))
    (hopen : (s.handle h).isClosed = false) (hc : Closes h s s')
    (halone : (s.handle h).isRoot = false → s.isUnmounted = false → ∀ call ∈ s.calls,
      exposed h call = false) : Guarded { s' with calls := s.calls.set t [] } := by
  have hzero : (s.handle h).released = 0 := by
    by_contra hpos
    have := (hg.inv.owned h).closed (Nat.pos_of_ne_zero hpos)
    rw [hopen] at this
    cases this
  refine ⟨inv_close hg.inv hcall hopen hc, ?_, ?_⟩
  · intro i hpos call hin
    rcases List.mem_or_eq_of_mem_set hin with hold | rfl
    swap
    · rfl
    have hpos : 0 < (s'.handle i).released := hpos
    by_cases hih : i = h
    · subst hih
      rcases hc.released with hsame | ⟨-, -, hroot, hs⟩
      · omega
      · exact halone hroot hs call hold
    · rw [hc.other i hih] at hpos
      exact hg.unexposed i hpos call hold
  · intro c hmem
    rcases hc.natives c hmem with hold | ⟨-, -, h0 | h0⟩
    · exact hg.natives c hold
    · exact h0
    · exact h0.trans hzero

lemma guarded_run (hg : Guarded s) (hcall : s.calls[t]? = some (m :: rest))
    (halone : Alone s (.run t a)) :
    Guarded { (m.exec s a).1 with calls := s.calls.set t ((m.exec s a).2.elim [] (· ++ rest)) } := by
  by_cases hunmount : m = .unmount
  · subst hunmount
    by_cases hs : s.isUnmounted = true
    · refine guarded_quiet hg hcall ?_
      rw [Step.exec, if_pos hs]
      exact .refl
    have hinv := inv_run (a := a) hg.inv hcall
    obtain ⟨natives, hexec, hnatives⟩ := exec_unmount (a := a) (s := s) (by simpa using hs)
    rw [hexec] at hinv ⊢
    refine ⟨hinv, fun i hpos call hin => ?_, fun c hc => ?_⟩
    · rcases List.mem_or_eq_of_mem_set hin with hold | rfl
      · exact hg.unexposed i hpos call hold
      · have := hg.unexposed i hpos _ (List.mem_of_getElem? hcall)
        simpa [exposed, Step.checks, Step.uses, goOn] using this
    · rcases hnatives c hc with hold | hnew
      · exact hg.natives c hold
      · exact hnew.2
  by_cases hclose : ∃ h, m = .close h
  · obtain ⟨h, rfl⟩ := hclose
    by_cases hclosed : (s.handle h).isClosed = true
    · refine guarded_quiet hg hcall ?_
      rw [Step.exec, if_pos hclosed]
      exact .refl
    have hopen : (s.handle h).isClosed = false := by simpa using hclosed
    rw [exec_close_snd]
    refine guarded_close hg hcall hopen (exec_close hopen) (halone h ?_ hopen)
    simp [closing, hcall]
  · exact guarded_quiet hg hcall (exec_quiet (fun h hm => hclose ⟨h, hm⟩) hunmount)

lemma guarded_of_same (hg : Guarded s) (hinv : Inv s') (hcalls : s'.calls = s.calls)
    (hreleased : ∀ i, (s'.handle i).released = (s.handle i).released)
    (hnatives : s'.natives = s.natives) : Guarded s' where
  inv := hinv
  unexposed i hpos := by
    rw [hcalls]
    exact hg.unexposed i (hreleased i ▸ hpos)
  natives := hnatives ▸ hg.natives

lemma finalizeStep_same (hstep : finalizeStep s h = some s') :
    s'.calls = s.calls ∧ (∀ i, (s'.handle i).released = (s.handle i).released) ∧
    s'.natives = s.natives := by
  have hupdate (f : Handle → Handle) (hf : ∀ x, (f x).released = x.released) (i : ℕ) :
      ((s.update h f).handle i).released = (s.handle i).released := by
    rw [handle_update]
    split
    · rename_i heq
      rw [hf, heq.1]
    · rfl
  unfold finalizeStep at hstep
  cases hfinal : (s.handle h).finalizer <;> simp only [hfinal] at hstep
  case idle =>
    split at hstep
    · cases hstep
      exact ⟨rfl, hupdate _ fun _ => rfl, rfl⟩
    · cases hstep
  case offering =>
    cases hstep
    unfold Fs.offer
    split <;> exact ⟨rfl, hupdate _ fun _ => rfl, rfl⟩
  case «over» => cases hstep
  all_goals
    cases hstep
    exact ⟨rfl, hupdate _ fun _ => rfl, rfl⟩

lemma guarded_release (hg : Guarded s) (hholding : s.releaser = .holding h) :
    Guarded { (if s.isUnmounted then s else s.putNode h) with releaser := .waiting } := by
  have ho := hg.inv.owned h
  obtain ⟨hover, -, hzero, -⟩ := ho.held hholding
  have hinv := inv_release hg.inv hholding
  split at hinv
  · rename_i hs
    rw [if_pos hs]
    exact ⟨hinv, hg.unexposed, hg.natives⟩
  · rename_i hs
    rw [if_neg hs]
    refine ⟨hinv, fun i hpos call hin => ?_, fun c hc => ?_⟩
    · have hpos : 0 < ((s.putNode h).handle i).released := hpos
      rw [handle_putNode] at hpos
      split at hpos
      · -- a finalized handle is one that no call is about
        rename_i heq
        rw [heq.1]
        refine exposed_of_not_on fun m hm hon => ?_
        exact (ho.alone (by simp [hover])).2 ⟨call, hin, m, hm, hon⟩
      · exact hg.unexposed i hpos call hin
    · rcases List.mem_append.1 hc with hc | hc
      · exact hg.natives c hc
      · rw [List.mem_singleton.1 hc]
        exact hzero

lemma guarded_step {act : Act} (hg : Guarded s) (halone : Alone s act) (hstep : step s act = some s') :
    Guarded s' := by
  have hinv := inv_step hg.inv hstep
  cases act with
  | start op =>
    simp only [step] at hstep
    split at hstep
    swap
    · cases hstep
    cases hstep
    refine ⟨hinv, fun i hpos call hin => ?_, hg.natives⟩
    rcases List.mem_append.1 hin with hin | hin
    · exact hg.unexposed i hpos call hin
    · rw [List.mem_singleton.1 hin]
      exact exposed_steps op i
  | run t a =>
    simp only [step] at hstep
    split at hstep
    · rename_i m rest hcall
      cases hstep
      exact guarded_run hg hcall halone
    · cases hstep
  | drop h =>
    cases hstep
    refine guarded_of_same hg hinv rfl (fun i => ?_) rfl
    rw [handle_update]
    split
    · rename_i heq
      rw [heq.1]
    · rfl
  | finalize h =>
    obtain ⟨hcalls, hreleased, hnatives⟩ := finalizeStep_same hstep
    exact guarded_of_same hg hinv hcalls hreleased hnatives
  | take =>
    simp only [step] at hstep
    split at hstep
    swap
    · cases hstep
    split at hstep
    · cases hstep
      exact guarded_of_same hg hinv rfl (fun _ => rfl) rfl
    split at hstep <;> cases hstep <;> exact guarded_of_same hg hinv rfl (fun _ => rfl) rfl
  | release =>
    simp only [step] at hstep
    split at hstep
    · rename_i h hholding
      cases hstep
      exact guarded_release hg hholding
    · cases hstep

/-- **No native call is made on an unmounted volume, and every handle releases its reference at most
once**, in every run; and in the runs in which a `close` that releases a reference is alone with its
handle, no native call is given a node pointer whose handle has released its reference. -/
theorem native_calls_safe (readOnly : Bool) :
    (∀ s, Reaches (fun s act s' => step s act = some s') (fun _ _ => True) (mounted readOnly) s →
      (∀ c ∈ s.natives, c.mounted = true) ∧ ∀ f ∈ s.handles, f.released ≤ 1) ∧
    ∀ s, Reaches (fun s act s' => step s act = some s') Alone (mounted readOnly) s →
    ∀ c ∈ s.natives, c.released = 0 := by
  constructor
  · intro s hrun
    have hinv : Inv s := hrun.invariant (inv_mounted readOnly) fun _ _ _ hi _ hstep => inv_step hi hstep
    refine ⟨hinv.mounted, fun f hf => ?_⟩
    obtain ⟨i, hi⟩ := List.mem_iff_getElem?.1 hf
    have hhandle : s.handle i = f := by
      rw [Fs.handle, List.getD_eq_getElem?_getD, hi]
      rfl
    exact hhandle ▸ (hinv.owned i).once
  · intro s hrun
    have h₀ : Guarded (mounted readOnly) := by
      refine ⟨inv_mounted readOnly, fun i _ call hcall => ?_, fun c hc => ?_⟩
      · cases hcall
      · cases hc
    exact (hrun.invariant h₀ fun _ _ _ hg halone hstep => guarded_step hg halone hstep).natives

/-! ### A read and a close -/

def readThenClose : List Act :=
  let file : Answer := ⟨0, some [false]⟩
  [.start .rootDirectory, .run 0 file, .start (.listFiles 0), .run 1 file, .run 1 file, .run 1 file,
    .start (.read 1), .start (.close 1), .run 2 file, .run 2 file, .run 2 file, .run 3 file, .run 3 file]

theorem read_then_close_safe :
    ∃ s, readThenClose.foldlM step (mounted false) = some s ∧
      s.natives.map (·.fn) = [.getRootNode, .readDir, .readFile, .putNode] ∧
      ∀ c ∈ s.natives, c.released = 0 := by
  have hmet : Met step Alone (mounted false) readThenClose := by decide
  exact ⟨_, rfl, rfl, (native_calls_safe false).2 _ (.of_run .init hmet rfl)⟩

def closeDuringRead : List Act :=
  let file : Answer := ⟨0, some [false]⟩
  [.start .rootDirectory, .run 0 file, .start (.listFiles 0), .run 1 file, .run 1 file, .run 1 file,
    .start (.read 1), .run 2 file, .run 2 file,
    .start (.close 1), .run 3 file, .run 3 file,
    .run 2 file]

/-- **A node pointer is used after its reference has been released**: the read has looked at
`isClosed` before the close, and it does not look again. -/
theorem read_after_release :
    ∃ s, closeDuringRead.foldlM step (mounted false) = some s ∧
      s.natives.getLast? = some ⟨.readFile, true, some 1, 1⟩ :=
  ⟨_, rfl, rfl⟩

end OtgMaster.ExFat
