import OtgMaster.Ext4.DirBlock
import OtgMaster.Ext4.WalkSafe
import OtgMaster.Lib.Hops

/-!
What the loops over a block of a directory do with a block that may hold anything.

That a loop stays inside the first `limit` bytes is said by running it on an array of that length:
there every access beyond throws. For each loop the records that it comes to are given by the one
before (`Always`), and it is safe exactly if these records are as it needs them.
-/

namespace OtgMaster.Ext4

open Lib Bytes

/-! ### calls that return -/

/-- The call returns, without an exception and after finitely many turns. -/
def Returns {α : Type} (m : B α) (b : Bytes) : Prop := wp m (fun _ _ => True) (fun _ _ => False) b

instance {α : Type} (m : B α) (b : Bytes) : Decidable (Returns m b) := by
  unfold Returns wp
  split <;> infer_instance

section Returns

variable {α γ : Type} {b : Bytes} {size a n : ℕ}

lemma returns_pure (r : α) : Returns (pure r) b := trivial

lemma not_returns_throw {e : BlockEx} : ¬Returns (throw e : B α) b := id

lemma returns_fetch {f : Bytes → α} {g : α → B γ} :
    Returns (fetch size a n f >>= g) b ↔ a + n ≤ size ∧ Returns (g (f b)) b := by
  simp only [Returns, fetch, access, wp_bind, wp_throwIf, wp_get, wp_pure, imp_false, Nat.not_lt]
  exact and_congr_right fun h => forall_prop_of_true h

lemma returns_store {f : Bytes → Bytes} {g : Unit → B γ} :
    Returns (store size a n f >>= g) b ↔ a + n ≤ size ∧ Returns (g ()) (f b) := by
  simp only [Returns, store, access, wp_bind, wp_throwIf, wp_modify, imp_false, Nat.not_lt]
  exact and_congr_right fun h => forall_prop_of_true h

end Returns

/-! ### adding -/

section Add

variable (b : Bytes) (limit needed : ℕ) (nameBytes : List UInt8)

/-- The next record for `addEntryToBlock`: the one behind a record that has no room to spare. -/
def addNext (p : ℕ) : Option ℕ :=
  if p + 8 ≤ limit ∧ recLen b p ≠ 0 ∧ recLen b p < recRoom (recNameLen b p) + needed then
    some (p + recLen b p)
  else none

/-- A record that has room to spare has it before the limit. -/
def AddNeeds (p : ℕ) : Prop :=
  p + 8 ≤ limit → recLen b p ≠ 0 → recRoom (recNameLen b p) + needed ≤ recLen b p →
    p + recRoom (recNameLen b p) + 8 + nameBytes.length ≤ limit

variable {b limit needed nameBytes}

lemma addLoop_returns_iff {inoNum fileType : ℕ} (turns : ℕ) : ∀ p, 0 < turns → limit < p + turns →
    (Returns (addLoop limit limit inoNum nameBytes needed fileType turns p) b ↔
      Always (addNext b limit needed) (AddNeeds b limit needed nameBytes) p) := by
  induction turns with
  | zero => exact fun _ h => absurd h (lt_irrefl 0)
  | succ turns ih =>
    intro p _ hturns
    by_cases hp : p + 8 ≤ limit
    · rw [addLoop, if_pos hp, returns_fetch, and_iff_right (show p + 4 + 2 ≤ limit by omega)]
      by_cases hlen : recLen b p = 0
      · have hnone : addNext b limit needed p = none := if_neg fun h => h.2.1 hlen
        rw [if_pos hlen, always_last hnone]
        exact iff_of_true (returns_pure _) fun _ h => absurd hlen h
      · rw [if_neg hlen, returns_fetch, and_iff_right (show p + 6 + 1 ≤ limit by omega)]
        by_cases hslack : recRoom (recNameLen b p) + needed ≤ recLen b p
        · have hnone : addNext b limit needed p = none := if_neg fun h => absurd hslack (by omega)
          have hif : (needed : ℤ) ≤ (recLen b p : ℤ) - (recRoom (recNameLen b p) : ℕ) := by omega
          rw [if_pos hif, always_last hnone]
          simp only [returns_store]
          constructor
          · rintro ⟨-, -, -, -, -, h, -⟩ _ _ _
            exact h
          · intro h
            have hfits := h hp hlen hslack
            exact ⟨by omega, by omega, by omega, by omega, by omega, by omega, returns_pure _⟩
        · have hsome : addNext b limit needed p = some (p + recLen b p) := if_pos ⟨hp, hlen, by omega⟩
          have hif : ¬(needed : ℤ) ≤ (recLen b p : ℤ) - (recRoom (recNameLen b p) : ℕ) := by omega
          rw [if_neg hif, always_step hsome, ih (p + recLen b p) (by omega) (by omega)]
          exact (and_iff_right fun _ _ h => absurd h hslack).symm
    · have hnone : addNext b limit needed p = none := if_neg fun h => hp h.1
      rw [addLoop, if_neg hp, always_last hnone]
      exact iff_of_true (returns_pure _) fun h => absurd h hp

end Add

/-! ### removing -/

section Remove

variable (b : Bytes) (limit inoNum : ℕ) (nameBytes : List UInt8)

def recMatches (p : ℕ) : Prop :=
  (recInode b p = inoNum ∧ recNameLen b p = nameBytes.length) ∧
  b.slice (p + 8) nameBytes.length = nameBytes

instance (p : ℕ) : Decidable (recMatches b inoNum nameBytes p) := by
  unfold recMatches
  infer_instance

/-- The next record for `removeDirEntry`: the one behind a record for something else. -/
def removeNext (p : ℕ) : Option ℕ :=
  if p + 8 ≤ limit ∧ recLen b p ≠ 0 ∧ ¬recMatches b inoNum nameBytes p then some (p + recLen b p)
  else none

/-- As far as the bytes behind `o` are those of the name they lie before the limit, and the first
one that is not does too. -/
def Comparable (o : ℕ) : Prop :=
  ∀ k < nameBytes.length, (∀ j < k, b (o + j) = nameBytes.getD j 0) → o + k < limit

/-- A record for the inode, with a name of the same length, can be compared with the name. -/
def RemoveNeeds (p : ℕ) : Prop :=
  p + 8 ≤ limit → recLen b p ≠ 0 → recInode b p = inoNum → recNameLen b p = nameBytes.length →
    Comparable b limit nameBytes (p + 8)

variable {b limit inoNum nameBytes}

lemma slice_succ (o n : ℕ) : b.slice o (n + 1) = b o :: b.slice (o + 1) n := by
  simp only [slice, List.range_succ_eq_map, List.map_cons, List.map_map, Nat.add_zero]
  congr 1
  refine List.map_congr_left fun i _ => ?_
  show b (o + (i + 1)) = b (o + 1 + i)
  congr 1
  omega

lemma comparable_cons {c : UInt8} {other : List UInt8} {o : ℕ} :
    Comparable b limit (c :: other) o ↔ o < limit ∧ (b o = c → Comparable b limit other (o + 1)) := by
  constructor
  · intro h
    refine ⟨h 0 (by simp) fun j hj => by omega, fun hc k hk hsame => ?_⟩
    have := h (k + 1) (by simpa using hk) fun j hj => ?_
    · omega
    · cases j with
      | zero => simpa using hc
      | succ j =>
        have := hsame j (by omega)
        simpa [Nat.add_assoc, Nat.add_comm 1 j] using this
  · rintro ⟨ho, hrest⟩ k hk hsame
    cases k with
    | zero => exact ho
    | succ k =>
      have hc : b o = c := by simpa using hsame 0 (by omega)
      have := hrest hc k (by simpa using hk) fun j hj => ?_
      · omega
      · have := hsame (j + 1) (by omega)
        simpa [Nat.add_assoc, Nat.add_comm 1 j] using this

lemma returns_regionMatches {γ : Type} {g : Bool → B γ} : ∀ (other : List UInt8) (o : ℕ),
    Returns (regionMatches limit o other >>= g) b ↔
      Comparable b limit other o ∧ Returns (g (decide (b.slice o other.length = other))) b
  | [], o => by
    have hnil : Comparable b limit [] o := fun k hk => by cases hk
    exact (and_iff_right hnil).symm
  | c :: other, o => by
    rw [regionMatches, bind_assoc, returns_fetch, comparable_cons, List.length_cons, slice_succ]
    by_cases hc : b o = c
    · rw [if_neg (not_not.2 hc), returns_regionMatches other (o + 1)]
      simp only [hc, List.cons.injEq, true_and, true_implies, and_assoc]
      exact Iff.rfl
    · rw [if_pos hc, pure_bind]
      simp only [hc, List.cons.injEq, false_and, false_implies, and_true, decide_false]
      exact Iff.rfl

lemma removeLoop_returns_iff (turns : ℕ) : ∀ p prev, 0 < turns → limit < p + turns →
    (∀ q, prev = some q → q + 8 ≤ limit) →
    (Returns (removeLoop limit limit inoNum nameBytes turns p prev) b ↔
      Always (removeNext b limit inoNum nameBytes) (RemoveNeeds b limit inoNum nameBytes) p) := by
  induction turns with
  | zero => exact fun _ _ h => absurd h (lt_irrefl 0)
  | succ turns ih =>
    intro p prev _ hturns hprev
    by_cases hp : p + 8 ≤ limit
    · rw [removeLoop, if_pos hp, returns_fetch, and_iff_right (show p + 4 ≤ limit by omega),
        returns_fetch, and_iff_right (show p + 4 + 2 ≤ limit by omega)]
      by_cases hlen : recLen b p = 0
      · have hnone : removeNext b limit inoNum nameBytes p = none := if_neg fun h => h.2.1 hlen
        rw [if_pos hlen, always_last hnone]
        exact iff_of_true (returns_pure _) fun _ h => absurd hlen h
      · rw [if_neg hlen, returns_fetch, and_iff_right (show p + 6 + 1 ≤ limit by omega)]
        -- what comes after a record that is not for the name
        have hgo : removeNext b limit inoNum nameBytes p = some (p + recLen b p) →
            (Returns (removeLoop limit limit inoNum nameBytes turns (p + recLen b p) (some p)) b ↔
              Always (removeNext b limit inoNum nameBytes) (RemoveNeeds b limit inoNum nameBytes)
                  (p + recLen b p)) :=
          fun _ => ih _ _ (by omega) (by omega) fun q hq => by cases hq; exact hp
        by_cases hfor : recInode b p = inoNum ∧ recNameLen b p = nameBytes.length
        · have hneed : RemoveNeeds b limit inoNum nameBytes p ↔ Comparable b limit nameBytes (p + 8) :=
            ⟨fun h => h hp hlen hfor.1 hfor.2, fun h _ _ _ _ => h⟩
          rw [isEntry, if_pos hfor, returns_regionMatches]
          by_cases hname : b.slice (p + 8) nameBytes.length = nameBytes
          · have hnone : removeNext b limit inoNum nameBytes p = none :=
              if_neg fun h => h.2.2 ⟨hfor, hname⟩
            rw [always_last hnone, hneed, decide_eq_true hname]
            refine and_iff_left ?_
            rw [if_pos rfl]
            cases prev with
            | some q =>
              have := hprev q rfl
              rw [takeOut, bind_assoc, returns_fetch, returns_store]
              exact ⟨by omega, by omega, returns_pure _⟩
            | none =>
              rw [takeOut, returns_store]
              exact ⟨by omega, returns_pure _⟩
          · have hsome : removeNext b limit inoNum nameBytes p = some (p + recLen b p) :=
              if_pos ⟨hp, hlen, fun h => hname h.2⟩
            rw [always_step hsome, hneed, decide_eq_false hname, ← hgo hsome]
            rw [if_neg Bool.false_ne_true]
        · have hsome : removeNext b limit inoNum nameBytes p = some (p + recLen b p) :=
            if_pos ⟨hp, hlen, fun h => hfor h.1⟩
          rw [isEntry, if_neg hfor, pure_bind, always_step hsome, ← hgo hsome]
          rw [if_neg Bool.false_ne_true]
          exact (and_iff_right fun _ _ h₁ h₂ => absurd ⟨h₁, h₂⟩ hfor).symm
    · have hnone : removeNext b limit inoNum nameBytes p = none := if_neg fun h => hp h.1
      rw [removeLoop, if_neg hp, always_last hnone]
      exact iff_of_true (returns_pure _) fun h => absurd h hp

end Remove

/-! ### the parent -/

section DotDot

variable (b : Bytes) (limit : ℕ)

/-- The next record for `updateDotDot`: the one behind a record with another name. -/
def dotDotNext (p : ℕ) : Option ℕ :=
  if p + 8 ≤ limit ∧ recName b p ≠ DOT_DOT then some (p + recLen b p) else none

/-- The name of a record lies before the limit, and the record is followed by another place. -/
def DotDotNeeds (p : ℕ) : Prop :=
  p + 8 ≤ limit → p + 8 + recNameLen b p ≤ limit ∧ (recName b p ≠ DOT_DOT → recLen b p ≠ 0)

variable {b limit} {newParentIno : ℕ}

lemma dotDotLoop_stuck {p : ℕ} (hp : p + 8 ≤ limit) (hlen : recLen b p = 0)
    (hname : recName b p ≠ DOT_DOT) (turns : ℕ) :
    ¬Returns (dotDotLoop limit limit newParentIno turns p) b := by
  induction turns with
  | zero => exact not_returns_throw
  | succ turns ih =>
    rw [dotDotLoop, if_pos hp, returns_fetch, returns_fetch, returns_fetch, if_neg hname, hlen,
      Nat.add_zero]
    exact fun h => ih h.2.2.2

lemma dotDotLoop_returns_iff (turns : ℕ) : ∀ p, 0 < turns → limit < p + turns →
    (Returns (dotDotLoop limit limit newParentIno turns p) b ↔
      Always (dotDotNext b limit) (DotDotNeeds b limit) p) := by
  induction turns with
  | zero => exact fun _ h => absurd h (lt_irrefl 0)
  | succ turns ih =>
    intro p hpos hturns
    by_cases hp : p + 8 ≤ limit
    · by_cases hname : recName b p = DOT_DOT
      · have hnone : dotDotNext b limit p = none := if_neg fun h => h.2 hname
        rw [always_last hnone, dotDotLoop, if_pos hp, returns_fetch,
          and_iff_right (show p + 4 + 2 ≤ limit by omega),
          returns_fetch, and_iff_right (show p + 6 + 1 ≤ limit by omega), returns_fetch,
          if_pos hname, returns_store]
        constructor
        · rintro ⟨h, -⟩ _
          exact ⟨h, fun h' => absurd hname h'⟩
        · intro h
          exact ⟨(h hp).1, by omega, returns_pure _⟩
      · have hsome : dotDotNext b limit p = some (p + recLen b p) := if_pos ⟨hp, hname⟩
        by_cases hlen : recLen b p = 0
        · refine iff_of_false (dotDotLoop_stuck hp hlen hname _) fun h => ?_
          exact ((always_iff.1 h).1 hp).2 hname hlen
        · rw [always_step hsome, dotDotLoop, if_pos hp, returns_fetch,
            and_iff_right (show p + 4 + 2 ≤ limit by omega), returns_fetch,
            and_iff_right (show p + 6 + 1 ≤ limit by omega), returns_fetch, if_neg hname,
            ih (p + recLen b p) (by omega) (by omega)]
          refine and_congr_left fun _ => ⟨fun h _ => ⟨h, fun _ => hlen⟩, fun h => (h hp).1⟩
    · have hnone : dotDotNext b limit p = none := if_neg fun h => hp h.1
      rw [dotDotLoop, if_neg hp, always_last hnone]
      exact iff_of_true (returns_pure _) fun h => absurd h hp

end DotDot

/-! ### listing -/

section List

variable (b : Bytes) (limit : ℕ) (R : ℕ → Prop)

def listNext (p : ℕ) : Option ℕ := if p + 8 ≤ limit ∧ 8 ≤ recLen b p then some (p + recLen b p) else none

def recListed (p : ℕ) : Prop :=
  (recInode b p ≠ 0 ∧ 0 < recNameLen b p ∧ p + 8 + recNameLen b p ≤ limit) ∧ recName b p ≠ DOT ∧
  recName b p ≠ DOT_DOT

/-- The inode of an entry that is listed satisfies `R`. -/
def ListNeeds (p : ℕ) : Prop := p + 8 ≤ limit → 8 ≤ recLen b p → recListed b limit p → R (recInode b p)

variable {b limit R}

lemma wp_fetch {α : Type} {size a n : ℕ} {f : Bytes → α} {Q : α → Bytes → Prop}
    {E : BlockEx → Bytes → Prop} (h : a + n ≤ size) : wp (fetch size a n f) Q E b ↔ Q (f b) b := by
  simp only [fetch, access, wp_bind, wp_throwIf, wp_get, wp_pure]
  exact ⟨fun h' => h'.2 (Nat.not_lt.2 h),
    fun h' => ⟨fun hlt => absurd h (Nat.not_le.2 hlt), fun _ => h'⟩⟩

lemma parseLoop_spec (turns : ℕ) : ∀ p out, 0 < turns → limit < p + turns →
    wp (parseLoop limit limit turns p out) (fun es b' => b' = b ∧
      ((∀ e ∈ es, R e.1) ↔ (∀ e ∈ out, R e.1) ∧ Always (listNext b limit) (ListNeeds b limit R) p))
      (fun _ _ => False) b := by
  induction turns with
  | zero => exact fun _ _ h => absurd h (lt_irrefl 0)
  | succ turns ih =>
    intro p out _ hturns
    rw [parseLoop]
    by_cases hp : p + 8 ≤ limit
    · rw [if_pos hp, wp_bind, wp_fetch (by omega), wp_bind, wp_fetch (by omega)]
      by_cases hlen : recLen b p < 8
      · have hnone : listNext b limit p = none := if_neg fun h => absurd hlen (by omega)
        rw [if_pos hlen, wp_pure, always_last hnone]
        exact ⟨rfl, (and_iff_left fun _ h => absurd hlen (by omega)).symm⟩
      · have hsome : listNext b limit p = some (p + recLen b p) := if_pos ⟨hp, by omega⟩
        have hrest := ih (p + recLen b p)
        have hskip : ¬recListed b limit p → ListNeeds b limit R p := fun h _ _ h' => absurd h' h
        rw [if_neg hlen, wp_bind, wp_fetch (by omega), always_step hsome]
        by_cases hentry : recInode b p ≠ 0 ∧ 0 < recNameLen b p ∧ p + 8 + recNameLen b p ≤ limit
        · rw [if_pos hentry, wp_bind, wp_fetch hentry.2.2]
          by_cases hname : recName b p ≠ DOT ∧ recName b p ≠ DOT_DOT
          · rw [if_pos hname]
            have hneeds : ListNeeds b limit R p ↔ R (recInode b p) :=
              ⟨fun h => h hp (by omega) ⟨hentry, hname⟩, fun h _ _ _ => h⟩
            refine wp_mono (hrest (out ++ [(recInode b p, recName b p)]) (by omega) (by omega))
              (fun es b' h => ⟨h.1, h.2.trans ?_⟩) fun _ _ => id
            rw [hneeds, ← and_assoc]
            refine and_congr_left fun _ => ?_
            simp only [List.mem_append, List.mem_singleton, or_imp, forall_and, forall_eq]
          · rw [if_neg hname]
            refine wp_mono (hrest out (by omega) (by omega)) (fun es b' h => ⟨h.1, h.2.trans ?_⟩)
              fun _ _ => id
            rw [and_iff_right (hskip fun h => hname h.2)]
        · rw [if_neg hentry]
          refine wp_mono (hrest out (by omega) (by omega)) (fun es b' h => ⟨h.1, h.2.trans ?_⟩)
            fun _ _ => id
          rw [and_iff_right (hskip fun h => hentry h.1)]
    · have hnone : listNext b limit p = none := if_neg fun h => hp h.1
      rw [if_neg hp, wp_pure, always_last hnone]
      exact ⟨rfl, (and_iff_left fun h => absurd h hp).symm⟩

end List

/-! ### inodes on the device -/

section Inodes

variable (fs : Ext4FileSystem) (dev : Bytes)

def ptr64 (g : ℤ) (lo hi : ℕ) : ℕ :=
  (if hi + 4 ≤ fs.groupDescSize then dev.le32 (bgdByteOff fs g + hi).toNat else 0) * 2 ^ 32 +
    dev.le32 (bgdByteOff fs g + lo).toNat

def inodePlace (ino : ℕ) : ℤ := inodeByteOffset fs (ptr64 fs dev (groupIdx fs ino) 8 40) ino

def inodeOn (ino : ℕ) : Bytes := dev.window (inodePlace fs dev ino).toNat fs.inodeSize

/-- The inode has a place on the device: its group has a descriptor there, and the table that this
names has the inode's slot. -/
structure InodePlaced (ino : ℕ) : Prop where
  groups : fs.inodesPerGroup ≠ 0
  descriptor : DescField fs (groupIdx fs ino) 8
  upperHalf : 40 + 4 ≤ fs.groupDescSize → DescField fs (groupIdx fs ino) 40
  place_nonneg : 0 ≤ inodePlace fs dev ino
  on_device : inodePlace fs dev ino + fs.inodeSize ≤ fs.deviceSize

/-- The inode can be read, and has the fields that `forInode` reads: an inode is as long as the
superblock says, which may be too short. -/
def InodeOnDevice (ino : ℕ) : Prop :=
  InodePlaced fs dev ino ∧ inodeFieldsEnd (inodeOn fs dev ino) ≤ fs.inodeSize

variable {fs} {s : St} {α γ : Type}

def NoIo (m : M α) : Prop := ∀ s, wp m (fun _ _ => True) (fun e _ => ¬e.IsIo) s

lemma NoIo.bind {m : M α} {f : α → M γ} (h : NoIo m) (hf : ∀ a, NoIo (f a)) : NoIo (m >>= f) := by
  intro s
  rw [wp_bind]
  exact wp_mono (h s) (fun a s' _ => hf a s') fun _ _ h' => h'

lemma NoIo.throwIf {c : Prop} [Decidable c] {e : Ex} (he : ¬e.IsIo) : NoIo (throwIf c e : M Unit) := by
  intro s
  rw [wp_throwIf]
  exact ⟨fun _ => he, fun _ => trivial⟩

lemma NoIo.error {m : M α} (h : NoIo m) {e : Ex} {s' : St} (he : m s = .error e s') : ¬e.IsIo :=
  (wp_of_error he).1 (h s)

lemma devRead_noIo {a n : ℕ} : NoIo (devRead fs a n) := by
  intro s
  by_cases h : a + n ≤ fs.deviceSize
  · rw [wp, devRead_ok h]
    trivial
  · rw [wp, devRead_error h]
    exact id

lemma readBgdInt_noIo {g : ℤ} {o : ℕ} : NoIo (readBgdInt fs g o) := by
  refine (NoIo.throwIf id).bind fun _ => (NoIo.throwIf id).bind fun _ => devRead_noIo.bind fun data =>
    (NoIo.throwIf id).bind fun _ s => ?_
  rw [wp_getInt]
  exact ⟨fun _ => trivial, fun _ => id⟩

/-- A call that reads, and throws no `IOException`: it gives `v` if `P` holds, and otherwise
throws. -/
def GivesIf (m : M α) (P : Prop) (v : α) (s : St) : Prop :=
  (P ∧ m s = .ok v s) ∨ (¬P ∧ ∃ e, ¬e.IsIo ∧ m s = .error e s)

lemma GivesIf.bind {m : M α} {f : α → M γ} {P P' : Prop} {v : α} {v' : γ} (h : GivesIf m P v s)
    (h' : P → GivesIf (f v) P' v' s) : GivesIf (m >>= f) (P ∧ P') v' s := by
  rcases h with ⟨hp, hv⟩ | ⟨hp, e, hio, he⟩
  · rcases h' hp with ⟨hp', hv'⟩ | ⟨hp', e, hio, he⟩
    · exact .inl ⟨⟨hp, hp'⟩, (bind_run hv).trans hv'⟩
    · exact .inr ⟨fun hpp => hp' hpp.2, e, hio, (bind_run hv).trans he⟩
  · exact .inr ⟨fun hpp => hp hpp.1, e, hio, bind_error he⟩

lemma GivesIf.congr {m : M α} {P P' : Prop} {v v' : α} (h : GivesIf m P v s) (hP : P ↔ P')
    (hv : v = v') : GivesIf m P' v' s := by
  rwa [GivesIf, ← hP, ← hv]

lemma givesIf_pure {v : α} : GivesIf (pure v) True v s := .inl ⟨trivial, rfl⟩

lemma givesIf_throwIf {c : Prop} [Decidable c] {e : Ex} (he : ¬e.IsIo) :
    GivesIf (throwIf c e) (¬c) () s := by
  by_cases hc : c
  · exact .inr ⟨not_not.2 hc, e, he, by rw [throwIf, if_pos hc]; rfl⟩
  · exact .inl ⟨hc, by rw [throwIf, if_neg hc]; rfl⟩

lemma givesIf_devRead {a n : ℕ} :
    GivesIf (devRead fs a n) (a + n ≤ fs.deviceSize) (s.dev.window a n) s := by
  by_cases h : a + n ≤ fs.deviceSize
  · exact .inl ⟨h, devRead_ok h⟩
  · exact .inr ⟨h, _, id, devRead_error h⟩

lemma givesIf_readBgdInt (g : ℤ) (o : ℕ) :
    GivesIf (readBgdInt fs g o) (DescField fs g o) (s.dev.le32 (bgdByteOff fs g + o).toNat) s := by
  rcases readBgdInt_cases fs g o with ⟨hd, hrun⟩ | ⟨hd, e, he⟩
  · exact .inl ⟨hd, hrun s⟩
  · exact .inr ⟨hd, e, readBgdInt_noIo.error (he s), he s⟩

lemma givesIf_readBgdHi (g : ℤ) (o : ℕ) :
    GivesIf (readBgdHi fs g o) (o + 4 ≤ fs.groupDescSize → DescField fs g o)
      (if o + 4 ≤ fs.groupDescSize then s.dev.le32 (bgdByteOff fs g + o).toNat else 0) s := by
  unfold readBgdHi
  by_cases hwide : o + 4 ≤ fs.groupDescSize
  · rw [if_pos hwide, if_pos hwide, forall_prop_of_true hwide]
    exact givesIf_readBgdInt g o
  · rw [if_neg hwide, if_neg hwide]
    exact givesIf_pure.congr (iff_of_true trivial fun h => absurd h hwide) rfl

lemma givesIf_readInode (ino : ℕ) :
    GivesIf (readInode fs ino) (InodePlaced fs s.dev ino) (inodeOn fs s.dev ino) s := by
  have htable : GivesIf (inodeTableBlock fs ino) _ (ptr64 fs s.dev (groupIdx fs ino) 8 40) s :=
    (givesIf_throwIf id).bind fun _ => (givesIf_readBgdInt (groupIdx fs ino) 8).bind fun _ =>
      (givesIf_readBgdHi (groupIdx fs ino) 40).bind fun _ => givesIf_pure
  refine (htable.bind fun _ => (givesIf_throwIf id).bind fun _ => givesIf_devRead).congr ?_ rfl
  constructor
  · rintro ⟨⟨hg, hlo, hhi, -⟩, hneg, hin⟩
    have hnonneg : 0 ≤ inodePlace fs s.dev ino := not_lt.1 hneg
    refine ⟨hg, hlo, hhi, hnonneg, ?_⟩
    change (inodePlace fs s.dev ino).toNat + fs.inodeSize ≤ fs.deviceSize at hin
    omega
  · intro h
    have hnonneg := h.place_nonneg
    have hin := h.on_device
    refine ⟨⟨h.groups, h.descriptor, h.upperHalf, trivial⟩, not_lt.2 hnonneg, ?_⟩
    show (inodePlace fs s.dev ino).toNat + fs.inodeSize ≤ fs.deviceSize
    omega

lemma answers_mapM_forInode (utf8 : List UInt8 → String) (parent : Option ℕ)
    (es : List (ℕ × List UInt8)) :
    ∀ s : St, Answers (es.mapM fun e => forInode fs e.1 (utf8 e.2) parent) s ↔
    ∀ e ∈ es, InodeOnDevice fs s.dev e.1 := by
  induction es with
  | nil => exact fun s => iff_of_true trivial nofun
  | cons e es ih =>
    intro s
    have hread : GivesIf (do
        let inode ← readInode fs e.1
        checkInode fs inode
        pure inode) _ (inodeOn fs s.dev e.1) s :=
      (givesIf_readInode e.1).bind fun _ => (givesIf_throwIf id).bind fun _ => givesIf_pure
    have hbind : forInode fs e.1 (utf8 e.2) parent = (do
        let inode ← readInode fs e.1
        checkInode fs inode
        pure inode) >>= fun inode => newFile (fileOf e.1 (utf8 e.2) parent inode) := by
      simp only [forInode, bind_assoc, pure_bind]
    rw [List.mapM_cons, List.forall_mem_cons, InodeOnDevice, ← not_lt]
    rcases hread with ⟨⟨hplaced, hfields, -⟩, hok⟩ | ⟨hno, e', hio, herror⟩
    · obtain ⟨s₂, n, hfor, hdev⟩ : ∃ s₂ n, forInode fs e.1 (utf8 e.2) parent s = .ok n s₂ ∧
          s₂.dev = s.dev := by
        rw [hbind, bind_run hok]
        exact ⟨{ s with
          files := Function.update s.files s.nextFile
            (fileOf e.1 (utf8 e.2) parent (inodeOn fs s.dev e.1))
          nextFile := s.nextFile + 1 }, _, rfl, rfl⟩
      rw [and_iff_right ⟨hplaced, hfields⟩, Answers, wp_bind, wp_of_ok hfor, wp_bind, ← hdev, ← ih s₂]
      exact ⟨fun h => wp_mono h (fun _ _ _ => trivial) fun _ _ h' => h',
        fun h => wp_mono h (fun _ _ _ => trivial) fun _ _ h' => h'⟩
    · have hfor : forInode fs e.1 (utf8 e.2) parent s = .error e' s := by
        rw [hbind]
        exact bind_error herror
      rw [Answers, wp_bind, wp_of_error hfor]
      exact iff_of_false hio fun h => hno ⟨h.1.1, h.1.2, trivial⟩

end Inodes

/-! ### a longer array -/

section Longer

variable {size limit : ℕ} (h : limit ≤ size)
include h

lemma access_extends (a n : ℕ) : Extends (access limit a n) (access size a n) := by
  intro b u b' hr
  obtain ⟨hin, rfl⟩ := throwIf_ok hr
  rw [access, throwIf, if_neg (by omega)]
  rfl

lemma fetch_extends {α : Type} (a n : ℕ) (f : Bytes → α) :
    Extends (fetch limit a n f) (fetch size a n f) :=
  (access_extends h a n).bind fun _ => .refl _

lemma store_extends (a n : ℕ) (f : Bytes → Bytes) : Extends (store limit a n f) (store size a n f) :=
  (access_extends h a n).bind fun _ => .refl _

lemma parseLoop_extends (turns : ℕ) : ∀ p out,
    Extends (parseLoop limit limit turns p out) (parseLoop size limit turns p out) := by
  induction turns with
  | zero => exact fun _ _ => .refl _
  | succ turns ih =>
    intro p out
    refine .ite ?_ (.refl _)
    refine (fetch_extends h _ _ _).bind fun ino => (fetch_extends h _ _ _).bind fun len =>
      .ite (.refl _) ?_
    refine (fetch_extends h _ _ _).bind fun nameLen => .ite ?_ (ih _ _)
    exact (fetch_extends h _ _ _).bind fun name => .ite (ih _ _) (ih _ _)

lemma addLoop_extends {inoNum needed fileType : ℕ} {nameBytes : List UInt8} (turns : ℕ) : ∀ p,
    Extends (addLoop limit limit inoNum nameBytes needed fileType turns p)
      (addLoop size limit inoNum nameBytes needed fileType turns p) := by
  induction turns with
  | zero => exact fun _ => .refl _
  | succ turns ih =>
    intro p
    refine .ite ?_ (.refl _)
    refine (fetch_extends h _ _ _).bind fun len => .ite (.refl _) ?_
    refine (fetch_extends h _ _ _).bind fun nameLen => .ite ?_ (ih _)
    refine (store_extends h _ _ _).bind fun _ => (store_extends h _ _ _).bind fun _ => ?_
    refine (store_extends h _ _ _).bind fun _ => (store_extends h _ _ _).bind fun _ => ?_
    exact (store_extends h _ _ _).bind fun _ => (store_extends h _ _ _).bind fun _ => .refl _

lemma regionMatches_extends (other : List UInt8) : ∀ o,
    Extends (regionMatches limit o other) (regionMatches size o other) := by
  induction other with
  | nil => exact fun _ => .refl _
  | cons c other ih =>
    intro o
    exact (fetch_extends h _ _ _).bind fun x => .ite (.refl _) (ih _)

lemma takeOut_extends (p len : ℕ) (prev : Option ℕ) :
    Extends (takeOut limit p len prev) (takeOut size p len prev) := by
  cases prev with
  | some q => exact (fetch_extends h _ _ _).bind fun _ => store_extends h _ _ _
  | none => exact store_extends h _ _ _

lemma removeLoop_extends {inoNum : ℕ} {nameBytes : List UInt8} (turns : ℕ) : ∀ p prev,
    Extends (removeLoop limit limit inoNum nameBytes turns p prev)
      (removeLoop size limit inoNum nameBytes turns p prev) := by
  induction turns with
  | zero => exact fun _ _ => .refl _
  | succ turns ih =>
    intro p prev
    refine .ite ?_ (.refl _)
    refine (fetch_extends h _ _ _).bind fun ino => (fetch_extends h _ _ _).bind fun len =>
      .ite (.refl _) ?_
    have hentry : ∀ ino nameLen, Extends (isEntry limit p ino nameLen inoNum nameBytes)
        (isEntry size p ino nameLen inoNum nameBytes) :=
      fun ino nameLen => .ite (regionMatches_extends h _ _) (.refl _)
    refine (fetch_extends h _ _ _).bind fun nameLen => (hentry _ _).bind fun found => .ite ?_ (ih _ _)
    exact (takeOut_extends h _ _ _).bind fun _ => .refl _

lemma dotDotLoop_extends {newParentIno : ℕ} (turns : ℕ) : ∀ p,
    Extends (dotDotLoop limit limit newParentIno turns p)
      (dotDotLoop size limit newParentIno turns p) := by
  induction turns with
  | zero => exact fun _ => .refl _
  | succ turns ih =>
    intro p
    refine .ite ?_ (.refl _)
    refine (fetch_extends h _ _ _).bind fun len => (fetch_extends h _ _ _).bind fun nameLen => ?_
    refine (fetch_extends h _ _ _).bind fun name => .ite ?_ (ih _)
    exact (store_extends h _ _ _).bind fun _ => .refl _

end Longer

/-! ### what changes -/

/-- If the call returns, nothing has changed if it has found nothing, and never anything behind the
array. -/
def Keeps (size : ℕ) (m : B Bool) (b : Bytes) : Prop :=
  wp m (fun found b' => (found = false → b' = b) ∧ ∀ i, size ≤ i → b' i = b i) (fun _ _ => True) b

section Keeps

variable {size a n : ℕ} {b : Bytes}

lemma wp_fetch_of {α γ : Type} {f : Bytes → α} {g : α → B γ} {Q : γ → Bytes → Prop}
    (h : wp (g (f b)) Q (fun _ _ => True) b) : wp (fetch size a n f >>= g) Q (fun _ _ => True) b := by
  simp only [fetch, access, wp_bind, wp_throwIf, wp_get, wp_pure]
  exact ⟨fun _ => trivial, fun _ => h⟩

lemma wp_store_of {γ : Type} {f : Bytes → Bytes} {g : Unit → B γ} {Q : γ → Bytes → Prop}
    (h : a + n ≤ size → wp (g ()) Q (fun _ _ => True) (f b)) :
    wp (store size a n f >>= g) Q (fun _ _ => True) b := by
  simp only [store, access, wp_bind, wp_throwIf, wp_modify]
  exact ⟨fun _ => trivial, fun hin => h (Nat.le_of_not_lt hin)⟩

lemma Keeps.notFound : Keeps size (pure false) b := ⟨fun _ => rfl, fun _ _ => rfl⟩

lemma addLoop_keeps {limit inoNum needed fileType : ℕ} {nameBytes : List UInt8} (turns : ℕ) : ∀ p,
    Keeps size (addLoop size limit inoNum nameBytes needed fileType turns p) b := by
  induction turns with
  | zero => exact fun _ => trivial
  | succ turns ih =>
    intro p
    unfold Keeps addLoop
    rw [wp_ite]
    refine ⟨fun _ => wp_fetch_of ?_, fun _ => Keeps.notFound⟩
    rw [wp_ite]
    refine ⟨fun _ => Keeps.notFound, fun _ => wp_fetch_of ?_⟩
    rw [wp_ite]
    refine ⟨fun _ => ?_, fun _ => ih _⟩
    refine wp_store_of fun h₁ => wp_store_of fun h₂ => wp_store_of fun h₃ => ?_
    refine wp_store_of fun h₄ => wp_store_of fun h₅ => wp_store_of fun h₆ => ⟨nofun, fun i hi => ?_⟩
    simp only [put8, put16, put32]
    rw [patch_out (by omega), patch_out (by omega), patch_out (by omega), patch_out (by omega),
      patch_out (by omega),
      patch_out (by omega)]

lemma takeOut_keeps {p len : ℕ} {prev : Option ℕ} :
    Keeps size (takeOut size p len prev >>= fun _ => pure true) b := by
  cases prev with
  | some q =>
    rw [takeOut, bind_assoc]
    refine wp_fetch_of (wp_store_of fun h => ⟨nofun, fun i hi => ?_⟩)
    exact put16_out (by omega)
  | none =>
    rw [takeOut]
    refine wp_store_of fun h => ⟨nofun, fun i hi => ?_⟩
    exact put32_out (by omega)

lemma wp_regionMatches {Q : Bool → Bytes → Prop} (h : ∀ r, Q r b) (other : List UInt8) : ∀ o,
    wp (regionMatches size o other) Q (fun _ _ => True) b := by
  induction other with
  | nil => exact fun _ => h true
  | cons c other ih =>
    intro o
    rw [regionMatches]
    refine wp_fetch_of ?_
    rw [wp_ite]
    exact ⟨fun _ => h false, fun _ => ih _⟩

lemma removeLoop_keeps {limit inoNum : ℕ} {nameBytes : List UInt8} (turns : ℕ) : ∀ p prev,
    Keeps size (removeLoop size limit inoNum nameBytes turns p prev) b := by
  induction turns with
  | zero => exact fun _ _ => trivial
  | succ turns ih =>
    intro p prev
    unfold Keeps removeLoop
    rw [wp_ite]
    refine ⟨fun _ => wp_fetch_of (wp_fetch_of ?_), fun _ => Keeps.notFound⟩
    rw [wp_ite]
    refine ⟨fun _ => Keeps.notFound, fun _ => wp_fetch_of ?_⟩
    have hgo : ∀ found : Bool, wp (if found then do
          takeOut size p (recLen b p) prev
          pure true
        else removeLoop size limit inoNum nameBytes turns (p + recLen b p) (some p))
        (fun found b' => (found = false → b' = b) ∧ ∀ i, size ≤ i → b' i = b i) (fun _ _ => True) b := by
      intro found
      rw [wp_ite]
      exact ⟨fun _ => takeOut_keeps, fun _ => ih _ _⟩
    rw [wp_bind, isEntry, wp_ite]
    exact ⟨fun _ => wp_regionMatches hgo _ _, fun _ => hgo false⟩

lemma dotDotLoop_keeps {limit newParentIno : ℕ} (turns : ℕ) : ∀ p,
    Keeps size (dotDotLoop size limit newParentIno turns p) b := by
  induction turns with
  | zero => exact fun _ => trivial
  | succ turns ih =>
    intro p
    unfold Keeps dotDotLoop
    rw [wp_ite]
    refine ⟨fun _ => wp_fetch_of (wp_fetch_of (wp_fetch_of ?_)), fun _ => Keeps.notFound⟩
    rw [wp_ite]
    refine ⟨fun _ => wp_store_of fun h => ⟨nofun, fun i hi => ?_⟩, fun _ => ih _⟩
    exact put32_out (by omega)

end Keeps

/-! ### the four calls -/

section Calls

variable {size limit : ℕ} {b : Bytes}

/-- A call on an array, given the array's length, is safe: it returns, and does the same if only the
first `limit` bytes of the array are there; behind them nothing has changed, and nothing at all if
the call has found nothing. -/
def Safe (size limit : ℕ) (call : ℕ → B Bool) (b : Bytes) : Prop :=
  ∃ found b', call size b = .ok found b' ∧ call limit b = .ok found b' ∧ (found = false → b' = b) ∧
    ∀ i, limit ≤ i → b' i = b i

lemma Safe.returns {call : ℕ → B Bool} (h : Safe size limit call b) : Returns (call limit) b := by
  obtain ⟨found, b', -, h, -⟩ := h
  rw [Returns, wp_of_ok h]
  trivial

lemma safe_iff (call : ℕ → B Bool) (hext : Extends (call limit) (call size))
    (hkeeps : Keeps limit (call limit) b) : Safe size limit call b ↔ Returns (call limit) b := by
  refine ⟨Safe.returns, fun h => ?_⟩
  cases hr : call limit b with
  | ok found b' =>
    obtain ⟨hsame, hout⟩ := (wp_of_ok hr).1 hkeeps
    exact ⟨found, b', hext _ _ _ hr, hr, hsame, hout⟩
  | error e b' => exact ((wp_of_error hr).1 h).elim

def tailReserve (fs : Ext4FileSystem) : ℕ := if fs.hasMetadataCsum then 12 else 0

def dirLimit (fs : Ext4FileSystem) (size : ℕ) : ℕ := size - tailReserve fs

/-- **The four calls are safe** on a block, whatever it holds, if and only if each finds the records
that it comes to as it needs them: listed entries have their inodes on the device, the first record
with room to spare has the room before the limit, a name can be compared with the one to remove
before the limit, and up to the record `..` names lie before the limit and lengths are not 0. -/
theorem dirBlock_safe_iff (fs : Ext4FileSystem) (utf8 : List UInt8 → String) (parent : Option ℕ)
    (s : St) (size : ℕ) (b : Bytes) (inoNum fileType newParentIno : ℕ) (nameBytes : List UInt8) :
    ((∃ es, parseEntries size (dirLimit fs size) b = .ok es b ∧
        parseEntries (dirLimit fs size) (dirLimit fs size) b = .ok es b) ∧
      Answers (parseDirBlock fs utf8 parent size (dirLimit fs size) b) s) ∧
    Safe size (dirLimit fs size)
      (fun n => addEntryToBlock n (dirLimit fs size) inoNum nameBytes fileType) b ∧
    Safe size (dirLimit fs size) (fun n => removeFromBlock n (dirLimit fs size) inoNum nameBytes) b ∧
    Safe size (dirLimit fs size) (fun n => dotDotInBlock n (dirLimit fs size) newParentIno) b ↔
      Always (listNext b (dirLimit fs size))
        (ListNeeds b (dirLimit fs size) (InodeOnDevice fs s.dev)) 0 ∧
      Always (addNext b (dirLimit fs size) (recRoom nameBytes.length))
        (AddNeeds b (dirLimit fs size) (recRoom nameBytes.length) nameBytes) 0 ∧
      Always (removeNext b (dirLimit fs size) inoNum nameBytes)
        (RemoveNeeds b (dirLimit fs size) inoNum nameBytes) 0 ∧
      Always (dotDotNext b (dirLimit fs size)) (DotDotNeeds b (dirLimit fs size)) 0 := by
  obtain ⟨limit, hlimit⟩ : ∃ limit, dirLimit fs size = limit := ⟨_, rfl⟩
  have hle : limit ≤ size := hlimit ▸ Nat.sub_le _ _
  rw [hlimit]
  refine and_congr ?_ (and_congr ?_ (and_congr ?_ ?_))
  · have hparse : wp (parseLoop limit limit (limit + 1) 0 []) (fun es b' => b' = b ∧
        ((∀ e ∈ es, InodeOnDevice fs s.dev e.1) ↔
          (∀ e ∈ ([] : List (ℕ × List UInt8)), InodeOnDevice fs s.dev e.1) ∧
              Always (listNext b limit) (ListNeeds b limit (InodeOnDevice fs s.dev)) 0))
                  (fun _ _ => False) b :=
      parseLoop_spec _ _ _ (by omega) (by omega)
    cases hr : parseLoop limit limit (limit + 1) 0 [] b with
    | error e b' => exact ((wp_of_error hr).1 hparse).elim
    | ok es b' =>
      obtain ⟨rfl, hes⟩ := (wp_of_ok hr).1 hparse
      have hsize : parseEntries size limit b' = .ok es b' := parseLoop_extends hle _ _ _ _ _ _ hr
      rw [and_iff_right ⟨es, hsize, hr⟩, parseDirBlock, hsize, answers_mapM_forInode, hes]
      exact and_iff_right nofun
  · refine (safe_iff (fun n => addEntryToBlock n limit inoNum nameBytes fileType)
      (addLoop_extends hle _ _) (addLoop_keeps _ _)).trans ?_
    exact addLoop_returns_iff _ _ (by omega) (by omega)
  · refine (safe_iff (fun n => removeFromBlock n limit inoNum nameBytes) (removeLoop_extends hle _ _ _)
      (removeLoop_keeps _ _ _)).trans ?_
    exact removeLoop_returns_iff _ _ _ (by omega) (by omega) nofun
  · refine (safe_iff (fun n => dotDotInBlock n limit newParentIno) (dotDotLoop_extends hle _ _)
      (dotDotLoop_keeps _ _)).trans ?_
    exact dotDotLoop_returns_iff _ _ (by omega) (by omega)

def putRecord (b : Bytes) (pos len nameLen : ℕ) : Bytes := (b.put16 (pos + 4) len).put8 (pos + 6) nameLen

/-- A block of records without room to spare, and behind them one of the inode 7 at 992 with the
given length of the record and of its name. -/
def lateRecord (len nameLen : ℕ) : Bytes :=
  putRecord ((putRecord (putRecord (putRecord (putRecord zeros 0 264 255) 264 264 255) 528 264 255)
    792 200 192).put32 992 7) 992 len nameLen

def farInode : Bytes := (((zeros.put32 0 (2 ^ 31)).put16 4 1024).put8 6 1).put8 8 97

lemma zeros_unsafe {newParentIno : ℕ} (h : 8 ≤ limit) :
    ¬Safe size limit (fun n => dotDotInBlock n limit newParentIno) zeros := by
  intro hsafe
  have hname : recName zeros 0 ≠ DOT_DOT := by decide
  exact dotDotLoop_stuck (by omega) (by decide) hname _ hsafe.returns

/-- In a block of 1024 bytes: an entry that leads off the device, a record that claims to reach far
behind the block, a name that the end of the block cuts off, and a block of zeros. -/
theorem dirBlock_unsafe :
    ¬Answers (parseDirBlock smallFs (fun _ => "a") none 1024 1024 farInode) smallState ∧
    ¬Safe 1024 1024 (fun n => addEntryToBlock n 1024 12 [97] 1) (lateRecord 65535 20) ∧
    ¬Safe 1024 1024 (fun n => removeFromBlock n 1024 7 (List.replicate 30 0)) (lateRecord 40 30) ∧
    ¬Safe 1024 1024 (fun n => dotDotInBlock n 1024 2) zeros := by
  refine ⟨by decide +kernel, fun h => ?_, fun h => ?_, fun h => ?_⟩
  · exact absurd h.returns (by decide +kernel)
  · exact absurd h.returns (by decide +kernel)
  · exact zeros_unsafe (by decide) h

end Calls

end OtgMaster.Ext4
