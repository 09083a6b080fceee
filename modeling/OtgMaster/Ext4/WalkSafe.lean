import OtgMaster.Ext4.Walks

/-!
The two walks over an extent tree on a volume that may hold anything.

Nothing makes the depth of the nodes go down on the way, no entry count is compared with the room in
the node, and no block of an index entry with the size of the volume. So a walk answers, with a
result or an `IOException`, where the nodes it is led to have all the entries that it looks at, lie
on the device, and come to an end before the stack does (`Passable`), and only there.
-/

namespace OtgMaster.Ext4

open Lib Bytes Piece

/-! ### answers -/

def Ex.IsIo : Ex → Prop
  | .io _ => True
  | _ => False

/-- The call returns, or throws an `IOException`. -/
def Answers {α : Type} (m : M α) (s : St) : Prop := wp m (fun _ _ => True) (fun e _ => e.IsIo) s

instance (e : Ex) : Decidable e.IsIo := by
  cases e <;> unfold Ex.IsIo <;> infer_instance

instance {α : Type} (m : M α) (s : St) : Decidable (Answers m s) := by
  unfold Answers wp
  split <;> infer_instance

section Fields

variable {size o : ℕ} {b : Bytes} {s : St} {Q : ℕ → St → Prop} {E : Ex → St → Prop}

lemma wp_getShort : wp (getShort size b o) Q E s ↔
    (o + 2 ≤ size → Q (b.le16 o) s) ∧ (¬o + 2 ≤ size → E .indexOutOfBounds s) := by
  rw [getShort, wp_ite, wp_pure, wp_throw]

lemma wp_getInt : wp (getInt size b o) Q E s ↔
    (o + 4 ≤ size → Q (b.le32 o) s) ∧ (¬o + 4 ≤ size → E .indexOutOfBounds s) := by
  rw [getInt, wp_ite, wp_pure, wp_throw]

end Fields

/-! ### entries looked at one after another -/

/-- Of the `n` entries from `i` on, those up to the first at which the walk stops are as needed. -/
def Scanned (stop need : ℕ → Prop) (i n : ℕ) : Prop :=
  ∀ k, i ≤ k → k < i + n → (∀ j, i ≤ j → j < k → ¬stop j) → need k

section Scanned

variable {stop need : ℕ → Prop} {i n : ℕ}

lemma scanned_zero : Scanned stop need i 0 := fun k h₁ h₂ _ => by omega

lemma scanned_succ : Scanned stop need i (n + 1) ↔ need i ∧ (¬stop i → Scanned stop need (i + 1) n) := by
  constructor
  · intro h
    refine ⟨h i le_rfl (by omega) fun j _ _ => by omega, fun hi k h₁ h₂ hbefore => ?_⟩
    refine h k (by omega) (by omega) fun j hj hjk => ?_
    rcases Nat.eq_or_lt_of_le hj with rfl | hlt
    · exact hi
    · exact hbefore j hlt hjk
  · rintro ⟨hi, hrest⟩ k h₁ h₂ hbefore
    rcases Nat.eq_or_lt_of_le h₁ with rfl | hlt
    · exact hi
    · exact hrest (hbefore i le_rfl hlt) k hlt (by omega) fun j hj hjk => hbefore j (by omega) hjk

end Scanned

section Nodes

variable (size : ℕ) (data : Bytes) (offset t : ℕ)

def coversAt (i : ℕ) : Prop := (extentAt data (offset + 12 + i * 12)).Covers t

def keyAt (i : ℕ) : ℕ := data.le32 (offset + 12 + i * 12)

def blockAt (i : ℕ) : ℕ := (indexAt data (offset + 12 + i * 12)).2

/-- The entries of a leaf up to the one that covers the block lie in the array. -/
def LeafFits : ℕ → ℕ → Prop :=
  Scanned (coversAt data offset t) fun i => offset + 12 + i * 12 + 6 ≤ size ∧
    (coversAt data offset t i → offset + 12 + i * 12 + 12 ≤ size)

/-- The entries of an index node up to the first with a key above the block lie in the array, of
that one the key. -/
def IndexFits : ℕ → ℕ → Prop :=
  Scanned (fun i => t < keyAt data offset i) fun i => offset + 12 + i * 12 + 4 ≤ size ∧
    (keyAt data offset i ≤ t → offset + 12 + i * 12 + 10 ≤ size)

/-- The entry of an index node that leads to the block: the last one before the first key above
it. -/
def followed : ℕ → ℕ → Option ℕ → Option ℕ
  | _, 0, found => found
  | i, n + 1, found => if t < keyAt data offset i then found else followed (i + 1) n (some i)

variable {size data offset t} {s : St}

variable {α : Type} {n i : ℕ}

lemma answers_getShort {o : ℕ} {f : ℕ → M α} :
    Answers (getShort size data o >>= f) s ↔ o + 2 ≤ size ∧ Answers (f (data.le16 o)) s := by
  rw [Answers, wp_bind, wp_getShort]
  by_cases h : o + 2 ≤ size
  · simp only [h, true_and, not_true, false_implies, and_true, true_implies, Answers]
  · simp [h, Ex.IsIo]

lemma answers_getInt {o : ℕ} {f : ℕ → M α} :
    Answers (getInt size data o >>= f) s ↔ o + 4 ≤ size ∧ Answers (f (data.le32 o)) s := by
  rw [Answers, wp_bind, wp_getInt]
  by_cases h : o + 4 ≤ size
  · simp only [h, true_and, not_true, false_implies, and_true, true_implies, Answers]
  · simp [h, Ex.IsIo]

lemma answers_pure (a : α) : Answers (pure a) s := trivial

lemma answers_ite {p : Prop} [Decidable p] {m m' : M α} :
    Answers (if p then m else m') s ↔ (p → Answers m s) ∧ (¬p → Answers m' s) := wp_ite

lemma leafSearch_answers {mappedOnly : Bool} (h : LeafFits size data offset t i n) :
    Answers (leafSearch size data offset t mappedOnly i n) s := by
  induction n generalizing i with
  | zero => exact answers_pure _
  | succ n ih =>
    obtain ⟨⟨hfits, hcovered⟩, hrest⟩ := scanned_succ.1 h
    rw [leafSearch, answers_getInt, answers_getShort, answers_ite]
    refine ⟨by omega, by omega, fun hcov => ?_, fun hcov => ih (hrest hcov)⟩
    have hwhole := hcovered hcov
    rw [answers_ite, answers_getShort, answers_getInt]
    exact ⟨fun _ => answers_pure _, fun _ => ⟨by omega, by omega, answers_pure _⟩⟩

lemma leafFits_of_answers (h : Answers (leafSearch size data offset t true i n) s) :
    LeafFits size data offset t i n := by
  induction n generalizing i with
  | zero => exact scanned_zero
  | succ n ih =>
    rw [leafSearch, answers_getInt, answers_getShort, answers_ite] at h
    obtain ⟨-, hlen, hcov, hrest⟩ := h
    refine scanned_succ.2 ⟨⟨by omega, fun hc => ?_⟩, fun hc => ih (hrest hc)⟩
    have hin := hcov hc
    rw [answers_ite, answers_getShort, answers_getInt] at hin
    obtain ⟨-, hlast, -⟩ := hin.2 (by simp)
    omega

lemma leafMap_answers {limit : ℕ} (h : LeafFits size data offset t i n) :
    Answers (leafMap size data offset t limit i n) s := by
  induction n generalizing i with
  | zero => exact answers_pure _
  | succ n ih =>
    obtain ⟨⟨hfits, hcovered⟩, hrest⟩ := scanned_succ.1 h
    rw [leafMap, answers_getInt, answers_getShort, answers_ite, answers_ite]
    refine ⟨by omega, by omega, fun _ => answers_pure _, fun hge => ⟨fun hlt => ?_, fun hlt => ?_⟩⟩
    · have hwhole := hcovered ⟨Nat.le_of_not_lt hge, hlt⟩
      rw [answers_getShort, answers_getInt]
      exact ⟨by omega, by omega, answers_pure _⟩
    · exact ih (hrest fun hcov => hlt hcov.2)

/-! ### index nodes -/

/-- The search in an index node reads all that it looks at and finds the entry to follow, or it does
not answer. -/
lemma childSearch_answers {f : Option ℕ → M α} (found : Option ℕ) :
    Answers (childSearch size data offset t i n (found.map (blockAt data offset)) >>= f) s ↔
      IndexFits size data offset t i n ∧
        Answers (f ((followed data offset t i n found).map (blockAt data offset))) s := by
  induction n generalizing i found with
  | zero =>
    rw [childSearch, pure_bind, followed]
    exact (and_iff_right scanned_zero).symm
  | succ n ih =>
    rw [IndexFits, scanned_succ, ← IndexFits, childSearch, bind_assoc, answers_getInt, followed]
    by_cases hkey : t < keyAt data offset i
    · have hif : t < data.le32 (offset + 12 + i * 12) := hkey
      rw [if_pos hif, if_pos hkey, pure_bind]
      constructor
      · rintro ⟨hfits, h⟩
        exact ⟨⟨⟨hfits, fun hle => absurd hkey (Nat.not_lt.2 hle)⟩, fun hne => absurd hkey hne⟩, h⟩
      · rintro ⟨⟨⟨hfits, -⟩, -⟩, h⟩
        exact ⟨hfits, h⟩
    · have hif : ¬t < data.le32 (offset + 12 + i * 12) := hkey
      have hnext :
          Answers (childSearch size data offset t (i + 1) n (some (blockAt data offset i)) >>= f)
              s ↔ _ :=
        ih (some i)
      rw [if_neg hif, if_neg hkey, bind_assoc, answers_getInt, bind_assoc, answers_getShort]
      constructor
      · rintro ⟨h₁, -, h₃, h⟩
        obtain ⟨hfits, hf⟩ := hnext.1 h
        exact ⟨⟨⟨h₁, fun _ => h₃⟩, fun _ => hfits⟩, hf⟩
      · rintro ⟨⟨⟨h₁, h₂⟩, hfits⟩, hf⟩
        have h₃ := h₂ (Nat.le_of_not_lt hkey)
        exact ⟨h₁, by omega, h₃, hnext.2 ⟨hfits hkey, hf⟩⟩

lemma followed_spec {c : ℕ} (found : Option ℕ) (h : followed data offset t i n found = some c) :
    found = some c ∨ i ≤ c ∧ c < i + n ∧ ∀ j, i ≤ j → j ≤ c → keyAt data offset j ≤ t := by
  induction n generalizing i found with
  | zero => exact .inl h
  | succ n ih =>
    rw [followed] at h
    split at h
    · exact .inl h
    · rename_i hkey
      rcases ih _ h with heq | ⟨h₁, h₂, h₃⟩
      · cases heq
        refine .inr ⟨le_rfl, by omega, fun j hj hj' => ?_⟩
        rw [Nat.le_antisymm hj' hj]
        exact Nat.le_of_not_lt hkey
      · refine .inr ⟨by omega, by omega, fun j hj hj' => ?_⟩
        rcases Nat.eq_or_lt_of_le hj with rfl | hlt
        · exact Nat.le_of_not_lt hkey
        · exact h₃ j hlt hj'

lemma findChild_answers (found : Option ℕ) (h : IndexFits size data offset t i n) :
    ∃ next, findChild size data offset t i n found s =
      .ok (followed data offset t i n found, next) s := by
  induction n generalizing i found with
  | zero => exact ⟨none, rfl⟩
  | succ n ih =>
    obtain ⟨⟨hkey, -⟩, hrest⟩ := scanned_succ.1 h
    rw [findChild, getInt_eq hkey, pure_bind, followed]
    by_cases hlt : t < keyAt data offset i
    · have hif : t < data.le32 (offset + 12 + i * 12) := hlt
      rw [if_pos hif, if_pos hlt]
      exact ⟨_, rfl⟩
    · have hif : ¬t < data.le32 (offset + 12 + i * 12) := hlt
      rw [if_neg hif, if_neg hlt]
      exact ih (some i) (hrest hlt)

end Nodes

/-! ### whole walks -/

section Walk

variable (fs : Ext4FileSystem) (dev : Bytes) (t : ℕ)

/-- The way to logical block `t` from the node at `offset` in `data` can be walked in no more than
`frames` nodes: every node has the fields of its header and the entries up to the one that matters,
the block below an index entry is on the device, and the way ends, at a node with a wrong magic, in
a leaf or before the first key. -/
def Passable : ℕ → ℕ → Bytes → ℕ → Prop
  | 0, _, _, _ => False
  | frames + 1, size, data, offset =>
    offset + 2 ≤ size ∧ (data.le16 offset = EXTENT_MAGIC → offset + 8 ≤ size ∧
      if data.le16 (offset + 6) = 0 then LeafFits size data offset t 0 (data.le16 (offset + 2))
      else IndexFits size data offset t 0 (data.le16 (offset + 2)) ∧
        ∀ i, followed data offset t 0 (data.le16 (offset + 2)) none = some i →
          blockAt data offset i * fs.blockSize + fs.blockSize ≤ fs.deviceSize ∧
          Passable frames fs.blockSize
            (dev.window (blockAt data offset i * fs.blockSize) fs.blockSize) 0)

variable {fs t} {s : St} {inodeNum : ℕ}

lemma answers_readBlock {α : Type} {b : ℕ} {f : Bytes → M α} : Answers (readBlock fs b >>= f) s ↔
    b * fs.blockSize + fs.blockSize ≤ fs.deviceSize ∧
    Answers (f (s.dev.window (b * fs.blockSize) fs.blockSize)) s := by
  by_cases h : b * fs.blockSize + fs.blockSize ≤ fs.deviceSize
  · rw [Answers, wp, bind_run (readBlock_run h)]
    exact (and_iff_right h).symm
  · have herror : readBlock fs b s = .error _ s := devRead_error h
    rw [Answers, wp, bind_error herror]
    exact iff_of_false id fun hin => h hin.1

lemma answers_magic {α : Type} {magic : ℕ} {m : M α} :
    Answers (throwIf (magic ≠ EXTENT_MAGIC) (badMagic magic inodeNum) >>= fun _ => m) s ↔
      (magic = EXTENT_MAGIC → Answers m s) := by
  rw [Answers, wp_bind, wp_throwIf, ne_eq, not_not]
  exact ⟨fun h => h.2, fun h => ⟨fun _ => trivial, h⟩⟩

lemma extentSearch_answers (mappedOnly : Bool) : ∀ {frames size data offset},
    Passable fs s.dev t frames size data offset →
    Answers (extentSearch fs inodeNum frames size data offset t mappedOnly) s := by
  intro frames
  induction frames with
  | zero => exact fun h => h.elim
  | succ frames ih =>
    rintro size data offset ⟨hmagic, hnode⟩
    rw [extentSearch, answers_getShort, answers_magic]
    refine ⟨hmagic, fun hm => ?_⟩
    obtain ⟨hheader, hrest⟩ := hnode hm
    rw [answers_getShort, answers_getShort]
    refine ⟨by omega, by omega, ?_⟩
    by_cases hdepth : data.le16 (offset + 6) = 0
    · rw [if_pos hdepth] at hrest ⊢
      exact leafSearch_answers hrest
    · rw [if_neg hdepth] at hrest ⊢
      obtain ⟨hfits, hchild⟩ := hrest
      refine (childSearch_answers none).2 ⟨hfits, ?_⟩
      cases hf : followed data offset t 0 (data.le16 (offset + 2)) none with
      | none => exact answers_pure none
      | some i =>
        obtain ⟨hin, hbelow⟩ := hchild i hf
        exact answers_readBlock.2 ⟨hin, ih hbelow⟩

lemma extentMap_answers :
    ∀ {frames size data offset limit}, Passable fs s.dev t frames size data offset →
    Answers (extentMap fs inodeNum frames size data offset t limit) s := by
  intro frames
  induction frames with
  | zero => exact fun h => h.elim
  | succ frames ih =>
    rintro size data offset limit ⟨hmagic, hnode⟩
    rw [extentMap, answers_getShort, answers_magic]
    refine ⟨hmagic, fun hm => ?_⟩
    obtain ⟨hheader, hrest⟩ := hnode hm
    rw [answers_getShort, answers_getShort]
    refine ⟨by omega, by omega, ?_⟩
    by_cases hdepth : data.le16 (offset + 6) = 0
    · rw [if_pos hdepth] at hrest ⊢
      exact leafMap_answers hrest
    · rw [if_neg hdepth] at hrest ⊢
      obtain ⟨hfits, hchild⟩ := hrest
      obtain ⟨next, hfind⟩ := findChild_answers (s := s) none hfits
      rw [Answers, wp, bind_run hfind]
      cases hf : followed data offset t 0 (data.le16 (offset + 2)) none with
      | none => cases next <;> trivial
      | some i =>
        obtain ⟨hin, hbelow⟩ := hchild i hf
        obtain ⟨-, hi, hkeys⟩ := (followed_spec none hf).resolve_left fun h => by cases h
        obtain ⟨-, hentry⟩ :=
          hfits i (Nat.zero_le i) hi fun j hj hji => Nat.not_lt.2 (hkeys j hj (by omega))
        have hplace := hentry (hkeys i (Nat.zero_le i) le_rfl)
        have hlimit :
            ∃ l, childLimit size data (offset + 12 + i * 12) i (data.le16 (offset + 2)) limit =
                pure l := by
          unfold childLimit
          split
          · -- the key behind the entry to follow has been looked at
            obtain ⟨hnext, -⟩ := hfits (i + 1) (Nat.zero_le _) (by omega) fun j hj hji =>
              Nat.not_lt.2 (hkeys j hj (by omega))
            rw [getInt_eq (by omega), pure_bind]
            exact ⟨_, rfl⟩
          · exact ⟨limit, rfl⟩
        obtain ⟨l, hl⟩ := hlimit
        show Answers
          (childLimit size data (offset + 12 + i * 12) i (data.le16 (offset + 2)) limit >>= _) s
        rw [hl, pure_bind, answers_getInt, answers_getShort]
        exact ⟨by omega, by omega, answers_readBlock.2 ⟨hin, ih hbelow⟩⟩

lemma passable_of_answers : ∀ {frames size data offset},
    Answers (extentSearch fs inodeNum frames size data offset t true) s →
    Passable fs s.dev t frames size data offset := by
  intro frames
  induction frames with
  | zero => exact fun h => h
  | succ frames ih =>
    intro size data offset h
    rw [extentSearch, answers_getShort, answers_magic] at h
    obtain ⟨hmagic, h⟩ := h
    refine ⟨hmagic, fun hm => ?_⟩
    obtain ⟨-, h⟩ := answers_getShort.1 (h hm)
    obtain ⟨hheader, h⟩ := answers_getShort.1 h
    refine ⟨hheader, ?_⟩
    by_cases hdepth : data.le16 (offset + 6) = 0
    · rw [if_pos hdepth] at h ⊢
      exact leafFits_of_answers h
    · rw [if_neg hdepth] at h ⊢
      obtain ⟨hfits, h⟩ := (childSearch_answers none).1 h
      refine ⟨hfits, fun i hi => ?_⟩
      rw [hi] at h
      obtain ⟨hin, hbelow⟩ := answers_readBlock.1 h
      exact ⟨hin, ih hbelow⟩

/-- **Both walks answer**, whatever the volume holds, if and only if the way to the block can be
walked on the stack. -/
theorem walks_answer_iff {frames size offset : ℕ} {data : Bytes} :
    ((∀ mappedOnly, Answers (extentSearch fs inodeNum frames size data offset t mappedOnly) s) ∧
      ∀ limit, Answers (extentMap fs inodeNum frames size data offset t limit) s) ↔
    Passable fs s.dev t frames size data offset := by
  constructor
  · rintro ⟨hsearch, -⟩
    exact passable_of_answers (hsearch true)
  · intro h
    exact ⟨fun mappedOnly => extentSearch_answers mappedOnly h, fun limit => extentMap_answers h⟩

def oneWay (b : Bytes) (o block : ℕ) : Bytes :=
  (((b.put16 o EXTENT_MAGIC).put16 (o + 2) 1).put16 (o + 6) 1).put32 (o + 16) block

/-- A volume on which block 5 is an index node that leads to itself. -/
def loopState : St := freshState (oneWay zeros (5 * 1024) 5) 0 none

/-- A node that leads to itself, a node that leads off the device, and a leaf that claims more
entries than it has room for: none of the walks answers. -/
theorem walks_without_answer :
    (¬Answers (extentSearch smallFs 12 1024 256 (oneWay zeros 40 5) 40 0 false) loopState ∧
      ¬Answers (extentMap smallFs 12 1024 256 (oneWay zeros 40 5) 40 0 LONG_MAX) loopState) ∧
    (¬Answers (extentSearch smallFs 12 1024 256 (oneWay zeros 40 64) 40 0 false) smallState ∧
      ¬Answers (extentMap smallFs 12 1024 256 (oneWay zeros 40 64) 40 0 LONG_MAX) smallState) ∧
    (¬Answers (extentSearch smallFs 12 1024 256 ((twoBlockInode 20).put16 42 18) 40 2 false) smallState ∧
      ¬Answers (extentMap smallFs 12 1024 256 ((twoBlockInode 20).put16 42 18) 40 2 LONG_MAX)
        smallState) := by
  decide +kernel

end Walk

end OtgMaster.Ext4
