import OtgMaster.Recovery.Fat

/-!
The names of deleted files on FAT32. A long name lies in parts of thirteen units before its short
entry, last part first, and each part has a checksum of the short name (`laidOut`). Deleting
overwrites the first byte of each of these slots (`erased`): the sequence numbers of the parts and
the first byte of the short name are gone.

The checksum turns a byte and adds the next one, so with the other ten bytes fixed it takes a
different value for each first byte (`checksum_set_inj`), and the stored sum has only one to offer
(`restored_erased`).
-/

namespace OtgMaster.Recovery

open Lib Block

/-! ### how FAT lays out a name -/

def unitBytes (u : ℕ) : List UInt8 := [Bytes.leByte u 0, Bytes.leByte u 1]

/-- A long-name part: its sequence number, five units, its attributes and type, the checksum, six
units, a cluster number of zero and two units. -/
def partSlot (seq : UInt8) (sum : ℕ) (units : Units) : Slot :=
  seq :: (units.take 5).flatMap unitBytes ++ [0x0F, 0, UInt8.ofNat sum] ++
    ((units.drop 5).take 6).flatMap unitBytes ++
    [0, 0] ++ (units.drop 11).flatMap unitBytes

/-- The units of the parts: a name that does not fill the last part ends in a zero and is filled
up. -/
def padded (name : Units) : Units :=
  if name.length % 13 = 0 then name else name ++ 0 :: List.replicate (12 - name.length % 13) 0xFFFF

def thirteens : (count : ℕ) → Units → List Units
  | 0, _ => []
  | count + 1, units => units.take 13 :: thirteens count (units.drop 13)

def partsOf (name : Units) : List Units := thirteens ((name.length + 12) / 13) (padded name)

/-- The parts of a long name in the order of the drive, and the short entry. The last part is
marked. -/
def laidOut (name : Units) (short : Slot) : List Slot :=
  let parts := partsOf name
  (parts.mapIdx fun i units =>
    partSlot (UInt8.ofNat (if i + 1 = parts.length then 0x40 + (i + 1) else i + 1))
      (checksum short) units).reverse ++ [short]

def erased (e : Slot) : Slot := e.set 0 0xE5

/-! ### the checksum -/

lemma addByte_lt (sum : ℕ) (b : UInt8) : addByte sum b < 256 := Nat.mod_lt _ (by decide)

lemma addByte_inj {s s' : ℕ} (hs : s < 256) (hs' : s' < 256) (b : UInt8)
    (h : addByte s b = addByte s' b) : s = s' := by
  have hb := b.toNat_lt
  unfold addByte at h
  -- the turned sums are bytes, so they are equal, and turning back gives the sums
  have hturn : s % 2 * 128 + s / 2 = s' % 2 * 128 + s' / 2 := by
    generalize hr : s % 2 * 128 + s / 2 = r at h ⊢
    generalize hr' : s' % 2 * 128 + s' / 2 = r' at h ⊢
    have : r < 256 := by omega
    have : r' < 256 := by omega
    omega
  omega

lemma foldl_addByte_inj (l : List UInt8) {s s' : ℕ} (hs : s < 256) (hs' : s' < 256)
    (h : l.foldl addByte s = l.foldl addByte s') : s = s' := by
  induction l generalizing s s' with
  | nil => exact h
  | cons b l ih => exact addByte_inj hs hs' b (ih (addByte_lt s b) (addByte_lt s' b) h)

/-- **The checksum tells first bytes apart.** -/
lemma checksum_set_inj {e : Slot} (he : e ≠ []) {b b' : UInt8}
    (h : checksum (e.set 0 b) = checksum (e.set 0 b')) : b = b' := by
  obtain ⟨x, e, rfl⟩ := List.exists_cons_of_ne_nil he
  simp only [checksum, List.set_cons_zero, List.take_succ_cons, List.foldl_cons] at h
  have hb := foldl_addByte_inj _ (addByte_lt 0 b) (addByte_lt 0 b') h
  have := b.toNat_lt
  have := b'.toNat_lt
  unfold addByte at hb
  exact UInt8.toNat_inj.1 (by omega)

lemma checksum_lt (e : Slot) : checksum e < 256 := by
  unfold checksum
  generalize e.take 11 = l
  have : ∀ (l : List UInt8) (s : ℕ), s < 256 → l.foldl addByte s < 256 := by
    intro l
    induction l with
    | nil => exact fun _ hs => hs
    | cons b l ih => exact fun s _ => ih _ (addByte_lt s b)
  exact this l 0 (by decide)

lemma restored_erased {parts : List Slot} {short : Slot} (hne : short ≠ []) (hfirst : 0x20 ≤ short.first)
    (hsum : (parts.headD []).sum = checksum short) : restored parts (erased short) = short := by
  have hset (b : UInt8) : (erased short).set 0 b = short.set 0 b := List.set_set ..
  have hself : short.set 0 (UInt8.ofNat short.first) = short := by
    obtain ⟨x, e, rfl⟩ := List.exists_cons_of_ne_nil hne
    simp [Slot.first]
  have hlt : short.first < 256 := UInt8.toNat_lt _
  unfold restored
  simp only [hset, hsum]
  cases hfind : (List.range' 0x20 224).find? fun b => checksum (short.set 0 (UInt8.ofNat b)) =
      checksum short with
  | some b =>
    have hb := List.find?_some hfind
    rw [decide_eq_true_iff] at hb
    have : UInt8.ofNat b = UInt8.ofNat short.first :=
      checksum_set_inj hne (hb.trans (congrArg checksum hself).symm)
    simp only [this, hself]
  | none =>
    have hno := List.find?_eq_none.1 hfind short.first (List.mem_range'_1.2 ⟨hfirst, by omega⟩)
    rw [decide_eq_true_iff, hself] at hno
    exact absurd rfl hno

/-! ### the long name -/

lemma thirteens_length (count : ℕ) (units : Units) : (thirteens count units).length = count := by
  induction count generalizing units with
  | zero => rfl
  | succ count ih => rw [thirteens, List.length_cons, ih]

variable {units : Units} {seq : UInt8} {sum : ℕ}

lemma thirteens_flatten {count : ℕ} (h : units.length = 13 * count) :
    (thirteens count units).flatten = units ∧ ∀ u ∈ thirteens count units, u.length = 13 := by
  induction count generalizing units with
  | zero => exact ⟨(List.length_eq_zero_iff.1 h).symm, nofun⟩
  | succ count ih =>
    obtain ⟨hflat, hlen⟩ := ih (show (units.drop 13).length = _ by rw [List.length_drop]; omega)
    refine ⟨?_, ?_⟩
    · rw [thirteens, List.flatten_cons, hflat, List.take_append_drop]
    · intro u hu
      rcases List.mem_cons.1 hu with rfl | hu
      · rw [List.length_take]
        omega
      · exact hlen u hu

lemma padded_length (name : Units) : (padded name).length = 13 * ((name.length + 12) / 13) := by
  unfold padded
  split
  · omega
  · simp only [List.length_append, List.length_cons, List.length_replicate]
    omega

lemma padded_takeWhile {name : Units} (h : ∀ u ∈ name, u ≠ 0 ∧ u ≠ 0xFFFF) :
    (padded name).takeWhile (fun ch => ch ≠ 0 ∧ ch ≠ 0xFFFF) = name := by
  have hname : name.takeWhile (fun ch => decide (ch ≠ 0 ∧ ch ≠ 0xFFFF)) = name :=
    List.takeWhile_eq_self_iff.2 fun u hu => decide_eq_true (h u hu)
  unfold padded
  split
  · exact hname
  · rw [List.takeWhile_append, hname, if_pos rfl]
    simp

lemma le16_unit (u : ℕ) (hu : u < 65536) :
    (Bytes.leByte u 0).toNat + 256 * (Bytes.leByte u 1).toNat = u := by
  rw [Bytes.toNat_leByte, Bytes.toNat_leByte]
  omega

lemma partUnits_partSlot (hlen : units.length = 13)
    (hunits : ∀ u ∈ units, u < 65536) : partUnits (partSlot seq sum units) = units := by
  match units, hlen with
  | [a, b, c, d, e, f, g, h, i, j, k, l, m], _ =>
    simp only [List.mem_cons, List.not_mem_nil, or_false, forall_eq_or_imp, forall_eq] at hunits
    obtain ⟨ha, hb, hc, hd, he, hf, hg, hh, hi, hj, hk, hl, hm⟩ := hunits
    simp [partUnits, partSlot, unitBytes, Bytes.le16, Bytes.ofList, le16_unit, *]

lemma sum_partSlot (hsum : sum < 256) (hlen : units.length = 13) :
    (partSlot seq sum units).sum = sum ∧ (partSlot seq sum units).attr = 0x0F := by
  match units, hlen with
  | [a, b, c, d, e, f, g, h, i, j, k, l, m], _ =>
    refine ⟨?_, rfl⟩
    simp [Slot.sum, partSlot, unitBytes, hsum]

lemma length_partSlot (hlen : units.length = 13) :
    (partSlot seq sum units).length = 32 := by
  match units, hlen with
  | [a, b, c, d, e, f, g, h, i, j, k, l, m], _ => rfl

lemma erased_laidOut (name : Units) (short : Slot) :
    (laidOut name short).map erased = (partsOf name).reverse.map (partSlot 0xE5 (checksum short)) ++
      [erased short] := by
  unfold laidOut
  rw [List.map_append, List.map_reverse, List.map_reverse]
  congr 2
  -- the sequence number is what is overwritten
  refine List.ext_getElem (by simp) fun i h1 h2 => ?_
  simp only [List.getElem_map, List.getElem_mapIdx]
  rfl

section Name

variable {name : Units} {short : Slot}

lemma mem_partsOf {units : Units} (h : units ∈ partsOf name) : units.length = 13 :=
  (thirteens_flatten (padded_length name)).2 units h

lemma partsOf_ne_nil (h : 1 ≤ name.length) : partsOf name ≠ [] := by
  intro h0
  have := congrArg List.length h0
  rw [partsOf, thirteens_length, List.length_nil] at this
  omega

lemma longName_erased (hname : 1 ≤ name.length) (hunits : ∀ u ∈ name, u ≠ 0 ∧ u < 0xFFFF) :
    longName ((partsOf name).reverse.map (partSlot 0xE5 (checksum short))) short = some name := by
  have hpad : ∀ u ∈ padded name, u < 65536 := by
    intro u hu
    unfold padded at hu
    split at hu
    · have := (hunits u hu).2
      omega
    · rcases List.mem_append.1 hu with hu | hu
      · have := (hunits u hu).2
        omega
      · rcases List.mem_cons.1 hu with rfl | hu
        · decide
        · rw [List.eq_of_mem_replicate hu]
          decide
  have hflat := (thirteens_flatten (padded_length name)).1
  have hback :
      (partsOf name).flatMap (fun units => partUnits (partSlot 0xE5 (checksum short) units)) =
          padded name := by
    have hid : (partsOf name).map (fun units => partUnits (partSlot 0xE5 (checksum short) units)) =
        partsOf name := by
      conv_rhs => rw [← List.map_id (partsOf name)]
      refine List.map_congr_left fun units hu => partUnits_partSlot (mem_partsOf hu) fun u hu' =>
        hpad u ?_
      rw [← hflat]
      exact List.mem_flatten.2 ⟨units, hu, hu'⟩
    rw [List.flatMap_def, hid]
    exact hflat
  unfold longName
  rw [if_neg, ← List.map_reverse, List.reverse_reverse, List.flatMap_map, hback,
    padded_takeWhile fun u hu => ⟨(hunits u hu).1, by have := (hunits u hu).2; omega⟩]
  rintro (h0 | ⟨p, hp, hsum⟩)
  · rw [List.map_eq_nil_iff, List.reverse_eq_nil_iff] at h0
    exact partsOf_ne_nil hname h0
  · obtain ⟨units, hu, rfl⟩ := List.mem_map.1 hp
    exact hsum (sum_partSlot (checksum_lt short) (mem_partsOf (List.mem_reverse.1 hu))).1

end Name

/-! ### the short name -/

/-- The short name reads as `..`: blanks, with a full stop alone after them. -/
def ReadsAsParent (e : Slot) : Prop :=
  (∀ b ∈ e.take 8, white b.toNat) ∧ (e.getD 8 0).toNat = 0x2E ∧ white (e.getD 9 0).toNat ∧
  white (e.getD 10 0).toNat

instance : DecidablePred ReadsAsParent := fun _ => inferInstanceAs (Decidable (_ ∧ _ ∧ _ ∧ _))

lemma lower_eq_dot {c : ℕ} (h : lower c = 0x2E) : c = 0x2E := by
  unfold lower at h
  split at h <;> omega

lemma caseOf_dots {lowered : Bool} {raw : List UInt8} {n : ℕ}
    (h : caseOf lowered raw = List.replicate n 0x2E) :
    trimEnd (raw.map UInt8.toNat) = List.replicate n 0x2E := by
  unfold caseOf at h
  cases lowered with
  | false => exact h
  | true =>
    rw [if_pos rfl] at h
    generalize trimEnd (raw.map UInt8.toNat) = s at h ⊢
    refine List.eq_replicate_iff.2 ⟨by simpa using congrArg List.length h, fun c hc => ?_⟩
    exact lower_eq_dot (List.eq_of_mem_replicate (h ▸ List.mem_map_of_mem hc))

lemma trimEnd_append (s : Units) : ∃ t, trimEnd s ++ t = s ∧ ∀ c ∈ t, white c := by
  refine ⟨s.rtakeWhile white, List.rdropWhile_append_rtakeWhile ..,
    fun c hc => List.mem_rtakeWhile_imp hc⟩

/-- **A short name that reads as one of the dot entries.** -/
lemma shortName_dots {e : Slot} (hlen : e.length = 32) (hfirst : e.first ≠ 0x2E)
    (h : shortName e false = [0x2E] ∨ shortName e false = [0x2E, 0x2E]) : ReadsAsParent e := by
  obtain ⟨x, e, rfl⟩ : ∃ x e', e = x :: e' := List.exists_cons_of_ne_nil (by rintro rfl; simp at hlen)
  simp only [shortName, Bool.false_eq_true, if_false] at h
  set base := caseOf (((x :: e).getD 12 0).toNat.testBit 3) (((x :: e).take 11).take 8) with hbase
  set ext := caseOf (((x :: e).getD 12 0).toNat.testBit 4) (((x :: e).take 11).drop 8) with hext
  by_cases hnil : ext = []
  · -- the base is one dot or two, and starts with the first byte
    rw [if_pos hnil] at h
    obtain ⟨n, hn⟩ : ∃ n, base = List.replicate (n + 1) 0x2E := by
      rcases h with h | h
      · exact ⟨0, h⟩
      · exact ⟨1, h⟩
    obtain ⟨t, ht, -⟩ := trimEnd_append (((x :: e).take 11).take 8 |>.map UInt8.toNat)
    rw [caseOf_dots hn, List.replicate_succ, List.cons_append, List.take_succ_cons, List.take_succ_cons,
      List.map_cons] at ht
    exact absurd (List.cons.inj ht).1.symm hfirst
  · rw [if_neg hnil] at h
    obtain ⟨hb, he⟩ : base = List.replicate 0 0x2E ∧ ext = List.replicate 1 0x2E := by
      rcases h with h | h
      · have := congrArg List.length h
        simp only [List.length_append, List.length_cons, List.length_nil] at this
        exact absurd (List.length_eq_zero_iff.1 (by omega)) hnil
      · cases hb : base with
        | nil =>
          rw [hb, List.nil_append] at h
          exact ⟨rfl, (List.cons.inj h).2⟩
        | cons c cs =>
          have := congrArg List.length h
          rw [hb] at this
          simp only [List.length_append, List.length_cons, List.length_nil] at this
          exact absurd (List.length_eq_zero_iff.1 (by omega)) hnil
    have hwhite := List.rdropWhile_eq_nil_iff.1 (caseOf_dots hb)
    obtain ⟨t, ht, htwhite⟩ := trimEnd_append (((x :: e).take 11).drop 8 |>.map UInt8.toNat)
    rw [caseOf_dots he] at ht
    match e, hlen with
    | b1 :: b2 :: b3 :: b4 :: b5 :: b6 :: b7 :: b8 :: b9 :: b10 :: e, _ =>
      simp only [List.take_succ_cons, List.take_zero, List.drop_succ_cons, List.drop_zero,
        List.map_cons, List.map_nil, List.replicate_succ, List.replicate_zero, List.cons_append,
        List.nil_append, List.cons.injEq] at ht
      obtain ⟨hdot, rfl⟩ := ht
      refine ⟨fun b hb => hwhite _ (List.mem_map_of_mem (by simpa using hb)), hdot.symm, ?_, ?_⟩
      · exact htwhite _ (by simp)
      · exact htwhite _ (by simp)

/-! ### a folder with a deleted file -/

section Folder

variable {place : Locale} {name : Units} {short : Slot} {lfn pre post : List Slot}

/-- Slots with no end marker among them, and no long-name part last. -/
structure Whole (l : List Slot) : Prop where
  marker : ∀ e ∈ l, e.first ≠ 0
  last : ∀ e ∈ l.getLast?, e.attr ≠ 0x0F

lemma entriesLoop_parts {parts : List Slot} (h : ∀ p ∈ parts, p.first ≠ 0 ∧ p.attr = 0x0F) :
    entriesLoop place lfn (parts ++ post) = entriesLoop place (lfn ++ parts) post := by
  induction parts generalizing lfn with
  | nil => simp
  | cons p parts ih =>
    obtain ⟨⟨h0, hattr⟩, hparts⟩ := List.forall_mem_cons.1 h
    rw [List.cons_append, entriesLoop, if_neg h0, if_pos hattr, ih hparts, List.append_assoc,
      List.singleton_append]

lemma entriesLoop_whole (h : Whole pre) (hlfn : pre = [] → lfn = []) :
    entriesLoop place lfn (pre ++ post) = entriesLoop place lfn pre ++ entriesLoop place [] post := by
  induction pre generalizing lfn with
  | nil =>
    cases hlfn rfl
    simp [entriesLoop]
  | cons e pre ih =>
    obtain ⟨h0, hpre⟩ := List.forall_mem_cons.1 h.marker
    have hrest : Whole pre := by
      refine ⟨hpre, fun x hx => h.last x ?_⟩
      cases pre with
      | nil => cases hx
      | cons y pre => rwa [List.getLast?_cons_cons]
    rw [List.cons_append, entriesLoop, entriesLoop, if_neg h0, if_neg h0]
    split
    · rename_i hattr
      refine ih hrest fun hnil => ?_
      subst hnil
      exact absurd hattr (h.last e rfl)
    · split
      · exact ih hrest fun _ => rfl
      · rw [ih hrest fun _ => rfl, List.append_assoc]

lemma slotsOf_flatten {l : List Slot} (h : ∀ e ∈ l, e.length = 32) : slotsOf l.flatten = l := by
  have hlen : l.flatten.length = 32 * l.length := by
    rw [List.length_flatten, List.map_congr_left h, List.map_const', List.sum_replicate_nat,
      Nat.mul_comm]
  unfold slotsOf
  rw [hlen, Nat.mul_div_cancel_left _ (by decide)]
  refine List.ext_getElem (by simp) fun i h1 h2 => ?_
  simp only [List.getElem_map, List.getElem_range]
  clear h1 hlen
  induction l generalizing i with
  | nil => cases h2
  | cons e l ih =>
    obtain ⟨he, hl⟩ := List.forall_mem_cons.1 h
    cases i with
    | zero => rw [Nat.mul_zero, List.drop_zero, List.flatten_cons, List.take_left' he,
      List.getElem_cons_zero]
    | succ i =>
      rw [List.flatten_cons, List.getElem_cons_succ, Nat.mul_succ, Nat.add_comm, ← List.drop_drop,
        List.drop_left' he]
      exact ih hl i _

/-- **A deleted file's names.** Of the 256 first bytes one makes the checksum match, which is the
one that was overwritten; it is put back, and the entry has the long name. -/
theorem entries_of_erased (place : Locale) (hname : 1 ≤ name.length ∧ name.length ≤ 255)
    (hunits : ∀ u ∈ name, u ≠ 0 ∧ u < 0xFFFF) (hlen : short.length = 32)
    (hfirst : 0x21 ≤ short.first ∧ short.first ≠ 0x2E ∧ short.first ≠ 0xE5)
    (hlabel : short.attr.testBit 3 = false) (hparent : ¬ReadsAsParent short) (hpre : Whole pre)
    (hslots : ∀ e ∈ pre ++ post, e.length = 32) :
    (∀ b, checksum (short.set 0 b) = checksum short ↔ b.toNat = short.first) ∧
      restored ((laidOut name short).map erased).dropLast (erased short) = short ∧
      fatEntries place (pre ++ (laidOut name short).map erased ++ post).flatten =
        fatEntries place pre.flatten ++
          ⟨name, short.attr, short.firstCluster, short.size, true,
            dosTime place ((Bytes.ofList short).le16 24) ((Bytes.ofList short).le16 22)⟩ ::
          fatEntries place post.flatten := by
  have hne : short ≠ [] := by
    rintro rfl
    simp at hlen
  set parts := (partsOf name).reverse.map (partSlot 0xE5 (checksum short)) with hparts
  have hslot : ∀ p ∈ parts, p.length = 32 ∧ p.first = 0xE5 ∧ p.attr = 0x0F ∧ p.sum = checksum short := by
    intro p hp
    obtain ⟨units, hu, rfl⟩ := List.mem_map.1 hp
    have h13 := mem_partsOf (List.mem_reverse.1 hu)
    obtain ⟨hsum, hattr⟩ : (partSlot 0xE5 (checksum short) units).sum = checksum short ∧
        (partSlot 0xE5 (checksum short) units).attr = 0x0F := sum_partSlot (checksum_lt short) h13
    exact ⟨length_partSlot h13, rfl, hattr, hsum⟩
  have hhead : parts ≠ [] ∧ (parts.headD []).sum = checksum short := by
    have hnil : parts ≠ [] := by simpa [hparts] using partsOf_ne_nil hname.1
    obtain ⟨p, ps, hps⟩ := List.exists_cons_of_ne_nil hnil
    exact ⟨hnil, by rw [hps]; exact (hslot p (hps ▸ List.mem_cons_self ..)).2.2.2⟩
  have hback := restored_erased hne (by omega) hhead.2
  have hlong : longName parts short = some name := longName_erased hname.1 hunits
  refine ⟨fun b => ?_, ?_, ?_⟩
  · have hself : short.set 0 (UInt8.ofNat short.first) = short := by
      obtain ⟨x, e, rfl⟩ := List.exists_cons_of_ne_nil hne
      simp [Slot.first]
    constructor
    · intro h
      have := checksum_set_inj hne (h.trans (congrArg checksum hself).symm)
      rw [this, Slot.first, UInt8.ofNat_toNat]
    · intro h
      rw [← h, UInt8.ofNat_toNat] at hself
      rw [hself]
  · rw [erased_laidOut, List.dropLast_concat]
    exact hback
  · -- the slots of the folder, then the loop over them
    have hall : ∀ e ∈ pre ++ (parts ++ [erased short]) ++ post, e.length = 32 := by
      intro e he
      simp only [List.mem_append, List.mem_singleton] at he hslots
      rcases he with (he | he | rfl) | he
      · exact hslots e (.inl he)
      · exact (hslot e he).1
      · rw [erased, List.length_set, hlen]
      · exact hslots e (.inr he)
    unfold fatEntries
    rw [erased_laidOut, slotsOf_flatten hall,
      slotsOf_flatten fun e he => hslots e (List.mem_append_left _ he),
      slotsOf_flatten fun e he => hslots e (List.mem_append_right _ he), List.append_assoc,
      entriesLoop_whole hpre fun _ => rfl, List.append_assoc,
      entriesLoop_parts fun p hp => ⟨by rw [(hslot p hp).2.1]; decide, (hslot p hp).2.2.1⟩]
    congr 1
    have herased : (erased short).first = 0xE5 ∧ (erased short).attr = short.attr := by
      obtain ⟨x, e, rfl⟩ := List.exists_cons_of_ne_nil hne
      exact ⟨rfl, rfl⟩
    have hattr : short.attr ≠ 0x0F := by
      intro h
      rw [h] at hlabel
      cases hlabel
    have hdots : ¬(shortName short false = [0x2E] ∨ shortName short false = [0x2E, 0x2E]) :=
      fun h => hparent (shortName_dots hlen hfirst.2.1 h)
    rw [List.singleton_append, entriesLoop, if_neg (by rw [herased.1]; decide), herased.2, if_neg hattr,
      if_neg (by simp [hlabel]), entryOf]
    simp only [herased.1, List.nil_append, hhead.1, hback, hdots, hfirst.2.2, hlong,
      not_true_eq_false, false_and, if_false, decide_false, ne_eq, not_false_eq_true, and_self,
      if_true, decide_true, Option.getD_some, Option.toList_some, List.singleton_append]

end Folder

def shortEntry (name : List UInt8) : Slot := name ++ [0x20] ++ List.replicate 20 0

def timeless : Locale := ⟨fun _ _ _ _ _ _ => none⟩

def capitals : List UInt8 := [0x41, 0x42, 0x43, 0x44, 0x45, 0x46, 0x7E, 0x31, 0x20, 0x20, 0x20]

theorem entries_of_erased_fourteen :
    fatEntries timeless ((laidOut (List.range' 0x61 14) (shortEntry capitals)).map erased).flatten =
      [⟨List.range' 0x61 14, 0x20, 0, 0, true, none⟩] := by
  have h := (@entries_of_erased (List.range' 0x61 14) (shortEntry capitals) []
    [] timeless (by decide) (by decide)
    (by decide) (by decide) (by decide) (by decide) ⟨nofun, nofun⟩ nofun).2.2
  rw [List.nil_append, List.append_nil] at h
  exact h

/-- **A name that is taken for the parent folder.** A no-break space, blanks and a full stop. -/
theorem entries_skip_parent :
    let short := shortEntry [0xA0, 0x20, 0x20, 0x20, 0x20, 0x20, 0x20, 0x20, 0x2E, 0x20, 0x20]
    (0x21 ≤ short.first ∧ short.first ≠ 0x2E ∧ short.first ≠ 0xE5) ∧ short.attr.testBit 3 = false ∧
      fatEntries timeless ((laidOut [0x61] short).map erased).flatten = [] := by
  decide +kernel

end OtgMaster.Recovery
