import OtgMaster.Lib.Retain
import OtgMaster.Platform.Codec
import OtgMaster.Restic.Repository
import Mathlib.Data.List.Sort

/-!
`ResticMaintenance.toForget`: which snapshots a keep policy removes. The snapshots are gone through
newest first; one is kept if it is among the first `last`, or opens one of the first `daily` days,
`weekly` weeks or `monthly` months, as the calendar of a time zone has them. What is kept depends
only on the snapshots before it in that order (`mem_toForget`), which is the rule of `Lib.Retain`.
-/

namespace OtgMaster.Restic

open Lib Block Platform

structure Snapshot where
  id : Id
  json : Fields

structure KeepPolicy where
  last : ℤ
  daily : ℤ
  weekly : ℤ
  monthly : ℤ

namespace KeepPolicy

def keepsEverything (p : KeepPolicy) : Bool := p.last ≤ 0 && p.daily ≤ 0 && p.weekly ≤ 0 && p.monthly ≤ 0

structure Le (p q : KeepPolicy) : Prop where
  last : p.last ≤ q.last
  daily : p.daily ≤ q.daily
  weekly : p.weekly ≤ q.weekly
  monthly : p.monthly ≤ q.monthly

end KeepPolicy

/-- What the rules look at in a `ZonedDateTime`. -/
structure ZonedDateTime where
  localDate : String
  weekBasedYear : ℤ
  weekOfWeekBasedYear : ℤ
  year : ℤ
  monthValue : ℤ

structure Calendar where
  texts : Texts
  /-- `OffsetDateTime.parse(text).toInstant()`. -/
  parse : List Char → E ℤ
  /-- `atZoneSameInstant(zone)`. -/
  atZone : ℤ → ZonedDateTime

section Rules

variable (cal : Calendar)

/-- `OffsetDateTime.parse(it.time).toInstant()`. -/
def instant (s : Snapshot) : E ℤ := do
  let time ← getString cal.texts s.json "time"
  cal.parse time

/-- `snapshots.sortedByDescending { … }`, which looks at no time if there are no two snapshots to
compare. -/
def newestFirst (snapshots : List Snapshot) : E (List Snapshot) :=
  if snapshots.length ≤ 1 then pure snapshots
  else do
    let timed ← snapshots.mapM fun s => do return (s, ← instant cal s)
    return (timed.mergeSort fun a b => b.2 ≤ a.2).map (·.1)

def bucketLoop (n : ℤ) (key : ZonedDateTime → String) : (seen : List String) → (keep : List Id) →
    List Snapshot → E (List Id)
  | _, keep, [] => pure keep
  | seen, keep, s :: sorted => do
    let t ← instant cal s
    let k := key (cal.atZone t)
    if k ∈ seen then bucketLoop n key seen keep sorted
    else if n ≤ seen.length then pure keep
    else bucketLoop n key (seen ++ [k]) (keep ++ [s.id]) sorted

def bucketed (n : ℤ) (key : ZonedDateTime → String) (sorted : List Snapshot) (keep : List Id) :
    E (List Id) :=
  if n ≤ 0 then pure keep else bucketLoop cal n key [] keep sorted

def day (t : ZonedDateTime) : String := t.localDate

def week (t : ZonedDateTime) : String := s!"{t.weekBasedYear}-{t.weekOfWeekBasedYear}"

def month (t : ZonedDateTime) : String := s!"{t.year}-{t.monthValue}"

local instance id_lawfulBEq : LawfulBEq Id := inferInstance

def toForget (snapshots : List Snapshot) (policy : KeepPolicy) : E (List Snapshot) := do
  if policy.keepsEverything then return []
  let sorted ← newestFirst cal snapshots
  let keep := (sorted.take policy.last.toNat).map (·.id)
  let keep ← bucketed cal policy.daily day sorted keep
  let keep ← bucketed cal policy.weekly week sorted keep
  let keep ← bucketed cal policy.monthly month sorted keep
  return sorted.filter (·.id ∉ keep)

/-! ### times that parse -/

def Timed (l : List Snapshot) : Prop := ∀ s ∈ l, ∃ t, instant cal s = .ok t

def instantOf (s : Snapshot) : ℤ := ((instant cal s).toOption).getD 0

def bucket (key : ZonedDateTime → String) (s : Snapshot) : String := key (cal.atZone (instantOf cal s))

def NewestFirst (l : List Snapshot) : Prop := l.Pairwise fun a b => instantOf cal b ≤ instantOf cal a

variable {cal}

lemma instant_run {s : Snapshot} (h : ∃ t, instant cal s = .ok t) :
    instant cal s = .ok (instantOf cal s) := by
  obtain ⟨t, ht⟩ := h
  rw [instantOf, ht]
  rfl

variable {l sorted : List Snapshot} {p : KeepPolicy}

lemma Timed.perm {l' : List Snapshot} (h : Timed cal l) (hp : l'.Perm l) : Timed cal l' :=
  fun s hs => h s (hp.mem_iff.1 hs)

lemma timed_mapM (h : Timed cal l) :
    (l.mapM fun s => do return (s, ← instant cal s) : E (List (Snapshot × ℤ))) =
      .ok (l.map fun s => (s, instantOf cal s)) := by
  induction l with
  | nil => rfl
  | cons s l ih =>
    have hs : (do return (s, ← instant cal s) : E (Snapshot × ℤ)) = .ok (s, instantOf cal s) :=
      except_bind_run (instant_run (h s (List.mem_cons_self ..)))
    rw [List.mapM_cons, except_bind_run hs,
      except_bind_run (ih fun u hu => h u (List.mem_cons_of_mem _ hu))]
    rfl

lemma newestFirst_run (h : Timed cal l) :
    ∃ sorted, newestFirst cal l = .ok sorted ∧ sorted.Perm l ∧ NewestFirst cal sorted := by
  unfold newestFirst
  by_cases hlen : l.length ≤ 1
  · rw [if_pos hlen]
    refine ⟨l, rfl, List.Perm.refl l, ?_⟩
    match l, hlen with
    | [], _ => exact List.Pairwise.nil
    | [s], _ => exact List.pairwise_singleton ..
  · rw [if_neg hlen, except_bind_run (timed_mapM h)]
    let timed := l.map fun s => (s, instantOf cal s)
    have hperm := List.mergeSort_perm timed fun a b => b.2 ≤ a.2
    have hpair : (timed.mergeSort fun a b => b.2 ≤ a.2).Pairwise fun a b => b.2 ≤ a.2 := by
      refine (List.pairwise_mergeSort ?_ ?_ timed).imp fun hab => of_decide_eq_true hab
      · intro a b c hab hbc
        exact decide_eq_true (le_trans (of_decide_eq_true hbc) (of_decide_eq_true hab))
      · intro a b
        rw [Bool.or_eq_true, decide_eq_true_iff, decide_eq_true_iff]
        exact le_total ..
    refine ⟨_, rfl, ?_, ?_⟩
    · have hmap : timed.map (·.1) = l := by
        rw [List.map_map]
        exact List.map_id _
      exact (hperm.map (·.1)).trans (List.Perm.of_eq hmap)
    · refine List.pairwise_map.2 (hpair.imp_of_mem fun {a b} ha hb hab => ?_)
      obtain ⟨s, -, rfl⟩ := List.mem_map.1 (hperm.mem_iff.1 ha)
      obtain ⟨u, -, rfl⟩ := List.mem_map.1 (hperm.mem_iff.1 hb)
      exact hab

lemma bucketLoop_run (h : Timed cal sorted) (n : ℤ) (key : ZonedDateTime → String)
    (seen : List String) (keep : List Id) :
    bucketLoop cal n key seen keep sorted =
      .ok (keep ++ (firsts (bucket cal key) n seen sorted).map (·.id)) := by
  induction sorted generalizing seen keep with
  | nil => simp [bucketLoop, firsts, pure, Except.pure]
  | cons s sorted ih =>
    have ih := ih fun u hu => h u (List.mem_cons_of_mem _ hu)
    rw [bucketLoop, except_bind_run (instant_run (h s (List.mem_cons_self ..))), firsts]
    change (if bucket cal key s ∈ seen then _ else _) = _
    split
    · exact ih ..
    · split
      · simp [pure, Except.pure]
      · refine (ih _ _).trans ?_
        rw [List.append_assoc, List.map_cons, List.singleton_append]
        rfl

lemma bucketed_run (h : Timed cal sorted) (n : ℤ) (key : ZonedDateTime → String)
    (keep : List Id) :
    bucketed cal n key sorted keep = .ok (keep ++ (firsts (bucket cal key) n [] sorted).map (·.id)) := by
  unfold bucketed
  split
  · rename_i hn
    cases sorted with
    | nil => simp [firsts, pure, Except.pure]
    | cons s sorted => simp [firsts, hn, pure, Except.pure]
  · exact bucketLoop_run h n key [] keep

/-! ### the rules -/

variable (cal) in
/-- The three rules that go by the calendar. -/
def rules (p : KeepPolicy) : List (ℤ × (Snapshot → String)) :=
  [(p.daily, bucket cal day), (p.weekly, bucket cal week), (p.monthly, bucket cal month)]

lemma positive_of_not_keepsEverything (h : p.keepsEverything = false) :
    0 < p.last ∨ ∃ r ∈ rules cal p, 0 < r.1 := by
  simp only [KeepPolicy.keepsEverything, Bool.and_eq_false_iff, decide_eq_false_iff_not, not_le] at h
  simp only [rules, List.mem_cons, List.not_mem_nil, or_false, exists_eq_or_imp, exists_eq_left]
  tauto

lemma rules_mono {q : KeepPolicy} (h : p.Le q) :
    ∀ r ∈ rules cal p, ∃ r' ∈ rules cal q, r'.2 = r.2 ∧ r.1 ≤ r'.1 := by
  intro r hr
  simp only [rules, List.mem_cons, List.not_mem_nil, or_false] at hr
  rcases hr with rfl | rfl | rfl
  · exact ⟨_, List.mem_cons_self .., rfl, h.daily⟩
  · exact ⟨_, List.mem_cons_of_mem _ (List.mem_cons_self ..), rfl, h.weekly⟩
  · exact ⟨_, List.mem_cons_of_mem _ (List.mem_cons_of_mem _ (List.mem_cons_self ..)), rfl, h.monthly⟩

lemma rules_instant (p : KeepPolicy) : ∀ r ∈ rules cal p, ∀ a b, instantOf cal a = instantOf cal b →
    r.2 a = r.2 b := by
  intro r hr a b hab
  simp only [rules, List.mem_cons, List.not_mem_nil, or_false] at hr
  rcases hr with rfl | rfl | rfl <;> simp only [bucket, hab]

lemma mem_take_iff {n : ℤ} {s : Snapshot} :
    s ∈ l.take n.toNat ↔ ∃ pre post, l = pre ++ s :: post ∧ (pre.length : ℤ) < n := by
  rw [List.mem_take_iff_getElem]
  constructor
  · rintro ⟨i, hi, rfl⟩
    refine ⟨l.take i, l.drop (i + 1), ?_, ?_⟩
    · rw [List.getElem_cons_drop, List.take_append_drop]
    · rw [List.length_take]
      omega
  · rintro ⟨pre, post, rfl, hlt⟩
    refine ⟨pre.length, ?_, by simp⟩
    rw [List.length_append, List.length_cons]
    omega

variable (cal) in
def keepIds (p : KeepPolicy) (sorted : List Snapshot) : List Id :=
  (sorted.take p.last.toNat).map (·.id) ++ (firsts (bucket cal day) p.daily [] sorted).map (·.id) ++
    (firsts (bucket cal week) p.weekly [] sorted).map (·.id) ++
    (firsts (bucket cal month) p.monthly [] sorted).map (·.id)

lemma mem_keepIds {id : Id} :
    id ∈ keepIds cal p sorted ↔
      ∃ pre s post, sorted = pre ++ s :: post ∧ s.id = id ∧ Keeps p.last (rules cal p) pre s := by
  have hfirst (n : ℤ) (key : ZonedDateTime → String) :
      id ∈ (firsts (bucket cal key) n [] sorted).map (·.id) ↔
        ∃ pre s post, sorted = pre ++ s :: post ∧ s.id = id ∧ Opens (bucket cal key) n [] pre s := by
    rw [List.mem_map]
    constructor
    · rintro ⟨s, hs, rfl⟩
      obtain ⟨pre, post, hl, ho⟩ := (mem_firsts sorted List.nodup_nil).1 hs
      exact ⟨pre, s, post, hl, rfl, ho⟩
    · rintro ⟨pre, s, post, hl, rfl, ho⟩
      exact ⟨s, (mem_firsts sorted List.nodup_nil).2 ⟨pre, post, hl, ho⟩, rfl⟩
  have hlast : id ∈ (sorted.take p.last.toNat).map (·.id) ↔
      ∃ pre s post, sorted = pre ++ s :: post ∧ s.id = id ∧ (pre.length : ℤ) < p.last := by
    rw [List.mem_map]
    constructor
    · rintro ⟨s, hs, rfl⟩
      obtain ⟨pre, post, hl, ho⟩ := mem_take_iff.1 hs
      exact ⟨pre, s, post, hl, rfl, ho⟩
    · rintro ⟨pre, s, post, hl, rfl, ho⟩
      exact ⟨s, mem_take_iff.2 ⟨pre, post, hl, ho⟩, rfl⟩
  simp only [keepIds, List.mem_append, hfirst, hlast, Keeps, rules, List.mem_cons, List.not_mem_nil,
    or_false, exists_eq_or_imp, exists_eq_left, ← exists_or, ← and_or_left, or_assoc]

lemma toForget_run (hp : p.keepsEverything = false)
    (hsorted : newestFirst cal l = .ok sorted) (ht : Timed cal sorted) :
    toForget cal l p = .ok (sorted.filter (·.id ∉ keepIds cal p sorted)) := by
  unfold toForget
  rw [if_neg (by simp [hp]), except_bind_run hsorted, except_bind_run (bucketed_run ht ..),
    except_bind_run (bucketed_run ht ..), except_bind_run (bucketed_run ht ..)]
  rfl

/-- **What the policy forgets.** A snapshot is forgotten exactly if no rule keeps it for the
snapshots that are before it, newest first. -/
theorem mem_toForget {p : KeepPolicy} {l : List Snapshot} (hids : (l.map (·.id)).Nodup)
    (htimes : Timed cal l) (hp : p.keepsEverything = false) :
    ∃ sorted forgotten, newestFirst cal l = .ok sorted ∧ sorted.Perm l ∧ NewestFirst cal sorted ∧
      toForget cal l p = .ok forgotten ∧ (∀ s ∈ forgotten, s ∈ sorted) ∧
        ∀ pre s post, sorted = pre ++ s :: post →
        (s.id ∈ forgotten.map (·.id) ↔ ¬Keeps p.last (rules cal p) pre s) := by
  obtain ⟨sorted, hsorted, hperm, horder⟩ := newestFirst_run htimes
  refine ⟨sorted, _, hsorted, hperm, horder, toForget_run hp hsorted (htimes.perm hperm),
    fun s hs => (List.mem_filter.1 hs).1, fun pre s post hs => ?_⟩
  have hids : (sorted.map (·.id)).Nodup := (hperm.map _).nodup_iff.2 hids
  have hmem : s ∈ sorted := hs ▸ by simp
  have hiff : s.id ∈ (sorted.filter (·.id ∉ keepIds cal p sorted)).map (·.id) ↔
      s.id ∉ keepIds cal p sorted := by
    rw [List.mem_map]
    constructor
    · rintro ⟨u, hu, hid⟩
      rw [List.mem_filter, decide_eq_true_iff] at hu
      exact hid ▸ hu.2
    · exact fun hno => ⟨s, List.mem_filter.2 ⟨hmem, decide_eq_true hno⟩, rfl⟩
  rw [hiff, mem_keepIds, not_iff_not]
  constructor
  · rintro ⟨pre', u, post', hu, hid, hk⟩
    have hus : u = s := List.inj_on_of_nodup_map hids (hu ▸ by simp) hmem hid
    subst hus
    rwa [split_unique hids.of_map hs hu]
  · exact fun hk => ⟨pre, s, post, hs, rfl, hk⟩

/-! ### the newest, once more, and larger numbers -/

/-- The snapshots that are left, in any order, are all kept by the policy that left them. -/
lemma toForget_again {kept forgotten : List Snapshot} (hids : (l.map (·.id)).Nodup)
    (htimes : Timed cal l) (hp : p.keepsEverything = false) (hf : toForget cal l p = .ok forgotten)
    (hkept : kept.Perm (l.filter (·.id ∉ forgotten.map (·.id)))) : toForget cal kept p = .ok [] := by
  obtain ⟨sorted, _, -, hperm, horder, hf', -, hrule⟩ := mem_toForget hids htimes hp
  cases hf.symm.trans hf'
  have hsub : ∀ s ∈ kept, s ∈ l ∧ s.id ∉ forgotten.map (·.id) := fun s hs => by
    simpa using List.mem_filter.1 (hkept.mem_iff.1 hs)
  have hids' : (kept.map (·.id)).Nodup :=
    (hkept.map _).nodup_iff.2 (hids.sublist (List.filter_sublist.map _))
  obtain ⟨sorted', forgotten', -, hperm', horder', hf', hin', hrule'⟩ :=
    mem_toForget hids' (fun s hs => htimes s (hsub s hs).1) hp
  have hkeeps : ∀ s ∈ sorted', ∃ pre post, sorted = pre ++ s :: post ∧
      Keeps p.last (rules cal p) pre s := by
    intro s hs
    obtain ⟨hl, hnot⟩ := hsub s (hperm'.mem_iff.1 hs)
    obtain ⟨pre, post, hsplit⟩ := List.append_of_mem (hperm.mem_iff.2 hl)
    exact ⟨pre, post, hsplit, not_not.1 fun hno => hnot ((hrule pre s post hsplit).2 hno)⟩
  have hnone : forgotten' = [] := by
    refine List.eq_nil_iff_forall_not_mem.2 fun s hs => ?_
    obtain ⟨pre, post, hsplit⟩ := List.append_of_mem (hin' s hs)
    refine (hrule' pre s post hsplit).1 (List.mem_map_of_mem hs) ?_
    exact kept_again (rules_instant p) (hperm.nodup_iff.2 hids.of_map) (hperm'.nodup_iff.2 hids'.of_map)
      horder horder' hkeeps hsplit
  rw [hf', hnone]

/-- Larger numbers forget no snapshot that was kept. -/
lemma toForget_mono {q : KeepPolicy} {forgotten : List Snapshot} (hids : (l.map (·.id)).Nodup)
    (htimes : Timed cal l) (hp : p.keepsEverything = false) (hq : q.keepsEverything = false)
    (hpq : p.Le q) (hf : toForget cal l p = .ok forgotten) :
    ∃ forgotten', toForget cal l q = .ok forgotten' ∧
      ∀ s ∈ l, s.id ∉ forgotten.map (·.id) → s.id ∉ forgotten'.map (·.id) := by
  obtain ⟨sorted, _, hsorted, hperm, -, hf', -, hrule⟩ := mem_toForget hids htimes hp
  cases hf.symm.trans hf'
  obtain ⟨_, forgotten', hsorted', -, -, hf'', -, hrule'⟩ := mem_toForget hids htimes hq
  cases hsorted.symm.trans hsorted'
  refine ⟨forgotten', hf'', fun s hs hkept => ?_⟩
  obtain ⟨pre, post, hsplit⟩ := List.append_of_mem (hperm.mem_iff.2 hs)
  rw [hrule pre s post hsplit, not_not] at hkept
  rw [hrule' pre s post hsplit, not_not]
  exact hkept.mono hpq.last (rules_mono hpq)

/-- **The keep rules.** With a positive number in the policy, the snapshot that is first in the
order is one of the newest and is not forgotten, the policy forgets none of the snapshots it
kept, in whichever order they are given to it, and a policy with larger numbers keeps what this
one keeps. -/
theorem toForget_rules {p : KeepPolicy} {l : List Snapshot} (hids : (l.map (·.id)).Nodup)
    (htimes : Timed cal l) (hpos : 0 < p.last ∨ 0 < p.daily ∨ 0 < p.weekly ∨ 0 < p.monthly) :
    ∃ sorted forgotten, newestFirst cal l = .ok sorted ∧ toForget cal l p = .ok forgotten ∧
      (∀ s ∈ sorted.head?, s.id ∉ forgotten.map (·.id) ∧ ∀ u ∈ l, instantOf cal u ≤ instantOf cal s) ∧
      (∀ kept, kept.Perm (l.filter (·.id ∉ forgotten.map (·.id))) → toForget cal kept p = .ok []) ∧
      ∀ q : KeepPolicy, p.Le q → ∃ forgotten', toForget cal l q = .ok forgotten' ∧
        ∀ s ∈ l, s.id ∉ forgotten.map (·.id) → s.id ∉ forgotten'.map (·.id) := by
  have hp : p.keepsEverything = false := by
    simp only [KeepPolicy.keepsEverything, Bool.and_eq_false_iff, decide_eq_false_iff_not, not_le]
    tauto
  obtain ⟨sorted, forgotten, hsorted, hperm, horder, hf, -, hrule⟩ := mem_toForget hids htimes hp
  refine ⟨sorted, forgotten, hsorted, hf, ?_, fun kept hk => toForget_again hids htimes hp hf hk, ?_⟩
  · intro s hs
    obtain ⟨rest, rfl⟩ := List.head?_eq_some_iff.1 hs
    constructor
    · rw [hrule [] s rest rfl, not_not]
      exact keeps_nil (positive_of_not_keepsEverything hp) s
    · intro u hu
      rcases List.mem_cons.1 (hperm.mem_iff.2 hu) with rfl | hu
      · exact le_rfl
      · exact List.rel_of_pairwise_cons horder hu
  · intro q hpq
    refine toForget_mono hids htimes hp ?_ hpq hf
    obtain ⟨h1, h2, h3, h4⟩ := hpq
    simp only [KeepPolicy.keepsEverything, Bool.and_eq_false_iff, decide_eq_false_iff_not, not_le]
    omega

end Rules

def hours : Calendar where
  texts := codec
  parse t := pure (Codec.natOf t)
  atZone t := ⟨(t / 24).repr, t / 8766, t / 168, t / 8766, t / 730⟩

def threeSnapshots : List Snapshot :=
  [⟨['a'], [("time", .str ['5'])]⟩, ⟨['b'], [("time", .str ['9'])]⟩, ⟨['c'], [("time", .str ['9'])]⟩]

/-- Of two equally new snapshots and an older one of their day, the last two and the day's first. -/
theorem toForget_rules_three :
    ∃ sorted forgotten, newestFirst hours threeSnapshots = .ok sorted ∧
      toForget hours threeSnapshots ⟨2, 1, 0, 0⟩ = .ok forgotten ∧
      (∀ s ∈ sorted.head?, s.id ∉ forgotten.map (·.id)) ∧
      ∀ kept, kept.Perm (threeSnapshots.filter (·.id ∉ forgotten.map (·.id))) →
        toForget hours kept ⟨2, 1, 0, 0⟩ = .ok [] := by
  have htimes : Timed hours threeSnapshots := by
    intro s hs
    simp only [threeSnapshots, List.mem_cons, List.not_mem_nil, or_false] at hs
    rcases hs with rfl | rfl | rfl <;> exact ⟨_, rfl⟩
  obtain ⟨sorted, forgotten, h1, h2, h3, h4, -⟩ :=
    toForget_rules (p := ⟨2, 1, 0, 0⟩) (l := threeSnapshots) (by decide) htimes (by decide)
  exact ⟨sorted, forgotten, h1, h2, fun s hs => (h3 s hs).1, h4⟩

end OtgMaster.Restic
