import Mathlib.Data.List.Nodup
import Mathlib.Data.Finset.Card
import Mathlib.Data.Finset.Dedup
import Mathlib.Order.Basic
import Mathlib.Tactic.Linarith

/-!
Keeping some of the entries of a list: its first `last` entries, and for each rule the first entry
of each of its first `n` buckets. Whether an entry is kept depends only on the entries before it
(`Keeps`), a larger number keeps no less (`Keeps.mono`), and if the list is sorted by a value that
decides the buckets, what was kept is kept again, in whichever sorted order it is gone through
(`kept_again`).
-/

namespace OtgMaster.Lib

variable {α β : Type} [DecidableEq β]

/-- The first entry of each of the first `n` buckets, those in `seen` being behind. -/
def firsts (key : α → β) (n : ℤ) : (seen : List β) → List α → List α
  | _, [] => []
  | seen, a :: l =>
    if key a ∈ seen then firsts key n seen l
    else if n ≤ seen.length then []
    else a :: firsts key n (seen ++ [key a]) l

/-- `a`, with the entries `pre` before it, opens one of the first `n` buckets. -/
def Opens (key : α → β) (n : ℤ) (seen : List β) (pre : List α) (a : α) : Prop :=
  key a ∉ seen ++ pre.map key ∧ ((seen ++ pre.map key).toFinset.card : ℤ) < n

variable {key : α → β} {n : ℤ} {seen : List β} {pre : List α} {a : α}

lemma opens_cons {s : α} :
    Opens key n seen (s :: pre) a ↔ Opens key n (seen ++ [key s]) pre a := by
  simp only [Opens, List.map_cons, List.append_assoc, List.singleton_append]

lemma opens_of_mem {s : α} (h : key s ∈ seen) :
    Opens key n (seen ++ [key s]) pre a ↔ Opens key n seen pre a := by
  have hmem (b : β) : b ∈ (seen ++ [key s]) ++ pre.map key ↔ b ∈ seen ++ pre.map key := by
    simp only [List.append_assoc, List.singleton_append, List.mem_append, List.mem_cons]
    refine ⟨?_, fun hb => hb.imp_right .inr⟩
    rintro (hb | rfl | hb)
    · exact .inl hb
    · exact .inl h
    · exact .inr hb
  have hset : ((seen ++ [key s]) ++ pre.map key).toFinset = (seen ++ pre.map key).toFinset := by
    ext b
    rw [List.mem_toFinset, List.mem_toFinset, hmem]
  rw [Opens, Opens, hmem, hset]

lemma seen_le_card (h : seen.Nodup) (keys : List β) :
    seen.length ≤ (seen ++ keys).toFinset.card := by
  rw [← List.toFinset_card_of_nodup h]
  refine Finset.card_le_card fun b hb => ?_
  rw [List.mem_toFinset] at hb ⊢
  exact List.mem_append_left _ hb

lemma mem_firsts (l : List α) (hseen : seen.Nodup) :
    a ∈ firsts key n seen l ↔ ∃ pre post, l = pre ++ a :: post ∧ Opens key n seen pre a := by
  induction l generalizing seen with
  | nil => simp [firsts]
  | cons s l ih =>
    -- an entry of `s :: l` is `s` itself or one of `l`, with `s` before it
    have hsplit : (∃ pre post, s :: l = pre ++ a :: post ∧ Opens key n seen pre a) ↔
        (a = s ∧ Opens key n seen [] s) ∨
          ∃ pre post, l = pre ++ a :: post ∧ Opens key n (seen ++ [key s]) pre a := by
      constructor
      · rintro ⟨_ | ⟨p, pre⟩, post, hl, ho⟩
        · cases hl
          exact .inl ⟨rfl, ho⟩
        · cases hl
          exact .inr ⟨pre, post, rfl, opens_cons.1 ho⟩
      · rintro (⟨rfl, ho⟩ | ⟨pre, post, rfl, ho⟩)
        · exact ⟨[], l, rfl, ho⟩
        · exact ⟨s :: pre, post, rfl, opens_cons.2 ho⟩
    rw [hsplit, firsts]
    by_cases hmem : key s ∈ seen
    · rw [if_pos hmem, ih hseen]
      have hno : ¬Opens key n seen [] s := fun ho => ho.1 (List.mem_append_left _ hmem)
      simp only [opens_of_mem hmem, hno, and_false, false_or]
    · rw [if_neg hmem]
      by_cases hn : n ≤ seen.length
      · rw [if_pos hn]
        have hno (keys : List β) : ¬((seen ++ keys).toFinset.card : ℤ) < n := by
          have := seen_le_card hseen keys
          omega
        simp only [List.not_mem_nil, false_iff]
        rintro (⟨-, ho⟩ | ⟨pre, post, -, ho⟩)
        · exact hno _ ho.2
        · have hcard := ho.2
          rw [List.append_assoc] at hcard
          exact hno _ hcard
      · have hnew : (seen ++ [key s]).Nodup := by
          rw [List.nodup_append]
          refine ⟨hseen, List.nodup_singleton _, ?_⟩
          rintro b hb _ hb' rfl
          rw [List.mem_singleton] at hb'
          exact hmem (hb' ▸ hb)
        have hopen : Opens key n seen [] s := by
          refine ⟨by simpa using hmem, ?_⟩
          rw [List.map_nil, List.append_nil, List.toFinset_card_of_nodup hseen]
          omega
        rw [if_neg hn, List.mem_cons, ih hnew]
        simp only [hopen, and_true]

/-! ### what is kept -/

/-- `a`, with the entries `pre` before it, is one of the first `last` or the first of its bucket for
a rule. -/
def Keeps (last : ℤ) (rules : List (ℤ × (α → β))) (pre : List α) (a : α) : Prop :=
  (pre.length : ℤ) < last ∨ ∃ r ∈ rules, Opens r.2 r.1 [] pre a

lemma keeps_nil {last : ℤ} {rules : List (ℤ × (α → β))} (h : 0 < last ∨ ∃ r ∈ rules, 0 < r.1) (a : α) :
    Keeps last rules [] a := by
  refine h.imp (by simp) ?_
  rintro ⟨r, hr, hpos⟩
  exact ⟨r, hr, by simp, by simpa using hpos⟩

lemma Keeps.mono {last last' : ℤ} {rules rules' : List (ℤ × (α → β))}
    (h : Keeps last rules pre a) (hlast : last ≤ last')
    (hrules : ∀ r ∈ rules, ∃ r' ∈ rules', r'.2 = r.2 ∧ r.1 ≤ r'.1) : Keeps last' rules' pre a := by
  refine h.imp (fun hl => lt_of_lt_of_le hl hlast) ?_
  rintro ⟨r, hr, hnew, hcard⟩
  obtain ⟨r', hr', hkey, hle⟩ := hrules r hr
  exact ⟨r', hr', hkey ▸ hnew, by rw [hkey]; exact lt_of_lt_of_le hcard hle⟩

lemma Keeps.of_subset {last : ℤ} {rules : List (ℤ × (α → β))} {pre' : List α}
    (h : Keeps last rules pre a) (hnodup : pre'.Nodup) (hsub : pre' ⊆ pre) :
    Keeps last rules pre' a := by
  rcases h with hl | ⟨r, hr, hnew, hcard⟩
  · have := (List.subperm_of_subset hnodup hsub).length_le
    exact .inl (by omega)
  · have hkeys : pre'.map r.2 ⊆ pre.map r.2 := List.map_subset _ hsub
    refine .inr ⟨r, hr, fun hm => hnew (hkeys hm), lt_of_le_of_lt ?_ hcard⟩
    have : (pre'.map r.2).toFinset.card ≤ (pre.map r.2).toFinset.card :=
      Finset.card_le_card fun b hb => by
        rw [List.mem_toFinset] at hb ⊢
        exact hkeys hb
    exact_mod_cast this

lemma split_unique {l pre' post post' : List α} (hl : l.Nodup) (h : l = pre ++ a :: post)
    (h' : l = pre' ++ a :: post') : pre = pre' := by
  subst h
  have hmem : a ∉ pre := fun hm => by
    simp only [List.nodup_append, List.mem_cons] at hl
    exact hl.2.2 a hm a (.inl rfl) rfl
  have hmem' : a ∉ pre' := fun hm => by
    rw [h'] at hl
    simp only [List.nodup_append, List.mem_cons] at hl
    exact hl.2.2 a hm a (.inl rfl) rfl
  rcases List.append_eq_append_iff.1 h' with ⟨as, rfl, h2⟩ | ⟨bs, rfl, h2⟩
  · cases as with
    | nil => simp
    | cons b as =>
      cases h2
      simp at hmem'
  · cases bs with
    | nil => simp
    | cons b bs =>
      cases h2
      simp at hmem

section Again

variable {T : Type} {time : α → T} {last : ℤ} {rules : List (ℤ × (α → β))} {l l' : List α}

/-- Of entries with one time, those behind the first are kept only as one of the first `last`. -/
lemma lt_last_of_later (hkey : ∀ r ∈ rules, ∀ a b, time a = time b → r.2 a = r.2 b) {pre : List α}
    {a u : α} (ha : a ∈ pre) (htime : time u = time a) (hu : Keeps last rules pre u) :
    (pre.length : ℤ) < last := by
  rcases hu with hu | ⟨r, hr, hnew, -⟩
  · exact hu
  · refine absurd ?_ hnew
    rw [List.nil_append, hkey r hr u a htime]
    exact List.mem_map_of_mem ha

/-- **What was kept is kept again.** `l` is in descending order and `l'`, in descending order too,
has the entries of `l` that are kept. -/
theorem kept_again [PartialOrder T] (hkey : ∀ r ∈ rules, ∀ a b, time a = time b → r.2 a = r.2 b)
    (hl : l.Nodup) (hl' : l'.Nodup)
    (hsorted : l.Pairwise fun a b => time b ≤ time a) (hsorted' : l'.Pairwise fun a b => time b ≤ time a)
    (hkept : ∀ a ∈ l', ∃ pre post, l = pre ++ a :: post ∧ Keeps last rules pre a)
    {pre' post' : List α} {a : α} (ha : l' = pre' ++ a :: post') : Keeps last rules pre' a := by
  obtain ⟨pre, post, hsplit, hkeep⟩ := hkept a (ha ▸ by simp)
  have hnodup' : pre'.Nodup ∧ a ∉ pre' := by
    rw [ha] at hl'
    simp only [List.nodup_append, List.mem_cons] at hl'
    exact ⟨hl'.1, fun hm => hl'.2.2 a hm a (.inl rfl) rfl⟩
  -- an entry before `a` in `l'` is before `a` in `l`, or has the time of `a` and is one of the first `last`
  have hbefore : ∀ u ∈ pre', u ∈ pre ∨ ∃ p q, post = p ++ u :: q ∧
      ((pre ++ a :: p).length : ℤ) < last := by
    intro u hu
    obtain ⟨preu, postu, hsplitu, hkeepu⟩ := hkept u (ha ▸ by simp [hu])
    have hmem : u ∈ l := hsplitu ▸ by simp
    rw [hsplit, List.mem_append, List.mem_cons] at hmem
    rcases hmem with hmem | rfl | hmem
    · exact .inl hmem
    · exact absurd hu hnodup'.2
    · obtain ⟨p, q, rfl⟩ := List.append_of_mem hmem
      have hle : time u ≤ time a := by
        rw [hsplit] at hsorted
        exact List.rel_of_pairwise_cons (List.pairwise_append.1 hsorted).2.1 hmem
      have hge : time a ≤ time u := by
        rw [ha] at hsorted'
        exact (List.pairwise_append.1 hsorted').2.2 u hu a (by simp)
      have hpre : preu = pre ++ a :: p :=
        split_unique hl hsplitu (by rw [hsplit, List.append_assoc, List.cons_append])
      subst hpre
      exact .inr ⟨p, q, rfl, lt_last_of_later hkey (a := a) (by simp) (le_antisymm hle hge) hkeepu⟩
  by_cases hsub : pre' ⊆ pre
  · exact hkeep.of_subset hnodup'.1 hsub
  · -- then `a` is one of the first `last`, and so are all entries before it in `l'`
    obtain ⟨u, hu, hnot⟩ : ∃ u ∈ pre', u ∉ pre := by
      simpa only [List.subset_def, not_forall, exists_prop] using hsub
    obtain ⟨p, -, -, hlast⟩ := (hbefore u hu).resolve_left hnot
    have hfirst : (a :: pre') ⊆ l.take last.toNat := by
      intro v hv
      have hin {x y : List α} (hxy : l = x ++ v :: y) (hx : (x.length : ℤ) < last) :
          v ∈ l.take last.toNat := by
        rw [hxy, List.take_append, List.mem_append]
        right
        obtain ⟨k, hk⟩ : ∃ k, last.toNat - x.length = k + 1 := ⟨last.toNat - x.length - 1, by omega⟩
        rw [hk, List.take_succ_cons]
        exact List.mem_cons_self
      rw [List.length_append, List.length_cons] at hlast
      rcases List.mem_cons.1 hv with rfl | hv
      · exact hin hsplit (by omega)
      · rcases hbefore v hv with hmem | ⟨p', q', rfl, hlt⟩
        · obtain ⟨x, y, rfl⟩ := List.append_of_mem hmem
          refine hin (x := x) (y := y ++ a :: post) (by rw [hsplit]; simp) ?_
          rw [List.length_append, List.length_cons] at hlast
          omega
        · exact hin (x := pre ++ a :: p') (y := q') (by rw [hsplit]; simp) hlt
    have hle := (List.subperm_of_subset (List.nodup_cons.2 ⟨hnodup'.2, hnodup'.1⟩) hfirst).length_le
    rw [List.length_cons, List.length_take] at hle
    exact .inl (by omega)

end Again

end OtgMaster.Lib
