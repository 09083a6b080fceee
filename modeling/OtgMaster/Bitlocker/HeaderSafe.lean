import OtgMaster.Bitlocker.Header
import OtgMaster.Lib.Hops
import OtgMaster.Veracrypt.Keyfiles

/-!
What `BitLockerHeader.parse` makes of a drive that someone else has written. Every access is inside
the area that was read, whatever the entries say, with one exception: an FVEK entry of less than 36
bytes ends before the slice that is taken from it starts. The volumes on which `parse` returns a
header or throws an `IOException` are those without such an entry where it would be read
(`parse_sound_iff`).
-/

namespace OtgMaster.Bitlocker

open Lib Block

/-! ### accesses inside a buffer -/

namespace Buffer

variable {b : Buffer} {i j : ℕ}

lemma getShort_run (h : i + 2 ≤ b.size) : b.getShort i = .ok (b.bytes.le16 i) :=
  failIf_bind_run (by omega)

lemma getInt_run (h : i + 4 ≤ b.size) : b.getInt i = .ok (i32 (b.bytes.le32 i)) :=
  failIf_bind_run (by omega)

lemma getLong_run (h : i + 8 ≤ b.size) : b.getLong i = .ok (i64 (b.bytes.le64 i)) :=
  failIf_bind_run (by omega)

lemma copyOfRange_run (h1 : i ≤ j) (h2 : j ≤ b.size) :
    b.copyOfRange i j = .ok (b.bytes.slice i (j - i)) := by
  unfold copyOfRange
  rw [failIf_bind_run (by omega), failIf_bind_run (by omega)]
  rfl

lemma isText_run {text : String} (h : i + text.length ≤ b.size) : b.isText i text =
    .ok (b.bytes.slice i text.length = text.toList.map fun c => UInt8.ofNat c.toNat) :=
  failIf_bind_run (by omega)

def Holds (b : Buffer) (l : List UInt8) : Prop :=
  ∃ i, i + l.length ≤ b.size ∧ l = b.bytes.slice i l.length

lemma holds_slice (h1 : i ≤ j) (h2 : j ≤ b.size) : b.Holds (b.bytes.slice i (j - i)) :=
  ⟨i, by rw [Bytes.length_slice]; omega, by rw [Bytes.length_slice]⟩

end Buffer

def SealedKey.Inside (area : Buffer) (k : SealedKey) : Prop :=
  area.Holds k.nonce ∧ area.Holds k.tag ∧ area.Holds k.data

structure Vmk.Inside (area : Buffer) (v : Vmk) : Prop where
  salt : ∀ l ∈ v.salt, area.Holds l
  sealed : ∀ k ∈ v.sealed, k.Inside area
  clearKey : ∀ l ∈ v.clearKey, area.Holds l

lemma sealedKey_run {area : Buffer} {a b : ℕ} (h1 : a + 28 ≤ b) (h2 : b ≤ area.size) :
    ∃ k, sealedKey area a b = .ok k ∧ k.Inside area := by
  refine ⟨⟨area.bytes.slice a (a + 12 - a), area.bytes.slice (a + 12) (a + 28 - (a + 12)),
    area.bytes.slice (a + 28) (b - (a + 28))⟩, ?_, ?_, ?_, ?_⟩
  · unfold sealedKey
    rw [except_bind_run (area.copyOfRange_run (by omega) (by omega)),
      except_bind_run (area.copyOfRange_run (by omega) (by omega)),
      except_bind_run (area.copyOfRange_run h1 h2)]
    rfl
  · exact area.holds_slice (by omega) (by omega)
  · exact area.holds_slice (by omega) (by omega)
  · exact area.holds_slice h1 h2

lemma sealedKey_short {area : Buffer} {a b : ℕ} (h1 : b < a + 28) (h2 : a + 28 ≤ area.size) :
    sealedKey area a b = .error ⟨.illegalArgument, s!"{a + 28} > {b}"⟩ := by
  unfold sealedKey
  rw [except_bind_run (area.copyOfRange_run (by omega) (by omega)),
    except_bind_run (area.copyOfRange_run (by omega) (by omega))]
  unfold Buffer.copyOfRange
  rw [failIf_bind_run (by omega)]
  simp [failIf, h1]
  rfl

/-!
 ### verdicts

A verdict on a call: under the condition it returns a value with `P` or throws an `IOException`;
otherwise it throws an `IllegalArgumentException`.
-/

section Verdict

variable {α β : Type} {P : α → Prop} {Q : β → Prop} {x : E α} {f : α → E β} {c : Prop}

/-- A value with `P`, or an `IOException`. -/
def Sound (P : α → Prop) (x : E α) : Prop :=
  match x with
  | .ok a => P a
  | .error e => e.kind = .io

structure Verdict (c : Prop) (P : α → Prop) (x : E α) : Prop where
  sound : c → Sound P x
  other : ¬c → ∃ e, x = .error e ∧ e.kind = .illegalArgument

lemma Verdict.iff (h : Verdict c P x) : Sound P x ↔ c := by
  refine ⟨fun hs => ?_, h.sound⟩
  by_contra hc
  obtain ⟨e, rfl, he⟩ := h.other hc
  cases he.symm.trans hs

lemma Sound.verdict (h : Sound P x) (hc : c) : Verdict c P x := ⟨fun _ => h, fun hn => absurd hc hn⟩

lemma Sound.bind (h : Sound P x) (hf : ∀ a, P a → Sound Q (f a)) : Sound Q (x >>= f) := by
  cases x with
  | ok a => exact hf a h
  | error e => exact h

lemma Verdict.bind (h : Verdict c P x) (hf : ∀ a, P a → Sound Q (f a)) : Verdict c Q (x >>= f) := by
  refine ⟨fun hc => (h.sound hc).bind hf, fun hc => ?_⟩
  obtain ⟨e, rfl, he⟩ := h.other hc
  exact ⟨e, rfl, he⟩

lemma Verdict.mono {P' : α → Prop} (h : Verdict c P x) (hP : ∀ a, P a → P' a) : Verdict c P' x := by
  refine ⟨fun hc => ?_, h.other⟩
  have hs := h.sound hc
  cases x with
  | ok a => exact hP a hs
  | error e => exact hs

lemma Verdict.congr {d : Prop} (h : Verdict c P x) (hd : d ↔ c) : Verdict d P x := by
  rw [hd]
  exact h

lemma Verdict.failIf {g : PUnit → E β} {bad : Prop} [Decidable bad] {message : String}
    (h : ¬bad → Verdict c Q (g ⟨⟩)) : Verdict (¬bad → c) Q (failIf bad ⟨.io, message⟩ >>= g) := by
  by_cases hb : bad
  · rw [Lib.failIf, if_pos hb]
    exact Sound.verdict rfl fun hn => absurd hb hn
  · rw [failIf_bind_run hb]
    exact (h hb).congr (by simp [hb])

end Verdict

/-! ### the entries of a volume master key -/

def sizeAt (area : Buffer) (p : ℕ) : ℕ := area.bytes.le16 p

def IsEntry (area : Buffer) (stop : ℤ) (p : ℕ) : Prop :=
  (p : ℤ) + 8 ≤ stop ∧ 8 ≤ sizeAt area p ∧ (p : ℤ) + sizeAt area p ≤ stop

instance (area : Buffer) (stop : ℤ) (p : ℕ) : Decidable (IsEntry area stop p) :=
  inferInstanceAs (Decidable (_ ∧ _))

def Fits (area : Buffer) (stop : ℤ) (p : ℕ) : Prop :=
  (p : ℤ) + 8 ≤ stop → sizeAt area p ≠ 0 → IsEntry area stop p

instance (area : Buffer) (stop : ℤ) (p : ℕ) : Decidable (Fits area stop p) :=
  inferInstanceAs (Decidable (_ → _ → _))

def hop (area : Buffer) (stop : ℤ) (p : ℕ) : Option ℕ :=
  if IsEntry area stop p then some (p + sizeAt area p) else none

section Walk

variable {σ : Type} {area : Buffer} {stop : ℤ} {overrun : String} {act : ℕ → ℕ → σ → E σ} {I : σ → Prop}

lemma walk_entry {p : ℕ} (hstop : stop ≤ area.size) (he : IsEntry area stop p) (s : σ) :
    walk area stop overrun act p s = act p (sizeAt area p) s >>=
      walk area stop overrun act (p + sizeAt area p) := by
  obtain ⟨h1, h2, h3⟩ := he
  have hn : area.getShort p = .ok (sizeAt area p) := area.getShort_run (by omega)
  rw [walk, if_pos h1, hn]
  simp only
  rw [if_neg (by omega), dif_neg (by omega)]
  cases act p (sizeAt area p) s <;> rfl

lemma walk_end {p : ℕ} (hstop : stop ≤ area.size) (he : ¬IsEntry area stop p) (s : σ) :
    walk area stop overrun act p s = if Fits area stop p then .ok s else .error ⟨.io, overrun⟩ := by
  rw [walk]
  by_cases h1 : (p : ℤ) + 8 ≤ stop
  · have hn : area.getShort p = .ok (sizeAt area p) := area.getShort_run (by omega)
    rw [if_pos h1, hn]
    simp only
    by_cases h0 : sizeAt area p = 0
    · have hfits : Fits area stop p := fun _ h => absurd h0 h
      rw [if_pos h0, if_pos hfits]
    · have hbad : sizeAt area p < 8 ∨ stop < p + sizeAt area p := by
        unfold IsEntry at he
        omega
      have hnot : ¬Fits area stop p := fun h => he (h h1 h0)
      rw [if_neg h0, dif_pos hbad, if_neg hnot]
  · have hfits : Fits area stop p := fun h => absurd h h1
    rw [if_neg h1, if_pos hfits]

/-- **A loop whose actions all go through** returns if all entries fit, and otherwise throws an
`IOException`. -/
lemma walk_run (hstop : stop ≤ area.size)
    (hact : ∀ p s, IsEntry area stop p → I s → ∃ s', act p (sizeAt area p) s = .ok s' ∧ I s')
    (p : ℕ) {s : σ} (hs : I s) :
    (Always (hop area stop) (Fits area stop) p → ∃ s', walk area stop overrun act p s = .ok s' ∧ I s') ∧
    (¬Always (hop area stop) (Fits area stop) p →
      walk area stop overrun act p s = .error ⟨.io, overrun⟩) := by
  -- an entry has a byte or more, so what is left of the list shrinks
  induction hk : (stop - p).toNat using Nat.strong_induction_on generalizing p s with
  | _ k ih =>
    by_cases he : IsEntry area stop p
    · obtain ⟨s', hok, hs'⟩ := hact p s he hs
      have hnext : hop area stop p = some (p + sizeAt area p) := if_pos he
      have hfits : Fits area stop p := fun _ _ => he
      rw [walk_entry hstop he, hok, always_step hnext, and_iff_right hfits]
      obtain ⟨h1, h2, -⟩ := he
      exact ih _ (by omega) (p + sizeAt area p) hs' rfl
    · have hnext : hop area stop p = none := if_neg he
      rw [walk_end hstop he, always_last hnext]
      exact ⟨fun h => ⟨s, if_pos h, hs⟩, fun h => if_neg h⟩

end Walk

section Vmk

variable {area : Buffer} {pos size p : ℕ} {stop : ℤ}

lemma vmkEntry_run (hstop : stop ≤ area.size) (he : IsEntry area stop p) {v : Vmk} (hv : v.Inside area) :
    ∃ v', vmkEntry area p (sizeAt area p) v = .ok v' ∧ v'.Inside area := by
  obtain ⟨-, h8, hfit⟩ := he
  generalize sizeAt area p = n at h8 hfit ⊢
  have htype : area.getShort (p + 4) = .ok (area.bytes.le16 (p + 4)) := area.getShort_run (by omega)
  unfold vmkEntry
  rw [except_bind_run htype]
  split
  · split
    · rw [except_bind_run (area.copyOfRange_run (by omega) (by omega))]
      refine ⟨_, rfl, ?_, hv.sealed, hv.clearKey⟩
      rintro l ⟨⟩
      exact area.holds_slice (by omega) (by omega)
    · exact ⟨v, rfl, hv⟩
  · split
    · obtain ⟨k, hk, hin⟩ := @sealedKey_run area (p + 8) (p + n) (by omega) (by omega)
      rw [except_bind_run hk]
      refine ⟨_, rfl, hv.salt, ?_, hv.clearKey⟩
      rintro k ⟨⟩
      exact hin
    · exact ⟨v, rfl, hv⟩
  · split
    · rw [except_bind_run (area.copyOfRange_run (by omega) (by omega))]
      refine ⟨_, rfl, hv.salt, hv.sealed, ?_⟩
      rintro l ⟨⟩
      exact area.holds_slice (by omega) (by omega)
    · exact ⟨v, rfl, hv⟩
  · exact ⟨v, rfl, hv⟩

def VmkFits (area : Buffer) (pos : ℕ) : Prop :=
  Always (hop area (pos + sizeAt area pos : ℕ)) (Fits area (pos + sizeAt area pos : ℕ)) (pos + 8 + 28)

lemma parseVmk_run (hsize : 36 ≤ sizeAt area pos) (hfit : pos + sizeAt area pos ≤ area.size) :
    (VmkFits area pos → ∃ v, parseVmk area pos (sizeAt area pos) = .ok v ∧ v.Inside area) ∧
    (¬VmkFits area pos → ∃ e, parseVmk area pos (sizeAt area pos) = .error e ∧ e.kind = .io) := by
  have hcode : area.getShort (pos + 8 + 26) = .ok (area.bytes.le16 (pos + 8 + 26)) :=
    area.getShort_run (by omega)
  unfold parseVmk
  rw [except_bind_run hcode]
  have hstop : ((pos + sizeAt area pos : ℕ) : ℤ) ≤ area.size := by exact_mod_cast hfit
  have hnew : Vmk.Inside area { protection := Protection.ofCode (area.bytes.le16 (pos + 8 + 26)) } :=
    ⟨nofun, nofun, nofun⟩
  obtain ⟨hok, herr⟩ := @walk_run _ area _ "VMK entry overruns its parent" (vmkEntry area) _ hstop
    (fun p v he hv => vmkEntry_run hstop he hv) (pos + 8 + 28) _ hnew
  exact ⟨hok, fun h => ⟨_, herr h, rfl⟩⟩

end Vmk

/-! ### the entries of a copy -/

def IsFvek (area : Buffer) (p : ℕ) : Prop := area.bytes.le16 (p + 2) = 3 ∧ area.bytes.le16 (p + 4) = 5

def IsVmk (area : Buffer) (p : ℕ) : Prop := area.bytes.le16 (p + 2) = 2 ∧ 36 ≤ sizeAt area p

open Classical in
/-- From an entry to the next one, as long as no FVEK has been found. -/
noncomputable def hopEntry (area : Buffer) (stop : ℤ) (p : ℕ) : Option ℕ :=
  if IsEntry area stop p ∧ ¬IsFvek area p ∧ (IsVmk area p → VmkFits area p) then
    some (p + sizeAt area p)
  else none

/-- An FVEK entry at `p` has room for the nonce and the tag. -/
def FvekFits (area : Buffer) (stop : ℤ) (p : ℕ) : Prop :=
  IsEntry area stop p → IsFvek area p → 36 ≤ sizeAt area p

structure Found.Inside (area : Buffer) (f : Found) : Prop where
  vmks : ∀ v ∈ f.vmks, v.Inside area
  fvek : ∀ k ∈ f.fvek, k.Inside area

section Block

variable {area : Buffer} {p : ℕ} {stop : ℤ} {f : Found}

lemma blockEntry_vmk (hstop : stop ≤ area.size) (he : IsEntry area stop p) (hv : IsVmk area p) :
    blockEntry area p (sizeAt area p) f =
      parseVmk area p (sizeAt area p) >>= fun v => .ok { f with vmks := f.vmks ++ [v] } := by
  obtain ⟨h1, -, -⟩ := he
  have hv : area.bytes.le16 (p + 2) = 2 ∧ 8 + 28 ≤ sizeAt area p := hv
  unfold blockEntry
  rw [except_bind_run (area.getShort_run (i := p + 2) (by omega)),
    except_bind_run (area.getShort_run (i := p + 4) (by omega)), if_pos hv]
  rfl

lemma blockEntry_fvek (hstop : stop ≤ area.size) (he : IsEntry area stop p) (hk : IsFvek area p)
    (hf : f.fvek = none) : blockEntry area p (sizeAt area p) f =
      sealedKey area (p + 8) (p + sizeAt area p) >>= fun k => .ok { f with fvek := some k } := by
  obtain ⟨h1, -, -⟩ := he
  obtain ⟨htype, hvalue⟩ := hk
  unfold blockEntry
  rw [except_bind_run (area.getShort_run (i := p + 2) (by omega)),
    except_bind_run (area.getShort_run (i := p + 4) (by omega)), if_neg (by rw [htype]; omega),
    if_pos ⟨htype, hf, hvalue⟩]
  rfl

lemma blockEntry_rest (hstop : stop ≤ area.size) (he : IsEntry area stop p) (hv : ¬IsVmk area p)
    (hk : IsFvek area p → f.fvek ≠ none) (hin : f.Inside area) :
    ∃ f', blockEntry area p (sizeAt area p) f = .ok f' ∧ f'.fvek = f.fvek ∧ f'.Inside area := by
  obtain ⟨h1, -, h3⟩ := he
  have hv : ¬(area.bytes.le16 (p + 2) = 2 ∧ 8 + 28 ≤ sizeAt area p) := hv
  unfold blockEntry
  rw [except_bind_run (area.getShort_run (i := p + 2) (by omega)),
    except_bind_run (area.getShort_run (i := p + 4) (by omega)), if_neg hv,
    if_neg fun h => hk ⟨h.1, h.2.2⟩ h.2.1]
  split
  · rw [except_bind_run (area.getLong_run (by omega)), except_bind_run (area.getLong_run (by omega))]
    exact ⟨_, rfl, rfl, hin.vmks, hin.fvek⟩
  · exact ⟨f, rfl, rfl, hin⟩

/-- The loop from `p` on, with what it has found: it goes wrong at an FVEK entry that does not fit,
if it has none yet. -/
def EntriesVerdict (area : Buffer) (stop : ℤ) (overrun : String) (p : ℕ) (f : Found) : Prop :=
  Verdict (f.fvek = none → Always (hopEntry area stop) (FvekFits area stop) p) (Found.Inside area)
    (walk area stop overrun (blockEntry area) p f)

variable {overrun : String}

lemma EntriesVerdict.step {f' : Found} (hstop : stop ≤ area.size) (he : IsEntry area stop p)
    (hok : blockEntry area p (sizeAt area p) f = .ok f') (hf' : f'.fvek = f.fvek)
    (hnext : f.fvek = none → ¬IsFvek area p ∧ hopEntry area stop p = some (p + sizeAt area p))
    (h : EntriesVerdict area stop overrun (p + sizeAt area p) f') :
    EntriesVerdict area stop overrun p f := by
  unfold EntriesVerdict at h ⊢
  rw [walk_entry hstop he, except_bind_run hok]
  refine h.congr ?_
  rw [hf']
  refine imp_congr_right fun hnone => ?_
  obtain ⟨hnot, hsome⟩ := hnext hnone
  have hfits : FvekFits area stop p := fun _ h => absurd h hnot
  rw [always_step hsome, and_iff_right hfits]

lemma entries_vmk (hstop : stop ≤ area.size) (he : IsEntry area stop p) (hv : IsVmk area p)
    (hin : f.Inside area)
    (h : ∀ f' : Found, f'.Inside area → EntriesVerdict area stop overrun (p + sizeAt area p) f') :
    EntriesVerdict area stop overrun p f := by
  have hnot : ¬IsFvek area p := fun h => by have := h.1; have := hv.1; omega
  have hentry := blockEntry_vmk (f := f) hstop he hv
  obtain ⟨hok, herr⟩ := parseVmk_run hv.2 (by have := he.2.2; omega)
  by_cases hw : VmkFits area p
  · obtain ⟨v, hv', hinv⟩ := hok hw
    rw [except_bind_run hv'] at hentry
    refine .step hstop he hentry rfl (fun _ => ⟨hnot, if_pos ⟨he, hnot, fun _ => hw⟩⟩)
      (h _ ⟨?_, hin.fvek⟩)
    intro u hu
    rcases List.mem_append.1 hu with hu | hu
    · exact hin.vmks u hu
    · rwa [List.mem_singleton.1 hu]
  · obtain ⟨e, he', hio⟩ := herr hw
    have hnext : hopEntry area stop p = none := if_neg fun h => hw (h.2.2 hv)
    unfold EntriesVerdict
    rw [walk_entry hstop he, hentry, he']
    exact Sound.verdict hio fun _ => (always_last hnext).2 fun _ h => absurd h hnot

lemma entries_fvek (hroom : stop + 28 ≤ area.size) (he : IsEntry area stop p) (hkey : IsFvek area p)
    (hnone : f.fvek = none) (hin : f.Inside area)
    (h : ∀ f' : Found, f'.Inside area → EntriesVerdict area stop overrun (p + sizeAt area p) f') :
    EntriesVerdict area stop overrun p f := by
  have hstop : stop ≤ area.size := by omega
  have hnext : hopEntry area stop p = none := if_neg fun h => h.2.1 hkey
  unfold EntriesVerdict
  rw [walk_entry hstop he, blockEntry_fvek hstop he hkey hnone]
  obtain ⟨h1, h2, h3⟩ := he
  by_cases hsize : 36 ≤ sizeAt area p
  · obtain ⟨k, hk, hink⟩ := @sealedKey_run area (p + 8) (p + sizeAt area p) (by omega) (by omega)
    rw [hk]
    refine Sound.verdict ((h { f with fvek := some k } ⟨hin.vmks, ?_⟩).sound nofun)
      fun _ => (always_last hnext).2 fun _ _ => hsize
    rintro k ⟨⟩
    exact hink
  · rw [sealedKey_short (by omega) (by omega)]
    refine ⟨fun h => absurd (h hnone) fun hall => ?_, fun _ => ⟨_, rfl, rfl⟩⟩
    exact hsize ((always_last hnext).1 hall ⟨h1, h2, h3⟩ hkey)

lemma entries_verdict (hroom : stop + 28 ≤ area.size) (p : ℕ) (hin : f.Inside area) :
    EntriesVerdict area stop overrun p f := by
  have hstop : stop ≤ area.size := by omega
  induction hk : (stop - p).toNat using Nat.strong_induction_on generalizing p f with
  | _ k ih =>
    by_cases he : IsEntry area stop p
    · have hrest (f' : Found) (hin' : f'.Inside area) :
          EntriesVerdict area stop overrun (p + sizeAt area p) f' := by
        obtain ⟨h1, h2, -⟩ := he
        exact ih _ (by omega) _ hin' rfl
      by_cases hv : IsVmk area p
      · exact entries_vmk hstop he hv hin hrest
      · by_cases hkey : IsFvek area p ∧ f.fvek = none
        · exact entries_fvek hroom he hkey.1 hkey.2 hin hrest
        · obtain ⟨f', hok, hf', hin'⟩ := blockEntry_rest hstop he hv (fun h hn => hkey ⟨h, hn⟩) hin
          refine .step hstop he hok hf' (fun hnone => ?_) (hrest f' hin')
          have hnot : ¬IsFvek area p := fun h => hkey ⟨h, hnone⟩
          exact ⟨hnot, if_pos ⟨he, hnot, fun h => absurd h hv⟩⟩
    · have hnext : hopEntry area stop p = none := if_neg fun h => he h.1
      unfold EntriesVerdict
      rw [walk_end hstop he]
      refine Sound.verdict ?_ fun _ => (always_last hnext).2 fun h => absurd h he
      split
      · exact hin
      · rfl

end Block

/-! ### a copy -/

/-- Every slice of the header is one of the metadata area. Without an FVEK entry there is a blank
key. -/
structure Parsed.Inside (area : Buffer) (h : Parsed) : Prop where
  vmks : ∀ v ∈ h.vmks, v.Inside area
  fvek : h.fvek.Inside area ∨ h.header.fvek = false ∧
    h.fvek = ⟨List.replicate 12 0, List.replicate 16 0, []⟩
  validation : h.validation.Inside area

def metadataSize (area : Buffer) : ℤ := i32 (area.bytes.le32 64)

/-- The FVEK entry that is read, if one is, fits. -/
def FvekRead (area : Buffer) (fveSize : ℕ) : Prop :=
  52 ≤ metadataSize area → i32 (64 + metadataSize area) ≤ fveSize →
    Always (hopEntry area (i32 (64 + metadataSize area)))
      (FvekFits area (i32 (64 + metadataSize area))) 112

section Copy

variable {area : Buffer} {fveSize : ℕ} {first : FirstSector} {sha256 : List UInt8 → List UInt8}

lemma parseBlock_verdict (h1 : 112 ≤ fveSize) (h2 : fveSize + 88 ≤ area.size) :
    Verdict (FvekRead area fveSize) (Parsed.Inside area) (parseBlock sha256 area fveSize first) := by
  unfold parseBlock
  rw [except_bind_run (area.getShort_run (i := 12) (by omega)),
    except_bind_run (area.getShort_run (i := 14) (by omega)),
    except_bind_run (area.getLong_run (i := 16) (by omega)),
    except_bind_run (area.getLong_run (i := 32) (by omega)),
    except_bind_run (area.getLong_run (i := 32 + 8) (by omega)),
    except_bind_run (area.getLong_run (i := 32 + 16) (by omega)),
    except_bind_run (area.getInt_run (i := 64) (by omega)),
    except_bind_run (area.getShort_run (i := 100) (by omega))]
  rw [← metadataSize]
  generalize hstop : i32 (64 + metadataSize area) = stop
  have hbad : FvekRead area fveSize ↔ (¬(metadataSize area < 48 + 4 ∨ (fveSize : ℤ) < stop) →
      Always (hopEntry area stop) (FvekFits area stop) 112) := by
    rw [not_or, not_lt, not_lt, and_imp, ← hstop]
    rfl
  refine (Verdict.failIf fun hsize => ?_).congr hbad
  have hentries : EntriesVerdict area stop "FVE metadata entry overruns the block" 112 {} :=
    entries_verdict (by omega) 112 ⟨nofun, nofun⟩
  refine (hentries.congr ⟨fun h _ => h, fun h => h rfl⟩).bind fun found hfound => ?_
  rw [except_bind_run (area.getShort_run (i := fveSize + 8) (by omega)),
    except_bind_run (area.getShort_run (i := fveSize + 12) (by omega))]
  refine (Verdict.failIf (c := True) fun _ => ?_).sound fun _ => trivial
  rw [except_bind_run (area.copyOfRange_run (i := fveSize + 16) (by omega) (by omega)),
    except_bind_run (area.copyOfRange_run (i := fveSize + 28) (by omega) (by omega)),
    except_bind_run (area.copyOfRange_run (i := fveSize + 44) (by omega) (by omega)),
    except_bind_run (area.copyOfRange_run (i := 0) (by omega) (by omega))]
  refine Sound.verdict ⟨hfound.vmks, ?_, area.holds_slice (by omega) (by omega),
    area.holds_slice (by omega) (by omega), area.holds_slice (by omega) (by omega)⟩ trivial
  cases hk : found.fvek with
  | none => exact .inr ⟨rfl, rfl⟩
  | some k => exact .inl (hfound.fvek k hk)

end Copy

/-! ### the volume -/

def Spells (bytes : Bytes) (i : ℕ) (text : String) : Prop :=
  bytes.slice i text.length = text.toList.map fun c => UInt8.ofNat c.toNat

instance (bytes : Bytes) (i : ℕ) (text : String) : Decidable (Spells bytes i text) :=
  inferInstanceAs (Decidable (_ = _))

def Accepts (s0 : Bytes) : Prop :=
  (Spells s0 3 FVE_SIGNATURE ∨ Spells s0 3 TOGO_SIGNATURE) ∧ ¬(s0 0 = 0xEB ∧ s0 1 = 0x52) ∧
    (s0.le16 11 = 0 ∨ s0.le16 11 = 512 ∨ s0.le16 11 = 4096)

def copyOffsets (s0 : Bytes) : List ℤ :=
  let sbOff := if Spells s0 3 TOGO_SIGNATURE then 424 else 160
  [i64 (s0.le64 (sbOff + 16)), i64 (s0.le64 (sbOff + 16 + 8)), i64 (s0.le64 (sbOff + 16 + 16))]

lemma firstSector_cases (s0 : Bytes) :
    (∃ e, firstSector ⟨512, s0⟩ = .error e ∧ e.kind = .io ∧ ¬Accepts s0) ∨
    ∃ first, firstSector ⟨512, s0⟩ = .ok first ∧ first.offsets = copyOffsets s0 ∧ Accepts s0 := by
  let b : Buffer := ⟨512, s0⟩
  have hfve : b.isText 3 FVE_SIGNATURE = .ok (decide (Spells s0 3 FVE_SIGNATURE)) :=
    b.isText_run (by show 3 + 8 ≤ 512; omega)
  have htogo : b.isText 3 TOGO_SIGNATURE = .ok (decide (Spells s0 3 TOGO_SIGNATURE)) :=
    b.isText_run (by show 3 + 8 ≤ 512; omega)
  have hstored : b.getShort 11 = .ok (s0.le16 11) := b.getShort_run (by show 11 + 2 ≤ 512; omega)
  have hlong (j : ℕ) (hj : j ≤ 456) : b.getLong j = .ok (i64 (s0.le64 j)) :=
    b.getLong_run (by show j + 8 ≤ 512; omega)
  have hguid (j : ℕ) (hj : j ≤ 424) : b.copyOfRange j (j + 16) = .ok (s0.slice j (j + 16 - j)) :=
    b.copyOfRange_run (by omega) (by show j + 16 ≤ 512; omega)
  unfold firstSector
  rw [except_bind_run hfve, except_bind_run htogo]
  by_cases hsig : Spells s0 3 FVE_SIGNATURE ∨ Spells s0 3 TOGO_SIGNATURE
  swap
  · rw [not_or] at hsig
    refine .inl ⟨_, by rw [failIf, if_pos (by simpa using hsig)]; rfl, rfl, fun h => ?_⟩
    exact h.1.elim hsig.1 hsig.2
  rw [failIf_bind_run (by simpa [or_iff_not_imp_left] using hsig)]
  by_cases hvista : s0 0 = 0xEB ∧ s0 1 = 0x52
  · exact .inl ⟨_, by rw [failIf, if_pos hvista]; rfl, rfl, fun h => h.2.1 hvista⟩
  rw [failIf_bind_run hvista, except_bind_run hstored]
  simp only
  have hsbOff : (if decide (Spells s0 3 TOGO_SIGNATURE) = true then 424 else 160) ≤ 424 := by
    split <;> omega
  by_cases hsize : (if s0.le16 11 = 0 then 512 else s0.le16 11) = 512 ∨
    (if s0.le16 11 = 0 then 512 else s0.le16 11) = 4096
  · rw [dif_pos hsize, except_bind_run (hguid _ hsbOff), except_bind_run (hlong _ (by omega)),
      except_bind_run (hlong _ (by omega)), except_bind_run (hlong _ (by omega))]
    refine .inr ⟨_, rfl, ?_, hsig, hvista, ?_⟩
    · simp only [copyOffsets, decide_eq_true_eq]
    · split at hsize <;> omega
  · rw [dif_neg hsize]
    refine .inl ⟨_, rfl, rfl, fun h => hsize ?_⟩
    obtain ⟨-, -, h⟩ := h
    split <;> omega

/-- The copy at `off` is whole: signature, version, size, checksum, and its own idea of where it
is. -/
structure ValidCopy (crc32 : List UInt8 → ℤ) (bytes : Bytes) (i : ℕ) (off : ℤ) : Prop where
  signature : Spells bytes 0 FVE_SIGNATURE
  version : bytes.le16 10 = 2
  low : 112 ≤ bytes.le16 8 * 16
  high : bytes.le16 8 * 16 + 88 ≤ 65536
  crc : i32 (bytes.le32 (bytes.le16 8 * 16 + 4)) = crc32 (bytes.slice 0 (bytes.le16 8 * 16))
  own : i64 (bytes.le64 (32 + 8 * i)) = off

lemma checkCopy_cases (crc32 : List UInt8 → ℤ) (bytes : Bytes) {i : ℕ} (hi : i < 3) (off : ℤ) :
    (∃ problem, checkCopy crc32 ⟨65536, bytes⟩ i off = .ok (.inl problem) ∧
      ¬ValidCopy crc32 bytes i off) ∨
    checkCopy crc32 ⟨65536, bytes⟩ i off = .ok (.inr (bytes.le16 8 * 16)) ∧
    ValidCopy crc32 bytes i off := by
  let b : Buffer := ⟨65536, bytes⟩
  have hfve : b.isText 0 FVE_SIGNATURE = .ok (decide (Spells bytes 0 FVE_SIGNATURE)) :=
    b.isText_run (by show 0 + 8 ≤ 65536; omega)
  have hshort (j : ℕ) (hj : j ≤ 10) : b.getShort j = .ok (bytes.le16 j) :=
    b.getShort_run (by show j + 2 ≤ 65536; omega)
  have hvalid : ¬ (¬decide (Spells bytes 0 FVE_SIGNATURE) = true ∨ bytes.le16 10 ≠ 2) ↔
      Spells bytes 0 FVE_SIGNATURE ∧ bytes.le16 10 = 2 := by
    rw [not_or, not_not, not_not, decide_eq_true_eq]
  unfold checkCopy
  rw [except_bind_run hfve, except_bind_run (hshort 10 (by omega))]
  by_cases hsig : ¬decide (Spells bytes 0 FVE_SIGNATURE) = true ∨ bytes.le16 10 ≠ 2
  · exact .inl ⟨_, by rw [if_pos hsig]; rfl, fun h => hvalid.2 ⟨h.signature, h.version⟩ hsig⟩
  rw [if_neg hsig, except_bind_run (hshort 8 (by omega))]
  simp only
  by_cases hsize : bytes.le16 8 * 2 ^ 4 < 112 ∨ METADATA_AREA_SIZE < (bytes.le16 8 * 2 ^ 4 : ℕ) + 16 + 72
  · refine .inl ⟨_, by rw [if_pos hsize]; rfl, fun h => ?_⟩
    have := h.low
    have := h.high
    unfold METADATA_AREA_SIZE at hsize
    omega
  have hlow : 112 ≤ bytes.le16 8 * 16 := by omega
  have hhigh : bytes.le16 8 * 16 + 88 ≤ 65536 := by
    unfold METADATA_AREA_SIZE at hsize
    omega
  have hstored : b.getInt (bytes.le16 8 * 2 ^ 4 + 4) =
      .ok (i32 (bytes.le32 (bytes.le16 8 * 2 ^ 4 + 4))) :=
    b.getInt_run (by show _ ≤ 65536; omega)
  have hown : b.getLong (32 + 8 * i) = .ok (i64 (bytes.le64 (32 + 8 * i))) :=
    b.getLong_run (by show _ ≤ 65536; omega)
  rw [if_neg hsize, except_bind_run hstored]
  by_cases hcrc : i32 (bytes.le32 (bytes.le16 8 * 2 ^ 4 + 4)) ≠
    crc32 (bytes.slice 0 (bytes.le16 8 * 2 ^ 4))
  · exact .inl ⟨_, by rw [if_pos hcrc]; rfl, fun h => hcrc h.crc⟩
  rw [if_neg hcrc, except_bind_run hown]
  by_cases hplace : i64 (bytes.le64 (32 + 8 * i)) ≠ off
  · exact .inl ⟨_, by rw [if_pos hplace]; rfl, fun h => hplace h.own⟩
  rw [if_neg hplace]
  obtain ⟨hfve, hversion⟩ := hvalid.1 hsig
  exact .inr ⟨rfl, hfve, hversion, hlow, hhigh, not_not.1 hcrc, not_not.1 hplace⟩

section Volume

variable {crc32 : List UInt8 → ℤ} {sha256 : List UInt8 → List UInt8} {read : ℤ → ℤ → E Bytes}

structure GoodCopy (crc32 : List UInt8 → ℤ) (read : ℤ → ℤ → E Bytes) (c : ℕ × ℤ) (bytes : Bytes) :
    Prop where
  pos : 0 < c.2
  read : read c.2 METADATA_AREA_SIZE = .ok bytes
  valid : ValidCopy crc32 bytes c.1 c.2

def UsedCopy (crc32 : List UInt8 → ℤ) (read : ℤ → ℤ → E Bytes) : List (ℕ × ℤ) → Bytes → Prop
  | [], _ => False
  | c :: rest, bytes => GoodCopy crc32 read c bytes ∨ (∀ b, ¬GoodCopy crc32 read c b) ∧
    UsedCopy crc32 read rest bytes

def ReadInside (read : ℤ → ℤ → E Bytes) (h : Parsed) : Prop :=
  ∃ off bytes, read off METADATA_AREA_SIZE = .ok bytes ∧ h.Inside ⟨METADATA_AREA_SIZE.toNat, bytes⟩

lemma parseCopies_verdict
    (hread : ∀ off e, read off METADATA_AREA_SIZE = .error e → isError e.kind = false)
    {first : FirstSector} {copies : List (ℕ × ℤ)} (hcopies : ∀ c ∈ copies, c.1 < 3)
    (lastProblem : String) :
    Verdict (∀ bytes, UsedCopy crc32 read copies bytes → FvekRead ⟨65536, bytes⟩ (bytes.le16 8 * 16))
      (ReadInside read) (parseCopies crc32 sha256 read first copies lastProblem) := by
  induction copies generalizing lastProblem with
  | nil => exact Sound.verdict rfl fun bytes h => h.elim
  | cons c rest ih =>
    obtain ⟨i, off⟩ := c
    -- a copy that is passed over leaves the verdict to the others
    have hpass (hbad : ∀ b, ¬GoodCopy crc32 read (i, off) b) (problem : String) :
        Verdict (∀ bytes, UsedCopy crc32 read ((i, off) :: rest) bytes →
          FvekRead ⟨65536, bytes⟩ (bytes.le16 8 * 16))
          (ReadInside read) (parseCopies crc32 sha256 read first rest problem) := by
      refine (ih (fun c hc => hcopies c (List.mem_cons_of_mem _ hc)) problem).congr
        (forall_congr' fun bytes => imp_congr_left ?_)
      exact ⟨fun h => (h.resolve_left (hbad bytes)).2, fun h => .inr ⟨hbad, h⟩⟩
    rw [parseCopies]
    split
    · rename_i hoff
      exact hpass (fun b h => absurd h.pos (not_lt.2 hoff)) _
    rename_i hoff
    cases hr : read off METADATA_AREA_SIZE with
    | error e =>
      simp only [hread off e hr, Bool.false_eq_true, if_false]
      exact hpass (fun b h => by cases hr.symm.trans h.read) _
    | ok bytes =>
      have harea : METADATA_AREA_SIZE.toNat = 65536 := rfl
      simp only
      rcases checkCopy_cases crc32 bytes (hcopies (i, off) List.mem_cons_self) off with ⟨problem,
        hp, hbad⟩ | ⟨hp, hvalid⟩
      · rw [harea, except_bind_run hp]
        exact hpass (fun b h => hbad (by cases hr.symm.trans h.read; exact h.valid)) problem
      · have hgood : GoodCopy crc32 read (i, off) bytes := ⟨by omega, hr, hvalid⟩
        rw [harea, except_bind_run hp]
        refine ((parseBlock_verdict hvalid.low hvalid.high).mono fun h hin =>
          ⟨off, bytes, hr, hin⟩).congr ?_
        constructor
        · exact fun h => h bytes (.inl hgood)
        · rintro h b (hb | hb)
          · cases hr.symm.trans hb.read
            exact h
          · exact absurd hgood (hb.1 bytes)

/-- The copy of the metadata that is used, if one is, has no FVEK entry that is read and does not
fit. -/
def FvekSound (crc32 : List UInt8 → ℤ) (read : ℤ → ℤ → E Bytes) (s0 : Bytes) : Prop :=
  Accepts s0 → ∀ bytes, UsedCopy crc32 read ((List.range 3).zip (copyOffsets s0)) bytes →
    FvekRead ⟨65536, bytes⟩ (bytes.le16 8 * 16)

lemma parse_verdict {s0 : Bytes} (hs0 : read 0 512 = .ok s0)
    (hread : ∀ off e, read off METADATA_AREA_SIZE = .error e → isError e.kind = false) :
    Verdict (FvekSound crc32 read s0) (ReadInside read) (parse crc32 sha256 read) := by
  unfold parse
  rw [except_bind_run hs0]
  rcases firstSector_cases s0 with ⟨e, he, hio, hno⟩ | ⟨first, hfirst, hoffsets, hyes⟩
  · rw [he]
    exact Sound.verdict hio fun h => absurd h hno
  · rw [except_bind_run hfirst, hoffsets]
    refine (parseCopies_verdict hread (fun c hc => ?_) _).congr ⟨fun h => h hyes, fun h _ => h⟩
    exact List.mem_range.1 (List.of_mem_zip hc).1

/-- **`parse` returns a header whose slices lie inside the area, or throws an `IOException`, exactly
if the FVEK entry it reads, if it reads one, fits.** -/
theorem parse_sound_iff {s0 : Bytes} (hs0 : read 0 512 = .ok s0)
    (hread : ∀ off e, read off METADATA_AREA_SIZE = .error e → isError e.kind = false) :
    Sound (ReadInside read) (parse crc32 sha256 read) ↔ FvekSound crc32 read s0 :=
  (parse_verdict hs0 hread).iff

end Volume

/-! ### a volume with one FVEK entry -/

def putBytes (b : Bytes) (o : ℕ) (l : List UInt8) : Bytes := b.patch o l.length fun i => l.getD i 0

def javaCrc32 (l : List UInt8) : ℤ := i32 (Veracrypt.crc32 l).toNat

def asciiBytes (text : String) : List UInt8 := text.toList.map fun c => UInt8.ofNat c.toNat

def sampleSector : Bytes :=
  (putBytes ((putBytes (Bytes.zeros.put8 0 0xEB) 3 (asciiBytes FVE_SIGNATURE)).put16 11 512) 160
    GUID_NORMAL).put64 176 65536

/-- A block of 160 bytes, with an FVEK entry of `n` bytes at 112. -/
def sampleBlock (n : ℕ) : Bytes :=
  (((((((((putBytes Bytes.zeros 0 (asciiBytes FVE_SIGNATURE)).put16 8 10).put16 10 2).put16 12
    4).put16 14 4).put64 32 65536).put32 64 96).put16 112 n).put16 114 3).put16 116 5

def sampleArea (n : ℕ) : Bytes :=
  (((sampleBlock n).put32 164 (Veracrypt.crc32 ((sampleBlock n).slice 0 160)).toNat).put16 168
    80).put16 172 5

def sampleRead (n : ℕ) (off : ℤ) (_ : ℤ) : E Bytes :=
  if off = 0 then .ok sampleSector
  else if off = 65536 then .ok (sampleArea n)
  else .error ⟨.io, "read past the end of the drive"⟩

lemma sampleRead_errors (n : ℕ) (off : ℤ) (e : Thrown)
    (h : sampleRead n off METADATA_AREA_SIZE = .error e) : isError e.kind = false := by
  unfold sampleRead at h
  split at h
  · cases h
  · split at h <;> cases h
    rfl

set_option maxRecDepth 100000 in
lemma sample_good {n : ℕ} (hn : n = 8 ∨ n = 36) :
    GoodCopy javaCrc32 (sampleRead n) (0, 65536) (sampleArea n) where
  pos := by decide
  read := rfl
  valid := by rcases hn with rfl | rfl <;> constructor <;> decide +kernel

lemma sample_copies : (List.range 3).zip (copyOffsets sampleSector) = [(0, 65536), (1, 0), (2, 0)] := by
  decide +kernel

/-- An FVEK entry of eight bytes: an `IllegalArgumentException` escapes. -/
theorem parse_short_fvek :
    ∃ e, parse javaCrc32 (fun _ => []) (sampleRead 8) = .error e ∧ e.kind = .illegalArgument := by
  have hs0 : sampleRead 8 0 512 = .ok sampleSector := rfl
  refine (parse_verdict hs0 (sampleRead_errors 8)).other fun h => ?_
  unfold FvekSound at h
  rw [sample_copies] at h
  have haccepts : Accepts sampleSector := ⟨by decide +kernel, by decide +kernel, by decide +kernel⟩
  have hread :=
    h haccepts (sampleArea 8) (.inl (sample_good (.inl rfl))) (by decide +kernel)
      (by decide +kernel)
  have hentry : IsEntry ⟨65536, sampleArea 8⟩ (i32 (64 + metadataSize ⟨65536, sampleArea 8⟩)) 112 := by
    decide +kernel
  have hkey : IsFvek ⟨65536, sampleArea 8⟩ 112 := ⟨by decide +kernel, by decide +kernel⟩
  exact absurd ((always_iff.1 hread).1 hentry hkey) (by decide +kernel)

lemma sample_fvekSound : FvekSound javaCrc32 (sampleRead 36) sampleSector := by
  unfold FvekSound
  rw [sample_copies]
  have hgood := sample_good (.inr rfl : 36 = 8 ∨ 36 = 36)
  rintro - bytes (hc | hc)
  · cases hgood.read.symm.trans hc.read
    intro _ _
    have hkey : IsFvek ⟨65536, sampleArea 36⟩ 112 := ⟨by decide +kernel, by decide +kernel⟩
    have hlast : hopEntry ⟨65536, sampleArea 36⟩ (i32 (64 + metadataSize ⟨65536, sampleArea 36⟩))
        112 = none :=
      if_neg fun h => h.2.1 hkey
    refine (always_last hlast).2 fun _ _ => ?_
    decide +kernel
  · exact absurd hgood (hc.1 _)

theorem parse_sound_fvek :
    Sound (ReadInside (sampleRead 36)) (parse javaCrc32 (fun _ => []) (sampleRead 36)) := by
  have hs0 : sampleRead 36 0 512 = .ok sampleSector := rfl
  rw [parse_sound_iff hs0 (sampleRead_errors 36)]
  exact sample_fvekSound

end OtgMaster.Bitlocker
