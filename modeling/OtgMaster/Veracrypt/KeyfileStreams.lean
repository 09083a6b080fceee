import OtgMaster.Veracrypt.Keyfiles

/-!
`VeraCryptKeyfiles` on the streams it is given. A stream decides for itself how many bytes each
`read` returns, and `mixOne` reads until it has its 1 MiB. What it mixes does not show the cuts
between the reads (`mixLoop_eq`), so a list of streams is mixed as the list of their bytes is
(`applyStreams_eq`).
-/

namespace OtgMaster.Veracrypt

open Lib Block

/-- An `InputStream`: the bytes still to come, how many of them the reads to come are ready to give,
and what is thrown after the last byte (whether it is an `IOException`, and its message). -/
structure InputStream where
  bytes : List UInt8
  sizes : ℕ → ℕ
  failure : Option (Bool × String)

namespace InputStream

/-- `read(buffer, 0, len)` before the end of the stream: at least one byte. -/
def read (s : InputStream) (len : ℕ) : List UInt8 × InputStream :=
  let n := min (max 1 (s.sizes 0)) len
  (s.bytes.take n, { s with bytes := s.bytes.drop n, sizes := fun k => s.sizes (k + 1) })

lemma read_bytes (s : InputStream) (len : ℕ) : (s.read len).1 ++ (s.read len).2.bytes = s.bytes :=
  List.take_append_drop ..

lemma read_length (s : InputStream) {len : ℕ} (hlen : 0 < len) (hs : s.bytes ≠ []) :
    0 < (s.read len).1.length ∧ (s.read len).1.length ≤ len := by
  have := List.length_pos_of_ne_nil hs
  simp only [read, List.length_take]
  omega

/-- `mixOne`'s limit is reached before the stream throws. -/
def Readable (s : InputStream) : Prop := s.failure = none ∨ maxBytesRead ≤ s.bytes.length

end InputStream

open InputStream

def bufferSize : ℕ := 65536

def mixLoop (s : InputStream) (total : ℕ) (m : Mix) : Mix × Option (Bool × String) :=
  if total < maxBytesRead ∧ s.bytes ≠ [] then
    let got := s.read (min bufferSize (maxBytesRead - total))
    mixLoop got.2 (total + got.1.length) (got.1.foldl Mix.byte m)
  else (m, if total < maxBytesRead then s.failure else none)
termination_by s.bytes.length
decreasing_by
  rename_i h
  have hlen : 0 < min bufferSize (maxBytesRead - total) := by
    unfold bufferSize
    omega
  have hpos := (s.read_length hlen h.2).1
  have hsplit := congrArg List.length (s.read_bytes (min bufferSize (maxBytesRead - total)))
  rw [List.length_append] at hsplit
  omega

lemma mixLoop_eq (s : InputStream) (total : ℕ) (m : Mix) (htotal : total ≤ maxBytesRead) :
    mixLoop s total m =
      ((s.bytes.take (maxBytesRead - total)).foldl Mix.byte m,
        if maxBytesRead - total ≤ s.bytes.length then none else s.failure) := by
  fun_induction mixLoop s total m with
  | case1 s total m h got ih =>
    have hlen : 0 < min bufferSize (maxBytesRead - total) := by
      unfold bufferSize
      omega
    obtain ⟨-, hmax⟩ := s.read_length hlen h.2
    have hsplit : got.1 ++ got.2.bytes = s.bytes := s.read_bytes _
    have hle : got.1.length ≤ maxBytesRead - total := by
      refine le_trans hmax (min_le_right ..)
    have hfail : got.2.failure = s.failure := rfl
    rw [ih (by omega), hfail, ← hsplit, List.take_append, List.take_of_length_le hle, List.foldl_append,
      List.length_append, Nat.sub_sub]
    congr 1
    refine if_congr ?_ rfl rfl
    omega
  | case2 s total m h =>
    by_cases ht : total < maxBytesRead
    · have hnil : s.bytes = [] := by
        by_contra hne
        exact h ⟨ht, hne⟩
      have hpos : ¬maxBytesRead - total ≤ 0 := by omega
      simp [hnil, ht, hpos]
    · have hzero : maxBytesRead - total = 0 := by omega
      simp [hzero, ht]

/-- One turn of the loop over the keyfiles: the pool after it, and what is thrown for the keyfile
with index `n`. `open` returns `null` for `none`. -/
def mixStream (n : ℕ) (pool : List UInt8) : Option InputStream → List UInt8 × Option Thrown
  | none => (pool, some ⟨.io, s!"keyfile {n + 1} could not be opened"⟩)
  | some s =>
    let r := mixLoop s 0 ⟨0xFFFFFFFF, 0, pool⟩
    (r.1.pool, r.2.map fun (io, message) =>
      ⟨.io, if io then message else s!"keyfile {n + 1} could not be read: {message}"⟩)

def mixStreams (skipUnreadable : Bool) : (n : ℕ) → (pool : List UInt8) → List (Option InputStream) →
    E (List UInt8)
  | _, pool, [] => pure pool
  | n, pool, k :: ks =>
    match mixStream n pool k with
    | (pool, none) => mixStreams skipUnreadable (n + 1) pool ks
    | (pool, some e) => if skipUnreadable then mixStreams skipUnreadable (n + 1) pool ks else throw e

def applyStreams (password : Key) (keyfiles : List (Option InputStream)) (skipUnreadable : Bool) :
    E Key := do
  if keyfiles.isEmpty then return password
  let pool ← mixStreams skipUnreadable 0 (List.replicate (poolSize password) 0) keyfiles
  return mixIn password pool

/-! ### streams as keyfiles -/

def Keyfile.ofStream : Option InputStream → Keyfile
  | none => .missing
  | some ⟨bytes, _, none⟩ => .readable bytes
  | some ⟨bytes, _, some (io, message)⟩ => .broken bytes io message

lemma mixStream_eq (n : ℕ) (pool : List UInt8) (k : Option InputStream) :
    mixStream n pool k = (mixOne pool (Keyfile.ofStream k).bytes, (Keyfile.ofStream k).failure n) := by
  cases k with
  | none => rfl
  | some s =>
    obtain ⟨bytes, sizes, failure⟩ := s
    rw [mixStream, mixLoop_eq _ _ _ (Nat.zero_le _), Nat.sub_zero]
    rcases failure with _ | ⟨io, message⟩
    · simp [Keyfile.ofStream, Keyfile.bytes, Keyfile.failure, mixOne]
    · by_cases h : maxBytesRead ≤ bytes.length
      · simp [Keyfile.ofStream, Keyfile.bytes, Keyfile.failure, mixOne, h]
      · simp [Keyfile.ofStream, Keyfile.bytes, Keyfile.failure, mixOne, h]

lemma mixStreams_eq (skip : Bool) (ks : List (Option InputStream)) (n : ℕ) (pool : List UInt8) :
    mixStreams skip n pool ks = mixAll skip n pool (ks.map Keyfile.ofStream) := by
  induction ks generalizing n pool with
  | nil => rfl
  | cons k ks ih =>
    rw [mixStreams, mixStream_eq, List.map_cons, mixAll]
    cases (Keyfile.ofStream k).failure n with
    | none => exact ih ..
    | some e =>
      cases skip with
      | true => exact ih ..
      | false => rfl

/-- **How a stream cuts its reads does not show.** -/
theorem applyStreams_eq (password : Key) (ks : List (Option InputStream)) (skip : Bool) :
    applyStreams password ks skip = applyKeyfiles password (ks.map Keyfile.ofStream) skip := by
  unfold applyStreams applyKeyfiles
  rw [List.isEmpty_map, mixStreams_eq]

/-! ### what the result depends on -/

lemma mixAll_none {ks : List Keyfile} (h : ∀ k ∈ ks, ∀ n, k.failure n = none) (skip : Bool) (n : ℕ)
    (pool : List UInt8) : mixAll skip n pool ks = .ok ((ks.map Keyfile.bytes).foldl mixOne pool) := by
  induction ks generalizing n pool with
  | nil => rfl
  | cons k ks ih =>
    rw [mixAll, h k (List.mem_cons_self ..) n]
    exact ih (fun k hk => h k (List.mem_cons_of_mem _ hk)) ..

lemma applyKeyfiles_none {ks : List Keyfile} (h : ∀ k ∈ ks, ∀ n, k.failure n = none) (password : Key)
    (skip : Bool) : applyKeyfiles password ks skip = .ok (pooled password ks) := by
  unfold applyKeyfiles pooled
  split
  · rfl
  · exact except_bind_run (mixAll_none h ..)

lemma failure_ofStream {s : InputStream} (h : s.Readable) (n : ℕ) :
    (Keyfile.ofStream (some s)).failure n = none := by
  obtain ⟨bytes, sizes, _ | ⟨io, message⟩⟩ := s
  · rfl
  · rcases h with h | h
    · cases h
    · exact if_pos h

lemma bytes_ofStream (s : InputStream) : (Keyfile.ofStream (some s)).bytes = s.bytes := by
  obtain ⟨bytes, sizes, _ | ⟨io, message⟩⟩ := s <;> rfl

/-- The part of a keyfile that `mixOne` reads. -/
def Keyfile.cut (k : Keyfile) : Keyfile := .readable (k.bytes.take maxBytesRead)

lemma mixOne_take (pool bytes : List UInt8) :
    mixOne pool (bytes.take maxBytesRead) = mixOne pool bytes := by
  unfold mixOne
  rw [List.take_take, Nat.min_self]

lemma pooled_cut (password : Key) (ks : List Keyfile) :
    pooled password (ks.map Keyfile.cut) = pooled password ks := by
  have hfold (pool : List UInt8) :
      ((ks.map Keyfile.cut).map Keyfile.bytes).foldl mixOne pool =
          (ks.map Keyfile.bytes).foldl mixOne pool := by
    induction ks generalizing pool with
    | nil => rfl
    | cons k ks ih =>
      simp only [List.map_cons, List.foldl_cons]
      rw [ih, Keyfile.cut, Keyfile.bytes, mixOne_take]
  unfold pooled
  rw [List.isEmpty_map, hfold]

lemma applyStreams_readable {ks : List InputStream} (h : ∀ k ∈ ks, k.Readable) (password : Key)
    (skip : Bool) :
    applyStreams password (ks.map some) skip =
      .ok (pooled password (ks.map fun k => .readable (k.bytes.take maxBytesRead))) := by
  have hcut : ((ks.map some).map Keyfile.ofStream).map Keyfile.cut =
      ks.map fun k => .readable (k.bytes.take maxBytesRead) := by
    rw [List.map_map, List.map_map]
    refine List.map_congr_left fun k _ => ?_
    simp only [Function.comp_apply, Keyfile.cut, bytes_ofStream]
  rw [applyStreams_eq, applyKeyfiles_none, ← hcut, pooled_cut]
  intro k hk n
  obtain ⟨o, ho, rfl⟩ := List.mem_map.1 hk
  obtain ⟨s, hs, rfl⟩ := List.mem_map.1 ho
  exact failure_ofStream (h s hs) n

/-- **Only the password and the first 1 MiB of each keyfile count.** Two lists of keyfiles that can
be read, whose first 1 MiB are the same up to the order of the files, give one result, however their
streams cut their reads. -/
theorem apply_of_first_mib (password : Key) (skip skip' : Bool) {ks ks' : List InputStream}
    (h : ∀ k ∈ ks, k.Readable) (h' : ∀ k ∈ ks', k.Readable)
    (hperm : (ks.map fun k => k.bytes.take maxBytesRead).Perm
      (ks'.map fun k => k.bytes.take maxBytesRead)) :
    ∃ key, applyStreams password (ks.map some) skip = .ok key ∧
      applyStreams password (ks'.map some) skip' = .ok key := by
  refine ⟨_, applyStreams_readable h password skip, ?_⟩
  rw [applyStreams_readable h' password skip']
  have hfiles := hperm.map Keyfile.readable
  rw [List.map_map, List.map_map] at hfiles
  exact congrArg _ (pooled_perm hfiles).symm

/-- Two keyfiles in either order, one read byte by byte or at once. -/
theorem apply_of_first_mib_swap :
    ∃ key,
      applyStreams
        [1, 2] (([⟨[3, 4], fun _ => 1, none⟩, ⟨[5], fun _ => 9, none⟩] : List InputStream).map some)
        false = .ok key ∧
      applyStreams
        [1, 2] (([⟨[5], fun _ => 1, none⟩, ⟨[3, 4], fun _ => 2, none⟩] : List InputStream).map some)
        false = .ok key := by
  refine apply_of_first_mib [1, 2] false false ?_ ?_ (List.Perm.swap ..)
  · simp [InputStream.Readable]
  · simp [InputStream.Readable]

end OtgMaster.Veracrypt
