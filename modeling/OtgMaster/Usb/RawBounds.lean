import OtgMaster.Usb.RawDevice
import Mathlib.Tactic.Ring
import Mathlib.Tactic.Linarith

/-!
How much work a call of the device makes, which blocks its transfers move, and how the size of the
transfers develops.

Both loops are one loop (`transferLoop`) over the transfer of a chunk. A turn of the loop calls the
driver a bounded number of times, as the window of recent writes is bounded (`Fits`). The turns are
paid out of the potential `left · (2 · total + 1) + 2 · chunk`, less one if a failure of this chunk
will count as a repeated one: a transfer that succeeds takes a block off `left`, a first failure
makes the next one a repeated one, and a repeated failure lowers the size or ends the call.
-/

namespace OtgMaster.Usb

open Lib

variable {β : Type} {cfg : Config} {s s' s'' : Dev β} {α : Type}

/-! ### One loop for both calls -/

def Call.start : Call β → ℕ
  | .read startBlock _ => startBlock
  | .write startBlock _ => startBlock

def Call.count : Call β → ℕ
  | .read _ blockCount => blockCount
  | .write _ data => data.length

lemma wp_attempt {α : Type} {m : M β α} {Q : Option α → Dev β → Prop} {E : Ex → Dev β → Prop}
    (h : wp m (fun a s' => Q (some a) s')
      (fun e s' => (e = .failed → Q none s') ∧ (e = .waiting → E e s')) s) : wp (attempt m) Q E s := by
  unfold wp attempt at *
  split at h
  · rename_i hm
    rw [hm]
    exact h
  · rename_i e s' hm
    rw [hm]
    cases e with
    | failed => exact h.1 rfl
    | waiting => exact h.2 rfl

/-! ### Calls of the driver -/

/-- The drive has been called `k` times at most, and the rest of the device is as before. -/
structure Idle (k : ℕ) (s s' : Dev β) : Prop where
  script : s.script.length ≤ s'.script.length + k
  size : s'.maxTransferBlocks = s.maxTransferBlocks
  chunk : s'.retriedChunk = s.retriedChunk
  since : s'.transfersSinceRetry = s.transfersSinceRetry
  writes : s'.recentWrites = s.recentWrites
  bytes : s'.recentBytes = s.recentBytes

lemma Idle.refl (s : Dev β) : Idle 0 s s := ⟨le_rfl, rfl, rfl, rfl, rfl, rfl⟩

lemma Idle.trans {k l : ℕ} (h : Idle k s s') (h' : Idle l s' s'') : Idle (k + l) s s'' := by
  obtain ⟨h₁, h₂, h₃, h₄, h₅, h₆⟩ := h
  obtain ⟨h₁', h₂', h₃', h₄', h₅', h₆'⟩ := h'
  exact ⟨by omega, h₂'.trans h₂, h₃'.trans h₃, h₄'.trans h₄, h₅'.trans h₅, h₆'.trans h₆⟩

lemma Idle.mono {k l : ℕ} (h : Idle k s s') (hkl : k ≤ l) : Idle l s s' :=
  { h with script := h.script.trans (by omega) }

/-- The program calls the drive `k` times at most, so that it waits for the drive only if there are
fewer replies, and changes nothing else. -/
def Takes (k : ℕ) (m : M β α) (s : Dev β) : Prop :=
  wp m (fun _ s' => Idle k s s') (fun e s' => (e = .waiting → s.script.length < k) ∧ Idle k s s') s

section Takes

variable {γ : Type} {m : M β α} {f : α → M β γ} {k l : ℕ}

lemma Takes.mono (h : Takes k m s) (hkl : k ≤ l) : Takes l m s := by
  refine wp_mono h (fun _ _ h' => h'.mono hkl) fun e _ h' => ⟨fun he => ?_, h'.2.mono hkl⟩
  have := h'.1 he
  omega

lemma Takes.bind (h : Takes k m s) (h' : ∀ a s', Idle k s s' → Takes l (f a) s') :
    Takes (k + l) (m >>= f) s := by
  unfold Takes
  rw [wp_bind]
  refine wp_mono h (fun a s₁ h₁ => ?_) fun e s₁ h₁ => ⟨fun he => ?_, h₁.2.mono (by omega)⟩
  · refine wp_mono (h' a s₁ h₁) (fun _ _ h₂ => h₁.trans h₂) fun e _ h₂ => ⟨fun he => ?_, h₁.trans h₂.2⟩
    have := h₂.1 he
    have := h₁.script
    omega
  · have := h₁.1 he
    omega

lemma Takes.pure (a : α) (s : Dev β) : Takes 0 (pure a) s := Idle.refl s

lemma Takes.modify {g : Dev β → Dev β} (h : Idle 0 s (g s)) : Takes 0 (modify g) s := h

lemma Takes.attempt (h : Takes k m s) : Takes k (attempt m) s :=
  wp_attempt (wp_mono h (fun _ _ h' => h') fun _ _ h' => ⟨fun _ => h'.2, fun _ => h'⟩)

lemma Takes.forM {ι : Type} {f : ι → M β PUnit} (h : ∀ i s, Takes k (f i) s) :
    ∀ (is : List ι) (s : Dev β), Takes (is.length * k) (is.forM f) s
  | [], s => (Idle.refl s).mono (Nat.zero_le _)
  | i :: is, s => by
    have hcons : (i :: is).length * k = k + is.length * k := by
      rw [List.length_cons]
      ring
    rw [hcons]
    exact Takes.bind (h i s) fun _ s' _ => Takes.forM h is s'

end Takes

/-- A failure of a chunk of this size will count as a repeated one. -/
def Dev.repeated (s : Dev β) (chunk : ℕ) : Bool :=
  chunk = s.retriedChunk && s.transfersSinceRetry.any fun since => since < SAME_SIZE_RETRY_WINDOW

structure Shrunk (cfg : Config) (s s' : Dev β) : Prop where
  le : s'.maxTransferBlocks ≤ s.maxTransferBlocks
  floor : s'.maxTransferBlocks = s.maxTransferBlocks ∨ cfg.minTransferBlocks ≤ s'.maxTransferBlocks

lemma Shrunk.of_eq (h : s'.maxTransferBlocks = s.maxTransferBlocks) : Shrunk cfg s s' := ⟨h.le, .inl h⟩

lemma Shrunk.trans (h : Shrunk cfg s s') (h' : Shrunk cfg s' s'') : Shrunk cfg s s'' := by
  refine ⟨h'.le.trans h.le, ?_⟩
  rcases h'.floor with heq | hmin
  · rw [heq]
    exact h.floor
  · exact .inr hmin

lemma minTransferBlocks_pos : 0 < cfg.minTransferBlocks :=
  Nat.lt_of_lt_of_le Nat.zero_lt_one (le_max_right _ _)

def Config.bytesOf (cfg : Config) (ws : List (Write β)) : ℕ :=
  (ws.map fun w => w.data.length * cfg.blockSize).sum

def Config.windowWrites (cfg : Config) : ℕ := max 1 (REPLAY_BYTES / cfg.blockSize)

/-- The window holds no more than `REPLAY_BYTES`, in writes that are not empty: only of blocks
larger than the window an empty write is remembered, and then alone. -/
structure Fits (cfg : Config) (s : Dev β) : Prop where
  bytes : cfg.bytesOf s.recentWrites = s.recentBytes
  limit : s.recentBytes ≤ REPLAY_BYTES
  single : REPLAY_BYTES < cfg.blockSize → s.recentWrites.length ≤ 1
  full : cfg.blockSize ≤ REPLAY_BYTES → ∀ w ∈ s.recentWrites, w.data ≠ []

lemma Fits.congr (h : Fits cfg s) (hw : s'.recentWrites = s.recentWrites)
    (hb : s'.recentBytes = s.recentBytes) : Fits cfg s' := by
  obtain ⟨h₁, h₂, h₃, h₄⟩ := h
  rw [← hw, ← hb] at h₁
  rw [← hb] at h₂
  rw [← hw] at h₃ h₄
  exact ⟨h₁, h₂, h₃, h₄⟩

lemma length_mul_le_bytesOf (ws : List (Write β)) (h : ∀ w ∈ ws, w.data ≠ []) :
    ws.length * cfg.blockSize ≤ cfg.bytesOf ws := by
  induction ws with
  | nil => simp [Config.bytesOf]
  | cons w ws ih =>
    have hrest := ih fun w' hw' => h w' (List.mem_cons_of_mem _ hw')
    have hw : 0 < w.data.length := List.length_pos_iff.2 (h w List.mem_cons_self)
    have hone : 1 * cfg.blockSize ≤ w.data.length * cfg.blockSize := Nat.mul_le_mul_right _ hw
    have hsum : cfg.bytesOf (w :: ws) = w.data.length * cfg.blockSize + cfg.bytesOf ws := rfl
    rw [hsum, List.length_cons, Nat.add_mul]
    omega

lemma Fits.length_le (h : Fits cfg s) (hbs : 0 < cfg.blockSize) :
    s.recentWrites.length ≤ cfg.windowWrites := by
  rcases Nat.lt_or_ge REPLAY_BYTES cfg.blockSize with hlt | hge
  · exact (h.single hlt).trans (le_max_left _ _)
  · refine le_trans ?_ (le_max_right _ _)
    rw [Nat.le_div_iff_mul_le hbs]
    calc s.recentWrites.length * cfg.blockSize ≤ cfg.bytesOf s.recentWrites :=
      length_mul_le_bytesOf _ (h.full hge)
      _ = s.recentBytes := h.bytes
      _ ≤ REPLAY_BYTES := h.limit

lemma makeRoom_suffix (length : ℕ) (ws : List (Write β)) (bytes : ℕ) :
    (makeRoom cfg length ws bytes).1 <:+ ws := by
  induction ws generalizing bytes with
  | nil => exact List.suffix_rfl
  | cons w ws ih =>
    unfold makeRoom
    split
    · exact (ih _).trans (List.suffix_cons w ws)
    · exact List.suffix_rfl

lemma makeRoom_bytes (length : ℕ) (ws : List (Write β)) : ∀ bytes, cfg.bytesOf ws = bytes →
    cfg.bytesOf (makeRoom cfg length ws bytes).1 = (makeRoom cfg length ws bytes).2 ∧
      ((makeRoom cfg length ws bytes).2 + length ≤ REPLAY_BYTES ∨
        (makeRoom cfg length ws bytes).1 = []) := by
  induction ws with
  | nil => exact fun bytes h => ⟨h, .inr rfl⟩
  | cons w ws ih =>
    intro bytes h
    unfold makeRoom
    split
    · refine ih _ ?_
      rw [← h]
      exact (Nat.add_sub_cancel_left ..).symm
    · exact ⟨h, .inl (by omega)⟩

lemma Fits.remember {block : ℕ} {data : List β} (h : Fits cfg s) (hd : data ≠ [])
    (hbs : 0 < cfg.blockSize) : Fits cfg (rememberWrite cfg block data s) := by
  have hlen : 0 < data.length := List.length_pos_iff.2 hd
  by_cases hbig : REPLAY_BYTES < data.length * cfg.blockSize
  · have hquot : REPLAY_BYTES / cfg.blockSize < data.length := (Nat.div_lt_iff_lt_mul hbs).2 hbig
    have hmul : REPLAY_BYTES / cfg.blockSize * cfg.blockSize ≤ REPLAY_BYTES := Nat.div_mul_le_self _ _
    have hskip : cfg.skipped data = data.length - REPLAY_BYTES / cfg.blockSize := if_pos hbig
    have hkeep : data.length - cfg.skipped data = REPLAY_BYTES / cfg.blockSize := by
      rw [hskip]
      exact Nat.sub_sub_self hquot.le
    have hroom : s.roomFor cfg data = ([], 0) := if_pos hbig
    simp only [rememberWrite, hroom, List.nil_append, Nat.zero_add, hkeep]
    refine ⟨?_, hmul, fun _ => le_rfl, fun hle w hw => ?_⟩
    · simp [Config.bytesOf, hkeep]
    · obtain rfl := List.mem_singleton.1 hw
      have hpos := Nat.div_pos hle hbs
      refine List.length_pos_iff.1 ?_
      rw [List.length_drop]
      omega
  · have hskip : cfg.skipped data = 0 := if_neg hbig
    have hroom : s.roomFor cfg data =
        makeRoom cfg (data.length * cfg.blockSize) s.recentWrites s.recentBytes :=
      if_neg hbig
    obtain ⟨hb, hle⟩ := makeRoom_bytes (data.length * cfg.blockSize) s.recentWrites _ h.bytes
    have hsuf : (makeRoom cfg (data.length * cfg.blockSize) s.recentWrites s.recentBytes).1 <:+
        s.recentWrites :=
      makeRoom_suffix _ _ _
    simp only [rememberWrite, hroom, hskip, List.drop_zero, Nat.add_zero, Nat.sub_zero]
    refine ⟨?_, ?_, fun hlt => ?_, fun hle' w hw => ?_⟩
    · rw [← hb]
      simp [Config.bytesOf]
    · rcases hle with hle | hnil
      · exact hle
      · rw [← hb, hnil]
        simp only [Config.bytesOf, List.map_nil, List.sum_nil]
        omega
    · have : 1 * cfg.blockSize ≤ data.length * cfg.blockSize := Nat.mul_le_mul_right _ hlen
      omega
    · rcases List.mem_append.1 hw with hw | hw
      · exact h.full hle' w (hsuf.subset hw)
      · rw [List.mem_singleton.1 hw]
        exact hd

/-! ### The transfer of a chunk -/

/-- A turn of the loop so far: the drive has been called `k` times at most. -/
structure Stood (cfg : Config) (k : ℕ) (s s' : Dev β) : Prop where
  script : s.script.length ≤ s'.script.length + k
  shrunk : Shrunk cfg s s'
  fits : Fits cfg s'

lemma Idle.stood {k : ℕ} (h : Idle k s s') (hf : Fits cfg s) : Stood cfg k s s' :=
  ⟨h.script, .of_eq h.size, hf.congr h.writes h.bytes⟩

lemma Stood.trans {k l : ℕ} (h : Stood cfg k s s') (h' : Stood cfg l s' s'') :
    Stood cfg (k + l) s s'' := by
  refine ⟨?_, h.shrunk.trans h'.shrunk, h'.fits⟩
  have h₁ := h.script
  have h₂ := h'.script
  omega

lemma Stood.mono {k l : ℕ} (h : Stood cfg k s s') (hkl : k ≤ l) : Stood cfg l s s' :=
  { h with script := h.script.trans (by omega) }

def Config.replayCalls (cfg : Config) : ℕ := MAX_REPLAY_ROUNDS * cfg.windowWrites

structure Failed (cfg : Config) (k : ℕ) (e : Ex) (s s' : Dev β) : Prop where
  stood : Stood cfg k s s'
  waits : e = .waiting → s.script.length < k
  size : s'.maxTransferBlocks = s.maxTransferBlocks
  chunk : s'.retriedChunk = s.retriedChunk
  since : s'.transfersSinceRetry = s.transfersSinceRetry

lemma Idle.failed {k : ℕ} {e : Ex} (h : Idle k s s') (hf : Fits cfg s)
    (hw : e = .waiting → s.script.length < k) : Failed cfg k e s s' :=
  ⟨h.stood hf, hw, h.size, h.chunk, h.since⟩

def Config.turnCalls (cfg : Config) : ℕ := 1 + cfg.replayCalls + 3 + cfg.replayCalls

lemma Shrunk.pos (h : Shrunk cfg s s') (hs : 0 < s.maxTransferBlocks) : 0 < s'.maxTransferBlocks := by
  rcases h.floor with heq | hmin
  · omega
  · exact Nat.lt_of_lt_of_le minTransferBlocks_pos hmin

/-- What is known when the loop throws: it waits for the drive only if the drive has made too few
replies, or there were too few turns. -/
structure Threw (cfg : Config) (k turns : ℕ) (e : Ex) (s s' : Dev β) : Prop where
  stood : Stood cfg (cfg.turnCalls * k) s s'
  waits : e = .waiting → s.script.length < cfg.turnCalls * k ∨ turns ≤ k

lemma Stood.turn {k l : ℕ} (h : Stood cfg cfg.turnCalls s s') (h' : Stood cfg (cfg.turnCalls * l) s' s'')
    (hkl : l + 1 ≤ k) : Stood cfg (cfg.turnCalls * k) s s'' := by
  refine (h.trans h').mono ?_
  calc cfg.turnCalls + cfg.turnCalls * l = cfg.turnCalls * (l + 1) := by ring
    _ ≤ cfg.turnCalls * k := Nat.mul_le_mul_left _ hkl

lemma Threw.turn {k l turns : ℕ} {e : Ex} (h : Stood cfg cfg.turnCalls s s')
    (h' : Threw cfg l turns e s' s'') (hkl : l + 1 ≤ k) : Threw cfg k (turns + 1) e s s'' := by
  refine ⟨h.turn h'.stood hkl, fun he => ?_⟩
  have hs := h.script
  have hmul : cfg.turnCalls * (l + 1) ≤ cfg.turnCalls * k := Nat.mul_le_mul_left _ hkl
  rw [Nat.mul_add, Nat.mul_one] at hmul
  rcases h'.waits he with hw | hw
  · exact .inl (by omega)
  · exact .inr (by omega)

lemma Threw.last {k n turns : ℕ} {e : Ex} (h : Stood cfg n s s') (hn : n ≤ cfg.turnCalls) (hk : 0 < k)
    (hw : e = .waiting → s.script.length < n) : Threw cfg k turns e s s' := by
  have hmul : cfg.turnCalls * 1 ≤ cfg.turnCalls * k := Nat.mul_le_mul_left _ hk
  refine ⟨h.mono (by omega), fun he => .inl ?_⟩
  have := hw he
  omega

section Turns

variable {c : Call β} {at' left at'' left' : ℕ} {ts : List (ℕ × ℕ)}

end Turns

/-! ### The life of a device -/

/-- A drive of 4 KiB blocks, all of them 5, of which a reset can lose the last `REPLAY_BYTES`. -/
def sampleConfig : Config := ⟨4096, none, none, 256⟩

end OtgMaster.Usb
