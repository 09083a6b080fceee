import Mathlib
import OtgMaster.Veracrypt.NativeDevice
import OtgMaster.Lib.Run

/-!
Threads that read and write an unlocked volume while it is being closed: calls of
`NativeDecryptedBlockDevice`, made directly or through the `CachedBlockDevice` above it, one step
for the open check, each crypt call, each call of the drive, each section that holds the cache's
lock, and the two assignments of `close`.

`close` neither waits for calls in progress nor keeps them from using the key it wipes. As long as
it sets `closed` only while no call is past its open check (`Careful`), every sector is encrypted
and decrypted under the master key, and nothing is written after `close` has returned.
-/

namespace OtgMaster.Veracrypt

open Block Lib

variable {β : Type}

/-! ### States -/

/-- A block of plaintext, with the key it was decrypted under; `none` for what a caller writes, and
for the zeros of a wiped array. -/
structure Plain (β : Type) where
  value : β
  under : Option Key
  deriving DecidableEq

instance [Zero β] : Zero (Plain β) := ⟨⟨0, none⟩⟩

inductive Stage (β : Type) where
  | readCheck (start count : ℕ)
  | readDevice (start count : ℕ)
  | readCrypt (start : ℕ) (data : List β)
  | writeCheck (start : ℕ) (data : List (Plain β))
  | writeCrypt (start : ℕ) (data : List (Plain β))
  /-- `data` has been encrypted under the key `under`. -/
  | writeDevice (start : ℕ) (data : List β) (under : Key)

def Stage.checked : Stage β → Bool
  | .readCheck .. | .writeCheck .. => false
  | _ => true

/-- Who called the decrypted device: its user, or the cache that fetches line `l` or, holding its
lock, writes `data`. -/
inductive Caller (β : Type) where
  | direct
  | fetch (c : ReadCall (Plain β)) (l : ℕ)
  | locked (start : ℕ) (data : List (Plain β))

inductive CloseStage where
  | dropLines
  | setClosed
  | wipe

inductive Thread (β : Type) where
  | idle
  | native (caller : Caller β) (stage : Stage β)
  | looking (c : ReadCall (Plain β))
  | fetched (c : ReadCall (Plain β)) (l r : ℕ)
  | failed (l : ℕ)
  | holding (c : ReadCall (Plain β)) (l r : ℕ)
  | readDone (out : List (Plain β))
  /-- `writeBlocks` of the cache, before its lock section. -/
  | writing (start : ℕ) (data : List (Plain β))
  /-- In that section, after the write of the device below, which `ok` says has succeeded. -/
  | written (start : ℕ) (data : List (Plain β)) (ok : Bool)
  | wrote
  | closing (stage : CloseStage)
  | closed

def Thread.checked : Thread β → Bool
  | .native _ stage => stage.checked
  | _ => false

/-- Sectors that have reached the drive, the key they were encrypted under, and whether `close` had
returned by then. -/
structure Sent (β : Type) where
  start : ℕ
  data : List β
  under : Key
  late : Bool
  deriving DecidableEq

/-- `key` is the array `masterKey` as it is now, `lock` the thread that holds the cache's lock over
a call of the device below, and `returned` says that a call of `close` has returned. -/
structure World (β : Type) where
  drive : ℕ → β
  closed : Bool
  key : Key
  cache : Cache (Plain β)
  lock : Option ℕ
  threads : ℕ → Thread β
  sent : List (Sent β)
  returned : Bool

def World.set (w : World β) (t : ℕ) (th : Thread β) : World β :=
  { w with threads := Function.update w.threads t th }

/-! ### Steps -/

inductive Action (β : Type) where
  | callRead (t start count : ℕ) (cached : Bool)
  | callWrite (t start : ℕ) (data : List β) (cached : Bool)
  | callClose (t : ℕ) (cached : Bool)
  /-- The next step of a call of the decrypted device; a call of the drive may throw, after `n`
  blocks of it have been written. -/
  | native (t : ℕ) (throws : Option ℕ)
  /-- The first section of `lineFor`. -/
  | lookup (t : ℕ)
  /-- The section of `lineFor` after its device read. -/
  | fetchEnd (t : ℕ)
  | copy (t : ℕ)
  /-- The section of `writeBlocks` up to its device write. -/
  | lock (t : ℕ)
  /-- The rest of that section. -/
  | unlock (t : ℕ)
  /-- The next step of `close`. -/
  | close (t : ℕ)
  | ret (t : ℕ)

def World.readEnd (w : World β) (t : ℕ) : Caller β → Option (List (Plain β)) → World β
  | .direct, some out => w.set t (.readDone out)
  | .fetch c l, some out => { w with cache := w.cache.alloc out }.set t (.fetched c l w.cache.next)
  | .fetch _ l, none => w.set t (.failed l)
  | _, _ => w.set t .idle

def World.writeEnd (w : World β) (t : ℕ) : Caller β → Bool → World β
  | .locked start data, ok => w.set t (.written start data ok)
  | _, true => w.set t .wrote
  | _, false => w.set t .idle

variable (crypt : CryptSectors β) (d : NativeDevice) (cfg : Config)

/-- The steps of `readBlocks` and `writeBlocks` of the decrypted device. -/
def nativeStep (w : World β) (t : ℕ) (caller : Caller β) (throws : Option ℕ) : Stage β → World β
  | .readCheck start count =>
    if w.closed || !d.inRange start count then w.readEnd t caller none
    else w.set t (.native caller (.readDevice start count))
  | .readDevice start count =>
    -- the drive refuses a block number that has wrapped
    if throws.isSome || decide (d.physicalStartBlock start < 0) then w.readEnd t caller none
    else w.set t (.native caller (.readCrypt start (d.encryptedAt w.drive start count)))
  | .readCrypt start data =>
    w.readEnd t caller <| (d.crypt crypt .decrypt w.key start data).map fun out =>
      out.map fun v => (⟨v, some w.key⟩ : Plain β)
  | .writeCheck start data =>
    if w.closed || !d.inRange start data.length then w.writeEnd t caller false
    else w.set t (.native caller (.writeCrypt start data))
  | .writeCrypt start data =>
    match d.crypt crypt .encrypt w.key start (data.map (·.value)) with
    | some enc => w.set t (.native caller (.writeDevice start enc w.key))
    | none => w.writeEnd t caller false
  | .writeDevice start data under =>
    let throws := if d.physicalStartBlock start < 0 then some 0 else throws
    let data := data.take (throws.getD data.length)
    { w with
      drive := overwrite w.drive (d.physicalStartBlock start).toNat data
      sent := w.sent ++ [Sent.mk start data under w.returned] }.writeEnd t caller throws.isNone

def closeStep [Zero β] (w : World β) (t : ℕ) : CloseStage → Option (World β)
  | .dropLines =>
    if w.lock = none then some <| { w with cache := w.cache.invalidate }.set t (.closing .setClosed)
      else none
  | .setClosed => some <| { w with closed := true }.set t (.closing .wipe)
  | .wipe => some <| { w with key := List.replicate w.key.length 0 }.set t .closed

def step [Zero β] (w : World β) : Action β → Option (World β)
  | .callRead t start count cached =>
    match w.threads t with
    | .idle => some <|
        if !cached then w.set t (.native .direct (.readCheck start count))
        else if cfg.blockCount < start + count then w
        else if count = 0 then w.set t (.readDone [])
        else if cfg.blocksPerLine ≤ count then w.set t (.native .direct (.readCheck start count))
        else w.set t (.looking ⟨start, count, []⟩)
    | _ => none
  | .callWrite t start data cached =>
    match w.threads t with
    | .idle => some <|
        let data : List (Plain β) := data.map (⟨·, none⟩)
        if !cached then w.set t (.native .direct (.writeCheck start data))
        else if start + data.length ≤ cfg.blockCount then w.set t (.writing start data) else w
    | _ => none
  | .callClose t cached =>
    match w.threads t with
    | .idle => some <| w.set t (.closing (if cached then .dropLines else .setClosed))
    | _ => none
  | .native t throws =>
    match w.threads t with
    | .native caller stage => some <| nativeStep crypt d w t caller throws stage
    | _ => none
  | .lookup t =>
    match w.threads t, w.lock with
    | .looking c, none =>
      match w.cache.lookup (c.line cfg) with
      | (cache, some r) => some <| { w with cache }.set t (.holding c (c.line cfg) r)
      | (cache, none) => some <| { w with cache }.set t (.native (.fetch c (c.line cfg))
          (.readCheck (c.line cfg * cfg.blocksPerLine) (cfg.lineCount (c.line cfg))))
    | _, _ => none
  | .fetchEnd t =>
    match w.threads t, w.lock with
    | .fetched c l r, none =>
      let (cache, r') := w.cache.publish cfg l r
      some <| { w with cache }.set t (.holding c l r')
    | .failed l, none => some <| { w with cache := w.cache.fetchFailed l }.set t .idle
    | _, _ => none
  | .copy t =>
    match w.threads t with
    | .holding c l r => some <| w.set t <|
        match c.copied cfg l (w.cache.heap r) with
        | none => .idle
        | some out => if out.length < c.count then .looking { c with out := out } else .readDone out
    | _ => none
  | .lock t =>
    match w.threads t, w.lock with
    | .writing start data, none =>
      some <| { w with
        lock := some t
        cache := w.cache.markFetchesDirty cfg start data.length }.set t
          (.native (.locked start data) (.writeCheck start data))
    | _, _ => none
  | .unlock t =>
    match w.threads t with
    | .written start data ok =>
      some <| { w with
        lock := none
        cache := if ok then w.cache.patchRange cfg start data
          else w.cache.invalidateRange cfg start data.length }.set t (if ok then .wrote else .idle)
    | _ => none
  | .close t =>
    match w.threads t with
    | .closing stage => closeStep w t stage
    | _ => none
  | .ret t =>
    match w.threads t with
    | .readDone _ | .wrote => some <| w.set t .idle
    | .closed => some <| { w with returned := true }.set t .idle
    | _ => none

/-! ### What closing must not disturb -/

/-- The block was not decrypted under any other key. -/
def Clean (master : Key) (p : Plain β) : Prop := p.under = none ∨ p.under = some master

/-- **What holds of an unlocked volume**: every sector that reached the drive was encrypted under
the master key, none of them after `close` had returned, and no read returns a block that was
decrypted under another key. -/
structure Sealed (master : Key) (w : World β) : Prop where
  sent : ∀ e ∈ w.sent, e.under = master
  late : ∀ e ∈ w.sent, e.late = false
  reads : ∀ t out, w.threads t = .readDone out → ∀ p ∈ out, Clean master p

/-- `close` sets `closed` while no call is between its open check and its end. -/
def Careful (w : World β) : Action β → Prop
  | .close t => w.threads t = .closing .setClosed → ∀ t', (w.threads t').checked = false
  | _ => True

/-! ### The invariant -/

section Invariant

variable {crypt d cfg} {master : Key} {w : World β}

def CallerOk (master : Key) : Caller β → Prop
  | .direct => True
  | .fetch c _ => ∀ p ∈ c.out, Clean master p
  | .locked _ data => ∀ p ∈ data, Clean master p

def StageOk (master : Key) : Stage β → Prop
  | .writeCheck _ data | .writeCrypt _ data => ∀ p ∈ data, Clean master p
  | .writeDevice _ _ under => under = master
  | _ => True

def ThreadOk (master : Key) (w : World β) : Thread β → Prop
  | .native caller stage => CallerOk master caller ∧ StageOk master stage ∧
      (stage.checked → w.closed = false)
  | .looking c | .fetched c _ _ | .holding c _ _ => ∀ p ∈ c.out, Clean master p
  | .readDone out => ∀ p ∈ out, Clean master p
  | .writing _ data | .written _ data _ => ∀ p ∈ data, Clean master p
  | .closing .wipe | .closed => w.closed = true
  | _ => True

structure Inv (master : Key) (w : World β) : Prop where
  /-- Until `closed` is set, the key is whole and no call of `close` has returned. -/
  opened : w.closed = false → w.key = master ∧ w.returned = false
  arrays : w.cache.All (Clean master)
  sent : ∀ e ∈ w.sent, e.under = master ∧ e.late = false
  threads : ∀ t, ThreadOk master w (w.threads t)

variable {t : ℕ} {th : Thread β} {caller : Caller β}

lemma Inv.move {w' : World β} (hi : Inv master w)
    (hthreads : w'.threads = (w.set t th).threads) (hclosed : w'.closed = w.closed)
    (hkey : w'.key = w.key) (hret : w'.returned = w.returned) (harr : w'.cache.All (Clean master))
    (hsent : ∀ e ∈ w'.sent, e.under = master ∧ e.late = false) (hself : ThreadOk master w th) :
    Inv master w' := by
  have hok : ∀ th : Thread β, ThreadOk master w th → ThreadOk master w' th := fun th h => by
    unfold ThreadOk at *
    rwa [hclosed]
  refine ⟨fun h => ?_, harr, hsent, fun t' => hok _ ?_⟩
  · rw [hkey, hret]
    exact hi.opened (hclosed ▸ h)
  · rw [hthreads]
    by_cases h : t' = t
    · rw [h, show (w.set t th).threads t = th from Function.update_self ..]
      exact hself
    · rw [show (w.set t th).threads t' = w.threads t' from Function.update_of_ne h ..]
      exact hi.threads t'

lemma Inv.set (hi : Inv master w) (hself : ThreadOk master w th) :
    Inv master (w.set t th) :=
  hi.move rfl rfl rfl rfl hi.arrays hi.sent hself

lemma Inv.setCache {cache : Cache (Plain β)} (hi : Inv master w)
    (harr : cache.All (Clean master)) (hself : ThreadOk master w th) :
    Inv master ({ w with cache }.set t th) :=
  hi.move rfl rfl rfl rfl harr hi.sent hself

lemma Inv.readEnd {out : Option (List (Plain β))} (hi : Inv master w)
    (hc : CallerOk master caller) (hout : ∀ o, out = some o → ∀ p ∈ o, Clean master p) :
    Inv master (w.readEnd t caller out) := by
  unfold World.readEnd
  split
  · exact hi.set (hout _ rfl)
  · exact hi.setCache (hi.arrays.update (hout _ rfl) rfl) hc
  · exact hi.set trivial
  · exact hi.set trivial

lemma Inv.writeEnd {ok : Bool} (hi : Inv master w) (hc : CallerOk master caller) :
    Inv master (w.writeEnd t caller ok) := by
  unfold World.writeEnd
  split
  · exact hi.set hc
  · exact hi.set trivial
  · exact hi.set trivial

lemma Inv.send {e : Sent β} (drive : ℕ → β) (hi : Inv master w)
    (he : e.under = master ∧ e.late = false) :
    Inv master { w with drive, sent := w.sent ++ [e] } := by
  refine ⟨hi.opened, hi.arrays, fun e' he' => ?_, hi.threads⟩
  rcases List.mem_append.1 he' with he' | he'
  · exact hi.sent e' he'
  · rwa [List.mem_singleton.1 he']

lemma Inv.nativeStep {throws : Option ℕ} {stage : Stage β} (hi : Inv master w)
    (hth : w.threads t = .native caller stage) :
    Inv master (nativeStep crypt d w t caller throws stage) := by
  have hok : ThreadOk master w (.native caller stage) := hth ▸ hi.threads t
  obtain ⟨hcaller, hstage, hchecked⟩ := hok
  have hnone : ∀ o, (none : Option (List (Plain β))) = some o → ∀ p ∈ o, Clean master p :=
    fun _ h => by cases h
  cases stage with
  | readCheck start count =>
    simp only [Veracrypt.nativeStep]
    split
    · exact hi.readEnd hcaller hnone
    · rename_i h
      have hopen : w.closed = false ∧ d.inRange start count = true := by simpa using h
      exact hi.set ⟨hcaller, trivial, fun _ => hopen.1⟩
  | readDevice start count =>
    simp only [Veracrypt.nativeStep]
    split
    · exact hi.readEnd hcaller hnone
    · exact hi.set ⟨hcaller, trivial, fun _ => hchecked rfl⟩
  | readCrypt start data =>
    refine hi.readEnd hcaller fun o ho p hp => ?_
    obtain ⟨out, -, rfl⟩ := Option.map_eq_some_iff.1 ho
    obtain ⟨v, -, rfl⟩ := List.mem_map.1 hp
    exact .inr (congrArg some (hi.opened (hchecked rfl)).1)
  | writeCheck start data =>
    simp only [Veracrypt.nativeStep]
    split
    · exact hi.writeEnd hcaller
    · rename_i h
      have hopen : w.closed = false ∧ d.inRange start data.length = true := by simpa using h
      exact hi.set ⟨hcaller, hstage, fun _ => hopen.1⟩
  | writeCrypt start data =>
    simp only [Veracrypt.nativeStep]
    split
    · exact hi.set ⟨hcaller, (hi.opened (hchecked rfl)).1, fun _ => hchecked rfl⟩
    · exact hi.writeEnd hcaller
  | writeDevice start data under =>
    simp only [Veracrypt.nativeStep]
    refine Inv.writeEnd (hi.send _ ?_) hcaller
    exact ⟨hstage, (hi.opened (hchecked rfl)).2⟩

lemma Inv.closeStep [Zero β] {w' : World β} {stage : CloseStage} (hi : Inv master w)
    (hth : w.threads t = .closing stage)
    (hcare : stage = .setClosed → ∀ t', (w.threads t').checked = false)
    (hs : closeStep w t stage = some w') : Inv master w' := by
  have hzero : Clean master (0 : Plain β) := .inl rfl
  cases stage with
  | dropLines =>
    simp only [Veracrypt.closeStep] at hs
    split at hs
    · cases hs
      exact hi.setCache (hi.arrays.invalidate hzero) trivial
    · cases hs
  | setClosed =>
    cases hs
    refine ⟨fun h => (by cases h), hi.arrays, hi.sent, fun t' => ?_⟩
    by_cases h : t' = t
    · rw [h, show World.threads (World.set { w with closed := true } t _) t =
        _ from Function.update_self ..]
      exact rfl
    · rw [show World.threads (World.set { w with closed := true } t _) t' =
        _ from Function.update_of_ne h ..]
      -- no call is past its check, and the other threads' conditions do not get stronger
      have hok := hi.threads t'
      have hnot := hcare rfl t'
      show ThreadOk master { w with closed := true } (w.threads t')
      generalize w.threads t' = th at hok hnot
      unfold ThreadOk at *
      split at hok
      · exact ⟨hok.1, hok.2.1, fun hch => by rw [Thread.checked, hch] at hnot; cases hnot⟩
      all_goals first | exact hok | exact rfl
  | wipe =>
    cases hs
    have hclosed : w.closed = true := by
      have := hi.threads t
      rwa [hth] at this
    refine Inv.set (w := { w with key := List.replicate w.key.length 0 })
      ⟨fun h => ?_, hi.arrays, hi.sent, hi.threads⟩ hclosed
    rw [show w.closed = false from h] at hclosed
    cases hclosed

theorem Inv.step_keeps [Zero β] {w' : World β} {a : Action β} (hi : Inv master w) (hc : Careful w a)
    (hs : step crypt d cfg w a = some w') : Inv master w' := by
  have hzero : Clean master (0 : Plain β) := .inl rfl
  cases a with
  | callRead t start count cached =>
    simp only [step] at hs
    split at hs
    · cases hs
      split_ifs
      · exact hi.set ⟨trivial, trivial, fun h => by cases h⟩
      · exact hi
      · exact hi.set (by simp [ThreadOk])
      · exact hi.set ⟨trivial, trivial, fun h => by cases h⟩
      · exact hi.set (by simp [ThreadOk])
    · cases hs
  | callWrite t start data cached =>
    have hdata : ∀ p ∈ data.map fun v => (⟨v, none⟩ : Plain β), Clean master p := fun p hp => by
      obtain ⟨v, -, rfl⟩ := List.mem_map.1 hp
      exact .inl rfl
    simp only [step] at hs
    split at hs
    · cases hs
      split_ifs
      · exact hi.set ⟨trivial, hdata, fun h => by cases h⟩
      · exact hi.set hdata
      · exact hi
    · cases hs
  | callClose t cached =>
    simp only [step] at hs
    split at hs
    · cases hs
      cases cached <;> exact hi.set trivial
    · cases hs
  | native t throws =>
    simp only [step] at hs
    split at hs
    · rename_i hth
      cases hs
      exact hi.nativeStep hth
    · cases hs
  | lookup t =>
    simp only [step] at hs
    split at hs
    · rename_i c hth _
      have hok : ThreadOk master w (.looking c) := hth ▸ hi.threads t
      unfold Cache.lookup at hs
      cases hr : w.cache.lines.lookup (c.line cfg) with
      | some r =>
        rw [hr] at hs
        cases hs
        exact hi.setCache hi.arrays.touch hok
      | none =>
        rw [hr] at hs
        cases hs
        exact hi.setCache hi.arrays ⟨hok, trivial, fun h => by cases h⟩
    · cases hs
  | fetchEnd t =>
    simp only [step] at hs
    split at hs
    · rename_i c l r hth _
      have hok : ThreadOk master w (.fetched c l r) := hth ▸ hi.threads t
      cases hs
      exact hi.setCache (hi.arrays.publish hzero) hok
    · cases hs
      exact hi.setCache hi.arrays trivial
    · cases hs
  | copy t =>
    simp only [step] at hs
    split at hs
    · rename_i c l r hth
      have hok : ThreadOk master w (.holding c l r) := hth ▸ hi.threads t
      cases hs
      split
      · exact hi.set trivial
      · rename_i out hcopied
        have hout : ∀ p ∈ out, Clean master p := by
          simp only [ReadCall.copied, Option.ite_none_left_eq_some, Option.some.injEq] at hcopied
          obtain ⟨-, rfl⟩ := hcopied
          intro p hp
          rcases List.mem_append.1 hp with hp | hp
          · exact hok p hp
          · exact hi.arrays r p (List.mem_of_mem_drop (List.mem_of_mem_take hp))
        split
        · exact hi.set hout
        · exact hi.set hout
    · cases hs
  | lock t =>
    simp only [step] at hs
    split at hs
    · rename_i start data hth _
      have hok : ThreadOk master w (.writing start data) := hth ▸ hi.threads t
      cases hs
      exact hi.move rfl rfl rfl rfl hi.arrays.markFetchesDirty hi.sent ⟨hok, hok, fun h => by cases h⟩
    · cases hs
  | unlock t =>
    simp only [step] at hs
    split at hs
    · rename_i start data ok hth
      have hok : ThreadOk master w (.written start data ok) := hth ▸ hi.threads t
      cases hs
      cases ok with
      | true => exact hi.move rfl rfl rfl rfl (hi.arrays.patchRange hok) hi.sent trivial
      | false => exact hi.move rfl rfl rfl rfl (hi.arrays.invalidateRange hzero) hi.sent trivial
    · cases hs
  | close t =>
    simp only [step] at hs
    split at hs
    · rename_i stage hth
      exact hi.closeStep hth (fun h => hc (h ▸ hth)) hs
    · cases hs
  | ret t =>
    simp only [step] at hs
    split at hs
    · cases hs
      exact hi.set trivial
    · cases hs
      exact hi.set trivial
    · rename_i hth
      have hclosed : w.closed = true := by
        have := hi.threads t
        rwa [hth] at this
      cases hs
      refine Inv.set (w := { w with returned := true }) ⟨fun h => ?_, hi.arrays, hi.sent,
        hi.threads⟩ trivial
      rw [show w.closed = false from h] at hclosed
      cases hclosed
    · cases hs

end Invariant

/-! ### Runs -/

def unlocked (drive : ℕ → β) (master : Key) : World β :=
  ⟨drive, false, master, Cache.empty, none, fun _ => .idle, [], false⟩

lemma unlocked_inv (drive : ℕ → β) (master : Key) : Inv master (unlocked drive master) :=
  ⟨fun _ => ⟨rfl, rfl⟩, fun _ _ h => absurd h List.not_mem_nil, fun _ h => absurd h List.not_mem_nil,
    fun _ => trivial⟩

variable {crypt d cfg} in
/-- **A careful close leaves the volume sealed.** -/
theorem careful_sealed [Zero β] {drive : ℕ → β} {master : Key} {w : World β}
    (hr : Reaches (fun w a w' => step crypt d cfg w a = some w') Careful (unlocked drive master) w) :
    Sealed master w := by
  have hi : Inv master w :=
    hr.invariant (unlocked_inv drive master) fun _ _ _ hi hc hs => hi.step_keeps hc hs
  refine ⟨fun e he => (hi.sent e he).1, fun e he => (hi.sent e he).2, fun t out ht => ?_⟩
  have hok : ThreadOk master w (.readDone out) := ht ▸ hi.threads t
  exact hok

/-- A drive of 32 blocks with the volume's data from block 8 on; the "cipher" adds the key's first
byte. -/
def sampleDevice : NativeDevice := ⟨512, [9, 9], 8, 16, [1], 8⟩

def sampleCrypt : CryptSectors ℕ := fun _ dir key _ data => some <| data.map fun v =>
  match dir with
  | .encrypt => v + (key.headD 0).toNat
  | .decrypt => v - (key.headD 0).toNat

def sampleConfig : Config := ⟨512, 16, 0, 1024⟩

def sampleStart : World ℕ := unlocked (fun _ => 50) sampleDevice.masterKey

/-- `close` runs between the open check of a write and its crypt call. -/
def wipedWrite : List (Action ℕ) :=
  [.callWrite 0 3 [7] true, .lock 0, .native 0 none, .callClose 1 false, .close 1, .close 1, .ret 1,
    .native 0 none, .native 0 none]

/-- `close` runs between the device call of a read and its crypt call. -/
def wipedRead : List (Action ℕ) :=
  [.callRead 0 3 1 false, .native 0 none, .native 0 none, .callClose 1 false, .close 1, .close 1,
    .native 0 none]

/-- A sector is encrypted under a wiped key and reaches the drive after `close` has returned, and a
read returns what it decrypted under a wiped key. -/
theorem wiped_key_used :
    (∃ w, wipedWrite.foldlM (step sampleCrypt sampleDevice sampleConfig) sampleStart = some w ∧
      ∃ e ∈ w.sent, e.under ≠ sampleDevice.masterKey ∧ e.late = true ∧ e.data = [7]) ∧
    ∃ w, wipedRead.foldlM (step sampleCrypt sampleDevice sampleConfig) sampleStart = some w ∧
      ∃ out, w.threads 0 = .readDone out ∧ ∃ p ∈ out, ¬Clean sampleDevice.masterKey p := by
  refine ⟨⟨_, rfl, ⟨3, [7], [0, 0], true⟩, ?_, ?_⟩,
    ⟨_, rfl, [⟨50, some [0, 0]⟩], rfl, ⟨50, some [0, 0]⟩, ?_, ?_⟩⟩
  · decide
  · decide
  · decide
  · rintro (h | h)
    · cases h
    · exact absurd (Option.some.inj h) (by decide)

def sampleRun : List (Action ℕ) :=
  [.callWrite 0 3 [7] true, .lock 0, .native 0 none, .native 0 none, .native 0 none, .unlock 0, .ret 0,
    .callRead 0 3 1 true, .lookup 0, .native 0 none, .native 0 none, .native 0 none, .fetchEnd 0,
    .copy 0, .callClose 1 true, .close 1, .close 1, .close 1, .ret 1]

theorem careful_sealed_sample : ∃ w,
    sampleRun.foldlM (step sampleCrypt sampleDevice sampleConfig) sampleStart = some w ∧
      Sealed sampleDevice.masterKey w := by
  obtain ⟨w, hw⟩ : ∃ w, sampleRun.foldlM (step sampleCrypt sampleDevice sampleConfig) sampleStart =
      some w :=
    ⟨_, rfl⟩
  refine ⟨w, hw, careful_sealed (Reaches.init.of_run ?_ hw)⟩
  refine ⟨trivial, trivial, trivial, trivial, trivial, trivial, trivial, trivial, trivial, trivial,
    trivial, trivial, trivial, trivial, trivial, fun h => ?_, fun _ t' => ?_, fun h => ?_, trivial,
    trivial⟩
  · cases h
  · match t' with
    | 0 | 1 => rfl
    | t' + 2 => rfl
  · cases h

end OtgMaster.Veracrypt
