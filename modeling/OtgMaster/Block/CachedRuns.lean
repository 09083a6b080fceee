import Mathlib
import OtgMaster.Block.CachedDevice
import OtgMaster.Lib.Run

/-!
Threads that call `readBlocks`, `writeBlocks` and `invalidate` on one `CachedBlockDevice`, one step
for each section that holds the cache's lock, each read of the device and each copy out of a line.
The device is atomic per call.

The sets `fetching` and `dirtiedWhileFetching` do not say which fetch they are about, and a reader
copies out of the cached array after it has left its section. So a fetch may publish what it read
before a write if another fetch of the same line is in flight, and a reader may copy an array that
has been zeroed under it. In runs in which neither comes about (`Careful`) the cache agrees with the
device in every state, and a read returns nothing older than the contents at its start.
-/

namespace OtgMaster.Block

open Lib

variable {β : Type}

/-! ### States -/

structure Call (β : Type) extends ReadCall β where
  /-- The number of contents the device had had before the one at the start of the call. -/
  since : ℕ

inductive Thread (β : Type) where
  | idle
  /-- About to read the device past the cache. -/
  | bypassing (c : Call β)
  /-- At the head of the loop of `readBlocks`. -/
  | looking (c : Call β)
  /-- In `lineFor` after a miss on line `l`. -/
  | fetching (c : Call β) (l : ℕ)
  /-- In `lineFor`, with line `l` read from the device into array `r`. -/
  | fetched (c : Call β) (l r : ℕ)
  /-- In `lineFor`, after the device threw. -/
  | failed (l : ℕ)
  /-- Back from `lineFor`, about to copy from array `r`. -/
  | holding (c : Call β) (l r : ℕ)
  | readDone (c : Call β)
  | writing (start : ℕ) (data : List β)
  | invalidating
  /-- At the end of `writeBlocks` or `invalidate`. -/
  | finished

def Thread.fetchOf : Thread β → Option ℕ
  | .fetching _ l | .fetched _ l _ | .failed l => some l
  | _ => none

def Thread.arrayOf : Thread β → Option ℕ
  | .fetched _ _ r | .holding _ _ r => some r
  | _ => none

/-- The device, the cache and the threads. `past` are the earlier contents of the device, oldest
first; the code knows nothing of them. -/
structure World (β : Type) where
  dev : ℕ → β
  past : List (ℕ → β)
  cache : Cache β
  threads : ℕ → Thread β

def World.history (w : World β) : List (ℕ → β) := w.past ++ [w.dev]

def World.set (w : World β) (t : ℕ) (th : Thread β) : World β :=
  { w with threads := Function.update w.threads t th }

/-! ### Steps -/

inductive Action (β : Type) where
  | callRead (t start count : ℕ)
  | bypass (t : ℕ) (ok : Bool)
  /-- The first section of `lineFor`. -/
  | lookup (t : ℕ)
  | deviceRead (t : ℕ) (ok : Bool)
  /-- The section of `lineFor` after the device read. -/
  | fetchEnd (t : ℕ)
  | copy (t : ℕ)
  | callWrite (t start : ℕ) (data : List β)
  /-- The section of `writeBlocks`. A write that throws leaves `torn` in its blocks. -/
  | write (t : ℕ) (torn : Option (List β))
  | callInvalidate (t : ℕ)
  | invalidate (t : ℕ)
  /-- A call returns to its caller. -/
  | ret (t : ℕ)

def Call.copy (cfg : Config) (c : Call β) (l : ℕ) (line : List β) : Thread β :=
  match c.copied cfg l line with
  | none => .idle
  | some out =>
    if out.length < c.count then .looking { c with out := out } else .readDone { c with out := out }

def step [Zero β] (cfg : Config) (w : World β) : Action β → Option (World β)
  | .callRead t start count =>
    match w.threads t with
    | .idle =>
      let c := ⟨⟨start, count, []⟩, w.past.length⟩
      some <| if cfg.blockCount < start + count then w
        else w.set t <| if count = 0 then .readDone c
          else if cfg.blocksPerLine ≤ count then .bypassing c else .looking c
    | _ => none
  | .bypass t ok =>
    match w.threads t with
    | .bypassing c => some <| w.set t <|
        if ok then .readDone { c with out := (List.range c.count).map fun i => w.dev (c.start + i) }
        else .idle
    | _ => none
  | .lookup t =>
    match w.threads t with
    | .looking c =>
      match w.cache.lookup (c.line cfg) with
      | (cache, some r) => some <| { w with cache }.set t (.holding c (c.line cfg) r)
      | (cache, none) => some <| { w with cache }.set t (.fetching c (c.line cfg))
    | _ => none
  | .deviceRead t ok =>
    match w.threads t with
    | .fetching c l => some <|
        if ok then { w with cache := w.cache.alloc (cfg.lineOf w.dev l) }.set t
          (.fetched c l w.cache.next)
        else w.set t (.failed l)
    | _ => none
  | .fetchEnd t =>
    match w.threads t with
    | .fetched c l r =>
      let (cache, r') := w.cache.publish cfg l r
      some <| { w with cache }.set t (.holding c l r')
    | .failed l => some <| { w with cache := w.cache.fetchFailed l }.set t .idle
    | _ => none
  | .copy t =>
    match w.threads t with
    | .holding c l r => some <| w.set t (c.copy cfg l (w.cache.heap r))
    | _ => none
  | .callWrite t start data =>
    match w.threads t with
    | .idle => some <| if start + data.length ≤ cfg.blockCount then w.set t (.writing start data) else w
    | _ => none
  | .write t torn =>
    match w.threads t with
    | .writing start data =>
      if (torn.getD data).length = data.length then
        some <| { w with
          dev := overwrite w.dev start (torn.getD data)
          past := w.past ++ [w.dev]
          cache := w.cache.written cfg start data torn.isNone }.set t .finished
      else none
    | _ => none
  | .callInvalidate t =>
    match w.threads t with
    | .idle => some <| w.set t .invalidating
    | _ => none
  | .invalidate t =>
    match w.threads t with
    | .invalidating => some <| { w with cache := w.cache.invalidate }.set t .finished
    | _ => none
  | .ret t =>
    match w.threads t with
    | .readDone _ | .finished => some <| w.set t .idle
    | _ => none

/-! ### What the cache is for -/

/-- The device held `v` in block `b` at some moment of its history from `since` on. -/
def Fresh (history : List (ℕ → β)) (since b : ℕ) (v : β) : Prop :=
  ∃ k d, since ≤ k ∧ history[k]? = some d ∧ v = d b

/-- **What the cache is for.** A read that is about to return has every block as the device held it
at the start of the call or later, hence no older than a write that had returned by then; and when
no call is in progress, every cached line is the device's content. -/
def Current (cfg : Config) (w : World β) : Prop :=
  (∀ t c, w.threads t = .readDone c → c.out.length = c.count ∧
    ∀ i v, c.out[i]? = some v → Fresh w.history c.since (c.start + i) v) ∧
  ((∀ t, w.threads t = .idle) → ∀ e ∈ w.cache.lines, w.cache.heap e.2 = cfg.lineOf w.dev e.1)

/-! ### Careful steps -/

def Held (w : World β) (r : ℕ) : Prop := ∃ t c l, w.threads t = .holding c l r

/-- What keeps the cache sound: no thread starts to fetch a line while another one fetches it, and
no line is dropped, by eviction, by `invalidate` or by a write that fails, while a reader stands
between its lookup and its copy. -/
def Careful (cfg : Config) (w : World β) : Action β → Prop
  | .lookup t => ∀ c, w.threads t = .looking c → w.cache.lines.lookup (c.line cfg) = none →
      c.line cfg ∉ w.cache.fetching
  | .fetchEnd t => ∀ c l r, w.threads t = .fetched c l r → l ∉ w.cache.dirtiedWhileFetching →
      cfg.maxLines ≤ w.cache.lines.length → ∀ e, w.cache.lines.head? = some e → ¬Held w e.2
  | .write t (some _) => ∀ start data, w.threads t = .writing start data → ∀ e ∈ w.cache.lines,
      e.1 ∈ Finset.Icc (start / cfg.blocksPerLine) (Cache.lastLine cfg start data.length) → ¬Held w e.2
  | .invalidate _ => ∀ e ∈ w.cache.lines, ¬Held w e.2
  | _ => True

/-! ### The invariant -/

def Cache.Private (c : Cache β) (r : ℕ) : Prop := r < c.next ∧ r ∉ c.arrays

def Cache.Fetch (c : Cache β) (l : ℕ) : Prop := l ∈ c.fetching ∧ c.lines.lookup l = none

/-- A line as the device held it, block by block, at some moments from `since` on. -/
structure FreshLine (cfg : Config) (history : List (ℕ → β)) (since l : ℕ) (blocks : List β) : Prop where
  length : blocks.length = cfg.lineCount l
  fresh : ∀ i v, blocks[i]? = some v → Fresh history since (l * cfg.blocksPerLine + i) v

structure CallOk (cfg : Config) (w : World β) (c : Call β) : Prop where
  inside : c.start + c.count ≤ cfg.blockCount
  begun : c.since ≤ w.past.length
  out : ∀ i v, c.out[i]? = some v → Fresh w.history c.since (c.start + i) v

structure Busy (cfg : Config) (w : World β) (c : Call β) : Prop extends CallOk cfg w c where
  more : c.out.length < c.count

def ThreadOk (cfg : Config) (w : World β) : Thread β → Prop
  | .idle | .invalidating | .finished => True
  | .bypassing c => CallOk cfg w c
  | .looking c => Busy cfg w c
  | .fetching c l => Busy cfg w c ∧ l = c.line cfg ∧ w.cache.Fetch l
  | .failed l => w.cache.Fetch l
  | .fetched c l r => Busy cfg w c ∧ l = c.line cfg ∧ w.cache.Fetch l ∧ w.cache.Private r ∧
      FreshLine cfg w.history c.since l (w.cache.heap r) ∧
      (l ∈ w.cache.dirtiedWhileFetching ∨ w.cache.heap r = cfg.lineOf w.dev l)
  | .holding c l r => Busy cfg w c ∧ l = c.line cfg ∧ ((l, r) ∈ w.cache.lines ∨
      w.cache.Private r ∧ FreshLine cfg w.history c.since l (w.cache.heap r))
  | .readDone c => CallOk cfg w c ∧ c.out.length = c.count
  | .writing start data => start + data.length ≤ cfg.blockCount

structure Inv (cfg : Config) (w : World β) : Prop where
  coherent : w.cache.Coherent cfg w.dev
  threads : ∀ t, ThreadOk cfg w (w.threads t)
  /-- One thread at a time fetches a line. -/
  alone : ∀ t t' l, (w.threads t).fetchOf = some l → (w.threads t').fetchOf = some l → t' = t
  /-- A fetched array is its thread's own. -/
  own : ∀ t t' c l r, w.threads t = .fetched c l r → (w.threads t').arrayOf = some r → t' = t

/-! ### What other threads see of a step -/

section Others

variable {cfg : Config} {w w' : World β} {th : Thread β}

/-- A step from `w` to `w'` respects a thread `th` that does not take part in it. -/
structure Respects (cfg : Config) (w w' : World β) (th : Thread β) : Prop where
  past : w.past.length ≤ w'.past.length
  history : w.history <+: w'.history
  priv : ∀ r, th.arrayOf = some r → w.cache.Private r → w'.cache.Private r ∧
    w'.cache.heap r = w.cache.heap r
  held : ∀ c l r, th = .holding c l r → (l, r) ∈ w.cache.lines → (l, r) ∈ w'.cache.lines
  fetch : ∀ l, th.fetchOf = some l → w.cache.Fetch l → w'.cache.Fetch l
  dirtied : ∀ l, th.fetchOf = some l → w.cache.Fetch l → (l ∈ w.cache.dirtiedWhileFetching →
    l ∈ w'.cache.dirtiedWhileFetching) ∧
    (l ∈ w'.cache.dirtiedWhileFetching ∨ cfg.lineOf w'.dev l = cfg.lineOf w.dev l)

lemma Respects.of_same (hd : w'.dev = w.dev) (hp : w'.past = w.past) (hc : w'.cache = w.cache) :
    Respects cfg w w' th := by
  refine ⟨hp ▸ le_rfl, ?_, fun r _ h => by rw [hc]; exact ⟨h, rfl⟩, fun _ _ _ _ h => hc ▸ h,
    fun _ _ h => hc ▸ h, fun _ _ _ => ⟨fun h => hc ▸ h, .inr (by rw [hd])⟩⟩
  rw [World.history, World.history, hd, hp]

lemma Fresh.mono {h h' : List (ℕ → β)} (hp : h <+: h') {since b : ℕ} {v : β} (hf : Fresh h since b v) :
    Fresh h' since b v := by
  obtain ⟨k, d, hk, hget, hv⟩ := hf
  obtain ⟨suf, rfl⟩ := hp
  have hlt : k < h.length := (List.getElem?_eq_some_iff.1 hget).1
  exact ⟨k, d, hk, by rw [List.getElem?_append_left hlt, hget], hv⟩

lemma Respects.threadOk (hr : Respects cfg w w' th) (h : ThreadOk cfg w th) : ThreadOk cfg w' th := by
  have hcall : ∀ {c : Call β}, CallOk cfg w c → CallOk cfg w' c := fun hc =>
    ⟨hc.inside, hc.begun.trans hr.past, fun i v hv => (hc.out i v hv).mono hr.history⟩
  have hbusy : ∀ {c : Call β}, Busy cfg w c → Busy cfg w' c := fun hc =>
    ⟨hcall hc.toCallOk, hc.more⟩
  have hline : ∀ {since l : ℕ} {line : List β}, FreshLine cfg w.history since l line →
      FreshLine cfg w'.history since l line := fun hl =>
    ⟨hl.length, fun i v hv => (hl.fresh i v hv).mono hr.history⟩
  cases th with
  | idle | invalidating | finished => trivial
  | bypassing c => exact hcall h
  | looking c => exact hbusy h
  | fetching c l => exact ⟨hbusy h.1, h.2.1, hr.fetch l rfl h.2.2⟩
  | failed l => exact hr.fetch l rfl h
  | fetched c l r =>
    obtain ⟨hb, hl, hf, hp, hfresh, hd⟩ := h
    obtain ⟨hp', hheap⟩ := hr.priv r rfl hp
    refine ⟨hbusy hb, hl, hr.fetch l rfl hf, hp', hheap ▸ hline hfresh, ?_⟩
    rw [hheap]
    rcases hd with hd | hd
    · exact .inl ((hr.dirtied l rfl hf).1 hd)
    · exact (hr.dirtied l rfl hf).2.imp_right fun hsame => hd.trans hsame.symm
  | holding c l r =>
    refine ⟨hbusy h.1, h.2.1, ?_⟩
    rcases h.2.2 with hl | ⟨hp, hfresh⟩
    · exact .inl (hr.held c l r rfl hl)
    · obtain ⟨hp', hheap⟩ := hr.priv r rfl hp
      exact .inr ⟨hp', hheap ▸ hline hfresh⟩
  | readDone c => exact ⟨hcall h.1, h.2⟩
  | writing start data => exact h

end Others

/-! ### One step keeps the invariant -/

section Steps

variable {cfg : Config} {w : World β} {t : ℕ}

@[simp] lemma World.set_self (th : Thread β) : (w.set t th).threads t = th := Function.update_self ..

variable {th : Thread β} {l r : ℕ} {c : Call β}

lemma World.set_other {t' : ℕ} (h : t' ≠ t) : (w.set t th).threads t' = w.threads t' :=
  Function.update_of_ne h _ _

lemma ThreadOk.fetch (h : ThreadOk cfg w th) (hl : th.fetchOf = some l) :
    w.cache.Fetch l := by
  cases th <;> cases hl
  · exact h.2.2
  · exact h.2.2.1
  · exact h

lemma ThreadOk.array (h : ThreadOk cfg w th) (hc : w.cache.Coherent cfg w.dev)
    (hr : th.arrayOf = some r) : r < w.cache.next := by
  cases th <;> cases hr
  · exact h.2.2.2.1.1
  · rcases h.2.2 with hl | hp
    · exact hc.inUse r (Cache.mem_arrays hl)
    · exact hp.1.1

lemma Inv.move {w' : World β} (hi : Inv cfg w) (hthreads : w'.threads = (w.set t th).threads)
    (hcoh : w'.cache.Coherent cfg w'.dev) (hself : ThreadOk cfg w' th)
    (hresp : ∀ t' ≠ t, Respects cfg w w' (w.threads t'))
    (halone : ∀ l, th.fetchOf = some l → ∀ t' ≠ t, (w.threads t').fetchOf ≠ some l)
    (hfetched : ∀ c l r, th = .fetched c l r → ∀ t' ≠ t, (w.threads t').arrayOf ≠ some r)
    (hown : ∀ r, th.arrayOf = some r → ∀ t' ≠ t, ∀ c l, w.threads t' ≠ .fetched c l r) : Inv cfg w' := by
  have hat : w'.threads t = th := by rw [hthreads, World.set_self]
  have hother : ∀ t' ≠ t, w'.threads t' = w.threads t' := fun t' h => by rw [hthreads, World.set_other h]
  refine ⟨hcoh, fun t' => ?_, fun t₁ t₂ l h₁ h₂ => ?_, fun t₁ t₂ c l r h₁ h₂ => ?_⟩
  · by_cases h : t' = t
    · rw [h, hat]
      exact hself
    · rw [hother t' h]
      exact (hresp t' h).threadOk (hi.threads t')
  · by_contra hne
    by_cases e₁ : t₁ = t
    · subst e₁
      rw [hat] at h₁
      rw [hother t₂ hne] at h₂
      exact halone l h₁ t₂ hne h₂
    · rw [hother t₁ e₁] at h₁
      by_cases e₂ : t₂ = t
      · subst e₂
        rw [hat] at h₂
        exact halone l h₂ t₁ e₁ h₁
      · rw [hother t₂ e₂] at h₂
        exact hne (hi.alone t₁ t₂ l h₁ h₂)
  · by_contra hne
    by_cases e₁ : t₁ = t
    · subst e₁
      rw [hat] at h₁
      rw [hother t₂ hne] at h₂
      exact hfetched c l r h₁ t₂ hne h₂
    · rw [hother t₁ e₁] at h₁
      by_cases e₂ : t₂ = t
      · subst e₂
        rw [hat] at h₂
        exact hown r h₂ t₁ e₁ c l h₁
      · rw [hother t₂ e₂] at h₂
        exact hne (hi.own t₁ t₂ c l r h₁ h₂)

lemma Inv.quiet (hi : Inv cfg w) (hself : ThreadOk cfg w th)
    (hfetch : th.fetchOf = none ∨ th.fetchOf = (w.threads t).fetchOf) (harray : th.arrayOf = none) :
    Inv cfg (w.set t th) := by
  have hsame : ∀ th', Respects cfg w (w.set t th) th' := fun _ => .of_same rfl rfl rfl
  refine hi.move rfl hi.coherent ((hsame th).threadOk hself) (fun t' _ => hsame _)
    (fun l hl t' hne h => ?_)
    (fun c l r h => ?_) fun r hr => ?_
  · rcases hfetch with hf | hf
    · rw [hf] at hl
      cases hl
    · exact hne (hi.alone t t' l (hf ▸ hl) h)
  · rw [h] at harray
    cases harray
  · rw [hr] at harray
    cases harray

lemma Inv.cached_not_fetched (hi : Inv cfg w) (hl : (l, r) ∈ w.cache.lines) (t' : ℕ) (c : Call β)
    (l' : ℕ) : w.threads t' ≠ .fetched c l' r := fun h => by
  have hok := hi.threads t'
  rw [h] at hok
  exact hok.2.2.2.1.2 (Cache.mem_arrays hl)

lemma fresh_now {since b : ℕ} (h : since ≤ w.past.length) : Fresh w.history since b (w.dev b) :=
  ⟨w.past.length, w.dev, h, by simp [World.history], rfl⟩

lemma freshLine_now {since : ℕ} (h : since ≤ w.past.length) :
    FreshLine cfg w.history since l (cfg.lineOf w.dev l) := by
  refine ⟨cfg.lineOf_length, fun i v hv => ?_⟩
  rw [cfg.lineOf_getElem?] at hv
  split at hv
  · cases hv
    exact fresh_now h
  · cases hv

lemma Busy.copy {line : List β} (hb : Busy cfg w c)
    (hl : FreshLine cfg w.history c.since (c.line cfg) line) :
    ThreadOk cfg w (c.copy cfg (c.line cfg) line) := by
  unfold Call.copy
  split
  · trivial
  · rename_i out hcopied
    obtain ⟨off, hoff⟩ : ∃ off, c.block - c.line cfg * cfg.blocksPerLine = off := ⟨_, rfl⟩
    obtain ⟨n, hn⟩ : ∃ n, min (line.length - off) (c.count - c.out.length) = n := ⟨_, rfl⟩
    have hdiv : c.line cfg * cfg.blocksPerLine ≤ c.block := Nat.div_mul_le_self _ _
    have hmore := hb.more
    simp only [ReadCall.copied, hoff, hn, Option.ite_none_left_eq_some, Option.some.injEq] at hcopied
    obtain ⟨-, rfl⟩ := hcopied
    have hlen : (c.out ++ (line.drop off).take n).length ≤ c.count := by
      rw [List.length_append, List.length_take, List.length_drop]
      omega
    have hcall : CallOk cfg w { c with out := c.out ++ (line.drop off).take n } := by
      refine ⟨hb.inside, hb.begun, fun i v hv => ?_⟩
      dsimp only at hv ⊢
      rw [List.getElem?_append] at hv
      split at hv
      · exact hb.out i v hv
      · rename_i hi
        rw [List.getElem?_take] at hv
        split at hv
        · rw [List.getElem?_drop] at hv
          have hblock : c.block = c.start + c.out.length := rfl
          have := hl.fresh _ v hv
          rwa [show c.line cfg * cfg.blocksPerLine + (off + (i - c.out.length)) = c.start + i by
            omega] at this
        · cases hv
    split
    · rename_i h
      exact ⟨hcall, h⟩
    · rename_i h
      exact ⟨hcall, le_antisymm hlen (not_lt.1 h)⟩

lemma Cache.Fetch.of_subset {c c' : Cache β} (h : c.Fetch l) (hf : l ∈ c.fetching → l ∈ c'.fetching)
    (hk : ∀ e ∈ c'.lines, e ∈ c.lines ∨ e.1 ≠ l) : c'.Fetch l := by
  refine ⟨hf h.1, Cache.lookup_none_iff.2 fun hl => ?_⟩
  obtain ⟨e, he, hel⟩ := List.mem_map.1 hl
  rcases hk e he with he | hne
  · exact Cache.lookup_none_iff.1 h.2 (List.mem_map.2 ⟨e, he, hel⟩)
  · exact hne hel

lemma Inv.lookup_hit (hi : Inv cfg w) (hth : w.threads t = .looking c)
    (hr : w.cache.lines.lookup (c.line cfg) = some r) :
    Inv cfg ({ w with cache := w.cache.touch (c.line cfg) }.set t (.holding c (c.line cfg) r)) := by
  have hb : ThreadOk cfg w (.looking c) := hth ▸ hi.threads t
  have hperm : (w.cache.touch (c.line cfg)).lines.Perm w.cache.lines :=
    Cache.touch_lines hi.coherent.keys
  have hmem : ∀ e, e ∈ (w.cache.touch (c.line cfg)).lines ↔ e ∈ w.cache.lines := fun e => hperm.mem_iff
  have harr : ∀ r', r' ∈ (w.cache.touch (c.line cfg)).arrays ↔ r' ∈ w.cache.arrays := fun r' =>
    (hperm.map _).mem_iff
  have hline := Cache.lookup_mem hr
  refine hi.move rfl hi.coherent.touch ⟨⟨⟨hb.inside, hb.begun, hb.out⟩, hb.more⟩, rfl,
    .inl ((hmem _).2 hline)⟩
    (fun t' _ => ⟨le_rfl, List.prefix_rfl, fun r' _ hp => ?_, fun _ _ _ _ h => (hmem _).2 h,
      fun l' _ hf => ?_, fun l' _ _ => ⟨fun h => ?_, .inr rfl⟩⟩) (fun _ h => by cases h)
        (fun _ _ _ h => by cases h)
    fun r' hr' t' _ c' l' => ?_
  · refine ⟨⟨?_, fun h => hp.2 ((harr r').1 h)⟩, ?_⟩
    · exact hp.1.trans_eq Cache.touch_next.symm
    · simp [World.set]
  · exact hf.of_subset (by simp [World.set]) fun e he => .inl ((hmem e).1 he)
  · simpa [World.set] using h
  · cases hr'
    exact hi.cached_not_fetched hline t' c' l'

lemma Inv.lookup_miss (hi : Inv cfg w) (hth : w.threads t = .looking c)
    (hr : w.cache.lines.lookup (c.line cfg) = none) (hcare : c.line cfg ∉ w.cache.fetching) :
    Inv cfg ({ w with cache := { w.cache with fetching := insert (c.line cfg) w.cache.fetching } }.set t
      (.fetching c (c.line cfg))) := by
  have hb : ThreadOk cfg w (.looking c) := hth ▸ hi.threads t
  refine hi.move rfl ⟨hi.coherent.keys, hi.coherent.arrays, hi.coherent.inUse, hi.coherent.content⟩
    ⟨⟨⟨hb.inside, hb.begun, hb.out⟩, hb.more⟩, rfl, Finset.mem_insert_self _ _, hr⟩
    (fun t' _ => ⟨le_rfl, List.prefix_rfl, fun r' _ hp => ⟨hp, rfl⟩, fun _ _ _ _ h => h, fun l' _ hf =>
      ⟨Finset.mem_insert_of_mem hf.1, hf.2⟩, fun l' _ _ => ⟨id, .inr rfl⟩⟩) (fun l hl t' _ h => ?_)
    (fun _ _ _ h => by cases h) fun r h => by cases h
  cases hl
  exact hcare ((hi.threads t').fetch h).1

lemma Inv.deviceRead (hi : Inv cfg w) (hth : w.threads t = .fetching c l) :
    Inv cfg ({ w with cache := w.cache.alloc (cfg.lineOf w.dev l) }.set t
      (.fetched c l w.cache.next)) := by
  have hb : ThreadOk cfg w (.fetching c l) := hth ▸ hi.threads t
  obtain ⟨hbusy, hl, hfetch⟩ := hb
  have hnew : w.cache.next ∉ w.cache.arrays := fun h => lt_irrefl _ (hi.coherent.inUse _ h)
  have hheap : ∀ r < w.cache.next, (w.cache.alloc (cfg.lineOf w.dev l)).heap r = w.cache.heap r :=
    fun r hr => Function.update_of_ne hr.ne _ _
  have hself : (w.cache.alloc (cfg.lineOf w.dev l)).heap w.cache.next = cfg.lineOf w.dev l :=
    Function.update_self ..
  refine hi.move rfl ⟨hi.coherent.keys, hi.coherent.arrays, fun r hr => (hi.coherent.inUse r hr).trans
      (Nat.lt_succ_self _), fun e he => ?_⟩ ⟨⟨⟨hbusy.inside, hbusy.begun, hbusy.out⟩, hbusy.more⟩,
      hl, hfetch, ⟨Nat.lt_succ_self _, hnew⟩, ?_, .inr hself⟩
    (fun t' _ =>
      ⟨le_rfl, List.prefix_rfl,
        fun r' _ hp => ⟨⟨hp.1.trans (Nat.lt_succ_self _), hp.2⟩, hheap r' hp.1⟩, fun _ _ _ _ h => h,
        fun l' _ hf => hf, fun l' _ _ => ⟨id, .inr rfl⟩⟩) (fun l' hl' t' hne h => ?_)
    (fun c' l' r' h t' _ hr' => ?_) fun r' hr' t' _ c' l' h => ?_
  · exact (hheap _ (hi.coherent.inUse _ (Cache.mem_arrays he))).trans (hi.coherent.content e he)
  · show FreshLine cfg w.history c.since l ((w.cache.alloc (cfg.lineOf w.dev l)).heap w.cache.next)
    rw [hself]
    exact freshLine_now hbusy.begun
  · exact hne (hi.alone t t' l' (by rw [hth]; exact hl') h)
  · cases h
    exact lt_irrefl _ ((hi.threads t').array hi.coherent hr')
  · cases hr'
    exact lt_irrefl _ ((hi.threads t').array hi.coherent (by rw [h]; rfl))

lemma Inv.unmark (hi : Inv cfg w) (hth : (w.threads t).fetchOf = some l) {t' l' : ℕ} (hne : t' ≠ t)
    (hl' : (w.threads t').fetchOf = some l') : l' ≠ l := fun h => hne (hi.alone t t' l hth (h ▸ hl'))

lemma Inv.fetchFailed (hi : Inv cfg w) (hth : w.threads t = .failed l) :
    Inv cfg ({ w with cache := w.cache.fetchFailed l }.set t .idle) := by
  refine hi.move rfl ⟨hi.coherent.keys, hi.coherent.arrays, hi.coherent.inUse, hi.coherent.content⟩
    trivial
    (fun t' hne => ⟨le_rfl, List.prefix_rfl, fun r' _ hp => ⟨hp, rfl⟩, fun _ _ _ _ h => h,
      fun l' hl' hf => ?_, fun l' hl' _ => ⟨fun h => ?_, .inr rfl⟩⟩) (fun _ h => by cases h)
        (fun _ _ _ h => by cases h)
    fun r h => by cases h
  · exact ⟨Finset.mem_erase.2 ⟨hi.unmark (by rw [hth]; rfl) hne hl', hf.1⟩, hf.2⟩
  · exact Finset.mem_erase.2 ⟨hi.unmark (by rw [hth]; rfl) hne hl', h⟩

/-- The last section of a fetch that a write has overtaken: the array stays the thread's own. -/
lemma Inv.superseded (hi : Inv cfg w) (hth : w.threads t = .fetched c l r) :
    Inv cfg ({ w with cache := w.cache.fetchFailed l }.set t (.holding c l r)) := by
  have hb : ThreadOk cfg w (.fetched c l r) := hth ▸ hi.threads t
  obtain ⟨hbusy, hl, -, hp, hfresh, -⟩ := hb
  refine hi.move rfl ⟨hi.coherent.keys, hi.coherent.arrays, hi.coherent.inUse, hi.coherent.content⟩
    ⟨⟨⟨hbusy.inside, hbusy.begun, hbusy.out⟩, hbusy.more⟩, hl, .inr ⟨hp, hfresh⟩⟩
    (fun t' hne => ⟨le_rfl, List.prefix_rfl, fun r' _ hp => ⟨hp, rfl⟩, fun _ _ _ _ h => h,
      fun l' hl' hf => ?_, fun l' hl' _ => ⟨fun h => ?_, .inr rfl⟩⟩) (fun _ h => by cases h)
        (fun _ _ _ h => by cases h)
    fun r' hr' t' hne c' l' h => ?_
  · exact ⟨Finset.mem_erase.2 ⟨hi.unmark (by rw [hth]; rfl) hne hl', hf.1⟩, hf.2⟩
  · exact Finset.mem_erase.2 ⟨hi.unmark (by rw [hth]; rfl) hne hl', h⟩
  · cases hr'
    exact hne (hi.own t t' c l r hth (by rw [h]; rfl))

/-- The marks a write makes: no fetch in flight of a line that it reaches goes unmarked. -/
lemma markFetchesDirty_spec (cfg : Config) (c : Cache β) (start blocks : ℕ) :
    c.markFetchesDirty cfg start blocks =
      { c with dirtiedWhileFetching := (c.markFetchesDirty cfg start blocks).dirtiedWhileFetching } ∧
    c.dirtiedWhileFetching ⊆ (c.markFetchesDirty cfg start blocks).dirtiedWhileFetching ∧
    ∀ l ∈ c.fetching, l ∈ (c.markFetchesDirty cfg start blocks).dirtiedWhileFetching ∨ blocks = 0 ∨
      l ∉ Finset.Icc (start / cfg.blocksPerLine) (Cache.lastLine cfg start blocks) := by
  unfold Cache.markFetchesDirty
  split
  · rename_i h
    refine ⟨rfl, subset_rfl, fun l hl => .inr (.inl (h.resolve_left fun he => ?_))⟩
    rw [he] at hl
    exact Finset.notMem_empty _ hl
  · refine ⟨rfl, Finset.subset_union_left, fun l hl => ?_⟩
    by_cases h : l ∈ Finset.Icc (start / cfg.blocksPerLine) (Cache.lastLine cfg start blocks)
    · exact .inl (Finset.mem_union_right _ (Finset.mem_filter.2 ⟨h, hl⟩))
    · exact .inr (.inr h)

variable [Zero β]

/-- The last section of a fetch that no write has overtaken: the line is cached, and the line it
evicts is not held by a reader. -/
lemma Inv.published (hi : Inv cfg w) (hth : w.threads t = .fetched c l r)
    (hd : l ∉ w.cache.dirtiedWhileFetching)
    (hcare : cfg.maxLines ≤ w.cache.lines.length → ∀ e, w.cache.lines.head? = some e → ¬Held w e.2) :
    Inv cfg ({ w with cache := (w.cache.fetchFailed l).put cfg l r }.set t (.holding c l r)) := by
  have hb : ThreadOk cfg w (.fetched c l r) := hth ▸ hi.threads t
  obtain ⟨hbusy, hl, hfetch, hp, hfresh, hnow⟩ := hb
  have hcontent : w.cache.heap r = cfg.lineOf w.dev l := hnow.resolve_left hd
  have hcoh : (w.cache.fetchFailed l).Coherent cfg w.dev :=
    ⟨hi.coherent.keys, hi.coherent.arrays, hi.coherent.inUse, hi.coherent.content⟩
  have hnone : (w.cache.fetchFailed l).lines.lookup l = none := hfetch.2
  obtain ⟨hnext, hfetching, hdirtied, -⟩ := Cache.put_spec cfg (r := r) hnone
  have hheld : ∀ l' r', Held w r' → (l', r') ∈ w.cache.lines →
      (l', r') ∈ ((w.cache.fetchFailed l).put cfg l r).lines := fun l' r' hh hmem =>
    Cache.put_keeps cfg hnone hmem fun hfull hhead => hcare hfull _ hhead hh
  refine hi.move rfl (hcoh.put hfetch.2 hp.2 hp.1 hcontent)
    ⟨⟨⟨hbusy.inside, hbusy.begun, hbusy.out⟩, hbusy.more⟩, hl, .inl (Cache.put_self cfg hnone)⟩
    (fun t' hne => ⟨le_rfl, List.prefix_rfl, fun r' hr' hp' => ?_, fun c' l' r' h hmem => hheld l' r'
      ⟨t', c', l', h⟩ hmem, fun l' hl' hf => ?_, fun l' hl' _ => ⟨fun h => ?_, .inr rfl⟩⟩)
    (fun _ h => by cases h) (fun _ _ _ h => by cases h) fun r' hr' t' hne c' l' h => ?_
  · have hrr : r' ≠ r := fun h => hne (hi.own t t' c l r hth (h ▸ hr'))
    refine ⟨⟨hp'.1.trans_eq hnext.symm, fun hin => ?_⟩, Cache.put_heap cfg hnone hp'.2⟩
    obtain ⟨e, he, rfl⟩ := List.mem_map.1 hin
    rcases Cache.put_mem cfg hnone he with he | rfl
    · exact hp'.2 (Cache.mem_arrays he)
    · exact hrr rfl
  · have hll : l' ≠ l := hi.unmark (by rw [hth]; rfl) hne hl'
    refine hf.of_subset (fun h => ?_) fun e he => (Cache.put_mem cfg hnone he).imp_right fun h => ?_
    · show l' ∈ ((w.cache.fetchFailed l).put cfg l r).fetching
      rw [hfetching]
      exact Finset.mem_erase.2 ⟨hll, h⟩
    · rw [h]
      exact hll.symm
  · show l' ∈ ((w.cache.fetchFailed l).put cfg l r).dirtiedWhileFetching
    rw [hdirtied]
    exact Finset.mem_erase.2 ⟨hi.unmark (by rw [hth]; rfl) hne hl', h⟩
  · cases hr'
    exact hne (hi.own t t' c l r hth (by rw [h]; rfl))

/-- The section of a write, which fails only if no reader holds a line that it reaches. -/
lemma Inv.write (hi : Inv cfg w) {start : ℕ} {data : List β} {torn : Option (List β)}
    (hth : w.threads t = .writing start data) (hlen : (torn.getD data).length = data.length)
    (hcare : torn.isSome → ∀ e ∈ w.cache.lines,
      e.1 ∈ Finset.Icc (start / cfg.blocksPerLine) (Cache.lastLine cfg start data.length) →
      ¬Held w e.2) : Inv cfg ({ w with
      dev := overwrite w.dev start (torn.getD data)
      past := w.past ++ [w.dev]
      cache := w.cache.written cfg start data torn.isNone }.set t .finished) := by
  have hin : ThreadOk cfg w (.writing start data) := hth ▸ hi.threads t
  obtain ⟨hmark, hsub, hcover⟩ := markFetchesDirty_spec cfg w.cache start data.length
  obtain ⟨m, hm⟩ : ∃ m, w.cache.markFetchesDirty cfg start data.length = m := ⟨_, rfl⟩
  rw [hm] at hmark hsub hcover
  have hcoh : m.Coherent cfg w.dev := by
    rw [hmark]
    exact ⟨hi.coherent.keys, hi.coherent.arrays, hi.coherent.inUse, hi.coherent.content⟩
  have hmlines : m.lines = w.cache.lines := by rw [hmark]
  have houtside : ∀ b, ¬(start ≤ b ∧ b < start + data.length) →
      overwrite w.dev start (torn.getD data) b = w.dev b :=
        fun b hb => overwrite_outside (by rw [hlen]; exact hb)
  obtain ⟨c', hc'⟩ : ∃ c', w.cache.written cfg start data torn.isNone = c' := ⟨_, rfl⟩
  -- the cache afterwards: it follows the device, and the lines that readers hold stay
  have hspec : c'.Coherent cfg (overwrite w.dev start (torn.getD data)) ∧ Cache.Frame m c' ∧
      (∀ e ∈ c'.lines, e ∈ m.lines) ∧ ∀ e ∈ m.lines, Held w e.2 → e ∈ c'.lines := by
    rw [← hc']
    unfold Cache.written
    rw [hm]
    cases torn with
    | none =>
      obtain ⟨hf, hperm⟩ := Cache.patchLoop_frame cfg data.length start data hcoh.keys
      exact ⟨hcoh.patchRange hin, hf, fun e he => hperm.subset he, fun e he _ => hperm.symm.subset he⟩
    | some left =>
      obtain ⟨hf, hlines, hmem⟩ := Cache.invalidateRange_spec cfg (c := m) start data.length
      refine ⟨hcoh.invalidateRange houtside, hf, fun e he => hlines.subset he, fun e he hheld =>
        (hmem e).2 ⟨he, .inr fun hicc => hcare rfl e (hmlines ▸ he) hicc hheld⟩⟩
  rw [hc']
  obtain ⟨hc, hf, hback, hkeep⟩ := hspec
  refine hi.move rfl hc trivial
    (fun t' hne =>
      ⟨by simp [World.set], ⟨[overwrite w.dev start (torn.getD data)], rfl⟩, fun r' _ hp => ?_,
      fun c₁ l' r' h hl => hkeep _ (hmlines ▸ hl) ⟨t', c₁, l', h⟩, fun l' _ hfetch => ?_,
      fun l' _ hfetch => ⟨fun h => ?_, ?_⟩⟩)
    (fun _ h => by cases h) (fun _ _ _ h => by cases h) fun r h => by cases h
  · have hpm : r' ∉ m.arrays := by
      rw [Cache.arrays, hmlines]
      exact hp.2
    refine ⟨⟨?_, fun h => hpm (hf.arrays h)⟩, (hf.heap r' hpm).trans (by rw [hmark])⟩
    show r' < c'.next
    rw [hf.next, hmark]
    exact hp.1
  · refine hfetch.of_subset (fun h => ?_) fun e he => .inl (hmlines ▸ hback e he)
    show l' ∈ c'.fetching
    rw [hf.fetching, hmark]
    exact h
  · show l' ∈ c'.dirtiedWhileFetching
    rw [hf.dirtied]
    exact hsub h
  · rcases hcover l' hfetch.1 with h | h
    · left
      show l' ∈ c'.dirtiedWhileFetching
      rw [hf.dirtied]
      exact h
    · exact .inr (cfg.lineOf_outside houtside h)

lemma Inv.invalidate (hi : Inv cfg w) (hcare : ∀ e ∈ w.cache.lines, ¬Held w e.2) :
    Inv cfg ({ w with cache := w.cache.invalidate }.set t .finished) := by
  refine hi.move rfl ⟨List.nodup_nil, List.nodup_nil, fun _ h => absurd h List.not_mem_nil,
      fun _ h => absurd h List.not_mem_nil⟩ trivial
    (fun t' hne => ⟨le_rfl, List.prefix_rfl, fun r' _ hp => ?_,
      fun c l r h hl => absurd ⟨t', c, l, h⟩ (hcare _ hl), fun l' _ hf => ⟨hf.1, rfl⟩,
      fun l' _ hf => ⟨fun h => Finset.mem_union_left _ h, .inr rfl⟩⟩)
    (fun _ h => by cases h) (fun _ _ _ h => by cases h) fun r h => by cases h
  exact ⟨⟨hp.1, List.not_mem_nil⟩, if_neg hp.2⟩

theorem Inv.step_keeps {w' : World β} {a : Action β} (hi : Inv cfg w) (hc : Careful cfg w a)
    (hs : step cfg w a = some w') : Inv cfg w' := by
  cases a with
  | callRead t start count =>
    simp only [step] at hs
    split at hs
    · rename_i hth
      cases hs
      split
      · exact hi
      · rename_i hin
        have hcall : CallOk cfg w ⟨⟨start, count, []⟩, w.past.length⟩ := ⟨not_lt.1 hin, le_rfl, by simp⟩
        split
        · rename_i hz
          exact hi.quiet ⟨hcall, hz.symm⟩ (.inl rfl) rfl
        · rename_i hz
          split
          · exact hi.quiet hcall (.inl rfl) rfl
          · exact hi.quiet ⟨hcall, Nat.pos_of_ne_zero hz⟩ (.inl rfl) rfl
    · cases hs
  | bypass t ok =>
    simp only [step] at hs
    split at hs
    · rename_i c hth
      cases hs
      have hcall : ThreadOk cfg w (.bypassing c) := hth ▸ hi.threads t
      cases ok with
      | false => exact hi.quiet trivial (.inl rfl) rfl
      | true =>
        refine hi.quiet ⟨⟨hcall.inside, hcall.begun, fun i v hv => ?_⟩, by simp⟩ (.inl rfl) rfl
        obtain ⟨hj, hget⟩ := List.getElem?_eq_some_iff.1 hv
        simp only [List.getElem_map, List.getElem_range] at hget
        rw [← hget]
        exact fresh_now hcall.begun
    · cases hs
  | lookup t =>
    simp only [step] at hs
    split at hs
    · rename_i c hth
      unfold Cache.lookup at hs
      cases hr : w.cache.lines.lookup (c.line cfg) with
      | some r =>
        rw [hr] at hs
        cases hs
        exact hi.lookup_hit hth hr
      | none =>
        rw [hr] at hs
        cases hs
        exact hi.lookup_miss hth hr (hc c hth hr)
    · cases hs
  | deviceRead t ok =>
    simp only [step] at hs
    split at hs
    · rename_i c l hth
      cases hs
      have hok : ThreadOk cfg w (.fetching c l) := hth ▸ hi.threads t
      cases ok with
      | false => exact hi.quiet hok.2.2 (.inr (by rw [hth]; rfl)) rfl
      | true => exact hi.deviceRead hth
    · cases hs
  | fetchEnd t =>
    simp only [step] at hs
    split at hs
    · rename_i c l r hth
      cases hs
      have hok : ThreadOk cfg w (.fetched c l r) := hth ▸ hi.threads t
      unfold Cache.publish
      split
      · rw [hok.2.2.1.2]
        exact hi.superseded hth
      · rename_i hd
        exact hi.published hth hd (hc c l r hth hd)
    · rename_i l hth
      cases hs
      exact hi.fetchFailed hth
    · cases hs
  | copy t =>
    simp only [step] at hs
    split at hs
    · rename_i c l r hth
      cases hs
      have hok : ThreadOk cfg w (.holding c l r) := hth ▸ hi.threads t
      obtain ⟨hbusy, rfl, hline⟩ := hok
      have hfresh : FreshLine cfg w.history c.since (c.line cfg) (w.cache.heap r) := by
        rcases hline with hl | hp
        · rw [hi.coherent.content _ hl]
          exact freshLine_now hbusy.begun
        · exact hp.2
      refine hi.quiet (hbusy.copy hfresh) ?_ ?_
      · left
        unfold Call.copy
        grind [Thread.fetchOf]
      · unfold Call.copy
        grind [Thread.arrayOf]
    · cases hs
  | callWrite t start data =>
    simp only [step] at hs
    split at hs
    · cases hs
      split
      · rename_i hin
        exact hi.quiet hin (.inl rfl) rfl
      · exact hi
    · cases hs
  | write t torn =>
    simp only [step] at hs
    split at hs
    · rename_i start data hth
      split at hs
      · rename_i hlen
        cases hs
        refine hi.write hth hlen fun hsome => ?_
        obtain ⟨left, rfl⟩ := Option.isSome_iff_exists.1 hsome
        exact hc start data hth
      · cases hs
    · cases hs
  | callInvalidate t =>
    simp only [step] at hs
    split at hs
    · cases hs
      exact hi.quiet trivial (.inl rfl) rfl
    · cases hs
  | invalidate t =>
    simp only [step] at hs
    split at hs
    · cases hs
      exact hi.invalidate hc
    · cases hs
  | ret t =>
    simp only [step] at hs
    split at hs
    · cases hs
      exact hi.quiet trivial (.inl rfl) rfl
    · cases hs
      exact hi.quiet trivial (.inl rfl) rfl
    · cases hs

end Steps

/-! ### Runs -/

/-- A new cache over a device, before any call. -/
def idle (dev : ℕ → β) : World β := ⟨dev, [], Cache.empty, fun _ => .idle⟩

lemma idle_inv (cfg : Config) (dev : ℕ → β) : Inv cfg (idle dev) :=
  ⟨Cache.Coherent.empty cfg dev, fun _ => trivial,
    fun _ _ _ h _ => absurd h (by simp [idle, Thread.fetchOf]),
    fun _ _ _ _ _ h _ => absurd h (by simp [idle])⟩

/-- **Careful runs keep the cache current.** -/
theorem careful_current [Zero β] {cfg : Config} {dev : ℕ → β} {w : World β}
    (hr : Reaches (fun w a w' => step cfg w a = some w') (Careful cfg) (idle dev) w) :
    Current cfg w := by
  have hi : Inv cfg w := hr.invariant (idle_inv cfg dev) fun _ _ _ hi hc hs => hi.step_keeps hc hs
  refine ⟨fun t c ht => ?_, fun _ => hi.coherent.content⟩
  have hok : ThreadOk cfg w (.readDone c) := ht ▸ hi.threads t
  exact ⟨hok.2, hok.1.out⟩

lemma Fresh.mem_drop {history : List (ℕ → β)} {since b : ℕ} {v : β} (h : Fresh history since b v) :
    ∃ d ∈ history.drop since, v = d b := by
  obtain ⟨k, d, hk, hget, hv⟩ := h
  refine ⟨d, List.mem_of_getElem? (i := k - since) ?_, hv⟩
  rw [List.getElem?_drop, Nat.add_sub_cancel' hk, hget]

def sampleConfig : Config := ⟨512, 4, 0, 1024⟩

/-- Two threads fetch line 0, a write to it marks the line, the first fetch takes the mark away and
the second one publishes what it read before the write. -/
def staleRun : List (Action ℕ) :=
  [.callRead 0 0 1, .callRead 1 0 1, .lookup 0, .lookup 1, .deviceRead 0 true, .deviceRead 1 true,
    .callWrite 2 0 [7], .write 2 none, .ret 2, .fetchEnd 0, .fetchEnd 1, .copy 0, .copy 1, .ret 0,
    .ret 1]

def staleRead : List (Action ℕ) := staleRun ++ [.callRead 3 0 1, .lookup 3, .copy 3]

def zeroedRead : List (Action ℕ) :=
  [.callWrite 2 0 [7], .write 2 none, .ret 2, .callRead 0 0 1, .lookup 0, .deviceRead 0 true,
    .fetchEnd 0, .callInvalidate 1, .invalidate 1, .copy 0]

/-- A cached line stays stale with no call in progress, and reads return bytes that are older than a
write that had returned before they started. -/
theorem stale_line_and_reads :
    (∃ w, staleRun.foldlM (step sampleConfig) (idle fun _ => 5) = some w ∧ (∀ t, w.threads t = .idle) ∧
      ∃ e ∈ w.cache.lines, w.cache.heap e.2 ≠ sampleConfig.lineOf w.dev e.1) ∧
    ∀ as ∈ [staleRead, zeroedRead], ∃ w, as.foldlM (step sampleConfig) (idle fun _ => 5) = some w ∧
      ∃ t c v, w.threads t = .readDone c ∧ c.out[0]? = some v ∧ ¬Fresh w.history c.since c.start v := by
  constructor
  · refine ⟨_, rfl, fun t => ?_, (0, 1), ?_, ?_⟩
    · match t with
      | 0 | 1 | 2 => rfl
      | t + 3 => rfl
    · decide
    · decide
  · intro as has
    rcases List.mem_pair.1 has with rfl | rfl
    · exact ⟨_, rfl, 3, _, 5, rfl, rfl, fun h => absurd h.mem_drop (by decide)⟩
    · exact ⟨_, rfl, 0, _, 0, rfl, rfl, fun h => absurd h.mem_drop (by decide)⟩

def sampleRun : List (Action ℕ) :=
  [.callWrite 0 0 [7], .write 0 none, .ret 0, .callRead 0 0 1, .lookup 0, .deviceRead 0 true,
    .fetchEnd 0, .copy 0]

theorem careful_current_sample : ∃ w, sampleRun.foldlM (step sampleConfig) (idle fun _ => 5) = some w ∧
    Current sampleConfig w := by
  have hnew : ∀ {c : Cache ℕ} {l : ℕ}, c.fetching = ∅ → l ∉ c.fetching :=
    fun h => h ▸ Finset.notMem_empty _
  obtain ⟨w, hw⟩ : ∃ w, sampleRun.foldlM (step sampleConfig) (idle fun _ => 5) = some w := ⟨_, rfl⟩
  refine ⟨w, hw, careful_current (Reaches.init.of_run ?_ hw)⟩
  exact ⟨trivial, trivial, trivial, trivial, fun _ _ _ => hnew rfl, trivial,
    fun _ _ _ _ _ h => absurd h (by decide), trivial, trivial⟩

end OtgMaster.Block
