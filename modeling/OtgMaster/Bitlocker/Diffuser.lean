import OtgMaster.Lib.InPlace
import Mathlib.Data.UInt
import Mathlib.Order.Iterate
import Mathlib.Tactic.Linarith
import Mathlib.Tactic.Ring

/-!
The Elephant diffuser of `bitlocker_crypto.c`: two loops over the words of a sector and their
inverses, as the C code runs them, with three indices that are wrapped by tests at fixed lines of
the loop's body. An access outside the array is undefined in C; here it makes the run fail.

Each loop is tied to a sweep in place (`Lib.InPlace`): the indices that the body reaches are the
ones a word's place determines (`Follows`), so the tests stand where they are needed, and the loops
of one diffuser undo each other.
-/

namespace OtgMaster.Bitlocker

open OtgMaster.Lib

/-! ### the loops of the source -/

abbrev Words := ℕ → UInt32

def ROL (x n : UInt32) : UInt32 := x <<< n ||| x >>> (32 - n)

@[ext] structure Cursor where
  i1 : ℤ
  i2 : ℤ
  i3 : ℤ
deriving DecidableEq, Repr

/-- The index that is tested after a line's three indices have moved. -/
inductive Test where
  | none
  | i2
  | i3
deriving DecidableEq, Repr

/-- One assignment of a loop's body, `d[i1] op= d[i2] ^ rot(d[i3])`, with the test that follows the
moves. -/
structure Line where
  rot : UInt32 → UInt32
  test : Test

/-- What the lines of a loop have in common: the operator, the move of the indices and the wrap of a
tested one. -/
structure Way where
  op : UInt32 → UInt32 → UInt32
  move : ℤ
  wrap : ℤ → ℤ → ℤ

/-- `+=`, `i++` and `if (i >= n) i -= n`. -/
def decrypting : Way := ⟨(· + ·), 1, fun n i => if n ≤ i then i - n else i⟩

/-- `-=`, `i--` and `if (i < 0) i += n`. -/
def encrypting : Way := ⟨(· - ·), -1, fun n i => if i < 0 then i + n else i⟩

/-- An access of the array: the place of the word, unless the index is outside. -/
def place (n i : ℤ) : Option ℕ := if 0 ≤ i ∧ i < n then some i.toNat else none

def Way.after (w : Way) (n : ℤ) (l : Line) (c : Cursor) : Cursor :=
  let c : Cursor := ⟨c.i1 + w.move, c.i2 + w.move, c.i3 + w.move⟩
  match l.test with
  | .none => c
  | .i2 => { c with i2 := w.wrap n c.i2 }
  | .i3 => { c with i3 := w.wrap n c.i3 }

/-- One line of the body: the assignment, the moves and the test. -/
def Way.line (w : Way) (n : ℤ) (s : Cursor × Words) (l : Line) : Option (Cursor × Words) := do
  let a ← place n s.1.i1
  let b ← place n s.1.i2
  let c ← place n s.1.i3
  return (w.after n l s.1, Function.update s.2 a (w.op (s.2 a) (s.2 b ^^^ l.rot (s.2 c))))

/-- The `while` loop. The body moves `i1` towards its end each time, so `n` turns are enough. -/
def Way.loop (w : Way) (n : ℤ) (go : ℤ → Bool) (body : List Line) : ℕ → Cursor × Words → Option Words
  | 0, s => if go s.1.i1 then none else some s.2
  | fuel + 1, s => if go s.1.i1 then body.foldlM (w.line n) s >>= w.loop n go body fuel else some s.2

def Way.rounds (w : Way) (n : ℤ) (go : ℤ → Bool) (start : Cursor) (body : List Line) (r : ℕ)
    (d : Words) : Option Words :=
  (List.range r).foldlM (fun d _ => w.loop n go body n.toNat (start, d)) d

def diffuserADecrypt (d : Words) (n : ℤ) : Option Words :=
  decrypting.rounds n (· < n - 1) ⟨0, n - 2, n - 5⟩ [⟨(ROL · 9), .i3⟩, ⟨id, .i2⟩,
    ⟨(ROL · 13), .none⟩, ⟨id, .none⟩] 5 d

def diffuserAEncrypt (d : Words) (n : ℤ) : Option Words :=
  encrypting.rounds n (0 < ·) ⟨n - 1, n - 2 - 1, n - 5 - 1⟩
    [⟨id, .none⟩, ⟨(ROL · 13), .i2⟩, ⟨id, .i3⟩, ⟨(ROL · 9), .none⟩] 5 d

def diffuserBDecrypt (d : Words) (n : ℤ) : Option Words :=
  decrypting.rounds n (· < n - 1) ⟨0, 2, 5⟩ [⟨id, .none⟩, ⟨(ROL · 10), .i2⟩, ⟨id, .i3⟩,
    ⟨(ROL · 25), .none⟩] 3 d

def diffuserBEncrypt (d : Words) (n : ℤ) : Option Words :=
  encrypting.rounds n (0 < ·) ⟨n - 1, 2 - 1, 5 - 1⟩
    [⟨(ROL · 25), .i3⟩, ⟨id, .i2⟩, ⟨(ROL · 10), .none⟩, ⟨id, .none⟩] 3 d

/-!
 ### the indices of a word

A diffuser is given by the words it mixes into word `p`; both of its loops visit the words with
these indices.
-/

/-- Where word `p` takes from, and by how much the second word is rotated. -/
structure Mix where
  left : ℕ → ℕ
  right : ℕ → ℕ
  rot : ℕ → UInt32 → UInt32

def Mix.cursor (m : Mix) (p : ℕ) : Cursor := ⟨p, m.left p, m.right p⟩

def Mix.value (m : Mix) (p : ℕ) (d : Words) : UInt32 := d (m.left p) ^^^ m.rot p (d (m.right p))

/-- The words that are mixed into a word are two others of the array. -/
structure Mix.Inside (m : Mix) (n : ℕ) : Prop where
  left : ∀ p < n, m.left p < n ∧ m.left p ≠ p
  right : ∀ p < n, m.right p < n ∧ m.right p ≠ p

/-- The word `k` places before `p`, the array taken as a ring. -/
def before (n k p : ℕ) : ℕ := if p < k then p + n - k else p - k

/-- The word `k` places after `p`. -/
def behind (n k p : ℕ) : ℕ := if p + k < n then p + k else p + k - n

def mixA (n : ℕ) : Mix where
  left := before n 2
  right := before n 5
  rot p := if p % 4 = 0 then (ROL · 9) else if p % 4 = 2 then (ROL · 13) else id

def mixB (n : ℕ) : Mix where
  left := behind n 2
  right := behind n 5
  rot p := if p % 4 = 1 then (ROL · 10) else if p % 4 = 3 then (ROL · 25) else id

lemma mixA_inside {n : ℕ} (hn : 8 ≤ n) : (mixA n).Inside n := by
  constructor <;> intro p hp <;> simp only [mixA, before] <;> split <;> omega

lemma mixB_inside {n : ℕ} (hn : 8 ≤ n) : (mixB n).Inside n := by
  constructor <;> intro p hp <;> simp only [mixB, behind] <;> split <;> omega

lemma Mix.Inside.blind {m : Mix} {n p : ℕ} (h : m.Inside n) (hp : p < n) : Blind m.value p := by
  intro d x
  rw [Mix.value, Function.update_of_ne (h.left p hp).2, Function.update_of_ne (h.right p hp).2]
  rfl

/-! ### one line, one turn, one round -/

section Loops

variable {w : Way} {m : Mix} {n p q j : ℕ} {l : Line} {c : Cursor} {d : Words} {body : List Line}
  {go : ℤ → Bool}

lemma place_of_lt (hp : p < n) : place n p = some p := by
  rw [place, if_pos ⟨by omega, by omega⟩]
  simp

@[simp] lemma Way.after_i1 (w : Way) (n : ℤ) (l : Line) (c : Cursor) :
    (w.after n l c).i1 = c.i1 + w.move := by
  unfold Way.after
  cases l.test <;> rfl

lemma Way.line_eq (h : m.Inside n) (hp : p < n) (hl : l.rot = m.rot p) :
    w.line n (m.cursor p, d) l = some (w.after n l (m.cursor p), bump w.op m.value p d) := by
  unfold Way.line Mix.cursor
  rw [place_of_lt hp, place_of_lt (h.left p hp).1, place_of_lt (h.right p hp).1, hl]
  rfl

/-- The line for word `p` leads to the indices of word `q`. -/
structure Leads (w : Way) (m : Mix) (n : ℕ) (l : Line) (p q : ℕ) : Prop where
  rot : l.rot = m.rot p
  next : w.after n l (m.cursor p) = m.cursor q

lemma Leads.line_bind {β : Type} (hl : Leads w m n l p q) (h : m.Inside n) (hp : p < n)
    (k : Cursor × Words → Option β) :
    (w.line n (m.cursor p, d) l).bind k = k (m.cursor q, bump w.op m.value p d) := by
  rw [Way.line_eq h hp hl.rot, hl.next, Option.bind_some]

/-- A loop visits the words in the order of `path`, four of them in a turn, each with its own
indices; after the last word it ends. -/
structure Follows (w : Way) (go : ℤ → Bool) (start : Cursor) (l₀ l₁ l₂ l₃ : Line) (m : Mix) (b : ℕ)
    (path : ℕ → ℕ) : Prop where
  inside : ∀ i < 4 * b, path i < 4 * b
  begins : start = m.cursor (path 0)
  goes : ∀ j ≤ b, go (start.i1 + 4 * j * w.move) = decide (j < b)
  first : ∀ j < b, Leads w m (4 * b) l₀ (path (4 * j)) (path (4 * j + 1))
  second : ∀ j < b, Leads w m (4 * b) l₁ (path (4 * j + 1)) (path (4 * j + 2))
  third : ∀ j < b, Leads w m (4 * b) l₂ (path (4 * j + 2)) (path (4 * j + 3))
  fourth : ∀ j < b, l₃.rot = m.rot (path (4 * j + 3))
  /-- The indices after the last word are not used. -/
  turn : ∀ j, j + 1 < b → Leads w m (4 * b) l₃ (path (4 * j + 3)) (path (4 * (j + 1)))

variable {start : Cursor} {l₀ l₁ l₂ l₃ : Line} {b : ℕ} {path : ℕ → ℕ}

lemma Follows.body_eq (h : Follows w go start l₀ l₁ l₂ l₃ m b path) (hm : m.Inside (4 * b))
    (hj : j < b) : [l₀, l₁, l₂, l₃].foldlM (w.line (4 * b : ℕ)) (m.cursor (path (4 * j)), d) =
      some (w.after (4 * b : ℕ) l₃ (m.cursor (path (4 * j + 3))),
        sweep w.op m.value ((List.range' (4 * j) 4).map path) d) := by
  simp only [List.foldlM_cons, List.foldlM_nil, Option.bind_eq_bind]
  rw [(h.first j hj).line_bind hm (h.inside _ (by omega)),
    (h.second j hj).line_bind hm (h.inside _ (by omega)),
    (h.third j hj).line_bind hm (h.inside _ (by omega)),
    Way.line_eq hm (h.inside _ (by omega)) (h.fourth j hj)]
  rfl

/-- The loop from its turn `j` on. The indices are those of a word as long as a word is left. -/
lemma Follows.loop_eq (h : Follows w go start l₀ l₁ l₂ l₃ m b path) (hm : m.Inside (4 * b)) {k fuel : ℕ}
    (hk : j + k = b) (hfuel : k ≤ fuel) (hi : c.i1 = start.i1 + 4 * j * w.move)
    (hc : 0 < k → c = m.cursor (path (4 * j))) :
    w.loop (4 * b : ℕ) go [l₀, l₁, l₂, l₃] fuel (c, d) =
      some (sweep w.op m.value ((List.range' (4 * j) (4 * k)).map path) d) := by
  induction k generalizing j fuel c d with
  | zero =>
    have hgo : go c.i1 = false := by rw [hi, h.goes j (by omega)]; simp; omega
    cases fuel <;> simp [Way.loop, hgo, sweep]
  | succ k ih =>
    obtain ⟨fuel, rfl⟩ : ∃ f, fuel = f + 1 := ⟨fuel - 1, by omega⟩
    have hj : j < b := by omega
    have hgo : go c.i1 = true := by rw [hi, h.goes j (by omega)]; simpa using hj
    rw [Way.loop, if_pos hgo, hc (by omega), h.body_eq hm hj, Option.bind_eq_bind, Option.bind_some,
      ih (by omega) (by omega) ?_ fun hk => (h.turn j (by omega)).next, ← sweep_append,
      ← List.map_append, show 4 * (j + 1) = 4 * j + 1 * 4 from by
        ring, List.range'_append, show 4 + 4 * k = 4 * (k + 1) from by ring]
    -- each line moves the first index once, whatever its test does
    rw [hc (by omega)] at hi
    have h₀ := congrArg Cursor.i1 (h.first j hj).next
    have h₁ := congrArg Cursor.i1 (h.second j hj).next
    have h₂ := congrArg Cursor.i1 (h.third j hj).next
    simp only [Way.after_i1, Mix.cursor] at hi h₀ h₁ h₂ ⊢
    push_cast
    linarith

lemma Follows.rounds_eq (h : Follows w go start l₀ l₁ l₂ l₃ m b path) (hm : m.Inside (4 * b))
    (hb : 0 < b) (r : ℕ) : w.rounds (4 * b : ℕ) go start [l₀, l₁, l₂, l₃] r d =
      some ((sweep w.op m.value ((List.range (4 * b)).map path))^[r] d) := by
  have hround (d : Words) : w.loop (4 * b : ℕ) go [l₀, l₁, l₂, l₃] (4 * b : ℕ) (start, d) =
      some (sweep w.op m.value ((List.range (4 * b)).map path) d) := by
    rw [h.loop_eq hm (by omega : 0 + b = b) (by omega) (by simp) fun _ => h.begins, List.range_eq_range']
  unfold Way.rounds
  induction r generalizing d with
  | zero => rfl
  | succ r ih =>
    rw [List.range_succ, List.foldlM_append, ih, Function.iterate_succ_apply', Option.bind_eq_bind,
      Option.bind_some, List.foldlM_cons, Int.toNat_natCast, hround]
    rfl

end Loops

/-!
 ### the four loops

A test is needed only at the one word where an index passes the end of the array; there the body has
it.
-/

section Paths

variable {b n p : ℕ} {l : Line}

lemma mixA_up (hp : p + 1 < n) (hn : 8 ≤ n) (h2 : p = 1 → l.test = .i2) (h3 : p = 4 → l.test = .i3) :
    decrypting.after n l ((mixA n).cursor p) = (mixA n).cursor (p + 1) := by
  unfold Way.after
  cases ht : l.test <;> simp only [ht, reduceCtorEq, imp_false] at h2 h3 <;>
    simp only [decrypting, Mix.cursor, mixA, before, Cursor.mk.injEq] <;> split_ifs <;> omega

lemma mixA_down (hp : p + 1 < n) (hn : 8 ≤ n) (h2 : p = 1 → l.test = .i2) (h3 : p = 4 → l.test = .i3) :
    encrypting.after n l ((mixA n).cursor (p + 1)) = (mixA n).cursor p := by
  unfold Way.after
  cases ht : l.test <;> simp only [ht, reduceCtorEq, imp_false] at h2 h3 <;>
    simp only [encrypting, Mix.cursor, mixA, before, Cursor.mk.injEq] <;> split_ifs <;> omega

lemma mixB_up (hp : p + 1 < n) (hn : 8 ≤ n) (h2 : p + 3 = n → l.test = .i2)
    (h3 : p + 6 = n → l.test = .i3) :
    decrypting.after n l ((mixB n).cursor p) = (mixB n).cursor (p + 1) := by
  unfold Way.after
  cases ht : l.test <;> simp only [ht, reduceCtorEq, imp_false] at h2 h3 <;>
    simp only [decrypting, Mix.cursor, mixB, behind, Cursor.mk.injEq] <;> split_ifs <;> omega

lemma mixB_down (hp : p + 1 < n) (hn : 8 ≤ n) (h2 : p + 3 = n → l.test = .i2)
    (h3 : p + 6 = n → l.test = .i3) :
    encrypting.after n l ((mixB n).cursor (p + 1)) = (mixB n).cursor p := by
  unfold Way.after
  cases ht : l.test <;> simp only [ht, reduceCtorEq, imp_false] at h2 h3 <;>
    simp only [encrypting, Mix.cursor, mixB, behind, Cursor.mk.injEq] <;> split_ifs <;> omega

end Paths

section Inverse

variable {m : Mix} {start : Cursor} {l₀ l₁ l₂ l₃ : Line} {b : ℕ}

lemma follows_up (hs : start = m.cursor 0)
    (hrot : ∀ j, l₀.rot = m.rot (4 * j) ∧ l₁.rot = m.rot (4 * j + 1) ∧ l₂.rot = m.rot (4 * j + 2) ∧
      l₃.rot = m.rot (4 * j + 3))
    (hl : ∀ j < b, decrypting.after (4 * b : ℕ) l₀ (m.cursor (4 * j)) = m.cursor (4 * j + 1) ∧
      decrypting.after (4 * b : ℕ) l₁ (m.cursor (4 * j + 1)) = m.cursor (4 * j + 2) ∧
      decrypting.after (4 * b : ℕ) l₂ (m.cursor (4 * j + 2)) = m.cursor (4 * j + 3) ∧
      (j + 1 < b → decrypting.after (4 * b : ℕ) l₃ (m.cursor (4 * j + 3)) = m.cursor (4 * j + 4))) :
    Follows decrypting (· < ((4 * b : ℕ) : ℤ) - 1) start l₀ l₁ l₂ l₃ m b id where
  inside _ hi := hi
  begins := hs
  goes j hj := by
    rw [hs]
    simp only [decrypting, Mix.cursor]
    exact decide_eq_decide.2 (by omega)
  first j hj := ⟨(hrot j).1, (hl j hj).1⟩
  second j hj := ⟨(hrot j).2.1, (hl j hj).2.1⟩
  third j hj := ⟨(hrot j).2.2.1, (hl j hj).2.2.1⟩
  fourth j _ := (hrot j).2.2.2
  turn j hj := ⟨(hrot j).2.2.2, (hl j (by omega)).2.2.2 hj⟩

lemma follows_down (hb : 0 < b) (hs : start = m.cursor (4 * b - 1))
    (hrot : ∀ j, l₀.rot = m.rot (4 * j + 3) ∧ l₁.rot = m.rot (4 * j + 2) ∧ l₂.rot = m.rot (4 * j + 1) ∧
      l₃.rot = m.rot (4 * j))
    (hl : ∀ j < b, encrypting.after (4 * b : ℕ) l₀ (m.cursor (4 * j + 3)) = m.cursor (4 * j + 2) ∧
      encrypting.after (4 * b : ℕ) l₁ (m.cursor (4 * j + 2)) = m.cursor (4 * j + 1) ∧
      encrypting.after (4 * b : ℕ) l₂ (m.cursor (4 * j + 1)) = m.cursor (4 * j) ∧
      (j + 1 < b → encrypting.after (4 * b : ℕ) l₃ (m.cursor (4 * j + 4)) = m.cursor (4 * j + 3))) :
    Follows encrypting (0 < ·) start l₀ l₁ l₂ l₃ m b (fun i => 4 * b - 1 - i) := by
  -- turn `j` works on the words of group `b - 1 - j`
  have hword (j : ℕ) (hj : j < b) : 4 * b - 1 - 4 * j = 4 * (b - 1 - j) + 3 ∧
      4 * b - 1 - (4 * j + 1) = 4 * (b - 1 - j) + 2 ∧ 4 * b - 1 - (4 * j + 2) = 4 * (b - 1 - j) + 1 ∧
      4 * b - 1 - (4 * j + 3) = 4 * (b - 1 - j) := by omega
  refine ⟨fun i hi => by
    omega, hs, fun j hj => ?_, fun j hj => ?_, fun j hj => ?_, fun j hj => ?_, fun j hj => ?_,
    fun j hj => ?_⟩
  · rw [hs]
    simp only [encrypting, Mix.cursor]
    exact decide_eq_decide.2 (by omega)
  · obtain ⟨h0, h1, -, -⟩ := hword j hj
    rw [h0, h1]
    exact ⟨(hrot _).1, (hl _ (by omega)).1⟩
  · obtain ⟨-, h1, h2, -⟩ := hword j hj
    rw [h1, h2]
    exact ⟨(hrot _).2.1, (hl _ (by omega)).2.1⟩
  · obtain ⟨-, -, h2, h3⟩ := hword j hj
    rw [h2, h3]
    exact ⟨(hrot _).2.2.1, (hl _ (by omega)).2.2.1⟩
  · rw [(hword j hj).2.2.2]
    exact (hrot _).2.2.2
  · rw [(hword j (by omega)).2.2.2, (hword (j + 1) hj).1,
      show b - 1 - j = b - 1 - (j + 1) + 1 from by omega]
    exact ⟨(hrot _).2.2.2, (hl _ (by omega)).2.2.2 (by omega)⟩

lemma map_reverse_path (n : ℕ) : (List.range n).map (fun i => n - 1 - i) = (List.range n).reverse := by
  conv_rhs => rw [List.range_eq_range', List.reverse_range']
  simp

variable (d : Words)

lemma diffuserADecrypt_eq (hb : 2 ≤ b) : diffuserADecrypt d (4 * b : ℕ) =
    some ((sweep (· + ·) (mixA (4 * b)).value (List.range (4 * b)))^[5] d) := by
  have h : Follows decrypting (· < ((4 * b : ℕ) : ℤ) - 1) ⟨0, (4 * b : ℕ) - 2, (4 * b : ℕ) - 5⟩
      ⟨(ROL · 9), .i3⟩ ⟨id, .i2⟩ ⟨(ROL · 13), .none⟩ ⟨id, .none⟩ (mixA (4 * b)) b id := by
    refine follows_up ?_ (fun j => by simp [mixA]) fun j hj => ⟨?_, ?_, ?_, fun hj => ?_⟩
    · simp only [Mix.cursor, mixA, before, Cursor.mk.injEq]
      split_ifs <;> omega
    · exact mixA_up (by omega) (by omega) (by omega) fun _ => rfl
    · exact mixA_up (by omega) (by omega) (fun _ => rfl) (by omega)
    · exact mixA_up (by omega) (by omega) (by omega) (by omega)
    · exact mixA_up (by omega) (by omega) (by omega) (by omega)
  have hr := h.rounds_eq (d := d) (mixA_inside (by omega)) (by omega) 5
  rwa [List.map_id] at hr

lemma diffuserAEncrypt_eq (hb : 2 ≤ b) : diffuserAEncrypt d (4 * b : ℕ) =
    some ((sweep (· - ·) (mixA (4 * b)).value (List.range (4 * b)).reverse)^[5] d) := by
  have h : Follows encrypting (0 < ·) ⟨(4 * b : ℕ) - 1, (4 * b : ℕ) - 2 - 1, (4 * b : ℕ) - 5 - 1⟩
      ⟨id, .none⟩ ⟨(ROL · 13), .i2⟩ ⟨id, .i3⟩ ⟨(ROL · 9), .none⟩ (mixA (4 * b)) b
          (fun i => 4 * b - 1 - i) := by
    refine follows_down (by omega) ?_ (fun j => by simp [mixA]) fun j hj => ⟨?_, ?_, ?_, fun hj => ?_⟩
    · simp only [Mix.cursor, mixA, before, Cursor.mk.injEq]
      split_ifs <;> omega
    · exact mixA_down (by omega) (by omega) (by omega) (by omega)
    · exact mixA_down (by omega) (by omega) (fun _ => rfl) (by omega)
    · exact mixA_down (by omega) (by omega) (by omega) fun _ => rfl
    · exact mixA_down (by omega) (by omega) (by omega) (by omega)
  have hr := h.rounds_eq (d := d) (mixA_inside (by omega)) (by omega) 5
  rwa [map_reverse_path] at hr

lemma diffuserBDecrypt_eq (hb : 2 ≤ b) : diffuserBDecrypt d (4 * b : ℕ) =
    some ((sweep (· + ·) (mixB (4 * b)).value (List.range (4 * b)))^[3] d) := by
  have h : Follows decrypting (· < ((4 * b : ℕ) : ℤ) - 1) ⟨0, 2, 5⟩
      ⟨id, .none⟩ ⟨(ROL · 10), .i2⟩ ⟨id, .i3⟩ ⟨(ROL · 25), .none⟩ (mixB (4 * b)) b id := by
    refine follows_up ?_ (fun j => by simp [mixB]) fun j hj => ⟨?_, ?_, ?_, fun hj => ?_⟩
    · simp only [Mix.cursor, mixB, behind, Cursor.mk.injEq]
      split_ifs <;> omega
    · exact mixB_up (by omega) (by omega) (by omega) (by omega)
    · exact mixB_up (by omega) (by omega) (fun _ => rfl) (by omega)
    · exact mixB_up (by omega) (by omega) (by omega) fun _ => rfl
    · exact mixB_up (by omega) (by omega) (by omega) (by omega)
  have hr := h.rounds_eq (d := d) (mixB_inside (by omega)) (by omega) 3
  rwa [List.map_id] at hr

lemma diffuserBEncrypt_eq (hb : 2 ≤ b) : diffuserBEncrypt d (4 * b : ℕ) =
    some ((sweep (· - ·) (mixB (4 * b)).value (List.range (4 * b)).reverse)^[3] d) := by
  have h : Follows encrypting (0 < ·) ⟨(4 * b : ℕ) - 1, 2 - 1, 5 - 1⟩
      ⟨(ROL · 25), .i3⟩ ⟨id, .i2⟩ ⟨(ROL · 10), .none⟩ ⟨id, .none⟩ (mixB (4 * b)) b
          (fun i => 4 * b - 1 - i) := by
    refine follows_down (by omega) ?_ (fun j => by simp [mixB]) fun j hj => ⟨?_, ?_, ?_, fun hj => ?_⟩
    · simp only [Mix.cursor, mixB, behind, Cursor.mk.injEq]
      split_ifs <;> omega
    · exact mixB_down (by omega) (by omega) (by omega) fun _ => rfl
    · exact mixB_down (by omega) (by omega) (fun _ => rfl) (by omega)
    · exact mixB_down (by omega) (by omega) (by omega) (by omega)
    · exact mixB_down (by omega) (by omega) (by omega) (by omega)
  have hr := h.rounds_eq (d := d) (mixB_inside (by omega)) (by omega) 3
  rwa [map_reverse_path] at hr

lemma sweeps_inverse {n : ℕ} (h : m.Inside n) (r : ℕ) :
    Function.LeftInverse (sweep (· - ·) m.value (List.range n).reverse)^[r]
      (sweep (· + ·) m.value (List.range n))^[r] ∧
    Function.RightInverse (sweep (· - ·) m.value (List.range n).reverse)^[r]
      (sweep (· + ·) m.value (List.range n))^[r] := by
  have hblind (p : ℕ) (hp : p ∈ List.range n) : Blind m.value p := h.blind (List.mem_range.1 hp)
  constructor
  · exact Function.LeftInverse.iterate
      (fun d => sweep_reverse (fun x y => UInt32.add_sub_cancel x y) hblind d) r
  · refine Function.LeftInverse.iterate (fun d => ?_) r
    have hdown (p : ℕ) (hp : p ∈ (List.range n).reverse) : Blind m.value p :=
      hblind p (List.mem_reverse.1 hp)
    have hback := sweep_reverse (fun x y => UInt32.sub_add_cancel x y) hdown d
    rwa [List.reverse_reverse] at hback

lemma sweeps_outside {op : UInt32 → UInt32 → UInt32} {ps : List ℕ} {q : ℕ} (hq : q ∉ ps) (r : ℕ) :
    (sweep op m.value ps)^[r] d q = d q := by
  induction r with
  | zero => rfl
  | succ r ih => rw [Function.iterate_succ_apply', sweep_outside hq, ih]

/-- **The loops of diffuser A undo each other**, and no access is outside the array. -/
theorem diffuserA_inverse (hb : 2 ≤ b) :
    (diffuserAEncrypt d (4 * b : ℕ)).bind (diffuserADecrypt · (4 * b : ℕ)) = some d ∧
    (diffuserADecrypt d (4 * b : ℕ)).bind (diffuserAEncrypt · (4 * b : ℕ)) = some d := by
  obtain ⟨hl, hr⟩ := sweeps_inverse (mixA_inside (n := 4 * b) (by omega)) 5
  constructor
  · rw [diffuserAEncrypt_eq d hb, Option.bind_some, diffuserADecrypt_eq _ hb, hr d]
  · rw [diffuserADecrypt_eq d hb, Option.bind_some, diffuserAEncrypt_eq _ hb, hl d]

/-- **The loops of diffuser B undo each other**, and no access is outside the array. -/
theorem diffuserB_inverse (hb : 2 ≤ b) :
    (diffuserBEncrypt d (4 * b : ℕ)).bind (diffuserBDecrypt · (4 * b : ℕ)) = some d ∧
    (diffuserBDecrypt d (4 * b : ℕ)).bind (diffuserBEncrypt · (4 * b : ℕ)) = some d := by
  obtain ⟨hl, hr⟩ := sweeps_inverse (mixB_inside (n := 4 * b) (by omega)) 3
  constructor
  · rw [diffuserBEncrypt_eq d hb, Option.bind_some, diffuserBDecrypt_eq _ hb, hr d]
  · rw [diffuserBDecrypt_eq d hb, Option.bind_some, diffuserBEncrypt_eq _ hb, hl d]

lemma diffusers_undone (hb : 2 ≤ b) :
    ∃ dA dB, diffuserAEncrypt d (4 * b : ℕ) = some dA ∧ diffuserBEncrypt dA (4 * b : ℕ) = some dB ∧
      diffuserBDecrypt dB (4 * b : ℕ) = some dA ∧ diffuserADecrypt dA (4 * b : ℕ) = some d ∧
      ∀ q, 4 * b ≤ q → dB q = d q := by
  obtain ⟨dA, hA, hA'⟩ := Option.bind_eq_some_iff.1 (diffuserA_inverse d hb).1
  obtain ⟨dB, hB, hB'⟩ := Option.bind_eq_some_iff.1 (diffuserB_inverse dA hb).1
  refine ⟨dA, dB, hA, hB, hB', hA', fun q hq => ?_⟩
  rw [diffuserAEncrypt_eq d hb, Option.some.injEq] at hA
  rw [diffuserBEncrypt_eq dA hb, Option.some.injEq] at hB
  have hout : q ∉ (List.range (4 * b)).reverse := by simpa using hq
  rw [← hB, sweeps_outside dA hout, ← hA, sweeps_outside d hout]

end Inverse

end OtgMaster.Bitlocker
