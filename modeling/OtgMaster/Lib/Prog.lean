import Mathlib.Data.List.Basic
import Mathlib.Logic.Basic

/-!
Programs that read and change a state and may end in an exception, the state being kept when they
do (`EStateM`), and the weakest precondition of such a program.

`wp m Q E s` says: run from `s`, the program `m` either returns a value and a state with `Q`, or
throws with an exception and a state with `E`. The rules below push `wp` through the program
text (`wp_bind`, `wp_ite`, …) and through loops (`wp_forM`, `wp_foldlM`), where the invariant is
indexed by the part of the list already done.
-/

namespace OtgMaster.Lib

variable {ε σ α β : Type}

/-- The weakest precondition of `m` for the two ways it can end. -/
def wp (m : EStateM ε σ α) (Q : α → σ → Prop) (E : ε → σ → Prop) (s : σ) : Prop :=
  match m s with
  | .ok a s' => Q a s'
  | .error e s' => E e s'

section Rules

variable {m : EStateM ε σ α} {Q Q' : α → σ → Prop} {E E' : ε → σ → Prop} {s : σ}

lemma wp_of_ok {a : α} {s' : σ} (h : m s = .ok a s') : wp m Q E s ↔ Q a s' := by
  simp [wp, h]

lemma wp_of_error {e : ε} {s' : σ} (h : m s = .error e s') : wp m Q E s ↔ E e s' := by
  simp [wp, h]

lemma wp_mono (h : wp m Q E s) (hQ : ∀ a s', Q a s' → Q' a s') (hE : ∀ e s', E e s' → E' e s') :
    wp m Q' E' s := by
  unfold wp at *
  split at h
  · exact hQ _ _ h
  · exact hE _ _ h

lemma wp_ok {a : α} {s' : σ} (h : wp m Q E s) (hr : m s = .ok a s') : Q a s' :=
  (wp_of_ok hr).1 h

lemma wp_error {e : ε} {s' : σ} (h : wp m Q E s) (hr : m s = .error e s') : E e s' :=
  (wp_of_error hr).1 h

@[simp] lemma wp_pure (a : α) : wp (pure a) Q E s ↔ Q a s := Iff.rfl

@[simp] lemma wp_throw (e : ε) : wp (throw e) Q E s ↔ E e s := Iff.rfl

@[simp] lemma wp_bind (f : α → EStateM ε σ β) (Q : β → σ → Prop) :
    wp (m >>= f) Q E s ↔ wp m (fun a s' => wp (f a) Q E s') E s := by
  show (match EStateM.bind m f s with | .ok a s' => Q a s' | .error e s' => E e s') ↔ _
  unfold EStateM.bind wp
  cases m s <;> rfl

@[simp] lemma wp_map (f : α → β) (Q : β → σ → Prop) :
    wp (f <$> m) Q E s ↔ wp m (fun a s' => Q (f a) s') E s := by
  show (match EStateM.map f m s with | .ok a s' => Q a s' | .error e s' => E e s') ↔ _
  unfold EStateM.map wp
  cases m s <;> rfl

@[simp] lemma wp_get (Q : σ → σ → Prop) : wp get Q E s ↔ Q s s := Iff.rfl

@[simp] lemma wp_set (t : σ) (Q : PUnit → σ → Prop) : wp (set t) Q E s ↔ Q ⟨⟩ t := Iff.rfl

@[simp] lemma wp_modify (f : σ → σ) (Q : PUnit → σ → Prop) :
    wp (modify f) Q E s ↔ Q ⟨⟩ (f s) := Iff.rfl

@[simp] lemma wp_modifyGet (f : σ → α × σ) : wp (modifyGet f) Q E s ↔ Q (f s).1 (f s).2 := Iff.rfl

/-- A handler runs in the state that the exception has left. -/
@[simp] lemma wp_tryCatch (h : ε → EStateM ε σ α) :
    wp (tryCatch m h) Q E s ↔ wp m Q (fun e s' => wp (h e) Q E s') s := by
  show (match EStateM.tryCatch m h s with | .ok a s' => Q a s' | .error e s' => E e s') ↔ _
  unfold EStateM.tryCatch wp
  cases m s <;> rfl

lemma wp_ite {p : Prop} [Decidable p] {m' : EStateM ε σ α} :
    wp (if p then m else m') Q E s ↔ (p → wp m Q E s) ∧ (¬p → wp m' Q E s) := by
  by_cases h : p <;> simp [h]

end Rules

/-! ### Throwing on a condition -/

def throwIf (c : Prop) [Decidable c] (e : ε) : EStateM ε σ PUnit := if c then throw e else pure ⟨⟩

section ThrowIf

variable {c : Prop} [Decidable c] {e : ε} {s s' : σ}

@[simp] lemma wp_throwIf {Q : PUnit → σ → Prop} {E : ε → σ → Prop} :
    wp (throwIf c e) Q E s ↔ (c → E e s) ∧ (¬c → Q ⟨⟩ s) := by
  unfold throwIf
  rw [wp_ite]; rfl

lemma throwIf_ok {u : PUnit} (h : throwIf c e s = .ok u s') : ¬c ∧ s' = s := by
  unfold throwIf at h
  split at h
  · cases h
  · cases h; exact ⟨‹_›, rfl⟩

end ThrowIf

lemma bind_ok {m : EStateM ε σ α} {f : α → EStateM ε σ β} {s s' : σ} {b : β}
    (h : (m >>= f) s = .ok b s') : ∃ a t, m s = .ok a t ∧ f a t = .ok b s' := by
  have run : (m >>= f) s = match m s with
      | .ok a u' => f a u'
      | .error e u' => .error e u' := rfl
  rw [run] at h
  cases hm : m s with
  | ok a t => rw [hm] at h; exact ⟨a, t, rfl, h⟩
  | error e t => rw [hm] at h; cases h

lemma throwIf_bind_ok {c : Prop} [Decidable c] {e : ε} {f : PUnit → EStateM ε σ β} {s s' : σ} {b : β}
    (h : (throwIf c e >>= f) s = .ok b s') : ¬c ∧ f ⟨⟩ s = .ok b s' := by
  obtain ⟨_, t, h1, h2⟩ := bind_ok h
  obtain ⟨hc, rfl⟩ := throwIf_ok h1
  exact ⟨hc, h2⟩

lemma bind_run {m : EStateM ε σ α} {f : α → EStateM ε σ β} {s t : σ} {a : α}
    (h : m s = .ok a t) : (m >>= f) s = f a t := by
  show (match m s with | .ok a u => f a u | .error e u => .error e u) = _
  rw [h]

lemma get_bind_run {f : σ → EStateM ε σ β} {s : σ} : ((get : EStateM ε σ σ) >>= f) s = f s s := rfl

lemma bind_error {m : EStateM ε σ α} {f : α → EStateM ε σ β} {s t : σ} {e : ε}
    (h : m s = .error e t) : (m >>= f) s = .error e t := by
  show (match m s with | .ok a u => f a u | .error e u => .error e u) = _
  rw [h]

lemma throwIf_bind_error {c : Prop} [Decidable c] {e : ε} {f : PUnit → EStateM ε σ β} {s : σ} (h : c) :
    (throwIf c e >>= f) s = .error e s := by
  rw [throwIf, if_pos h]
  rfl

lemma throwIf_bind_run {c : Prop} [Decidable c] {e : ε} {f : PUnit → EStateM ε σ β} {s : σ}
    (h : ¬c) : (throwIf c e >>= f) s = f ⟨⟩ s :=
  bind_run (by rw [throwIf, if_neg h]; rfl)

/-! ### Runs that return -/

section Returns

variable {m : EStateM ε σ α} {f : α → EStateM ε σ β} {s s' : σ} {b : β}

lemma bind_ok_iff : (m >>= f) s = .ok b s' ↔ ∃ a t, m s = .ok a t ∧ f a t = .ok b s' := by
  refine ⟨bind_ok, ?_⟩
  rintro ⟨a, t, hm, hf⟩
  rw [bind_run hm, hf]

lemma throwIf_ok_iff {c : Prop} [Decidable c] {e : ε} {u : PUnit} :
    (throwIf c e : EStateM ε σ PUnit) s = .ok u s' ↔ ¬c ∧ s' = s := by
  refine ⟨throwIf_ok, ?_⟩
  rintro ⟨hc, rfl⟩
  rw [throwIf, if_neg hc]
  rfl

lemma get_ok_iff {t : σ} : (get : EStateM ε σ σ) s = .ok t s' ↔ t = s ∧ s' = s := by
  constructor
  · intro h
    cases h
    exact ⟨rfl, rfl⟩
  · rintro ⟨rfl, rfl⟩
    rfl

lemma modify_ok_iff {g : σ → σ} {u : PUnit} :
    (modify g : EStateM ε σ PUnit) s = .ok u s' ↔ s' = g s := by
  constructor
  · intro h
    cases h
    rfl
  · rintro rfl
    rfl

lemma pure_ok_iff {a c : α} : (pure a : EStateM ε σ α) s = .ok c s' ↔ c = a ∧ s' = s := by
  constructor
  · intro h
    cases h
    exact ⟨rfl, rfl⟩
  · rintro ⟨rfl, rfl⟩
    rfl

end Returns

/-! ### Programs without a state -/

section Except

variable {x : Except ε α} {f : α → Except ε β} {a : α} {b : β}

lemma except_bind_ok (h : (x >>= f) = .ok b) : ∃ a, x = .ok a ∧ f a = .ok b := by
  cases x with
  | error e => cases h
  | ok a => exact ⟨a, rfl, h⟩

lemma except_bind_run (h : x = .ok a) : (x >>= f) = f a := by
  rw [h]
  rfl

/-- A program without a state, run where there is one. -/
instance liftExcept : MonadLift (Except ε) (EStateM ε σ) where
  monadLift x s := match x with
    | .ok a => .ok a s
    | .error e => .error e s

lemma lift_bind_ok {g : α → EStateM ε σ β} {s s' : σ}
    (h : ((liftM x : EStateM ε σ α) >>= g) s = .ok b s') : ∃ a, x = .ok a ∧ g a s = .ok b s' := by
  cases x with
  | error e => cases h
  | ok a => exact ⟨a, rfl, h⟩

lemma lift_bind_run {g : α → EStateM ε σ β} {s : σ} (h : x = .ok a) :
    ((liftM x : EStateM ε σ α) >>= g) s = g a s := by
  rw [h]
  rfl

lemma lift_ok_iff {s s' : σ} : (liftM x : EStateM ε σ α) s = .ok a s' ↔ x = .ok a ∧ s' = s := by
  cases x with
  | error e => exact ⟨nofun, fun h => nomatch h.1⟩
  | ok b =>
    constructor
    · intro h
      cases h
      exact ⟨rfl, rfl⟩
    · rintro ⟨h, rfl⟩
      cases h
      rfl

lemma wp_lift {Q : α → σ → Prop} {E : ε → σ → Prop} {s : σ} :
    wp (liftM x : EStateM ε σ α) Q E s ↔ (∀ a, x = .ok a → Q a s) ∧ ∀ e, x = .error e → E e s := by
  cases x <;> simp [wp, liftM, monadLift, MonadLift.monadLift]

def failIf (c : Prop) [Decidable c] (e : ε) : Except ε PUnit := if c then throw e else pure ⟨⟩

variable {c : Prop} [Decidable c] {e : ε} {g : PUnit → Except ε β}

lemma failIf_ok {u : PUnit} (h : failIf c e = .ok u) : ¬c := by
  unfold failIf at h
  split at h
  · cases h
  · assumption

lemma failIf_run (h : ¬c) : failIf c e = .ok ⟨⟩ := if_neg h

lemma failIf_bind_ok (h : (failIf c e >>= g) = .ok b) : ¬c ∧ g ⟨⟩ = .ok b := by
  obtain ⟨_, h1, h2⟩ := except_bind_ok h
  exact ⟨failIf_ok h1, h2⟩

lemma failIf_bind_run (h : ¬c) : (failIf c e >>= g) = g ⟨⟩ := except_bind_run (failIf_run h)

lemma failIf_error {e' : ε} (h : failIf c e = .error e') : e' = e := by
  unfold failIf at h
  split at h
  · cases h; rfl
  · cases h

lemma failIf_bind_error {e' : ε} (h : (failIf c e >>= g) = .error e') : e' = e ∨ g ⟨⟩ = .error e' := by
  by_cases hc : c
  · rw [failIf, if_pos hc] at h
    cases h
    exact .inl rfl
  · rw [failIf_bind_run hc] at h
    exact .inr h

lemma except_mapM_mem {l : List α} {bs : List β} (h : l.mapM f = .ok bs) :
    ∀ b ∈ bs, ∃ a ∈ l, f a = .ok b := by
  induction l generalizing bs with
  | nil =>
    cases h
    exact fun _ hb => nomatch hb
  | cons a l ih =>
    rw [List.mapM_cons] at h
    obtain ⟨b, hb, h⟩ := except_bind_ok h
    obtain ⟨bs', hbs, h⟩ := except_bind_ok h
    cases h
    intro c hc
    rcases List.mem_cons.1 hc with rfl | hc
    · exact ⟨a, List.mem_cons_self .., hb⟩
    · obtain ⟨a', ha', hf⟩ := ih hbs c hc
      exact ⟨a', List.mem_cons_of_mem _ ha', hf⟩

end Except

/-- Run `m` and test what it returns; for programs on given states. -/
def returns (m : EStateM ε σ α) (s : σ) (P : α → σ → Bool) : Bool :=
  match m s with
  | .ok a s' => P a s'
  | .error _ _ => false

lemma returns_ok {m : EStateM ε σ α} {s : σ} {P : α → σ → Bool} (h : returns m s P = true) :
    ∃ a s', m s = .ok a s' ∧ P a s' = true := by
  unfold returns at h
  split at h
  · exact ⟨_, _, ‹_›, h⟩
  · cases h

/-- Where `m` returns, `m'` does the same. -/
def Extends (m m' : EStateM ε σ α) : Prop := ∀ s a s', m s = .ok a s' → m' s = .ok a s'

section Extends

variable {m m' : EStateM ε σ α} {f f' : α → EStateM ε σ β}

lemma Extends.refl (m : EStateM ε σ α) : Extends m m := fun _ _ _ h => h

lemma Extends.bind (h : Extends m m') (hf : ∀ a, Extends (f a) (f' a)) :
    Extends (m >>= f) (m' >>= f') := by
  intro s b s' hr
  obtain ⟨a, t, hm, hrest⟩ := bind_ok hr
  rw [bind_run (h _ _ _ hm)]
  exact hf a _ _ _ hrest

lemma Extends.ite {p : Prop} [Decidable p] {n n' : EStateM ε σ α} (h : Extends m m')
    (hn : Extends n n') : Extends (if p then m else n) (if p then m' else n') := by
  split
  · exact h
  · exact hn

end Extends

/-! ### The exceptions a program can end in -/

/-- Whatever exception `m` ends in, from any state, has `P`. -/
structure Throws (P : ε → Prop) (m : EStateM ε σ α) : Prop where
  thrown : ∀ s e s', m s = .error e s' → P e

section Throws

variable {P : ε → Prop} {m m' : EStateM ε σ α} {f : α → EStateM ε σ β}

lemma Throws.pure (a : α) : Throws P (pure a : EStateM ε σ α) := ⟨fun _ _ _ h => nomatch h⟩

lemma Throws.throw {e : ε} (he : P e) : Throws P (throw e : EStateM ε σ α) := by
  constructor
  intro s e' s' h
  cases h
  exact he

lemma Throws.bind (hm : Throws P m) (hf : ∀ a, Throws P (f a)) : Throws P (m >>= f) := by
  constructor
  intro s e s' h
  cases hr : m s with
  | ok a t => rw [bind_run hr] at h; exact (hf a).thrown t e s' h
  | error e' t => rw [bind_error hr] at h; cases h; exact hm.thrown s e s' hr

lemma Throws.ite {p : Prop} [Decidable p] (hm : p → Throws P m) (hm' : ¬p → Throws P m') :
    Throws P (if p then m else m') := by
  split
  · exact hm ‹_›
  · exact hm' ‹_›

lemma Throws.throwIf {c : Prop} [Decidable c] {e : ε} (he : P e) :
    Throws P (throwIf c e : EStateM ε σ PUnit) := .ite (fun _ => .throw he) fun _ => .pure _

lemma Throws.modify {g : σ → σ} : Throws P (modify g : EStateM ε σ PUnit) := ⟨fun _ _ _ h => nomatch h⟩

end Throws

/-! ### Programs that only read -/

/-- `m` only reads, and it reads the same from `s` and from `t`. -/
def ReadsAlike (m : EStateM ε σ α) (s t : σ) : Prop :=
  (∃ a, m s = .ok a s ∧ m t = .ok a t) ∨ ∃ e, m s = .error e s ∧ m t = .error e t

section ReadsAlike

variable {m : EStateM ε σ α} {s t : σ}

lemma ReadsAlike.pure (a : α) : ReadsAlike (pure a : EStateM ε σ α) s t := Or.inl ⟨a, rfl, rfl⟩

lemma ReadsAlike.throw (e : ε) : ReadsAlike (throw e : EStateM ε σ α) s t := Or.inr ⟨e, rfl, rfl⟩

lemma ReadsAlike.bind {f : α → EStateM ε σ β} (hm : ReadsAlike m s t)
    (hf : ∀ a, m s = .ok a s → ReadsAlike (f a) s t) : ReadsAlike (m >>= f) s t := by
  have run : ∀ u, (m >>= f) u = match m u with
      | .ok a u' => f a u'
      | .error e u' => .error e u' := fun u => rfl
  rcases hm with ⟨a, ha, hb⟩ | ⟨e, ha, hb⟩
  · rcases hf a ha with ⟨c, hc, hd⟩ | ⟨e, hc, hd⟩
    · exact Or.inl ⟨c, by rw [run, ha]; exact hc, by rw [run, hb]; exact hd⟩
    · exact Or.inr ⟨e, by rw [run, ha]; exact hc, by rw [run, hb]; exact hd⟩
  · exact Or.inr ⟨e, by rw [run, ha], by rw [run, hb]⟩

lemma ReadsAlike.ite {p : Prop} [Decidable p] {m' : EStateM ε σ α} (h : p → ReadsAlike m s t)
    (h' : ¬p → ReadsAlike m' s t) : ReadsAlike (if p then m else m') s t := by
  by_cases hp : p
  · simpa [hp] using h hp
  · simpa [hp] using h' hp

lemma ReadsAlike.throwIf {c : Prop} [Decidable c] {e : ε} :
    ReadsAlike (throwIf c e : EStateM ε σ PUnit) s t :=
  .ite (fun _ => .throw _) fun _ => .pure _

lemma ReadsAlike.ok {a : α} {s' : σ} (h : ReadsAlike m s t) (hr : m s = .ok a s') :
    s' = s ∧ m t = .ok a t := by
  rcases h with ⟨b, hb, hb'⟩ | ⟨e, he, -⟩
  · rw [hr] at hb
    cases hb
    exact ⟨rfl, hb'⟩
  · rw [hr] at he; cases he

lemma ReadsAlike.bind_ok {f : α → EStateM ε σ β} {s' : σ} {b : β} (hm : ReadsAlike m s t)
    (h : (m >>= f) s = .ok b s') : ∃ a, m s = .ok a s ∧ m t = .ok a t ∧ f a s = .ok b s' := by
  obtain ⟨a, s1, h1, h2⟩ := Lib.bind_ok h
  obtain ⟨rfl, h1'⟩ := hm.ok h1
  exact ⟨a, h1, h1', h2⟩

lemma ReadsAlike.foldlM {f : β → α → EStateM ε σ β} :
    ∀ (xs : List α) (b : β), (∀ b, ∀ x ∈ xs, ReadsAlike (f b x) s t) →
      ReadsAlike (xs.foldlM f b) s t := by
  intro xs
  induction xs with
  | nil => intro b _; exact .pure _
  | cons x xs ih =>
    intro b h
    rw [List.foldlM_cons]
    refine .bind (h b x (List.mem_cons_self ..)) fun b' _ => ?_
    exact ih b' fun c y hy => h c y (List.mem_cons_of_mem _ hy)

end ReadsAlike

/-! ### Loops -/

section Loops

lemma wp_forM_cons {f : α → EStateM ε σ PUnit} {Q : PUnit → σ → Prop} {E : ε → σ → Prop} {x : α}
    {xs : List α} {s : σ} :
    wp ((x :: xs).forM f) Q E s ↔ wp (f x) (fun _ s' => wp (xs.forM f) Q E s') E s := by
  rw [List.forM, wp_bind]

/-- **A loop over a list.** An invariant indexed by the elements already done and those left. -/
lemma wp_forM {f : α → EStateM ε σ PUnit} {E : ε → σ → Prop} (I : List α → List α → σ → Prop)
    (step : ∀ pre x post s, I pre (x :: post) s → wp (f x) (fun _ s' => I (pre ++ [x]) post s') E s) :
    ∀ (xs pre : List α) (s : σ), I pre xs s →
      wp (xs.forM f) (fun _ s' => I (pre ++ xs) [] s') E s := by
  intro xs
  induction xs with
  | nil => intro pre s h; simpa [List.forM] using h
  | cons x xs ih =>
    intro pre s h
    rw [wp_forM_cons]
    refine wp_mono (step pre x xs s h) (fun _ s' h' => ?_) (fun _ _ h => h)
    have := ih (pre ++ [x]) s' h'
    simpa using this

lemma wp_foldlM {f : β → α → EStateM ε σ β} {E : ε → σ → Prop}
    (I : List α → List α → β → σ → Prop)
    (step : ∀ pre x post b s, I pre (x :: post) b s →
      wp (f b x) (fun b' s' => I (pre ++ [x]) post b' s') E s) :
    ∀ (xs pre : List α) (b : β) (s : σ), I pre xs b s →
      wp (xs.foldlM f b) (fun b' s' => I (pre ++ xs) [] b' s') E s := by
  intro xs
  induction xs with
  | nil => intro pre b s h; simpa using h
  | cons x xs ih =>
    intro pre b s h
    simp only [List.foldlM_cons, wp_bind]
    refine wp_mono (step pre x xs b s h) (fun b' s' h' => ?_) (fun _ _ h => h)
    have := ih (pre ++ [x]) b' s' h'
    simpa using this

end Loops

end OtgMaster.Lib
