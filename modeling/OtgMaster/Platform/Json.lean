import OtgMaster.Block.Drive

/-!
Texts on the platform: UTF-8 and `org.json`. What the library makes of a text is a parameter
(`Texts.parseJson`), and so is what its getters make of a value of another kind than the one they
are asked for. The getters themselves are below.
-/

namespace OtgMaster.Platform

open Lib Block

/-- A JSON value: `other` stands for the booleans and the floating-point numbers. -/
inductive Json where
  | null
  | str (s : List Char)
  | int (n : ℤ)
  | other (n : ℕ)
  | arr (items : List Json)
  | obj (fields : List (String × Json))

abbrev Fields := List (String × Json)

structure Texts where
  utf8Encode : List Char → List UInt8
  utf8Decode : List UInt8 → List Char
  /-- `JSONObject(text)`; `none` if it throws. -/
  parseJson : List Char → Option Fields
  /-- `JSONObject.toString()`. -/
  renderJson : Fields → List Char
  /-- `JSONObject.toString(1)`. -/
  renderIndented : Fields → List Char
  /-- `getString` of a value that is not a string, and `getInt` or `getLong` of one that is not an
  integer. -/
  coerceString : Json → Option (List Char)
  coerceInt : Json → Option ℤ

section Getters

variable (texts : Texts)

def noValue (name : String) : Thrown := ⟨.json, s!"No value for {name}"⟩

def typeMismatch (name : String) : Thrown := ⟨.json, s!"Value at {name} cannot be converted"⟩

def getJSONObject (o : Fields) (name : String) : E Fields :=
  match o.lookup name with
  | some (.obj fields) => pure fields
  | some _ => throw (typeMismatch name)
  | none => throw (noValue name)

def getString (o : Fields) (name : String) : E (List Char) :=
  match o.lookup name with
  | some (.str s) => pure s
  | some v => orThrow (texts.coerceString v) (typeMismatch name)
  | none => throw (noValue name)

def getInt (o : Fields) (name : String) : E ℤ :=
  match o.lookup name with
  | some (.int n) => pure (i32 n)
  | some v => orThrow ((texts.coerceInt v).map i32) (typeMismatch name)
  | none => throw (noValue name)

def optInt (o : Fields) (name : String) (fallback : ℤ) : ℤ :=
  match o.lookup name with
  | some (.int n) => i32 n
  | some v => ((texts.coerceInt v).map i32).getD fallback
  | none => fallback

def optString (o : Fields) (name : String) (fallback : List Char) : List Char :=
  match o.lookup name with
  | some (.str s) => s
  | some v => (texts.coerceString v).getD fallback
  | none => fallback

def getLong (o : Fields) (name : String) : E ℤ :=
  match o.lookup name with
  | some (.int n) => pure (i64 n)
  | some v => orThrow (texts.coerceInt v) (typeMismatch name)
  | none => throw (noValue name)

def optLong (o : Fields) (name : String) : ℤ :=
  match o.lookup name with
  | some (.int n) => i64 n
  | some v => (texts.coerceInt v).getD 0
  | none => 0

def optJSONObject (o : Fields) (name : String) : Option Fields :=
  match o.lookup name with
  | some (.obj fields) => some fields
  | _ => none

def getJSONArray (o : Fields) (name : String) : E (List Json) :=
  match o.lookup name with
  | some (.arr items) => pure items
  | some _ => throw (typeMismatch name)
  | none => throw (noValue name)

def optJSONArray (o : Fields) (name : String) : Option (List Json) :=
  match o.lookup name with
  | some (.arr items) => some items
  | _ => none

/-- `has(name) && !isNull(name)`, and then `getString`. -/
def optStringOrNull (o : Fields) (name : String) : E (Option (List Char)) :=
  match o.lookup name with
  | none | some .null => pure none
  | some _ => some <$> getString texts o name

/-- `getJSONObject(i)` of an array. -/
def itemObject : Json → E Fields
  | .obj fields => pure fields
  | _ => throw (typeMismatch "array")

/-- `getString(i)` of an array, and `getString` of a key that is there. -/
def itemString : Json → E (List Char)
  | .str s => pure s
  | v => orThrow (texts.coerceString v) (typeMismatch "array")

end Getters

section Specs

variable {texts : Texts} {o fields : Fields} {name : String} {s : List Char} {n : ℤ}

lemma getJSONObject_run (h : o.lookup name = some (.obj fields)) :
    getJSONObject o name = .ok fields := by
  rw [getJSONObject, h]
  rfl

lemma getString_run (h : o.lookup name = some (.str s)) : getString texts o name = .ok s := by
  rw [getString, h]
  rfl

lemma getInt_run (h : o.lookup name = some (.int n)) : getInt texts o name = .ok (i32 n) := by
  rw [getInt, h]
  rfl

lemma getLong_run (h : o.lookup name = some (.int n)) : getLong texts o name = .ok (i64 n) := by
  rw [getLong, h]
  rfl

lemma getJSONArray_run {items : List Json} (h : o.lookup name = some (.arr items)) :
    getJSONArray o name = .ok items := by
  rw [getJSONArray, h]
  rfl

lemma mapM_run {α β γ : Type} {f : β → E γ} {g : α → β} {k : α → γ} (h : ∀ a, f (g a) = .ok (k a))
    (l : List α) : (l.map g).mapM f = .ok (l.map k) := by
  induction l with
  | nil => rfl
  | cons a l ih => rw [List.map_cons, List.mapM_cons, except_bind_run (h a), except_bind_run ih,
    List.map_cons]; rfl

end Specs

end OtgMaster.Platform
