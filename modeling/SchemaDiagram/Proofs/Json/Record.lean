import Mathlib
import SchemaDiagram.Json.Record

/-!
# Records read back

A record is written as a row of fields, some of which are left out when they are empty, and each
part is read by looking its name up. So a part reads back if its field is the only one of its name,
the value survives (`Survives`), and reading takes a field that is not there for the empty value
that was left out.

The equations for looking names up are for `simp`: together with the rules for the four kinds of
parts they read a record whose fields have different names.
-/

namespace SchemaDiagram.Json

variable {α : Type} {encode : α → Json} {decode : Json → Option α}

/-- A value survives its JSON form: it reads back from it, and the form is not `null`, which stands
for no value. -/
structure Survives (encode : α → Json) (decode : Json → Option α) (a : α) : Prop where
  /-- The value reads back. -/
  decode_encode : decode (encode a) = some a
  /-- The form is not that of no value. -/
  encode_ne_null : encode a ≠ null

/-- A string is read as itself. -/
@[simp] theorem toString?_string (s : String) : toString? (string s) = some s := rfl

/-- A truth value is read as itself. -/
@[simp] theorem toBool?_bool (b : Bool) : toBool? (bool b) = some b := rfl

/-- A string is read back from its JSON. -/
@[simp] theorem survives_string (s : String) : Survives string toString? s := ⟨rfl, nofun⟩

/-- A truth value is read back from its JSON. -/
@[simp] theorem survives_bool (b : Bool) : Survives bool toBool? b := ⟨rfl, nofun⟩

/-- A finite number is read back from its JSON. -/
theorem survives_ofNumber {x : Number} (hx : x.isFinite = true) :
    Survives ofNumber toNumber? x := by
  have hnumber : ofNumber x = number x := if_pos hx
  exact ⟨by rw [hnumber]; rfl, by rw [hnumber]; nofun⟩

/-! ## Looking names up -/

section Lookup

variable (name other : String)

/-- A field is found under its own name only. -/
@[simp] theorem lookup_field (a : α) :
    (field name encode a).lookup other = if other == name then some (encode a) else none := by
  rw [field, List.lookup_cons]
  split <;> simp_all

/-- An optional field is found under its own name only, if there is a value. -/
@[simp] theorem lookup_fieldIfSome (o : Option α) :
    (fieldIfSome name encode o).lookup other = if other == name then o.map encode else none := by
  cases o with
  | none => simp [fieldIfSome]
  | some a => exact lookup_field name other a

/-- A field of a list is found under its own name only, unless the list is empty. -/
@[simp] theorem lookup_fieldIfNonempty (as : List α) :
    (fieldIfNonempty name encode as).lookup other =
      if other == name then (if as = [] then none else some (ofList encode as)) else none := by
  cases as with
  | nil => simp [fieldIfNonempty]
  | cons a as => exact @lookup_field _ (ofList encode) name other (a :: as)

end Lookup

/-! ## Reading parts -/

/-- Reading goes on with a part that was read. -/
theorem read_bind {β : Type} {x : Option α} {f : α → Option β} (a : α) {b : β} (hx : x = some a)
    (hf : f a = some b) : (x >>= f) = some b := by
  rw [hx]
  exact hf

/-- What an optional part is that was looked up. -/
def optionalOf (decode : Json → Option α) : Option Json → Option (Option α)
  | none | some null => some none
  | some value => (decode value).map some

variable (decode) in
/-- A required part is what is found under its name. -/
@[simp] theorem required_eq (name : String) (parts : List (String × Json)) :
    required decode name parts = (parts.lookup name).bind decode := rfl

variable (decode) in
/-- An optional part is what may be found under its name. -/
@[simp] theorem optional_eq (name : String) (parts : List (String × Json)) :
    optional decode name parts = optionalOf decode (parts.lookup name) := rfl

variable (decode) in
/-- A part with a default is what is found under its name, or the default. -/
@[simp] theorem withDefault_eq (default : α) (name : String) (parts : List (String × Json)) :
    withDefault default decode name parts =
      ((parts.lookup name).map decode).getD (some default) := by
  unfold withDefault
  cases parts.lookup name <;> rfl

/-- An optional part that survives is read as it was written. -/
@[simp] theorem optionalOf_map {o : Option α} (h : ∀ a ∈ o, Survives encode decode a) :
    optionalOf decode (o.map encode) = some o := by
  cases o with
  | none => rfl
  | some a =>
    obtain ⟨hread, hne⟩ := h a rfl
    rw [Option.map_some, optionalOf, hread, Option.map_some]
    simpa using hne

/-- A list of values that survive reads back. -/
@[simp] theorem toList?_ofList {as : List α} (h : ∀ a ∈ as, Survives encode decode a) :
    toList? decode (ofList encode as) = some as := by
  rw [ofList, toList?]
  induction as with
  | nil => rfl
  | cons a as ih =>
    rw [List.map_cons, List.mapM_cons, (h a List.mem_cons_self).decode_encode,
      ih fun b hb => h b (List.mem_cons_of_mem _ hb)]
    rfl

/-- A list of values that survive reads back also if it is left out when it is empty. -/
@[simp] theorem getD_map_toList? {as : List α} (h : ∀ a ∈ as, Survives encode decode a) :
    ((if as = [] then none else some (ofList encode as)).map (toList? decode)).getD (some []) =
      some as := by
  cases as with
  | nil => rfl
  | cons a as => exact toList?_ofList h

end SchemaDiagram.Json
