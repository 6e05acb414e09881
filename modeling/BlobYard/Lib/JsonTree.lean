/-
JSON values with any kind of numbers and keys.

An object keeps its fields in some order; nothing here depends on which.

* `JsonTree.induct` — induction over the items of arrays and the fields of objects;
* `JsonTree.mapKeys` — the same tree with other keys;
* `JsonTree.Holds` — what a value holds, and the keys on the way there.
-/
import Mathlib.Data.List.Basic

namespace BlobYard

/-- A JSON value. -/
inductive JsonTree (Number Key : Type) where
  | null
  | bool (value : Bool)
  | number (value : Number)
  | string (text : List Char)
  | array (items : List (JsonTree Number Key))
  | object (fields : List (Key × JsonTree Number Key))

namespace JsonTree

variable {Number Key Key' : Type}

/-- Induction over the values that a value is made of. -/
@[elab_as_elim]
theorem induct {motive : JsonTree Number Key → Prop} (null : motive .null)
    (bool : ∀ value, motive (.bool value)) (number : ∀ value, motive (.number value))
    (string : ∀ text, motive (.string text))
    (array : ∀ items, (∀ item ∈ items, motive item) → motive (.array items))
    (object : ∀ fields : List (Key × JsonTree Number Key),
      (∀ field ∈ fields, motive field.2) → motive (.object fields))
    (value : JsonTree Number Key) : motive value :=
  JsonTree.rec (motive_1 := motive) (motive_2 := fun items => ∀ item ∈ items, motive item)
    (motive_3 := fun fields => ∀ field ∈ fields, motive field.2)
    (motive_4 := fun field => motive field.2) null bool number string
    (fun items ih => array items ih) (fun fields ih => object fields ih)
    (fun _ hitem => absurd hitem List.not_mem_nil)
    (fun _ _ hhead htail => List.forall_mem_cons.mpr ⟨hhead, htail⟩)
    (fun _ hfield => absurd hfield List.not_mem_nil)
    (fun _ _ hhead htail => List.forall_mem_cons.mpr ⟨hhead, htail⟩)
    (fun _ _ ih => ih) value

/-! ### Keys -/

mutual

/-- The tree with other keys. -/
def mapKeys (f : Key → Key') : JsonTree Number Key → JsonTree Number Key'
  | .null => .null
  | .bool value => .bool value
  | .number value => .number value
  | .string text => .string text
  | .array items => .array (mapItems f items)
  | .object fields => .object (mapFields f fields)

def mapItems (f : Key → Key') : List (JsonTree Number Key) → List (JsonTree Number Key')
  | [] => []
  | item :: items => mapKeys f item :: mapItems f items

def mapFields (f : Key → Key') :
    List (Key × JsonTree Number Key) → List (Key' × JsonTree Number Key')
  | [] => []
  | (key, item) :: fields => (f key, mapKeys f item) :: mapFields f fields

end

theorem mapItems_eq (f : Key → Key') (items : List (JsonTree Number Key)) :
    mapItems f items = items.map (mapKeys f) := by
  induction items with
  | nil => rfl
  | cons item items ih => rw [mapItems, ih, List.map_cons]

theorem mapFields_eq (f : Key → Key') (fields : List (Key × JsonTree Number Key)) :
    mapFields f fields = fields.map fun field => (f field.1, mapKeys f field.2) := by
  induction fields with
  | nil => rfl
  | cons field fields ih => rw [mapFields, ih, List.map_cons]

@[simp]
theorem mapKeys_array (f : Key → Key') (items : List (JsonTree Number Key)) :
    mapKeys f (.array items) = .array (items.map (mapKeys f)) := by
  rw [mapKeys, mapItems_eq]

@[simp]
theorem mapKeys_object (f : Key → Key') (fields : List (Key × JsonTree Number Key)) :
    mapKeys f (.object fields) =
      .object (fields.map fun field => (f field.1, mapKeys f field.2)) := by
  rw [mapKeys, mapFields_eq]

/-! ### Places -/

/-- What stands in a value, behind the keys on the way; items of an array have none. -/
inductive Holds : JsonTree Number Key → List (Option Key) → JsonTree Number Key → Prop
  | here (value : JsonTree Number Key) : Holds value [] value
  | item {items : List (JsonTree Number Key)} {item value : JsonTree Number Key}
    {path : List (Option Key)} (hmem : item ∈ items) (h : Holds item path value) :
    Holds (.array items) (none :: path) value
  | field {fields : List (Key × JsonTree Number Key)} {key : Key}
    {item value : JsonTree Number Key} {path : List (Option Key)} (hmem : (key, item) ∈ fields)
    (h : Holds item path value) : Holds (.object fields) (some key :: path) value

/-- Only arrays and objects hold more than themselves. -/
theorem Holds.of_string {text : List Char} {path : List (Option Key)}
    {value : JsonTree Number Key} (h : Holds (.string text) path value) :
    path = [] ∧ value = .string text := by
  cases h with
  | here => exact ⟨rfl, rfl⟩

end JsonTree

end BlobYard
