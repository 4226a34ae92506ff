/-
# Schemas of JSON documents

A schema accepts or refuses a value. It is built from the kinds of values, lists
of words, arrays of one schema, and objects with required members and schemas for
the members that are there. Members a schema does not name are accepted.
-/

import WinDep.Data.Json

namespace WinDep

/-- The values a schema accepts. -/
abbrev JsonSchema := Json → Bool

namespace JsonSchema

open Json

inductive Kind
  | null
  | boolean
  | integer
  | number
  | string

def Kind.admits : Kind → Json → Bool
  | null, .null => true
  | boolean, .bool _ => true
  -- a number without a fraction
  | integer, .num n => n.IsInteger
  | number, .num _ => true
  | string, .str _ => true
  | _, _ => false

def kinds (ks : List Kind) : JsonSchema := fun v => ks.any fun k => k.admits v

def words (ws : List String) : JsonSchema
  | .str s => s ∈ ws
  | _ => false

def listOf (s : JsonSchema) : JsonSchema
  | .arr vs => vs.all s
  | _ => false

def record (required : List String) (members : List (String × JsonSchema)) : JsonSchema
  | .obj ms =>
    (required.all fun k => (ms.lookup k).isSome) &&
      members.all fun m => (ms.lookup m.1).all m.2
  | _ => false

def string : JsonSchema := kinds [.string]

def nullable (k : Kind) : JsonSchema := kinds [k, .null]

variable {s : JsonSchema} {vs : List Json} {t : String} {ws : List String} {n : Number} {b : Bool}

@[simp] theorem string_str : string (.str t) = true := rfl

@[simp] theorem string_null : string .null = false := rfl

@[simp] theorem nullable_null {k : Kind} : nullable k .null = true := by
  cases k <;> rfl

@[simp] theorem nullable_string_str : nullable .string (.str t) = true := rfl

@[simp] theorem nullable_boolean_bool : nullable .boolean (.bool b) = true := rfl

@[simp] theorem kinds_boolean_bool : kinds [.boolean] (.bool b) = true := rfl

@[simp] theorem kinds_number_num : kinds [.number] (.num n) = true := rfl

@[simp] theorem words_str : words ws (.str t) = decide (t ∈ ws) := rfl

theorem listOf_arr : listOf s (.arr vs) = true ↔ ∀ v ∈ vs, s v = true := List.all_eq_true

end JsonSchema

end WinDep
