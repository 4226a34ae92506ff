/-
# Expressions over a document

In a rule language over JSON documents a reference to a missing member is
undefined, and a statement about an undefined value fails. A statement also
fails when its value is false; every other value, `null` included, passes. Values
of different types are ordered by type: null, booleans, numbers, strings, then
arrays and objects.
-/

import WinDep.Data.Json

namespace WinDep.Rego

open Json

/-- The value a chain of members leads to, if it is defined. -/
def ref (v : Json) : List String → Option Json
  | [] => some v
  | k :: ks => (v.get? k).bind fun w => ref w ks

/-- The value as a statement. -/
def holds : Option Json → Bool
  | none => false
  | some (.bool b) => b
  | some _ => true

/-- `v == "s"` -/
def eqString (v : Json) (s : String) : Bool :=
  match v with
  | .str t => t == s
  | _ => false

/-- `v < n`, across types. -/
def ltNumber (v : Json) (n : ℚ) : Bool :=
  match v with
  | .null | .bool _ => true
  | .num m => m.toRat < n
  | .str _ | .arr _ | .obj _ => false

/-- The elements of an array or the values of an object. -/
def elements : Json → Option (List Json)
  | .arr items => some items
  | .obj ms => some (ms.map Prod.snd)
  | _ => none

/-- `every d in domain`, which fails when the domain is undefined or no collection. -/
def every (domain : Option Json) (body : Json → Bool) : Bool :=
  match domain.bind elements with
  | none => false
  | some items => items.all body

/-- A statement about a value that may be undefined. -/
def test (v : Option Json) (p : Json → Bool) : Bool := v.any p

variable {v : Json} {w : Option Json} {s : String} {n : ℚ} {p : Json → Bool}

theorem eqString_iff : eqString v s = true ↔ v = .str s := by
  cases v <;> simp [eqString]

theorem test_iff : test w p = true ↔ ∃ v, w = some v ∧ p v = true := by
  cases w <;> simp [test]

theorem every_iff : every w p = true ↔
    ∃ items, w.bind elements = some items ∧ ∀ d ∈ items, p d = true := by
  unfold every
  cases w.bind elements <;> simp

theorem holds_eq_false_iff : holds w = false ↔ w = none ∨ w = some (.bool false) := by
  unfold holds
  split <;> simp_all

/-- A value that is not below a number is a number at least as large, or of a type above. -/
theorem ltNumber_eq_false_iff : ltNumber v n = false ↔
    (∃ m, v = .num m ∧ n ≤ m.toRat) ∨ (∃ s, v = .str s) ∨ (elements v).isSome = true := by
  cases v <;> simp [ltNumber, elements]

end WinDep.Rego
