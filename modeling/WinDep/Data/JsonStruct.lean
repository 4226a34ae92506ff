/-
# Decoding into a record

Go decodes an object into a struct member by member, in the order of the text. A
member goes to the field whose name it spells up to letter case, a repeated
member overwrites, `null` changes nothing, and a member of another type than its
field is an error. Members without a field are skipped.
-/

import WinDep.Data.Json

namespace WinDep.Json

/-- Case folding as far as ASCII field names can see: long s and the kelvin sign fold to ASCII
letters. -/
def foldRune (c : Char) : Char :=
  if c = 'ſ' then 's' else if c = '\u212a' then 'k' else c.toLower

/-- The key spells the field name up to letter case. -/
def Spells (field key : String) : Prop := key.toList.map foldRune = field.toList.map foldRune

instance (field key : String) : Decidable (Spells field key) := inferInstanceAs (Decidable (_ = _))

/-- A value decoded into a string field that holds `current`. -/
def decodeString (current : String) : Json → Option String
  | null => some current
  | str s => some s
  | _ => none

/-- A value decoded into a 64-bit integer field that holds `current`. A point or an exponent is an
error, as is a number out of range. -/
def decodeInt (current : Int64) : Json → Option Int64
  | null => some current
  | num d => d.toInt?.bind fun n =>
    if Int64.minValue.toInt ≤ n ∧ n ≤ Int64.maxValue.toInt then some (Int64.ofInt n) else none
  | _ => none

theorem decodeInt_ofInt (current n : Int64) :
    decodeInt current (.num (.ofInt n.toInt)) = some n := by
  have hle := n.minValue_le_toInt
  have hge := n.toInt_le
  simp only [decodeInt, Number.toInt?_ofInt, Option.bind_some]
  rw [if_pos ⟨hle, hge⟩, Int64.ofInt_toInt]

/-- An array decoded into a slice, each element into a new one. -/
def decodeSlice {α : Type} (decode : Json → Option α) : Json → Option (List α)
  | null => some []
  | arr items => items.mapM decode
  | _ => none

theorem decodeSlice_arr {α : Type} {decode : Json → Option α} {encode : α → Json}
    (h : ∀ a, decode (encode a) = some a) (l : List α) :
    decodeSlice decode (.arr (l.map encode)) = some l := by
  induction l with
  | nil => rfl
  | cons a l ih =>
    simp only [decodeSlice] at ih
    simp [decodeSlice, h, ih]

/-- Decode every member that spells the field, in order, starting from the value it holds. -/
def decodeField {α : Type} (field : String) (decode : α → Json → Option α) (current : α)
    (ms : Members) : Option α :=
  ms.foldlM (fun a m => if Spells field m.1 then decode a m.2 else some a) current

theorem decodeField_cons {α : Type} {field key : String} {decode : α → Json → Option α}
    {current : α} {v : Json} {ms : Members} :
    decodeField field decode current ((key, v) :: ms) =
      if Spells field key then (decode current v).bind fun a => decodeField field decode a ms
      else decodeField field decode current ms := by
  unfold decodeField
  rw [List.foldlM_cons]
  split_ifs <;> rfl

@[simp] theorem decodeField_nil {α : Type} {field : String} {decode : α → Json → Option α}
    {current : α} : decodeField field decode current [] = some current := rfl

/-- Decode a value into a record by its members; `null` leaves the record as it is. -/
def decodeStruct {α : Type} (decode : α → Members → Option α) (current : α) :
    Json → Option α
  | null => some current
  | obj ms => decode current ms
  | _ => none

/-- `json.Unmarshal` into a record, of a body that holds the value. -/
def unmarshalStruct {α : Type} (decode : α → Members → Option α) (current : α) (v : Json) :
    Option α :=
  if v.nesting ≤ maxNestingDepth then decodeStruct decode current v else none

end WinDep.Json
