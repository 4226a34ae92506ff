/-
# Config documents

A config file is a JSON object, or `null`, which Go decodes to the nil map. Text
that nests too deeply is refused, and so is a number out of the range of doubles.
Both programs drop a byte-order mark before they decode, and the admin stores the
indented text of what it decoded. Storing and reading back is the identity on
decoded configs.
-/

import WinDep.Data.JsonObject
import WinDep.Data.JsonRoundTrip

namespace WinDep

open Json

/-- A decoded config: a map, or the nil map. -/
abbrev Config := Option Object

/-- The map of a config. Reading the nil map finds nothing. -/
def Config.object (c : Config) : Object := c.getD Object.empty

def Config.toJson : Config → Json
  | none => .null
  | some o => o.toJson

/-- A decoder takes the text of the config. -/
def Config.Shallow (c : Config) : Prop := c.toJson.nesting ≤ maxNestingDepth

/-- `json.Unmarshal` into a map. -/
def unmarshal (raw : Bytes) : Option Config :=
  match (checkValid (Utf8.decode raw)).filter inRange with
  | some .null => some none
  | some (.obj ms) => some (some (Object.ofMembers ms))
  | _ => none

/-- `json.MarshalIndent` of a map, with an indent of two blanks. -/
def marshalIndent (c : Config) : Bytes := Utf8.encode (printValue true 0 c.toJson)

def byteOrderMark : Bytes := [0xEF, 0xBB, 0xBF]

def trimBOM (b : Bytes) : Bytes :=
  if byteOrderMark.isPrefixOf b then b.drop byteOrderMark.length else b

/-- The block of settings for the answer file. -/
def Config.unattend (c : Config) : Option Object := c.object.object? "unattend"

/-- A config whose only setting is one string of the answer file. -/
def Config.oneMember (name value : String) : Config :=
  some (Object.ofMembers [("unattend", .obj [(name, .str value)])])

theorem Config.unattend_oneMember (name value : String) :
    (oneMember name value).unattend = some (Object.ofMembers [(name, .str value)]) := by
  rw [unattend, Object.object?_eq_some]
  simp [oneMember, object, Object.lookup, Object.ofMembers, Object.toJson, normalizeMembers,
    Json.normalize, KeyedList.set]

theorem Config.lookup_oneMember (name value : String) :
    (Object.ofMembers [(name, .str value)]).lookup name = some (.str value) := by
  simp [Object.lookup, Object.ofMembers, normalizeMembers, Json.normalize, KeyedList.set]

theorem Config.lookup_oneMember_eq_some {name value k : String} {v : Json}
    (h : (Object.ofMembers [(name, .str value)]).lookup k = some v) :
    k = name ∧ v = .str value := by
  have hmembers : (Object.ofMembers [(name, .str value)]).lookup k =
      if k = name then some (.str value) else none := by
    simp [Object.lookup, Object.ofMembers, normalizeMembers, Json.normalize, KeyedList.set,
      KeyedList.lookup_cons_ite]
  rw [hmembers, Option.ite_none_right_eq_some] at h
  exact ⟨h.1, (Option.some.inj h.2).symm⟩

theorem Config.shallow_oneMember (name value : String) : (oneMember name value).Shallow := by
  refine (nesting_normalize_le (.obj _)).trans ?_
  simp [nesting, nestingMembers, maxNestingDepth]

/-- A config that was read nests no deeper than a decoder takes. -/
theorem shallow_of_unmarshal {raw : Bytes} {c : Config} (h : unmarshal raw = some c) :
    c.Shallow := by
  unfold unmarshal at h
  split at h
  · obtain rfl := Option.some.inj h
    exact Nat.zero_le _
  · next ms hvalid =>
    obtain rfl := Option.some.inj h
    obtain ⟨hread, -⟩ := Option.filter_eq_some_iff.mp hvalid
    exact (nesting_normalize_le (.obj ms)).trans (checkValid_eq_some.mp hread).2
  · simp at h

/-- A block that nests no deeper than the one it replaces. -/
theorem Config.shallow_setUnattend {c : Config} {un un' : Object} (h : c.Shallow)
    (hun : c.unattend = some un) (hle : un'.toJson.nesting ≤ un.toJson.nesting) :
    Shallow (some (c.object.setObject "unattend" un')) := by
  have hlookup := Object.object?_eq_some.mp hun
  have hblock := Object.nesting_lt_of_lookup hlookup
  cases c with
  | none => simp [object] at hlookup
  | some o =>
    exact Object.nesting_setObject_le.trans (max_le h ((Nat.succ_le_succ hle).trans
      (Nat.succ_le_of_lt (hblock.trans_le h))))

/-- Text of an object that a decoder takes. -/
theorem unmarshal_printValue {html : Bool} {ms : Members}
    (h : Within maxNestingDepth (.obj ms)) :
    unmarshal (Utf8.encode (printValue html 0 (.obj ms))) = some (some (Object.ofMembers ms)) := by
  have hvalid : checkValid (printValue html 0 (.obj ms)) = some (.obj ms) :=
    checkValid_eq_some.mpr ⟨parse_printValue html _, h.nesting⟩
  rw [unmarshal, Utf8.decode_encode, hvalid, Option.filter_some, if_pos h.inRange]

/-- **Round trip.** A stored config is read back. -/
theorem unmarshal_marshalIndent {c : Config} (h : c.Shallow) :
    unmarshal (marshalIndent c) = some c := by
  cases c with
  | none =>
    have hvalid : checkValid (printValue true 0 .null) = some .null :=
      checkValid_eq_some.mpr ⟨parse_printValue true _, Nat.zero_le _⟩
    rw [unmarshal, marshalIndent, Utf8.decode_encode, Config.toJson, hvalid]
    rfl
  | some o =>
    have hread := @unmarshal_printValue true o.members ⟨h, o.canonical.inRange⟩
    rwa [Object.ofMembers_members] at hread

theorem printValue_obj_head (html : Bool) (depth : ℕ) (ms : Members) :
    ∃ cs, printValue html depth (.obj ms) = '\x7b' :: cs := by
  cases ms with
  | nil => exact ⟨_, by rw [printValue]⟩
  | cons m ms => exact ⟨_, by rw [printValue]; simp⟩

/-- Text that begins with a brace carries no byte-order mark. -/
theorem trimBOM_encode_brace (cs : List Char) :
    trimBOM (Utf8.encode ('\x7b' :: cs)) = Utf8.encode ('\x7b' :: cs) := by
  have hbytes : Utf8.encode ('\x7b' :: cs) = 123 :: Utf8.encode cs := rfl
  rw [trimBOM, hbytes, if_neg]
  simp [byteOrderMark, List.isPrefixOf]

/-- A stored config carries no byte-order mark. -/
@[simp] theorem trimBOM_marshalIndent (c : Config) :
    trimBOM (marshalIndent c) = marshalIndent c := by
  cases c with
  | none => rfl
  | some o =>
    obtain ⟨cs, hprint⟩ := printValue_obj_head true 0 o.members
    rw [marshalIndent, Config.toJson, Object.toJson, hprint, trimBOM_encode_brace]

theorem marshalIndent_injective : Function.Injective marshalIndent := by
  intro c c' h
  have htext : printValue true 0 c.toJson = printValue true 0 c'.toJson := by
    simpa only [marshalIndent, Utf8.decode_encode] using congrArg Utf8.decode h
  have hjson : c.toJson = c'.toJson := by
    simpa only [parse_printValue, Option.some.injEq] using congrArg Json.parse htext
  match c, c', hjson with
  | none, none, _ => rfl
  | some o, some o', hjson => rw [Object.toJson_injective hjson]

theorem marshalIndent_ne_nil (c : Config) : marshalIndent c ≠ [] := by
  obtain ⟨d, tail, hprint, -⟩ := printValue_head true 0 c.toJson
  intro hnil
  have htext := congrArg Utf8.decode hnil
  rw [marshalIndent, Utf8.decode_encode, hprint] at htext
  cases htext

/-- Text with a byte-order mark is no JSON. -/
theorem unmarshal_of_bom {raw : Bytes} (h : byteOrderMark <+: raw) : unmarshal raw = none := by
  obtain ⟨rest, rfl⟩ := h
  have hdecode : Utf8.decode (byteOrderMark ++ rest) = '\ufeff' :: Utf8.decode rest :=
    Utf8.decode_encode_append ['\ufeff'] rest
  rw [unmarshal, hdecode]
  rfl

theorem trimBOM_of_not_bom {raw : Bytes} (h : ¬ byteOrderMark <+: raw) : trimBOM raw = raw := by
  rw [trimBOM, if_neg (by simpa using h)]

end WinDep
