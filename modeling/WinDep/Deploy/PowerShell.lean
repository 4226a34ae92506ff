/-
# What the deployment scripts rely on of PowerShell

The scripts work on values that came as JSON, under strict mode: reading a
property that is not there raises an error. What depends on the culture and what
the runtime prints are parameters. The values have a truth, a string form and
properties, and an array is unrolled on its way through a pipeline.
-/

import WinDep.Data.JsonRoundTrip
import Mathlib.Data.List.DropRight

namespace WinDep.Deploy

open Json

/-- An error a script raises. -/
inductive Raised
  | property (name : String)
  | method (name : String)
  | parameter (name : String)
  | thrown (message : String)

/-- Ordinal comparison of text, ignoring case. -/
def ignoringCase (upper : Char → Char) (s t : String) : Bool :=
  s.toList.map upper == t.toList.map upper

/-- The culture and the runtime of a session. -/
structure PowerShell where
  lower : Char → Char
  upper : Char → Char
  /-- `-eq` on two strings, which ignores what the culture ignores. -/
  eq : String → String → Bool
  /-- No culture takes another word for `allow`. -/
  eq_allow : ∀ s, ignoringCase upper s "hold" = true ∨ ignoringCase upper s "deny" = true →
    eq s "allow" = false
  showNumber : Number → String
  showObject : Members → String
  /-- The properties of a value that is no object, such as the length of a string. -/
  intrinsic : Json → Members
  convertToJson : Json → Bytes
  parse_convertToJson : ∀ v, Json.parse (Utf8.decode (convertToJson v)) = some v
  convertFromJson : Bytes → Except Raised Json
  /-- The text of an error. -/
  message : Raised → String

def isNull : Json → Bool
  | .null => true
  | _ => false

/-- `[char]::IsWhiteSpace` -/
def isWhiteSpace (c : Char) : Bool :=
  c ∈ ['\t', '\n', '\x0b', '\x0c', '\r', ' ', '\u0085', '\u00a0', '\u1680', '\u2028', '\u2029',
    '\u202f', '\u205f', '\u3000'] || ('\u2000' ≤ c && c ≤ '\u200a')

def isNullOrWhiteSpace (s : String) : Bool := s.toList.all isWhiteSpace

/-- `s.TrimEnd('/')` -/
def trimEndSlash (s : String) : String := String.ofList (s.toList.rdropWhile (· == '/'))

/-- What is left of a value that a pipeline passed on. -/
def unroll : Json → Json
  | .arr [] => .null
  | .arr [v] => v
  | v => v

/-- `@(v)` -/
def asArray : Json → List Json
  | .arr items => items
  | v => [v]

/-- Whether a value counts as true where a script tests it. -/
def truthy : Json → Bool
  | .null => false
  | .bool b => b
  | .num n => n.mant != 0
  | .str s => s != ""
  | .arr [] => false
  | .arr [.null] => false
  | .arr [.bool b] => b
  | .arr [.num n] => n.mant != 0
  | .arr [.str s] => s != ""
  | .arr [.arr items] => !items.isEmpty
  | .arr _ => true
  | .obj _ => true

/-- A method call on a value: on the items of an array, if there are any. -/
def trimEndOf : Json → Except Raised Json
  | .str s => return .str (trimEndSlash s)
  | .arr items =>
    match items.mapM Json.str? with
    | some (s :: ss) => return unroll (.arr ((s :: ss).map fun s => .str (trimEndSlash s)))
    | _ => throw (.method "TrimEnd")
  | _ => throw (.method "TrimEnd")

namespace PowerShell

variable (ps : PowerShell)

def toLower (s : String) : String := String.ofList (s.toList.map ps.lower)

def toUpper (s : String) : String := String.ofList (s.toList.map ps.upper)

/-- The name of a property, and a value of a `ValidateSet`. -/
def sameName (s t : String) : Bool := ignoringCase ps.upper s t

/-- The text of an item in a string. -/
def text : Json → String
  | .null => ""
  | .bool true => "True"
  | .bool false => "False"
  | .num n => ps.showNumber n
  | .str s => s
  | .arr _ => "System.Object[]"
  | .obj ms => ps.showObject ms

/-- The string form of a value, `"$(v)"`. -/
def expand (v : Json) : String :=
  match unroll v with
  | .arr items => " ".intercalate (items.map ps.text)
  | v => ps.text v

/-- `v -ne s` on one value, for a text that is no number: the right side is converted to the type
of the left. -/
def neItem (s : String) : Json → Bool
  | .str t => !ps.eq t s
  | .bool b => b != (s != "")
  | _ => true

/-- The truth of `v -ne s`; an array is filtered. -/
def ne (v : Json) (s : String) : Bool :=
  match v with
  | .arr items => truthy (.arr (items.filter (ps.neItem s)))
  | v => ps.neItem s v

/-! ## Properties -/

def properties : Json → Members
  | .null => []
  | .obj ms => ms
  | v => ps.intrinsic v

/-- `v.PSObject.Properties.Name -contains name` -/
def hasProperty (v : Json) (name : String) : Except Raised Bool :=
  if isNull v then throw (.property "PSObject")
  else if (ps.properties v).isEmpty then throw (.property "Name")
  else return (ps.properties v).any fun m => ps.eq m.1 name

def property? (v : Json) (name : String) : Option Json :=
  ((ps.properties v).find? fun m => ps.sameName m.1 name).map Prod.snd

/-- `v.name`: a property of the value, or of the items of an array that have it. -/
def read (v : Json) (name : String) : Except Raised Json :=
  match ps.property? v name, v with
  | some w, _ => return w
  -- the items that lack the property are passed over
  | none, .arr items =>
    match (items.filterMap (ps.property? · name)).flatMap asArray with
    | [] => throw (.property name)
    | [w] => return w
    | ws => return .arr ws
  | none, _ => throw (.property name)

/-! ## Parameters -/

/-- A `[string]` parameter takes no array. -/
def bindString (param : String) : Json → Except Raised String
  | .arr _ => throw (.parameter param)
  | v => return ps.text v

/-- A mandatory `[string]` parameter takes no empty string. -/
def bindMandatory (param : String) (v : Json) : Except Raised String := do
  let s ← ps.bindString param v
  if s = "" then throw (.parameter param) else return s

/-- `[ValidateSet('hold','deny')][string]$FailAction` -/
def bindFailAction (v : Json) : Except Raised String := do
  let s ← ps.bindString "FailAction" v
  if ps.sameName s "hold" || ps.sameName s "deny" then return s
  else throw (.parameter "FailAction")

end PowerShell

/-- A session whose comparisons ignore the case of each character and nothing else. -/
def PowerShell.plain : PowerShell where
  lower := Char.toLower
  upper := Char.toUpper
  eq := ignoringCase Char.toLower
  eq_allow s h := by
    rw [Bool.eq_false_iff]
    intro hallow
    -- the words have different lengths
    have hlength {f : Char → Char} {t : String} (h : ignoringCase f s t = true) :
        s.toList.length = t.toList.length := by
      simpa using congrArg List.length (beq_iff_eq.mp h)
    rcases h with h | h <;> exact absurd ((hlength h).symm.trans (hlength hallow)) (by decide)
  showNumber n := String.ofList n.print
  showObject _ := ""
  intrinsic _ := []
  convertToJson v := Utf8.encode (printValue false 0 v)
  parse_convertToJson v := by rw [Utf8.decode_encode, parse_printValue]
  convertFromJson body :=
    match Json.parse (Utf8.decode body) with
    | some v => .ok v
    | none => .error (.thrown "Invalid JSON primitive")
  message _ := ""

end WinDep.Deploy
