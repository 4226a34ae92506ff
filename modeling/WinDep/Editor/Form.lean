/-
# The machine editor

The editor shows a machine's config as a form and builds the config it sends
from the form. A member of the form holds whatever value the config had, so a
step that expects a string fails on any other value. Blank members are left out
of the config that is sent, and the domain members are written only if the form
says that the machine joins a domain.
-/

import WinDep.Config.Secret
import Mathlib.Data.List.DropRight

namespace WinDep.Editor

open Json Object

/-- Must match the sentinel of the server. -/
def KEEP : String := "__KEEP__"

/-! ## Values of the browser -/

/-- A value as a condition. -/
def truthy : Json → Bool
  | .null => false
  | .bool b => b
  | .num n => n.mant ≠ 0
  | .str s => s ≠ ""
  | .arr _ | .obj _ => true

/-- `v ?? d` -/
def orElse (v : Option Json) (d : Json) : Json :=
  match v with
  | none | some .null => d
  | some v => v

def IsBlank (c : Char) : Prop :=
  c ∈ ['\t', '\n', '\x0b', '\x0c', '\r', ' ', '\u00a0', '\u1680', '\u2028', '\u2029', '\u202f',
    '\u205f', '\u3000', '\ufeff'] ∨ ('\u2000' ≤ c ∧ c ≤ '\u200a')

instance (c : Char) : Decidable (IsBlank c) := inferInstanceAs (Decidable (_ ∨ _))

def trimString (s : String) : String :=
  String.ofList ((s.toList.dropWhile fun c => IsBlank c).rdropWhile fun c => IsBlank c)

/-- `v.trim()`, a type error on anything but a string. -/
def trim : Json → Option String
  | .str s => some (trimString s)
  | _ => none

/-! ## The form -/

structure Fields where
  serial : String
  computerName : Json
  mode : Json
  targetDisk : Json
  imageUrl : Json
  confirmWipe : Bool
  joinDomain : Bool
  TIMEZONE : Json
  LOCALADMINUSER : Json
  LOCALADMINPASS : Json
  JOINDOMAIN : Json
  DOMAINOU : Json
  DOMAINUSER : Json
  DOMAINPASS : Json
  localAdminPassSet : Bool
  domainPassSet : Bool

def isKeep (v : Option Json) : Bool :=
  match v with
  | some (.str s) => s == KEEP
  | _ => false

/-- The form for a config; reading a member of `null` is a type error. -/
def fromConfig (serial : String) : Json → Option Fields
  | .null => none
  | c =>
    let u := orElse (c.get? "unattend") (.obj [])
    -- a masked secret leaves its field blank, and is remembered as set
    let localSet := isKeep (u.get? "LOCALADMINPASS")
    let domainSet := isKeep (u.get? "DOMAINPASS")
    some {
      serial := serial
      computerName := orElse (c.get? "computerName") (.str "")
      mode := orElse (c.get? "mode") (.str "zerotouch")
      targetDisk := orElse (c.get? "targetDisk") (.str "")
      imageUrl := orElse (c.get? "imageUrl") (.str "")
      confirmWipe := truthy (orElse (c.get? "confirmWipe") .null)
      joinDomain := truthy (orElse (u.get? "JOINDOMAIN") .null)
      TIMEZONE := orElse (u.get? "TIMEZONE") (.str "")
      LOCALADMINUSER := orElse (u.get? "LOCALADMINUSER") (.str "")
      LOCALADMINPASS :=
        if localSet then .str "" else orElse (u.get? "LOCALADMINPASS") (.str "")
      JOINDOMAIN := orElse (u.get? "JOINDOMAIN") (.str "")
      DOMAINOU := orElse (u.get? "DOMAINOU") (.str "")
      DOMAINUSER := orElse (u.get? "DOMAINUSER") (.str "")
      DOMAINPASS := if domainSet then .str "" else orElse (u.get? "DOMAINPASS") (.str "")
      localAdminPassSet := localSet
      domainPassSet := domainSet }

/-- A typed password, the sentinel if one is stored, or nothing. -/
def secretOut (value : Json) (wasSet : Bool) : Option Json :=
  if truthy value then some value else if wasSet then some (.str KEEP) else none

/-- The trimmed string of a member that is not blank. -/
def plainOut (value : Json) : Option (Option Json) :=
  (trim value).map fun s => if s ≠ "" then some (.str s) else none

/-- The entries of the unattend block, in the order they are written. -/
def unattendEntries (f : Fields) : Option (List (String × Option Json)) := do
  let timezone ← plainOut f.TIMEZONE
  let localAdminUser ← plainOut f.LOCALADMINUSER
  let plain := [("TIMEZONE", timezone), ("LOCALADMINUSER", localAdminUser),
    ("LOCALADMINPASS", secretOut f.LOCALADMINPASS f.localAdminPassSet)]
  -- the domain members are left out altogether without the toggle
  if f.joinDomain then
    let joinDomain ← plainOut f.JOINDOMAIN
    let domainOU ← plainOut f.DOMAINOU
    let domainUser ← plainOut f.DOMAINUSER
    return plain ++ [("JOINDOMAIN", joinDomain), ("DOMAINOU", domainOU),
      ("DOMAINUSER", domainUser), ("DOMAINPASS", secretOut f.DOMAINPASS f.domainPassSet)]
  else return plain

def buildUnattend (f : Fields) : Option Members := (unattendEntries f).map sparse

/-- The sparse config of a form. -/
def toConfig (f : Fields) : Option Json := do
  let unattend ← buildUnattend f
  let targetDisk ← plainOut f.targetDisk
  let computerName ← plainOut f.computerName
  let imageUrl ← plainOut f.imageUrl
  return .obj (sparse [
    ("mode", if truthy f.mode then some f.mode else none),
    ("targetDisk", targetDisk),
    ("computerName", computerName),
    ("imageUrl", imageUrl),
    ("confirmWipe", some (.bool f.confirmWipe)),
    ("unattend", if unattend.length ≠ 0 then some (.obj unattend) else none)])

/-- `JSON.stringify` with an indent of two blanks. -/
def stringify (v : Json) : Bytes := Utf8.encode (printValue false 0 v)

/-- Open a stored config in the editor and save the form untouched: what is stored then. -/
def saveUntouched (P : Primitives) (masterKey : Option Key) (ivs : String → IV)
    (serial : String) (stored : Bytes) : Option Bytes := do
  let masked ← Admin.maskConfigJSON stored
  let page ← Json.parse (Utf8.decode masked)
  let fields ← fromConfig serial page
  let cfg ← toConfig fields
  Admin.encryptConfigJSON P masterKey ivs (stringify cfg) stored

end WinDep.Editor
