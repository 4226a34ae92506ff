/-
# JSON text

The printer writes one member or element per line, indented by two blanks a
level, and escapes control characters; on request it also escapes the
characters that are special in HTML. The scanner accepts the JSON grammar and
returns the value as written. Printed text is scanned back to the value that was
printed, whatever follows it.

The recursion of the scanner is on a counter that every call decreases. Twice
the length of the text is enough for it.
-/

import WinDep.Data.Json
import WinDep.Data.Utf8

namespace WinDep.Json

/-! ## Strings -/

def hexDigit (n : ℕ) : Char := if n < 10 then Char.ofNat (n + 48) else Char.ofNat (n + 87)

def hexValue (c : Char) : Option ℕ :=
  if '0' ≤ c ∧ c ≤ '9' then some (c.toNat - 48)
  else if 'a' ≤ c ∧ c ≤ 'f' then some (c.toNat - 87)
  else if 'A' ≤ c ∧ c ≤ 'F' then some (c.toNat - 55)
  else none

/-- The code unit four hexadecimal digits spell. -/
def hex4 (a b c d : Char) : Option ℕ := do
  return (((← hexValue a) * 16 + (← hexValue b)) * 16 + (← hexValue c)) * 16 + (← hexValue d)

def unicodeEscape (n : ℕ) : List Char :=
  ['\\', 'u', hexDigit (n / 4096), hexDigit (n / 256 % 16), hexDigit (n / 16 % 16),
    hexDigit (n % 16)]

/-- The character a one-letter escape stands for. -/
def shortEscape : Char → Option Char
  | '"' => some '"'
  | '\\' => some '\\'
  | '/' => some '/'
  | 'b' => some '\x08'
  | 'f' => some '\x0c'
  | 'n' => some '\n'
  | 'r' => some '\r'
  | 't' => some '\t'
  | _ => none

/-- The letter of the one-letter escape of a character, if a printer uses it. -/
def escapeLetter : Char → Option Char
  | '"' => some '"'
  | '\\' => some '\\'
  | '\x08' => some 'b'
  | '\x0c' => some 'f'
  | '\n' => some 'n'
  | '\r' => some 'r'
  | '\t' => some 't'
  | _ => none

/-- Control characters, and the characters HTML or JavaScript treats specially. -/
def Special (html : Bool) (c : Char) : Prop :=
  c.toNat < 32 ∨ (html = true ∧ c ∈ ['<', '>', '&', '\u2028', '\u2029'])

instance (html : Bool) (c : Char) : Decidable (Special html c) :=
  inferInstanceAs (Decidable (_ ∨ _))

def escapeChar (html : Bool) (c : Char) : List Char :=
  match escapeLetter c with
  | some e => ['\\', e]
  | none => if Special html c then unicodeEscape c.toNat else [c]

/-- A string literal. -/
def quote (html : Bool) (s : String) : List Char :=
  '"' :: (s.toList.flatMap (escapeChar html) ++ ['"'])

/-- A high and a low surrogate code unit. -/
def IsPair (n n' : ℕ) : Prop := 0xD800 ≤ n ∧ n < 0xDC00 ∧ 0xDC00 ≤ n' ∧ n' < 0xE000

instance (n n' : ℕ) : Decidable (IsPair n n') := inferInstanceAs (Decidable (_ ∧ _))

/-- What a string literal spells, one escape or plain character at a time. -/
inductive Piece
  | plain (c : Char)
  | unit (n : ℕ)

/-- Join surrogate pairs; a lone surrogate is read as the replacement character. -/
def joinPieces : List Piece → List Char
  | [] => []
  | .plain c :: ps => c :: joinPieces ps
  | .unit n :: .unit n' :: ps =>
    if IsPair n n' then
      Char.ofNat (0x10000 + (n - 0xD800) * 0x400 + (n' - 0xDC00)) :: joinPieces ps
    -- the second unit may begin a pair of its own
    else (if n.isValidChar then Char.ofNat n else '\uFFFD') :: joinPieces (.unit n' :: ps)
  | .unit n :: ps => (if n.isValidChar then Char.ofNat n else '\uFFFD') :: joinPieces ps

/-- Read the rest of a string literal, up to and including the closing quote. -/
def scanPieces : List Char → Option (List Piece × List Char)
  | [] => none
  | '"' :: cs => some ([], cs)
  | '\\' :: 'u' :: a :: b :: c :: d :: cs => do
    let n ← hex4 a b c d
    let (ps, rest) ← scanPieces cs
    return (.unit n :: ps, rest)
  | '\\' :: e :: cs => do
    let c ← shortEscape e
    let (ps, rest) ← scanPieces cs
    return (.plain c :: ps, rest)
  | c :: cs =>
    -- a control character must be escaped
    if c.toNat < 32 then none
    else do
      let (ps, rest) ← scanPieces cs
      return (.plain c :: ps, rest)

def scanString (cs : List Char) : Option (String × List Char) := do
  let (ps, rest) ← scanPieces cs
  return (String.ofList (joinPieces ps), rest)

theorem hexValue_hexDigit {n : ℕ} (hn : n < 16) : hexValue (hexDigit n) = some n := by
  interval_cases n <;> decide

theorem hex4_hexDigit {n : ℕ} (hn : n < 65536) :
    hex4 (hexDigit (n / 4096)) (hexDigit (n / 256 % 16)) (hexDigit (n / 16 % 16))
      (hexDigit (n % 16)) = some n := by
  rw [hex4, hexValue_hexDigit (by omega), hexValue_hexDigit (by omega),
    hexValue_hexDigit (by omega), hexValue_hexDigit (by omega)]
  simp only [Option.bind_eq_bind, Option.bind_some, Option.pure_def, Option.some.injEq]
  omega

theorem shortEscape_escapeLetter {c e : Char} (h : escapeLetter c = some e) :
    shortEscape e = some c ∧ e ≠ 'u' := by
  unfold escapeLetter at h
  split at h
  all_goals first
    | cases h; decide
    | simp at h

theorem escapeLetter_eq_none {c : Char} (h : escapeLetter c = none) : c ≠ '"' ∧ c ≠ '\\' := by
  constructor <;> rintro rfl <;> simp [escapeLetter] at h

theorem special_toNat {html : Bool} {c : Char} (h : Special html c) : c.toNat < 0xD800 := by
  rcases h with h | ⟨-, h⟩
  · omega
  · simp only [List.mem_cons, List.not_mem_nil, or_false] at h
    rcases h with rfl | rfl | rfl | rfl | rfl <;> decide

/-- The piece an escaped character is scanned as. -/
def pieceOf (html : Bool) (c : Char) : Piece :=
  if escapeLetter c = none ∧ Special html c then .unit c.toNat else .plain c

theorem scanPieces_short {c e : Char} (h : shortEscape e = some c) (hu : e ≠ 'u')
    (cs : List Char) :
    scanPieces ('\\' :: e :: cs) = (scanPieces cs).map fun r => (.plain c :: r.1, r.2) := by
  rw [scanPieces]
  · rw [h]
    cases scanPieces cs <;> rfl
  · intro _ _ _ _ _ he _
    exact hu he

theorem scanPieces_unicodeEscape {n : ℕ} (hn : n < 65536) (cs : List Char) :
    scanPieces (unicodeEscape n ++ cs) = (scanPieces cs).map fun r => (.unit n :: r.1, r.2) := by
  simp only [unicodeEscape, List.cons_append, List.nil_append, scanPieces, hex4_hexDigit hn]
  cases scanPieces cs <;> rfl

theorem scanPieces_plain {c : Char} (hquote : c ≠ '"') (hslash : c ≠ '\\') (hc : ¬ c.toNat < 32)
    (cs : List Char) :
    scanPieces (c :: cs) = (scanPieces cs).map fun r => (.plain c :: r.1, r.2) := by
  -- the scanner's other patterns begin with a quote or a backslash
  rw [scanPieces]
  · rw [if_neg hc]
    cases scanPieces cs <;> rfl
  · exact hquote
  · intro _ _ _ _ _ h _
    exact hslash h
  · intro _ _ h _
    exact hslash h

/-- An escaped character is read as one piece. -/
theorem scanPieces_escapeChar (html : Bool) (c : Char) (cs : List Char) :
    scanPieces (escapeChar html c ++ cs) =
      (scanPieces cs).map fun r => (pieceOf html c :: r.1, r.2) := by
  unfold escapeChar pieceOf
  cases hletter : escapeLetter c with
  | some e =>
    obtain ⟨hshort, hu⟩ := shortEscape_escapeLetter hletter
    simpa using scanPieces_short hshort hu cs
  | none =>
    obtain ⟨hquote, hslash⟩ := escapeLetter_eq_none hletter
    -- every special character lies below the surrogates, so one escape spells it
    by_cases hspecial : Special html c
    · simpa [hspecial] using scanPieces_unicodeEscape ((special_toNat hspecial).trans (by omega)) cs
    · have hc : ¬ c.toNat < 32 := fun h => hspecial (Or.inl h)
      simpa [hspecial] using scanPieces_plain hquote hslash hc cs

theorem scanPieces_flatMap (html : Bool) (cs rest : List Char) :
    scanPieces (cs.flatMap (escapeChar html) ++ '"' :: rest) =
      some (cs.map (pieceOf html), rest) := by
  induction cs with
  | nil => rfl
  | cons c cs ih =>
    rw [List.flatMap_cons, List.append_assoc, scanPieces_escapeChar, ih]
    rfl

/-- A code unit below the surrogates is read as its character. -/
theorem joinPieces_unit {c : Char} (hc : c.toNat < 0xD800) (ps : List Piece) :
    joinPieces (.unit c.toNat :: ps) = c :: joinPieces ps := by
  have hvalid : c.toNat.isValidChar := Or.inl hc
  have hpair (n : ℕ) : ¬ IsPair c.toNat n := fun h => by have := h.1; omega
  cases ps with
  | nil => simp [joinPieces, hvalid]
  | cons p ps =>
    cases p with
    | plain d => simp [joinPieces, hvalid]
    | unit n => simp [joinPieces, hvalid, hpair]

theorem joinPieces_map (html : Bool) (cs : List Char) :
    joinPieces (cs.map (pieceOf html)) = cs := by
  induction cs with
  | nil => rfl
  | cons c cs ih =>
    rw [List.map_cons, pieceOf]
    split_ifs with h
    · rw [joinPieces_unit (special_toNat h.2), ih]
    · rw [joinPieces, ih]

/-- **Round trip.** A quoted string is scanned back. -/
theorem scanString_quote (html : Bool) (s : String) (rest : List Char) :
    scanString (s.toList.flatMap (escapeChar html) ++ '"' :: rest) = some (s, rest) := by
  simp [scanString, scanPieces_flatMap, joinPieces_map]

/-! ## Printing -/

def newline (depth : ℕ) : List Char := '\n' :: List.replicate (2 * depth) ' '

def comma (isLast : Bool) : List Char := if isLast then [] else [',']

mutual

/-- The text of a value whose enclosing line is indented by `depth` levels. -/
def printValue (html : Bool) (depth : ℕ) : Json → List Char
  | .null => ['n', 'u', 'l', 'l']
  | .bool true => ['t', 'r', 'u', 'e']
  | .bool false => ['f', 'a', 'l', 's', 'e']
  | .num n => n.print
  | .str s => quote html s
  | .arr [] => ['[', ']']
  | .arr items => '[' :: (printItems html (depth + 1) items ++ newline depth ++ [']'])
  | .obj [] => ['\x7b', '\x7d']
  | .obj ms => '\x7b' :: (printMembers html (depth + 1) ms ++ newline depth ++ ['\x7d'])

def printItems (html : Bool) (depth : ℕ) : List Json → List Char
  | [] => []
  | v :: items =>
    newline depth ++ printValue html depth v ++ comma items.isEmpty ++ printItems html depth items

def printMembers (html : Bool) (depth : ℕ) : List (String × Json) → List Char
  | [] => []
  | (k, v) :: ms =>
    newline depth ++ quote html k ++ [':', ' '] ++ printValue html depth v ++
      comma ms.isEmpty ++ printMembers html depth ms

end

mutual

/-- The text of a value without blanks. -/
def compact (html : Bool) : Json → List Char
  | .null => ['n', 'u', 'l', 'l']
  | .bool true => ['t', 'r', 'u', 'e']
  | .bool false => ['f', 'a', 'l', 's', 'e']
  | .num n => n.print
  | .str s => quote html s
  | .arr items => '[' :: (compactItems html items ++ [']'])
  | .obj ms => '\x7b' :: (compactMembers html ms ++ ['\x7d'])

def compactItems (html : Bool) : List Json → List Char
  | [] => []
  | v :: items => compact html v ++ comma items.isEmpty ++ compactItems html items

def compactMembers (html : Bool) : List (String × Json) → List Char
  | [] => []
  | (k, v) :: ms =>
    quote html k ++ [':'] ++ compact html v ++ comma ms.isEmpty ++ compactMembers html ms

end

/-! ## Scanning -/

def IsSpace (c : Char) : Prop := c = ' ' ∨ c = '\t' ∨ c = '\n' ∨ c = '\r'

instance (c : Char) : Decidable (IsSpace c) := inferInstanceAs (Decidable (_ ∨ _))

def skipSpace (cs : List Char) : List Char := cs.dropWhile fun c => IsSpace c

/-- Read a fixed word. -/
def scanWord (word : List Char) (v : Json) (cs : List Char) : Option (Json × List Char) :=
  if word.isPrefixOf cs then some (v, cs.drop word.length) else none

mutual

/-- Read one value off the front of a text. -/
def scanValue : ℕ → List Char → Option (Json × List Char)
  | 0, _ => none
  | fuel + 1, cs =>
    match skipSpace cs with
    | [] => none
    | c :: cs =>
      if c = '"' then (scanString cs).map fun r => (.str r.1, r.2)
      else if c = '[' then
        match skipSpace cs with
        | ']' :: cs => some (.arr [], cs)
        | cs => (scanItems fuel cs).map fun r => (.arr r.1, r.2)
      else if c = '\x7b' then
        match skipSpace cs with
        | '\x7d' :: cs => some (.obj [], cs)
        | cs => (scanMembers fuel cs).map fun r => (.obj r.1, r.2)
      else if c = 'n' then scanWord ['u', 'l', 'l'] .null cs
      else if c = 't' then scanWord ['r', 'u', 'e'] (.bool true) cs
      else if c = 'f' then scanWord ['a', 'l', 's', 'e'] (.bool false) cs
      else (Number.scan (c :: cs)).map fun r => (.num r.1, r.2)

/-- Read the elements of an array that has at least one, and its closing bracket. -/
def scanItems : ℕ → List Char → Option (List Json × List Char)
  | 0, _ => none
  | fuel + 1, cs => do
    let (v, cs) ← scanValue fuel cs
    match skipSpace cs with
    | ',' :: cs => (scanItems fuel cs).map fun r => (v :: r.1, r.2)
    | ']' :: cs => some ([v], cs)
    | _ => none

/-- Read the members of an object that has at least one, and its closing brace. -/
def scanMembers : ℕ → List Char → Option (List (String × Json) × List Char)
  | 0, _ => none
  | fuel + 1, cs =>
    match skipSpace cs with
    | '"' :: cs => do
      let (k, cs) ← scanString cs
      match skipSpace cs with
      | ':' :: cs => do
        let (v, cs) ← scanValue fuel cs
        match skipSpace cs with
        | ',' :: cs => (scanMembers fuel cs).map fun r => ((k, v) :: r.1, r.2)
        | '\x7d' :: cs => some ([(k, v)], cs)
        | _ => none
      | _ => none
    | _ => none

end

/-- The first value of a text and what follows it. -/
def scanFirst (cs : List Char) : Option (Json × List Char) := scanValue (2 * cs.length + 2) cs

/-- The value of a text that holds one value and blanks around it. -/
def parse (cs : List Char) : Option Json :=
  match scanFirst cs with
  | some (v, rest) => if skipSpace rest = [] then some v else none
  | none => none

/-- The value of a text that a decoder goes on to convert. -/
def checkValid (cs : List Char) : Option Json :=
  (parse cs).filter fun v => v.nesting ≤ maxNestingDepth

theorem checkValid_eq_some {cs : List Char} {v : Json} :
    checkValid cs = some v ↔ parse cs = some v ∧ v.nesting ≤ maxNestingDepth := by
  simp [checkValid, Option.filter_eq_some_iff]

end WinDep.Json
