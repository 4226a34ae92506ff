/-
# Well-formed XML

A text is read one character at a time. What is being read and which elements are
open is the state of the reader, and a step either fails or gives the tags and the
characters of the content that it has read. Since a run over two texts is a run over
one after the other, what a text does can be said for its pieces.

The documents have no document type declaration.
-/

import Mathlib.Data.List.Basic
import Mathlib.Data.List.Infix

namespace WinDep.Xml

/-! ## Characters -/

def inRanges (ranges : List (ℕ × ℕ)) (n : ℕ) : Bool :=
  ranges.any fun r => r.1 ≤ n && n ≤ r.2

def legalRanges : List (ℕ × ℕ) :=
  [(0x9, 0xA), (0xD, 0xD), (0x20, 0xD7FF), (0xE000, 0xFFFD), (0x10000, 0x10FFFF)]

/-- `NameStartChar`, the colon among them. -/
def nameStartRanges : List (ℕ × ℕ) :=
  [(0x3A, 0x3A), (0x41, 0x5A), (0x5F, 0x5F), (0x61, 0x7A), (0xC0, 0xD6), (0xD8, 0xF6),
    (0xF8, 0x2FF), (0x370, 0x37D), (0x37F, 0x1FFF), (0x200C, 0x200D), (0x2070, 0x218F),
    (0x2C00, 0x2FEF), (0x3001, 0xD7FF), (0xF900, 0xFDCF), (0xFDF0, 0xFFFD), (0x10000, 0xEFFFF)]

def nameRanges : List (ℕ × ℕ) :=
  nameStartRanges ++ [(0x2D, 0x2E), (0x30, 0x39), (0xB7, 0xB7), (0x300, 0x36F), (0x203F, 0x2040)]

def isLegal (c : Char) : Bool := inRanges legalRanges c.toNat

def isNameStart (c : Char) : Bool := inRanges nameStartRanges c.toNat

def isNameChar (c : Char) : Bool := inRanges nameRanges c.toNat

def isBlank (c : Char) : Bool := c = ' ' || c = '\t' || c = '\n' || c = '\r'

/-- Whether a name can go on with a character. -/
def continues (name : List Char) (c : Char) : Bool :=
  if name = [] then isNameStart c else isNameChar c

/-- A carriage return, with the line feed after it, is read as one line feed. The flag says that
the character before was a carriage return. -/
def lineEnds : Bool → List Char → List Char
  | _, [] => []
  | afterReturn, c :: cs =>
    if c = '\r' then '\n' :: lineEnds true cs
    else if c = '\n' ∧ afterReturn then lineEnds false cs
    else c :: lineEnds false cs

/-! ## References -/

def digit (c : Char) : Option ℕ :=
  if '0' ≤ c ∧ c ≤ '9' then some (c.toNat - '0'.toNat)
  else if 'a' ≤ c ∧ c ≤ 'f' then some (c.toNat - 'a'.toNat + 10)
  else if 'A' ≤ c ∧ c ≤ 'F' then some (c.toNat - 'A'.toNat + 10)
  else none

def number (base : ℕ) (digits : List Char) : Option ℕ :=
  if digits = [] then none
  else digits.foldlM (fun n c => do
    let d ← digit c
    if d < base then some (base * n + d) else none) 0

def numbered (n : Option ℕ) : Option Char := do
  let n ← n
  if inRanges legalRanges n then some (Char.ofNat n) else none

/-- What is written between an ampersand and a semicolon. -/
def referenced : List Char → Option Char
  | '#' :: 'x' :: digits => numbered (number 16 digits)
  | '#' :: digits => numbered (number 10 digits)
  | ['l', 't'] => some '<'
  | ['g', 't'] => some '>'
  | ['a', 'm', 'p'] => some '&'
  | ['a', 'p', 'o', 's'] => some '\x27'
  | ['q', 'u', 'o', 't'] => some '"'
  | _ => none

/-! ## The reader -/

inductive Tag
  | opening (name : List Char) (attributes : List (List Char × List Char))
  | closing (name : List Char)
  deriving DecidableEq

/-- A start tag or an XML declaration, as far as it has been read. -/
structure Head where
  declaration : Bool
  name : List Char
  attributes : List (List Char × List Char)
  deriving DecidableEq

/-- What is being read behind the name of a tag. -/
inductive Part
  | gap (spaced : Bool)
  | attributeName (name : List Char)
  | equals (name : List Char)
  | quote (name : List Char)
  | value (name : List Char) (quote : Char) (read : List Char)
  | reference (name : List Char) (quote : Char) (read : List Char) (reference : List Char)
  /-- The slash of an empty tag, or the question mark of a declaration, has been read. -/
  | last
  deriving DecidableEq

inductive Mode
  /-- No character has been read. -/
  | start
  /-- Text, behind this many brackets that close (two, if there are more). -/
  | content (brackets : ℕ)
  | reference (name : List Char)
  /-- A tag has begun. The flag says that it begins the document. -/
  | markup (first : Bool)
  | bang (read : List Char)
  | comment (hyphens : ℕ)
  | verbatim (brackets : ℕ)
  | target (first : Bool) (name : List Char)
  | targetEnd
  | instruction (question : Bool)
  | name (read : List Char)
  | head (h : Head) (part : Part)
  | closing (name : List Char)
  | closed (name : List Char)
  deriving DecidableEq

structure State where
  mode : Mode
  /-- The names of the open elements, the innermost first. -/
  opened : List (List Char)
  /-- The root element has begun. -/
  rooted : Bool

/-- A tag, or a character of the content. -/
abbrev Event := Tag ⊕ Char

def isVersion : List Char → Bool
  | '1' :: '.' :: digits => digits ≠ [] && digits.all Char.isDigit
  | _ => false

def isEncoding : List Char → Bool
  | c :: cs => c.isAlpha && cs.all fun c => c.isAlphanum || c = '.' || c = '_' || c = '-'
  | [] => false

def isEncodingDecl (a : List Char × List Char) : Bool :=
  a.1 = "encoding".toList && isEncoding a.2

def isStandaloneDecl (a : List Char × List Char) : Bool :=
  a.1 = "standalone".toList && (a.2 = "yes".toList || a.2 = "no".toList)

/-- The version, and after it an encoding and whether the document stands alone, if given. -/
def isDeclaration : List (List Char × List Char) → Bool
  | [] => false
  | a :: rest => a.1 = "version".toList && isVersion a.2 &&
    match rest with
    | [] => true
    | [b] => isEncodingDecl b || isStandaloneDecl b
    | [b, b'] => isEncodingDecl b && isStandaloneDecl b'
    | _ => false

/-- A tag goes on behind its name, short of the character that ends it. -/
def stepPart (h : Head) (c : Char) : Part → Option (Head × Part)
  | .gap spaced =>
    if isBlank c then some (h, .gap true)
    else if isNameStart c && spaced then some (h, .attributeName [c])
    else if c = if h.declaration then '?' else '/' then some (h, .last)
    else none
  | .attributeName name =>
    if isNameChar c then some (h, .attributeName (name ++ [c]))
    else if isBlank c then some (h, .equals name)
    else if c = '=' then some (h, .quote name)
    else none
  | .equals name =>
    if isBlank c then some (h, .equals name)
    else if c = '=' then some (h, .quote name)
    else none
  | .quote name =>
    if isBlank c then some (h, .quote name)
    else if c = '"' || c = '\x27' then some (h, .value name c [])
    else none
  | .value name quote read =>
    if c = quote then
      -- no attribute is given twice
      if h.attributes.any fun a => a.1 = name then none
      else some ({ h with attributes := h.attributes ++ [(name, read)] }, .gap false)
    else if c = '<' then none
    else if c = '&' then if h.declaration then none else some (h, .reference name quote read [])
    else some (h, .value name quote (read ++ [if isBlank c then ' ' else c]))
  | .reference name quote read reference =>
    if c = ';' then (referenced reference).map fun r => (h, .value name quote (read ++ [r]))
    else some (h, .reference name quote read (reference ++ [c]))
  | .last => none

/-- A tag has ended, and with it nothing, an element that it opened, or an empty element. -/
def endHead (s : State) (h : Head) : Part → Option (State × List Event)
  | .gap _ =>
    if h.declaration then none
    else some (⟨.content 0, h.name :: s.opened, true⟩, [.inl (.opening h.name h.attributes)])
  | .last =>
    if h.declaration then
      if isDeclaration h.attributes then some ({ s with mode := .content 0 }, []) else none
    else some (⟨.content 0, s.opened, true⟩,
      [.inl (.opening h.name h.attributes), .inl (.closing h.name)])
  | _ => none

/-- An end tag closes the innermost element. -/
def closeTag (s : State) (name : List Char) (c : Char) : Option (State × List Event) :=
  if isBlank c then some ({ s with mode := .closed name }, [])
  else if c = '>' then
    match s.opened with
    | top :: rest =>
      if top = name then some (⟨.content 0, rest, s.rooted⟩, [.inl (.closing name)]) else none
    | [] => none
  else none

/-- A character of the content. Outside the root element all of them are blank. -/
def stepContent (s : State) (brackets : ℕ) (c : Char) : Option (State × List Event) :=
  if s.opened = [] then
    if isBlank c then some ({ s with mode := .content 0 }, []) else none
  else if c = '&' then some ({ s with mode := .reference [] }, [])
  else if c = '>' ∧ brackets = 2 then none
  else some ({ s with mode := .content (if c = ']' then min (brackets + 1) 2 else 0) }, [.inr c])

/-- The name of a processing instruction. One is the XML declaration, which begins the document. -/
def stepTarget (s : State) (first : Bool) (name : List Char) (c : Char) :
    Option (State × List Event) :=
  if continues name c then some ({ s with mode := .target first (name ++ [c]) }, [])
  else if name.map Char.toLower = "xml".toList then
    if name = "xml".toList && first && isBlank c then
      some ({ s with mode := .head ⟨true, name, []⟩ (.gap true) }, [])
    else none
  else if name = [] then none
  else if isBlank c then some ({ s with mode := .instruction false }, [])
  else if c = '?' then some ({ s with mode := .targetEnd }, [])
  else none

def stepLegal (s : State) (c : Char) : Option (State × List Event) :=
  match s.mode with
  | .start =>
    if c = '<' then some ({ s with mode := .markup true }, []) else stepContent s 0 c
  | .content brackets =>
    if c = '<' then some ({ s with mode := .markup false }, []) else stepContent s brackets c
  | .reference name =>
    if c = ';' then (referenced name).map fun r => ({ s with mode := .content 0 }, [.inr r])
    else some ({ s with mode := .reference (name ++ [c]) }, [])
  | .markup first =>
    if c = '!' then some ({ s with mode := .bang [] }, [])
    else if c = '?' then some ({ s with mode := .target first [] }, [])
    else if c = '/' then some ({ s with mode := .closing [] }, [])
    else if isNameStart c && !(s.opened.isEmpty && s.rooted) then
      some ({ s with mode := .name [c] }, [])
    else none
  | .bang read =>
    let read := read ++ [c]
    if read = "--".toList then some ({ s with mode := .comment 0 }, [])
    else if read = "[CDATA[".toList then
      if s.opened = [] then none else some ({ s with mode := .verbatim 0 }, [])
    else if read.isPrefixOf "--".toList || read.isPrefixOf "[CDATA[".toList then
      some ({ s with mode := .bang read }, [])
    else none
  | .comment hyphens =>
    -- two hyphens end a comment
    if hyphens = 2 then if c = '>' then some ({ s with mode := .content 0 }, []) else none
    else some ({ s with mode := .comment (if c = '-' then hyphens + 1 else 0) }, [])
  | .verbatim brackets =>
    if c = ']' then
      if brackets = 2 then some (s, [.inr c])
      else some ({ s with mode := .verbatim (brackets + 1) }, [])
    else if c = '>' ∧ brackets = 2 then some ({ s with mode := .content 0 }, [])
    else some ({ s with mode := .verbatim 0 }, (List.replicate brackets ']' ++ [c]).map .inr)
  | .target first name => stepTarget s first name c
  | .targetEnd => if c = '>' then some ({ s with mode := .content 0 }, []) else none
  | .instruction question =>
    if question && c = '>' then some ({ s with mode := .content 0 }, [])
    else some ({ s with mode := .instruction (c = '?') }, [])
  | .name read =>
    if isNameChar c then some ({ s with mode := .name (read ++ [c]) }, [])
    else
      let h : Head := ⟨false, read, []⟩
      if c = '>' then endHead s h (.gap false)
      else (stepPart h c (.gap false)).map fun r => ({ s with mode := .head r.1 r.2 }, [])
  | .head h (.value name quote read) =>
    (stepPart h c (.value name quote read)).map fun r => ({ s with mode := .head r.1 r.2 }, [])
  | .head h part =>
    if c = '>' then endHead s h part
    else (stepPart h c part).map fun r => ({ s with mode := .head r.1 r.2 }, [])
  | .closing name =>
    if continues name c then some ({ s with mode := .closing (name ++ [c]) }, [])
    else closeTag s name c
  | .closed name => closeTag s name c

def step (s : State) (c : Char) : Option (State × List Event) :=
  if isLegal c then stepLegal s c else none

/-- What was read before a run is read first. -/
def emit (es : List Event) (r : Option (State × List Event)) : Option (State × List Event) :=
  r.map fun r => (r.1, es ++ r.2)

def run (s : State) : List Char → Option (State × List Event)
  | [] => some (s, [])
  | c :: cs => (step s c).bind fun r => emit r.2 (run r.1 cs)

/-! ## Documents -/

/-- A tag, and the text between it and the next one. -/
abbrev Piece (β : Type) := Tag × List β

section

variable {β : Type}

/-- What stands before the first tag. -/
def leading : List (Tag ⊕ β) → List β
  | .inr b :: es => b :: leading es
  | _ => []

def pieces : List (Tag ⊕ β) → List (Piece β)
  | .inl t :: es => (t, leading es) :: pieces es
  | .inr _ :: es => pieces es
  | [] => []

end

/-- The root element has been read, and nothing is left open. -/
def accepts (s : State) : Bool :=
  match s.mode with
  | .content _ => s.opened.isEmpty && s.rooted
  | _ => false

def initial : State := ⟨.start, [], false⟩

/-- The tags of a document and their texts. Every tag that opens an element is closed by the one
of its name at its depth, so that the tags are the tree of the elements. -/
def parse (text : List Char) : Option (List (Piece Char)) := do
  let r ← run initial (lineEnds false text)
  if accepts r.1 then some (pieces r.2) else none

example : parse "<a b=\"1\">x&lt;<!-- y --></a>".toList =
    some [(.opening ['a'] [(['b'], ['1'])], ['x', '<']), (.closing ['a'], [])] := by decide

/-! ## Runs -/

variable {s t : State} {c x : Char} {cs A B R v w : List Char} {es : List Event}
  {o : List (List Char)} {r : Bool} {n : ℕ}

theorem emit_nil (q : Option (State × List Event)) : emit [] q = q := by
  cases q <;> rfl

theorem run_cons_of_step (h : step s c = some (t, es)) : run s (c :: cs) = emit es (run t cs) := by
  rw [run, h, Option.bind_some]

theorem run_cons_of_fails (h : step s c = none) : run s (c :: cs) = none := by
  rw [run, h, Option.bind_none]

/-- A text is read after the one before it. -/
theorem run_append (s : State) (A B : List Char) :
    run s (A ++ B) = (run s A).bind fun q => emit q.2 (run q.1 B) := by
  induction A generalizing s with
  | nil => exact (emit_nil _).symm
  | cons a A ih =>
    rw [List.cons_append, run, run]
    cases step s a with
    | none => rfl
    | some q =>
      rw [Option.bind_some, Option.bind_some, ih, emit, emit]
      cases run q.1 A with
      | none => rfl
      | some q' => simp [emit, Function.comp_def]

theorem run_append_of_run (h : run s A = some (t, es)) : run s (A ++ B) = emit es (run t B) := by
  rw [run_append, h, Option.bind_some]

/-! ## Line ends -/

theorem lineEnds_append (hx : x ≠ '\n') (b : Bool) :
    lineEnds b (A ++ x :: R) = lineEnds b A ++ lineEnds false (x :: R) := by
  induction A generalizing b with
  | nil => simp [lineEnds, hx]
  | cons a A ih =>
    rw [List.cons_append, lineEnds, lineEnds]
    split_ifs
    · rw [ih, List.cons_append]
    · exact ih false
    · rw [ih, List.cons_append]

theorem lineEnds_of_not_mem (hA : '\r' ∉ A) : lineEnds false (A ++ R) = A ++ lineEnds false R := by
  induction A with
  | nil => rfl
  | cons a A ih =>
    rw [List.mem_cons, not_or] at hA
    rw [List.cons_append, lineEnds, if_neg (Ne.symm hA.1), if_neg (by simp), ih hA.2,
      List.cons_append]

theorem mem_lineEnds {b : Bool} (h : x ∈ lineEnds b v) : x ∈ v ∨ x = '\n' := by
  induction v generalizing b with
  | nil => cases h
  | cons c v ih =>
    rw [lineEnds] at h
    split_ifs at h
    · rcases List.mem_cons.mp h with rfl | h
      · exact .inr rfl
      · exact (ih h).imp_left (List.mem_cons_of_mem c)
    · exact (ih h).imp_left (List.mem_cons_of_mem c)
    · rcases List.mem_cons.mp h with rfl | h
      · exact .inl List.mem_cons_self
      · exact (ih h).imp_left (List.mem_cons_of_mem c)

/-! ## Written characters -/

/-- How a character can be written in the content: as it is, or by the name of an entity. -/
inductive Written (c : Char) : List Char → Prop
  | plain (h : c ∉ ['<', '>', '&']) : Written c [c]
  | entity (name : List Char) (hname : ∀ x ∈ name, isNameChar x ∧ x ≠ '-')
    (h : referenced name = some c) : Written c ('&' :: (name ++ [';']))

theorem isLegal_of_isNameChar (h : isNameChar c) : isLegal c := by
  simp only [isNameChar, nameRanges, nameStartRanges, isLegal, legalRanges, inRanges,
    List.cons_append, List.nil_append, List.any_cons, List.any_nil, Bool.or_eq_true,
    Bool.and_eq_true, decide_eq_true_eq, Bool.or_false] at h ⊢
  omega

/-- The entities stand for the five special characters. -/
theorem referenced_eq (hname : ∀ x ∈ v, isNameChar x ∧ x ≠ '-') (h : referenced v = some c) :
    c ∈ ['<', '>', '&', '\x27', '"'] := by
  have hash (digits : List Char) : v ≠ '#' :: digits := by
    rintro rfl
    exact absurd (hname '#' List.mem_cons_self).1 (by decide)
  unfold referenced at h
  split at h
  case h_1 => exact absurd rfl (hash _)
  case h_2 => exact absurd rfl (hash _)
  all_goals first | (cases h; decide) | cases h

theorem referenced_ne_hyphen (hname : ∀ x ∈ v, isNameChar x ∧ x ≠ '-')
    (h : referenced v = some c) : c ≠ '-' := by
  rintro rfl
  exact absurd (referenced_eq hname h) (by decide)

/-- What writes a character is legal, and does not end a comment. -/
theorem Written.legal (h : Written c w) (hc : isLegal c) : ∀ x ∈ w, isLegal x ∧ x ≠ '>' := by
  cases h with
  | plain h =>
    rintro x hx
    obtain rfl := List.mem_singleton.mp hx
    exact ⟨hc, fun hgt => h (by simp [hgt])⟩
  | entity name hname h =>
    intro x hx
    simp only [List.mem_cons, List.mem_append, List.not_mem_nil, or_false] at hx
    rcases hx with rfl | hx | rfl
    · decide
    · refine ⟨isLegal_of_isNameChar (hname x hx).1, ?_⟩
      rintro rfl
      exact absurd (hname '>' hx).1 (by decide)
    · decide

theorem run_reference (hname : ∀ x ∈ v, isNameChar x ∧ x ≠ '-') (before : List Char) :
    run ⟨.reference before, o, r⟩ (v ++ [';']) =
      (referenced (before ++ v)).map fun c => (⟨.content 0, o, r⟩, [.inr c]) := by
  induction v generalizing before with
  | nil =>
    rw [List.nil_append, List.append_nil, run, step, if_pos (by decide), stepLegal]
    dsimp only
    rw [if_pos rfl]
    cases referenced before <;> rfl
  | cons x v ih =>
    obtain ⟨hx, hv⟩ := List.forall_mem_cons.mp hname
    have hsemicolon : x ≠ ';' := by
      rintro rfl
      exact absurd hx.1 (by decide)
    have hstep : step ⟨.reference before, o, r⟩ x =
        some (⟨.reference (before ++ [x]), o, r⟩, []) := by
      rw [step, if_pos (isLegal_of_isNameChar hx.1), stepLegal]
      exact if_neg hsemicolon
    rw [List.cons_append, run_cons_of_step hstep, emit_nil, ih hv, List.append_assoc,
      List.singleton_append]

/-- A written character is read in the content of an element. -/
theorem Written.run_content (h : Written c w) (hc : isLegal c) (ho : o ≠ []) :
    ∃ m, run ⟨.content n, o, r⟩ w = some (⟨.content m, o, r⟩, [.inr c]) := by
  cases h with
  | plain h =>
    simp only [List.mem_cons, List.not_mem_nil, or_false, not_or] at h
    obtain ⟨hlt, hgt, hamp⟩ := h
    refine ⟨if c = ']' then min (n + 1) 2 else 0, ?_⟩
    have hstep : step ⟨.content n, o, r⟩ c =
        some (⟨.content (if c = ']' then min (n + 1) 2 else 0), o, r⟩, [.inr c]) := by
      rw [step, if_pos hc, stepLegal]
      dsimp only
      rw [if_neg hlt, stepContent, if_neg ho, if_neg hamp, if_neg fun h => hgt h.1]
    rw [run_cons_of_step hstep]
    rfl
  | entity name hname h =>
    have hstep : step ⟨.content n, o, r⟩ '&' = some (⟨.reference [], o, r⟩, []) := by
      rw [step, if_pos (by decide), stepLegal]
      dsimp only
      rw [if_neg (by decide), stepContent, if_neg ho, if_pos rfl]
    refine ⟨0, ?_⟩
    rw [run_cons_of_step hstep, emit_nil, run_reference hname, List.nil_append, h]
    rfl

section

variable {write : Char → List Char}

/-- **Content.** A written text is read as itself in the content of an element. -/
theorem run_content (hwrite : ∀ c, Written c (write c)) (hv : ∀ c ∈ v, isLegal c) (ho : o ≠ []) :
    ∃ m, run ⟨.content n, o, r⟩ (v.flatMap write) = some (⟨.content m, o, r⟩, v.map .inr) := by
  induction v generalizing n with
  | nil => exact ⟨n, rfl⟩
  | cons c v ih =>
    obtain ⟨hc, hv⟩ := List.forall_mem_cons.mp hv
    obtain ⟨m, hm⟩ := (hwrite c).run_content (n := n) (r := r) hc ho
    obtain ⟨m', hm'⟩ := ih (n := m) hv
    refine ⟨m', ?_⟩
    rw [List.flatMap_cons, run_append_of_run hm, hm']
    rfl

end

/-! ## Comments -/

/-- Two hyphens in a row, which no comment has. -/
def DoubleHyphen (v : List Char) : Prop := ['-', '-'] <:+: v

instance (v : List Char) : Decidable (DoubleHyphen v) := inferInstanceAs (Decidable (_ <:+: _))

theorem doubleHyphen_cons :
    DoubleHyphen (c :: v) ↔ c = '-' ∧ v.head? = some '-' ∨ DoubleHyphen v := by
  rw [DoubleHyphen, List.infix_cons_iff, List.cons_prefix_cons, DoubleHyphen, eq_comm]
  cases v with
  | nil => simp
  | cons d v => simp [eq_comm]

theorem doubleHyphen_append (hA : '-' ∉ A) : DoubleHyphen (A ++ B) ↔ DoubleHyphen B := by
  induction A with
  | nil => rfl
  | cons a A ih =>
    rw [List.mem_cons, not_or] at hA
    rw [List.cons_append, doubleHyphen_cons, ih hA.2]
    simp [Ne.symm hA.1]

/-- **Comments.** A text is passed over in a comment, unless it has two hyphens in a row. -/
theorem run_comment (hw : ∀ y ∈ w, isLegal y ∧ y ≠ '>') (hx : isLegal x ∧ x ≠ '>' ∧ x ≠ '-') :
    run ⟨.comment 0, o, r⟩ (w ++ x :: R) =
      if DoubleHyphen w then none else run ⟨.comment 0, o, r⟩ (x :: R) := by
  have hstep {y : Char} (hy : isLegal y) {d : ℕ} (hd : d ≠ 2) : step ⟨.comment d, o, r⟩ y =
      some (⟨.comment (if y = '-' then d + 1 else 0), o, r⟩, []) := by
    rw [step, if_pos hy, stepLegal]
    exact if_neg hd
  -- behind two hyphens nothing but the end of the comment is read
  have hfails {y : Char} {B : List Char} (hy : isLegal y ∧ y ≠ '>') :
      run ⟨.comment 2, o, r⟩ (y :: B) = none := by
    refine run_cons_of_fails ?_
    rw [step, if_pos hy.1, stepLegal]
    exact (if_pos rfl).trans (if_neg hy.2)
  have hone : run ⟨.comment 1, o, r⟩ (x :: R) = run ⟨.comment 0, o, r⟩ (x :: R) := by
    rw [run_cons_of_step (hstep hx.1 (by decide)), run_cons_of_step (hstep hx.1 (by decide)),
      if_neg hx.2.2, if_neg hx.2.2]
  -- after one hyphen another one may not come
  suffices h : (run ⟨.comment 0, o, r⟩ (w ++ x :: R) =
      if DoubleHyphen w then none else run ⟨.comment 0, o, r⟩ (x :: R)) ∧
      run ⟨.comment 1, o, r⟩ (w ++ x :: R) =
        if w.head? = some '-' ∨ DoubleHyphen w then none
        else run ⟨.comment 0, o, r⟩ (x :: R) from h.1
  induction w with
  | nil => exact ⟨(if_neg (by decide)).symm, hone.trans (if_neg (by decide)).symm⟩
  | cons y w ih =>
    obtain ⟨hy, hw⟩ := List.forall_mem_cons.mp hw
    obtain ⟨hzero, hafter⟩ := ih hw
    simp only [List.cons_append, run_cons_of_step (hstep hy.1 (by decide : 0 ≠ 2)),
      run_cons_of_step (hstep hy.1 (by decide : 1 ≠ 2)), emit_nil, doubleHyphen_cons,
      List.head?_cons, Option.some_inj]
    by_cases hhyphen : y = '-'
    · have hnone : run ⟨.comment 2, o, r⟩ (w ++ x :: R) = none := by
        cases w with
        | nil => exact hfails ⟨hx.1, hx.2.1⟩
        | cons z w => exact hfails (hw z List.mem_cons_self)
      simp only [hhyphen, if_true, true_and, true_or]
      exact ⟨hafter, hnone⟩
    · simp only [hhyphen, if_false, false_and, false_or]
      exact ⟨hzero, hzero⟩

section

variable {write : Char → List Char}

theorem head?_flatMap_write (hwrite : ∀ c, Written c (write c)) :
    (v.flatMap write).head? = some '-' ↔ v.head? = some '-' := by
  cases v with
  | nil => rfl
  | cons c v =>
    rw [List.flatMap_cons]
    cases hc : write c with
    | nil => cases hc ▸ hwrite c
    | cons d w =>
      rw [List.cons_append, List.head?_cons, List.head?_cons]
      cases hc ▸ hwrite c with
      | plain h => rfl
      | entity name hname h =>
        simp [referenced_ne_hyphen hname h]

/-- A written text has two hyphens in a row where the text has them. -/
theorem doubleHyphen_flatMap (hwrite : ∀ c, Written c (write c)) :
    DoubleHyphen (v.flatMap write) ↔ DoubleHyphen v := by
  induction v with
  | nil => rfl
  | cons c v ih =>
    rw [List.flatMap_cons, doubleHyphen_cons (v := v), ← ih, ← head?_flatMap_write hwrite]
    generalize hc : write c = w
    cases hc ▸ hwrite c with
    | plain h => exact doubleHyphen_cons
    | entity name hname h =>
      have hnot : '-' ∉ '&' :: (name ++ [';']) := by
        simp only [List.mem_cons, List.mem_append, List.not_mem_nil, or_false, not_or]
        exact ⟨by decide, fun hmem => (hname _ hmem).2 rfl, by decide⟩
      rw [doubleHyphen_append hnot]
      simp [referenced_ne_hyphen hname h]

/-- The line ends of a written text are those of the text. -/
theorem lineEnds_flatMap (hwrite : ∀ c, Written c (write c)) (b : Bool) :
    lineEnds b (v.flatMap write) = (lineEnds b v).flatMap write := by
  have hplain {c : Char} (hc : c ∉ ['<', '>', '&', '\x27', '"']) : write c = [c] := by
    generalize hw : write c = w
    cases hw ▸ hwrite c with
    | plain h => rfl
    | entity name hname h => exact absurd (referenced_eq hname h) hc
  have hreturn : write '\r' = ['\r'] := hplain (by decide)
  have hfeed : write '\n' = ['\n'] := hplain (by decide)
  induction v generalizing b with
  | nil => rfl
  | cons c v ih =>
    rw [List.flatMap_cons, lineEnds]
    split_ifs with hcr hlf
    · rw [hcr, hreturn, List.flatMap_cons, hfeed, ← ih]
      rfl
    · rw [hlf.1, hfeed, ← ih, hlf.2]
      rfl
    · generalize hw : write c = w
      cases hw ▸ hwrite c with
      | plain h =>
        rw [List.singleton_append, lineEnds, if_neg hcr, if_neg hlf, ih, List.flatMap_cons, hw,
          List.singleton_append]
      | entity name hname h =>
        have hnot : '\r' ∉ name ++ [';'] := by
          simp only [List.mem_append, List.mem_singleton, not_or]
          exact ⟨fun hmem => absurd (hname _ hmem).1 (by decide), by decide⟩
        rw [List.cons_append, lineEnds, if_neg (by decide), if_neg (by simp),
          lineEnds_of_not_mem hnot, ih, List.flatMap_cons, hw]
        rfl

end

end WinDep.Xml
