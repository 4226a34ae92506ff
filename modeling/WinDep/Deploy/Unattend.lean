/-
# The answer file

The engine fills in the template of the answer file. It takes the values from a
hashtable, in the order the hashtable lists them, and replaces each token in the
text that the replacements before it left. A value may hold braces, so that a
replacement can complete the token of a name that comes later.
-/

import WinDep.Data.Tokens
import WinDep.Deploy.Config

namespace WinDep.Deploy

open Tokens

/-- `SecurityElement.Escape` of one character. -/
def escapeChar (c : Char) : List Char :=
  if c = '<' then "&lt;".toList
  else if c = '>' then "&gt;".toList
  else if c = '"' then "&quot;".toList
  else if c = '\x27' then "&apos;".toList
  else if c = '&' then "&amp;".toList
  else [c]

def escape (s : String) : List Char := s.toList.flatMap escapeChar

/-- The name of a token, which has no braces. -/
abbrev TokenName := Name '\x7b' '\x7d'

/-- `[A-Z0-9_]` -/
def isTokenLetter (c : Char) : Bool := c.isUpper || c.isDigit || c = '_'

/-- The tokens that are left in a text. A token holds no other brace, so the search goes on behind
its first one. -/
def unresolvedTokens : List Char → List String
  | [] => []
  | c :: cs =>
    let name := cs.takeWhile isTokenLetter
    if c = '\x7b' ∧ name ≠ [] ∧ (cs.dropWhile isTokenLetter).head? = some '\x7d' then
      String.ofList (c :: name ++ ['\x7d']) :: unresolvedTokens cs
    else unresolvedTokens cs

/-- One replacement after the other, in the order the entries are listed. -/
def substituteTokens (entries : List (TokenName × String)) (xml : List Char) : List Char :=
  entries.foldl (fun xml e => replaceAll (token e.1) (escape e.2) 0 xml) xml

/-- `Set-Content` ends the text with a line break. -/
def setContent (text : List Char) : List Char := text ++ ['\r', '\n']

/-- What is written and logged. -/
structure AnswerFile where
  dest : String
  text : List Char
  log : List (String × String)

def unresolvedWarning (left : List String) : List (String × String) :=
  if left = [] then []
  else [("Unattend has unresolved tokens: " ++ ", ".intercalate left, "WARN")]

/-- `Set-DeployUnattend`, from the text of the template if there is one. -/
def setDeployUnattend (templatePath : String) (template : Option (List Char))
    (entries : List (TokenName × String)) (windowsLetter : Char) : Except Raised AnswerFile :=
  match template with
  | none => throw (.thrown ("Unattend template not found: " ++ templatePath))
  | some template =>
    let xml := substituteTokens entries template
    let dest := String.ofList [windowsLetter] ++ ":\\Windows\\Panther\\unattend.xml"
    return {
      dest := dest
      text := setContent xml
      log := unresolvedWarning (unresolvedTokens xml).eraseDups ++
        [("unattend.xml written to " ++ dest, "INFO")] }

/-! ## Replacing at once -/

/-- A hashtable from token names to strings. It lists its entries in an order of its own. -/
structure TokenTable where
  entries : List (TokenName × String)
  nodup : (entries.map Prod.fst).Nodup

/-- Every token of the template is replaced once. -/
def simultaneous (entries : List (TokenName × String)) (template : List Char) : List Char :=
  substitute (entries.map fun e => (e.1, escape e.2)) 0 template

/-- In every order the answer file is the template with its tokens replaced at once, and no name is
replaced but where the template has it. -/
structure SubstitutesOnce (template : List Char) (values : TokenTable) : Prop where
  text : ∀ templatePath windowsLetter order, order.Perm values.entries →
    ∃ file, setDeployUnattend templatePath (some template) order windowsLetter = .ok file ∧
      file.text = setContent (simultaneous values.entries template)
  once : ∀ done e rest, (done ++ e :: rest).Perm values.entries →
    occurrences (token e.1) (substituteTokens done template) = occurrences (token e.1) template

theorem replaceAll_token (k : TokenName) (v : List Char) (skip : ℕ) (cs : List Char) :
    replaceAll (token k) v skip cs = substitute [(k, v)] skip cs := by
  induction cs generalizing skip with
  | nil => cases skip <;> rfl
  | cons c cs ih =>
    cases skip with
    | succ skip => exact ih skip
    | zero =>
      rw [replaceAll, substitute, List.find?_cons, ih, ih]
      cases (token k).isPrefixOf (c :: cs) <;> rfl

theorem substituteTokens_eq (entries : List (TokenName × String)) (xml : List Char) :
    substituteTokens entries xml = replaceEach (entries.map fun e => (e.1, escape e.2)) xml := by
  rw [substituteTokens, replaceEach, List.foldl_map]
  congr 1
  funext xml e
  exact replaceAll_token e.1 (escape e.2) 0 xml

theorem setDeployUnattend_text (templatePath : String) (template : List Char)
    (entries : List (TokenName × String)) (windowsLetter : Char) :
    ∃ file, setDeployUnattend templatePath (some template) entries windowsLetter = .ok file ∧
      file.text = setContent (substituteTokens entries template) := ⟨_, rfl, rfl⟩

/-! ## Orders -/

variable {template : List Char} {values : TokenTable}

/-- The entries with their values escaped. -/
def escaped (entries : List (TokenName × String)) : List (TokenName × List Char) :=
  entries.map fun e => (e.1, escape e.2)

theorem names_escaped (entries : List (TokenName × String)) :
    (escaped entries).map Prod.fst = entries.map Prod.fst := by
  rw [escaped, List.map_map]
  rfl

/-- An order of the escaped entries is an order of the entries. -/
theorem exists_order {order : List (TokenName × List Char)}
    {entries : List (TokenName × String)} (h : order.Perm (escaped entries)) :
    ∃ order', order'.Perm entries ∧ escaped order' = order := by
  have hcomp := congrFun (congrFun (List.eq_map_comp_perm
    (fun e : TokenName × String => (e.1, escape e.2))) order) entries
  obtain ⟨order', hmap, hperm⟩ := hcomp.mpr h
  exact ⟨order', hperm, hmap.symm⟩

theorem others_escaped (e : TokenName × String) (entries : List (TokenName × String)) :
    others (e.1, escape e.2) (escaped entries) =
      escaped (entries.filter fun e' => e'.1 ≠ e.1) := by
  rw [others, escaped, escaped, List.filter_map]
  rfl

theorem substitutesOnce_iff_steps : SubstitutesOnce template values ↔
    ∀ order, order.Perm (escaped values.entries) →
      replaceEach order template = substitute (escaped values.entries) 0 template ∧
        Steps template order := by
  constructor
  · rintro ⟨htext, honce⟩ order hperm
    obtain ⟨order, hperm', rfl⟩ := exists_order hperm
    refine ⟨?_, ?_⟩
    · obtain ⟨file, hfile, hsame⟩ := htext "" 'W' order hperm'
      obtain ⟨file', hfile', hwritten⟩ := setDeployUnattend_text "" template order 'W'
      rw [hfile] at hfile'
      cases hfile'
      rw [hwritten] at hsame
      rw [escaped, ← substituteTokens_eq]
      exact List.append_cancel_right hsame
    · intro done e rest hsplit
      obtain ⟨done', tail, rfl, rfl, htail⟩ := List.map_eq_append_iff.mp hsplit
      obtain ⟨e', rest', rfl, rfl, -⟩ := List.map_eq_cons_iff.mp htail
      rw [← substituteTokens_eq]
      exact honce done' e' rest' hperm'
  · intro h
    constructor
    · intro templatePath windowsLetter order hperm
      obtain ⟨file, hfile, hwritten⟩ :=
        setDeployUnattend_text templatePath template order windowsLetter
      refine ⟨file, hfile, ?_⟩
      rw [hwritten, substituteTokens_eq]
      exact congrArg setContent (h _ (hperm.map _)).1
    · intro done e rest hperm
      have hsteps := (h _ (hperm.map fun e => (e.1, escape e.2))).2
      rw [substituteTokens_eq]
      exact hsteps (escaped done) (e.1, escape e.2) (escaped rest) (by simp [escaped])

def sampleToken (name : String) (h : '\x7b' ∉ name.toList ∧ '\x7d' ∉ name.toList := by decide) :
    TokenName := ⟨name.toList, h⟩

/-- A password that is spelled like a token. -/
def braceValues : TokenTable where
  entries := [(sampleToken "LOCALADMINPASS", "\x7bSERIAL\x7d"), (sampleToken "SERIAL", "X1")]
  nodup := by decide

end WinDep.Deploy
