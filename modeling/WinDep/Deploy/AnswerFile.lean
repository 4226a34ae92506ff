/-
# The shipped answer file

The engine escapes the values for the content of elements, but replaces the tokens in
the comments of the template too, where a value with two hyphens in a row makes the
document malformed. In the content a value is read as what it is replaced by: the names
that the hashtable lists later are replaced in it, and its line ends are line feeds.
-/

import WinDep.Deploy.Template

namespace WinDep.Deploy

open Tokens Xml

/-- A string of characters that are legal in XML. -/
abbrev XmlString := {s : String // ∀ c ∈ s.toList, isLegal c}

def isEscaped (c : Char) : Bool := c ∈ ['<', '>', '"', '\x27', '&']

/-- A letter that is not escaped and does not stand around the tokens. -/
def isPlain (c : Char) : Bool := !isEscaped c && !isBorder c

/-- A hashtable from names of plain letters to strings, which has every key and perhaps other names
too. It lists its entries in an order of its own. -/
structure UnattendValues where
  table : List (TokenName × XmlString)
  nodup : (table.map Prod.fst).Nodup
  plain : ∀ e ∈ table, e.1.1.all isPlain
  complete : ∀ k : UnattendKey, k.name ∈ table.map Prod.fst

def UnattendValues.entries (values : UnattendValues) : List (TokenName × String) :=
  values.table.map fun e => (e.1, e.2.1)

/-- The answer file is well-formed, it has the tags of the template one by one, and the value of a
key stands where the template has its token for a text. -/
def KeepsStructure (values : UnattendValues) : Prop :=
  ∀ templatePath windowsLetter, ∃ before file after,
    parse unattendTemplate.toList = some before ∧
    setDeployUnattend templatePath (some unattendTemplate.toList) values.entries windowsLetter =
      .ok file ∧
    parse file.text = some after ∧
    List.Forall₂ (fun p p' : Piece Char => p'.1 = p.1 ∧
      ∀ (k : UnattendKey) (v : XmlString), (k.name, v) ∈ values.table → p.2 = token k.name →
        p'.2 = v.1.toList) before after

/-! ## Escaped values -/

theorem written_escapeChar (c : Char) : Written c (escapeChar c) := by
  have hentity (name : List Char) (hname : name.all fun x => isNameChar x && x ≠ '-')
      (h : referenced name = some c) : Written c ('&' :: (name ++ [';'])) := by
    refine .entity name (fun x hx => ?_) h
    simpa using List.all_eq_true.mp hname x hx
  rw [escapeChar]
  split_ifs with hlt hgt hquot hapos hamp
  · exact hentity ['l', 't'] (by decide) (hlt ▸ rfl)
  · exact hentity ['g', 't'] (by decide) (hgt ▸ rfl)
  · exact hentity ['q', 'u', 'o', 't'] (by decide) (hquot ▸ rfl)
  · exact hentity ['a', 'p', 'o', 's'] (by decide) (hapos ▸ rfl)
  · exact hentity ['a', 'm', 'p'] (by decide) (hamp ▸ rfl)
  · exact .plain (by simp [hlt, hgt, hamp])

theorem escapeChar_of_not_isEscaped {c : Char} (h : ¬ isEscaped c) : escapeChar c = [c] := by
  simp only [isEscaped, List.mem_cons, List.not_mem_nil, or_false, decide_eq_true_eq, not_or] at h
  rw [escapeChar, if_neg h.1, if_neg h.2.1, if_neg h.2.2.1, if_neg h.2.2.2.1, if_neg h.2.2.2.2]

theorem escapeChar_of_isEscaped {c : Char} (h : isEscaped c) :
    escapeChar c = '&' :: (escapeChar c).tail ∧ '\x7b' ∉ (escapeChar c).tail := by
  simp only [isEscaped, List.mem_cons, List.not_mem_nil, or_false, decide_eq_true_eq] at h
  rcases h with rfl | rfl | rfl | rfl | rfl <;> decide

/-- The letters of a token with a plain name. -/
theorem plain_token {k : TokenName} (h : k.1.all isPlain) :
    ∀ a ∈ token k, isEscaped a = false ∧ isBorder a = false := by
  intro a ha
  have hplain : isPlain a = true := by
    rcases List.mem_cons.mp ha with rfl | ha
    · rfl
    · rcases List.mem_append.mp ha with ha | ha
      · exact List.all_eq_true.mp h a ha
      · rw [List.mem_singleton.mp ha]
        rfl
  simpa [isPlain] using hplain

/-- No token has a letter that is escaped, or one that an escape begins with. -/
theorem apart_escapeChar {k : TokenName} (h : k.1.all isPlain) : Apart escapeChar k := by
  have hletters : ∀ a ∈ token k, ¬ isEscaped a := fun a ha => by simp [(plain_token h a ha).1]
  intro a
  by_cases ha : isEscaped a
  · obtain ⟨hwritten, hbrace⟩ := escapeChar_of_isEscaped ha
    exact .inr ⟨fun hmem => hletters a hmem ha, '&', _, hwritten,
      fun hmem => hletters '&' hmem (by decide), hbrace⟩
  · exact .inl (escapeChar_of_not_isEscaped ha)

theorem plain_noted : ∀ k ∈ noted, k.1.all isPlain := by decide

theorem legal_noted : ∀ k ∈ noted, ∀ c ∈ token k, isLegal c := by
  have hlegal : noted.all fun k => (token k).all isLegal := by decide
  exact fun k hk => List.all_eq_true.mp (List.all_eq_true.mp hlegal k hk)

/-! ## What is written -/

namespace UnattendValues

variable (values : UnattendValues)

/-- The values by name, as they were given. -/
def given : List (TokenName × List Char) := values.table.map fun e => (e.1, e.2.1.toList)

theorem plain_of_mem_given {e : TokenName × List Char} (he : e ∈ values.given) :
    e.1.1.all isPlain := by
  obtain ⟨e', he', rfl⟩ := List.mem_map.mp he
  exact values.plain e' he'

/-- What is put into a hole of the template, before it is escaped. -/
def text (k : TokenName) : List Char := replaceEach values.given (token k)

theorem escaped_entries : escaped values.entries =
    values.given.map fun e => (e.1, e.2.flatMap escapeChar) := by
  rw [escaped, entries, given, List.map_map, List.map_map]
  rfl

/-- A hole holds the value of its name, where the names listed after it are replaced. -/
theorem text_name {before after : List (TokenName × XmlString)} {k : TokenName} {v : XmlString}
    (h : values.table = before ++ (k, v) :: after) : values.text k =
      replaceEach (after.map fun e => (e.1, e.2.1.toList)) v.1.toList := by
  have hnot : k ∉ before.map Prod.fst := by
    have hnodup := values.nodup
    rw [h, List.map_append, List.map_cons] at hnodup
    exact fun hmem => List.disjoint_of_nodup_append hnodup hmem List.mem_cons_self
  rw [text, given, h, List.map_append, List.map_cons]
  refine replaceEach_token (by decide) ?_
  rwa [List.map_map]

/-- A hole without a value keeps its token. -/
theorem text_of_not_mem {k : TokenName} (h : k ∉ values.table.map Prod.fst) :
    values.text k = token k := by
  refine replaceEach_token_of_not_mem (by decide) ?_
  rwa [given, List.map_map]

theorem legal_text {k : TokenName} (h : ∀ c ∈ token k, isLegal c) :
    ∀ c ∈ values.text k, isLegal c := by
  intro c hc
  rcases mem_replaceEach hc with hc | ⟨e, he, hc⟩
  · exact h c hc
  · obtain ⟨e, -, rfl⟩ := List.mem_map.mp he
    exact e.2.2 c hc

/-- The written text is the template whose holes are filled with escaped values. -/
theorem substituteTokens_template (template : List Char)
    (hb : (cutTemplate template).Bordered isBorder) (hfree : (cutTemplate template).Unopened)
    (hholes : ∀ k ∈ (cutTemplate template).holes, k ∈ noted) :
    substituteTokens values.entries template =
      (cutTemplate template).render fun k => some ((values.text k).flatMap escapeChar) := by
  have hborder : ∀ c, isBorder c → ∀ e ∈ escaped values.entries, c ∉ token e.1 := by
    intro c hc e he
    rw [escaped_entries] at he
    obtain ⟨e', he', rfl⟩ := List.mem_map.mp he
    intro hmem
    have hnot := (plain_token (values.plain_of_mem_given he') c hmem).2
    simp [hc] at hnot
  conv_lhs => rw [← render_cutTemplate template]
  rw [substituteTokens_eq, ← escaped,
    Layout.replaceEach_bordered hb hborder (Layout.free_of_unopened hfree _)]
  refine Layout.render_congr fun k hk => ?_
  have hapart : ∀ e ∈ values.given, Apart escapeChar e.1 :=
    fun e he => apart_escapeChar (values.plain_of_mem_given he)
  rw [escaped_entries, text, ← replaceEach_flatMap (by decide) hapart,
    (apart_escapeChar (plain_noted k (hholes k hk))).flatMap_token]

end UnattendValues

/-! ## What is read -/

variable {template : List Char} {q : Outline '\x7b' '\x7d'}

/-- What a text in a hole is read as. -/
def UnattendValues.read (values : UnattendValues) (k : TokenName) : List Char :=
  lineEnds false (values.text k)

theorem not_doubleHyphen_noted : ∀ k ∈ noted, ¬ DoubleHyphen (ownText k) := by decide

theorem ownText_name (k : UnattendKey) : ownText k.name = token k.name := by
  cases k <;> decide

/-- The template is read as its outline with the tokens in the holes. -/
theorem parse_template
    (hq : track initial (cutTemplate template) = some q)
    (hshipped : Shipped (cutTemplate template) q) :
    parse template = some ((pieces q.items).map (fillPiece ownText)) := by
  have hlegal : ∀ k ∈ (cutTemplate template).holes, ∀ c ∈ token k, isLegal c :=
    fun k hk => legal_noted k (hshipped.holes k hk)
  have htemplate : template = (cutTemplate template).render
      fun k => some ((token k).flatMap escapeChar) := by
    refine (render_cutTemplate template).symm.trans (Layout.render_congr fun k hk => ?_)
    rw [(apart_escapeChar (plain_noted k (hshipped.holes k hk))).flatMap_token]
  have hrun := run_document written_escapeChar hlegal hshipped.unbroken hq
  rw [← htemplate, if_neg] at hrun
  · exact (parse_of_run hrun hshipped.accepted).trans (congrArg some pieces_fill)
  · rintro ⟨k, hk, hdouble⟩
    exact not_doubleHyphen_noted k (hshipped.notes k hk) hdouble

/-- The answer file is read as the outline with the texts in its holes, or it is malformed. -/
theorem parse_written (values : UnattendValues)
    (hq : track initial (cutTemplate template) = some q)
    (hshipped : Shipped (cutTemplate template) q) :
    parse (setContent (substituteTokens values.entries template)) =
      if ∃ k ∈ q.notes, DoubleHyphen (values.read k) then none
      else some ((pieces q.items).map (fillPiece values.read)) := by
  have hlegal : ∀ k ∈ (cutTemplate template).holes,
      ∀ c ∈ values.text k, isLegal c :=
    fun k hk => values.legal_text (legal_noted k (hshipped.holes k hk))
  have hrun := run_document written_escapeChar hlegal hshipped.unbroken hq
  rw [← values.substituteTokens_template _ hshipped.bordered hshipped.unopened
    hshipped.holes] at hrun
  rw [setContent]
  by_cases hnotes : ∃ k ∈ q.notes, DoubleHyphen (values.read k)
  · rw [if_pos hnotes]
    exact parse_line_break_of_fails (hrun.trans (if_pos hnotes))
  · rw [if_neg hnotes]
    exact (parse_line_break (hrun.trans (if_neg hnotes)) hshipped.accepted).trans
      (congrArg some pieces_fill)

/-- The structure is kept where no text in a comment has two hyphens in a row, and the text in the
hole of each key is read as its value. -/
theorem keepsStructure_iff_read (values : UnattendValues) : KeepsStructure values ↔
    (∀ k ∈ noted, ¬ DoubleHyphen (values.read k)) ∧
      ∀ (k : UnattendKey) (v : XmlString), (k.name, v) ∈ values.table → k ≠ .serial →
        values.read k.name = v.1.toList := by
  obtain ⟨q, hq, hshipped⟩ := exists_shipped
  have hbefore := parse_template hq hshipped
  have hafter := parse_written values hq hshipped
  have hnotes : (∃ k ∈ q.notes, DoubleHyphen (values.read k)) ↔
      ∃ k ∈ noted, DoubleHyphen (values.read k) :=
    ⟨fun ⟨k, hk, hdouble⟩ => ⟨k, hshipped.notes k hk, hdouble⟩,
      fun ⟨k, hk, hdouble⟩ => ⟨k, hshipped.complete k hk, hdouble⟩⟩
  -- every key but the serial number stands alone in an element
  have hpieces : List.Forall₂ (fun p p' : Piece Char => p'.1 = p.1 ∧
        ∀ (k : UnattendKey) (v : XmlString), (k.name, v) ∈ values.table → p.2 = token k.name →
          p'.2 = v.1.toList)
      ((pieces q.items).map (fillPiece ownText)) ((pieces q.items).map (fillPiece values.read)) ↔
      ∀ (k : UnattendKey) (v : XmlString), (k.name, v) ∈ values.table → k ≠ .serial →
        values.read k.name = v.1.toList := by
    rw [List.forall₂_map_left_iff, List.forall₂_map_right_iff, List.forall₂_same]
    constructor
    · intro h k v hv hk
      obtain ⟨p, hp, htext⟩ := hshipped.elements k (UnattendKey.mem_placed.mpr hk)
      have hvalue := (h p hp).2 k v hv
      simpa [fillPiece, fillItem, htext, ownText_name] using hvalue
    · intro h p hp
      refine ⟨rfl, fun k v hv hk => ?_⟩
      obtain ⟨hplaced, htext⟩ := hshipped.alone p hp k k.mem_all hk
      rw [← h k v hv (UnattendKey.mem_placed.mp hplaced)]
      simp [fillPiece, fillItem, htext]
  constructor
  · intro h
    obtain ⟨before, file, after, hparse, hfile, hparse', hsame⟩ := h "" 'W'
    obtain ⟨file', hfile', hwritten⟩ :=
      setDeployUnattend_text "" unattendTemplate.toList values.entries 'W'
    rw [hfile] at hfile'
    cases hfile'
    rw [hwritten, hafter] at hparse'
    have hwell : ¬ ∃ k ∈ q.notes, DoubleHyphen (values.read k) := by
      intro hdouble
      rw [if_pos hdouble] at hparse'
      cases hparse'
    rw [if_neg hwell] at hparse'
    rw [hbefore] at hparse
    obtain rfl := Option.some.inj hparse
    obtain rfl := Option.some.inj hparse'
    exact ⟨fun k hk hdouble => hwell (hnotes.mpr ⟨k, hk, hdouble⟩), hpieces.mp hsame⟩
  · rintro ⟨hwell, hread⟩ templatePath windowsLetter
    obtain ⟨file, hfile, hwritten⟩ :=
      setDeployUnattend_text templatePath unattendTemplate.toList values.entries windowsLetter
    refine ⟨_, file, _, hbefore, hfile, ?_, hpieces.mpr hread⟩
    rw [hwritten, hafter, if_neg fun hdouble => ?_]
    obtain ⟨k, hk, hdouble⟩ := hnotes.mp hdouble
    exact hwell k hk hdouble

/-- The table of the keys alone. -/
def valuesOf (value : UnattendKey → XmlString) : UnattendValues where
  table := UnattendKey.all.map fun k => (k.name, value k)
  nodup := by
    rw [List.map_map]
    exact List.Nodup.map UnattendKey.name_injective (by decide)
  plain e he := by
    obtain ⟨k, -, rfl⟩ := List.mem_map.mp he
    cases k <;> rfl
  complete k := by
    rw [List.map_map]
    exact List.mem_map_of_mem k.mem_all

/-- A password with two hyphens in a row, where everything else is plain. -/
def hyphenValues : UnattendValues := valuesOf fun
  | .localAdminPass => ⟨"a--b", List.all_eq_true.mp (by decide)⟩
  | _ => ⟨"x", List.all_eq_true.mp (by decide)⟩

example : KeepsStructure
    (valuesOf fun _ => ⟨"a-b & <c>", List.all_eq_true.mp (by decide)⟩) := by
  refine (keepsStructure_iff_read _).mpr ⟨by decide, fun k v hv _ => ?_⟩
  obtain ⟨l, -, hl⟩ := List.mem_map.mp hv
  obtain ⟨-, rfl⟩ := Prod.mk.inj hl
  beta_reduce
  cases k <;> decide

end WinDep.Deploy
