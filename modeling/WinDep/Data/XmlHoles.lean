/-
# Documents with holes

A document with holes is read once, whatever is put into them: a hole in the content of
an element stands for the text that is written there, and a hole in a comment is passed
over, unless that text has two hyphens in a row. The reader keeps the holes among the
characters of the content, and a list of those in the comments.
-/

import WinDep.Data.Holes
import WinDep.Data.Xml

namespace WinDep.Xml

open Tokens

variable {o c : Char}

/-- A character of the content, or a hole in it. -/
abbrev Item (o c : Char) := Char ⊕ Name o c

/-- What a document with holes is read as. -/
structure Outline (o c : Char) where
  state : State
  items : List (Tag ⊕ Item o c)
  /-- The names of the holes in comments. -/
  notes : List (Name o c)

/-- Events before the ones of an outline. -/
def Outline.behind (es : List Event) (between : List (Tag ⊕ Item o c)) (notes : List (Name o c))
    (q : Outline o c) : Outline o c :=
  ⟨q.state, es.map (Sum.map id .inl) ++ (between ++ q.items), notes ++ q.notes⟩

/-- A document with holes is read. Behind a hole in the content a tag begins, and behind one in a
comment there is a blank. -/
def track (s : State) : Layout o c → Option (Outline o c)
  | .last text => (run s text).map fun q => ⟨q.1, q.2.map (Sum.map id .inl), []⟩
  | .token text k rest => do
    let q ← run s text
    match q.1.mode, rest.start.head? with
    | .content _, some '<' =>
      if q.1.opened = [] then none
      else (track q.1 rest).map (Outline.behind q.2 [.inr (.inr k)] [])
    | .comment 0, some ' ' => (track q.1 rest).map (Outline.behind q.2 [] [k])
    | _, _ => none

/-! ## Filled holes -/

section

variable {f : Name o c → List Char} {es : List Event} {items items' : List (Tag ⊕ Item o c)}

def fillItem (f : Name o c → List Char) : Item o c → List Char :=
  Sum.elim (fun x => [x]) f

def fillPiece (f : Name o c → List Char) (p : Piece (Item o c)) : Piece Char :=
  (p.1, p.2.flatMap (fillItem f))

def fill (f : Name o c → List Char) (items : List (Tag ⊕ Item o c)) : List Event :=
  items.flatMap (Sum.elim (fun t => [.inl t]) fun x => (fillItem f x).map .inr)

theorem fill_events : fill f (es.map (Sum.map id .inl)) = es := by
  induction es with
  | nil => rfl
  | cons e es ih =>
    rw [List.map_cons, fill, List.flatMap_cons, ← fill, ih]
    cases e <;> rfl

theorem fill_append : fill f (items ++ items') = fill f items ++ fill f items' :=
  List.flatMap_append

theorem leading_append_chars (v : List Char) :
    leading (v.map Sum.inr ++ es) = v ++ leading es := by
  induction v with
  | nil => rfl
  | cons x v ih => exact congrArg (x :: ·) ih

theorem pieces_append_chars (v : List Char) : pieces (v.map Sum.inr ++ es) = pieces es := by
  induction v with
  | nil => rfl
  | cons x v ih => exact ih

theorem leading_fill : leading (fill f items) = (leading items).flatMap (fillItem f) := by
  induction items with
  | nil => rfl
  | cons item items ih =>
    cases item with
    | inl t => rfl
    | inr x =>
      rw [fill, List.flatMap_cons, ← fill, leading, List.flatMap_cons, ← ih]
      exact leading_append_chars _

/-- The pieces of a filled document are the filled pieces. -/
theorem pieces_fill : pieces (fill f items) = (pieces items).map (fillPiece f) := by
  induction items with
  | nil => rfl
  | cons item items ih =>
    cases item with
    | inl t =>
      rw [fill, List.flatMap_cons, ← fill, pieces, List.map_cons, ← ih, fillPiece, ← leading_fill]
      rfl
    | inr x =>
      rw [fill, List.flatMap_cons, ← fill, pieces, ← ih]
      exact pieces_append_chars _

end

/-! ## Runs -/

section

variable {write : Char → List Char} {f : Name o c → List Char} {y : Layout o c} {s : State}
  {q : Outline o c}

/-- A tag begins behind any number of brackets. -/
theorem run_tag (m n : ℕ) (opened : List (List Char)) (rooted : Bool) (R : List Char) :
    run ⟨.content m, opened, rooted⟩ ('<' :: R) = run ⟨.content n, opened, rooted⟩ ('<' :: R) :=
  rfl

/-- What a document is read as up to a hole, and behind it. -/
theorem track_token {text : List Char} {k : Name o c} {rest : Layout o c}
    (h : track s (.token text k rest) = some q) :
    (∃ n opened rooted es q', run s text = some (⟨.content n, opened, rooted⟩, es) ∧
      opened ≠ [] ∧ rest.start.head? = some '<' ∧
      track ⟨.content n, opened, rooted⟩ rest = some q' ∧ q = q'.behind es [.inr (.inr k)] []) ∨
    ∃ opened rooted es q', run s text = some (⟨.comment 0, opened, rooted⟩, es) ∧
      rest.start.head? = some ' ' ∧ track ⟨.comment 0, opened, rooted⟩ rest = some q' ∧
      q = q'.behind es [] [k] := by
  obtain ⟨⟨⟨mode, opened, rooted⟩, es⟩, hrun, h⟩ := Option.bind_eq_some_iff.mp h
  split at h
  case h_1 n hmode hhead =>
    obtain rfl : mode = .content n := hmode
    split_ifs at h with hopened
    obtain ⟨q', hq', rfl⟩ := Option.map_eq_some_iff.mp h
    exact .inl ⟨n, opened, rooted, es, q', hrun, hopened, hhead, hq', rfl⟩
  case h_2 hmode hhead =>
    obtain rfl : mode = .comment 0 := hmode
    obtain ⟨q', hq', rfl⟩ := Option.map_eq_some_iff.mp h
    exact .inr ⟨opened, rooted, es, q', hrun, hhead, hq', rfl⟩
  case h_3 => cases h

theorem fill_behind {es : List Event} {between : List (Tag ⊕ Item o c)} {notes : List (Name o c)} :
    fill f (q.behind es between notes).items = es ++ (fill f between ++ fill f q.items) := by
  rw [Outline.behind, fill_append, fill_append, fill_events]

/-- **Holes.** A document whose holes are filled with written texts fails where a text in a comment
has two hyphens in a row, and is the outline with the texts in its holes otherwise. -/
theorem run_render (hwrite : ∀ x, Written x (write x))
    (hlegal : ∀ k ∈ y.holes, ∀ x ∈ f k, isLegal x) (h : track s y = some q) :
    run s (y.render fun k => some ((f k).flatMap write)) =
      if ∃ k ∈ q.notes, DoubleHyphen (f k) then none else some (q.state, fill f q.items) := by
  induction y generalizing s q with
  | last text =>
    rw [track, Option.map_eq_some_iff] at h
    obtain ⟨q, hrun, rfl⟩ := h
    rw [Layout.render, hrun, if_neg (by simp), fill_events]
  | token text k rest ih =>
    obtain ⟨hk, hlegal⟩ := List.forall_mem_cons.mp hlegal
    rw [Layout.render, Option.getD_some]
    rcases track_token h with ⟨n, opened, rooted, es, q, hrun, hopened, hhead, hq, rfl⟩ |
      ⟨opened, rooted, es, q, hrun, hhead, hq, rfl⟩
    · obtain ⟨m, hm⟩ := run_content (n := n) (r := rooted) hwrite hk hopened
      obtain ⟨R, hR⟩ := Layout.head?_render hhead fun k => some ((f k).flatMap write)
      -- the text may end with brackets, but it is a tag that comes next
      rw [run_append_of_run hrun, run_append_of_run hm, hR, run_tag m n, ← hR, ih hlegal hq,
        fill_behind]
      by_cases hnotes : ∃ k ∈ q.notes, DoubleHyphen (f k)
      · rw [if_pos hnotes]
        exact (if_pos hnotes).symm
      · rw [if_neg hnotes]
        refine Eq.trans ?_ (if_neg hnotes).symm
        simp [emit, fill, fillItem, Outline.behind]
    · obtain ⟨R, hR⟩ := Layout.head?_render hhead fun k => some ((f k).flatMap write)
      have hwritten : ∀ x ∈ (f k).flatMap write, isLegal x ∧ x ≠ '>' := by
        intro x hx
        obtain ⟨y, hy, hx⟩ := List.mem_flatMap.mp hx
        exact (hwrite y).legal (hk y hy) x hx
      rw [run_append_of_run hrun, hR, run_comment hwritten (by decide), ← hR, ih hlegal hq,
        fill_behind]
      simp only [doubleHyphen_flatMap hwrite]
      have hnotes : (∃ l ∈ (q.behind es [] [k]).notes, DoubleHyphen (f l)) ↔
          DoubleHyphen (f k) ∨ ∃ l ∈ q.notes, DoubleHyphen (f l) := List.exists_mem_cons_iff _ _ _
      by_cases hfirst : DoubleHyphen (f k)
      · rw [if_pos hfirst, if_pos (hnotes.mpr (.inl hfirst))]
        rfl
      · rw [if_neg hfirst]
        by_cases hlater : ∃ l ∈ q.notes, DoubleHyphen (f l)
        · rw [if_pos hlater, if_pos (hnotes.mpr (.inr hlater))]
          rfl
        · rw [if_neg hlater, if_neg fun h => (hnotes.mp h).elim hfirst hlater]
          rfl

end

/-! ## Line ends -/

section

variable {y : Layout o c} {f : Name o c → List Char} {A : List Char}

/-- The text around the holes has no carriage returns, and no hole is followed by a line feed. -/
def Unbroken : Layout o c → Bool
  | .last text => '\r' ∉ text
  | .token text _ rest => '\r' ∉ text && rest.start.head?.any (· ≠ '\n') && Unbroken rest

/-- The line ends of a document with holes are those of what is put into them. -/
theorem lineEnds_render (h : Unbroken y) : lineEnds false (y.render fun k => some (f k)) =
    y.render fun k => some (lineEnds false (f k)) := by
  induction y with
  | last text =>
    have hsame := lineEnds_of_not_mem (R := []) (of_decide_eq_true h)
    rwa [List.append_nil, lineEnds, List.append_nil] at hsame
  | token text k rest ih =>
    simp only [Unbroken, Bool.and_eq_true, decide_eq_true_eq, Option.any_eq_true] at h
    obtain ⟨⟨htext, x, hhead, hx⟩, hrest⟩ := h
    obtain ⟨R, hR⟩ := Layout.head?_render hhead fun k => some (f k)
    rw [Layout.render, Layout.render, Option.getD_some, Option.getD_some,
      lineEnds_of_not_mem htext, hR, lineEnds_append hx, ← hR, ih hrest]

/-- A document whose holes are filled with written texts, line ends and all. -/
theorem run_document {write : Char → List Char} {q : Outline o c}
    (hwrite : ∀ x, Written x (write x)) (hlegal : ∀ k ∈ y.holes, ∀ x ∈ f k, isLegal x)
    (hbreaks : Unbroken y) (h : track initial y = some q) :
    run initial (lineEnds false (y.render fun k => some ((f k).flatMap write))) =
      if ∃ k ∈ q.notes, DoubleHyphen (lineEnds false (f k)) then none
      else some (q.state, fill (fun k => lineEnds false (f k)) q.items) := by
  have hlegal' : ∀ k ∈ y.holes, ∀ x ∈ lineEnds false (f k), isLegal x := by
    intro k hk x hx
    rcases mem_lineEnds hx with hx | rfl
    · exact hlegal k hk x hx
    · decide
  rw [lineEnds_render hbreaks, ← run_render hwrite hlegal' h]
  simp only [lineEnds_flatMap hwrite]

theorem parse_of_run {t : State} {es : List Event}
    (h : run initial (lineEnds false A) = some (t, es)) (ht : accepts t) :
    parse A = some (pieces es) := by
  rw [parse, h]
  exact if_pos ht

theorem lineEnds_break : lineEnds false (A ++ ['\r', '\n']) = lineEnds false A ++ ['\n'] :=
  lineEnds_append (by decide) false

/-- A line break behind a document is read with it. -/
theorem parse_line_break {t : State} {es : List Event}
    (h : run initial (lineEnds false A) = some (t, es)) (ht : accepts t) :
    parse (A ++ ['\r', '\n']) = some (pieces es) := by
  obtain ⟨mode, opened, rooted⟩ := t
  cases mode with
  | content n =>
    simp only [accepts, Bool.and_eq_true, List.isEmpty_iff] at ht
    obtain ⟨rfl, rfl⟩ := ht
    have hblank : run ⟨.content n, [], true⟩ ['\n'] = some (⟨.content 0, [], true⟩, []) := rfl
    refine parse_of_run (t := ⟨.content 0, [], true⟩) ?_ rfl
    rw [lineEnds_break, run_append_of_run h, hblank, emit, Option.map_some, List.append_nil]
  | _ => cases ht

theorem parse_line_break_of_fails (h : run initial (lineEnds false A) = none) :
    parse (A ++ ['\r', '\n']) = none := by
  rw [parse, lineEnds_break, run_append, h]
  rfl

end

end WinDep.Xml
