/-
# Regular expressions that backtrack

A pattern is tried from a place in a text, and every way it can match is listed
in the order in which a backtracking engine tries them: the left alternative
before the right, and the longest repetition first. The match is the first way,
from the first place where there is one. A group keeps the text it matched.
-/

import Mathlib.Data.List.Basic

namespace WinDep

inductive Regex
  /-- a character of a class -/
  | one (p : Char → Bool)
  /-- characters of a class, as many as possible -/
  | many (p : Char → Bool)
  | seq (r s : Regex)
  | alt (r s : Regex)
  | group (i : ℕ) (r : Regex)
  /-- `^` -/
  | atStart
  /-- `$`: at the end, or before a line feed at the end -/
  | atEnd

namespace Regex

/-- A place in a text, with the groups that were matched before it. -/
structure Cursor where
  start : Bool
  rest : List Char
  groups : List (ℕ × List Char)

/-- The ways to pass over characters of a class, the longest first. -/
def passes (p : Char → Bool) (groups : List (ℕ × List Char)) : Bool → List Char → List Cursor
  | start, [] => [⟨start, [], groups⟩]
  | start, c :: cs =>
    if p c then passes p groups false cs ++ [⟨start, c :: cs, groups⟩]
    else [⟨start, c :: cs, groups⟩]

/-- The ways to match from a place, in the order in which they are tried. -/
def ways : Regex → Cursor → List Cursor
  | one p, k =>
    match k.rest with
    | [] => []
    | c :: cs => if p c then [⟨false, cs, k.groups⟩] else []
  | many p, k => passes p k.groups k.start k.rest
  | seq r s, k => (ways r k).flatMap (ways s)
  | alt r s, k => ways r k ++ ways s k
  | group i r, k => (ways r k).map fun k' =>
    { k' with groups := (i, k.rest.take (k.rest.length - k'.rest.length)) :: k'.groups }
  | atStart, k => if k.start then [k] else []
  | atEnd, k => if k.rest = [] ∨ k.rest = ['\n'] then [k] else []

/-- The first way from the first place that has one. -/
def search (r : Regex) : Bool → List Char → Option Cursor
  | start, [] => (ways r ⟨start, [], []⟩).head?
  | start, c :: cs => (ways r ⟨start, c :: cs, []⟩).head?.or (search r false cs)

/-- The characters of a word, each matched by a class. -/
def word (same : Char → Char → Bool) : List Char → Regex
  | [] => many fun _ => false
  | c :: cs => seq (one (same c)) (word same cs)

/-- The text begins with the word, by the comparison of characters. -/
def begins (same : Char → Char → Bool) : List Char → List Char → Bool
  | [], _ => true
  | _ :: _, [] => false
  | c :: w, d :: cs => same c d && begins same w cs

variable {p : Char → Bool} {r s : Regex} {k k' : Cursor} {cs : List Char}
  {groups : List (ℕ × List Char)} {start : Bool}

/-- A pattern for the start of a text has no match elsewhere. -/
theorem search_atStart : search (seq atStart r) true cs = (ways r ⟨true, cs, []⟩).head? := by
  have hinside (cs : List Char) : search (seq atStart r) false cs = none := by
    induction cs with
    | nil => rfl
    | cons c cs ih => rw [search, ih]; rfl
  have hstart (cs : List Char) : ways (seq atStart r) ⟨true, cs, []⟩ = ways r ⟨true, cs, []⟩ :=
    List.flatMap_singleton _ _
  cases cs with
  | nil => rw [search, hstart]
  | cons c cs => rw [search, hinside, hstart, Option.or_none]

/-! ## Words -/

/-- A group matches each alternative in turn. -/
theorem ways_group_alt (i : ℕ) :
    ways (group i (alt r s)) k = ways (group i r) k ++ ways (group i s) k :=
  List.map_append

theorem exists_ways_word (same : Char → Char → Bool) (w : List Char) :
    ∃ start', ways (word same w) ⟨start, cs, groups⟩ =
      if begins same w cs then [⟨start', cs.drop w.length, groups⟩] else [] := by
  induction w generalizing start cs with
  | nil =>
    refine ⟨start, ?_⟩
    cases cs <;> rfl
  | cons c w ih =>
    cases cs with
    | nil => exact ⟨start, rfl⟩
    | cons d cs =>
      obtain ⟨start', hword⟩ := @ih cs false
      refine ⟨start', ?_⟩
      rw [word, ways, ways, begins]
      cases hsame : same c d with
      | true => simpa [hsame] using hword
      | false => simp [hsame]

theorem length_le_of_begins {same : Char → Char → Bool} {w : List Char}
    (h : begins same w cs = true) : w.length ≤ cs.length := by
  induction w generalizing cs with
  | nil => exact Nat.zero_le _
  | cons c w ih =>
    cases cs with
    | nil => cases h
    | cons d cs =>
      rw [begins, Bool.and_eq_true] at h
      exact Nat.succ_le_succ (ih h.2)

/-- A group of a word keeps the text where the word was found. -/
theorem exists_ways_group_word (same : Char → Char → Bool) (w : List Char) (i : ℕ) (start : Bool)
    (cs : List Char) (groups : List (ℕ × List Char)) :
    ∃ start', ways (group i (word same w)) ⟨start, cs, groups⟩ =
      if begins same w cs then [⟨start', cs.drop w.length, (i, cs.take w.length) :: groups⟩]
      else [] := by
  obtain ⟨start', hword⟩ := @exists_ways_word cs groups start same w
  refine ⟨start', ?_⟩
  rw [ways, hword]
  split_ifs with h
  · have hlength : cs.length - (cs.drop w.length).length = w.length := by
      have hle := length_le_of_begins h
      rw [List.length_drop]
      omega
    rw [List.map_singleton, hlength]
  · rfl

theorem begins_self (same : Char → Char → Bool) (hsame : ∀ c, same c c = true) (w : List Char) :
    begins same w (w ++ cs) = true := by
  induction w with
  | nil => rfl
  | cons c w ih => rw [List.cons_append, begins, hsame, ih]; rfl

/-! ## Repetition -/

/-- What is passed over is of the class. -/
theorem mem_passes (h : k ∈ passes p groups start cs) :
    k.groups = groups ∧ ∃ skipped, cs = skipped ++ k.rest ∧ ∀ c ∈ skipped, p c = true := by
  induction cs generalizing start with
  | nil =>
    rw [passes, List.mem_singleton] at h
    subst h
    exact ⟨rfl, [], rfl, by simp⟩
  | cons c cs ih =>
    rw [passes] at h
    split_ifs at h with hc
    · rcases List.mem_append.mp h with h | h
      · obtain ⟨hgroups, skipped, rfl, hskipped⟩ := ih h
        exact ⟨hgroups, c :: skipped, rfl, by simpa [hc] using hskipped⟩
      · rw [List.mem_singleton.mp h]
        exact ⟨rfl, [], rfl, by simp⟩
    · rw [List.mem_singleton.mp h]
      exact ⟨rfl, [], rfl, by simp⟩

/-- The longest repetition is tried first. -/
theorem exists_passes (p : Char → Bool) (groups : List (ℕ × List Char)) (start : Bool)
    (cs : List Char) : ∃ start' shorter,
      passes p groups start cs = ⟨start', cs.dropWhile p, groups⟩ :: shorter := by
  induction cs generalizing start with
  | nil => exact ⟨start, [], rfl⟩
  | cons c cs ih =>
    rw [passes]
    split_ifs with hc
    · obtain ⟨start', shorter, h⟩ := ih false
      rw [h, List.dropWhile_cons_of_pos hc]
      exact ⟨start', _, rfl⟩
    · rw [List.dropWhile_cons_of_neg hc]
      exact ⟨start, [], rfl⟩

/-- What the longest repetition leaves decides, if it leaves a way. -/
theorem exists_head?_many_seq (p : Char → Bool) (s : Regex) (k : Cursor)
    (h : ∀ start, ways s ⟨start, k.rest.dropWhile p, k.groups⟩ ≠ []) :
    ∃ start, (ways (seq (many p) s) k).head? =
      (ways s ⟨start, k.rest.dropWhile p, k.groups⟩).head? := by
  obtain ⟨start, shorter, hpasses⟩ := exists_passes p k.groups k.start k.rest
  refine ⟨start, ?_⟩
  rw [ways, ways, hpasses, List.flatMap_cons]
  exact List.head?_append_of_ne_nil _ (h start)

/-- The longest repetition comes first in a group, too. -/
theorem exists_ways_group_many (p : Char → Bool) (i : ℕ) (k : Cursor) :
    ∃ start shorter, ways (group i (many p)) k =
      ⟨start, k.rest.dropWhile p, (i, k.rest.takeWhile p) :: k.groups⟩ :: shorter := by
  obtain ⟨start, shorter, hpasses⟩ := exists_passes p k.groups k.start k.rest
  have htake : k.rest.take (k.rest.length - (k.rest.dropWhile p).length) = k.rest.takeWhile p := by
    have hsplit := List.takeWhile_append_dropWhile (p := p) (l := k.rest)
    have hlength := congrArg List.length hsplit
    rw [List.length_append] at hlength
    rw [← hlength, Nat.add_sub_cancel]
    exact (List.prefix_iff_eq_take.mp (List.takeWhile_prefix p)).symm
  rw [ways, ways, hpasses, List.map_cons, htake]
  exact ⟨start, _, rfl⟩

end Regex

end WinDep
