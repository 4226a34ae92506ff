/-
# Printed JSON is scanned back

Every printed value is scanned to itself, with what follows it left over, as
long as what follows does not continue a number. The induction is on the value;
the elements of an array and the members of an object are read one by one with
the counter that the length of their text provides.
-/

import WinDep.Data.JsonText
import Mathlib.Data.List.DropRight

namespace WinDep.Json

variable {html : Bool} {depth fuel : ℕ} {cs rest : List Char}

/-! ## Blanks -/

@[simp] theorem skipSpace_newline : skipSpace (newline depth ++ cs) = skipSpace cs := by
  have hblank : ∀ c ∈ List.replicate (2 * depth) ' ', decide (IsSpace c) = true := by
    intro c hc
    rw [List.eq_of_mem_replicate hc]
    decide
  rw [newline, List.cons_append, skipSpace, List.dropWhile_cons_of_pos (by decide),
    List.dropWhile_append_of_pos hblank, skipSpace]

theorem skipSpace_cons {c : Char} (hc : ¬ IsSpace c) : skipSpace (c :: cs) = c :: cs := by
  rw [skipSpace, List.dropWhile_cons_of_neg (by simpa using hc)]

@[simp] theorem skipSpace_skipSpace : skipSpace (skipSpace cs) = skipSpace cs :=
  List.dropWhile_idempotent _ _

theorem scanValue_skipSpace : scanValue fuel (skipSpace cs) = scanValue fuel cs := by
  cases fuel with
  | zero => rfl
  | succ fuel => rw [scanValue, skipSpace_skipSpace, scanValue]

theorem scanValue_newline : scanValue fuel (newline depth ++ cs) = scanValue fuel cs := by
  rw [← scanValue_skipSpace, skipSpace_newline, scanValue_skipSpace]

theorem scanItems_skipSpace : scanItems fuel (skipSpace cs) = scanItems fuel cs := by
  cases fuel with
  | zero => rfl
  | succ fuel => rw [scanItems, scanValue_skipSpace, scanItems]

theorem scanMembers_skipSpace : scanMembers fuel (skipSpace cs) = scanMembers fuel cs := by
  cases fuel with
  | zero => rfl
  | succ fuel => rw [scanMembers, skipSpace_skipSpace, scanMembers]

/-! ## The first character of a value -/

/-- A character that can begin a value. -/
def Opens (c : Char) : Prop := ¬ IsSpace c ∧ c ≠ ']'

theorem printValue_head (html : Bool) (depth : ℕ) (v : Json) :
    ∃ c cs, printValue html depth v = c :: cs ∧ Opens c := by
  have opens (c : Char) (h : c ∈ ['n', 't', 'f', '"', '[', '\x7b', '-']) : Opens c := by
    simp only [List.mem_cons, List.not_mem_nil, or_false] at h
    unfold Opens
    rcases h with rfl | rfl | rfl | rfl | rfl | rfl | rfl <;> decide
  match v with
  | .null => exact ⟨_, _, by rw [printValue], opens _ (by simp)⟩
  | .bool true => exact ⟨_, _, by rw [printValue], opens _ (by simp)⟩
  | .bool false => exact ⟨_, _, by rw [printValue], opens _ (by simp)⟩
  | .str s => exact ⟨_, _, by rw [printValue, quote], opens _ (by simp)⟩
  | .arr [] => exact ⟨_, _, by rw [printValue], opens _ (by simp)⟩
  | .arr (w :: items) => exact ⟨_, _, by rw [printValue]; simp, opens _ (by simp)⟩
  | .obj [] => exact ⟨_, _, by rw [printValue], opens _ (by simp)⟩
  | .obj (m :: ms) => exact ⟨_, _, by rw [printValue]; simp, opens _ (by simp)⟩
  | .num n =>
    obtain ⟨c, cs, hprint, rfl | hdigit⟩ := n.print_head
    · exact ⟨_, cs, by rw [printValue, hprint], opens _ (by simp)⟩
    · refine ⟨c, cs, by rw [printValue, hprint], ?_, ?_⟩
      · rintro (rfl | rfl | rfl | rfl) <;> simp [Char.isDigit] at hdigit
      · rintro rfl
        simp [Char.isDigit] at hdigit

theorem skipSpace_printValue (v : Json) :
    skipSpace (printValue html depth v ++ cs) = printValue html depth v ++ cs := by
  obtain ⟨c, tail, hprint, hopens⟩ := printValue_head html depth v
  rw [hprint, List.cons_append, skipSpace_cons hopens.1]

/-! ## One step of the scanner -/

theorem scanWord_append (word : List Char) (v : Json) :
    scanWord word v (word ++ rest) = some (v, rest) := by
  simp [scanWord]

theorem scanValue_array {c : Char} {tail : List Char} (h : skipSpace cs = c :: tail)
    (hc : c ≠ ']') :
    scanValue (fuel + 1) ('[' :: cs) = (scanItems fuel cs).map fun r => (.arr r.1, r.2) := by
  rw [← @scanItems_skipSpace fuel cs, h, scanValue, skipSpace_cons (by decide)]
  simp [h, hc]

theorem scanValue_object {c : Char} {tail : List Char} (h : skipSpace cs = c :: tail)
    (hc : c ≠ '\x7d') :
    scanValue (fuel + 1) ('\x7b' :: cs) = (scanMembers fuel cs).map fun r => (.obj r.1, r.2) := by
  rw [← @scanMembers_skipSpace fuel cs, h, scanValue, skipSpace_cons (by decide)]
  simp [h, hc]

theorem scanValue_num (n : Number) (hrest : Number.Ends rest) :
    scanValue (fuel + 1) (n.print ++ rest) = some (.num n, rest) := by
  have hscan := Number.scan_print n hrest
  have hskip := @skipSpace_printValue true 0 rest (.num n)
  obtain ⟨c, cs, hprint, hc⟩ := n.print_head
  rw [printValue, hprint, List.cons_append] at hskip
  rw [hprint, List.cons_append] at hscan ⊢
  -- a number is tried last, after the first characters of every other value
  have hne : ∀ d ∈ ['"', '[', '\x7b', 'n', 't', 'f'], c ≠ d := by
    rintro d hd rfl
    simp only [List.mem_cons, List.not_mem_nil, or_false] at hd
    rcases hc with rfl | hc
    · simp at hd
    · rcases hd with rfl | rfl | rfl | rfl | rfl | rfl <;> simp [Char.isDigit] at hc
  rw [scanValue, hskip]
  simp only [hne _ (by simp : '"' ∈ _), hne _ (by simp : '[' ∈ _), hne _ (by simp : '\x7b' ∈ _),
    hne _ (by simp : 'n' ∈ _), hne _ (by simp : 't' ∈ _), hne _ (by simp : 'f' ∈ _), if_false,
    hscan, Option.map_some]

theorem ends_comma (isLast : Bool) (hrest : Number.Ends rest) :
    Number.Ends (comma isLast ++ rest) := by
  cases isLast with
  | true => exact hrest
  | false => simp [comma, Number.Ends, Char.isDigit]

theorem ends_newline : Number.Ends (newline depth ++ cs) := by
  simp [newline, Number.Ends, Char.isDigit]

theorem ends_printItems (html : Bool) (depth : ℕ) (items : List Json) (outer : ℕ)
    (cs : List Char) : Number.Ends (printItems html depth items ++ (newline outer ++ cs)) := by
  cases items with
  | nil => exact ends_newline
  | cons v items =>
    simp only [printItems, List.append_assoc]
    exact ends_newline

theorem ends_printMembers (html : Bool) (depth : ℕ) (ms : List (String × Json)) (outer : ℕ)
    (cs : List Char) : Number.Ends (printMembers html depth ms ++ (newline outer ++ cs)) := by
  cases ms with
  | nil => exact ends_newline
  | cons m ms =>
    simp only [printMembers, List.append_assoc]
    exact ends_newline

theorem skipSpace_printItems (html : Bool) (depth : ℕ) (v : Json) (items : List Json)
    (cs : List Char) :
    ∃ c tail, skipSpace (printItems html depth (v :: items) ++ cs) = c :: tail ∧ c ≠ ']' := by
  obtain ⟨c, tail, hprint, hopens⟩ := printValue_head html depth v
  refine ⟨c, tail ++ (comma items.isEmpty ++ (printItems html depth items ++ cs)), ?_, hopens.2⟩
  simp only [printItems, List.append_assoc, skipSpace_newline, skipSpace_printValue]
  rw [hprint, List.cons_append]

theorem skipSpace_printMembers (html : Bool) (depth : ℕ) (m : String × Json)
    (ms : List (String × Json)) (cs : List Char) :
    ∃ tail, skipSpace (printMembers html depth (m :: ms) ++ cs) = '"' :: tail := by
  obtain ⟨k, v⟩ := m
  simp only [printMembers, List.append_assoc, skipSpace_newline, quote, List.cons_append]
  exact ⟨_, skipSpace_cons (by decide)⟩

theorem skipSpace_blank : skipSpace (' ' :: cs) = skipSpace cs := by
  rw [skipSpace, List.dropWhile_cons_of_pos (by decide), skipSpace]

/-! ## Round trip -/

-- The induction is on the counter. A value leaves one call to its elements and every element
-- one to the next, and each of these calls is paid for by a character of the text.
mutual

theorem scanValue_print : ∀ (v : Json) (depth fuel : ℕ) (rest : List Char),
    2 * (printValue html depth v).length + 1 ≤ fuel → Number.Ends rest →
    scanValue fuel (printValue html depth v ++ rest) = some (v, rest)
  | v, depth, 0, _, hfuel, _ => by omega
  | .null, depth, fuel + 1, rest, _, _ => by
    rw [scanValue, skipSpace_printValue, printValue]
    simpa using scanWord_append ['u', 'l', 'l'] .null
  | .bool true, depth, fuel + 1, rest, _, _ => by
    rw [scanValue, skipSpace_printValue, printValue]
    simpa using scanWord_append ['r', 'u', 'e'] (.bool true)
  | .bool false, depth, fuel + 1, rest, _, _ => by
    rw [scanValue, skipSpace_printValue, printValue]
    simpa using scanWord_append ['a', 'l', 's', 'e'] (.bool false)
  | .str s, depth, fuel + 1, rest, _, _ => by
    rw [scanValue, skipSpace_printValue, printValue]
    simp [quote, scanString_quote]
  | .num n, depth, fuel + 1, rest, _, hrest => by
    rw [printValue]
    exact scanValue_num n hrest
  | .arr [], depth, fuel + 1, rest, _, _ => by
    rw [scanValue, skipSpace_printValue, printValue]
    simp [skipSpace_cons (show ¬ IsSpace ']' by decide)]
  | .arr (v :: items), depth, fuel + 1, rest, hfuel, _ => by
    have htext : printValue html depth (.arr (v :: items)) =
        '[' :: (printItems html (depth + 1) (v :: items) ++ newline depth ++ [']']) := by
      rw [printValue]
      simp
    rw [htext] at hfuel ⊢
    simp only [List.length_cons, List.length_append, List.length_nil] at hfuel
    have hitems := scanItems_print v items (depth + 1) depth fuel rest (by omega)
    -- no element begins like the closing bracket of an empty array
    obtain ⟨c, tail, hskip, hc⟩ := skipSpace_printItems html (depth + 1) v items
      (newline depth ++ ']' :: rest)
    rw [List.cons_append, List.append_assoc, List.append_assoc, List.singleton_append,
      scanValue_array hskip hc, hitems, Option.map_some]
  | .obj [], depth, fuel + 1, rest, _, _ => by
    rw [scanValue, skipSpace_printValue, printValue]
    simp [skipSpace_cons (show ¬ IsSpace '\x7d' by decide)]
  | .obj (m :: ms), depth, fuel + 1, rest, hfuel, _ => by
    have htext : printValue html depth (.obj (m :: ms)) =
        '\x7b' :: (printMembers html (depth + 1) (m :: ms) ++ newline depth ++ ['\x7d']) := by
      rw [printValue]
      simp
    rw [htext] at hfuel ⊢
    simp only [List.length_cons, List.length_append, List.length_nil] at hfuel
    have hmembers := scanMembers_print m ms (depth + 1) depth fuel rest (by omega)
    -- a member begins with a quote, so the object is not taken for an empty one
    obtain ⟨tail, hskip⟩ := skipSpace_printMembers html (depth + 1) m ms
      (newline depth ++ '\x7d' :: rest)
    rw [List.cons_append, List.append_assoc, List.append_assoc, List.singleton_append,
      scanValue_object hskip (by decide), hmembers, Option.map_some]
termination_by structural _ _ fuel => fuel

theorem scanItems_print : ∀ (v : Json) (items : List Json) (depth outer fuel : ℕ)
    (rest : List Char), 2 * (printItems html depth (v :: items)).length ≤ fuel →
    scanItems fuel (printItems html depth (v :: items) ++ (newline outer ++ ']' :: rest)) =
      some (v :: items, rest)
  | v, items, depth, outer, 0, rest, hfuel => by
    simp [printItems, newline] at hfuel
  | v, items, depth, outer, fuel + 1, rest, hfuel => by
    rw [printItems] at hfuel ⊢
    simp only [List.length_append, newline, List.length_cons] at hfuel
    -- the comma or the closing line ends a number that stands before it
    have hvalue := scanValue_print v depth fuel
      (comma items.isEmpty ++ (printItems html depth items ++ (newline outer ++ ']' :: rest)))
      (by omega)
      (ends_comma _ (ends_printItems html depth items outer _))
    simp only [List.append_assoc]
    rw [scanItems, scanValue_newline, hvalue]
    match items, hfuel with
    | [], _ =>
      simp [comma, printItems, skipSpace_cons (show ¬ IsSpace ']' by decide)]
    | w :: items, hfuel =>
      have hitems := scanItems_print w items depth outer fuel rest (by omega)
      simp only [Option.bind_eq_bind, Option.bind_some, comma, List.isEmpty_cons,
        Bool.false_eq_true, if_false, List.singleton_append,
        skipSpace_cons (show ¬ IsSpace ',' by decide), hitems, Option.map_some]
termination_by structural _ _ _ _ fuel => fuel

theorem scanMembers_print : ∀ (m : String × Json) (ms : List (String × Json))
    (depth outer fuel : ℕ) (rest : List Char),
    2 * (printMembers html depth (m :: ms)).length ≤ fuel →
    scanMembers fuel (printMembers html depth (m :: ms) ++ (newline outer ++ '\x7d' :: rest)) =
      some (m :: ms, rest)
  | (k, v), ms, depth, outer, 0, rest, hfuel => by
    simp [printMembers, newline] at hfuel
  | (k, v), ms, depth, outer, fuel + 1, rest, hfuel => by
    rw [printMembers] at hfuel ⊢
    simp only [List.length_append, newline, List.length_cons] at hfuel
    have hvalue := scanValue_print v depth fuel
      (comma ms.isEmpty ++ (printMembers html depth ms ++ (newline outer ++ '\x7d' :: rest)))
      (by omega)
      (ends_comma _ (ends_printMembers html depth ms outer _))
    simp only [List.append_assoc, quote, List.cons_append, List.nil_append]
    rw [scanMembers, skipSpace_newline, skipSpace_cons (by decide)]
    simp only [scanString_quote, Option.bind_eq_bind, Option.bind_some,
      skipSpace_cons (show ¬ IsSpace ':' by decide)]
    rw [← scanValue_skipSpace, skipSpace_blank, scanValue_skipSpace, hvalue]
    match ms, hfuel with
    | [], _ =>
      simp [comma, printMembers, skipSpace_cons (show ¬ IsSpace '\x7d' by decide)]
    | m :: ms, hfuel =>
      have hmembers := scanMembers_print m ms depth outer fuel rest (by omega)
      simp only [Option.bind_some, comma, List.isEmpty_cons,
        Bool.false_eq_true, if_false, List.singleton_append,
        skipSpace_cons (show ¬ IsSpace ',' by decide), hmembers, Option.map_some]
termination_by structural _ _ _ _ fuel => fuel

end

/-- **Round trip.** The text of a value holds exactly that value. -/
theorem parse_printValue (html : Bool) (v : Json) : parse (printValue html 0 v) = some v := by
  have hscan := @scanValue_print html v 0 (2 * (printValue html 0 v).length + 2) [] (by omega)
    (by simp [Number.Ends])
  rw [List.append_nil] at hscan
  simp [parse, scanFirst, hscan, skipSpace]

end WinDep.Json
