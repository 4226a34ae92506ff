/-
# Replacing delimited tokens

A token is a name between two delimiters that no name contains, so that tokens do
not overlap. Texts are cut at tokens, and a text with some of its tokens replaced
is cut at those that are left. What replaces a token can complete a token that
was not in the text; where it does not, replacing one name after the other is
replacing them all at once.
-/

import WinDep.Data.KeyedList
import Mathlib.Data.List.Find
import Mathlib.Data.List.Infix
import Mathlib.Logic.Function.Basic
import Mathlib.Tactic.SplitIfs

namespace WinDep.Tokens

open Function

section

variable {α : Type} {o c : α}

/-- A name without delimiters. -/
abbrev Name (opening closing : α) := {k : List α // opening ∉ k ∧ closing ∉ k}

/-- A name between its delimiters. -/
def token (k : Name o c) : List α := o :: (k.1 ++ [c])

variable {A B x : List α} {k l : Name o c}

theorem concat_prefix (hk : c ∉ A) (hl : c ∉ B) : A ++ [c] <+: B ++ c :: x ↔ A = B := by
  induction A generalizing B with
  | nil =>
    cases B with
    | nil => simp
    | cons b B =>
      have hne : c ≠ b := fun h => hl (h ▸ List.mem_cons_self)
      simp [hne]
  | cons a A ih =>
    have ha : a ≠ c := fun h => hk (h ▸ List.mem_cons_self)
    have hA : c ∉ A := fun h => hk (List.mem_cons_of_mem _ h)
    cases B with
    | nil => simp [ha]
    | cons b B =>
      have hB : c ∉ B := fun h => hl (List.mem_cons_of_mem _ h)
      rw [List.cons_append, List.cons_append, List.cons_prefix_cons, ih hA hB, List.cons.injEq]

/-- Two tokens at one place are the same. -/
theorem token_prefix_token : token k <+: token l ++ B ↔ k = l := by
  have happend : token l ++ B = o :: (l.1 ++ c :: B) := by simp [token]
  rw [happend, token, List.cons_prefix_cons, concat_prefix k.2.2 l.2.2, Subtype.ext_iff]
  simp

/-- What begins a text and has not a letter of it ends before that letter. -/
theorem prefix_of_prefix_append_cons {p : List α} {a : α} (ha : a ∉ p) (h : p <+: A ++ a :: B) :
    p <+: A := by
  rcases le_total p.length A.length with hlen | hlen
  · exact List.prefix_of_prefix_length_le h (List.prefix_append _ _) hlen
  · obtain ⟨R, rfl⟩ := List.prefix_of_prefix_length_le (List.prefix_append A (a :: B)) h hlen
    cases R with
    | nil => rw [List.append_nil]
    | cons r R =>
      rw [List.prefix_append_right_inj, List.cons_prefix_cons] at h
      exact absurd (h.1 ▸ by simp) ha

/-- A token that begins before another one ends before it. -/
theorem token_prefix_append (hoc : o ≠ c) (hA : A ≠ []) :
    token k <+: A ++ (token l ++ B) ↔ token k <+: A := by
  refine ⟨fun h => ?_, fun h => h.trans (List.prefix_append _ _)⟩
  rcases le_total (token k).length A.length with hlen | hlen
  · exact List.prefix_of_prefix_length_le h (List.prefix_append _ _) hlen
  · obtain ⟨R, hR⟩ := List.prefix_of_prefix_length_le (List.prefix_append A (token l ++ B)) h hlen
    rw [← hR, List.prefix_append_right_inj] at h
    cases R with
    | nil => rw [← hR, List.append_nil]
    | cons r R =>
      -- the name would have to contain the delimiter that opens the second token
      obtain rfl : r = o := (List.cons_prefix_cons.mp h).1
      obtain ⟨a, A, rfl⟩ := List.exists_cons_of_ne_nil hA
      have hname : A ++ r :: R = k.1 ++ [c] := (List.cons.inj hR).2
      have hmem : r ∈ k.1 ++ [c] := hname ▸ by simp
      rcases List.mem_append.mp hmem with hk | hc
      · exact absurd hk k.2.1
      · exact absurd (List.mem_singleton.mp hc) hoc

end

variable {α : Type} [DecidableEq α] {o c : α}

/-- Replace the tokens of a table, from left to right, after skipping some letters. What replaces
them is not looked at. -/
def substitute (table : List (Name o c × List α)) : ℕ → List α → List α
  | _, [] => []
  | skip + 1, _ :: cs => substitute table skip cs
  | 0, x :: cs =>
    match table.find? fun e => (token e.1).isPrefixOf (x :: cs) with
    | some e => e.2 ++ substitute table ((token e.1).length - 1) cs
    | none => x :: substitute table 0 cs

/-- Replace one name after the other. What replaced a name is looked at for the names after it. -/
def replaceEach (table : List (Name o c × List α)) (text : List α) : List α :=
  table.foldl (fun text e => substitute [e] 0 text) text

/-- How often a pattern occurs in a text. -/
def occurrences (pattern : List α) : List α → ℕ
  | [] => 0
  | c :: cs => (if pattern <+: c :: cs then 1 else 0) + occurrences pattern cs

/-- A text cut at tokens. -/
inductive Layout (o c : α)
  | last (text : List α)
  | token (text : List α) (name : Name o c) (rest : Layout o c)

namespace Layout

/-- The text where some names are replaced. -/
def render (value : Name o c → Option (List α)) : Layout o c → List α
  | last text => text
  | token text k rest => text ++ ((value k).getD (Tokens.token k) ++ rest.render value)

/-- The tokens of a name. -/
def count (k : Name o c) : Layout o c → ℕ
  | last _ => 0
  | token _ l rest => (if k = l then 1 else 0) + rest.count k

/-- The texts between the tokens have no token of some names. -/
def Free (names : List (Name o c)) : Layout o c → Prop
  | last text => ∀ k ∈ names, occurrences (Tokens.token k) text = 0
  | token text _ rest => (∀ k ∈ names, occurrences (Tokens.token k) text = 0) ∧ rest.Free names

end Layout

/-! ## Occurrences -/

variable {A B : List α} {k l : Name o c} {a : α} {p v : List α}

theorem occurrences_append_le (p A B : List α) :
    occurrences p A + occurrences p B ≤ occurrences p (A ++ B) := by
  induction A with
  | nil => simp [occurrences]
  | cons a A ih =>
    rw [List.cons_append, occurrences, occurrences]
    by_cases h : p <+: a :: A
    · have h' : p <+: a :: (A ++ B) := h.trans (List.prefix_append (a :: A) B)
      rw [if_pos h, if_pos h']
      omega
    · rw [if_neg h]
      omega

/-- No token begins with a letter that opens none. -/
theorem occurrences_append_of_not_mem (hA : o ∉ A) :
    occurrences (token k) (A ++ B) = occurrences (token k) B := by
  induction A with
  | nil => rfl
  | cons a A ih =>
    rw [List.mem_cons, not_or] at hA
    have hnot : ¬ token k <+: a :: (A ++ B) := fun h => hA.1 (List.cons_prefix_cons.mp h).1
    rw [List.cons_append, occurrences, if_neg hnot, Nat.zero_add, ih hA.2]

theorem occurrences_token_append (hoc : o ≠ c) :
    occurrences (token k) (token l ++ B) = (if k = l then 1 else 0) + occurrences (token k) B := by
  have hrest : o ∉ l.1 ++ [c] := by simp [l.2.1, hoc]
  have htoken : token l ++ B = o :: ((l.1 ++ [c]) ++ B) := rfl
  rw [htoken, occurrences, occurrences_append_of_not_mem hrest, ← htoken]
  simp only [token_prefix_token]

theorem occurrences_append_token (hoc : o ≠ c) (A B : List α) (k l : Name o c) :
    occurrences (token k) (A ++ (token l ++ B)) =
      occurrences (token k) A + ((if k = l then 1 else 0) + occurrences (token k) B) := by
  induction A with
  | nil => rw [List.nil_append, occurrences_token_append hoc, occurrences, Nat.zero_add]
  | cons a A ih =>
    rw [List.cons_append, occurrences, ih, occurrences]
    have hbegins := token_prefix_append (k := k) (l := l) (B := B) hoc (List.cons_ne_nil a A)
    rw [List.cons_append] at hbegins
    simp only [hbegins]
    omega

/-! ## Replacing -/

variable {table : List (Name o c × List α)}

/-- Where no token reaches over the end of a text, the text is replaced for itself. -/
theorem substitute_append (h : ∀ A', A' <:+ A → A' ≠ [] → ∀ e ∈ table,
      token e.1 <+: A' ++ B → token e.1 <+: A') {skip : ℕ} (hskip : skip ≤ A.length) :
    substitute table skip (A ++ B) = substitute table skip A ++ substitute table 0 B := by
  induction A generalizing skip with
  | nil =>
    obtain rfl : skip = 0 := Nat.le_zero.mp hskip
    rfl
  | cons a A ih =>
    have hrest {skip : ℕ} (hskip : skip ≤ A.length) :=
      ih (fun A' hA' => h A' (hA'.trans (List.suffix_cons a A))) hskip
    cases skip with
    | succ skip => exact hrest (Nat.succ_le_succ_iff.mp hskip)
    | zero =>
      have hfind : table.find? (fun e => (token e.1).isPrefixOf (a :: (A ++ B))) =
          table.find? fun e => (token e.1).isPrefixOf (a :: A) := by
        refine List.find?_congr fun e he => ?_
        rw [Bool.eq_iff_iff, List.isPrefixOf_iff_prefix, List.isPrefixOf_iff_prefix]
        exact ⟨h (a :: A) List.suffix_rfl (List.cons_ne_nil a A) e he,
          fun hbegins => hbegins.trans (List.prefix_append (a :: A) B)⟩
      rw [List.cons_append, substitute, substitute, hfind]
      cases hmatch : table.find? fun e => (token e.1).isPrefixOf (a :: A) with
      | none => exact congrArg (a :: ·) (hrest (Nat.zero_le _))
      | some e =>
        -- the token that matches ends within the text
        have hbegins : (token e.1).isPrefixOf (a :: A) = true :=
          List.find?_some
            (p := fun e : Name o c × List α => (token e.1).isPrefixOf (a :: A)) hmatch
        have hlen : (token e.1).length ≤ A.length + 1 :=
          (List.isPrefixOf_iff_prefix.mp hbegins).length_le
        dsimp only
        rw [hrest (by omega), List.append_assoc]

/-- What stands before a token is replaced for itself. -/
theorem substitute_append_token (hoc : o ≠ c) {skip : ℕ} (hskip : skip ≤ A.length) :
    substitute table skip (A ++ (token l ++ B)) =
      substitute table skip A ++ substitute table 0 (token l ++ B) :=
  substitute_append (fun _ _ hA' _ _ => (token_prefix_append hoc hA').mp) hskip

theorem substitute_length (A B : List α) :
    substitute table A.length (A ++ B) = substitute table 0 B := by
  induction A with
  | nil => rfl
  | cons a A ih => exact ih

theorem substitute_cons_of_ne (hA : a ≠ o) :
    substitute table 0 (a :: A) = a :: substitute table 0 A := by
  have hfind : table.find? (fun e => (token e.1).isPrefixOf (a :: A)) = none := by
    refine List.find?_eq_none.mpr fun e _ => ?_
    rw [List.isPrefixOf_iff_prefix, token, List.cons_prefix_cons]
    exact fun h => hA h.1.symm
  rw [substitute, hfind]

/-- Letters that open no token stay. -/
theorem substitute_append_of_not_mem (hA : o ∉ A) :
    substitute table 0 (A ++ B) = A ++ substitute table 0 B := by
  induction A with
  | nil => rfl
  | cons a A ih =>
    rw [List.mem_cons, not_or] at hA
    rw [List.cons_append, substitute_cons_of_ne (Ne.symm hA.1), ih hA.2, List.cons_append]

theorem lookup_eq_find? : table.lookup l = (table.find? fun e => l == e.1).map Prod.snd := by
  induction table with
  | nil => rfl
  | cons e table ih =>
    rw [List.lookup_cons, List.find?_cons]
    cases l == e.1
    · exact ih
    · rfl

/-- A token is replaced by its first entry, if there is one. -/
theorem substitute_token (hoc : o ≠ c) : substitute table 0 (token l ++ B) =
    (table.lookup l).getD (token l) ++ substitute table 0 B := by
  have hfind : table.find? (fun e => (token e.1).isPrefixOf (token l ++ B)) =
      table.find? fun e => l == e.1 := by
    refine List.find?_congr fun e _ => ?_
    rw [Bool.eq_iff_iff, List.isPrefixOf_iff_prefix, token_prefix_token, beq_iff_eq, eq_comm]
  have htoken : token l ++ B = o :: ((l.1 ++ [c]) ++ B) := rfl
  have hrest : o ∉ l.1 ++ [c] := by simp [l.2.1, hoc]
  rw [lookup_eq_find?, ← hfind, htoken, substitute]
  cases hmatch : table.find? fun e => (token e.1).isPrefixOf (o :: ((l.1 ++ [c]) ++ B)) with
  | none =>
    dsimp only [Option.map_none, Option.getD_none]
    rw [substitute_append_of_not_mem hrest]
    rfl
  | some e =>
    rw [← htoken, hfind] at hmatch
    have hl : l = e.1 := beq_iff_eq.mp
      (List.find?_some (p := fun e : Name o c × List α => l == e.1) hmatch)
    have hlen : (token e.1).length - 1 = (l.1 ++ [c]).length := by rw [← hl]; rfl
    dsimp only [Option.map_some, Option.getD_some]
    rw [hlen, substitute_length]

/-- A text without tokens of the table stays. -/
theorem substitute_of_occurrences (h : ∀ e ∈ table, occurrences (token e.1) A = 0) :
    substitute table 0 A = A := by
  induction A with
  | nil => rfl
  | cons a A ih =>
    have hnone : table.find? (fun e => (token e.1).isPrefixOf (a :: A)) = none := by
      refine List.find?_eq_none.mpr fun e he => ?_
      have hzero := h e he
      rw [occurrences] at hzero
      rw [List.isPrefixOf_iff_prefix]
      intro hbegins
      rw [if_pos hbegins] at hzero
      omega
    rw [substitute, hnone]
    refine congrArg (a :: ·) (ih fun e he => ?_)
    have hzero := h e he
    rw [occurrences] at hzero
    omega

theorem substitute_of_free (h : ∀ k ∈ table.map Prod.fst, occurrences (token k) A = 0) :
    substitute table 0 A = A :=
  substitute_of_occurrences fun e he => h e.1 (List.mem_map_of_mem he)

/-! ## Layouts -/

namespace Layout

variable {value value' : Name o c → Option (List α)} {names : List (Name o c)} {y : Layout o c}
  {X : List α}

/-- A text cut at the tokens of some names, from the first on. -/
def cons (a : α) : Layout o c → Layout o c
  | last text => last (a :: text)
  | token text k rest => token (a :: text) k rest

omit [DecidableEq α] in
theorem render_cons : (cons a y).render value = a :: y.render value := by
  cases y <;> rfl

/-- A letter before a cut text, where no token begins with it. -/
theorem Free.cons (h : y.Free names)
    (ha : ∀ k ∈ names, ¬ Tokens.token k <+: a :: y.render fun _ => none) :
    (Layout.cons a y).Free names := by
  have hzero {text : List α} (hpre : text <+: y.render fun _ => none) {k : Name o c}
      (hk : k ∈ names) (htext : occurrences (Tokens.token k) text = 0) :
      occurrences (Tokens.token k) (a :: text) = 0 := by
    have hnot : ¬ Tokens.token k <+: a :: text :=
      fun hhead => ha k hk (hhead.trans (List.cons_prefix_cons.mpr ⟨rfl, hpre⟩))
    rw [occurrences, if_neg hnot, htext]
  cases y with
  | last text => exact fun k hk => hzero List.prefix_rfl hk (h k hk)
  | token text l rest =>
    exact ⟨fun k hk => hzero (List.prefix_append _ _) hk (h.1 k hk), h.2⟩

/-- A text cut at the tokens of some names, from left to right, after skipping some letters. -/
def cut (names : List (Name o c)) : ℕ → List α → Layout o c
  | _, [] => last []
  | skip + 1, _ :: cs => cut names skip cs
  | 0, x :: cs =>
    if x = o then
      match names.find? fun k => (Tokens.token k).isPrefixOf (x :: cs) with
      | some k => token [] k (cut names ((Tokens.token k).length - 1) cs)
      | none => cons x (cut names 0 cs)
    else cons x (cut names 0 cs)

theorem render_cut (names : List (Name o c)) (skip : ℕ) (text : List α) :
    (cut names skip text).render (fun _ => none) = text.drop skip := by
  induction text generalizing skip with
  | nil => exact (List.drop_nil).symm
  | cons x cs ih =>
    cases skip with
    | succ skip => exact ih skip
    | zero =>
      have hkeep : (cons x (cut names 0 cs)).render (fun _ => none) = x :: cs :=
        render_cons.trans (congrArg (x :: ·) (ih 0))
      rw [cut]
      split_ifs
      · cases hmatch : names.find? fun k => (Tokens.token k).isPrefixOf (x :: cs) with
        | none => exact hkeep
        | some k =>
          have hbegins : (Tokens.token k).isPrefixOf (x :: cs) = true :=
            List.find?_some (p := fun k : Name o c => (Tokens.token k).isPrefixOf (x :: cs)) hmatch
          obtain ⟨rest, hrest⟩ := List.isPrefixOf_iff_prefix.mp hbegins
          have hcs : cs = (k.1 ++ [c]) ++ rest := (List.cons.inj hrest).2.symm
          dsimp only
          rw [render, ih, Option.getD_none, List.nil_append, ← hrest, hcs]
          simp [Tokens.token]
      · exact hkeep

/-- No token is left uncut. -/
theorem free_cut (names : List (Name o c)) (skip : ℕ) (text : List α) :
    (cut names skip text).Free names := by
  induction text generalizing skip with
  | nil => exact fun _ _ => rfl
  | cons x cs ih =>
    cases skip with
    | succ skip => exact ih skip
    | zero =>
      have hkeep (h : ∀ k ∈ names, ¬ Tokens.token k <+: x :: cs) :
          (cons x (cut names 0 cs)).Free names := by
        refine (ih 0).cons fun k hk hbegins => h k hk ?_
        rwa [render_cut] at hbegins
      rw [cut]
      split_ifs with hx
      · cases hmatch : names.find? fun k => (Tokens.token k).isPrefixOf (x :: cs) with
        | none =>
          exact hkeep fun k hk hbegins =>
            List.find?_eq_none.mp hmatch k hk (List.isPrefixOf_iff_prefix.mpr hbegins)
        | some k => exact ⟨fun _ _ => rfl, ih _⟩
      · exact hkeep fun k _ hbegins => hx (List.cons_prefix_cons.mp hbegins).1.symm

/-- Every text can be cut at the tokens of some names. -/
theorem exists_layout (names : List (Name o c)) (text : List α) : ∃ y : Layout o c,
    y.render (fun _ => none) = text ∧ y.Free names :=
  ⟨cut names 0 text, render_cut names 0 text, free_cut names 0 text⟩

/-- A text has the tokens it is cut at, and no other ones of these names. -/
theorem occurrences_render (hoc : o ≠ c) (h : y.Free names) (hk : k ∈ names) :
    occurrences (Tokens.token k) (y.render fun _ => none) = y.count k := by
  induction y with
  | last text => exact h k hk
  | token text l rest ih =>
    rw [render, count, Option.getD_none, occurrences_append_token hoc, h.1 k hk, ih h.2,
      Nat.zero_add]

/-- The tokens that are not replaced stay in the text. -/
theorem count_le_occurrences (hoc : o ≠ c) (hk : value k = none) :
    y.count k ≤ occurrences (Tokens.token k) (X ++ y.render value) := by
  induction y generalizing X with
  | last text => exact Nat.zero_le _
  | token text l rest ih =>
    rw [render, count]
    cases hl : value l with
    | none =>
      rw [Option.getD_none, ← List.append_assoc, occurrences_append_token hoc]
      have hrest := ih (X := [])
      rw [List.nil_append] at hrest
      omega
    | some v =>
      have hne : k ≠ l := by
        rintro rfl
        simp [hk] at hl
      rw [if_neg hne, Nat.zero_add, Option.getD_some, ← List.append_assoc, ← List.append_assoc]
      exact ih

/-- Replacing more names leaves at least the tokens of the others. -/
theorem occurrences_mono (hoc : o ≠ c) (hvalue : ∀ l v, value l = some v → value' l = some v)
    (hk : value' k = none) : occurrences (Tokens.token k) (X ++ y.render value) ≤
      occurrences (Tokens.token k) (X ++ y.render value') := by
  induction y generalizing X with
  | last text => exact le_rfl
  | token text l rest ih =>
    rw [render, render]
    cases hl : value l with
    | some v =>
      rw [hvalue l v hl, Option.getD_some, ← List.append_assoc, ← List.append_assoc,
        ← List.append_assoc, ← List.append_assoc]
      exact ih
    | none =>
      have hrest := ih (X := [])
      rw [List.nil_append, List.nil_append] at hrest
      rw [Option.getD_none, ← List.append_assoc, occurrences_append_token hoc]
      cases hl' : value' l with
      | none =>
        rw [Option.getD_none, ← List.append_assoc, occurrences_append_token hoc]
        omega
      | some v =>
        have hne : k ≠ l := by
          rintro rfl
          simp [hk] at hl'
        rw [Option.getD_some, ← List.append_assoc, if_neg hne]
        have hsplit := occurrences_append_le (Tokens.token k) (X ++ text) (v ++ rest.render value')
        have hvalue' := occurrences_append_le (Tokens.token k) v (rest.render value')
        omega

/-- **One name at a time.** Where the text has only the tokens it was cut at, replacing one more
name replaces those. -/
theorem substitute_render (hoc : o ≠ c) (hk : value k = none)
    (h : occurrences (Tokens.token k) (X ++ y.render value) = y.count k) :
    substitute [(k, v)] 0 (X ++ y.render value) = X ++ y.render (update value k (some v)) := by
  induction y generalizing X with
  | last text =>
    refine substitute_of_occurrences fun e he => ?_
    rw [List.mem_singleton.mp he]
    exact h
  | token text l rest ih =>
    rw [render, count] at h
    rw [render, render]
    cases hl : value l with
    | some w =>
      have hne : l ≠ k := by
        rintro rfl
        simp [hk] at hl
      rw [hl, if_neg hne.symm, Nat.zero_add, Option.getD_some, ← List.append_assoc,
        ← List.append_assoc] at h
      rw [update_of_ne hne, hl, Option.getD_some, ← List.append_assoc, ← List.append_assoc, ih h]
      simp only [List.append_assoc]
    | none =>
      have hrest := count_le_occurrences (y := rest) (X := []) hoc hk
      rw [List.nil_append] at hrest
      rw [hl, Option.getD_none, ← List.append_assoc, occurrences_append_token hoc] at h
      have hbefore : occurrences (Tokens.token k) (X ++ text) = 0 := by omega
      have hafter : occurrences (Tokens.token k) ([] ++ rest.render value) = rest.count k := by
        rw [List.nil_append]
        omega
      have hih := ih hafter
      rw [List.nil_append, List.nil_append] at hih
      have hkeep : substitute [(k, v)] 0 (X ++ text) = X ++ text := by
        refine substitute_of_occurrences fun e he => ?_
        rw [List.mem_singleton.mp he]
        exact hbefore
      have hlookup : ([(k, v)] : List (Name o c × List α)).lookup l =
          update value k (some v) l := by
        by_cases hkl : l = k
        · rw [hkl, update_self, List.lookup_cons_self]
        · rw [update_of_ne hkl, hl, List.lookup_cons, beq_false_of_ne hkl]
          rfl
      rw [Option.getD_none, ← List.append_assoc, substitute_append_token hoc (Nat.zero_le _), hkeep,
        substitute_token hoc, hih, hlookup, List.append_assoc]

/-- **All names at once.** -/
theorem substitute_table (hoc : o ≠ c) (h : y.Free (table.map Prod.fst)) :
    substitute table 0 (y.render fun _ => none) = y.render (fun l => table.lookup l) := by
  induction y with
  | last text => exact substitute_of_free h
  | token text l rest ih =>
    rw [render, render, Option.getD_none, substitute_append_token hoc (Nat.zero_le _),
      substitute_of_free h.1, substitute_token hoc, ih h.2]

end Layout

/-! ## One name after the other -/

variable {text : List α} {done rest : List (Name o c × List α)} {e : Name o c × List α}

/-- Every name is replaced where the text has it, and nowhere else. -/
def Steps (text : List α) (table : List (Name o c × List α)) : Prop :=
  ∀ done e rest, table = done ++ e :: rest →
    occurrences (token e.1) (replaceEach done text) = occurrences (token e.1) text

theorem replaceEach_cons :
    replaceEach (e :: table) text = replaceEach table (substitute [e] 0 text) := rfl

theorem replaceEach_append :
    replaceEach (table ++ rest) text = replaceEach rest (replaceEach table text) :=
  List.foldl_append

theorem replaceEach_concat :
    replaceEach (table ++ [e]) text = substitute [e] 0 (replaceEach table text) :=
  replaceEach_append

theorem Steps.of_append (h : Steps text (table ++ rest)) : Steps text table :=
  fun done e rest' htable => h done e (rest' ++ rest) (by simp [htable])

theorem lookup_concat (hk : e.1 ∉ table.map Prod.fst) :
    (fun l => (table ++ [e]).lookup l) = update (fun l => table.lookup l) e.1 (some e.2) := by
  funext l
  rw [List.lookup_append]
  by_cases hl : l = e.1
  · have hnone : table.lookup l = none := KeyedList.lookup_eq_none_of_not_mem (hl ▸ hk)
    rw [hnone, Option.none_or, hl, update_self, KeyedList.lookup_cons_ite, if_pos rfl]
  · rw [update_of_ne hl, KeyedList.lookup_cons_ite, if_neg hl, List.lookup_nil, Option.or_none]

/-- Where every step replaces what the text has, the steps replace all names at once. -/
theorem replaceEach_render (hoc : o ≠ c) {names : List (Name o c)} {y : Layout o c}
    (hfree : y.Free names) (hnames : ∀ e ∈ table, e.1 ∈ names)
    (hnodup : (table.map Prod.fst).Nodup) (h : Steps (y.render fun _ => none) table) :
    replaceEach table (y.render fun _ => none) = y.render fun l => table.lookup l := by
  induction table using List.reverseRecOn with
  | nil => rfl
  | append_singleton table e ih =>
    rw [List.map_append, List.map_singleton, List.nodup_append] at hnodup
    have hk : e.1 ∉ table.map Prod.fst := fun hmem => hnodup.2.2 _ hmem _ (by simp) rfl
    have hnone : table.lookup e.1 = none := KeyedList.lookup_eq_none_of_not_mem hk
    have hstep := h table e [] rfl
    have hbefore := ih (fun e' he' => hnames e' (by simp [he'])) hnodup.1 h.of_append
    rw [hbefore, Layout.occurrences_render hoc hfree (hnames e (by simp))] at hstep
    have hone := Layout.substitute_render (X := []) (v := e.2) hoc hnone hstep
    rw [replaceEach_concat, hbefore, lookup_concat hk]
    exact hone

theorem Layout.Free.mono {names names' : List (Name o c)} {y : Layout o c} (h : y.Free names)
    (hsub : ∀ k ∈ names', k ∈ names) : y.Free names' := by
  induction y with
  | last text => exact fun k hk => h k (hsub k hk)
  | token text l rest ih => exact ⟨fun k hk => h.1 k (hsub k hk), ih h.2⟩

/-- All entries but those of one name. -/
def others (e : Name o c × List α) (table : List (Name o c × List α)) :
    List (Name o c × List α) :=
  table.filter fun e' => e'.1 ≠ e.1

theorem lookup_others (e : Name o c × List α) (table : List (Name o c × List α)) :
    (others e table).lookup e.1 = none := by
  refine KeyedList.lookup_eq_none_of_not_mem fun hmem => ?_
  obtain ⟨e', he', hee⟩ := List.mem_map.mp hmem
  simp [others, hee] at he'

theorem others_concat_perm (hnodup : (table.map Prod.fst).Nodup) (he : e ∈ table) :
    (others e table ++ [e]).Perm table := by
  induction table with
  | nil => cases he
  | cons e' table ih =>
    obtain ⟨hk, hnodup⟩ := List.nodup_cons.mp hnodup
    by_cases hee : e'.1 = e.1
    · have hrest : others e table = table := by
        refine List.filter_eq_self.mpr fun e'' he'' => ?_
        have hne : e''.1 ≠ e.1 := fun h => hk (hee ▸ h ▸ List.mem_map_of_mem he'')
        simpa using hne
      have hsame : e' = e := by
        rcases List.mem_cons.mp he with rfl | he
        · rfl
        · exact absurd (List.mem_map_of_mem he) (hee ▸ hk)
      have hothers : others e (e' :: table) = table := by
        rw [others, List.filter_cons_of_neg (by simpa using hee)]
        exact hrest
      rw [hothers, hsame]
      exact List.perm_append_singleton e table
    · have hothers : others e (e' :: table) = e' :: others e table :=
        List.filter_cons_of_pos (by simpa using hee)
      rw [hothers]
      exact (ih hnodup ((List.mem_cons.mp he).resolve_left fun h => hee (h ▸ rfl))).cons e'

theorem steps_concat (h : Steps text table)
    (he : occurrences (token e.1) (replaceEach table text) = occurrences (token e.1) text) :
    Steps text (table ++ [e]) := by
  intro done e' rest htable
  rcases List.eq_nil_or_concat rest with rfl | ⟨rest, last, rfl⟩
  · obtain ⟨rfl, hee⟩ := List.append_inj' htable rfl
    cases hee
    exact he
  · rw [List.concat_eq_append, ← List.cons_append, ← List.append_assoc] at htable
    exact h done e' rest (List.append_inj' htable rfl).1

/-- **Orders.** The names can be replaced one after the other in any order, each where the text has
it and nowhere else, exactly when no replacement completes a token: replacing all other names at
once leaves the tokens of a name that the text has. -/
theorem replaceEach_iff (hoc : o ≠ c) (hnodup : (table.map Prod.fst).Nodup) (text : List α) :
    (∀ order, order.Perm table →
      replaceEach order text = substitute table 0 text ∧ Steps text order) ↔
      ∀ e ∈ table, occurrences (token e.1) (substitute (others e table) 0 text) =
        occurrences (token e.1) text := by
  obtain ⟨y, rfl, hfree⟩ := Layout.exists_layout (table.map Prod.fst) text
  have hnames {order : List (Name o c × List α)} (hsub : ∀ e ∈ order, e ∈ table) :
      ∀ e ∈ order, e.1 ∈ table.map Prod.fst := fun e he => List.mem_map_of_mem (hsub e he)
  have hothers (e : Name o c × List α) : ∀ e' ∈ others e table, e' ∈ table :=
    fun e' he' => List.mem_of_mem_filter he'
  -- replacing all other names at once replaces them in the layout
  have hrender (e : Name o c × List α) : substitute (others e table) 0 (y.render fun _ => none) =
      y.render fun l => (others e table).lookup l := by
    refine Layout.substitute_table hoc (hfree.mono fun k hk => ?_)
    obtain ⟨e', he', rfl⟩ := List.mem_map.mp hk
    exact hnames (hothers e) e' he'
  constructor
  · intro h e he
    have hsteps := (h _ (others_concat_perm hnodup he)).2
    have hsub : ((others e table).map Prod.fst).Sublist (table.map Prod.fst) :=
      List.filter_sublist.map Prod.fst
    have hrun := replaceEach_render hoc hfree (hnames (hothers e)) (hnodup.sublist hsub)
      hsteps.of_append
    rw [hrender, ← hrun]
    exact hsteps _ e [] rfl
  · intro h order hperm
    have hmem : ∀ e ∈ order, e ∈ table := fun e he => hperm.mem_iff.mp he
    have hnodup' : (order.map Prod.fst).Nodup := (hperm.map Prod.fst).nodup_iff.mpr hnodup
    have hsteps : ∀ done, done <+: order → Steps (y.render fun _ => none) done := by
      intro done hdone
      induction done using List.reverseRecOn with
      | nil => exact fun done e rest h => by simp at h
      | append_singleton done e ih =>
        obtain ⟨rest, rfl⟩ := hdone
        have hdone := ih ⟨[e] ++ rest, (List.append_assoc _ _ _).symm⟩
        rw [List.map_append, List.map_append, List.map_singleton, List.nodup_append,
          List.nodup_append] at hnodup'
        have hk : e.1 ∉ done.map Prod.fst := fun hk => hnodup'.1.2.2 _ hk _ (by simp) rfl
        have hrun := replaceEach_render hoc hfree (hnames fun e' he' => hmem e' (by simp [he']))
          hnodup'.1.1 hdone
        refine steps_concat hdone (le_antisymm ?_ ?_)
        · rw [hrun, ← h e (hmem e (by simp)), hrender]
          refine Layout.occurrences_mono (X := []) hoc (fun l v hl => ?_) (lookup_others e table)
          have hdone : (l, v) ∈ done := KeyedList.mem_of_lookup_eq_some hl
          have hne : l ≠ e.1 := fun hle => hk (hle ▸ List.mem_map_of_mem hdone)
          have hsub : ((others e table).map Prod.fst).Sublist (table.map Prod.fst) :=
            List.filter_sublist.map Prod.fst
          rw [KeyedList.lookup_eq_some_iff_of_nodup (hnodup.sublist hsub)]
          exact List.mem_filter.mpr ⟨hmem _ (by simp [hdone]), by simpa using hne⟩
        · rw [hrun, Layout.occurrences_render hoc hfree (hnames hmem e (by simp))]
          exact Layout.count_le_occurrences (X := []) hoc (KeyedList.lookup_eq_none_of_not_mem hk)
    have hrun := replaceEach_render hoc hfree (hnames hmem) hnodup' (hsteps order List.prefix_rfl)
    refine ⟨?_, hsteps order List.prefix_rfl⟩
    rw [hrun, Layout.substitute_table hoc hfree]
    congr 1
    funext l
    exact KeyedList.lookup_perm hperm hnodup

end WinDep.Tokens
