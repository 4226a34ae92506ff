/-
# Texts with holes

The tokens of a text are holes in it. Where letters that no token has stand around a
hole, what is put into it completes no token with the text around it, so names that are
replaced one after the other are replaced in every hole for itself. And where letters
are written by others that begin no token, a written text is replaced like the text.
-/

import WinDep.Data.Tokens

namespace WinDep.Tokens

variable {α : Type} {o c : α}

namespace Layout

variable {y : Layout o c} {value value' : Name o c → Option (List α)}

/-- What stands before the first hole. -/
def start : Layout o c → List α
  | last text => text
  | token text _ _ => text

/-- The names of the holes. -/
def holes : Layout o c → List (Name o c)
  | last _ => []
  | token _ k rest => k :: rest.holes

/-- Letters of one kind stand before and behind every hole. -/
def Bordered (border : α → Bool) : Layout o c → Bool
  | last _ => true
  | token text _ rest =>
    text.getLast?.any border && rest.start.head?.any border && rest.Bordered border

/-- No text around the holes opens a token. -/
def Unopened [DecidableEq α] : Layout o c → Bool
  | last text => o ∉ text
  | token text _ rest => o ∉ text && rest.Unopened

/-- Such a layout has no token of any name but in its holes. -/
theorem free_of_unopened [DecidableEq α] (h : y.Unopened) (names : List (Name o c)) :
    y.Free names := by
  have hzero {text : List α} (htext : o ∉ text) (k : Name o c) :
      occurrences (Tokens.token k) text = 0 := by
    rw [← text.append_nil, occurrences_append_of_not_mem htext, occurrences]
  induction y with
  | last text => exact fun k _ => hzero (of_decide_eq_true h) k
  | token text l rest ih =>
    rw [Unopened, Bool.and_eq_true, decide_eq_true_eq] at h
    exact ⟨fun k _ => hzero h.1 k, ih h.2⟩

theorem render_congr (h : ∀ k ∈ y.holes, value k = value' k) :
    y.render value = y.render value' := by
  induction y with
  | last text => rfl
  | token text k rest ih =>
    obtain ⟨hk, hrest⟩ := List.forall_mem_cons.mp h
    rw [render, render, hk, ih hrest]

/-- The holes of a text are filled with their tokens. -/
theorem render_none (y : Layout o c) :
    y.render (fun _ => none) = y.render fun k => some (Tokens.token k) := by
  induction y with
  | last text => rfl
  | token text k rest ih => rw [render, render, ih, Option.getD_none, Option.getD_some]

theorem start_prefix (y : Layout o c) (value : Name o c → Option (List α)) :
    y.start <+: y.render value := by
  cases y with
  | last text => exact List.prefix_rfl
  | token text k rest => exact List.prefix_append _ _

theorem head?_render {x : α} (h : y.start.head? = some x) (value : Name o c → Option (List α)) :
    ∃ R, y.render value = x :: R := by
  obtain ⟨B, hB⟩ := List.head?_eq_some_iff.mp h
  obtain ⟨C, hC⟩ := y.start_prefix value
  exact ⟨B ++ C, by rw [← hC, hB, List.cons_append]⟩

end Layout

/-! ## Written letters -/

section

variable {write : α → List α} {k : Name o c} {A p : List α}

/-- Every letter is written as itself, or it is in no token and what writes it begins none. -/
def Apart (write : α → List α) (k : Name o c) : Prop :=
  ∀ a, write a = [a] ∨ a ∉ token k ∧ ∃ b B, write a = b :: B ∧ b ∉ token k ∧ o ∉ B

theorem prefix_flatMap (h : ∀ a, write a = [a] ∨ a ∉ p ∧ ∃ b B, write a = b :: B ∧ b ∉ p) :
    p <+: A.flatMap write ↔ p <+: A := by
  induction p generalizing A with
  | nil => simp
  | cons x p ih =>
    have hrest : ∀ a, write a = [a] ∨ a ∉ p ∧ ∃ b B, write a = b :: B ∧ b ∉ p := fun a =>
      (h a).imp_right fun ⟨ha, b, B, hw, hb⟩ =>
        ⟨fun hmem => ha (List.mem_cons_of_mem x hmem), b, B, hw,
          fun hmem => hb (List.mem_cons_of_mem x hmem)⟩
    cases A with
    | nil => simp
    | cons a A =>
      rw [List.flatMap_cons]
      rcases h a with hw | ⟨ha, b, B, hw, hb⟩
      · rw [hw, List.singleton_append, List.cons_prefix_cons, List.cons_prefix_cons, ih hrest]
      · rw [hw, List.cons_append, List.cons_prefix_cons, List.cons_prefix_cons]
        rw [List.mem_cons, not_or] at ha hb
        simp [Ne.symm ha.1, Ne.symm hb.1]

theorem Apart.begins (h : Apart write k) : token k <+: A.flatMap write ↔ token k <+: A :=
  prefix_flatMap fun a => (h a).imp_right fun ⟨ha, b, B, hw, hb, _⟩ => ⟨ha, b, B, hw, hb⟩

theorem Apart.flatMap_token (h : Apart write k) : (token k).flatMap write = token k := by
  have hself : ∀ a ∈ token k, write a = [a] := fun a ha => (h a).resolve_right fun hnot => hnot.1 ha
  rw [List.flatMap_congr hself]
  exact List.flatMap_singleton' _

end

variable [DecidableEq α] {table before after : List (Name o c × List α)} {e : Name o c × List α}
  {k : Name o c} {A v : List α} {a : α}

/-! ## Borders -/

namespace Layout

variable {border : α → Bool} {y : Layout o c} {f : Name o c → List α}

/-- Names are replaced in the holes. -/
theorem substitute_bordered (hb : y.Bordered border)
    (hborder : ∀ x, border x → ∀ e ∈ table, x ∉ Tokens.token e.1)
    (hfree : y.Free (table.map Prod.fst)) :
    substitute table 0 (y.render fun k => some (f k)) =
      y.render fun k => some (substitute table 0 (f k)) := by
  induction y with
  | last text => exact substitute_of_free hfree
  | token text k rest ih =>
    rw [Bordered, Bool.and_eq_true, Bool.and_eq_true, Option.any_eq_true, Option.any_eq_true] at hb
    obtain ⟨⟨⟨x, hlast, hx⟩, x', hhead, hx'⟩, hb⟩ := hb
    obtain ⟨A, rfl⟩ := List.getLast?_eq_some_iff.mp hlast
    obtain ⟨B, hbehind⟩ := head?_render hhead fun k => some (f k)
    -- no token reaches over a border
    have hbefore (R : List α) : substitute table 0 ((A ++ [x]) ++ R) =
        substitute table 0 (A ++ [x]) ++ substitute table 0 R := by
      refine substitute_append (fun A' hA' hne e he hbegins => ?_) (Nat.zero_le _)
      rcases List.eq_nil_or_concat A' with rfl | ⟨A', z, rfl⟩
      · exact absurd rfl hne
      · rw [List.concat_eq_append] at hA' hbegins ⊢
        obtain rfl : z = x := by
          obtain ⟨Z, hZ⟩ := hA'
          rw [← List.append_assoc] at hZ
          exact List.singleton_inj.mp (List.append_inj' hZ rfl).2
        rw [List.append_assoc, List.singleton_append] at hbegins
        exact (prefix_of_prefix_append_cons (hborder z hx e he) hbegins).trans
          (List.prefix_append A' [z])
    have hafter : substitute table 0 (f k ++ x' :: B) =
        substitute table 0 (f k) ++ substitute table 0 (x' :: B) :=
      substitute_append (fun A' _ _ e he => prefix_of_prefix_append_cons (hborder x' hx' e he))
        (Nat.zero_le _)
    rw [render, render, Option.getD_some, Option.getD_some, hbefore, substitute_of_free hfree.1,
      hbehind, hafter, ← hbehind, ih hb hfree.2]

/-- **Holes.** One name after the other is replaced in every hole for itself. -/
theorem replaceEach_bordered (hb : y.Bordered border)
    (hborder : ∀ x, border x → ∀ e ∈ table, x ∉ Tokens.token e.1)
    (hfree : y.Free (table.map Prod.fst)) :
    replaceEach table (y.render fun k => some (f k)) =
      y.render fun k => some (replaceEach table (f k)) := by
  induction table generalizing f with
  | nil => rfl
  | cons e table ih =>
    have hone : ∀ x, border x → ∀ e' ∈ [e], x ∉ Tokens.token e'.1 := by
      intro x hx e' he'
      rw [List.mem_singleton.mp he']
      exact hborder x hx e List.mem_cons_self
    rw [replaceEach_cons,
      substitute_bordered hb hone (hfree.mono fun k hk => by simp_all)]
    exact ih (fun x hx e' he' => hborder x hx e' (List.mem_cons_of_mem e he'))
      (hfree.mono fun k hk => List.mem_cons_of_mem _ hk)

end Layout

/-! ## One hole -/

theorem substitute_one_token (hoc : o ≠ c) :
    substitute [(k, v)] 0 (token k ++ A) = v ++ substitute [(k, v)] 0 A := by
  rw [substitute_token hoc, List.lookup_cons_self, Option.getD_some]

/-- A token stays where the table does not have its name. -/
theorem replaceEach_token_of_not_mem (hoc : o ≠ c) (hk : k ∉ table.map Prod.fst) :
    replaceEach table (token k) = token k := by
  induction table with
  | nil => rfl
  | cons e table ih =>
    rw [List.map_cons, List.mem_cons, not_or] at hk
    have hnone : ∀ l ∈ [e].map Prod.fst, occurrences (token l) (token k) = 0 := by
      intro l hmem
      have hone := occurrences_token_append (k := l) (l := k) (B := []) hoc
      rw [List.map_singleton, List.mem_singleton] at hmem
      rwa [List.append_nil, if_neg (hmem ▸ Ne.symm hk.1), occurrences] at hone
    rw [replaceEach_cons, substitute_of_free hnone, ih hk.2]

/-- In a hole the entries before its name do nothing, and those after it are replaced in what the
name stands for. -/
theorem replaceEach_token (hoc : o ≠ c) (hk : e.1 ∉ before.map Prod.fst) :
    replaceEach (before ++ e :: after) (token e.1) = replaceEach after e.2 := by
  have hself : substitute [e] 0 (token e.1) = e.2 := by
    have hone := substitute_one_token (k := e.1) (v := e.2) (A := []) hoc
    rwa [List.append_nil, substitute, List.append_nil] at hone
  rw [replaceEach_append, replaceEach_token_of_not_mem hoc hk, replaceEach_cons, hself]

/-- A replaced text has letters of the text and of the values. -/
theorem mem_substitute {skip : ℕ} (h : a ∈ substitute table skip A) :
    a ∈ A ∨ ∃ e ∈ table, a ∈ e.2 := by
  induction A generalizing skip with
  | nil => cases skip <;> cases h
  | cons x A ih =>
    cases skip with
    | succ skip => exact (ih h).imp_left (List.mem_cons_of_mem x)
    | zero =>
      rw [substitute] at h
      cases hmatch : table.find? fun e => (token e.1).isPrefixOf (x :: A) with
      | none =>
        rw [hmatch] at h
        rcases List.mem_cons.mp h with rfl | h
        · exact .inl List.mem_cons_self
        · exact (ih h).imp_left (List.mem_cons_of_mem x)
      | some e =>
        rw [hmatch] at h
        rcases List.mem_append.mp h with h | h
        · exact .inr ⟨e, List.mem_of_find?_eq_some hmatch, h⟩
        · exact (ih h).imp_left (List.mem_cons_of_mem x)

theorem mem_replaceEach (h : a ∈ replaceEach table A) : a ∈ A ∨ ∃ e ∈ table, a ∈ e.2 := by
  induction table generalizing A with
  | nil => exact .inl h
  | cons e table ih =>
    rcases ih h with h | ⟨e', he', h⟩
    · rcases mem_substitute h with h | ⟨e', he', h⟩
      · exact .inl h
      · exact .inr ⟨e', List.mem_cons.mpr (.inl (List.mem_singleton.mp he')), h⟩
    · exact .inr ⟨e', List.mem_cons_of_mem e he', h⟩

/-! ## Written texts -/

section

variable {write : α → List α}

theorem substitute_one_cons (h : ¬ token k <+: a :: A) :
    substitute [(k, v)] 0 (a :: A) = a :: substitute [(k, v)] 0 A := by
  have hnone : [(k, v)].find? (fun e => (token e.1).isPrefixOf (a :: A)) = none := by
    refine List.find?_eq_none.mpr fun e he => ?_
    rw [List.mem_singleton.mp he, List.isPrefixOf_iff_prefix]
    exact h
  rw [substitute, hnone]

/-- A name is replaced in a written text by the written value. -/
theorem Apart.substitute (hoc : o ≠ c) (h : Apart write k) :
    substitute [(k, v.flatMap write)] 0 (A.flatMap write) =
      (Tokens.substitute [(k, v)] 0 A).flatMap write := by
  induction hn : A.length using Nat.strong_induction_on generalizing A with
  | _ n ih =>
    by_cases hbegins : token k <+: A
    · obtain ⟨R, rfl⟩ := hbegins
      have hshort : R.length < n := by
        rw [← hn, List.length_append]
        simp [token]
      rw [List.flatMap_append, h.flatMap_token, substitute_one_token hoc, substitute_one_token hoc,
        List.flatMap_append, ih R.length hshort rfl]
    · cases A with
      | nil => rfl
      | cons a A =>
        have hrest := ih A.length (by simp [← hn]) rfl
        have hnot : ¬ token k <+: (a :: A).flatMap write := fun hmem => hbegins (h.begins.mp hmem)
        rw [List.flatMap_cons] at hnot ⊢
        rw [substitute_one_cons hbegins, List.flatMap_cons, ← hrest]
        rcases h a with hw | ⟨-, b, B, hw, hb, hB⟩
        · rw [hw, List.singleton_append] at hnot ⊢
          rw [substitute_one_cons hnot, List.singleton_append]
        · have hnone : o ∉ b :: B := fun hmem =>
            (List.mem_cons.mp hmem).elim (fun hob => hb (hob ▸ List.mem_cons_self)) hB
          rw [hw, substitute_append_of_not_mem hnone]

/-- **Written texts.** One name after the other is replaced in a written text like in the text. -/
theorem replaceEach_flatMap (hoc : o ≠ c) (h : ∀ e ∈ table, Apart write e.1) :
    replaceEach (table.map fun e => (e.1, e.2.flatMap write)) (A.flatMap write) =
      (replaceEach table A).flatMap write := by
  induction table generalizing A with
  | nil => rfl
  | cons e table ih =>
    obtain ⟨he, htable⟩ := List.forall_mem_cons.mp h
    rw [List.map_cons, replaceEach_cons, replaceEach_cons, he.substitute hoc]
    exact ih htable

end

end WinDep.Tokens
