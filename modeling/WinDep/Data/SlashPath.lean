/-
# Lexical paths

A path is text, and its elements are what its slashes separate. Cleaning it
rewrites the elements by rules on neighbours until none applies: an element that
stands for its own folder goes, an inner parent goes with the element before it,
and a parent that begins a rooted path goes. The rules shorten the list, and the
elimination that reads it once from the left is invariant under each of them, so
it is what they leave, in whatever order they are applied.
-/

import Mathlib.Data.List.Induction
import Mathlib.Data.List.Infix
import Mathlib.Logic.Relation

namespace WinDep

/-- The characters of a path that are not part of a name. -/
structure SlashPath (α : Type*) where
  slash : α
  dot : α
  dot_ne_slash : dot ≠ slash

namespace SlashPath

variable {α : Type*} (M : SlashPath α) (rooted : Bool)

/-- The element that stands for the parent. -/
def parent : List α := [M.dot, M.dot]

/-- An element that stands for itself. -/
def Plain (e : List α) : Prop := e ≠ [] ∧ e ≠ [M.dot] ∧ e ≠ M.parent

/-! ## The rules -/

inductive Reduces : List (List α) → List (List α) → Prop
  | skip (before : List (List α)) {e : List α} (after : List (List α)) (he : e = [] ∨ e = [M.dot]) :
      Reduces (before ++ e :: after) (before ++ after)
  | inner (before : List (List α)) {e : List α} (after : List (List α)) (he : M.Plain e) :
      Reduces (before ++ e :: M.parent :: after) (before ++ after)
  | root (after : List (List α)) (hrooted : rooted = true) : Reduces (M.parent :: after) after

/-- No rule applies. -/
def Normal (es : List (List α)) : Prop := ∀ fs, ¬ M.Reduces rooted es fs

/-- What the rules leave. -/
def Cleaned (es fs : List (List α)) : Prop :=
  Relation.ReflTransGen (M.Reduces rooted) es fs ∧ M.Normal rooted fs

/-- The rooted path of a list of elements. -/
def below (es : List (List α)) : List α := es.flatMap (M.slash :: ·)

/-! ## Elimination -/

section

variable [DecidableEq α]

instance (e : List α) : Decidable (M.Plain e) := inferInstanceAs (Decidable (_ ∧ _ ∧ _))

/-- The elements of a path. -/
def elements (p : List α) : List (List α) := p.splitOn M.slash

/-- Read one more element. -/
def put (done : List (List α)) (e : List α) : List (List α) :=
  if e = [] ∨ e = [M.dot] then done
  else if e ≠ M.parent then done ++ [e]
  else match done.getLast? with
    | none => if rooted then [] else [e]
    | some last => if last = M.parent then done ++ [e] else done.dropLast

def eliminate (es : List (List α)) : List (List α) := es.foldl (M.put rooted) []

/-- `Clean`: the shortest path equivalent by lexical processing alone. -/
def clean (p : List α) : List α :=
  if p.head? = some M.slash then M.slash :: [M.slash].intercalate (M.eliminate true (M.elements p))
  else match M.eliminate false (M.elements p) with
    | [] => [M.dot]
    | es => [M.slash].intercalate es

/-- `Join`: leading empty elements are ignored and the result is cleaned. -/
def join (elems : List (List α)) : List α :=
  match elems.dropWhile (· = []) with
  | [] => []
  | es => M.clean ([M.slash].intercalate es)

end

variable {M rooted} {p q : List α} {e : List α} {es fs gs done : List (List α)}

theorem Reduces.length_lt (h : M.Reduces rooted es fs) : fs.length < es.length := by
  cases h with
  | skip before after he => simp
  | inner before after he =>
    simp only [List.length_append, List.length_cons]
    omega
  | root _ hrooted => simp

/-- The rules come to an end. -/
theorem exists_cleaned (es : List (List α)) : ∃ fs, M.Cleaned rooted es fs := by
  induction hn : es.length using Nat.strongRecOn generalizing es with
  | ind n ih =>
    by_cases hnormal : M.Normal rooted es
    · exact ⟨es, .refl, hnormal⟩
    · obtain ⟨fs, hstep⟩ := not_forall_not.mp hnormal
      obtain ⟨gs, hgs, hnormal⟩ := ih _ (hn ▸ hstep.length_lt) fs rfl
      exact ⟨gs, .head hstep hgs, hnormal⟩

theorem Reduces.concat (h : M.Reduces rooted es fs) (e : List α) :
    M.Reduces rooted (es ++ [e]) (fs ++ [e]) := by
  cases h with
  | skip before after he => simpa using Reduces.skip before (after ++ [e]) he
  | inner before after he => simpa using Reduces.inner before (after ++ [e]) he
  | root _ hrooted => simpa using Reduces.root (fs ++ [e]) hrooted

theorem slash_intercalate (hes : es ≠ []) : M.slash :: [M.slash].intercalate es = M.below es := by
  induction es with
  | nil => exact absurd rfl hes
  | cons e es ih =>
    cases es with
    | nil => simp [below]
    | cons f es =>
      have ih := ih (List.cons_ne_nil f es)
      rw [List.intercalate_cons_cons, below, List.flatMap_cons, ← below, ← ih]
      simp

variable [DecidableEq α]

/-! ## The rules and the elimination agree -/

theorem put_skip (he : e = [] ∨ e = [M.dot]) : M.put rooted done e = done := if_pos he

theorem put_plain (he : M.Plain e) : M.put rooted done e = done ++ [e] := by
  rw [put, if_neg (not_or.mpr ⟨he.1, he.2.1⟩), if_pos he.2.2]

theorem put_parent : M.put rooted done M.parent =
    match done.getLast? with
    | none => if rooted then [] else [M.parent]
    | some last => if last = M.parent then done ++ [M.parent] else done.dropLast := by
  have hparent : ¬ (M.parent = [] ∨ M.parent = [M.dot]) := by simp [parent]
  rw [put, if_neg hparent, if_neg (not_not.mpr rfl)]

theorem put_parent_nil (hrooted : rooted = true) : M.put rooted [] M.parent = [] := by
  simp [put_parent, hrooted]

theorem put_parent_plain (he : M.Plain e) : M.put rooted (done ++ [e]) M.parent = done := by
  simp [put_parent, he.2.2]

theorem eliminate_append : M.eliminate rooted (es ++ fs) =
    fs.foldl (M.put rooted) (M.eliminate rooted es) := List.foldl_append

theorem foldl_put_plain (h : ∀ e ∈ es, M.Plain e) :
    es.foldl (M.put rooted) done = done ++ es := by
  induction es generalizing done with
  | nil => simp
  | cons e es ih =>
    rw [List.foldl_cons, put_plain (h e List.mem_cons_self),
      ih fun e he => h e (List.mem_cons_of_mem _ he), List.append_assoc, List.singleton_append]

/-- No rule changes what the elimination gives. -/
theorem Reduces.eliminate_eq (h : M.Reduces rooted es fs) :
    M.eliminate rooted es = M.eliminate rooted fs := by
  cases h with
  | skip before after he => rw [eliminate_append, List.foldl_cons, put_skip he, eliminate_append]
  | inner before after he =>
    rw [eliminate_append, List.foldl_cons, put_plain he, List.foldl_cons, put_parent_plain he,
      eliminate_append]
  | root _ hrooted =>
    rw [eliminate, List.foldl_cons, put_parent_nil hrooted]
    rfl

/-- Where no rule applies, every element is kept. -/
theorem Normal.eliminate_eq (h : M.Normal rooted es) : M.eliminate rooted es = es := by
  induction es using List.reverseRecOn with
  | nil => rfl
  | append_singleton es e ih =>
    have hes : M.Normal rooted es := fun fs hfs => h _ (hfs.concat e)
    have hskip : ¬ (e = [] ∨ e = [M.dot]) := fun he => h _ (.skip es [] he)
    rw [eliminate_append, ih hes, List.foldl_cons, List.foldl_nil]
    by_cases hparent : e = M.parent
    · subst hparent
      rw [put_parent]
      cases hlast : es.getLast? with
      | none =>
        -- a parent that begins the path stays in a path without root only
        obtain rfl := List.getLast?_eq_none_iff.mp hlast
        have hrooted : ¬ rooted = true := fun hrooted => h _ (.root [] hrooted)
        simp only [if_neg hrooted, List.nil_append]
      | some last =>
        obtain ⟨init, rfl⟩ := List.getLast?_eq_some_iff.mp hlast
        have hinner : last = M.parent := by
          by_contra hne
          have hplain : M.Plain last := by
            refine ⟨?_, ?_, hne⟩ <;> intro hlast
            · exact hes _ (.skip init [] (Or.inl hlast))
            · exact hes _ (.skip init [] (Or.inr hlast))
          exact h _ (by simpa using Reduces.inner init [] hplain)
        simp only [if_pos hinner]
    · exact put_plain ⟨fun he => hskip (Or.inl he), fun he => hskip (Or.inr he), hparent⟩

/-- What the rules leave is what the elimination gives. -/
theorem Cleaned.eq (h : M.Cleaned rooted es fs) : fs = M.eliminate rooted es := by
  obtain ⟨hreduces, hnormal⟩ := h
  induction hreduces using Relation.ReflTransGen.head_induction_on with
  | refl => exact hnormal.eliminate_eq.symm
  | head hstep _ ih => rw [hstep.eliminate_eq, ih]

theorem cleaned_eliminate (es : List (List α)) : M.Cleaned rooted es (M.eliminate rooted es) := by
  obtain ⟨fs, h⟩ := exists_cleaned es
  rwa [← h.eq]

/-- A rooted path keeps only elements of its own that stand for themselves. -/
theorem mem_eliminate : ∀ e ∈ M.eliminate true es, e ∈ es ∧ M.Plain e := by
  induction es using List.reverseRecOn with
  | nil => simp [eliminate]
  | append_singleton es e ih =>
    have hes : ∀ f ∈ M.eliminate true es, f ∈ es ++ [e] ∧ M.Plain f := fun f hf =>
      ⟨List.mem_append_left _ (ih f hf).1, (ih f hf).2⟩
    rw [eliminate_append, List.foldl_cons, List.foldl_nil]
    by_cases hskip : e = [] ∨ e = [M.dot]
    · rwa [put_skip hskip]
    by_cases hparent : e = M.parent
    · subst hparent
      rw [put_parent]
      cases hlast : (M.eliminate true es).getLast? with
      | none => simp
      | some last =>
        have hne := (ih last (List.mem_of_getLast? hlast)).2.2.2
        simp only [if_neg hne]
        exact fun f hf => hes f (List.mem_of_mem_dropLast hf)
    · have hplain : M.Plain e := ⟨fun h => hskip (Or.inl h), fun h => hskip (Or.inr h), hparent⟩
      rw [put_plain hplain]
      intro f hf
      rcases List.mem_append.mp hf with hf | hf
      · exact hes f hf
      · obtain rfl := List.mem_singleton.mp hf
        exact ⟨List.mem_append_right _ hf, hplain⟩

/-! ## Elements -/

theorem slash_not_mem_elements : ∀ e ∈ M.elements p, M.slash ∉ e := by
  induction p with
  | nil => simp [elements]
  | cons a p ih =>
    intro e he
    rw [elements, List.splitOn_cons_eq_if_modifyHead] at he
    split_ifs at he with ha
    · rcases List.mem_cons.mp he with rfl | he
      · simp
      · exact ih e he
    · obtain ⟨f, fs, hsplit⟩ := List.exists_cons_of_ne_nil (List.splitOn_ne_nil M.slash p)
      rw [elements, hsplit] at ih
      rw [hsplit, List.modifyHead_cons] at he
      rcases List.mem_cons.mp he with rfl | he
      · have ha : M.slash ≠ a := fun h => ha (by simp [h])
        simpa [ha] using ih f List.mem_cons_self
      · exact ih e (List.mem_cons_of_mem _ he)

theorem elements_append_slash :
    M.elements (p ++ M.slash :: q) = M.elements p ++ M.elements q :=
  List.splitOn_append_cons_self _ _

/-- What a rooted path keeps are names. -/
theorem plain_eliminate :
    ∀ e ∈ M.eliminate true (M.elements p), M.Plain e ∧ M.slash ∉ e := fun e he =>
  ⟨(mem_eliminate e he).2, slash_not_mem_elements e (mem_eliminate e he).1⟩

/-- The elements of a joined list are the list, but for one empty element where it is empty. -/
theorem foldl_elements_intercalate (hplain : ∀ e ∈ es, M.Plain e) (hslash : ∀ e ∈ es, M.slash ∉ e) :
    (M.elements ([M.slash].intercalate es)).foldl (M.put rooted) done = done ++ es := by
  by_cases hnil : es = []
  · subst hnil
    simp [elements, put]
  · rw [elements, List.splitOn_intercalate M.slash hslash hnil, foldl_put_plain hplain]

/-! ## Rooted paths -/

theorem clean_rooted (p : List α) : M.clean (M.slash :: p) =
    M.slash :: [M.slash].intercalate (M.eliminate true (M.elements (M.slash :: p))) := by
  rw [clean, List.head?_cons, if_pos rfl]

theorem eliminate_elements_slash (p : List α) :
    M.eliminate rooted (M.elements (M.slash :: p)) = M.eliminate rooted (M.elements p) := by
  have h := elements_append_slash (M := M) (p := []) (q := p)
  rw [List.nil_append] at h
  rw [h, eliminate_append]
  simp [eliminate, elements, put]

/-- Joining to a rooted path goes on with its elements. -/
theorem join_rooted (p q : List α) : M.join [M.slash :: p, q] =
    M.slash :: [M.slash].intercalate
      ((M.elements q).foldl (M.put true) (M.eliminate true (M.elements p))) := by
  have hjoin : M.join [M.slash :: p, q] = M.clean (M.slash :: (p ++ M.slash :: q)) := by
    rw [join, List.dropWhile_cons_of_neg (by simp)]
    simp
  rw [hjoin, clean_rooted, eliminate_elements_slash, elements_append_slash, eliminate_append]

/-- Lists of elements are equal when the paths below are. -/
theorem below_injective (hes : ∀ e ∈ es, M.slash ∉ e) (hfs : ∀ e ∈ fs, M.slash ∉ e)
    (h : M.below es = M.below fs) : es = fs := by
  by_cases hnil : es = [] ∨ fs = []
  · rcases hnil with rfl | rfl
    · cases fs with
      | nil => rfl
      | cons f fs => simp [below] at h
    · cases es with
      | nil => rfl
      | cons e es => simp [below] at h
  · obtain ⟨hne, hne'⟩ := not_or.mp hnil
    rw [← slash_intercalate hne, ← slash_intercalate hne'] at h
    have hsplit := congrArg M.elements (List.cons.inj h).2
    rwa [elements, elements, List.splitOn_intercalate M.slash hes hne,
      List.splitOn_intercalate M.slash hfs hne'] at hsplit

end SlashPath

end WinDep
