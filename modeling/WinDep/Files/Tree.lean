/-
# The file tree

Files and folders below `DATA_DIR`, without faults. A tree is the ordered list of
its entries, and every entry but the root lies in a folder. Serving a call changes
nothing but the entries the call touches.
-/

import WinDep.Data.KeyedList
import WinDep.Files.Calls
import Mathlib.Data.List.Infix
import Mathlib.Data.List.Lex
import Mathlib.Data.String.Basic

namespace WinDep

inductive Node
  | file (content : Bytes)
  | folder
  deriving DecidableEq

/-- The bytes of an entry that is a file. -/
def contentOf : Option Node → Option Bytes
  | some (.file b) => some b
  | _ => none

/-- The entries of a list. The root is a folder that is always there. -/
def nodeOf (entries : List (Path × Node)) (p : Path) : Option Node :=
  if p = [] then some .folder else KeyedList.value p entries

structure FileTree where
  entries : List (Path × Node)
  ordered : KeyedList.Ordered entries
  closed : ∀ p s, nodeOf entries (p ++ [s]) ≠ none → nodeOf entries p = some .folder

namespace FileTree

def node (t : FileTree) (p : Path) : Option Node := nodeOf t.entries p

def empty : FileTree := ⟨[], KeyedList.ordered_nil, by simp [nodeOf, KeyedList.value]⟩

/-! ## Changing entries -/

variable {t : FileTree} {p q : Path} {n : Node} {s : String}

/-- The entry's folder is there. -/
def HasParent (t : FileTree) (p : Path) : Prop := p ≠ [] ∧ t.node p.dropLast = some .folder

instance : Decidable (t.HasParent p) := inferInstanceAs (Decidable (_ ∧ _))

theorem nodeOf_set (hp : p ≠ []) :
    nodeOf (KeyedList.set p n t.entries) q = if q = p then some n else t.node q := by
  unfold node nodeOf
  rw [KeyedList.value_set]
  by_cases hq : q = []
  · simp [hq, hp.symm]
  · simp [hq]

/-- Assign an entry in an existing folder. A folder may not give way to a file. -/
def set (t : FileTree) (p : Path) (n : Node) (hp : t.HasParent p)
    (hn : t.node p = some .folder → n = .folder) : FileTree where
  entries := KeyedList.set p n t.entries
  ordered := KeyedList.ordered_set t.ordered
  closed := by
    intro q s h
    rw [nodeOf_set hp.1] at h ⊢
    by_cases hqs : q ++ [s] = p
    · -- the new entry lies in the folder that was asked for
      have hq : q = p.dropLast := by rw [← hqs, List.dropLast_concat]
      have hne : q ≠ p := by
        intro hqp
        have hlen := congrArg List.length hqs
        simp [hqp] at hlen
      rw [if_neg hne, hq]
      exact hp.2
    · rw [if_neg hqs] at h
      have hfolder : t.node q = some .folder := t.closed q s h
      split_ifs with hqp
      · rw [hn (hqp ▸ hfolder)]
      · exact hfolder

@[simp] theorem node_set {hp : t.HasParent p} {hn : t.node p = some .folder → n = .folder} :
    (t.set p n hp hn).node q = if q = p then some n else t.node q := nodeOf_set hp.1

theorem nodeOf_erase {keep : Path → Bool} (ht : KeyedList.Ordered t.entries) (hq : q ≠ []) :
    nodeOf (KeyedList.mapMaybe (fun q n => if keep q then some n else none) t.entries) q =
      if keep q then t.node q else none := by
  unfold node nodeOf
  rw [if_neg hq, if_neg hq, KeyedList.value_mapMaybe ht]
  split_ifs
  · simp
  · simp

/-- Keep some of the entries, with an entry the folder it lies in. -/
def restrict (t : FileTree) (keep : Path → Bool)
    (hkeep : ∀ q s, keep (q ++ [s]) = true → q = [] ∨ keep q = true) : FileTree where
  entries := KeyedList.mapMaybe (fun q n => if keep q then some n else none) t.entries
  ordered := KeyedList.ordered_mapMaybe t.ordered
  closed := by
    intro q s h
    rw [nodeOf_erase t.ordered (by simp)] at h
    split_ifs at h with hqs
    · have hfolder : t.node q = some .folder := t.closed q s h
      by_cases hq : q = []
      · rw [hq, nodeOf, if_pos rfl]
      · rw [nodeOf_erase t.ordered hq, if_pos ((hkeep q s hqs).resolve_left hq), hfolder]
    · exact absurd rfl h

theorem node_restrict {keep : Path → Bool}
    {hkeep : ∀ q s, keep (q ++ [s]) = true → q = [] ∨ keep q = true} (hq : q ≠ []) :
    (t.restrict keep hkeep).node q = if keep q then t.node q else none :=
  nodeOf_erase t.ordered hq

/-- Remove an entry and everything below it. -/
def eraseAll (t : FileTree) (p : Path) : FileTree :=
  t.restrict (fun q => !p.isPrefixOf q) fun q s h => by
    right
    simp only [Bool.not_eq_true', ← Bool.not_eq_true, List.isPrefixOf_iff_prefix] at h ⊢
    exact fun hp => h (hp.trans (List.prefix_append q [s]))

theorem node_eraseAll (hq : q ≠ []) :
    (t.eraseAll p).node q = if p <+: q then none else t.node q := by
  rw [eraseAll, node_restrict hq]
  by_cases h : p <+: q <;> simp [h]

/-- Make a folder where nothing is, in a folder that is there. -/
def mkdir (t : FileTree) (p : Path) : FileTree :=
  if h : t.HasParent p ∧ t.node p = none then
    t.set p .folder h.1 fun hfolder => absurd hfolder (by simp [h.2])
  else t

def isFile (t : FileTree) (p : Path) : Bool :=
  match t.node p with
  | some (.file _) => true
  | _ => false

/-- Make a folder and the folders above it, unless a file is in the way. -/
def makeFolders (t : FileTree) (p : Path) : Option FileTree :=
  if p.inits.any t.isFile then none else some (p.inits.foldl mkdir t)

/-- Give a file its contents, where its folder is there and no folder is in the way. -/
def putFile (t : FileTree) (p : Path) (b : Bytes) : Bool × FileTree :=
  if h : t.HasParent p ∧ t.node p ≠ some .folder then
    (true, t.set p (.file b) h.1 fun hfolder => absurd hfolder h.2)
  else (false, t)

/-! ## Serving calls -/

/-- What is missing below a file is reported with another error than what is missing. -/
def statResult (t : FileTree) (p : Path) : StatResult :=
  match t.node p with
  | some (.file b) => .file b.length
  | some .folder => .folder 0
  | none => if p.inits.any t.isFile then .failed else .missing

/-- The entries of a folder, in the order of their names. -/
def children (t : FileTree) (p : Path) : List DirEntry :=
  t.entries.filterMap fun e =>
    if e.1 ≠ [] ∧ e.1.dropLast = p then
      match e.2 with
      | .file b => some ⟨e.1.base, false, some b.length⟩
      | .folder => some ⟨e.1.base, true, some 0⟩
    else none

def readDirResult (t : FileTree) (p : Path) : ReadDirResult :=
  match t.statResult p with
  | .folder _ => .entries (t.children p)
  | .missing => .missing
  | _ => .failed

def content (t : FileTree) (p : Path) : Option Bytes := contentOf (t.node p)

def serve : (c : FsCall) → FileTree → c.Answer × FileTree
  | .stat p, t => (t.statResult p, t)
  | .readFile p, t => (t.content p, t)
  | .readDir p, t => (t.readDirResult p, t)
  | .mkdirAll p, t =>
    match t.makeFolders p with
    | none => (false, t)
    | some t' => (true, t')
  | .openFile p truncate, t => t.putFile p (if truncate then [] else (t.content p).getD [])
  | .write p b, t =>
    match t.content p with
    | none => (false, t)
    | some old => t.putFile p (old ++ b)
  | .sync _, t => (true, t)
  | .close _, t => (true, t)
  | .rename p q, t =>
    -- the handlers rename files only
    match t.content p with
    | none => (false, t)
    | some b =>
      if p = q then (true, t)
      else if (t.putFile q b).1 then (true, (t.putFile q b).2.eraseAll p) else (false, t)
  | .remove p, t =>
    match t.node p with
    | none => (false, t)
    | some (.file _) => (true, t.eraseAll p)
    | some .folder => if t.children p = [] then (true, t.eraseAll p) else (false, t)
  | .removeAll p, t => (true, t.eraseAll p)
  | .writeFile p b, t => t.putFile p b

/-! ## What a call changes -/

@[simp] theorem node_nil : t.node [] = some .folder := by
  rw [node, nodeOf, if_pos rfl]

theorem closed_node (t : FileTree) (h : t.node (p ++ [s]) ≠ none) : t.node p = some .folder :=
  t.closed p s h

/-- What lies strictly below a path is there only if the path is a folder. -/
theorem folder_above (h : t.node q ≠ none) (hp : p <+: q) (hne : p ≠ q) :
    t.node p = some .folder := by
  induction q using List.reverseRecOn with
  | nil => exact absurd (List.prefix_nil.mp hp) hne
  | append_singleton q s ih =>
    have hfolder := t.closed_node h
    rcases List.prefix_concat_iff.mp hp with rfl | hp
    · exact absurd rfl hne
    · by_cases hpq : p = q
      · exact hpq ▸ hfolder
      · exact ih (by simp [hfolder]) hp hpq

theorem node_putFile {b : Bytes} :
    (t.putFile p b).2.node q = if q = p ∧ (t.putFile p b).1 then some (.file b) else t.node q := by
  unfold putFile
  split_ifs with h hq hq
  all_goals simp_all

theorem putFile_fst {b : Bytes} :
    (t.putFile p b).1 = true ↔ t.HasParent p ∧ t.node p ≠ some .folder := by
  unfold putFile
  split_ifs with h <;> simp [h]

theorem node_mkdir : (t.mkdir p).node q =
    if q = p ∧ t.HasParent p ∧ t.node p = none then some .folder else t.node q := by
  unfold mkdir
  split_ifs with h hq hq
  all_goals simp_all

theorem inits_concat (p : Path) (s : String) : (p ++ [s]).inits = p.inits ++ [p ++ [s]] := by
  simp [List.inits_append]

theorem isFile_eq_false (h : t.isFile p = false) : t.node p = none ∨ t.node p = some .folder := by
  unfold isFile at h
  split at h
  · simp at h
  · next hfile =>
    cases hnode : t.node p with
    | none => exact Or.inl rfl
    | some n =>
      cases n with
      | file b => exact absurd hnode (hfile b)
      | folder => exact Or.inr rfl

theorem concat_not_initial (p : Path) (s : String) : ¬ p ++ [s] <+: p := by
  intro h
  have hlen := h.length_le
  simp at hlen

/-- Where no file is in the way, every path above becomes a folder and nothing else changes. -/
theorem node_mkdirs (hfree : ∀ r, r <+: p → t.isFile r = false) :
    (p.inits.foldl mkdir t).node q = if q <+: p then some .folder else t.node q := by
  induction p using List.reverseRecOn generalizing q with
  | nil =>
    by_cases hq : q = []
    · simp [hq]
    · simp [hq, mkdir, HasParent]
  | append_singleton p s ih =>
    have ih (q : Path) := ih (q := q) fun r hr => hfree r (hr.trans (List.prefix_append p [s]))
    have hparent : (p.inits.foldl mkdir t).HasParent (p ++ [s]) := by
      refine ⟨by simp, ?_⟩
      rw [List.dropLast_concat, ih, if_pos List.prefix_rfl]
    have hself := ih (p ++ [s])
    rw [if_neg (concat_not_initial p s)] at hself
    rw [inits_concat, List.foldl_concat, node_mkdir, hself, ih]
    by_cases hq : q = p ++ [s]
    · subst hq
      rw [if_neg (concat_not_initial p s), if_pos List.prefix_rfl]
      rcases isFile_eq_false (hfree _ List.prefix_rfl) with hnode | hnode
      · simp [hparent, hnode]
      · simp [hnode]
    · simp [hq, List.prefix_concat_iff]

/-- Folders are made, or a file is in the way. -/
theorem makeFolders_cases :
    (∃ r, r <+: p ∧ t.isFile r = true) ∧ t.makeFolders p = none ∨
      ∃ t', t.makeFolders p = some t' ∧ (∀ r, r <+: p → t.isFile r = false) ∧
        ∀ q, t'.node q = if q <+: p then some .folder else t.node q := by
  unfold makeFolders
  split_ifs with h
  · simpa using h
  · have hfree : ∀ r, r <+: p → t.isFile r = false := by simpa using h
    exact Or.inr ⟨_, rfl, hfree, fun q => node_mkdirs hfree⟩

theorem content_eq_some {b : Bytes} : t.content p = some b ↔ t.node p = some (.file b) := by
  unfold content contentOf
  split <;> simp_all

/-- Nothing lies below a file. -/
theorem below_file {b : Bytes} (hp : t.node p = some (.file b)) (hq : p <+: q) (hne : p ≠ q) :
    t.node q = none := by
  by_contra h
  have hfolder := folder_above h hq hne
  simp [hp] at hfolder

theorem mem_of_node (hq : q ≠ []) (h : t.node q = some n) : (q, n) ∈ t.entries := by
  rw [node, nodeOf, if_neg hq] at h
  exact KeyedList.mem_of_value h

theorem node_of_mem (hq : q ≠ []) (h : (q, n) ∈ t.entries) : t.node q = some n := by
  rw [node, nodeOf, if_neg hq]
  exact KeyedList.value_of_mem t.ordered h

theorem exists_child (h : t.node (p ++ [s]) ≠ none) : ∃ e ∈ t.children p, e.name = s := by
  obtain ⟨n, hn⟩ := Option.ne_none_iff_exists'.mp h
  have hmem := mem_of_node (by simp) hn
  cases n with
  | file b =>
    refine ⟨⟨s, false, some b.length⟩, ?_, rfl⟩
    exact List.mem_filterMap.mpr ⟨_, hmem, by simp [Path.base]⟩
  | folder =>
    refine ⟨⟨s, true, some 0⟩, ?_, rfl⟩
    exact List.mem_filterMap.mpr ⟨_, hmem, by simp [Path.base]⟩

/-- Nothing lies below a folder without entries. -/
theorem below_empty (hempty : t.children p = []) (hq : p <+: q) (hne : p ≠ q) :
    t.node q = none := by
  obtain ⟨rest, rfl⟩ := hq
  cases rest with
  | nil => simp at hne
  | cons s rest =>
    by_contra h
    have hchild : t.node (p ++ [s]) ≠ none := by
      by_cases hrest : rest = []
      · simpa [hrest] using h
      · have hfolder := folder_above (p := p ++ [s]) h ⟨rest, by simp⟩
          (by simpa using Ne.symm hrest)
        simp [hfolder]
    obtain ⟨e, he, -⟩ := exists_child hchild
    simp [hempty] at he

/-- **Frame.** A call changes nothing but the entries it touches. -/
theorem node_serve {c : FsCall} (h : ¬ c.Touches q) : (serve c t).2.node q = t.node q := by
  by_cases hq : q = []
  · simp [hq]
  cases c with
  | stat p | readFile p | readDir p | sync p | close p => rfl
  | mkdirAll p =>
    rcases makeFolders_cases (t := t) (p := p) with ⟨-, hnone⟩ | ⟨t', hsome, -, hnode⟩
    · simp [serve, hnone]
    · have hqp : ¬ q <+: p := fun hqp => h ⟨hq, hqp⟩
      simp [serve, hsome, hnode, hqp]
  | openFile p truncate =>
    have hqp : q ≠ p := h
    simp [serve, node_putFile, hqp]
  | write p b =>
    have hqp : q ≠ p := h
    simp only [serve]
    split
    · rfl
    · simp [node_putFile, hqp]
  | rename p p' =>
    obtain ⟨hqp, hqp'⟩ := not_or.mp h
    simp only [serve]
    split
    · rfl
    next b hb =>
    split_ifs with heq hput
    · rfl
    · -- the renamed entry is a file, so nothing is below it
      rw [node_eraseAll hq]
      split_ifs with hbelow
      · exact (below_file (content_eq_some.mp hb) hbelow (Ne.symm hqp)).symm
      · simp [node_putFile, hqp']
    · rfl
  | remove p =>
    have hqp : q ≠ p := h
    simp only [serve]
    split
    · rfl
    · next b hb =>
      rw [node_eraseAll hq]
      split_ifs with hbelow
      · exact (below_file hb hbelow hqp.symm).symm
      · rfl
    · split_ifs with hempty
      · rw [node_eraseAll hq]
        split_ifs with hbelow
        · exact (below_empty hempty hbelow hqp.symm).symm
        · rfl
      · rfl
  | removeAll p =>
    have hqp : ¬ p <+: q := h
    simp [serve, node_eraseAll hq, hqp]
  | writeFile p b =>
    have hqp : q ≠ p := h
    simp [serve, node_putFile, hqp]

end FileTree

end WinDep
