/-
# The images an editor offers

The editor lists the images category folder by folder, down to a fixed depth, and
offers each file whose name ends as an image's does. The folder of a listing
reaches the server decoded, so it is cleaned as a path there. The names the
server ever gives an entry mean themselves in a path, so the walk finds the
entries it means to, however their files were uploaded.
-/

import WinDep.Data.SlashPath
import WinDep.Files.Present
import WinDep.Files.Urls

namespace WinDep.Editor

open Audit (App handle_eq handle_of_refused program_of_writer reads_program refused writerOf)
open Fs FileTree Program Routes Runs Urls Writer
open Admin (FileRequest parseResume resolvePath_of_targetPath)

/-! ## The walk -/

/-- The names of WIM files. Only the ASCII letters of the extension have a lower case to it. -/
def isWim (name : String) : Bool := ".wim".toList.isSuffixOf (name.toList.map Char.toLower)

/-- The answer to a listing of the images category, none unless it is a success. -/
def listing (t : FileTree) (folder : String) : Option (List FileInfo) :=
  (exec (handleList "images" folder) t).1.toOption

/-- The images in and below a folder, for as many levels as are left. -/
def walk (t : FileTree) : ℕ → String → List String
  | 0, _ => []
  | levels + 1, folder =>
    match listing t folder with
    | none => []
    | some rows => rows.flatMap fun e =>
      if e.isDir then walk t levels (under folder e.name)
      else if isWim e.name then [under folder e.name]
      else []

/-- The images that are offered, in the browser's order of texts. Depths 0 to 5 are walked. -/
def listImages (le : String → String → Bool) (t : FileTree) : List String :=
  (walk t 6 "").mergeSort le

/-- The path of an image that a walk over so many levels comes to. -/
structure Offered (levels : ℕ) (p : Path) : Prop where
  wim : isWim p.base = true
  depth : p.length ≤ levels
  /-- no folder above has the name of a sidecar or a staging file -/
  folders : ∀ s ∈ p.dropLast, reserved s = false

/-! ## Names -/

/-- A name that means itself in a path. -/
def Proper (s : String) : Prop := Path.Plain s ∧ '/' ∉ s.toList

/-- Every entry has proper names. -/
def Tidy (t : FileTree) : Prop := ∀ p, t.node p ≠ none → ∀ s ∈ p, Proper s

variable {sha256 : Bytes → Digest} {P : Primitives} {masterKey : Option Key} {ivs : String → IV}
  {t t' : FileTree} {p q dest : Path} {s : String} {category rel : String} {levels : ℕ} {b : Bytes}

def slashes : SlashPath Char := ⟨'/', '.', by decide⟩

theorem slash_not_mem_segments (rel : String) : ∀ s ∈ Path.segments rel, '/' ∉ s.toList := by
  intro s hs
  obtain ⟨e, he, rfl⟩ := List.mem_map.mp hs
  rw [String.toList_ofList]
  exact SlashPath.slash_not_mem_elements (M := slashes) e he

theorem mem_foldl_push (segs : List String) (p : Path) :
    ∀ s ∈ segs.foldl Path.push p, s ∈ p ∨ s ∈ segs := by
  induction segs generalizing p with
  | nil => exact fun s hs => .inl hs
  | cons seg segs ih =>
    intro s hs
    rcases ih (p.push seg) s hs with hpush | hmem
    · unfold Path.push at hpush
      split_ifs at hpush
      · exact .inl hpush
      · exact .inl (List.mem_of_mem_dropLast hpush)
      · rcases List.mem_append.mp hpush with hp | hseg
        · exact .inl hp
        · exact .inr (List.mem_cons.mpr (.inl (List.mem_singleton.mp hseg)))
    · exact .inr (List.mem_cons_of_mem _ hmem)

/-- A path that a request resolves to has proper names. -/
theorem proper_of_resolvePath (h : resolvePath category rel = some p) : ∀ s ∈ p, Proper s := by
  have hcategories : ∀ c ∈ categories, Proper c := by
    intro c hc
    simp only [categories, List.mem_cons, List.not_mem_nil, or_false] at hc
    rcases hc with rfl | rfl | rfl
    all_goals exact ⟨by decide, by decide⟩
  unfold resolvePath at h
  split_ifs at h with hcat
  obtain rfl := Option.some.inj h
  intro s hs
  rcases List.mem_cons.mp hs with rfl | hs
  · exact hcategories _ hcat
  · refine ⟨plain_foldl_push _ [] (by simp) s hs, ?_⟩
    rcases mem_foldl_push _ [] s hs with hnil | hseg
    · exact absurd hnil List.not_mem_nil
    · exact slash_not_mem_segments rel s hseg

theorem proper_append (hs : Proper s) {ext : String} (hext : '/' ∉ ext.toList)
    (hlong : 2 < ext.toList.length) : Proper (s ++ ext) := by
  have hlen : ∀ short : String, short.toList.length ≤ 2 → s ++ ext ≠ short := by
    intro short hshort h
    have hlist := congrArg (fun s => s.toList.length) h
    simp only [String.toList_append, List.length_append] at hlist
    omega
  refine ⟨⟨hlen "" (by decide), hlen "." (by decide), hlen ".." (by decide)⟩, ?_⟩
  rw [String.toList_append, List.mem_append, not_or]
  exact ⟨hs.2, hext⟩

/-- The companions of a proper path are proper. -/
theorem proper_of_companion (hdest : ∀ s ∈ dest, Proper s) (hne : dest ≠ [])
    (h : Companion dest q) : ∀ s ∈ q, Proper s := by
  have hbase : Proper dest.base := by
    apply hdest
    rw [Path.base, List.getLastD_eq_getLast?, List.getLast?_eq_some_getLast hne]
    exact List.getLast_mem hne
  have hext {ext : String} (hslash : '/' ∉ ext.toList) (hlong : 2 < ext.toList.length) :
      ∀ s ∈ dest.withExt ext, Proper s := by
    intro s hs
    rcases List.mem_append.mp hs with hdrop | hlast
    · exact hdest s (List.mem_of_mem_dropLast hdrop)
    · rw [List.mem_singleton.mp hlast]
      exact proper_append hbase hslash hlong
  rcases h with rfl | rfl | rfl
  · exact hdest
  · exact hext (by decide) (by decide)
  · exact hext (by decide) (by decide)

/-! ## Requests keep the names proper -/

/-- What a program touches has proper names. -/
theorem Tidy.exec {α : Type} {m : Fs α} {S : Path → Prop} (ht : Tidy t)
    (h : m.Always (Touching S)) (hS : ∀ q, S q → ∀ s ∈ q, Proper s) : Tidy (exec m t).2 := by
  intro q hq
  by_cases htouched : S q
  · exact hS q htouched
  · have hsame : (Fs.exec m t).2.node q = t.node q := node_run treeSystem t h htouched
    exact ht q (hsame ▸ hq)

theorem Tidy.of_fewer (ht : Tidy t) (h : ∀ q, t'.node q = t.node q ∨ t'.node q = none) :
    Tidy t' := by
  intro q hq
  rcases h q with hsame | hnone
  · exact ht q (hsame ▸ hq)
  · exact absurd hnone hq

theorem Tidy.uploads {α : Type} {m : Fs α} (ht : Tidy t) (h : m.Always (Uploads dest))
    (hdest : resolvePath category rel = some dest) : Tidy (Fs.exec m t).2 := by
  have htouch : m.Always (Touching fun q => q <+: dest ∨ Companion dest q) := by
    apply h.imp
    rintro c (rfl | hc) q hq
    · exact .inl (hq.2.trans (List.dropLast_prefix dest))
    · exact .inr (hc q hq)
  have hproper := proper_of_resolvePath hdest
  apply ht.exec htouch
  rintro q (habove | hcompanion)
  · exact fun s hs => hproper s (habove.subset hs)
  · exact proper_of_companion hproper (ne_nil_of_resolvePath hdest) hcompanion

/-- Every handler that writes. -/
theorem tidy_program (w : Writer) (r : FileRequest) (ht : Tidy t) :
    Tidy (exec (w.program sha256 P masterKey ivs r) t).2 := by
  by_cases hacc : w.Accepts r.category r.rel
  · have hdest := resolvePath_of_mem r.rel hacc.1
    cases w with
    | upload => exact ht.uploads (always_handleUpload (targetPath_eq hacc.1 hacc.2)) hdest
    | configPut => exact ht.uploads (always_handleConfigPut hacc.2 hdest) hdest
    | resume =>
      cases hparse : parseResume r with
      | error reply =>
        rw [program_of_resume_error hparse]
        exact ht
      | ok named =>
        obtain ⟨dest, offset, total⟩ := named
        exact ht.uploads (always_handleUploadResume hparse)
          (resolvePath_of_targetPath (targetPath_of_parseResume hparse))
    | mkdir =>
      have htouch : (handleMkdir r.category r.rel).Always (Touching (· <+: mkdir.path r)) := by
        apply (always_handleMkdir hacc.2 hdest).imp
        rintro c rfl q hq
        exact hq.2
      exact ht.exec htouch fun q hq s hs => proper_of_resolvePath hdest s (hq.subset hs)
    | delete =>
      apply ht.of_fewer
      by_cases hnode : t.node (delete.path r) = none
      · exact fun q => (exec_handleDelete_missing hdest hnode q).imp_right And.right
      · exact (exec_handleDelete hacc.2 hdest ne_nil_of_path hnode).2.fewer
  · obtain ⟨message, hrefused⟩ := program_refused hacc sha256 P masterKey ivs
    rw [hrefused]
    exact ht

/-- One request. -/
theorem tidy_step (app : App) {s : Present} (ht : Tidy s.tree) (r : HttpRequest) :
    Tidy (s.step app r).tree := by
  cases hrefused : refused app r with
  | true =>
    rw [Present.step, handle_of_refused hrefused]
    exact ht
  | false =>
    rw [Present.step, handle_eq hrefused]
    change Tidy (exec (app.program r) s.tree).2
    cases hwriter : writerOf (route r.method r.path) with
    | none => rwa [exec_of_reads (reads_program hwriter)]
    | some found =>
      obtain ⟨w, param, rel⟩ := found
      rw [program_of_writer hwriter, exec_bind]
      exact tidy_program w _ ht

/-! ## What the walk finds -/

/-- The folder of a listing is read as the path it was made of. -/
theorem resolvePath_slashed (hp : ∀ s ∈ p, Proper s) :
    resolvePath "images" (slashed p) = some ("images" :: p) := by
  have himages : "images" ∈ categories := by decide
  rw [resolvePath, if_pos himages, Option.some.injEq, List.cons.injEq, and_iff_right rfl]
  cases p with
  | nil => decide
  | cons s p =>
    rw [Path.join, segments_slashed (List.cons_ne_nil s p) fun s hs => (hp s hs).2,
      foldl_push_plain _ _ fun s hs => (hp s hs).1, List.nil_append]

theorem slashed_ne_empty (hne : p ≠ []) (hp : ∀ s ∈ p, Proper s) : slashed p ≠ "" := by
  cases p with
  | nil => exact absurd rfl hne
  | cons s p =>
    have hs : s ≠ "" := (hp s List.mem_cons_self).1.1
    cases p with
    | nil => exact hs
    | cons s' p =>
      intro h
      have hlen := congrArg (fun s => s.toList.length) h
      simp [slashed] at hlen

theorem under_slashed (hp : ∀ s ∈ p, Proper s) (name : String) :
    under (slashed p) name = slashed (p ++ [name]) := by
  induction p with
  | nil => rfl
  | cons s p ih =>
    have hs : ∀ s ∈ p, Proper s := fun s' hs' => hp s' (List.mem_cons_of_mem _ hs')
    have hlonger : slashed (s :: (p ++ [name])) = s ++ "/" ++ slashed (p ++ [name]) :=
      slashed_cons (by simp)
    rw [under, if_neg (slashed_ne_empty (List.cons_ne_nil s p) hp), List.cons_append, hlonger,
      ← ih hs]
    by_cases hnil : p = []
    · subst hnil
      rfl
    · rw [slashed_cons hnil, under, if_neg (slashed_ne_empty hnil hs)]
      simp only [String.append_assoc]

theorem slashed_injective (hp : ∀ s ∈ p, Proper s) (hq : ∀ s ∈ q, Proper s)
    (h : slashed p = slashed q) : p = q := by
  have himages := congrArg (resolvePath "images") h
  rw [resolvePath_slashed hp, resolvePath_slashed hq] at himages
  exact (List.cons.inj (Option.some.inj himages)).2

theorem Offered.ne_nil (h : Offered levels p) : p ≠ [] := by
  rintro rfl
  exact absurd h.wim (by decide)

theorem offered_singleton {name : String} :
    Offered (levels + 1) [name] ↔ isWim name = true :=
  ⟨fun h => h.wim, fun h => ⟨h, by simp, by simp⟩⟩

theorem base_cons (hp : p ≠ []) : Path.base (s :: p) = p.base := by
  obtain ⟨s', q, rfl⟩ := List.exists_cons_of_ne_nil hp
  rfl

theorem offered_cons {name : String} (hp : p ≠ []) :
    Offered (levels + 1) (name :: p) ↔ reserved name = false ∧ Offered levels p := by
  have hbase : Path.base (name :: p) = p.base := base_cons hp
  constructor
  · intro h
    have hfolders := h.folders
    rw [List.dropLast_cons_of_ne_nil hp] at hfolders
    exact ⟨hfolders name List.mem_cons_self, hbase ▸ h.wim, Nat.le_of_succ_le_succ h.depth,
      fun s hs => hfolders s (List.mem_cons_of_mem _ hs)⟩
  · rintro ⟨hname, h⟩
    refine ⟨hbase ▸ h.wim, Nat.succ_le_succ h.depth, ?_⟩
    rw [List.dropLast_cons_of_ne_nil hp]
    exact List.forall_mem_cons.mpr ⟨hname, h.folders⟩

/-- An image has not the name of a sidecar or a staging file. -/
theorem reserved_of_isWim {name : String} (h : isWim name = true) : reserved name = false := by
  obtain ⟨start, hstart⟩ := List.isSuffixOf_iff_suffix.mp h
  have hlast : (name.toList.map Char.toLower).getLast? = some 'm' := by
    rw [← hstart]
    simp
  have hends {ext : List Char} {c : Char} (hext : ext.getLast? = some c) (hc : c.toLower ≠ 'm') :
      ext.isSuffixOf name.toList = false := by
    rw [← Bool.not_eq_true, List.isSuffixOf_iff_suffix]
    rintro ⟨before, hbefore⟩
    rw [← hbefore, List.map_append, List.getLast?_append, List.getLast?_map, hext] at hlast
    exact hc (Option.some.inj hlast)
  rw [reserved, hends (by decide : sidecarExt.toList.getLast? = some '6') (by decide),
    hends (by decide : partExt.toList.getLast? = some 't') (by decide)]
  rfl

/-- The entries of a folder have different names. -/
theorem children_names (t : FileTree) (p : Path) :
    (t.children p).Pairwise fun e e' => e.name ≠ e'.name := by
  rw [FileTree.children, List.pairwise_filterMap]
  refine t.ordered.imp fun {x y} hlt e he e' he' hname => hlt.ne ?_
  have hpath {q : Path} {entry : Option DirEntry} {e : DirEntry}
      (hbase : ∀ e, entry = some e → e.name = q.base)
      (he : (if q ≠ [] ∧ q.dropLast = p then entry else none) = some e) : q = p ++ [e.name] := by
    split_ifs at he with h
    rw [hbase e he, ← h.2, dropLast_append_base h.1]
  have hx := hpath ?_ he
  have hy := hpath ?_ he'
  · rw [hx, hy, hname]
  all_goals
    intro e hentry
    split at hentry
    · rw [← Option.some.inj hentry]
    · rw [← Option.some.inj hentry]

/-- What the server answers to a listing. -/
theorem listing_slashed (hp : ∀ s ∈ p, Proper s) : listing t (slashed p) =
    match t.node ("images" :: p) with
    | some .folder => some ((t.children ("images" :: p)).filterMap fun e =>
        rowOf t.node ("images" :: p ++ [e.name]))
    | some (.file _) => none
    | none => if ("images" :: p).inits.any t.isFile then none else some [] := by
  have himages : resolvePath (if "images" = "" then "images" else "images") (slashed p) =
      some ("images" :: p) := by
    rw [if_neg (by decide), resolvePath_slashed hp]
  rw [listing, exec_handleList himages]
  cases t.node ("images" :: p) with
  | none => split_ifs <;> rfl
  | some n => cases n <;> rfl

section

variable {rows : List FileInfo} {e : FileInfo} {name : String}

theorem mem_listing (hp : ∀ s ∈ p, Proper s) (h : listing t (slashed p) = some rows) :
    e ∈ rows ↔ rowOf t.node ("images" :: (p ++ [e.name])) = some e := by
  have himages : resolvePath (if "images" = "" then "images" else "images") (slashed p) =
      some ("images" :: p) := by
    rw [if_neg (by decide), resolvePath_slashed hp]
  have hrows : (exec (handleList "images" (slashed p)) t).1 = .ok rows := toOption_eq_some.mp h
  rw [mem_list himages hrows, List.cons_append]

/-- A listing has each name once. -/
theorem listing_names (hp : ∀ s ∈ p, Proper s) (h : listing t (slashed p) = some rows) :
    rows.Pairwise fun e e' => e.name ≠ e'.name := by
  rw [listing_slashed hp] at h
  split at h
  · obtain rfl := Option.some.inj h
    rw [List.pairwise_filterMap]
    refine (children_names t _).imp fun {e e'} hne row hrow row' hrow' hname => hne ?_
    have hbase {e : DirEntry} {row : FileInfo}
        (hrow : rowOf t.node ("images" :: p ++ [e.name]) = some row) : row.name = e.name := by
      rw [(rowOf_eq_some hrow).1, Path.base, List.getLastD_concat]
    rw [← hbase hrow, ← hbase hrow', hname]
  · cases h
  · split_ifs at h
    obtain rfl := Option.some.inj h
    exact List.Pairwise.nil

/-- Nothing lies below a path that is not listed. -/
theorem node_of_listing_none (hp : ∀ s ∈ p, Proper s) (h : listing t (slashed p) = none)
    (hq : q ≠ []) : t.node ("images" :: (p ++ q)) = none := by
  by_contra hnode
  have hne : "images" :: p ≠ "images" :: (p ++ q) := by simpa using hq
  have habove : "images" :: p <+: "images" :: (p ++ q) := List.prefix_append ("images" :: p) q
  rw [listing_slashed hp, folder_above hnode habove hne] at h
  cases h

/-- A row is a folder or a file of the tree, with a name that is not reserved. -/
theorem node_of_row (hp : ∀ s ∈ p, Proper s) (h : listing t (slashed p) = some rows)
    (he : e ∈ rows) : reserved e.name = false ∧
      (e.isDir = true ∧ t.node ("images" :: (p ++ [e.name])) = some .folder ∨
        e.isDir = false ∧ ∃ b, t.node ("images" :: (p ++ [e.name])) = some (.file b)) := by
  obtain ⟨hname, hfree, hkind⟩ := rowOf_eq_some ((mem_listing hp h).mp he)
  exact ⟨hname ▸ hfree, hkind⟩

theorem row_of_folder (hp : ∀ s ∈ p, Proper s) (h : listing t (slashed p) = some rows)
    (hfree : reserved name = false) (hnode : t.node ("images" :: (p ++ [name])) = some .folder) :
    ⟨name, 0, true, []⟩ ∈ rows := by
  have hbase : Path.base ("images" :: (p ++ [name])) = name := by
    rw [← List.cons_append, Path.base, List.getLastD_concat]
  rw [mem_listing hp h, rowOf, hbase, hfree, hnode]
  rfl

theorem row_of_file (hp : ∀ s ∈ p, Proper s) (h : listing t (slashed p) = some rows)
    (hfree : reserved name = false) (hnode : t.node ("images" :: (p ++ [name])) = some (.file b)) :
    ∃ e ∈ rows, e.name = name ∧ e.isDir = false := by
  have hbase : Path.base ("images" :: (p ++ [name])) = name := by
    rw [← List.cons_append, Path.base, List.getLastD_concat]
  obtain ⟨e, he, hname, hisDir⟩ : ∃ e, rowOf t.node ("images" :: (p ++ [name])) = some e ∧
      e.name = name ∧ e.isDir = false := ⟨_, rowOf_file (by rwa [hbase]) hnode, hbase, rfl⟩
  subst hname
  exact ⟨e, (mem_listing hp h).mpr he, rfl, hisDir⟩

end

/-- **The walk.** It finds the images below a folder, as deep as there are levels left. -/
theorem mem_walk (ht : Tidy t) (hp : ∀ s ∈ p, Proper s) :
    rel ∈ walk t levels (slashed p) ↔ ∃ q b, rel = slashed (p ++ q) ∧
      t.node ("images" :: (p ++ q)) = some (.file b) ∧ Offered levels q := by
  induction levels generalizing p with
  | zero =>
    constructor
    · intro h
      cases h
    · rintro ⟨q, b, -, -, hq⟩
      exact absurd (List.length_eq_zero_iff.mp (Nat.le_zero.mp hq.depth)) hq.ne_nil
  | succ levels ih =>
    have hbelow {name : String} (h : t.node ("images" :: (p ++ [name])) ≠ none) :
        ∀ s ∈ p ++ [name], Proper s := fun s hs => ht _ h s (List.mem_cons_of_mem _ hs)
    rw [walk]
    cases hlist : listing t (slashed p) with
    -- a folder that cannot be listed holds no file
    | none =>
      constructor
      · intro h
        cases h
      · rintro ⟨q, b, -, hb, hq⟩
        rw [node_of_listing_none hp hlist hq.ne_nil] at hb
        cases hb
    | some rows =>
      dsimp only
      rw [List.mem_flatMap]
      constructor
      · rintro ⟨e, he, hrel⟩
        -- a row is a folder, which has its own walk, or a file, which is offered by its name
        obtain ⟨hfree, ⟨hisDir, hfolder⟩ | ⟨hisDir, b, hfile⟩⟩ := node_of_row hp hlist he
        · rw [if_pos hisDir, under_slashed hp, ih (hbelow (by simp [hfolder]))] at hrel
          obtain ⟨q, b, rfl, hb, hq⟩ := hrel
          rw [List.append_assoc, List.singleton_append] at hb ⊢
          exact ⟨e.name :: q, b, rfl, hb, (offered_cons hq.ne_nil).mpr ⟨hfree, hq⟩⟩
        · rw [hisDir, if_neg Bool.false_ne_true] at hrel
          split_ifs at hrel with hwim
          · rw [List.mem_singleton.mp hrel, under_slashed hp]
            exact ⟨[e.name], b, rfl, hfile, offered_singleton.mpr hwim⟩
          · exact absurd hrel List.not_mem_nil
      · rintro ⟨q, b, rfl, hb, hq⟩
        obtain ⟨name, q, rfl⟩ := List.exists_cons_of_ne_nil hq.ne_nil
        by_cases hnil : q = []
        · -- an image of the folder itself
          subst hnil
          have hwim := offered_singleton.mp hq
          obtain ⟨e, he, rfl, hisDir⟩ := row_of_file hp hlist (reserved_of_isWim hwim) hb
          refine ⟨e, he, ?_⟩
          rw [hisDir, if_neg Bool.false_ne_true, if_pos hwim, under_slashed hp]
          exact List.mem_singleton_self _
        -- an image further down: the first name of its path is a folder that is listed
        · obtain ⟨hfree, hq⟩ := (offered_cons hnil).mp hq
          have hfolder : t.node ("images" :: (p ++ [name])) = some .folder := by
            apply folder_above (q := "images" :: (p ++ name :: q)) (by simp [hb])
            · exact ⟨q, by simp⟩
            · simpa using Ne.symm hnil
          refine ⟨_, row_of_folder hp hlist hfree hfolder, ?_⟩
          rw [if_pos rfl, under_slashed hp, ih (hbelow (by simp [hfolder]))]
          exact ⟨q, b, by simp, by simpa using hb, hq⟩

/-- The walk comes to no image twice. -/
theorem nodup_walk (ht : Tidy t) (hp : ∀ s ∈ p, Proper s) : (walk t levels (slashed p)).Nodup := by
  induction levels generalizing p with
  | zero => exact List.nodup_nil
  | succ levels ih =>
    rw [walk]
    cases hlist : listing t (slashed p) with
    | none => exact List.nodup_nil
    | some rows =>
      have hbelow {e : FileInfo} (he : e ∈ rows) : ∀ s ∈ p ++ [e.name], Proper s := by
        have hnode : t.node ("images" :: (p ++ [e.name])) ≠ none := by
          obtain ⟨-, ⟨-, hfolder⟩ | ⟨-, b, hfile⟩⟩ := node_of_row hp hlist he
          · simp [hfolder]
          · simp [hfile]
        exact fun s hs => ht _ hnode s (List.mem_cons_of_mem _ hs)
      -- what is found in or below an entry has the path of the entry
      have hfound {e : FileInfo} {rel : String} (he : e ∈ rows) (hrel : rel ∈ if e.isDir then
          walk t levels (under (slashed p) e.name)
          else if isWim e.name then [under (slashed p) e.name] else []) :
          ∃ q, rel = slashed (p ++ e.name :: q) ∧ ∀ s ∈ p ++ e.name :: q, Proper s := by
        rw [under_slashed hp] at hrel
        split_ifs at hrel
        · obtain ⟨q, b, rfl, hb, -⟩ := (mem_walk ht (hbelow he)).mp hrel
          rw [List.append_assoc, List.singleton_append] at hb ⊢
          have hnode : t.node ("images" :: (p ++ e.name :: q)) ≠ none := by simp [hb]
          exact ⟨q, rfl, fun s hs => ht _ hnode s (List.mem_cons_of_mem _ hs)⟩
        · exact ⟨[], List.mem_singleton.mp hrel, hbelow he⟩
        · exact absurd hrel List.not_mem_nil
      refine List.nodup_flatMap.mpr ⟨fun e he => ?_, ?_⟩
      · split_ifs
        · rw [under_slashed hp]
          exact ih (hbelow he)
        · exact List.nodup_singleton _
        · exact List.nodup_nil
      · refine (listing_names hp hlist).imp_of_mem fun {e e'} he he' hne rel hrel hrel' => hne ?_
        obtain ⟨q, rfl, hq⟩ := hfound he hrel
        obtain ⟨q', hsame, hq'⟩ := hfound he' hrel'
        have hpath := List.append_cancel_left (slashed_injective hq hq' hsame)
        exact (List.cons.inj hpath).1

/-! ## After any requests -/

theorem tidy_empty : Tidy FileTree.empty := by
  intro p hp
  by_cases hnil : p = []
  · simp [hnil]
  · exact absurd (node_empty hnil) hp

theorem tidy_run (app : App) (rs : List HttpRequest) :
    Tidy (run (Present.step app) rs Present.init).tree := by
  let Inv (s : Present) : Prop := Tidy s.tree
  have hinv : Inv (run (Present.step app) rs Present.init) :=
    invariant rs (fun _ r h => tidy_step app h r) tidy_empty
  exact hinv

/-- **The images that are offered.** After any requests to the admin the editor offers each image
that is stored once and nothing else: each path of the images category that an upload put a file at,
whole or in chunks, and that was not deleted since, whose name ends as an image's does, at most six
levels deep and below no folder with a name of the API's own. -/
theorem listImages_run (app : App) (le : String → String → Bool) (rs : List HttpRequest) :
    (listImages le (run (Present.step app) rs Present.init).tree).Nodup ∧
      ∀ rel, rel ∈ listImages le (run (Present.step app) rs Present.init).tree ↔
        ∃ p, rel = slashed p ∧ Offered 6 p ∧
          (run (Present.step app) rs Present.init).holds ("images" :: p) := by
  have hmatches := Present.matches_run app rs
  have htidy := tidy_run app rs
  have hroot : ∀ s ∈ ([] : Path), Proper s := fun _ h => absurd h List.not_mem_nil
  refine ⟨(List.mergeSort_perm _ _).nodup_iff.mpr (nodup_walk htidy hroot), fun rel => ?_⟩
  -- the name of an image is not reserved, so there is a file exactly if the answers tell of one
  have hholds {p : Path} (hp : Offered 6 p) :
      (run (Present.step app) rs Present.init).holds ("images" :: p) ↔
        ∃ b, (run (Present.step app) rs Present.init).tree.node ("images" :: p) =
          some (.file b) := by
    rw [← isFile_iff, hmatches]
    rw [base_cons hp.ne_nil]
    exact reserved_of_isWim hp.wim
  have hwalk : rel ∈ walk _ 6 "" ↔ _ := mem_walk htidy hroot
  rw [listImages, List.mem_mergeSort, hwalk]
  constructor
  · rintro ⟨p, b, rfl, hb, hp⟩
    exact ⟨p, rfl, hp, (hholds hp).mpr ⟨b, hb⟩⟩
  · rintro ⟨p, rfl, hp, hb⟩
    obtain ⟨b, hb⟩ := (hholds hp).mp hb
    exact ⟨p, b, rfl, hb, hp⟩

/-- A chunk of one byte of an image of two. -/
def sampleChunk (offset : Char) : HttpRequest :=
  ⟨.patch, "/api/files/images/win11/Install.WIM", "", "", "", "10.0.0.1", 1, ['2'], [offset],
    .ofBytes [1], sampleIVs⟩

-- the image is offered once its second chunk is in
example : let after rs := walk (run (Present.step Audit.sampleApp) rs Present.init).tree 6 ""
    after [sampleChunk '0', Audit.samplePut "/api/files/images/a.txt"] = [] ∧
      after [sampleChunk '0', Audit.samplePut "/api/files/images/a.txt", sampleChunk '1'] =
        ["win11/Install.WIM"] := by
  decide +kernel

end WinDep.Editor
