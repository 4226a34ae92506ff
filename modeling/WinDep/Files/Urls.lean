/-
# The URLs of the browser

The browser builds a URL from a category, a folder and a name, encoding each
segment; its URL parser resolves dot segments before the request is sent. The
server takes the wildcard still encoded, and the folder of a listing decoded. The
two mean the same file when encoding changes nothing and the folder does not
climb out of its category.
-/

import WinDep.Data.Uri
import WinDep.Files.Outcomes
import WinDep.Files.Routes

namespace WinDep.Urls

open Fs FileTree Routes Uri

/-- `segs.join("/")` -/
def slashed : List String → String
  | [] => ""
  | [s] => s
  | s :: segs => s ++ "/" ++ slashed segs

/-- The path of an entry of a folder, as the pages write it. -/
def under (folder name : String) : String := if folder = "" then name else folder ++ "/" ++ name

def apiPath (base category folder leaf : String) : String :=
  let segs := category :: (Path.segments folder).filter (· ≠ "")
  "/api/" ++ base ++ "/" ++
    slashed ((if leaf = "" then segs else segs ++ [leaf]).map encodeURIComponent)

/-- The path of a request to a URL on the page's own server. -/
def browserPath (url : String) : String :=
  "/" ++ slashed (resolveDots (Path.segments (String.ofList (url.toList.drop 1))) [])

/-- The file that the handler of a request to a URL works on. -/
def addressed (method : Method) (url : String) : Option Path :=
  let (category, rel) := (route method (browserPath url)).params
  resolvePath category rel

/-- A file uploaded to the URL of a name is listed in its folder under that name, and the URLs made
from the row address the same file. -/
def Agrees (category folder name : String) : Prop :=
  ∃ p, addressed .patch (apiPath "files" category folder name) = some p ∧
    (∀ (t : FileTree) (b : Bytes), t.node p = some (.file b) →
      ∃ rows, (exec (handleList category folder) t).1 = .ok rows ∧
        ∃ row ∈ rows, row.name = name ∧ row.isDir = false) ∧
    addressed .get (apiPath "download" category folder name) = some p ∧
    addressed .delete (apiPath "files" category folder name) = some p ∧
    addressed .post (apiPath "verify" category folder name) = some p ∧
    addressed .get (apiPath "wiminfo" category folder name) = some p

/-- A file name that the user interface can be asked for. -/
structure FileName (name : String) : Prop where
  plain : Path.Plain name
  slash : '/' ∉ name.toList
  free : reserved name = false

instance (name : String) : Decidable (FileName name) :=
  decidable_of_iff (Path.Plain name ∧ '/' ∉ name.toList ∧ reserved name = false)
    ⟨fun h => ⟨h.1, h.2.1, h.2.2⟩, fun h => ⟨h.plain, h.slash, h.free⟩⟩

/-- Cleaning the folder never leaves the category. -/
def StaysBelow (category folder : String) : Prop :=
  Path.join [category] folder = category :: Path.join [] folder

/-- No character of the text is changed by encoding. -/
def Verbatim (s : String) : Prop := ∀ c ∈ s.toList, Unreserved c

instance (s : String) : Decidable (Verbatim s) := List.decidableBAll _ _

/-! ## Segments -/

variable {category folder name base rel s : String} {segs done : List String} {p : Path}

theorem slashed_cons (hsegs : segs ≠ []) : slashed (s :: segs) = s ++ "/" ++ slashed segs := by
  cases segs with
  | nil => exact absurd rfl hsegs
  | cons s' segs => rfl

theorem segments_slashed (hsegs : segs ≠ []) (h : ∀ s ∈ segs, '/' ∉ s.toList) :
    Path.segments (slashed segs) = segs := by
  induction segs with
  | nil => exact absurd rfl hsegs
  | cons s segs ih =>
    have hs := h s List.mem_cons_self
    by_cases hnil : segs = []
    · subst hnil
      exact Path.segments_eq_singleton hs
    · rw [slashed_cons hnil, Path.segments_append_slash hs,
        ih hnil fun s hs => h s (List.mem_cons_of_mem _ hs)]

theorem count_slashed (hsegs : segs ≠ []) (h : ∀ s ∈ segs, '/' ∉ s.toList) :
    (slashed segs).toList.count '/' + 1 = segs.length := by
  induction segs with
  | nil => exact absurd rfl hsegs
  | cons s segs ih =>
    have hs : s.toList.count '/' = 0 := List.count_eq_zero.mpr (h s List.mem_cons_self)
    by_cases hnil : segs = []
    · subst hnil
      simpa [slashed] using hs
    · have ih := ih hnil fun s hs => h s (List.mem_cons_of_mem _ hs)
      rw [slashed_cons hnil]
      simp only [String.toList_append, List.count_append, List.length_cons, hs]
      have hslash : "/".toList.count '/' = 1 := by decide
      omega

theorem slash_not_mem_encodeURIComponent (s : String) :
    '/' ∉ (encodeURIComponent s).toList := by
  rw [encodeURIComponent, String.toList_ofList]
  exact slash_not_mem_encode _

theorem encodeURIComponent_of_verbatim (h : Verbatim s) : encodeURIComponent s = s :=
  encodeURIComponent_eq_self_iff.mpr h

theorem map_encode_eq_self_iff :
    segs.map encodeURIComponent = segs ↔ ∀ s ∈ segs, Verbatim s := by
  induction segs with
  | nil => simp
  | cons s segs ih => simp [ih, encodeURIComponent_eq_self_iff, Verbatim]

/-- Empty segments do nothing. -/
theorem foldl_push_filter (segs : List String) (p : Path) :
    (segs.filter (· ≠ "")).foldl Path.push p = segs.foldl Path.push p := by
  induction segs generalizing p with
  | nil => rfl
  | cons s segs ih =>
    by_cases hs : s = ""
    · rw [List.filter_cons_of_neg (by simp [hs]), ih, List.foldl_cons, hs]
      simp [Path.push]
    · rw [List.filter_cons_of_pos (by simp [hs]), List.foldl_cons, List.foldl_cons, ih]

/-- A folder climbs some number of segments up, the same from wherever it starts. -/
theorem join_climbs (folder : String) :
    ∃ k, ∀ p, Path.join p folder = p.take (p.length - k) ++ Path.join [] folder := by
  unfold Path.join
  induction Path.segments folder using List.reverseRecOn with
  | nil => exact ⟨0, fun p => by simp⟩
  | append_singleton segs s ih =>
    obtain ⟨k, hk⟩ := ih
    simp only [List.foldl_append, List.foldl_cons, List.foldl_nil]
    by_cases hskip : s = "" ∨ s = "."
    · exact ⟨k, fun p => by simp only [Path.push, if_pos hskip, hk p]⟩
    by_cases hup : s = ".."
    · subst hup
      have hpush (p : Path) : Path.push p ".." = p.dropLast := by simp [Path.push]
      by_cases hempty : segs.foldl Path.push [] = []
      · -- there is nothing to take back, so one more segment of the start goes
        refine ⟨k + 1, fun p => ?_⟩
        have hdrop : (p.take (p.length - k)).dropLast = p.take (p.length - (k + 1)) := by
          rw [List.dropLast_eq_take, List.take_take, List.length_take]
          congr 1
          omega
        rw [hpush, hpush, hk p, hempty, List.append_nil, hdrop, List.dropLast_nil, List.append_nil]
      · refine ⟨k, fun p => ?_⟩
        rw [hpush, hpush, hk p, List.dropLast_append_of_ne_nil hempty]
    · refine ⟨k, fun p => ?_⟩
      simp only [Path.push, if_neg hskip, if_neg hup, hk p, List.append_assoc]

/-! ## What the browser sends -/

/-- The dot segments of a folder are resolved as cleaning resolves them. -/
theorem resolveDots_map (hname : Path.Plain name) (hsegs : "" ∉ segs) (done : Path) :
    resolveDots ((segs ++ [name]).map encodeURIComponent) (done.map encodeURIComponent) =
      (segs.foldl Path.push done ++ [name]).map encodeURIComponent := by
  induction segs generalizing done with
  | nil =>
    have hsingle : ¬ singleDot (encodeURIComponent name) = true :=
      fun h => hname.2.1 (singleDot_encode.mp h)
    have hdouble : ¬ doubleDot (encodeURIComponent name) = true :=
      fun h => hname.2.2 (doubleDot_encode.mp h)
    simp [resolveDots, hsingle, hdouble]
  | cons s segs ih =>
    have hs : s ≠ "" := fun h => hsegs (h ▸ List.mem_cons_self)
    have hrest : "" ∉ segs := fun h => hsegs (List.mem_cons_of_mem _ h)
    have hpush : (if doubleDot (encodeURIComponent s) then (done.map encodeURIComponent).dropLast
        else if singleDot (encodeURIComponent s) then done.map encodeURIComponent
        else done.map encodeURIComponent ++ [encodeURIComponent s]) =
          (Path.push done s).map encodeURIComponent := by
      unfold Path.push
      by_cases hdouble : s = ".."
      · rw [if_pos (doubleDot_encode.mpr hdouble), if_neg (by simp [hdouble]), if_pos hdouble,
          List.map_dropLast]
      · rw [if_neg (fun h => hdouble (doubleDot_encode.mp h))]
        by_cases hsingle : s = "."
        · rw [if_pos (singleDot_encode.mpr hsingle), if_pos (Or.inr hsingle)]
        · rw [if_neg (fun h => hsingle (singleDot_encode.mp h)), if_neg (by simp [hs, hsingle]),
            if_neg hdouble, List.map_append, List.map_singleton]
    obtain ⟨s', segs', hcons⟩ := List.exists_cons_of_ne_nil
      (show (segs ++ [name]).map encodeURIComponent ≠ [] by simp)
    have ih := ih hrest (Path.push done s)
    rw [List.cons_append, List.map_cons, List.foldl_cons, ← ih, hcons, resolveDots, hpush]
    simp

theorem slash_of_verbatim (h : Verbatim s) : '/' ∉ s.toList := fun hmem =>
  absurd (h _ hmem) (by decide)

/-- What the browser asks for: the folder cleaned from the server's root, and the name. -/
theorem browserPath_apiPath (hname : Path.Plain name) (hbase : Verbatim base)
    (hbase' : Path.Plain base) (hcat' : Path.Plain category) :
    browserPath (apiPath base category folder name) = "/" ++ slashed
      ((Path.join ["api", base, category] folder ++ [name]).map encodeURIComponent) := by
  set psegs := (Path.segments folder).filter (· ≠ "") with hpsegs
  set wild := (category :: psegs ++ [name]).map encodeURIComponent with hwild
  have hrest : String.ofList ((apiPath base category folder name).toList.drop 1) =
      "api" ++ "/" ++ (base ++ "/" ++ slashed wild) := by
    apply String.toList_inj.mp
    simp [apiPath, hname.1, hwild, hpsegs]
  have hsegs : Path.segments ("api" ++ "/" ++ (base ++ "/" ++ slashed wild)) =
      (["api", base, category] ++ psegs ++ [name]).map encodeURIComponent := by
    have hslash : ∀ s ∈ wild, '/' ∉ s.toList := by
      intro s hs
      obtain ⟨s', -, rfl⟩ := List.mem_map.mp hs
      exact slash_not_mem_encodeURIComponent s'
    rw [Path.segments_append_slash (by decide),
      Path.segments_append_slash (slash_of_verbatim hbase),
      segments_slashed (by simp [hwild]) hslash]
    have hapi : encodeURIComponent "api" = "api" := by decide
    simp [hwild, hapi, encodeURIComponent_of_verbatim hbase]
  have hempty : "" ∉ ["api", base, category] ++ psegs := by
    simp [hpsegs, hbase'.1.symm, hcat'.1.symm]
  have hroot : ["api", base, category].foldl Path.push [] = ["api", base, category] := by
    have hapi : Path.Plain "api" := by decide
    simp [Path.push_plain, hapi, hbase', hcat']
  have hresolved := resolveDots_map hname hempty []
  rw [List.map_nil, List.foldl_append, hroot, foldl_push_filter] at hresolved
  rw [browserPath, hrest, hsegs, hresolved]
  rfl

/-! ## What the router makes of it -/

variable {const const' path : String}

/-- A path that ends in no slash is routed as it is. -/
theorem trimmed_eq (h : path.toList.getLast? ≠ some '/') : trimmed path = path.toList := by
  unfold trimmed
  split_ifs
  · rw [List.rdropWhile_eq_self_iff]
    intro hne hlast
    rw [List.getLast?_eq_some_getLast hne] at h
    exact h (congrArg some (by simpa using hlast))
  · rfl

theorem categoryAndRest_path (hne : category ≠ "") (hslash : '/' ∉ category.toList) :
    categoryAndRest (category ++ "/" ++ rel).toList = some (category, rel) := by
  have hlist : (category ++ "/" ++ rel).toList = category.toList ++ '/' :: rel.toList := by simp
  have hchars : ∀ c ∈ category.toList, (decide (c ≠ '/')) = true := by
    intro c hc
    have hne : c ≠ '/' := by
      rintro rfl
      exact hslash hc
    simpa using hne
  have htake : (category ++ "/" ++ rel).toList.takeWhile (· ≠ '/') = category.toList := by
    rw [hlist, List.takeWhile_append_of_pos hchars, List.takeWhile_cons_of_neg (by simp),
      List.append_nil]
  have hdrop : (category ++ "/" ++ rel).toList.dropWhile (· ≠ '/') = '/' :: rel.toList := by
    rw [hlist, List.dropWhile_append_of_pos hchars, List.dropWhile_cons_of_neg (by simp)]
  have hcategory : category.toList ≠ [] := fun h => hne (String.toList_eq_nil_iff.mp h)
  rw [categoryAndRest, htake, hdrop]
  simp [hcategory]

/-- A route takes a path that is spelled as it is. -/
theorem matchCategory_path (const : String) (hconst : const.toList.map Char.toLower = const.toList)
    (hne : category ≠ "") (hslash : '/' ∉ category.toList)
    (hlast : (const ++ (category ++ "/" ++ rel)).toList.getLast? ≠ some '/') :
    matchCategory const (const ++ (category ++ "/" ++ rel)) = some (category, rel) := by
  have hpre : const.toList <+: (const ++ (category ++ "/" ++ rel)).toList.map Char.toLower := by
    rw [String.toList_append, List.map_append, hconst]
    exact List.prefix_append _ _
  rw [matchCategory, trimmed_eq hlast, afterConst, if_pos hpre, String.toList_append,
    List.drop_left, Option.bind_some]
  exact categoryAndRest_path hne hslash

/-- A route takes no path that begins otherwise. -/
theorem matchCategory_other (hconst : const'.toList.map Char.toLower = const'.toList)
    (h : ¬ const.toList <+: const'.toList) (h' : ¬ const'.toList <+: const.toList)
    (hlast : (const' ++ rel).toList.getLast? ≠ some '/') :
    matchCategory const (const' ++ rel) = none := by
  have hnot : ¬ const.toList <+: (const' ++ rel).toList.map Char.toLower := by
    intro hpre
    rw [String.toList_append, List.map_append, hconst] at hpre
    rcases List.prefix_or_prefix_of_prefix hpre (List.prefix_append _ _) with hle | hle
    · exact h hle
    · exact h' hle
  rw [matchCategory, trimmed_eq hlast, afterConst, if_neg hnot, Option.bind_none]

theorem length_segments (rel : String) :
    (Path.segments rel).length = rel.toList.count '/' + 1 := by
  rw [Path.segments, List.length_map]
  induction rel.toList with
  | nil => rfl
  | cons c cs ih =>
    rw [List.splitOn_cons_eq_if_modifyHead]
    split_ifs with hc
    · rw [List.length_cons, ih, List.count_cons, if_pos hc]
    · rw [List.length_modifyHead, ih, List.count_cons, if_neg hc, Nat.add_zero]

theorem length_foldl_push (segs : List String) (p : Path) :
    (segs.foldl Path.push p).length ≤ p.length + segs.length := by
  induction segs generalizing p with
  | nil => simp
  | cons s segs ih =>
    have hpush : (Path.push p s).length ≤ p.length + 1 := by
      unfold Path.push
      split_ifs
      · omega
      · rw [List.length_dropLast]
        omega
      · simp
    have hle := ih (Path.push p s)
    rw [List.foldl_cons, List.length_cons]
    omega

theorem toLower_eq_slash {c : Char} : c.toLower = '/' ↔ c = '/' := by
  constructor
  · intro h
    unfold Char.toLower at h
    split at h
    · next hupper =>
      -- no letter becomes a slash
      have hval := congrArg (fun c => c.val.toNat) h
      have hlow := hupper.1
      have hhigh := hupper.2
      rw [ge_iff_le, UInt32.le_iff_toNat_le] at hlow
      rw [UInt32.le_iff_toNat_le] at hhigh
      simp only [UInt32.toNat_add] at hval hlow hhigh
      simp at hval hlow hhigh
      omega
    · exact h
  · rintro rfl
    rfl

theorem count_lower (cs : List Char) : (cs.map Char.toLower).count '/' = cs.count '/' := by
  rw [List.count_eq_countP, List.count_eq_countP, List.countP_map]
  apply List.countP_congr
  intro c _
  simp [toLower_eq_slash]

/-- A wildcard has no more segments than there are slashes from its own on. -/
theorem length_of_categoryAndRest {rest : List Char}
    (h : categoryAndRest rest = some (category, rel)) :
    (Path.join [] rel).length ≤ rest.count '/' := by
  unfold categoryAndRest at h
  dsimp only at h
  split_ifs at h
  obtain ⟨-, rfl⟩ := Prod.mk.inj (Option.some.inj h)
  have hdrop : (rest.dropWhile (· ≠ '/')).count '/' ≤ rest.count '/' :=
    (List.dropWhile_suffix _).sublist.count_le _
  cases hcase : rest.dropWhile (· ≠ '/') with
  | nil =>
    have hnone : Path.join [] (String.ofList (List.drop 1 [])) = [] := by decide
    rw [hnone]
    exact Nat.zero_le _
  | cons c tail =>
    have hc : c = '/' := by
      have hhead := List.head?_dropWhile_not (fun c => decide (c ≠ '/')) rest
      rw [hcase] at hhead
      simpa using hhead
    have hlength := length_foldl_push (Path.segments (String.ofList tail)) []
    rw [length_segments, String.toList_ofList] at hlength
    rw [hcase, hc, List.count_cons_self] at hdrop
    simp only [Path.join, List.drop_succ_cons, List.drop_zero, List.length_nil] at hlength ⊢
    omega

/-- A wildcard has no more segments than its path has slashes left. -/
theorem length_of_matchCategory (h : matchCategory const path = some (category, rel)) :
    (Path.join [] rel).length + const.toList.count '/' ≤ path.toList.count '/' := by
  have htrim : (trimmed path).count '/' ≤ path.toList.count '/' := by
    unfold trimmed
    split_ifs
    · exact (List.rdropWhile_prefix _ _).sublist.count_le _
    · rfl
  obtain ⟨rest, hrest, hmatch⟩ := Option.bind_eq_some_iff.mp h
  unfold afterConst at hrest
  split_ifs at hrest with hpre
  obtain rfl := Option.some.inj hrest
  have hrel := length_of_categoryAndRest hmatch
  have hconst : const.toList.count '/' =
      ((trimmed path).take const.toList.length).count '/' := by
    have htake := List.prefix_iff_eq_take.mp hpre
    rw [← List.map_take] at htake
    rw [← count_lower ((trimmed path).take _), ← htake]
  have hsplit : (trimmed path).count '/' = ((trimmed path).take const.toList.length).count '/' +
      ((trimmed path).drop const.toList.length).count '/' := by
    rw [← List.count_append, List.take_append_drop]
  omega

/-! ## Agreement -/

/-- A tree with one file. -/
theorem exists_single (hp : p ≠ []) :
    ∃ t : FileTree, ∃ b, t.node p = some (.file b) ∧ ∀ q c, t.node q = some (.file c) → q = p := by
  have hempty (q : Path) : FileTree.empty.node q = if q = [] then some .folder else none := rfl
  have hfree : ∀ r, r <+: p.dropLast → FileTree.empty.isFile r = false := by
    intro r _
    unfold isFile
    rw [hempty]
    split_ifs <;> rfl
  have hmade (q : Path) := node_mkdirs hfree (q := q)
  set t := p.dropLast.inits.foldl mkdir FileTree.empty
  have hfolders (q : Path) : t.node q = some .folder ∨ t.node q = none := by
    rw [hmade, hempty]
    split_ifs <;> simp
  have hparent : t.HasParent p := ⟨hp, by rw [hmade, if_pos List.prefix_rfl]⟩
  have hself : t.node p ≠ some .folder := by
    rw [hmade, if_neg (not_prefix_dropLast_self hp), hempty, if_neg hp]
    simp
  obtain ⟨-, hput⟩ := putFile_of_hasParent (b := []) hparent hself
  refine ⟨(t.putFile p []).2, [], by rw [hput, Function.update_self], ?_⟩
  intro q c hq
  by_contra hne
  rw [hput, Function.update_of_ne hne] at hq
  rcases hfolders q with hfolder | hnone
  · simp [hfolder] at hq
  · simp [hnone] at hq

theorem category_ne (h : category ∈ categories) :
    Path.Plain category ∧ Verbatim category ∧ category ≠ "" := by
  simp only [categories, List.mem_cons, List.not_mem_nil, or_false] at h
  rcases h with rfl | rfl | rfl
  all_goals decide

/-- The file is listed in the folder exactly when it lies there under the name. -/
theorem listed_iff (hcat : category ∈ categories) (hname : FileName name) (hp : p ≠ []) :
    (∀ (t : FileTree) (b : Bytes), t.node p = some (.file b) →
      ∃ rows, (exec (handleList category folder) t).1 = .ok rows ∧
        ∃ row ∈ rows, row.name = name ∧ row.isDir = false) ↔
      p = category :: Path.join [] folder ++ [name] := by
  have hdir : resolvePath (if category = "" then "images" else category) folder =
      some (category :: Path.join [] folder) := by
    rw [if_neg (category_ne hcat).2.2]
    exact if_pos hcat
  constructor
  · intro h
    obtain ⟨t, b, hfile, honly⟩ := exists_single hp
    obtain ⟨rows, hrows, row, hrow, rfl, hisDir⟩ := h t b hfile
    rw [mem_list hdir hrows] at hrow
    -- a row that is not of a folder is of a file, and there is only one
    obtain ⟨-, -, ⟨hfolder, -⟩ | ⟨-, c, hc⟩⟩ := rowOf_eq_some hrow
    · simp [hisDir] at hfolder
    · exact (honly _ c hc).symm
  · rintro rfl t b hfile
    have hfolder : t.node (category :: Path.join [] folder) = some .folder :=
      t.closed_node (s := name) (by rw [hfile]; simp)
    have hlist := congrArg Prod.fst (exec_handleList (t := t) hdir)
    rw [hfolder] at hlist
    have hbase : Path.base (category :: Path.join [] folder ++ [name]) = name := by
      rw [Path.base, List.getLastD_concat]
    have hfree : reserved (Path.base (category :: Path.join [] folder ++ [name])) = false := by
      rw [hbase]
      exact hname.free
    obtain ⟨row, hrow, hisDir⟩ : ∃ row, rowOf t.node (category :: Path.join [] folder ++ [name]) =
        some row ∧ row.isDir = false := ⟨_, rowOf_file hfree hfile, rfl⟩
    have hrowName : row.name = name := (rowOf_eq_some hrow).1.trans hbase
    refine ⟨_, hlist, row, (mem_list hdir hlist).mpr ?_, hrowName, hisDir⟩
    rw [hrowName, hrow]

/-! ## A folder that stays below its category -/

theorem StaysBelow.join (h : StaysBelow category folder) (p : Path) :
    Path.join p folder = p ++ Path.join [] folder := by
  obtain ⟨k, hk⟩ := join_climbs folder
  have hlen := congrArg List.length h
  rw [hk [category]] at hlen
  simp only [List.length_append, List.length_take, List.length_cons, List.length_nil] at hlen
  have hzero : k = 0 := by omega
  rw [hk p, hzero, Nat.sub_zero, List.take_length]

theorem plain_encode (h : Path.Plain s) : Path.Plain (encodeURIComponent s) := by
  refine ⟨?_, ?_, ?_⟩
  · intro hempty
    rw [encodeURIComponent, ← String.ofList_nil, String.ofList_inj, encode_eq_nil_iff,
      String.toList_eq_nil_iff] at hempty
    exact h.1 hempty
  · intro hdot
    exact h.2.1 (singleDot_encode.mp (hdot ▸ by decide))
  · intro hdots
    exact h.2.2 (doubleDot_encode.mp (hdots ▸ by decide))

/-- Cleaning leaves segments that mean themselves. -/
theorem plain_foldl_push (segs : List String) (p : Path) (hp : ∀ s ∈ p, Path.Plain s) :
    ∀ s ∈ segs.foldl Path.push p, Path.Plain s := by
  induction segs generalizing p with
  | nil => exact hp
  | cons s segs ih =>
    apply ih
    intro s' hs'
    unfold Path.push at hs'
    split_ifs at hs' with hskip hup
    · exact hp s' hs'
    · exact hp s' (List.mem_of_mem_dropLast hs')
    · rcases List.mem_append.mp hs' with hmem | hmem
      · exact hp s' hmem
      · obtain rfl := List.mem_singleton.mp hmem
        exact ⟨fun h => hskip (Or.inl h), fun h => hskip (Or.inr h), hup⟩

theorem foldl_push_plain (segs : List String) (p : Path) (h : ∀ s ∈ segs, Path.Plain s) :
    segs.foldl Path.push p = p ++ segs := by
  induction segs generalizing p with
  | nil => simp
  | cons s segs ih =>
    rw [List.foldl_cons, Path.push_plain (h s List.mem_cons_self),
      ih _ fun s hs => h s (List.mem_cons_of_mem _ hs)]
    simp

/-- The wildcard of a name in a folder: the segments, encoded. -/
def wildcard (folder name : String) : String :=
  slashed ((Path.join [] folder ++ [name]).map encodeURIComponent)

theorem join_wildcard (hname : Path.Plain name) :
    Path.join [] (wildcard folder name) =
      (Path.join [] folder ++ [name]).map encodeURIComponent := by
  have hslash : ∀ s ∈ (Path.join [] folder ++ [name]).map encodeURIComponent, '/' ∉ s.toList := by
    intro s hs
    obtain ⟨s', -, rfl⟩ := List.mem_map.mp hs
    exact slash_not_mem_encodeURIComponent s'
  have hplain : ∀ s ∈ (Path.join [] folder ++ [name]).map encodeURIComponent, Path.Plain s := by
    intro s hs
    obtain ⟨s', hs', rfl⟩ := List.mem_map.mp hs
    apply plain_encode
    rcases List.mem_append.mp hs' with hmem | hmem
    · exact plain_foldl_push _ [] (by simp) s' hmem
    · obtain rfl := List.mem_singleton.mp hmem
      exact hname
  rw [Path.join, wildcard, segments_slashed (by simp) hslash, foldl_push_plain _ _ hplain,
    List.nil_append]

theorem slashed_concat (segs : List String) (s : String) :
    ∃ before, (slashed (segs ++ [s])).toList = before ++ s.toList := by
  induction segs with
  | nil => exact ⟨[], rfl⟩
  | cons s' segs ih =>
    obtain ⟨before, hbefore⟩ := ih
    refine ⟨(s' ++ "/").toList ++ before, ?_⟩
    rw [List.cons_append, slashed_cons (by simp), String.toList_append, hbefore, List.append_assoc]

/-- The URL of a name does not end in a slash. -/
theorem getLast_slashed (segs : List String) (hs : s ≠ "") (hslash : '/' ∉ s.toList)
    (start : String) : (start ++ slashed (segs ++ [s])).toList.getLast? ≠ some '/' := by
  obtain ⟨before, hbefore⟩ := slashed_concat segs s
  rw [String.toList_append, hbefore, ← List.append_assoc,
    List.getLast?_append_of_ne_nil _ (fun h => hs (String.toList_eq_nil_iff.mp h))]
  exact fun h => hslash (List.mem_of_getLast? h)

/-- What the browser asks for when the folder stays below its category. -/
theorem browserPath_stays (hcat : category ∈ categories) (hname : FileName name)
    (hstays : StaysBelow category folder) (hbase : Verbatim base) (hbase' : Path.Plain base) :
    browserPath (apiPath base category folder name) =
      "/api/" ++ base ++ "/" ++ (category ++ "/" ++ wildcard folder name) := by
  obtain ⟨hplain, hverbatim, -⟩ := category_ne hcat
  have hapi : encodeURIComponent "api" = "api" := by decide
  rw [browserPath_apiPath hname.plain hbase hbase' hplain, hstays.join, List.append_assoc,
    List.map_append, List.map_cons, List.map_cons, List.map_cons, List.map_nil, hapi,
    encodeURIComponent_of_verbatim hbase, encodeURIComponent_of_verbatim hverbatim,
    List.cons_append, List.cons_append, List.cons_append, List.nil_append,
    slashed_cons (by simp), slashed_cons (by simp), slashed_cons (by simp)]
  apply String.toList_inj.mp
  simp [wildcard]

/-- The last part of a request ends in no slash, and its category has none. -/
structure Routed (category rel : String) : Prop where
  named : category ≠ "" ∧ '/' ∉ category.toList
  last : ∀ start : String, (start ++ (category ++ "/" ++ rel)).toList.getLast? ≠ some '/'

theorem routed_wildcard (hcat : category ∈ categories) (hname : FileName name) :
    Routed category (wildcard folder name) := by
  obtain ⟨-, hverbatim, hne⟩ := category_ne hcat
  refine ⟨⟨hne, slash_of_verbatim hverbatim⟩, fun start => ?_⟩
  have hlast := getLast_slashed ((Path.join [] folder).map encodeURIComponent)
    (plain_encode hname.plain).1 (slash_not_mem_encodeURIComponent name)
    (start ++ (category ++ "/"))
  simpa [wildcard, String.append_assoc] using hlast

theorem route_patch (h : Routed category rel) :
    route .patch (filesConst ++ (category ++ "/" ++ rel)) = .resume category rel := by
  have hmatch := matchCategory_path filesConst (by decide) h.named.1 h.named.2 (h.last _)
  simp only [route, hmatch]

theorem route_delete (h : Routed category rel) :
    route .delete (filesConst ++ (category ++ "/" ++ rel)) = .delete category rel := by
  have hmatch := matchCategory_path filesConst (by decide) h.named.1 h.named.2 (h.last _)
  simp only [route, hmatch]

theorem route_verify (h : Routed category rel) :
    route .post (verifyConst ++ (category ++ "/" ++ rel)) = .verify category rel := by
  have hmatch := matchCategory_path verifyConst (by decide) h.named.1 h.named.2 (h.last _)
  have hfolders : matchCategory foldersConst (verifyConst ++ (category ++ "/" ++ rel)) = none :=
    matchCategory_other (by decide) (by decide) (by decide) (h.last verifyConst)
  simp only [route, hmatch, hfolders]

/-- A path with more to it is not that of a listing. -/
theorem matchExact_other (hconst : const'.toList.map Char.toLower = const'.toList)
    (h : ¬ const'.toList <+: const.toList)
    (hlast : (const' ++ rel).toList.getLast? ≠ some '/') :
    matchExact const (const' ++ rel) = false := by
  rw [matchExact, trimmed_eq hlast, decide_eq_false_iff_not, String.toList_append, List.map_append,
    hconst]
  exact fun heq => h (heq ▸ List.prefix_append _ _)

theorem route_download (h : Routed category rel) :
    route .get (downloadConst ++ (category ++ "/" ++ rel)) = .download category rel := by
  have hmatch := matchCategory_path downloadConst (by decide) h.named.1 h.named.2 (h.last _)
  have hlist : matchExact "/api/files" (downloadConst ++ (category ++ "/" ++ rel)) = false :=
    matchExact_other (by decide) (by decide) (h.last downloadConst)
  simp [route, hmatch, hlist]

theorem route_wimInfo (h : Routed category rel) :
    route .get (wimInfoConst ++ (category ++ "/" ++ rel)) = .wimInfo category rel := by
  have hmatch := matchCategory_path wimInfoConst (by decide) h.named.1 h.named.2 (h.last _)
  have hlist : matchExact "/api/files" (wimInfoConst ++ (category ++ "/" ++ rel)) = false :=
    matchExact_other (by decide) (by decide) (h.last wimInfoConst)
  have hdownload : matchCategory downloadConst (wimInfoConst ++ (category ++ "/" ++ rel)) = none :=
    matchCategory_other (by decide) (by decide) (by decide) (h.last wimInfoConst)
  simp [route, hmatch, hlist, hdownload]

/-- A request for a name goes to the file with the encoded segments. -/
theorem addressed_stays (method : Method) (hcat : category ∈ categories) (hname : FileName name)
    (hstays : StaysBelow category folder) (hbase : Verbatim base) (hbase' : Path.Plain base)
    (hconst : "/api/" ++ base ++ "/" = const)
    (hroute : (route method (const ++ (category ++ "/" ++ wildcard folder name))).params =
      (category, wildcard folder name)) :
    addressed method (apiPath base category folder name) =
      some (category :: (Path.join [] folder ++ [name]).map encodeURIComponent) := by
  rw [addressed, browserPath_stays hcat hname hstays hbase hbase', hconst, hroute]
  dsimp only
  rw [resolvePath, if_pos hcat, join_wildcard hname.plain]

/-- An upload that climbs is not stored as deep as its listing looks. -/
theorem staysBelow_of_addressed (hcat : category ∈ categories) (hname : FileName name)
    (h : addressed .patch (apiPath "files" category folder name) =
      some (category :: Path.join [] folder ++ [name])) : StaysBelow category folder := by
  obtain ⟨hplain, hverbatim, -⟩ := category_ne hcat
  obtain ⟨k, hk⟩ := join_climbs folder
  have hfiles : Verbatim "files" := by decide
  have hplain' : Path.Plain "files" := by decide
  rw [addressed, browserPath_apiPath hname.plain hfiles hplain' hplain] at h
  set sent := (Path.join ["api", "files", category] folder ++ [name]).map encodeURIComponent
    with hsent
  have hslash : ∀ s ∈ sent, '/' ∉ s.toList := by
    intro s hs
    obtain ⟨s', -, rfl⟩ := List.mem_map.mp hs
    exact slash_not_mem_encodeURIComponent s'
  have hcount := count_slashed (show sent ≠ [] by simp [hsent]) hslash
  have hpath : ("/" ++ slashed sent).toList.count '/' = sent.length := by
    rw [String.toList_append, List.count_append, ← hcount, Nat.add_comm]
    rfl
  have hlength : sent.length = 3 - k + (Path.join [] folder).length + 1 := by
    simp only [hsent, hk ["api", "files", category], List.length_map, List.length_append,
      List.length_take, List.length_cons, List.length_nil]
    omega
  cases hmatch : matchCategory filesConst ("/" ++ slashed sent) with
  | none =>
    simp only [route, hmatch, Route.params] at h
    exact absurd h (by simp [resolvePath, categories])
  | some found =>
    obtain ⟨category', rel⟩ := found
    have hle := length_of_matchCategory hmatch
    have hthree : filesConst.toList.count '/' = 3 := by decide
    simp only [route, hmatch, Route.params, resolvePath] at h
    split_ifs at h
    have hlen := congrArg List.length (Option.some.inj h)
    simp only [List.length_cons, List.length_append, List.length_nil] at hlen
    -- the folder may not have taken any of the three segments before it
    have hzero : k = 0 := by omega
    rw [StaysBelow, hk [category], hzero]
    rfl

/-- **Agreement.** The browser and the server mean the same file by a name exactly when the folder
stays below its category and encoding changes neither the folders nor the name. -/
theorem agrees_iff (category folder name : String) (hcat : category ∈ categories)
    (hname : FileName name) : Agrees category folder name ↔
      StaysBelow category folder ∧ (∀ s ∈ Path.join [] folder, Verbatim s) ∧ Verbatim name := by
  have hrouted : Routed category (wildcard folder name) := routed_wildcard hcat hname
  have hpatch (hstays : StaysBelow category folder) :=
    addressed_stays .patch hcat hname hstays (show Verbatim "files" by decide)
      (by decide) (show _ = filesConst by decide)
      (by rw [route_patch hrouted]; rfl)
  constructor
  · rintro ⟨p, hp, hlisted, -⟩
    have hne : p ≠ [] := ne_nil_of_resolvePath hp
    obtain rfl := (listed_iff hcat hname hne).mp hlisted
    have hstays := staysBelow_of_addressed hcat hname hp
    refine ⟨hstays, ?_⟩
    -- the file is stored under the encoded segments and listed under the segments
    rw [hpatch hstays, Option.some.injEq, List.cons_append, List.cons.injEq] at hp
    have hsame := map_encode_eq_self_iff.mp hp.2
    exact ⟨fun s hs => hsame s (List.mem_append_left _ hs), hsame name (by simp)⟩
  · rintro ⟨hstays, hfolders, hnamed⟩
    have hsame : (Path.join [] folder ++ [name]).map encodeURIComponent =
        Path.join [] folder ++ [name] := by
      apply map_encode_eq_self_iff.mpr
      intro s hs
      rcases List.mem_append.mp hs with hmem | hmem
      · exact hfolders s hmem
      · obtain rfl := List.mem_singleton.mp hmem
        exact hnamed
    have hdelete := addressed_stays .delete hcat hname hstays (show Verbatim "files" by decide)
      (by decide) (show _ = filesConst by decide)
      (by rw [route_delete hrouted]; rfl)
    have hdownload := addressed_stays .get hcat hname hstays (show Verbatim "download" by decide)
      (by decide) (show _ = downloadConst by decide)
      (by rw [route_download hrouted]; rfl)
    have hverify := addressed_stays .post hcat hname hstays (show Verbatim "verify" by decide)
      (by decide) (show _ = verifyConst by decide)
      (by rw [route_verify hrouted]; rfl)
    have hwimInfo := addressed_stays .get hcat hname hstays (show Verbatim "wiminfo" by decide)
      (by decide) (show _ = wimInfoConst by decide)
      (by rw [route_wimInfo hrouted]; rfl)
    rw [hsame] at hdelete hdownload hverify hwimInfo
    refine ⟨category :: (Path.join [] folder ++ [name]), ?_, ?_, hdownload, hdelete, hverify,
      hwimInfo⟩
    · rw [hpatch hstays, hsame]
    · exact (listed_iff hcat hname (List.cons_ne_nil _ _)).mpr rfl

theorem agrees_iff_wim : Agrees "images" "win11/24h2" "install.wim" ↔
    StaysBelow "images" "win11/24h2" ∧ (∀ s ∈ Path.join [] "win11/24h2", Verbatim s) ∧
      Verbatim "install.wim" :=
  agrees_iff "images" "win11/24h2" "install.wim" (by decide) (by decide)

/-- A name with a blank is stored under its code. -/
theorem blank_not_agreed : ¬ ∀ category folder name : String, category ∈ categories →
    FileName name → Agrees category folder name := by
  intro h
  have hname : FileName "boot disk.wim" := by decide
  obtain ⟨p, hp, hlisted, -⟩ := h "images" "" "boot disk.wim" (by decide) hname
  have hstored : addressed .patch (apiPath "files" "images" "" "boot disk.wim") =
      some ["images", "boot%20disk.wim"] := by
    decide +kernel
  rw [listed_iff (by decide) hname (ne_nil_of_resolvePath hp)] at hlisted
  rw [hstored, Option.some.injEq] at hp
  exact absurd (hp.trans hlisted) (by decide)

end WinDep.Urls
