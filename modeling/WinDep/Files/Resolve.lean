/-
# Resolving a path

A path from a request is cleaned as a rooted path and joined to the folder of its
category, and the result is checked to lie below that folder. Over the bytes of
the texts: the check never fails, the elements below the category are those that
the elimination leaves, and resolving them again changes nothing. Read as text,
this is the list of segments that the handlers work on.
-/

import WinDep.Data.SlashPath
import WinDep.Files.Urls

namespace WinDep.Resolve

open SlashPath

/-- Paths in bytes, separated by slashes. -/
def unix : SlashPath UInt8 := ⟨0x2f, 0x2e, by decide⟩

/-- `strings.TrimPrefix` of a slash. -/
def trimSlash (s : Bytes) : Bytes := if s.head? = some unix.slash then s.tail else s

def categoryNames : List Bytes := categories.map toBytes

/-- `resolvePath`, where `filepath.FromSlash` does nothing. -/
def resolvePath (dataDir category rel : Bytes) : Except Reply Bytes :=
  if category ∉ categoryNames then .error (Reply.error 400 "unknown category")
  else
    let clean := trimSlash (unix.clean (unix.slash :: trimSlash rel))
    let root := unix.join [dataDir, category]
    let full := unix.join [root, clean]
    if full ≠ root ∧ ¬ root ++ [unix.slash] <+: full then .error (Reply.error 400 "invalid path")
    else .ok full

/-- A clean absolute path. -/
structure CleanDir (dir : Bytes) : Prop where
  absolute : dir.head? = some unix.slash
  clean : unix.clean dir = dir

/-- `dataDir/category` -/
def place (dataDir category : Bytes) : Bytes :=
  (if dataDir = [unix.slash] then dataDir else dataDir ++ [unix.slash]) ++ category

/-- A text resolves to the segments below its category, which resolve to the same path, and so
does every text of which the elimination leaves as much. -/
structure ResolvesTo (dataDir category rel : Bytes) (segs : List Bytes) : Prop where
  plain : ∀ s ∈ segs, unix.Plain s ∧ unix.slash ∉ s
  resolved : resolvePath dataDir category rel = .ok (place dataDir category ++ unix.below segs)
  again : resolvePath dataDir category (unix.below segs) = resolvePath dataDir category rel
  again_relative : resolvePath dataDir category ([unix.slash].intercalate segs) =
    resolvePath dataDir category rel
  same_iff : ∀ rel', resolvePath dataDir category rel' = resolvePath dataDir category rel ↔
    unix.eliminate true (unix.elements rel') = unix.eliminate true (unix.elements rel)

variable {dataDir category rel : Bytes} {ds segs : List Bytes}

/-! ## The path that is returned -/

theorem plain_category : ∀ c ∈ categoryNames, unix.Plain c ∧ unix.slash ∉ c := by decide

theorem CleanDir.exists_elements (h : CleanDir dataDir) :
    ∃ ds, (∀ e ∈ ds, unix.Plain e ∧ unix.slash ∉ e) ∧
      dataDir = unix.slash :: [unix.slash].intercalate ds := by
  refine ⟨unix.eliminate true (unix.elements dataDir), plain_eliminate, ?_⟩
  have hclean := h.clean
  rw [SlashPath.clean, if_pos h.absolute] at hclean
  exact hclean.symm

theorem trimSlash_slash (s : Bytes) : trimSlash (unix.slash :: s) = s := if_pos rfl

theorem eliminate_elements_trimSlash (rel : Bytes) :
    unix.eliminate true (unix.elements (trimSlash rel)) =
      unix.eliminate true (unix.elements rel) := by
  by_cases h : rel.head? = some unix.slash
  · obtain ⟨rest, rfl⟩ := List.head?_eq_some_iff.mp h
    rw [trimSlash_slash, eliminate_elements_slash]
  · rw [trimSlash, if_neg h]

theorem eliminate_elements_intercalate (h : ∀ e ∈ segs, unix.Plain e ∧ unix.slash ∉ e) :
    unix.eliminate true (unix.elements ([unix.slash].intercalate segs)) = segs := by
  rw [eliminate, foldl_elements_intercalate (fun e he => (h e he).1) fun e he => (h e he).2,
    List.nil_append]

/-- The path that is returned, by its elements. -/
theorem resolvePath_eq (hds : ∀ e ∈ ds, unix.Plain e ∧ unix.slash ∉ e)
    (hdir : dataDir = unix.slash :: [unix.slash].intercalate ds)
    (hcat : category ∈ categoryNames) (rel : Bytes) :
    resolvePath dataDir category rel =
      .ok (unix.below (ds ++ [category] ++ unix.eliminate true (unix.elements rel))) := by
  obtain ⟨rs, hrs⟩ : ∃ rs, rs = unix.eliminate true (unix.elements rel) := ⟨_, rfl⟩
  have hplain : ∀ e ∈ rs, unix.Plain e ∧ unix.slash ∉ e := hrs ▸ plain_eliminate
  have hroots : ∀ e ∈ ds ++ [category], unix.Plain e ∧ unix.slash ∉ e := fun e he =>
    (List.mem_append.mp he).elim (hds e) fun he => List.mem_singleton.mp he ▸ plain_category _ hcat
  have hclean : trimSlash (unix.clean (unix.slash :: trimSlash rel)) =
      [unix.slash].intercalate rs := by
    rw [clean_rooted, trimSlash_slash, eliminate_elements_slash, eliminate_elements_trimSlash, hrs]
  have hjoin (es fs : List Bytes) (hes : ∀ e ∈ es, unix.Plain e ∧ unix.slash ∉ e)
      (hfs : ∀ e ∈ fs, unix.Plain e ∧ unix.slash ∉ e) :
      unix.join [unix.slash :: [unix.slash].intercalate es, [unix.slash].intercalate fs] =
        unix.slash :: [unix.slash].intercalate (es ++ fs) := by
    rw [join_rooted, eliminate_elements_intercalate hes,
      foldl_elements_intercalate (fun e he => (hfs e he).1) fun e he => (hfs e he).2]
  have hroot : unix.join [dataDir, category] =
      unix.slash :: [unix.slash].intercalate (ds ++ [category]) := by
    have h := hjoin ds [category] hds fun e he => hroots e (List.mem_append_right _ he)
    rwa [List.intercalate_singleton, ← hdir] at h
  rw [resolvePath, if_neg (not_not.mpr hcat)]
  simp only [hclean, hroot, hjoin _ _ hroots hplain]
  rw [slash_intercalate (by simp), slash_intercalate (by simp), ← hrs, if_neg]
  -- the second check of the source: what is below the category begins with a slash
  rintro ⟨hne, hprefix⟩
  rw [below, below, List.flatMap_append] at hne hprefix
  cases rs with
  | nil => simp at hne
  | cons r rs => exact hprefix ⟨r ++ unix.below rs, by simp [below]⟩

theorem below_place (hds : ∀ e ∈ ds, unix.Plain e ∧ unix.slash ∉ e)
    (hdir : dataDir = unix.slash :: [unix.slash].intercalate ds) :
    unix.below (ds ++ [category] ++ segs) = place dataDir category ++ unix.below segs := by
  have hroot : unix.below (ds ++ [category]) = place dataDir category := by
    cases ds with
    | nil => simp [hdir, below, place]
    | cons d ds =>
      rw [slash_intercalate (List.cons_ne_nil d ds)] at hdir
      have hne : dataDir ≠ [unix.slash] := by
        have hd := (hds d List.mem_cons_self).1.1
        simp [hdir, below, hd]
      rw [place, if_neg hne, hdir]
      simp [below]
  rw [← hroot, below, below, below, List.flatMap_append]

theorem eliminate_elements_below (h : ∀ e ∈ segs, unix.Plain e ∧ unix.slash ∉ e) :
    unix.eliminate true (unix.elements (unix.below segs)) = segs := by
  by_cases hnil : segs = []
  · subst hnil
    rfl
  · rw [← slash_intercalate hnil, eliminate_elements_slash, eliminate_elements_intercalate h]

/-- **Containment.** Below a clean absolute folder every text resolves, to the folder of its
category or to what lies below it, and the result is a canonical one. -/
theorem resolvePath_canonical (hdir : CleanDir dataDir) (hcat : category ∈ categoryNames)
    (rel : Bytes) : ∃ segs, ResolvesTo dataDir category rel segs := by
  obtain ⟨ds, hds, hdir⟩ := hdir.exists_elements
  have heq := resolvePath_eq hds hdir hcat
  have hplain : ∀ e ∈ unix.eliminate true (unix.elements rel), unix.Plain e ∧ unix.slash ∉ e :=
    plain_eliminate
  exact ⟨_, {
    plain := hplain
    resolved := by rw [heq, below_place hds hdir]
    again := by rw [heq, heq, eliminate_elements_below hplain]
    again_relative := by rw [heq, heq, eliminate_elements_intercalate hplain]
    same_iff := fun rel' => by
      rw [heq, heq, Except.ok.injEq]
      refine ⟨fun h => ?_, fun h => by rw [h]⟩
      rw [below_place hds hdir, below_place hds hdir] at h
      exact below_injective (fun e he => (plain_eliminate e he).2) (fun e he => (hplain e he).2)
        (List.append_cancel_left h) }⟩

/-- A traversal stays in its category. -/
theorem resolvePath_canonical_traversal :
    ∃ segs, ResolvesTo (toBytes "/data") (toBytes "images") (toBytes "../../etc/passwd") segs :=
  resolvePath_canonical ⟨by decide, by decide⟩ (by decide) _

/-- The rules come to one end, whatever their order, and that is what lies below the category. -/
theorem resolvePath_cleaned (hdir : CleanDir dataDir) (hcat : category ∈ categoryNames)
    (rel : Bytes) : ∃! segs, unix.Cleaned true (unix.elements rel) segs ∧
      resolvePath dataDir category rel = .ok (place dataDir category ++ unix.below segs) := by
  obtain ⟨ds, hds, hdir⟩ := hdir.exists_elements
  refine ⟨_, ⟨cleaned_eliminate _, ?_⟩, fun segs h => h.1.eq⟩
  rw [resolvePath_eq hds hdir hcat, below_place hds hdir]

/-! ## The segments of a text -/

variable {c : Char} {s : String} {p : Path}

/-- The byte of a slash is no part of another character. -/
theorem eq_slash_of_utf8 (h : unix.slash ∈ String.utf8EncodeChar c) : c = '/' := by
  have heq {n : ℕ} (hn : unix.slash = UInt8.ofNat n) : n % 256 = 47 := by
    simpa [unix] using (congrArg UInt8.toNat hn).symm
  unfold String.utf8EncodeChar at h
  dsimp only at h
  split_ifs at h with hone htwo hthree <;>
    simp only [List.mem_cons, List.not_mem_nil, or_false] at h
  · have hc : c.val.toNat = '/'.val.toNat := by
      have := heq h
      have hslash : '/'.val.toNat = 47 := rfl
      omega
    exact Char.ext (UInt32.toNat_inj.mp hc)
  -- the bytes of a longer sequence are at least 128
  · rcases h with h | h <;> have := heq h <;> omega
  · rcases h with h | h | h <;> have := heq h <;> omega
  · rcases h with h | h | h | h <;> have := heq h <;> omega

theorem splitOn_append_of_not_mem {a b : Bytes} (h : unix.slash ∉ a) :
    (a ++ b).splitOn unix.slash = (b.splitOn unix.slash).modifyHead (a ++ ·) := by
  induction a with
  | nil =>
    rw [List.nil_append]
    cases b.splitOn unix.slash <;> rfl
  | cons x a ih =>
    obtain ⟨hx, ha⟩ := not_or.mp (List.mem_cons.not.mp h)
    rw [List.cons_append, List.splitOn_cons_eq_if_modifyHead, if_neg (by simpa using Ne.symm hx),
      ih ha]
    cases b.splitOn unix.slash <;> rfl

theorem elements_encode (cs : List Char) :
    unix.elements (Utf8.encode cs) = (cs.splitOn '/').map Utf8.encode := by
  induction cs with
  | nil => rfl
  | cons c cs ih =>
    rw [elements] at ih
    rw [elements, Utf8.encode, List.flatMap_cons, ← Utf8.encode,
      List.splitOn_cons_eq_if_modifyHead]
    by_cases hc : c = '/'
    · subst hc
      have hslash : String.utf8EncodeChar '/' = [unix.slash] := by decide
      rw [hslash, List.singleton_append, List.splitOn_cons_eq_if_modifyHead, if_pos (by simp), ih]
      rfl
    · rw [splitOn_append_of_not_mem fun h => hc (eq_slash_of_utf8 h), ih,
        if_neg (by simpa using hc)]
      cases cs.splitOn '/' <;> rfl

theorem elements_toBytes (s : String) :
    unix.elements (toBytes s) = (Path.segments s).map toBytes := by
  rw [toBytes, elements_encode, Path.segments, List.map_map]
  simp [toBytes, Function.comp_def]

theorem parent_eq : unix.parent = toBytes ".." := by decide

theorem skip_toBytes_iff : toBytes s = [] ∨ toBytes s = [unix.dot] ↔ s = "" ∨ s = "." := by
  have hempty : toBytes s = [] ↔ s = "" := toBytes_injective.eq_iff' (by decide)
  have hdot : toBytes s = [unix.dot] ↔ s = "." := toBytes_injective.eq_iff' (by decide)
  rw [hempty, hdot]

theorem plain_toBytes_iff : unix.Plain (toBytes s) ↔ Path.Plain s := by
  rw [SlashPath.Plain, Path.Plain, parent_eq, toBytes_injective.ne_iff, ← and_assoc, ← not_or,
    skip_toBytes_iff, not_or, and_assoc]

theorem put_toBytes (hp : ∀ s ∈ p, Path.Plain s) (s : String) :
    unix.put true (p.map toBytes) (toBytes s) = (p.push s).map toBytes := by
  by_cases hskip : s = "" ∨ s = "."
  · rw [put_skip (skip_toBytes_iff.mpr hskip), Path.push, if_pos hskip]
  by_cases hup : s = ".."
  · subst hup
    rw [← parent_eq, Path.push, if_neg (by decide), if_pos rfl]
    induction p using List.reverseRecOn with
    | nil => exact put_parent_nil rfl
    | append_singleton p t =>
      have ht := hp t (List.mem_append_right _ (List.mem_singleton_self t))
      rw [List.map_append, List.map_singleton, put_parent_plain (plain_toBytes_iff.mpr ht),
        List.dropLast_concat]
  · obtain ⟨hne, hne'⟩ := not_or.mp hskip
    rw [put_plain (plain_toBytes_iff.mpr ⟨hne, hne', hup⟩), Path.push_plain ⟨hne, hne', hup⟩,
      List.map_append, List.map_singleton]

theorem eliminate_toBytes (segs : List String) :
    unix.eliminate true (segs.map toBytes) = (segs.foldl Path.push []).map toBytes := by
  induction segs using List.reverseRecOn with
  | nil => rfl
  | append_singleton segs s ih =>
    rw [List.map_append, eliminate_append, ih, List.map_singleton, List.foldl_cons, List.foldl_nil,
      put_toBytes (Urls.plain_foldl_push segs [] (by simp)), List.foldl_append, List.foldl_cons,
      List.foldl_nil]

/-- **Refinement.** The path of a text has the segments that the handlers work on. -/
theorem resolvePath_toBytes (hdir : CleanDir dataDir) (category rel : String) :
    resolvePath dataDir (toBytes category) (toBytes rel) =
      match WinDep.resolvePath category rel with
      | some p => .ok ((if dataDir = [unix.slash] then [] else dataDir) ++
          unix.below (p.map toBytes))
      | none => .error (Reply.error 400 "unknown category") := by
  have hmem : toBytes category ∈ categoryNames ↔ category ∈ categories :=
    List.mem_map_of_injective toBytes_injective
  by_cases hcat : category ∈ categories
  · obtain ⟨ds, hds, hdir⟩ := hdir.exists_elements
    rw [resolvePath_eq hds hdir (hmem.mpr hcat), below_place hds hdir, elements_toBytes,
      eliminate_toBytes, WinDep.resolvePath, if_pos hcat]
    by_cases hroot : dataDir = [unix.slash]
    · simp [place, hroot, below, Path.join]
    · simp [place, hroot, below, Path.join]
  · rw [resolvePath, if_pos (hmem.not.mpr hcat), WinDep.resolvePath, if_neg hcat]

end WinDep.Resolve
