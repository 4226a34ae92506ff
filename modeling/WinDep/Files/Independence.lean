/-
# The file API as a map from paths to contents

Requests are handled one after another on a file tree, without faults. Beside the
tree stands the map the API is meant to be: a successful upload assigns its bytes
to a path, a successful delete takes away a path with all below it. Download,
listing and verification agree with the map in every run that keeps off the names
the API writes for itself; a request on such a name reaches another file.
-/

import WinDep.Files.Outcomes

namespace WinDep.Fs

open Admin FileTree Program Function

/-! ## Requests -/

inductive Request
  | put (r : FileRequest)
  | mkdir (category rel : String)
  | delete (category rel : String)
  | list (category rel : String)
  | download (category rel : String)
  | verify (category rel : String)

inductive Response
  | reply (reply : Reply)
  | listing (rows : Except Reply (List FileInfo))
  | content (b : Except Reply Bytes)
  | verified (result : Except Reply VerifyResult)

/-- The contents a path has by the requests alone. -/
abbrev Contents := Path → Option Bytes

namespace Request

/-- Requests that write name something below a category root. -/
def Named : Request → Prop
  | put r => Path.join [] r.rel ≠ []
  | mkdir _ rel => Path.join [] rel ≠ []
  | delete _ rel => Path.join [] rel ≠ []
  | _ => True

def program (sha256 : Bytes → Digest) : Request → Fs Response
  | put r => do return .reply (← handleUpload sha256 r)
  | mkdir category rel => do return .reply (← handleMkdir category rel)
  | delete category rel => do return .reply (← handleDelete category rel)
  | list category rel => do return .listing (← handleList category rel)
  | download category rel => do return .content (← handleDownload category rel)
  | verify category rel => do return .verified (← handleVerify sha256 category rel)

/-- What an answered request makes of the contents. -/
def record : Request → Response → Contents → Contents
  | put r, .reply reply, m =>
    match targetPath r with
    | .ok p => if reply.status = 201 then update m p (some r.body.bytes) else m
    | .error _ => m
  | delete category rel, .reply reply, m =>
    match resolvePath category rel with
    | some p => if reply.status = 204 then fun q => if p <+: q then none else m q else m
    | none => m
  | _, _, m => m

/-- The request keeps off the names of sidecars and staging files: an upload that can succeed has
another name, and no folder where its sidecar goes; a delete does not name such a file. -/
def KeepsOff (t : FileTree) : Request → Prop
  | put r => ∀ p, targetPath r = .ok p → Puttable t p r.body →
      reserved p.base = false ∧ t.node (p.withExt sidecarExt) ≠ some .folder
  | delete category rel => ∀ p, resolvePath category rel = some p → t.isFile p = true →
      reserved p.base = false
  | _ => True

end Request

/-- The file tree, and the contents by the requests so far. -/
structure Served where
  tree : FileTree
  contents : Contents

namespace Served

variable (sha256 : Bytes → Digest)

def step (s : Served) (request : Request) : Served :=
  let (response, tree) := exec (request.program sha256) s.tree
  ⟨tree, request.record response s.contents⟩

def run (s : Served) (requests : List Request) : Served := requests.foldl (step sha256) s

/-- Every request of the run keeps off the reserved names. -/
def KeepsOff : Served → List Request → Prop
  | _, [] => True
  | s, request :: requests => request.KeepsOff s.tree ∧ KeepsOff (s.step sha256 request) requests

/-- The three requests that read a path show the bytes. -/
structure Shows (t : FileTree) (p : Path) (b : Bytes) : Prop where
  download : ∀ category rel, resolvePath category rel = some p →
    (exec (handleDownload category rel) t).1 = .ok b
  listed : ∀ category rel,
    resolvePath (if category = "" then "images" else category) rel = some p.dropLast →
      ∃ rows, (exec (handleList category rel) t).1 = .ok rows ∧ ∀ info,
        info ∈ rows ∧ info.name = p.base ↔
          info = ⟨p.base, b.length, false, hexDigits (sha256 b).1⟩
  verified : ∀ category rel, resolvePath category rel = some p →
    ∃ result, (exec (handleVerify sha256 category rel) t).1 = .ok result ∧ result.ok = true

/-- The path is listed as a folder if at all. -/
def Hides (t : FileTree) (p : Path) : Prop :=
  ∀ category rel rows,
    resolvePath (if category = "" then "images" else category) rel = some p.dropLast →
      (exec (handleList category rel) t).1 = .ok rows →
        ∀ info ∈ rows, info.name = p.base → info.isDir = true

/-- The tree shows the contents and no other file. -/
def Agrees (s : Served) : Prop :=
  ∀ p, match s.contents p with
    | some b => Shows sha256 s.tree p b
    | none => Hides s.tree p

/-! ## What a run keeps -/

/-- Every file of the tree has its contents or is the sidecar of one that has; a file with contents
has its sidecar, under a name that is not reserved. -/
structure Inv (t : FileTree) (m : Contents) : Prop where
  owned : ∀ q b, t.node q = some (.file b) →
    m q = some b ∨ ∃ p, m p ≠ none ∧ q = p.withExt sidecarExt
  file : ∀ p b, m p = some b → t.node p = some (.file b)
  sidecar : ∀ p b, m p = some b →
    t.node (p.withExt sidecarExt) = some (.file (sidecarLine p.base (sha256 b)))
  free : ∀ p, m p ≠ none → reserved p.base = false

end Served

/-! ## Each outcome keeps the invariant -/

variable {p q : Path}

/-- What lies below a path, or is its sidecar, lies at or below it with the path it belongs to. -/
theorem prefix_of_prefix_sidecar (h : p <+: q.withExt sidecarExt) (hne : p ≠ q.withExt sidecarExt) :
    p <+: q := by
  rcases List.prefix_concat_iff.mp h with heq | hdrop
  · exact absurd heq hne
  · exact hdrop.trans (List.dropLast_prefix q)

variable {sha256 : Bytes → Digest} {t t' : FileTree} {m : Contents} {b : Bytes} {src : Stream}

namespace Served

/-- No file has the name of a staging file. -/
theorem Inv.file_ne_part (hinv : Inv sha256 t m) (h : t.node q = some (.file b)) :
    q ≠ p.withExt partExt := by
  rcases hinv.owned q b h with hm | ⟨r, -, rfl⟩
  · exact ne_of_reserved (hinv.free q (by simp [hm])) reserved_part
  · exact sidecar_ne_part

theorem Inv.ne_nil (hinv : Inv sha256 t m) (h : m p ≠ none) : p ≠ [] := by
  obtain ⟨b, hb⟩ := Option.ne_none_iff_exists'.mp h
  exact ne_nil_of_file (hinv.file p b hb)

theorem inv_of_same_files (hinv : Inv sha256 t m)
    (h : ∀ q b, t'.node q = some (.file b) ↔ t.node q = some (.file b)) : Inv sha256 t' m where
  owned q b hq := hinv.owned q b ((h q b).mp hq)
  file p b hp := (h p b).mpr (hinv.file p b hp)
  sidecar p b hp := (h _ _).mpr (hinv.sidecar p b hp)
  free := hinv.free

theorem inv_kept (hinv : Inv sha256 t m) (h : Kept t p t') : Inv sha256 t' m := by
  apply inv_of_same_files hinv
  intro q b
  rcases h q with hsame | ⟨hpart, hnone⟩ | ⟨hnone, hfolder⟩
  · rw [hsame]
  · constructor
    · intro hq
      simp [hnone] at hq
    · intro hq
      exact absurd hpart (hinv.file_ne_part hq)
  · simp [hnone, hfolder]

theorem inv_uploaded (hinv : Inv sha256 t m) (hput : Puttable t p src)
    (hfree : reserved p.base = false) (hside : t.node (p.withExt sidecarExt) ≠ some .folder)
    (hp : p ≠ []) (h : Uploaded t p b (sha256 b) t') : Inv sha256 t' (update m p (some b)) := by
  -- a file of the old tree that is not the path's own is still there
  have hold {q : Path} {c : Bytes} (hq : t.node q = some (.file c)) (hqp : q ≠ p)
      (hqs : q ≠ p.withExt sidecarExt) : t'.node q = some (.file c) := by
    rw [h.other q (by simp [Companion, hqp, hqs, hinv.file_ne_part hq]), if_neg, hq]
    intro habove
    have hnot := hput.1 q habove
    simp [isFile, hq] at hnot
  have hlive {q : Path} (hq : m q ≠ none) : q ≠ p.withExt sidecarExt :=
    ne_of_reserved (hinv.free q hq) reserved_sidecar
  refine ⟨?_, ?_, ?_, ?_⟩
  · intro q c hq
    by_cases hqp : q = p
    · subst hqp
      left
      rw [update_self, ← (Option.some.inj (hq.symm.trans h.file) |> Node.file.inj)]
    by_cases hqs : q = p.withExt sidecarExt
    · exact Or.inr ⟨p, by simp, hqs⟩
    by_cases hqpart : q = p.withExt partExt
    -- the staging file was renamed
    · rw [hqpart, h.part] at hq
      cases hq
    rw [h.other q (by simp [Companion, hqp, hqs, hqpart])] at hq
    split_ifs at hq with habove
    · cases hq
    rcases hinv.owned q c hq with hm | ⟨r, hr, rfl⟩
    · exact Or.inl (by rwa [update_of_ne hqp])
    · refine Or.inr ⟨r, ?_, rfl⟩
      by_cases hrp : r = p
      · simp [hrp]
      · rwa [update_of_ne hrp]
  · intro q c hq
    by_cases hqp : q = p
    · subst hqp
      rw [update_self] at hq
      rw [h.file, Option.some.inj hq]
    · rw [update_of_ne hqp] at hq
      exact hold (hinv.file q c hq) hqp (hlive (by simp [hq]))
  · intro q c hq
    by_cases hqp : q = p
    · subst hqp
      rw [update_self] at hq
      rw [h.sidecar hside, Option.some.inj hq]
    · rw [update_of_ne hqp] at hq
      have hq' : m q ≠ none := by simp [hq]
      apply hold (hinv.sidecar q c hq)
      · exact (ne_of_reserved hfree reserved_sidecar).symm
      · exact fun heq => hqp (withExt_inj (hinv.ne_nil hq') hp heq)
  · intro q hq
    by_cases hqp : q = p
    · rwa [hqp]
    · rw [update_of_ne hqp] at hq
      exact hinv.free q hq

/-- A file that is left was there before. -/
theorem file_of_deleted (h : Deleted t p t') {c : Bytes} (hq : t'.node q = some (.file c)) :
    t.node q = some (.file c) ∧ ¬ p <+: q := by
  have hnot : ¬ p <+: q := by
    intro hbelow
    rw [h.gone q hbelow] at hq
    cases hq
  rcases h.fewer q with hsame | hnone
  · exact ⟨hsame ▸ hq, hnot⟩
  · rw [hnone] at hq
    cases hq

/-- A path that is not deleted keeps its file, and its sidecar. -/
theorem kept_of_deleted (hinv : Inv sha256 t m) (hp : p ≠ [])
    (hfree : t.isFile p = true → reserved p.base = false) (h : Deleted t p t')
    (hq : ¬ p <+: q) (hm : m q ≠ none) :
    t'.node q = t.node q ∧ t'.node (q.withExt sidecarExt) = t.node (q.withExt sidecarExt) := by
  obtain ⟨c, hc⟩ := Option.ne_none_iff_exists'.mp hm
  have hqfree := hinv.free q hm
  have hside := hinv.sidecar q c hc
  constructor
  · apply h.other q hq
    rintro (heq | heq | heq)
    · exact hq (heq ▸ List.prefix_rfl)
    · exact ne_of_reserved hqfree reserved_part heq
    · exact ne_of_reserved hqfree reserved_sidecar heq
  · have hne : p ≠ q.withExt sidecarExt := by
      rintro rfl
      have hpfree := hfree (by simp [isFile, hside])
      rw [reserved_sidecar] at hpfree
      cases hpfree
    apply h.other
    · exact fun hbelow => hq (prefix_of_prefix_sidecar hbelow hne)
    · rintro (heq | heq | heq)
      · exact hne heq.symm
      · exact sidecar_ne_part heq
      · exact hq (withExt_inj (hinv.ne_nil hm) hp heq ▸ List.prefix_rfl)

/-- What lies strictly above a file lies above its sidecar. -/
theorem prefix_sidecar (hq : q ≠ []) (h : p <+: q) (hne : p ≠ q) : p <+: q.withExt sidecarExt := by
  obtain ⟨dir, name, rfl⟩ := (List.eq_nil_or_concat' q).resolve_left hq
  rcases List.prefix_concat_iff.mp h with heq | hdir
  · exact absurd heq hne
  · exact hdir.trans (by simp [Path.withExt])

theorem inv_deleted (hinv : Inv sha256 t m) (hp : p ≠ [])
    (hfree : t.isFile p = true → reserved p.base = false) (h : Deleted t p t') :
    Inv sha256 t' fun q => if p <+: q then none else m q := by
  refine ⟨?_, ?_, ?_, ?_⟩
  · intro q c hq
    obtain ⟨hbefore, hnot⟩ := file_of_deleted h hq
    rcases hinv.owned q c hbefore with hm | ⟨r, hr, rfl⟩
    · exact Or.inl (by rwa [if_neg hnot])
    · refine Or.inr ⟨r, ?_, rfl⟩
      rw [if_neg]
      · exact hr
      · intro hbelow
        by_cases hpr : p = r
        · exact h.sidecar c (hpr ▸ hq)
        · exact hnot (prefix_sidecar (hinv.ne_nil hr) hbelow hpr)
  · intro q c hq
    split_ifs at hq with hbelow
    rw [(kept_of_deleted hinv hp hfree h hbelow (by simp [hq])).1]
    exact hinv.file q c hq
  · intro q c hq
    split_ifs at hq with hbelow
    rw [(kept_of_deleted hinv hp hfree h hbelow (by simp [hq])).2]
    exact hinv.sidecar q c hq
  · intro q hq
    split_ifs at hq with hbelow
    · exact absurd rfl hq
    · exact hinv.free q hq

/-! ## Runs -/

variable {s : Served} {request : Request} {category rel : String}

/-- A path that is not there has no contents, and none below it. -/
theorem Inv.absent (hinv : Inv sha256 t m) (h : t.node p = none) (hq : p <+: q) : m q = none := by
  by_contra hm
  obtain ⟨c, hc⟩ := Option.ne_none_iff_exists'.mp hm
  have hfile := hinv.file q c hc
  by_cases hpq : p = q
  · rw [hpq, hfile] at h
    cases h
  · have hthere : t.node q ≠ none := by simp [hfile]
    have hfolder := folder_above hthere hq hpq
    rw [h] at hfolder
    cases hfolder

theorem inv_put {r : FileRequest} (hinv : Inv sha256 t m) (hsafe : (Request.put r).KeepsOff t) :
    Inv sha256 (step sha256 ⟨t, m⟩ (.put r)).tree (step sha256 ⟨t, m⟩ (.put r)).contents := by
  simp only [step, Request.program, exec_bind, exec_pure, Request.record]
  cases htarget : targetPath r with
  | error reply => simpa [exec_handleUpload_error htarget] using hinv
  | ok p =>
    have hp : p ≠ [] := ne_nil_of_resolvePath (resolvePath_of_targetPath htarget)
    by_cases hput : Puttable t p r.body
    · obtain ⟨hfree, hside⟩ := hsafe p htarget hput
      obtain ⟨hreply, hup⟩ := exec_handleUpload sha256 htarget hp hput
      simp only [hreply, Reply.send, if_true]
      exact inv_uploaded hinv hput hfree hside hp hup
    · obtain ⟨hreply, hkept⟩ := exec_handleUpload_fails sha256 htarget hp hput
      simp only [hreply, if_false]
      exact inv_kept hinv hkept

theorem inv_delete (hinv : Inv sha256 t m) (hsafe : (Request.delete category rel).KeepsOff t) :
    Inv sha256 (step sha256 ⟨t, m⟩ (.delete category rel)).tree
      (step sha256 ⟨t, m⟩ (.delete category rel)).contents := by
  simp only [step, Request.program, exec_bind, exec_pure, Request.record]
  cases hdest : resolvePath category rel with
  | none =>
    have hrun : (exec (handleDelete category rel) t).2 = t := by
      unfold handleDelete
      split_ifs
      · rfl
      · rw [hdest]
        rfl
    rwa [hrun]
  | some p =>
    have hp : p ≠ [] := ne_nil_of_resolvePath hdest
    by_cases hrel : onlySlashes rel = true
    · simpa [handleDelete, hrel, Reply.error] using hinv
    by_cases hnode : t.node p = none
    · have hcleared : (fun q => if p <+: q then none else m q) = m := by
        funext q
        split_ifs with hq
        · exact (hinv.absent hnode hq).symm
        · rfl
      have hkept : Kept t p (exec (handleDelete category rel) t).2 := fun q =>
        (exec_handleDelete_missing hdest hnode q).imp_right Or.inl
      simp only [hcleared, ite_self]
      exact inv_kept hinv hkept
    · obtain ⟨hreply, hdel⟩ := exec_handleDelete (by simpa using hrel) hdest hp hnode
      simp only [hreply, Reply.send, if_true]
      exact inv_deleted hinv hp (hsafe p hdest) hdel

theorem inv_mkdir (hinv : Inv sha256 t m) :
    Inv sha256 (step sha256 ⟨t, m⟩ (.mkdir category rel)).tree
      (step sha256 ⟨t, m⟩ (.mkdir category rel)).contents := by
  have hkept : Kept t [] (exec (handleMkdir category rel) t).2 := fun q =>
    (exec_handleMkdir category rel t q).imp_right Or.inr
  simpa [step, Request.program, Request.record] using inv_kept hinv hkept

/-- One request. -/
theorem inv_step (hinv : Inv sha256 s.tree s.contents) (hsafe : request.KeepsOff s.tree) :
    Inv sha256 (s.step sha256 request).tree (s.step sha256 request).contents := by
  cases request with
  | put r => exact inv_put hinv hsafe
  | mkdir category rel => exact inv_mkdir hinv
  | delete category rel => exact inv_delete hinv hsafe
  | list category rel =>
    have hread := exec_of_reads (t := s.tree) (reads_handleList category rel)
    simpa [step, Request.program, Request.record, hread] using hinv
  | download category rel =>
    have hread := exec_of_reads (t := s.tree) (reads_handleDownload category rel)
    simpa [step, Request.program, Request.record, hread] using hinv
  | verify category rel =>
    have hread := exec_of_reads (t := s.tree) (reads_handleVerify sha256 category rel)
    simpa [step, Request.program, Request.record, hread] using hinv

theorem inv_run {requests : List Request} (hinv : Inv sha256 s.tree s.contents)
    (hsafe : s.KeepsOff sha256 requests) :
    Inv sha256 (s.run sha256 requests).tree (s.run sha256 requests).contents := by
  induction requests generalizing s with
  | nil => exact hinv
  | cons request requests ih => exact ih (inv_step hinv hsafe.1) hsafe.2

/-! ## Agreement -/

theorem row_eq (hfree : reserved p.base = false) (hfile : t.node p = some (.file b)) {sum : Digest}
    (hside : t.node (p.withExt sidecarExt) = some (.file (sidecarLine p.base sum))) :
    rowOf t.node p = some ⟨p.base, b.length, false, hexDigits sum.1⟩ := by
  rw [rowOf_file hfree hfile, hside, contentOf, readSidecar_sidecarLine]

theorem shows_of_inv (hinv : Inv sha256 t m) (hp : m p = some b) : Shows sha256 t p b := by
  have hfile := hinv.file p b hp
  have hside := hinv.sidecar p b hp
  have hne : p ≠ [] := ne_nil_of_file hfile
  refine ⟨?_, ?_, ?_⟩
  · intro category rel hdest
    rw [exec_handleDownload hdest hfile]
  · intro category rel hdir
    have hfolder : t.node p.dropLast = some .folder :=
      (hasParent_of_node hne (by simp [hfile])).2
    have hlist := exec_handleList (t := t) hdir
    rw [hfolder] at hlist
    refine ⟨_, congrArg Prod.fst hlist, ?_⟩
    intro info
    rw [mem_list hdir (congrArg Prod.fst hlist)]
    have hrow := row_eq (hinv.free p (by simp [hp])) hfile hside
    constructor
    · rintro ⟨hinfo, hname⟩
      rw [hname, dropLast_append_base hne, hrow] at hinfo
      exact (Option.some.inj hinfo).symm
    · rintro rfl
      exact ⟨by rw [dropLast_append_base hne, hrow], rfl⟩
  · intro category rel hdest
    exact ⟨_, congrArg Prod.fst (exec_handleVerify hdest hfile hside), by simp⟩

theorem hides_of_inv (hinv : Inv sha256 t m) (hp : m p = none) : Hides t p := by
  intro category rel rows hdir hrows info hinfo hname
  have hne : p ≠ [] := by
    rintro rfl
    exact ne_nil_of_resolvePath hdir rfl
  rw [mem_list hdir hrows, hname, dropLast_append_base hne] at hinfo
  obtain ⟨-, hfree, ⟨hdir, -⟩ | ⟨-, c, hfile⟩⟩ := rowOf_eq_some hinfo
  · exact hdir
  · -- a file without contents is a sidecar, and sidecars are not listed
    rcases hinv.owned p c hfile with hm | ⟨r, -, rfl⟩
    · simp [hp] at hm
    · simp [reserved_sidecar] at hfree

theorem agrees_of_inv (hinv : Inv sha256 s.tree s.contents) : s.Agrees sha256 := by
  intro p
  cases hp : s.contents p with
  | none => exact hides_of_inv hinv hp
  | some b => exact shows_of_inv hinv hp

/-- **Independence.** In a run from a tree without files whose requests keep off the reserved names,
the tree shows what the uploads and deletes make of the contents, and no other file. -/
theorem agrees_run (sha256 : Bytes → Digest) (t : FileTree) (requests : List Request)
    (hstart : ∀ p, t.isFile p = false) (hsafe : KeepsOff sha256 ⟨t, fun _ => none⟩ requests) :
    (run sha256 ⟨t, fun _ => none⟩ requests).Agrees sha256 := by
  apply agrees_of_inv
  apply inv_run _ hsafe
  refine ⟨?_, by simp, by simp, by simp⟩
  intro q b hq
  have hfile := hstart q
  simp [isFile, show t.node q = some (.file b) from hq] at hfile

/-- An upload of one byte to `images/a`. -/
def sampleUpload : Request := .put ⟨"images", "a", [], [], .ofBytes [1]⟩

theorem targetPath_sample :
    targetPath ⟨"images", "a", [], [], .ofBytes [1]⟩ = .ok ["images", "a"] := by
  decide

def bootUpload : FileRequest := ⟨"boot", "pxe/boot.wim", [], [], .ofBytes [2, 3]⟩

theorem targetPath_boot : targetPath bootUpload = .ok ["boot", "pxe", "boot.wim"] := by
  decide

/-- Two uploads, and a delete of the first. -/
def sampleRequests : List Request := [sampleUpload, .put bootUpload, .delete "images" "a"]

theorem agrees_sample :
    (run sampleDigest ⟨FileTree.empty, fun _ => none⟩ sampleRequests).Agrees sampleDigest := by
  apply agrees_run sampleDigest FileTree.empty sampleRequests isFile_empty
  refine ⟨?_, ?_, ?_, trivial⟩
  · intro p hp _
    rw [targetPath_sample] at hp
    obtain rfl := Except.ok.inj hp
    exact ⟨by decide, by decide⟩
  · intro p hp _
    rw [targetPath_boot] at hp
    obtain rfl := Except.ok.inj hp
    exact ⟨by decide, by decide +kernel⟩
  · intro p hp _
    have hpath : resolvePath "images" "a" = some ["images", "a"] := by decide
    rw [hpath] at hp
    obtain rfl := Option.some.inj hp
    decide

/-- Deleting `images/a.sha256` takes the sidecar of `images/a`, which was neither overwritten nor
deleted. -/
theorem delete_of_sidecar : ¬ ∀ (sha256 : Bytes → Digest) (t : FileTree) (requests : List Request),
    (∀ p, t.isFile p = false) → (∀ request ∈ requests, request.Named) →
      (run sha256 ⟨t, fun _ => none⟩ requests).Agrees sha256 := by
  intro h
  have hnamed : ∀ request ∈ [sampleUpload, .delete "images" "a.sha256"], request.Named := by
    intro request hmem
    simp only [List.mem_cons, List.not_mem_nil, or_false] at hmem
    rcases hmem with rfl | rfl
    all_goals simp only [sampleUpload, Request.Named]; decide
  have hagree := h sampleDigest FileTree.empty _ isFile_empty hnamed ["images", "a"]
  have hcontents : (run sampleDigest ⟨FileTree.empty, fun _ => none⟩
      [sampleUpload, .delete "images" "a.sha256"]).contents ["images", "a"] = some [1] := by
    decide +kernel
  have hverify : (exec (handleVerify sampleDigest "images" "a")
      (run sampleDigest ⟨FileTree.empty, fun _ => none⟩
        [sampleUpload, .delete "images" "a.sha256"]).tree).1 =
          .error (.error 404 "no recorded checksum") := by
    decide +kernel
  rw [hcontents] at hagree
  obtain ⟨result, hresult, -⟩ := hagree.verified "images" "a" (by decide)
  rw [hverify] at hresult
  cases hresult

end Served

end WinDep.Fs
