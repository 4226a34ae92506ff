/-
# The files that are there

The requests to the admin and the answers to them tell which paths hold a file:
an upload, a config that is put and the chunk that completes an upload add one,
and a delete takes away a path with all below it. On a file system without faults
the tree has exactly these files, but for the sidecars and the staging files that
the handlers write beside them.
-/

import WinDep.Data.Runs
import WinDep.Files.Audit
import WinDep.Files.Crash

namespace WinDep.Fs

open Admin Audit FileTree Program Routes Runs Writer

/-! ## Requests and answers -/

namespace Writer

/-- The status of an answer that tells of a success. A chunk that does not complete its upload is
answered with another one. -/
def success : Writer → ℕ
  | upload | configPut | mkdir => 201
  | resume => 200
  | delete => 204

/-- What a success makes of the paths that hold a file. -/
def record (w : Writer) (p : Path) (holds : Path → Prop) : Path → Prop :=
  match w with
  | upload | resume | configPut => fun q => q = p ∨ holds q
  | delete => fun q => ¬ p <+: q ∧ holds q
  | mkdir => holds

end Writer

/-- The paths that hold a file after a request was answered with a status. -/
def recordFiles (r : HttpRequest) (status : ℕ) (holds : Path → Prop) : Path → Prop :=
  match writerOf (route r.method r.path) with
  | some (w, param, rel) =>
    if status = w.success then w.record (w.categoryOf param :: Path.join [] rel) holds else holds
  | none => holds

/-- The admin, and the paths that hold a file by the requests so far and their answers. -/
structure Present where
  state : Audit.State FileTree
  holds : Path → Prop

namespace Present

def init : Present := ⟨⟨FileTree.empty, []⟩, fun _ => False⟩

def tree (s : Present) : FileTree := s.state.files

def step (app : App) (s : Present) (r : HttpRequest) : Present :=
  let (status, state) := Audit.handle treeSystem app s.state r
  ⟨state, recordFiles r status s.holds⟩

end Present

/-! ## Names that are not reserved -/

variable {sha256 : Bytes → Digest} {P : Primitives} {masterKey : Option Key} {ivs : String → IV}
  {t t' : FileTree} {p q dest : Path} {w : Writer} {r : FileRequest} {category rel : String}

theorem isFile_iff : t.isFile p = true ↔ ∃ b, t.node p = some (.file b) := by
  unfold isFile
  split
  · next b hb => simp [hb]
  · next hnot => simpa using hnot

/-- Where nothing else happens but that folders are made, the files stay. -/
theorem isFile_eq (h : t'.node q = t.node q ∨ t.node q = none ∧ t'.node q = some .folder) :
    t'.isFile q = t.isFile q := by
  rcases h with hsame | ⟨hnone, hfolder⟩
  · rw [isFile, isFile, hsame]
  · rw [isFile, isFile, hnone, hfolder]

theorem not_companion (hq : reserved q.base = false) (hne : q ≠ dest) : ¬ Companion dest q := by
  rintro (h | h | h)
  · exact hne h
  · exact ne_of_reserved hq reserved_part h
  · exact ne_of_reserved hq reserved_sidecar h

/-- A program that uploads leaves the other files. -/
theorem isFile_of_uploads {α : Type} {m : Fs α} (h : m.Always (Uploads dest))
    (hq : ¬ Companion dest q) : (exec m t).2.isFile q = t.isFile q := by
  let Same (t' : FileTree) : Prop := t'.isFile q = t.isFile q
  have hsame : Same (m.run serve t).2 := by
    apply h.run_invariant
    · rintro c t' (rfl | hc) ht'
      · have hmade := run_mkdirAll treeSystem t' dest.dropLast q
        exact (isFile_eq (hmade.imp_right fun h => ⟨h.1, h.2.2⟩)).trans ht'
      · exact (isFile_eq (.inl (FileTree.node_serve fun htouch => hq (hc q htouch)))).trans ht'
    · rfl
  exact hsame

/-! ## Each handler -/

/-- The files are those that the answer tells of. -/
def Tells (w : Writer) (p : Path) (t : FileTree) (out : Reply × FileTree) : Prop :=
  ∀ q, reserved q.base = false → (out.2.isFile q = true ↔
    if out.1.status = w.success then w.record p (fun q => t.isFile q = true) q
    else t.isFile q = true)

/-- A file that is published, or left as it was, is all that an upload changes. -/
theorem tells_of_uploads (hsuccess : ∀ holds, w.record dest holds = fun q => q = dest ∨ holds q)
    {m : Fs Reply} (h : m.Always (Uploads dest))
    (hdest : (exec m t).1.status = w.success ∧ (exec m t).2.isFile dest = true ∨
      (exec m t).1.status ≠ w.success ∧ (exec m t).2.isFile dest = t.isFile dest) :
    Tells w dest t (exec m t) := by
  intro q hq
  rw [hsuccess]
  by_cases hqd : q = dest
  · subst hqd
    rcases hdest with ⟨hstatus, hfile⟩ | ⟨hstatus, hsame⟩
    · simp [hstatus, hfile]
    · rw [if_neg hstatus, hsame]
  · rw [isFile_of_uploads h (not_companion hq hqd)]
    split_ifs <;> simp [hqd]

/-- An answer that refuses tells of nothing. -/
theorem tells_refused (w : Writer) (p : Path) (message : String) :
    Tells w p t (exec (pure (.error 400 message)) t) := by
  intro q _
  rw [if_neg]
  · rfl
  · cases w <;> simp [success, Reply.error]

theorem parseResume_error {reply : Reply} (h : parseResume r = .error reply) :
    ∃ message, reply = .error 400 message := by
  have hheader {name : String} {text : List Char} {reply : Reply}
      (h : parseHeader name text = .error reply) : ∃ message, reply = .error 400 message := by
    unfold parseHeader at h
    split at h
    · split_ifs at h
      exact ⟨_, (Except.error.inj h).symm⟩
    · exact ⟨_, (Except.error.inj h).symm⟩
  -- the path and the two headers are checked in this order
  cases htarget : targetPath r with
  | error reply' =>
    rw [parseResume, htarget] at h
    cases h
    unfold targetPath at htarget
    split_ifs at htarget
    · exact ⟨_, (Except.error.inj htarget).symm⟩
    · split at htarget
      · exact ⟨_, (Except.error.inj htarget).symm⟩
      · cases htarget
  | ok dest =>
    rw [parseResume, htarget] at h
    cases hlength : parseHeader "Upload-Length" r.uploadLength with
    | error reply' =>
      obtain ⟨message, rfl⟩ := hheader hlength
      rw [hlength] at h
      exact ⟨message, (Except.error.inj h).symm⟩
    | ok total =>
      cases hoffset : parseHeader "Upload-Offset" r.uploadOffset with
      | error reply' =>
        obtain ⟨message, rfl⟩ := hheader hoffset
        rw [hlength, hoffset] at h
        exact ⟨message, (Except.error.inj h).symm⟩
      | ok offset =>
        rw [hlength, hoffset] at h
        cases h

/-- What an upload makes of the file it names. -/
theorem dest_handleUpload (sha256 : Bytes → Digest) (htarget : targetPath r = .ok dest) :
    (exec (handleUpload sha256 r) t).1.status = 201 ∧
        (exec (handleUpload sha256 r) t).2.isFile dest = true ∨
      (exec (handleUpload sha256 r) t).1.status ≠ 201 ∧
        (exec (handleUpload sha256 r) t).2.isFile dest = t.isFile dest := by
  have hne : dest ≠ [] := ne_nil_of_resolvePath (resolvePath_of_targetPath htarget)
  by_cases hput : Puttable t dest r.body
  · obtain ⟨hreply, huploaded⟩ := exec_handleUpload sha256 htarget hne hput
    exact .inl ⟨congrArg Reply.status hreply, isFile_iff.mpr ⟨_, huploaded.file⟩⟩
  · have hsame := (exec_handleUpload_failed_path sha256 htarget hne hput).1
    exact .inr ⟨(exec_handleUpload_failed sha256 htarget hne hput).1, isFile_eq (.inl hsame)⟩

/-- What finishing an upload makes of the file it names. -/
theorem dest_finishUpload (sha256 : Bytes → Digest) (newSize : ℕ) (dest : Path) (t : FileTree) :
    (exec (finishUpload sha256 newSize (dest.withExt partExt) dest) t).1.status = 200 ∧
        (exec (finishUpload sha256 newSize (dest.withExt partExt) dest) t).2.isFile dest = true ∨
      (exec (finishUpload sha256 newSize (dest.withExt partExt) dest) t).1.status ≠ 200 ∧
        (exec (finishUpload sha256 newSize (dest.withExt partExt) dest) t).2.isFile dest =
          t.isFile dest := by
  cases hstaged : t.content (dest.withExt partExt) with
  | none => exact .inr (by simp [finishUpload, finalizePart, hstaged, Reply.error])
  | some staged =>
    rcases exec_rename_cases (t := t) (part_ne (p := dest)) with ⟨hfails, hsame⟩ | ⟨hok, hfile⟩
    · exact .inr (by simp [finishUpload, finalizePart, hstaged, hfails, hsame, Reply.error])
    · -- the sidecar is another file
      have hsidecar (t' : FileTree) :
          (exec (writeSidecar dest (sha256 staged)) t').2.node dest = t'.node dest :=
        node_run treeSystem t' (always_writeSidecar (S := (· ≠ dest)) sidecar_ne) fun hne => hne rfl
      obtain ⟨b, hb⟩ := hfile
      refine .inl ⟨by simp [finishUpload, finalizePart, hstaged, hok], isFile_iff.mpr ⟨b, ?_⟩⟩
      simp [finishUpload, finalizePart, hstaged, hok, hsidecar, hb]

theorem dest_appendAndFinish (sha256 : Bytes → Digest) (dest : Path) (body : Stream)
    (offset total : ℕ) (t : FileTree) :
    (exec (appendAndFinish sha256 dest body offset total) t).1.status = 200 ∧
        (exec (appendAndFinish sha256 dest body offset total) t).2.isFile dest = true ∨
      (exec (appendAndFinish sha256 dest body offset total) t).1.status ≠ 200 ∧
        (exec (appendAndFinish sha256 dest body offset total) t).2.isFile dest =
          t.isFile dest := by
  have happend : (exec (appendStream (dest.withExt partExt) body (total - offset)) t).2.isFile
      dest = t.isFile dest :=
    isFile_eq (.inl (node_run treeSystem t
      (always_appendStream (S := (· = dest.withExt partExt)) rfl) part_ne.symm))
  rw [appendAndFinish]
  simp only [exec_bind]
  set appended := exec (appendStream (dest.withExt partExt) body (total - offset)) t
  split_ifs
  · exact .inr ⟨by simp, happend⟩
  · rw [← happend]
    exact dest_finishUpload sha256 _ dest _
  · exact .inr ⟨by simp [Reply.error], happend⟩

/-- What a chunk makes of the file it names. -/
theorem dest_resume {offset total : ℕ} (hparse : parseResume r = .ok (dest, offset, total)) :
    (exec (resume.program sha256 P masterKey ivs r) t).1.status = 200 ∧
        (exec (resume.program sha256 P masterKey ivs r) t).2.isFile dest = true ∨
      (exec (resume.program sha256 P masterKey ivs r) t).1.status ≠ 200 ∧
        (exec (resume.program sha256 P masterKey ivs r) t).2.isFile dest = t.isFile dest := by
  have hmade : (exec (mkdirAll dest.dropLast) t).2.isFile dest = t.isFile dest := by
    refine isFile_eq ?_
    exact (run_mkdirAll treeSystem t dest.dropLast dest).imp_right fun h => ⟨h.1, h.2.2⟩
  rw [program_resume hparse]
  simp only [exec_bind]
  by_cases hok : (exec (mkdirAll dest.dropLast) t).1 = true
  · rw [if_pos hok, ← hmade]
    simp only [exec_bind]
    split_ifs
    · exact .inr ⟨by simp [Reply.error], rfl⟩
    · exact dest_appendAndFinish sha256 dest r.body _ total _
  · rw [if_neg hok]
    exact .inr ⟨by simp [Reply.error], hmade⟩

theorem tells_upload (hacc : upload.Accepts r.category r.rel) :
    Tells upload (upload.path r) t (exec (upload.program sha256 P masterKey ivs r) t) := by
  have htarget := targetPath_path hacc rfl hacc.2
  exact tells_of_uploads (fun _ => rfl) (always_handleUpload htarget)
    (dest_handleUpload sha256 htarget)

theorem tells_resume (r : FileRequest) :
    Tells resume (resume.path r) t (exec (resume.program sha256 P masterKey ivs r) t) := by
  cases hparse : parseResume r with
  | error reply =>
    obtain ⟨message, rfl⟩ := parseResume_error hparse
    rw [program_of_resume_error hparse]
    exact tells_refused _ _ _
  | ok named =>
    obtain ⟨dest, offset, total⟩ := named
    obtain ⟨rfl, -⟩ := path_of_parseResume hparse
    exact tells_of_uploads (fun _ => rfl) (always_handleUploadResume hparse)
      (dest_resume hparse)

theorem tells_configPut (hacc : configPut.Accepts r.category r.rel) :
    Tells configPut (configPut.path r) t
      (exec (configPut.program sha256 P masterKey ivs r) t) := by
  have hpath : resolvePath "config" r.rel = some (configPut.path r) :=
    resolvePath_of_mem r.rel hacc.1
  refine tells_of_uploads (fun _ => rfl) (always_handleConfigPut hacc.2 hpath) ?_
  rw [program_configPut hacc]
  cases readBody r.body maxBody with
  | none => exact .inr ⟨by simp [Reply.error, success], rfl⟩
  | some raw =>
    simp only [exec_bind, exec_readFile]
    cases encryptConfigJSON P masterKey ivs raw ((t.content (configPut.path r)).getD []) with
    | none => exact .inr ⟨by simp [Reply.error, success], rfl⟩
    | some out =>
      -- the config is published as an upload is
      have hupload : targetPath ⟨"config", r.rel, [], [], .ofBytes out⟩ =
          .ok (configPut.path r) := targetPath_eq hacc.1 hacc.2
      have hprogram : handleUpload sha256 ⟨"config", r.rel, [], [], .ofBytes out⟩ =
          putStream sha256 (configPut.path r) (.ofBytes out) :=
        @program_upload _ ⟨"config", r.rel, [], [], .ofBytes out⟩ P masterKey ivs
          ⟨hacc.1, hacc.2⟩
      have hdest := dest_handleUpload (t := t) sha256 hupload
      rwa [hprogram] at hdest

theorem tells_delete (hacc : delete.Accepts r.category r.rel) :
    Tells delete (delete.path r) t (exec (delete.program sha256 P masterKey ivs r) t) := by
  obtain ⟨hcat, hrel⟩ := hacc
  have hpath : resolvePath r.category r.rel = some (delete.path r) := resolvePath_of_mem r.rel hcat
  change Tells delete (delete.path r) t (exec (handleDelete r.category r.rel) t)
  intro q hq
  by_cases hnode : t.node (delete.path r) = none
  · -- nothing lies below what is missing
    have hbelow (hpq : delete.path r <+: q) : t.isFile q = false := by
      by_contra hfile
      obtain ⟨b, hb⟩ := isFile_iff.mp (Bool.eq_true_of_not_eq_false hfile)
      by_cases heq : delete.path r = q
      · rw [heq, hb] at hnode
        cases hnode
      · rw [folder_above (by simp [hb]) hpq heq] at hnode
        cases hnode
    -- only a staging file goes, and its name is reserved
    have hsame : (exec (handleDelete r.category r.rel) t).2.isFile q = t.isFile q := by
      rcases exec_handleDelete_missing hpath hnode q with hsame | ⟨hpart, -⟩
      · exact isFile_eq (.inl hsame)
      · exact absurd hpart (ne_of_reserved hq reserved_part)
    rw [hsame]
    split_ifs
    · simp only [record]
      constructor
      · exact fun hfile => ⟨fun hpq => by simp [hbelow hpq] at hfile, hfile⟩
      · exact And.right
    · rfl
  -- what is deleted goes with all below it
  · obtain ⟨hreply, hdeleted⟩ := exec_handleDelete hrel hpath ne_nil_of_path hnode
    have hstatus : (Reply.send 204).status = delete.success := rfl
    rw [hreply, if_pos hstatus]
    simp only [record]
    by_cases hpq : delete.path r <+: q
    · simp [hpq, isFile, hdeleted.gone q hpq]
    · simp only [hpq, not_false_eq_true, true_and]
      have hother : ¬ Companion (delete.path r) q :=
        not_companion hq fun h => hpq (h ▸ List.prefix_rfl)
      rw [isFile_eq (.inl (hdeleted.other q hpq hother))]

theorem tells_mkdir (r : FileRequest) :
    Tells mkdir (mkdir.path r) t (exec (mkdir.program sha256 P masterKey ivs r) t) := by
  intro q hq
  have hsame := isFile_eq (exec_handleMkdir r.category r.rel t q)
  change (exec (handleMkdir r.category r.rel) t).2.isFile q = true ↔ _
  rw [hsame]
  split_ifs <;> rfl

theorem tells_program (w : Writer) (r : FileRequest) :
    Tells w (w.path r) t (exec (w.program sha256 P masterKey ivs r) t) := by
  by_cases hacc : w.Accepts r.category r.rel
  · cases w with
    | upload => exact tells_upload hacc
    | resume => exact tells_resume r
    | configPut => exact tells_configPut hacc
    | delete => exact tells_delete hacc
    | mkdir => exact tells_mkdir r
  · obtain ⟨message, hrefused⟩ := program_refused hacc sha256 P masterKey ivs
    rw [hrefused]
    exact tells_refused _ _ _

/-! ## Runs -/

namespace Present

/-- The files that have no reserved name are those that the answers tell of. -/
def Matches (s : Present) : Prop :=
  ∀ q, reserved q.base = false → (s.tree.isFile q = true ↔ s.holds q)

theorem matches_init : init.Matches := fun q _ => by simp [init, tree, isFile_empty]

/-- A status that tells of no success is recorded as nothing. -/
theorem recordFiles_refused (r : HttpRequest) (holds : Path → Prop) :
    recordFiles r 401 holds = holds := by
  unfold recordFiles
  split
  · next w _ _ _ => exact if_neg (by cases w <;> simp [success])
  · rfl

theorem recordFiles_of_writer {r : HttpRequest} {param : String} {status : ℕ}
    {holds : Path → Prop} (h : writerOf (route r.method r.path) = some (w, param, rel)) :
    recordFiles r status holds = if status = w.success then
      w.record (w.categoryOf param :: Path.join [] rel) holds else holds := by
  rw [recordFiles, h]

theorem record_congr {holds holds' : Path → Prop} (h : holds q ↔ holds' q) :
    w.record p holds q ↔ w.record p holds' q := by
  cases w with
  | upload | resume | configPut => exact or_congr_right h
  | delete => exact and_congr_right fun _ => h
  | mkdir => exact h

/-- One request. -/
theorem matches_step (app : App) {s : Present} (h : s.Matches) (r : HttpRequest) :
    (s.step app r).Matches := by
  -- a request without the token is answered before it is routed
  cases hrefused : refused app r with
  | true =>
    rw [step, handle_of_refused hrefused]
    dsimp only
    rw [recordFiles_refused]
    exact h
  | false =>
    rw [step, handle_eq hrefused]
    intro q hq
    change (exec (app.program r) s.tree).2.isFile q = true ↔
      recordFiles r (exec (app.program r) s.tree).1.status s.holds q
    -- of the handlers only the writers change a file
    cases hwriter : writerOf (route r.method r.path) with
    | none =>
      rw [exec_of_reads (reads_program hwriter), recordFiles, hwriter]
      exact h q hq
    | some found =>
      obtain ⟨w, param, rel⟩ := found
      set out := exec (w.program app.sha256 app.primitives app.masterKey r.ivs
        ⟨param, rel, r.uploadLength, r.uploadOffset, r.body⟩) s.tree with hout
      have htells : Tells w (w.categoryOf param :: Path.join [] rel) s.tree out :=
        tells_program w _
      have hrun : exec (app.program r) s.tree = (.ofReply out.1, out.2) := by
        rw [program_of_writer hwriter, exec_bind, exec_pure]
      rw [hrun]
      change out.2.isFile q = true ↔ recordFiles r out.1.status s.holds q
      rw [recordFiles_of_writer hwriter, htells q hq]
      -- the answer decides for the tree and for the record alike
      by_cases hstatus : out.1.status = w.success
      · rw [if_pos hstatus, if_pos hstatus]
        exact record_congr (h q hq)
      · rw [if_neg hstatus, if_neg hstatus]
        exact h q hq

/-- **The files that are there.** After any requests to the admin the tree has a file under a name
that is not reserved exactly if the answers tell of one. -/
theorem matches_run (app : App) (rs : List HttpRequest) : (run (step app) rs init).Matches :=
  invariant rs (fun _ r h => matches_step app h r) matches_init

end Present

end WinDep.Fs
