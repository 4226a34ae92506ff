/-
# What the handlers do to the file tree

Without faults an upload, a folder creation or a delete has one outcome on a
file tree. Each is described by the entries it leaves, so that nothing after this
runs a handler again.
-/

import WinDep.Files.Handlers
import WinDep.Files.Tree
import Mathlib.Logic.Function.Basic

namespace WinDep.Fs

open Admin FileTree Program Function

/-- Run a program on a file tree. -/
def exec {α : Type} (m : Fs α) (t : FileTree) : α × FileTree := m.run serve t

variable {α β : Type} {t t' : FileTree} {p q dest : Path} {b c : Bytes} {src : Stream}
  {sha256 : Bytes → Digest} {r : FileRequest} {category rel : String}

@[simp] theorem exec_pure (a : α) : exec (pure a : Fs α) t = (a, t) := rfl

@[simp] theorem exec_bind (m : Fs α) (f : α → Fs β) :
    exec (m >>= f) t = exec (f (exec m t).1) (exec m t).2 := run_bind

@[simp] theorem exec_stat : exec (stat p) t = (t.statResult p, t) := rfl

@[simp] theorem exec_readFile : exec (readFile p) t = (t.content p, t) := rfl

@[simp] theorem exec_readDir : exec (readDir p) t = (t.readDirResult p, t) := rfl

@[simp] theorem exec_mkdirAll : exec (mkdirAll p) t = serve (.mkdirAll p) t := rfl

@[simp] theorem exec_openFile {truncate : Bool} : exec (openFile p truncate) t =
    t.putFile p (if truncate then [] else (t.content p).getD []) := rfl

@[simp] theorem exec_sync : exec (sync p) t = (true, t) := rfl

@[simp] theorem exec_close : exec (close p) t = (true, t) := rfl

@[simp] theorem exec_removeAll : exec (removeAll p) t = (true, t.eraseAll p) := rfl

@[simp] theorem exec_writeFile : exec (writeFile p b) t = t.putFile p b := rfl

theorem exec_write (h : t.content p = some c) : exec (write p b) t = t.putFile p (c ++ b) := by
  change serve (.write p b) t = _
  rw [serve, h]

/-! ## Single calls -/

theorem hasParent_of_node (hp : p ≠ []) (h : t.node p ≠ none) : t.HasParent p := by
  refine ⟨hp, t.closed_node (s := p.getLast hp) ?_⟩
  rwa [List.dropLast_append_getLast hp]

theorem ne_nil_of_file (h : t.node p = some (.file b)) : p ≠ [] := by
  rintro rfl
  simp at h

theorem putFile_of_hasParent (hp : t.HasParent p) (hn : t.node p ≠ some .folder) :
    (t.putFile p b).1 = true ∧ (t.putFile p b).2.node = update t.node p (some (.file b)) := by
  have hput : (t.putFile p b).1 = true := FileTree.putFile_fst.mpr ⟨hp, hn⟩
  refine ⟨hput, ?_⟩
  funext q
  rw [node_putFile, hput, update_apply]
  simp

theorem putFile_of_folder (hn : t.node p = some .folder) : t.putFile p b = (false, t) := by
  unfold FileTree.putFile
  rw [dif_neg]
  exact fun h => h.2 hn

/-- A file is put in place of a file. -/
theorem putFile_of_file (h : t.node p = some (.file c)) :
    (t.putFile p b).1 = true ∧ (t.putFile p b).2.node = update t.node p (some (.file b)) :=
  putFile_of_hasParent (hasParent_of_node (ne_nil_of_file h) (by simp [h])) (by simp [h])

theorem node_eraseAll_of_file (h : t.node p = some (.file b)) :
    (t.eraseAll p).node = update t.node p none := by
  funext q
  by_cases hq : q = []
  · have hpq : q ≠ p := by
      intro hqp
      exact ne_nil_of_file h (hqp ▸ hq)
    rw [update_of_ne hpq, hq, node_nil, node_nil]
  rw [node_eraseAll hq]
  by_cases hqp : q = p
  · simp [hqp]
  rw [update_of_ne hqp]
  split_ifs with hbelow
  · exact (below_file h hbelow (Ne.symm hqp)).symm
  · rfl

/-- An entry that is to be removed stays or goes. -/
theorem node_remove_self (p : Path) (t : FileTree) :
    (exec (remove p) t).2.node p = t.node p ∨ (exec (remove p) t).2.node p = none := by
  change (serve (.remove p) t).2.node p = _ ∨ (serve (.remove p) t).2.node p = _
  simp only [serve]
  split
  · exact Or.inl rfl
  · next b hb => exact Or.inr (by rw [node_eraseAll_of_file hb, update_self])
  · split_ifs
    · by_cases hp : p = []
      · exact Or.inl (by rw [hp, node_nil, node_nil])
      · exact Or.inr (by rw [node_eraseAll hp, if_pos List.prefix_rfl])
    · exact Or.inl rfl

theorem node_remove_of_ne (h : q ≠ p) : (exec (remove p) t).2.node q = t.node q :=
  node_serve (c := .remove p) h

theorem exec_remove_of_file (h : t.node p = some (.file b)) :
    exec (remove p) t = (true, t.eraseAll p) := by
  change serve (.remove p) t = _
  rw [serve, h]

/-! ## Writing a stream -/

theorem exec_writeData (h : t.node p = some (.file c)) (pending : ℕ) :
    (exec (writeData p b pending) t).1.isSome = true ∧
      (exec (writeData p b pending) t).2.node = update t.node p (some (.file (c ++ b))) := by
  have hcontent : t.content p = some c := content_eq_some.mpr h
  obtain ⟨hput, hnode⟩ := putFile_of_file h (b := c ++ b)
  unfold writeData
  split_ifs with hb
  · simp [hb, ← h]
  · unfold writeChunk
    simp only [exec_bind, exec_write hcontent, hput, if_true]
    split_ifs
    · exact ⟨rfl, hnode⟩
    · simp [hnode]

/-- The copy appends the bytes of the stream and succeeds if the stream ends. -/
theorem exec_copyChunks (src : Stream) (h : t.node p = some (.file c)) (pending total : ℕ) :
    (exec (copyChunks p src pending total) t).1.2 = decide src.Ends ∧
      (exec (copyChunks p src pending total) t).2.node =
        update t.node p (some (.file (c ++ src.bytes))) := by
  induction src generalizing t c pending total with
  | nil =>
    simp [copyChunks, ← h]
  | cons r rs ih =>
    obtain ⟨hsome, hnode⟩ := exec_writeData h pending (b := r.data)
    obtain ⟨pending', hpending⟩ := Option.isSome_iff_exists.mp hsome
    rw [copyChunks]
    simp only [exec_bind, hpending]
    cases hend : r.ending with
    | eof => simp [hnode, Stream.bytes, Stream.Ends, hend]
    | failed => simp [hnode, Stream.bytes, Stream.Ends, hend]
    | more =>
      have hfile : (exec (writeData p r.data pending) t).2.node p = some (.file (c ++ r.data)) := by
        rw [hnode, update_self]
      obtain ⟨hok, hrest⟩ := ih hfile pending' (total + r.data.length)
      refine ⟨?_, ?_⟩
      · simp [hok, Stream.Ends, hend]
      · rw [hrest, hnode, update_idem, List.append_assoc]
        simp [Stream.bytes, hend]

/-! ## Publishing a stream -/

theorem withExt_dropLast (p : Path) (ext : String) : (p.withExt ext).dropLast = p.dropLast := by
  simp [Path.withExt]

theorem hasParent_withExt {ext : String} (h : t.HasParent p) : t.HasParent (p.withExt ext) :=
  ⟨by simp [Path.withExt], by rw [withExt_dropLast]; exact h.2⟩

theorem part_ne : p.withExt partExt ≠ p := Path.withExt_ne (by decide)

theorem sidecar_ne : p.withExt sidecarExt ≠ p := Path.withExt_ne (by decide)

theorem exec_rename (h : t.node p = some (.file b)) (hne : p ≠ q) (hq : t.HasParent q)
    (hn : t.node q ≠ some .folder) : (exec (rename p q) t).1 = true ∧
      (exec (rename p q) t).2.node = update (update t.node q (some (.file b))) p none := by
  obtain ⟨hput, hnode⟩ := putFile_of_hasParent (b := b) hq hn
  have hfile : (t.putFile q b).2.node p = some (.file b) := by
    rw [hnode, update_of_ne hne, h]
  have hserve : exec (rename p q) t = (true, (t.putFile q b).2.eraseAll p) := by
    change serve (.rename p q) t = _
    rw [serve, content_eq_some.mpr h]
    simp [hne, hput]
  rw [hserve, node_eraseAll_of_file hfile, hnode]
  exact ⟨rfl, rfl⟩

theorem exec_rename_of_folder (h : t.node p = some (.file b)) (hne : p ≠ q)
    (hn : t.node q = some .folder) : exec (rename p q) t = (false, t) := by
  change serve (.rename p q) t = _
  rw [serve, content_eq_some.mpr h]
  simp [hne, putFile_of_folder hn]

/-- A file is renamed into place, or nothing is changed. -/
theorem exec_rename_cases (hne : p ≠ q) :
    (exec (rename p q) t).1 = false ∧ (exec (rename p q) t).2 = t ∨
      (exec (rename p q) t).1 = true ∧ ∃ b, (exec (rename p q) t).2.node q = some (.file b) := by
  cases hcontent : t.content p with
  | none =>
    have hserve : exec (rename p q) t = (false, t) := by
      change serve (.rename p q) t = _
      rw [serve, hcontent]
    exact .inl (by simp [hserve])
  | some b =>
    have hfile := content_eq_some.mp hcontent
    by_cases hput : (t.putFile q b).1 = true
    · obtain ⟨hparent, hfolder⟩ := putFile_fst.mp hput
      obtain ⟨hrenamed, hnode⟩ := exec_rename hfile hne hparent hfolder
      exact .inr ⟨hrenamed, b, by rw [hnode, update_of_ne hne.symm, update_self]⟩
    · have hserve : exec (rename p q) t = (false, t) := by
        change serve (.rename p q) t = _
        rw [serve, hcontent]
        simp [hne, hput]
      exact .inl (by simp [hserve])

theorem exec_saveStream_of_folder (h : t.node (dest.withExt partExt) = some .folder) :
    exec (saveStream sha256 dest src) t = (none, t) := by
  simp [saveStream, putFile_of_folder h]

/-- The staging file holds the stream when the copy is over. -/
theorem exec_stage (src : Stream) (hparent : t.HasParent p) (hn : t.node p ≠ some .folder) :
    ∃ t' : FileTree, ∃ total, (t.putFile p []).1 = true ∧
      exec (copyCountedSynced p src) (t.putFile p []).2 = ((total, decide src.Ends), t') ∧
        t'.node = update t.node p (some (.file src.bytes)) := by
  obtain ⟨hput, hnode⟩ := putFile_of_hasParent (b := []) hparent hn
  have hempty : (t.putFile p []).2.node p = some (.file []) := by rw [hnode, update_self]
  obtain ⟨hok, hcopied⟩ := exec_copyChunks src hempty 0 0
  refine ⟨_, _, hput, Prod.ext (Prod.ext rfl hok) rfl, ?_⟩
  rw [copyCountedSynced, hcopied, hnode, update_idem, List.nil_append]

/-- What is staged can be renamed into place. -/
theorem exec_stage_rename (src : Stream) (hparent : t.HasParent dest)
    (hpart : t.node (dest.withExt partExt) ≠ some .folder) (hdest : t.node dest ≠ some .folder) :
    ∃ t' : FileTree, ∃ total, (t.putFile (dest.withExt partExt) []).1 = true ∧
      exec (copyCountedSynced (dest.withExt partExt) src)
        (t.putFile (dest.withExt partExt) []).2 = ((total, decide src.Ends), t') ∧
      (exec (rename (dest.withExt partExt) dest) t').1 = true ∧
      (exec (rename (dest.withExt partExt) dest) t').2.node =
        update (update t.node dest (some (.file src.bytes))) (dest.withExt partExt) none := by
  obtain ⟨t', total, hopen, hcopy, hnode⟩ := exec_stage src (hasParent_withExt hparent) hpart
  have hstaged : t'.node (dest.withExt partExt) = some (.file src.bytes) := by
    rw [hnode, update_self]
  have hdest' : t'.node dest ≠ some .folder := by rwa [hnode, update_of_ne part_ne.symm]
  have hparent' : t'.HasParent dest := by
    have hne : dest.dropLast ≠ dest.withExt partExt := by simp [Path.withExt]
    exact ⟨hparent.1, by rw [hnode, update_of_ne hne, hparent.2]⟩
  obtain ⟨hrename, hrenamed⟩ := exec_rename hstaged part_ne hparent' hdest'
  refine ⟨t', total, hopen, hcopy, hrename, ?_⟩
  rw [hrenamed, hnode, update_comm part_ne, update_idem]

theorem exec_saveStream (sha256 : Bytes → Digest) (hparent : t.HasParent dest)
    (hpart : t.node (dest.withExt partExt) ≠ some .folder) (hdest : t.node dest ≠ some .folder)
    (hends : src.Ends) : (exec (saveStream sha256 dest src) t).1 = some (sha256 src.bytes) ∧
      (exec (saveStream sha256 dest src) t).2.node =
        update (update t.node dest (some (.file src.bytes))) (dest.withExt partExt) none := by
  obtain ⟨t', total, hopen, hcopy, hrename, hrenamed⟩ := exec_stage_rename src hparent hpart hdest
  have hrun : exec (saveStream sha256 dest src) t =
      (some (sha256 src.bytes), (exec (rename (dest.withExt partExt) dest) t').2) := by
    simp [saveStream, renameIf, hopen, hcopy, hends, hrename]
  rw [hrun]
  exact ⟨rfl, hrenamed⟩

/-- A stream that breaks off, or that is to replace a folder, leaves nothing behind. -/
theorem exec_saveStream_fails (sha256 : Bytes → Digest) (hparent : t.HasParent dest)
    (hpart : t.node (dest.withExt partExt) ≠ some .folder)
    (h : ¬ (t.node dest ≠ some .folder ∧ src.Ends)) :
    (exec (saveStream sha256 dest src) t).1 = none ∧
      (exec (saveStream sha256 dest src) t).2.node =
        update t.node (dest.withExt partExt) none := by
  obtain ⟨t', total, hopen, hcopy, hnode⟩ := exec_stage src (hasParent_withExt hparent) hpart
  have hstaged : t'.node (dest.withExt partExt) = some (.file src.bytes) := by
    rw [hnode, update_self]
  have hnot : exec (renameIf src.Ends (dest.withExt partExt) dest) t' = (false, t') := by
    by_cases hends : src.Ends
    · have hfolder : t'.node dest = some .folder := by
        rw [hnode, update_of_ne part_ne.symm]
        by_contra hdest
        exact h ⟨hdest, hends⟩
      simp [renameIf, hends, exec_rename_of_folder hstaged part_ne hfolder]
    · simp [renameIf, hends]
  have hrun : exec (saveStream sha256 dest src) t =
      (none, t'.eraseAll (dest.withExt partExt)) := by
    simp [saveStream, hopen, hcopy, hnot, exec_remove_of_file hstaged]
  rw [hrun, node_eraseAll_of_file hstaged, hnode, update_idem]
  exact ⟨rfl, rfl⟩

/-! ## Handlers -/

/-- An upload of the stream can succeed: no file is in the way, and no folder has the name of the
entry or of its staging file. -/
def Puttable (t : FileTree) (dest : Path) (src : Stream) : Prop :=
  (∀ q, q <+: dest.dropLast → t.isFile q = false) ∧
    t.node (dest.withExt partExt) ≠ some .folder ∧ t.node dest ≠ some .folder ∧ src.Ends

theorem node_empty (hp : p ≠ []) : FileTree.empty.node p = none := by
  rw [FileTree.node, nodeOf, if_neg hp]
  rfl

theorem isFile_empty (p : Path) : FileTree.empty.isFile p = false := by
  by_cases hp : p = []
  · simp [hp, isFile]
  · rw [isFile, node_empty hp]

/-- Nothing is in the way in the empty tree. -/
theorem puttable_empty (hne : dest ≠ []) (hends : src.Ends) :
    Puttable FileTree.empty dest src := by
  refine ⟨fun q _ => isFile_empty q, ?_, ?_, hends⟩
  · rw [node_empty (by simp [Path.withExt])]
    simp
  · rw [node_empty hne]
    simp

/-- What an upload that succeeds leaves. -/
structure Uploaded (t : FileTree) (dest : Path) (b : Bytes) (sum : Digest) (t' : FileTree) :
    Prop where
  file : t'.node dest = some (.file b)
  sidecar : t.node (dest.withExt sidecarExt) ≠ some .folder →
    t'.node (dest.withExt sidecarExt) = some (.file (sidecarLine dest.base sum))
  part : t'.node (dest.withExt partExt) = none
  other : ∀ q, ¬ Companion dest q →
    t'.node q = if q <+: dest.dropLast then some .folder else t.node q

/-- What an upload that fails, or a folder creation, leaves: at most a staging file goes, and
folders are made where nothing was. -/
def Kept (t : FileTree) (dest : Path) (t' : FileTree) : Prop :=
  ∀ q, t'.node q = t.node q ∨ q = dest.withExt partExt ∧ t'.node q = none ∨
    t.node q = none ∧ t'.node q = some .folder

/-- What a delete leaves. -/
structure Deleted (t : FileTree) (dest : Path) (t' : FileTree) : Prop where
  gone : ∀ q, dest <+: q → t'.node q = none
  sidecar : ∀ b, t'.node (dest.withExt sidecarExt) ≠ some (.file b)
  other : ∀ q, ¬ dest <+: q → ¬ Companion dest q → t'.node q = t.node q
  fewer : ∀ q, t'.node q = t.node q ∨ t'.node q = none

theorem not_prefix_dropLast (h : p.dropLast = q.dropLast) (hp : p ≠ []) : ¬ p <+: q.dropLast := by
  rw [← h]
  intro hpre
  have hlen := hpre.length_le
  rw [List.length_dropLast] at hlen
  have hpos := List.length_pos_of_ne_nil hp
  omega

theorem not_prefix_dropLast_self (hp : p ≠ []) : ¬ p <+: p.dropLast := not_prefix_dropLast rfl hp

theorem not_prefix_dropLast_withExt {ext : String} : ¬ p.withExt ext <+: p.dropLast :=
  not_prefix_dropLast (withExt_dropLast p ext) (by simp [Path.withExt])

theorem ne_dropLast (hp : p ≠ []) : p.dropLast ≠ p := fun h =>
  not_prefix_dropLast_self hp (h.symm ▸ List.prefix_rfl)

theorem dropLast_ne_withExt {ext : String} : p.dropLast ≠ p.withExt ext := by
  simp [Path.withExt]

theorem part_ne_sidecar : p.withExt partExt ≠ p.withExt sidecarExt :=
  p.withExt_injective.ne (by decide)

/-- The folders above an entry are made, or a file is in the way. -/
theorem exec_mkdirAll_cases (p : Path) (t : FileTree) :
    (∃ q, q <+: p ∧ t.isFile q = true) ∧ exec (mkdirAll p) t = (false, t) ∨
      ∃ t' : FileTree, exec (mkdirAll p) t = (true, t') ∧ (∀ q, q <+: p → t.isFile q = false) ∧
        ∀ q, t'.node q = if q <+: p then some .folder else t.node q := by
  rw [exec_mkdirAll, serve]
  rcases makeFolders_cases (t := t) (p := p) with ⟨hfile, hnone⟩ | ⟨t', hsome, hfree, hnode⟩
  · exact Or.inl ⟨hfile, by rw [hnone]⟩
  · exact Or.inr ⟨t', by rw [hsome], hfree, hnode⟩

theorem folders_kept (hfree : ∀ q, q <+: p → t.isFile q = false)
    (hnode : ∀ q, t'.node q = if q <+: p then some .folder else t.node q) (q : Path) :
    t'.node q = t.node q ∨ t.node q = none ∧ t'.node q = some .folder := by
  rw [hnode]
  split_ifs with hq
  · rcases isFile_eq_false (hfree q hq) with hnone | hfolder
    · exact Or.inr ⟨hnone, rfl⟩
    · exact Or.inl hfolder.symm
  · exact Or.inl rfl

/-- The folders above a path are there once they are made, and the path and its companions are as
they were. -/
theorem folders_made (hne : p ≠ [])
    (hnode : ∀ q, t'.node q = if q <+: p.dropLast then some .folder else t.node q) :
    t'.HasParent p ∧ t'.node p = t.node p ∧
      ∀ ext, t'.node (p.withExt ext) = t.node (p.withExt ext) := by
  refine ⟨⟨hne, ?_⟩, ?_, fun ext => ?_⟩
  · rw [hnode, if_pos List.prefix_rfl]
  · rw [hnode, if_neg (not_prefix_dropLast_self hne)]
  · rw [hnode, if_neg not_prefix_dropLast_withExt]

theorem exec_handleUpload (sha256 : Bytes → Digest) (htarget : targetPath r = .ok dest)
    (hne : dest ≠ []) (h : Puttable t dest r.body) :
    (exec (handleUpload sha256 r) t).1 = .send 201 ∧
      Uploaded t dest r.body.bytes (sha256 r.body.bytes) (exec (handleUpload sha256 r) t).2 := by
  obtain ⟨hfree, hpart, hdest, hends⟩ := h
  rcases exec_mkdirAll_cases dest.dropLast t with ⟨⟨q, hq, hfile⟩, -⟩ | ⟨t₁, hmade, -, hnode⟩
  · rw [hfree q hq] at hfile
    cases hfile
  obtain ⟨hparent, hdest₁, hext₁⟩ := folders_made hne hnode
  rw [← hext₁] at hpart
  rw [← hdest₁] at hdest
  obtain ⟨hsum, hsaved⟩ := exec_saveStream sha256 hparent hpart hdest hends
  set t₂ := (exec (saveStream sha256 dest r.body) t₁).2 with ht₂
  have hrun : exec (handleUpload sha256 r) t =
      (.send 201, (t₂.putFile (dest.withExt sidecarExt)
        (sidecarLine dest.base (sha256 r.body.bytes))).2) := by
    simp [handleUpload, htarget, hmade, hsum, writeSidecar, ht₂]
  have hsidecar₂ : t₂.node (dest.withExt sidecarExt) = t.node (dest.withExt sidecarExt) := by
    rw [hsaved, update_of_ne part_ne_sidecar.symm, update_of_ne sidecar_ne, hext₁]
  have hparent₂ : t₂.HasParent dest := by
    refine ⟨hne, ?_⟩
    rw [hsaved, update_of_ne dropLast_ne_withExt, update_of_ne (ne_dropLast hne), hparent.2]
  rw [hrun]
  refine ⟨rfl, ?_⟩
  -- a folder in the place of the sidecar is not replaced, and the upload succeeds all the same
  by_cases hfolder : t₂.node (dest.withExt sidecarExt) = some .folder
  · rw [putFile_of_folder hfolder]
    exact
      { file := by rw [hsaved, update_of_ne part_ne.symm, update_self]
        sidecar := fun h => absurd (hsidecar₂ ▸ hfolder) h
        part := by rw [hsaved, update_self]
        other := fun q hq => by
          obtain ⟨hfile, hpart, -⟩ := not_or.mp hq |>.imp_right not_or.mp
          rw [hsaved, update_of_ne hpart, update_of_ne hfile, hnode] }
  · obtain ⟨-, hput⟩ := putFile_of_hasParent (b := sidecarLine dest.base (sha256 r.body.bytes))
      (hasParent_withExt hparent₂) hfolder
    exact
      { file := by
          rw [hput, update_of_ne sidecar_ne.symm, hsaved, update_of_ne part_ne.symm, update_self]
        sidecar := fun _ => by rw [hput, update_self]
        part := by rw [hput, update_of_ne part_ne_sidecar, hsaved, update_self]
        other := fun q hq => by
          obtain ⟨hfile, hpart, hsidecar⟩ := not_or.mp hq |>.imp_right not_or.mp
          rw [hput, update_of_ne hsidecar, hsaved, update_of_ne hpart, update_of_ne hfile, hnode] }

/-- How an upload fails: a file stands above the path; the folders are made and a folder has the
name of the staging file; or the staging file is removed again. -/
theorem exec_handleUpload_failed (sha256 : Bytes → Digest) (htarget : targetPath r = .ok dest)
    (hne : dest ≠ []) (h : ¬ Puttable t dest r.body) :
    (exec (handleUpload sha256 r) t).1.status ≠ 201 ∧
      ((∃ q, q <+: dest.dropLast ∧ t.isFile q = true) ∧ (exec (handleUpload sha256 r) t).2 = t ∨
        ∃ t₁ : FileTree, (∀ q, q <+: dest.dropLast → t.isFile q = false) ∧
          (∀ q, t₁.node q = if q <+: dest.dropLast then some .folder else t.node q) ∧
          (t.node (dest.withExt partExt) = some .folder ∧
              (exec (handleUpload sha256 r) t).2 = t₁ ∨
            (exec (handleUpload sha256 r) t).2.node =
              update t₁.node (dest.withExt partExt) none)) := by
  rcases exec_mkdirAll_cases dest.dropLast t with ⟨hfile, hmade⟩ | ⟨t₁, hmade, hfree, hnode⟩
  · have hrun : exec (handleUpload sha256 r) t = (.error 500 "mkdir failed", t) := by
      simp [handleUpload, htarget, hmade]
    rw [hrun]
    exact ⟨by simp [Reply.error], .inl ⟨hfile, rfl⟩⟩
  obtain ⟨hparent, hdest₁, hext₁⟩ := folders_made hne hnode
  by_cases hpart : t.node (dest.withExt partExt) = some .folder
  · have hrun : exec (handleUpload sha256 r) t = (.error 500 "write failed", t₁) := by
      simp [handleUpload, htarget, hmade, exec_saveStream_of_folder ((hext₁ _).trans hpart)]
    rw [hrun]
    exact ⟨by simp [Reply.error], .inr ⟨t₁, hfree, hnode, .inl ⟨hpart, rfl⟩⟩⟩
  · have hfails : ¬ (t₁.node dest ≠ some .folder ∧ r.body.Ends) := by
      rw [hdest₁]
      exact fun hok => h ⟨hfree, hpart, hok⟩
    obtain ⟨hnone, hsaved⟩ := exec_saveStream_fails sha256 hparent (hext₁ _ ▸ hpart) hfails
    have hrun : exec (handleUpload sha256 r) t =
        (.error 500 "write failed", (exec (saveStream sha256 dest r.body) t₁).2) := by
      simp [handleUpload, htarget, hmade, hnone]
    rw [hrun]
    exact ⟨by simp [Reply.error], .inr ⟨t₁, hfree, hnode, .inr hsaved⟩⟩

theorem exec_handleUpload_fails (sha256 : Bytes → Digest) (htarget : targetPath r = .ok dest)
    (hne : dest ≠ []) (h : ¬ Puttable t dest r.body) :
    (exec (handleUpload sha256 r) t).1.status ≠ 201 ∧
      Kept t dest (exec (handleUpload sha256 r) t).2 := by
  obtain ⟨hstatus, hcases⟩ := exec_handleUpload_failed sha256 htarget hne h
  refine ⟨hstatus, fun q => ?_⟩
  rcases hcases with ⟨-, hsame⟩ | ⟨t₁, hfree, hnode, ⟨-, hmade⟩ | hremoved⟩
  · exact Or.inl (by rw [hsame])
  · rw [hmade]
    exact (folders_kept hfree hnode q).imp_right Or.inr
  · rw [hremoved]
    by_cases hq : q = dest.withExt partExt
    · exact Or.inr (Or.inl ⟨hq, by rw [hq, update_self]⟩)
    · rw [update_of_ne hq]
      exact (folders_kept hfree hnode q).imp_right Or.inr

/-- An upload that fails leaves the file and its sidecar, and no staging file. -/
theorem exec_handleUpload_failed_path (sha256 : Bytes → Digest) (htarget : targetPath r = .ok dest)
    (hne : dest ≠ []) (h : ¬ Puttable t dest r.body) :
    (exec (handleUpload sha256 r) t).2.node dest = t.node dest ∧
      (exec (handleUpload sha256 r) t).2.node (dest.withExt sidecarExt) =
        t.node (dest.withExt sidecarExt) ∧
      ∀ b, (exec (handleUpload sha256 r) t).2.node (dest.withExt partExt) ≠ some (.file b) := by
  obtain ⟨-, hcases⟩ := exec_handleUpload_failed sha256 htarget hne h
  rcases hcases with ⟨⟨q, hq, hfile⟩, hsame⟩ | ⟨t₁, -, hnode, hleft⟩
  · rw [hsame]
    refine ⟨rfl, rfl, fun b hb => ?_⟩
    -- nothing lies below a file
    have hdir : dest.dropLast <+: dest.withExt partExt :=
      withExt_dropLast dest partExt ▸ List.dropLast_prefix _
    have hne : q ≠ dest.withExt partExt := by
      rintro rfl
      exact not_prefix_dropLast_withExt hq
    have habove := t.folder_above (by rw [hb]; simp) (hq.trans hdir) hne
    simp [isFile, habove] at hfile
  · obtain ⟨-, hdest₁, hext₁⟩ := folders_made hne hnode
    rcases hleft with ⟨hpart, hmade⟩ | hremoved
    · rw [hmade, hext₁, hext₁, hpart]
      exact ⟨hdest₁, rfl, by simp⟩
    · rw [hremoved, update_of_ne part_ne.symm, update_of_ne part_ne_sidecar.symm, update_self]
      exact ⟨hdest₁, hext₁ _, by simp⟩

theorem exec_handleUpload_error {reply : Reply} (htarget : targetPath r = .error reply) :
    exec (handleUpload sha256 r) t = (reply, t) := by
  simp [handleUpload, htarget]

theorem exec_handleMkdir (category rel : String) (t : FileTree) (q : Path) :
    (exec (handleMkdir category rel) t).2.node q = t.node q ∨
      t.node q = none ∧ (exec (handleMkdir category rel) t).2.node q = some .folder := by
  unfold handleMkdir
  split_ifs
  · exact Or.inl rfl
  split
  · exact Or.inl rfl
  next dest hdest =>
  rcases exec_mkdirAll_cases dest t with ⟨-, hmade⟩ | ⟨t', hmade, hfree, hnode⟩
  · simp [hmade]
  · simpa [hmade] using folders_kept hfree hnode q

/-! ## Deleting -/

theorem node_remove (p : Path) (t : FileTree) (q : Path) :
    (exec (remove p) t).2.node q = t.node q ∨ q = p ∧ (exec (remove p) t).2.node q = none := by
  by_cases hqp : q = p
  · rw [hqp]
    exact (node_remove_self p t).imp_right fun h => ⟨rfl, h⟩
  · exact Or.inl (node_remove_of_ne hqp)

theorem not_file_remove (p : Path) (t : FileTree) (b : Bytes) :
    (exec (remove p) t).2.node p ≠ some (.file b) := by
  intro hfile
  rcases node_remove_self p t with hsame | hnone
  · have hbefore : t.node p = some (.file b) := hsame ▸ hfile
    rw [exec_remove_of_file hbefore, node_eraseAll_of_file hbefore, update_self] at hfile
    cases hfile
  · rw [hnone] at hfile
    cases hfile

theorem exec_handleDelete (hrel : onlySlashes rel = false)
    (hdest : resolvePath category rel = some dest) (hne : dest ≠ []) (h : t.node dest ≠ none) :
    (exec (handleDelete category rel) t).1 = .send 204 ∧
      Deleted t dest (exec (handleDelete category rel) t).2 := by
  set t₁ := t.eraseAll dest with ht₁
  set t₂ := (exec (remove (dest.withExt sidecarExt)) t₁).2 with ht₂
  set t₃ := (exec (remove (dest.withExt partExt)) t₂).2 with ht₃
  have hrun : exec (handleDelete category rel) t = (.send 204, t₃) := by
    have hfound : (∃ n, t.statResult dest = .file n) ∨ t.statResult dest = .folder 0 := by
      unfold statResult
      cases hnode : t.node dest with
      | none => exact absurd hnode h
      | some n => cases n <;> simp
    rcases hfound with ⟨n, hstat⟩ | hstat
    all_goals simp [handleDelete, hrel, hdest, hstat, ht₁, ht₂, ht₃]
  have herased (q : Path) (hq : ¬ dest <+: q) : t₁.node q = t.node q := by
    by_cases hnil : q = []
    · rw [hnil, node_nil, node_nil]
    · rw [ht₁, node_eraseAll hnil, if_neg hq]
  have hswept (q : Path) : t₃.node q = t₁.node q ∨ t₃.node q = none := by
    rcases node_remove (dest.withExt partExt) t₂ q with hpart | ⟨-, hpart⟩
    · rw [ht₃, hpart]
      exact (node_remove (dest.withExt sidecarExt) t₁ q).imp_right And.right
    · exact Or.inr hpart
  have hgone (q : Path) (hq : dest <+: q) : t₃.node q = none := by
    have hnil : q ≠ [] := by
      rintro rfl
      exact hne (List.prefix_nil.mp hq)
    have hbelow : t₁.node q = none := by rw [ht₁, node_eraseAll hnil, if_pos hq]
    exact (hswept q).elim (fun hsame => hsame.trans hbelow) id
  rw [hrun]
  refine ⟨rfl, ?_⟩
  exact
    { gone := hgone
      sidecar := fun b => by
        rw [ht₃, node_remove_of_ne part_ne_sidecar.symm]
        exact not_file_remove _ t₁ b
      other := fun q hq hcomp => by
        obtain ⟨-, hpart, hsidecar⟩ := not_or.mp hcomp |>.imp_right not_or.mp
        rw [ht₃, node_remove_of_ne hpart, ht₂, node_remove_of_ne hsidecar, herased q hq]
      fewer := fun q => by
        by_cases hq : dest <+: q
        · exact Or.inr (hgone q hq)
        · exact herased q hq ▸ hswept q }

/-- Where nothing is, at most a staging file is discarded. -/
theorem exec_handleDelete_missing (hdest : resolvePath category rel = some dest)
    (h : t.node dest = none) (q : Path) : (exec (handleDelete category rel) t).2.node q = t.node q ∨
      q = dest.withExt partExt ∧ (exec (handleDelete category rel) t).2.node q = none := by
  unfold handleDelete
  split_ifs
  · exact Or.inl rfl
  have hmissing : t.statResult dest = .missing ∨ t.statResult dest = .failed := by
    rw [statResult, h]
    dsimp only
    split_ifs <;> simp
  rcases hmissing with hstat | hstat
  · have hpart := node_remove (dest.withExt partExt) t q
    simp only [hdest, exec_bind, exec_stat, hstat]
    cases t.statResult (dest.withExt partExt) with
    | missing | failed => exact Or.inl rfl
    | file | folder => simpa using hpart
  · simp [hdest, hstat]

/-! ## Reserved names -/

theorem base_withExt {ext : String} : (p.withExt ext).base = p.base ++ ext := by
  simp [Path.withExt, Path.base]

theorem reserved_sidecar : reserved (p.withExt sidecarExt).base = true := by
  simp [base_withExt, reserved]

theorem reserved_part : reserved (p.withExt partExt).base = true := by
  simp [base_withExt, reserved]

theorem ne_of_reserved (hp : reserved p.base = false) (hq : reserved q.base = true) : p ≠ q := by
  rintro rfl
  rw [hp] at hq
  cases hq

theorem dropLast_append_base (hp : p ≠ []) : p.dropLast ++ [p.base] = p := by
  obtain ⟨dir, name, rfl⟩ := (List.eq_nil_or_concat' p).resolve_left hp
  simp [Path.base]

/-- A sidecar belongs to one path only. -/
theorem withExt_inj {ext : String} (hp : p ≠ []) (hq : q ≠ [])
    (h : p.withExt ext = q.withExt ext) : p = q := by
  have hdrop : p.dropLast = q.dropLast := by
    rw [← withExt_dropLast p ext, h, withExt_dropLast]
  have hbase : p.base = q.base := by
    have hlist := congrArg (fun p => (Path.base p).toList) h
    simp only [base_withExt, String.toList_append, List.append_cancel_right_eq] at hlist
    exact String.toList_inj.mp hlist
  rw [← dropLast_append_base hp, ← dropLast_append_base hq, hdrop, hbase]

theorem sidecar_ne_part : p.withExt sidecarExt ≠ q.withExt partExt := by
  intro h
  have hlast := congrArg (fun p => (Path.base p).toList.getLast?) h
  simp [base_withExt, sidecarExt, partExt] at hlast

/-! ## Reading -/

theorem exec_handleDownload (hdest : resolvePath category rel = some p)
    (h : t.node p = some (.file b)) : exec (handleDownload category rel) t = (.ok b, t) := by
  have hstat : t.statResult p = .file b.length := by rw [statResult, h]
  simp [handleDownload, hdest, hstat, content_eq_some.mpr h]

theorem exec_handleVerify {sum : Digest} (hdest : resolvePath category rel = some p)
    (h : t.node p = some (.file b))
    (hsidecar : t.node (p.withExt sidecarExt) = some (.file (sidecarLine p.base sum))) :
    exec (handleVerify sha256 category rel) t =
      (.ok ⟨hexDigits (sha256 b).1 == hexDigits sum.1, hexDigits sum.1, hexDigits (sha256 b).1,
        b.length⟩, t) := by
  have hstat : t.statResult p = .file b.length := by rw [statResult, h]
  have hread : exec (readSidecar p) t = (hexDigits sum.1, t) := by
    simp [readSidecar, content_eq_some.mpr hsidecar, readSidecar_sidecarLine]
  have hne : hexDigits sum.1 ≠ [] := hexDigits_ne_nil sum
  simp [handleVerify, hdest, hstat, hread, hne, hashFile, content_eq_some.mpr h]

/-- The row an entry has in the listing of its folder. -/
def rowOf (node : Path → Option Node) (p : Path) : Option FileInfo :=
  if reserved p.base then none
  else (node p).map fun
    | .file b => ⟨p.base, b.length, false,
        WinDep.readSidecar (contentOf (node (p.withExt sidecarExt)))⟩
    | .folder => ⟨p.base, 0, true, []⟩

theorem rowOf_file {node : Path → Option Node} (hfree : reserved p.base = false)
    (h : node p = some (.file b)) : rowOf node p = some ⟨p.base, b.length, false,
      WinDep.readSidecar (contentOf (node (p.withExt sidecarExt)))⟩ := by
  rw [rowOf, hfree, h]
  rfl

/-- A row tells the name of its entry, and what the entry is. -/
theorem rowOf_eq_some {node : Path → Option Node} {info : FileInfo} (h : rowOf node p = some info) :
    info.name = p.base ∧ reserved p.base = false ∧
      (info.isDir = true ∧ node p = some .folder ∨
        info.isDir = false ∧ ∃ b, node p = some (.file b)) := by
  unfold rowOf at h
  split_ifs at h with hfree
  cases hnode : node p with
  | none => simp [hnode] at h
  | some n =>
    rw [hnode] at h
    cases n with
    | file b =>
      obtain rfl := Option.some.inj h
      exact ⟨rfl, by simpa using hfree, Or.inr ⟨rfl, b, rfl⟩⟩
    | folder =>
      obtain rfl := Option.some.inj h
      exact ⟨rfl, by simpa using hfree, Or.inl ⟨rfl, rfl⟩⟩

/-- The entry of a folder, as `os.ReadDir` describes it. -/
def entryOf (name : String) : Node → DirEntry
  | .file b => ⟨name, false, some b.length⟩
  | .folder => ⟨name, true, some 0⟩

theorem exec_entryInfo {name : String} {n : Node} (h : t.node (p ++ [name]) = some n) :
    exec (entryInfo p (entryOf name n)) t = (rowOf t.node (p ++ [name]), t) := by
  have hbase : Path.base (p ++ [name]) = name := by simp [Path.base]
  cases n with
  | file b => by_cases hname : reserved name <;>
      simp [entryInfo, entryOf, rowOf, h, hbase, hname, readSidecar, content]
  | folder => by_cases hname : reserved name <;>
      simp [entryInfo, entryOf, rowOf, h, hbase, hname]

theorem mem_children {e : DirEntry} : e ∈ t.children p ↔
    ∃ name n, t.node (p ++ [name]) = some n ∧ e = entryOf name n := by
  unfold children
  rw [List.mem_filterMap]
  constructor
  · rintro ⟨⟨q, n⟩, hmem, he⟩
    split_ifs at he with hq
    · obtain ⟨hne, hdrop⟩ := hq
      obtain ⟨dir, name, rfl⟩ := (List.eq_nil_or_concat' q).resolve_left hne
      obtain rfl : dir = p := by simpa using hdrop
      refine ⟨name, n, node_of_mem hne hmem, ?_⟩
      cases n <;> simp_all [entryOf, Path.base]
  · rintro ⟨name, n, hn, rfl⟩
    have hmem := mem_of_node (by simp) hn
    refine ⟨_, hmem, ?_⟩
    cases n <;> simp [entryOf, Path.base]

theorem exec_listEntries {es : List DirEntry} (h : ∀ e ∈ es, e ∈ t.children p) :
    exec (listEntries p es) t = (es.filterMap fun e => rowOf t.node (p ++ [e.name]), t) := by
  induction es with
  | nil => rfl
  | cons e es ih =>
    obtain ⟨name, n, hn, rfl⟩ := mem_children.mp (h e List.mem_cons_self)
    have hrest := ih fun e he => h e (List.mem_cons_of_mem _ he)
    have hname : (entryOf name n).name = name := by cases n <;> rfl
    simp only [listEntries, exec_bind, exec_entryInfo hn, hrest, List.filterMap_cons, hname]
    cases rowOf t.node (p ++ [name]) <;> rfl

theorem exec_handleList
    (hdir : resolvePath (if category = "" then "images" else category) rel = some p) :
    exec (handleList category rel) t = (match t.node p with
      | some .folder => .ok ((t.children p).filterMap fun e => rowOf t.node (p ++ [e.name]))
      | some (.file _) => .error (.error 500 "read failed")
      | none => if p.inits.any t.isFile then .error (.error 500 "read failed") else .ok [], t) := by
  simp only [handleList, hdir, exec_bind, exec_readDir, readDirResult, statResult]
  cases hnode : t.node p with
  | none => split_ifs <;> rfl
  | some n =>
    cases n with
    | file b => rfl
    | folder => simp [exec_listEntries fun e he => he]

/-- A program that only reads leaves the tree. -/
theorem exec_of_reads {m : Fs α} (h : m.Always (Touching fun _ => False)) : (exec m t).2 = t := by
  have hserve (c : FsCall) (s : FileTree) (hc : Touching (fun _ => False) c) (hs : s = t) :
      (serve c s).2 = t := by
    cases c with
    | stat p | readFile p | readDir p | sync p | close p => exact hs
    | mkdirAll p =>
      cases p using List.reverseRecOn with
      | nil => exact hs
      | append_singleton p s => exact (hc (p ++ [s]) ⟨by simp, List.prefix_refl _⟩).elim
    | openFile p _ | write p _ | remove p | writeFile p _ => exact (hc p rfl).elim
    | rename p p' => exact (hc p (Or.inl rfl)).elim
    | removeAll p => exact (hc p (List.prefix_refl p)).elim
  have hinv : (fun s => s = t) (m.run serve t).2 := h.run_invariant hserve rfl
  exact hinv

/-- A listing holds the rows of the entries of its folder. -/
theorem mem_list {rows : List FileInfo} {info : FileInfo}
    (hdir : resolvePath (if category = "" then "images" else category) rel = some p)
    (hrows : (exec (handleList category rel) t).1 = .ok rows) :
    info ∈ rows ↔ rowOf t.node (p ++ [info.name]) = some info := by
  have hname {q : Path} (h : rowOf t.node q = some info) :
      info.name = q.base ∧ t.node q ≠ none := by
    obtain ⟨hbase, -, hkind⟩ := rowOf_eq_some h
    refine ⟨hbase, ?_⟩
    rcases hkind with ⟨-, hfolder⟩ | ⟨-, b, hfile⟩
    · simp [hfolder]
    · simp [hfile]
  rw [exec_handleList hdir] at hrows
  cases hnode : t.node p with
  | none =>
    rw [hnode] at hrows
    dsimp only at hrows
    split_ifs at hrows
    obtain rfl := Except.ok.inj hrows
    -- nothing lies in a folder that is not there
    have habsent : rowOf t.node (p ++ [info.name]) ≠ some info := by
      intro h
      have hfolder := t.closed_node (hname h).2
      simp [hnode] at hfolder
    simp [habsent]
  | some n =>
    rw [hnode] at hrows
    cases n with
    | file b => cases hrows
    | folder =>
      obtain rfl := Except.ok.inj hrows
      rw [List.mem_filterMap]
      constructor
      · rintro ⟨e, -, he⟩
        have hbase := (hname he).1
        simp only [Path.base, List.getLastD_concat] at hbase
        rwa [hbase]
      · intro h
        obtain ⟨e, he, hename⟩ := exists_child (hname h).2
        exact ⟨e, he, by rwa [hename]⟩

end WinDep.Fs
