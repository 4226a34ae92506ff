/-
# Publishing and the process that dies

New contents are renamed into place before their digest is recorded. A process
that dies in between, or that cannot write the sidecar, leaves the digest of the
old contents beside the new ones, and a sidecar that is cut leaves the beginning
of a digest. Everywhere else the file and its digest fit, whatever fails.
-/

import WinDep.Files.Confined
import WinDep.Files.Faulty

namespace WinDep.Fs

open Admin FileTree Program Function Writer

variable {t t₁ t' : FileTree} {p dest : Path} {b : Bytes} {src : Stream}
  {sha256 : Bytes → Digest} {sum : Digest} {os os' : List Outcome} {r : FileRequest}

/-! ## Sidecars that are cut -/

/-- The digest on record for a path. -/
def recordedDigest (t : FileTree) (p : Path) : List Char := (exec (readSidecar p) t).1

/-- No digest is on record, or that of the file. -/
def DigestMatches (sha256 : Bytes → Digest) (t : FileTree) (p : Path) : Prop :=
  recordedDigest t p = [] ∨
    ∃ b, t.node p = some (.file b) ∧ recordedDigest t p = hexDigits (sha256 b).1

theorem length_hexDigits (sum : Digest) : (hexDigits sum.1).length = 64 := by
  have hlen (b : Bytes) : (hexDigits b).length = 2 * b.length := by
    induction b with
    | nil => rfl
    | cons a b ih =>
      rw [hexDigits, List.flatMap_cons, List.length_append, ← hexDigits, ih, List.length_cons]
      simp only [List.length_cons, List.length_nil]
      omega
  rw [hlen, sum.2]

theorem utf8Size_hexDigits {b : Bytes} : ∀ d ∈ hexDigits b, d.utf8Size = 1 := by
  refine forall_mem_hexDigits fun n hn => ?_
  interval_cases n <;> decide

/-- Cutting text of one byte a character cuts the bytes. -/
theorem take_encode {cs : List Char} (h : ∀ c ∈ cs, c.utf8Size = 1) (k : ℕ) :
    (Utf8.encode cs).take k = Utf8.encode (cs.take k) := by
  induction cs generalizing k with
  | nil => simp [Utf8.encode]
  | cons c cs ih =>
    cases k with
    | zero => rfl
    | succ k =>
      obtain ⟨x, hx⟩ : ∃ x, String.utf8EncodeChar c = [x] := by
        rw [← List.length_eq_one_iff, String.length_utf8EncodeChar, h c (by simp)]
      have hrest := ih (fun d hd => h d (by simp [hd])) k
      simp only [Utf8.encode, List.take_succ_cons, List.flatMap_cons, hx] at hrest ⊢
      rw [List.singleton_append, List.take_succ_cons, hrest, List.singleton_append]

/-- The first field of digits that are followed by a blank or by nothing. -/
theorem field_of_digits {ds rest : List Char} (hds : ∀ d ∈ ds, ¬ IsUnicodeSpace d)
    (hrest : rest = [] ∨ ds ≠ [] ∧ ∃ cs, rest = ' ' :: cs) :
    ((ds ++ rest).dropWhile fun c => IsUnicodeSpace c).takeWhile (fun c => !IsUnicodeSpace c) =
      ds := by
  have hall : ∀ d ∈ ds, (!decide (IsUnicodeSpace d)) = true := fun d hd => by simpa using hds d hd
  have hkeep : (ds ++ rest).dropWhile (fun c => IsUnicodeSpace c) = ds ++ rest := by
    cases ds with
    | nil => simp [hrest.resolve_right fun h => h.1 rfl]
    | cons d ds =>
      rw [List.cons_append]
      exact List.dropWhile_cons_of_neg (by simpa using hds d (by simp))
  rw [hkeep, List.takeWhile_append_of_pos hall]
  rcases hrest with rfl | ⟨-, cs, rfl⟩
  · rw [List.takeWhile_nil, List.append_nil]
  · rw [List.takeWhile_cons_of_neg (by decide), List.append_nil]

/-- A cut sidecar is read as the digits that were written. -/
theorem readSidecar_take (base : String) (sum : Digest) (k : ℕ) :
    WinDep.readSidecar (some ((sidecarLine base sum).take k)) = (hexDigits sum.1).take k := by
  have hspace : ∀ d ∈ (hexDigits sum.1).take k, ¬ IsUnicodeSpace d :=
    fun d hd => hexDigits_not_space d (List.mem_of_mem_take hd)
  have hsize : ∀ d ∈ hexDigits sum.1, d.utf8Size = 1 := utf8Size_hexDigits
  have hline : sidecarLine base sum =
      Utf8.encode (hexDigits sum.1) ++ Utf8.encode (' ' :: ' ' :: base.toList ++ ['\n']) := by
    rw [← Utf8.encode_append]
    simp [sidecarLine]
  have htake := take_encode hsize k
  rw [WinDep.readSidecar, hline, List.take_append]
  by_cases hk : k ≤ (Utf8.encode (hexDigits sum.1)).length
  · rw [htake, Nat.sub_eq_zero_of_le hk, List.take_zero, List.append_nil, Utf8.decode_encode,
      ← List.append_nil ((hexDigits sum.1).take k)]
    exact (field_of_digits hspace (Or.inl rfl)).trans (List.append_nil _).symm
  · -- the digits are all there, and at least one blank after them
    obtain ⟨j, hj⟩ : ∃ j, k - (Utf8.encode (hexDigits sum.1)).length = j + 1 :=
      Nat.exists_eq_succ_of_ne_zero (by omega)
    have hfull : (hexDigits sum.1).take k = hexDigits sum.1 := by
      rw [List.take_of_length_le (not_le.mp hk).le] at htake
      simpa using (congrArg Utf8.decode htake).symm
    rw [hfull] at hspace ⊢
    rw [List.take_of_length_le (not_le.mp hk).le, hj, Utf8.decode_encode_append]
    apply field_of_digits hspace
    exact Or.inr ⟨hexDigits_ne_nil sum, _, Utf8.decode_encodeChar_append ' ' _⟩

/-- A cut sidecar gives no digest, a whole one or a wrong one. -/
theorem take_hexDigits_iff (sum : Digest) (k : ℕ) :
    ((hexDigits sum.1).take k = [] ∨ (hexDigits sum.1).take k = hexDigits sum.1) ↔
      k = 0 ∨ 64 ≤ k := by
  rw [List.take_eq_nil_iff, List.take_eq_self_iff, length_hexDigits]
  simp [hexDigits_ne_nil sum]

/-! ## Recording the digest -/

/-- The process leaves no digest, or that of the contents renamed into place: the sidecar was
written, or was cut before or after the digest, or is as it was and fits. -/
def RecordFits (t : FileTree) (dest : Path) (sum : Digest) : List Outcome → Prop
  | .done :: _ => True
  | .broken k :: _ => t.node (dest.withExt sidecarExt) = some .folder ∨ k = 0 ∨ 64 ≤ k
  | _ => recordedDigest t dest = [] ∨ recordedDigest t dest = hexDigits sum.1

theorem recordedDigest_eq : recordedDigest t p =
    WinDep.readSidecar (contentOf (t.node (p.withExt sidecarExt))) := rfl

theorem recordedDigest_of_folder (h : t.node (p.withExt sidecarExt) = some .folder) :
    recordedDigest t p = [] := by
  rw [recordedDigest_eq, h]
  rfl

/-- What is read of a sidecar that was written as far as some byte. -/
theorem recordedDigest_putFile (hfile : t.node dest = some (.file b))
    (hside : t.node (dest.withExt sidecarExt) ≠ some .folder) (sum : Digest) (k : ℕ) :
    recordedDigest (t.putFile (dest.withExt sidecarExt) ((sidecarLine dest.base sum).take k)).2
      dest = (hexDigits sum.1).take k := by
  have hparent : t.HasParent dest :=
    hasParent_of_node (ne_nil_of_file hfile) (by simp [hfile])
  obtain ⟨-, hnode⟩ := putFile_of_hasParent (b := (sidecarLine dest.base sum).take k)
    (hasParent_withExt hparent) hside
  rw [recordedDigest_eq, hnode, update_self]
  exact readSidecar_take dest.base sum k

theorem recordFits_iff (hfile : t.node dest = some (.file b)) :
    (recordedDigest (live (writeSidecar dest sum) os t).state dest = [] ∨
      recordedDigest (live (writeSidecar dest sum) os t).state dest = hexDigits sum.1) ↔
      RecordFits t dest sum os := by
  by_cases hside : t.node (dest.withExt sidecarExt) = some .folder
  · -- nothing can be written, and nothing is read
    have hstay : (live (writeSidecar dest sum) os t).state = t := by
      rcases os with _ | ⟨_ | _ | k, os⟩
      · rfl
      · exact congrArg Prod.snd (putFile_of_folder hside)
      · rfl
      · exact congrArg Prod.snd (putFile_of_folder hside)
    have hnone := recordedDigest_of_folder hside
    rw [hstay, hnone]
    rcases os with _ | ⟨_ | _ | k, os⟩ <;> simp [RecordFits, hnone, hside]
  · rcases os with _ | ⟨_ | _ | k, os⟩
    · exact Iff.rfl
    · have hwhole := recordedDigest_putFile hfile hside sum
        ((sidecarLine dest.base sum).length + 64)
      rw [List.take_of_length_le (Nat.le_add_right _ _),
        List.take_of_length_le (by simp [length_hexDigits])] at hwhole
      exact iff_of_true (Or.inr hwhole) trivial
    · exact Iff.rfl
    · rw [RecordFits, or_iff_right hside, ← take_hexDigits_iff sum,
        ← recordedDigest_putFile hfile hside]
      exact Iff.rfl

/-! ## Renaming new contents into place -/

/-- The new contents are in place, and their digest is still to be recorded. -/
structure Renamed (t : FileTree) (dest : Path) (b : Bytes) (t₁ : FileTree) : Prop where
  file : t₁.node dest = some (.file b)
  sidecar : t₁.node (dest.withExt sidecarExt) = t.node (dest.withExt sidecarExt)

/-- The file and its sidecar are as they were. -/
def Unchanged (t : FileTree) (dest : Path) (t' : FileTree) : Prop :=
  t'.node dest = t.node dest ∧
    t'.node (dest.withExt sidecarExt) = t.node (dest.withExt sidecarExt)

theorem Unchanged.refl (t : FileTree) (dest : Path) : Unchanged t dest t := ⟨rfl, rfl⟩

theorem Unchanged.trans {t'' : FileTree} (h : Unchanged t dest t') (h' : Unchanged t' dest t'') :
    Unchanged t dest t'' := ⟨h'.1.trans h.1, h'.2.trans h.2⟩

theorem unchanged_of_always {α : Type} {m : Fs α}
    (h : m.Always (Touching fun q => q ≠ dest ∧ q ≠ dest.withExt sidecarExt)) :
    Unchanged t dest (live m os t).state :=
  ⟨node_live h fun hne => hne.1 rfl, node_live h fun hne => hne.2 rfl⟩

theorem Renamed.of_unchanged (h : Unchanged t dest t₁) (h' : Renamed t₁ dest b t') :
    Renamed t dest b t' := ⟨h'.file, h'.sidecar.trans h.2⟩

/-- The stream can be staged and renamed into place. -/
def Stageable (t : FileTree) (dest : Path) (src : Stream) : Prop :=
  t.node (dest.withExt partExt) ≠ some .folder ∧ t.node dest ≠ some .folder ∧ src.Ends

theorem callCount_saveStream (sha256 : Bytes → Digest) (hparent : t.HasParent dest)
    (h : Stageable t dest src) :
    callCount (saveStream sha256 dest src) t = copyCalls src 0 + 3 := by
  obtain ⟨hpart, hdest, hends⟩ := h
  obtain ⟨t', total, hopen, hcopy, hrename, -⟩ := exec_stage_rename src hparent hpart hdest
  have hempty : (t.putFile (dest.withExt partExt) []).2.node (dest.withExt partExt) =
      some (.file []) := by
    rw [(putFile_of_hasParent (hasParent_withExt hparent) hpart).2, update_self]
  have hcalls : callCount (copyCountedSynced (dest.withExt partExt) src)
      (t.putFile (dest.withExt partExt) []).2 = copyCalls src 0 :=
    callCount_copyChunks src hempty 0 0
  simp only [saveStream, callCount_bind, callCount_openFile, exec_openFile, if_true, hopen, hcopy,
    hcalls, callCount_close, exec_close, hends, decide_true, Bool.true_and, renameIf,
    callCount_rename, hrename, callCount_pure]
  omega

theorem not_stageable (sha256 : Bytes → Digest) (hparent : t.HasParent dest)
    (h : ¬ Stageable t dest src) : (exec (saveStream sha256 dest src) t).1 = none := by
  by_cases hpart : t.node (dest.withExt partExt) = some .folder
  · rw [exec_saveStream_of_folder hpart]
  · exact (exec_saveStream_fails sha256 hparent hpart fun hok => h ⟨hpart, hok⟩).1

/-- Where no call goes wrong the stream is renamed into place. -/
theorem live_saveStream (sha256 : Bytes → Digest) (os : List Outcome) (hparent : t.HasParent dest)
    (h : Stageable t dest src) : ∃ t₁, Renamed t dest src.bytes t₁ ∧
      live (saveStream sha256 dest src) (List.replicate (copyCalls src 0 + 3) .done ++ os) t =
        ⟨some (some (sha256 src.bytes)), os, t₁⟩ := by
  obtain ⟨hsum, hnode⟩ := exec_saveStream sha256 hparent h.1 h.2.1 h.2.2
  refine ⟨(exec (saveStream sha256 dest src) t).2, ⟨?_, ?_⟩, ?_⟩
  · rw [hnode, update_of_ne part_ne.symm, update_self]
  · rw [hnode, update_of_ne part_ne_sidecar.symm, update_of_ne sidecar_ne]
  · rw [← callCount_saveStream sha256 hparent h, ← hsum]
    exact play_replicate

/-- Else it is not. -/
theorem live_saveStream_ne (hparent : t.HasParent dest)
    (h : ∀ os', ¬ (Stageable t dest src ∧
      os = List.replicate (copyCalls src 0 + 3) .done ++ os')) (sum : Digest) :
    (live (saveStream sha256 dest src) os t).result ≠ some (some sum) := by
  intro hsum
  obtain ⟨os', hos, hrun, -⟩ := strict_saveStream.play_eq hsum rfl
  by_cases hstage : Stageable t dest src
  · refine h os' ⟨hstage, ?_⟩
    rw [← callCount_saveStream sha256 hparent hstage]
    exact hos
  · have hnone := not_stageable sha256 hparent hstage
    exact absurd (hrun.trans hnone) (Option.some_ne_none sum)

/-- A program that gives no digest, where nothing is called then, leaves the file as it was. -/
theorem unchanged_bind {m : Fs (Option Digest)} {f : Option Digest → Fs Reply} {reply : Reply}
    (hfile : Steady (fun res => res.isSome = true) dest m)
    (hsidecar : Steady (fun res => res.isSome = true) (dest.withExt sidecarExt) m)
    (hm : ∀ sum, (live m os t).result ≠ some (some sum)) (hf : f none = pure reply) :
    Unchanged t dest (live (m >>= f) os t).state := by
  have hbad : ∀ res, (live m os t).result = some res → ¬ res.isSome = true := by
    intro res hres hsome
    obtain ⟨sum, rfl⟩ := Option.isSome_iff_exists.mp hsome
    exact hm sum hres
  have hstay : Unchanged t dest (live m os t).state := ⟨hfile os t hbad, hsidecar os t hbad⟩
  cases hresult : (live m os t).result with
  | none =>
    rw [live_bind_of_none hresult]
    exact hstay
  | some res =>
    rw [live_bind_of_some hresult]
    cases res with
    | none =>
      rw [hf]
      exact hstay
    | some sum => exact absurd hresult (hm sum)

/-! ## The handlers up to the renaming -/

/-- The folders above the path are there, and the path is as it was. -/
structure Made (t : FileTree) (dest : Path) (t₁ : FileTree) : Prop where
  parent : t₁.HasParent dest
  file : t₁.node dest = t.node dest
  companion : ∀ ext, t₁.node (dest.withExt ext) = t.node (dest.withExt ext)

theorem Made.unchanged (h : Made t dest t₁) : Unchanged t dest t₁ := ⟨h.file, h.companion _⟩

theorem Made.stageable_iff (h : Made t dest t₁) : Stageable t₁ dest src ↔ Stageable t dest src := by
  rw [Stageable, h.file, h.companion, Stageable]

/-- Every handler that publishes makes the folders first. -/
theorem live_mkdirAll {α : Type} {m : Fs α} {a : α} (hne : dest ≠ []) (os : List Outcome)
    (t : FileTree) :
    (∃ os₁ t₁, os = .done :: os₁ ∧ (∀ q, q <+: dest.dropLast → t.isFile q = false) ∧
      Made t dest t₁ ∧
        live (mkdirAll dest.dropLast >>= fun made => if made = true then m else pure a) os t =
          live m os₁ t₁) ∨
      (¬ ((∃ os₁, os = .done :: os₁) ∧ ∀ q, q <+: dest.dropLast → t.isFile q = false) ∧
        Unchanged t dest (live (mkdirAll dest.dropLast >>= fun made =>
          if made = true then m else pure a) os t).state) := by
  -- the folders are above the file and its sidecar
  have hmkdir : (mkdirAll dest.dropLast).Always
      (Touching fun q => q ≠ dest ∧ q ≠ dest.withExt sidecarExt) := by
    apply always_perform.mpr
    rintro q ⟨-, hq⟩
    constructor
    · rintro rfl
      exact not_prefix_dropLast_self hne hq
    · rintro rfl
      exact not_prefix_dropLast_withExt hq
  have hstay : Unchanged t dest (live (mkdirAll dest.dropLast) os t).state :=
    unchanged_of_always hmkdir
  -- the call is the first one, and must be done
  rcases os with _ | ⟨o, os₁⟩
  · exact .inr ⟨fun h => by simp at h, hstay⟩
  cases o with
  | refused | broken k => exact .inr ⟨fun h => by simp at h, hstay⟩
  | done =>
    have hnext : live (mkdirAll dest.dropLast >>= fun made => if made = true then m else pure a)
        (.done :: os₁) t = live (if (exec (mkdirAll dest.dropLast) t).1 = true then m else pure a)
          os₁ (exec (mkdirAll dest.dropLast) t).2 := rfl
    rw [hnext]
    -- it gives up where a file stands among the folders
    rcases exec_mkdirAll_cases dest.dropLast t with
      ⟨⟨q, hq, hfile⟩, hmade⟩ | ⟨t₁, hmade, hfree, hnode⟩
    · rw [hmade]
      exact .inr ⟨fun h => by simp [h.2 q hq] at hfile, Unchanged.refl t dest⟩
    · obtain ⟨hparent, hfile, hext⟩ := folders_made hne hnode
      rw [hmade]
      exact .inl ⟨os₁, t₁, rfl, hfree, ⟨hparent, hfile, hext⟩, rfl⟩

/-- What an upload and a config write do in the end. -/
def recordStream (sha256 : Bytes → Digest) (dest : Path) (src : Stream) : Fs Reply := do
  match ← saveStream sha256 dest src with
  | none => return .error 500 "write failed"
  | some sum =>
    let _ ← writeSidecar dest sum
    return .send 201

def putStream (sha256 : Bytes → Digest) (dest : Path) (src : Stream) : Fs Reply := do
  if ← mkdirAll dest.dropLast then recordStream sha256 dest src
  else return .error 500 "mkdir failed"

/-- The contents are renamed into place, and these outcomes are left. -/
def PutRenames (t : FileTree) (dest : Path) (src : Stream) (os : List Outcome) (b : Bytes)
    (os' : List Outcome) : Prop :=
  Puttable t dest src ∧ b = src.bytes ∧
    os = List.replicate (copyCalls src 0 + 4) .done ++ os'

theorem putStream_renames (sha256 : Bytes → Digest) (hne : dest ≠ [])
    (h : PutRenames t dest src os b os') : ∃ t₁, Renamed t dest b t₁ ∧
      (live (putStream sha256 dest src) os t).state =
        (live (writeSidecar dest (sha256 b)) os' t₁).state := by
  obtain ⟨⟨hfree, hstage⟩, rfl, rfl⟩ := h
  rcases live_mkdirAll (m := recordStream sha256 dest src)
      (a := Reply.error 500 "mkdir failed") hne
      (List.replicate (copyCalls src 0 + 4) .done ++ os') t with
    ⟨os₁, t₁, hos, -, hmade, hlive⟩ | ⟨hnot, -⟩
  · obtain rfl : List.replicate (copyCalls src 0 + 3) .done ++ os' = os₁ := (List.cons.inj hos).2
    obtain ⟨t₂, hrenamed, hsaved⟩ :=
      live_saveStream sha256 os' hmade.parent (hmade.stageable_iff.mpr hstage)
    refine ⟨t₂, hrenamed.of_unchanged hmade.unchanged, ?_⟩
    rw [putStream, hlive, recordStream, live_bind_of_some (congrArg Left.result hsaved), hsaved]
    exact state_bind_pure
  · exact absurd ⟨⟨_, rfl⟩, hfree⟩ hnot

theorem putStream_unchanged (sha256 : Bytes → Digest) (hne : dest ≠ [])
    (h : ∀ b os', ¬ PutRenames t dest src os b os') :
    Unchanged t dest (live (putStream sha256 dest src) os t).state := by
  rcases live_mkdirAll (m := recordStream sha256 dest src)
      (a := Reply.error 500 "mkdir failed") hne os t with
    ⟨os₁, t₁, rfl, hfree, hmade, hlive⟩ | ⟨-, hstay⟩
  · have hfails : ∀ sum, (live (saveStream sha256 dest src) os₁ t₁).result ≠ some (some sum) :=
      live_saveStream_ne hmade.parent fun os' hos => h src.bytes os'
        ⟨⟨hfree, hmade.stageable_iff.mp hos.1⟩, rfl, congrArg (Outcome.done :: ·) hos.2⟩
    rw [putStream, hlive]
    exact hmade.unchanged.trans (unchanged_bind (steady_saveStream part_ne)
      (steady_saveStream part_ne_sidecar) hfails rfl)
  · exact hstay

/-! ## Finishing a staged upload -/

/-- What is staged for a path. -/
def staged (t : FileTree) (dest : Path) : Bytes := (t.content (dest.withExt partExt)).getD []

theorem size_statResult (t : FileTree) (dest : Path) :
    StatResult.size (t.statResult (dest.withExt partExt)) = (staged t dest).length := by
  unfold staged content statResult
  cases t.node (dest.withExt partExt) with
  | none =>
    dsimp only
    split_ifs <;> rfl
  | some n => cases n <;> rfl

variable {limit : ℕ}

/-- Appending adds what the limited stream gives. -/
theorem exec_appendStream (src : Stream) (limit : ℕ) (hparent : t.HasParent dest)
    (hpart : t.node (dest.withExt partExt) ≠ some .folder) :
    (exec (appendStream (dest.withExt partExt) src limit) t).1.2 = decide (src.limit limit).Ends ∧
      (exec (appendStream (dest.withExt partExt) src limit) t).2.node =
        update t.node (dest.withExt partExt)
          (some (.file (staged t dest ++ src.bytes.take limit))) ∧
      callCount (appendStream (dest.withExt partExt) src limit) t =
        copyCalls (src.limit limit) 0 + 2 := by
  have hparent' : t.HasParent (dest.withExt partExt) := hasParent_withExt hparent
  obtain ⟨hopen, hnode⟩ := putFile_of_hasParent (b := staged t dest) hparent' hpart
  have hfile : (t.putFile (dest.withExt partExt) (staged t dest)).2.node (dest.withExt partExt) =
      some (.file (staged t dest)) := by rw [hnode, update_self]
  obtain ⟨hok, hcopied⟩ := exec_copyChunks (src.limit limit) hfile 0 0
  have hcalls := callCount_copyChunks (src.limit limit) hfile 0 0
  have hfound : (t.content (dest.withExt partExt)).getD [] = staged t dest := rfl
  rw [hnode, update_idem, Stream.bytes_limit] at hcopied
  simp only [appendStream, exec_bind, exec_openFile, Bool.false_eq_true, if_false, hfound, hopen,
    if_true, copyCountedSynced, hok, exec_close, exec_pure, Bool.and_true, callCount_bind,
    callCount_openFile, hcalls, callCount_close, callCount_pure]
  exact ⟨trivial, hcopied, by omega⟩

/-- What was appended in full was counted in full. -/
theorem count_appendStream {n : ℕ}
    (h : (exec (appendStream (dest.withExt partExt) src limit) t).1 = (n, true)) :
    n = min limit src.bytes.length := by
  have hrun : ((appendStream (dest.withExt partExt) src limit).run treeSystem.serve t).1 =
    (n, true) := h
  exact (run_appendStream hrun).2

theorem exec_finalizePart (sha256 : Bytes → Digest) (hparent : t.HasParent dest)
    (hpart : t.node (dest.withExt partExt) = some (.file b)) (hdest : t.node dest ≠ some .folder) :
    (exec (finalizePart sha256 (dest.withExt partExt) dest) t).1 = some (sha256 b) ∧
      (exec (finalizePart sha256 (dest.withExt partExt) dest) t).2.node =
        update (update t.node dest (some (.file b))) (dest.withExt partExt) none ∧
      callCount (finalizePart sha256 (dest.withExt partExt) dest) t = 2 := by
  obtain ⟨hrename, hnode⟩ := exec_rename hpart part_ne hparent hdest
  simp [finalizePart, content_eq_some.mpr hpart, hrename, hnode]

/-- What a chunk does once its offset has been checked. -/
def appendAndFinish (sha256 : Bytes → Digest) (dest : Path) (body : Stream) (offset total : ℕ) :
    Fs Reply := do
  let tmp := dest.withExt partExt
  let (n, ok) ← appendStream tmp body (total - offset)
  let newSize := offset + n
  if ok then
    if newSize < total then return ⟨204, "", some newSize, some false⟩
    else finishUpload sha256 newSize tmp dest
  else return { Reply.error 500 "write failed" with offset := some newSize }

variable {offset total : ℕ}

theorem appendAndFinish_renames (sha256 : Bytes → Digest) (hparent : t.HasParent dest)
    (hstage : Stageable t dest (src.limit (total - offset)))
    (htotal : total ≤ offset + src.bytes.length) (os' : List Outcome) :
    ∃ t₁, Renamed t dest (staged t dest ++ src.bytes.take (total - offset)) t₁ ∧
      (live (appendAndFinish sha256 dest src offset total)
        (List.replicate (copyCalls (src.limit (total - offset)) 0 + 4) .done ++ os') t).state =
        (live (writeSidecar dest (sha256 (staged t dest ++ src.bytes.take (total - offset)))) os'
          t₁).state := by
  obtain ⟨hpart, hdest, hends⟩ := hstage
  obtain ⟨hok, hnode, hcalls⟩ := exec_appendStream src (total - offset) hparent hpart
  set m := appendStream (dest.withExt partExt) src (total - offset) with hm
  set b := staged t dest ++ src.bytes.take (total - offset)
  obtain ⟨n, hn⟩ : ∃ n, (exec m t).1 = (n, true) :=
    ⟨(exec m t).1.1, Prod.ext rfl (hok.trans (decide_eq_true hends))⟩
  have hcount := count_appendStream hn
  -- the append takes its calls, two are left for the rename
  have happended :
      live m (List.replicate (copyCalls (src.limit (total - offset)) 0 + 4) .done ++ os') t =
        ⟨some (n, true), List.replicate 2 .done ++ os', (exec m t).2⟩ := by
    rw [← hn, ← Nat.add_assoc _ 2 2, List.replicate_add, List.append_assoc, ← hcalls]
    exact play_replicate
  have hparent' : (exec m t).2.HasParent dest :=
    ⟨hparent.1, by rw [hnode, update_of_ne dropLast_ne_withExt, hparent.2]⟩
  obtain ⟨hsum, hnode', hcalls'⟩ := exec_finalizePart (b := b) sha256 hparent'
    (by rw [hnode, update_self]) (by rwa [hnode, update_of_ne part_ne.symm])
  set m' := finalizePart sha256 (dest.withExt partExt) dest with hm'
  have hfinalized : live m' (List.replicate 2 .done ++ os') (exec m t).2 =
      ⟨some (some (sha256 b)), os', (exec m' (exec m t).2).2⟩ := by
    rw [← hsum, ← hcalls']
    exact play_replicate
  refine ⟨(exec m' (exec m t).2).2, ⟨?_, ?_⟩, ?_⟩
  · rw [hnode', update_of_ne part_ne.symm, update_self]
  · rw [hnode', update_of_ne part_ne_sidecar.symm, update_of_ne sidecar_ne, hnode,
      update_of_ne part_ne_sidecar.symm]
  -- the last chunk was given whole, so the upload is finished
  · have hfull : ¬ offset + n < total := by omega
    rw [appendAndFinish, live_bind_of_some (congrArg Left.result happended), happended]
    simp only [if_true, hfull, if_false, finishUpload]
    rw [live_bind_of_some (congrArg Left.result hfinalized), hfinalized]
    exact state_bind_pure

/-- What was appended and finalized could be staged, and no call went wrong. -/
theorem stageable_of_finalized {n : ℕ} {sum : Digest} {os₁ : List Outcome}
    (hparent : t.HasParent dest)
    (happend : (live (appendStream (dest.withExt partExt) src limit) os t).result =
      some (n, true))
    (hfinal : (live (finalizePart sha256 (dest.withExt partExt) dest) os₁
      (exec (appendStream (dest.withExt partExt) src limit) t).2).result = some (some sum))
    (hos₁ : (live (appendStream (dest.withExt partExt) src limit) os t).outcomes = os₁) :
    Stageable t dest (src.limit limit) ∧
      ∃ os', os = List.replicate (copyCalls (src.limit limit) 0 + 4) .done ++ os' := by
  obtain ⟨os₂, hos, hrun, hlive⟩ := strict_appendStream.play_eq happend rfl
  obtain ⟨os', hos', hrun', -⟩ := strict_finalizePart.play_eq hfinal rfl
  obtain rfl : os₂ = os₁ := by rw [← hos₁, live, hlive]
  -- over a folder nothing would have been appended
  have hpart : t.node (dest.withExt partExt) ≠ some .folder := by
    intro hfolder
    have hnone : exec (appendStream (dest.withExt partExt) src limit) t = ((0, false), t) := by
      simp [appendStream, putFile_of_folder hfolder]
    have hfalse : (n, true) = (0, false) := hrun.trans (congrArg Prod.fst hnone)
    simp at hfalse
  obtain ⟨hok, hnode, hcalls⟩ := exec_appendStream src limit hparent hpart
  have hends : (src.limit limit).Ends := by
    have htrue : true = decide (src.limit limit).Ends := (congrArg Prod.snd hrun).trans hok
    exact of_decide_eq_true htrue.symm
  have hstaged : (exec (appendStream (dest.withExt partExt) src limit) t).2.node
      (dest.withExt partExt) = some (.file (staged t dest ++ src.bytes.take limit)) := by
    rw [hnode, update_self]
  have hdest' : (exec (appendStream (dest.withExt partExt) src limit) t).2.node dest =
      t.node dest := by rw [hnode, update_of_ne part_ne.symm]
  -- nor would the rename have gone through
  have hdest : t.node dest ≠ some .folder := by
    intro hfolder
    have hrename := exec_rename_of_folder hstaged part_ne (hdest'.trans hfolder)
    have hnone : (exec (finalizePart sha256 (dest.withExt partExt) dest)
        (exec (appendStream (dest.withExt partExt) src limit) t).2).1 = none := by
      simp [finalizePart, content_eq_some.mpr hstaged, hrename]
    exact absurd (hrun'.trans hnone) (Option.some_ne_none sum)
  refine ⟨⟨hpart, hdest, hends⟩, os', ?_⟩
  have hparent' : (exec (appendStream (dest.withExt partExt) src limit) t).2.HasParent dest :=
    ⟨hparent.1, by rw [hnode, update_of_ne dropLast_ne_withExt, hparent.2]⟩
  -- both parts take as many outcomes as they make calls
  obtain ⟨-, -, hcalls'⟩ := exec_finalizePart sha256 hparent' hstaged (hdest' ▸ hdest)
  have hfour := congrArg₂ (· + ·) hcalls hcalls'
  rw [hos, hos', ← List.append_assoc, ← List.replicate_add]
  exact congrArg (fun k => List.replicate k Outcome.done ++ os') hfour

theorem appendAndFinish_unchanged (sha256 : Bytes → Digest) (hparent : t.HasParent dest)
    (h : ∀ os', ¬ (Stageable t dest (src.limit (total - offset)) ∧
      os = List.replicate (copyCalls (src.limit (total - offset)) 0 + 4) .done ++ os')) :
    Unchanged t dest (live (appendAndFinish sha256 dest src offset total) os t).state := by
  -- appending touches the staging file only
  have hframe : Unchanged t dest
      (live (appendStream (dest.withExt partExt) src (total - offset)) os t).state :=
    unchanged_of_always (always_appendStream
      (S := fun q => q ≠ dest ∧ q ≠ dest.withExt sidecarExt) ⟨part_ne, part_ne_sidecar⟩)
  rw [appendAndFinish]
  cases hresult : (live (appendStream (dest.withExt partExt) src (total - offset)) os t).result with
  | none =>
    rw [live_bind_of_none hresult]
    exact hframe
  | some res =>
    obtain ⟨n, ok⟩ := res
    rw [live_bind_of_some hresult]
    dsimp only
    split_ifs with hok hless
    · exact hframe
    · -- all of it was appended, so what goes wrong is in the last two calls
      subst hok
      obtain ⟨os₁, hos, hrun, hlive⟩ := strict_appendStream.play_eq hresult rfl
      have hfails (sum : Digest) : (live (finalizePart sha256 (dest.withExt partExt) dest) os₁
          (exec (appendStream (dest.withExt partExt) src (total - offset)) t).2).result ≠
            some (some sum) := by
        intro hsum
        obtain ⟨hstage, os', hos'⟩ :=
          stageable_of_finalized hparent hresult hsum (congrArg Left.outcomes hlive)
        exact h os' ⟨hstage, hos'⟩
      refine hframe.trans ?_
      rw [live, hlive, finishUpload]
      exact unchanged_bind steady_finalizePart steady_finalizePart hfails rfl
    · exact hframe

/-! ## Requests -/

section

variable (P : Primitives) (masterKey : Option Key) (ivs : String → IV)

namespace Writer

/-- The file a request is on. -/
def path (w : Writer) (r : FileRequest) : Path := w.categoryOf r.category :: Path.join [] r.rel

/-- A whole upload, a config, or the chunk that completes what is staged. -/
def Publishes (w : Writer) (r : FileRequest) (t : FileTree) : Prop :=
  match w with
  | upload | configPut => True
  | resume => ∀ dest offset total, parseResume r = .ok (dest, offset, total) →
      offset = (staged t dest).length ∧ total ≤ offset + r.body.bytes.length
  | mkdir | delete => False

/-- The complete new contents. -/
def contents (w : Writer) (r : FileRequest) (t : FileTree) : Option Bytes :=
  match w with
  | upload => some r.body.bytes
  | resume =>
    match parseResume r with
    | .error _ => none
    | .ok (dest, offset, total) => some (staged t dest ++ r.body.bytes.take (total - offset))
  | configPut =>
    (readBody r.body maxBody).bind fun raw =>
      encryptConfigJSON P masterKey ivs raw ((t.content (w.path r)).getD [])
  | mkdir | delete => none

/-- The outcomes bring a request to rename some contents into place, and some are left then. Two
calls may fail: looking for a staging file that is not there, and reading the stored config, which
then counts as new. -/
def Renames (w : Writer) (r : FileRequest) (t : FileTree) (os : List Outcome) (b : Bytes)
    (os' : List Outcome) : Prop :=
  w.Accepts r.category r.rel ∧
    match w with
    | upload => PutRenames t (w.path r) r.body os b os'
    | resume => ∃ dest offset total o os₁, parseResume r = .ok (dest, offset, total) ∧
        os = .done :: o :: os₁ ∧ (o = .done ∨ offset = 0) ∧
        Puttable t dest (r.body.limit (total - offset)) ∧
        b = staged t dest ++ r.body.bytes.take (total - offset) ∧
        os₁ = List.replicate (copyCalls (r.body.limit (total - offset)) 0 + 4) .done ++ os'
    | configPut => ∃ o os₁ raw out, os = o :: os₁ ∧ readBody r.body maxBody = some raw ∧
        encryptConfigJSON P masterKey ivs raw
          (if o = .done then (t.content (w.path r)).getD [] else []) = some out ∧
        PutRenames t (w.path r) (.ofBytes out) os₁ b os'
    | mkdir | delete => False

/-- The stored config could be read, or a config that is put over it keeps none of its secrets. -/
def ReadsKept (w : Writer) (r : FileRequest) (t : FileTree) (os : List Outcome) : Prop :=
  match w with
  | configPut => os.head? = some .done ∨ ∀ raw, readBody r.body maxBody = some raw →
      KeepsNothing raw ((t.content (w.path r)).getD [])
  | upload | resume | mkdir | delete => True

end Writer

/-- The file is as it was or has the complete new contents, and its digest on record fits. -/
structure CrashSafe (sha256 : Bytes → Digest) (t : FileTree) (dest : Path) (new : Option Bytes)
    (t' : FileTree) : Prop where
  file : t'.node dest = t.node dest ∨ ∃ b, new = some b ∧ t'.node dest = some (.file b)
  digest : DigestMatches sha256 t' dest

end

variable {P : Primitives} {masterKey : Option Key} {ivs : String → IV} {w : Writer}

theorem crashSafe_of_unchanged {new : Option Bytes} (hstart : DigestMatches sha256 t dest)
    (h : Unchanged t dest t') : CrashSafe sha256 t dest new t' := by
  refine ⟨.inl h.1, ?_⟩
  rwa [DigestMatches, recordedDigest_eq, h.2, h.1]

/-- What a process leaves that renamed some contents into place. -/
theorem crashSafe_renamed_iff {new : Option Bytes} (h : Renamed t dest b t₁) :
    CrashSafe sha256 t dest new (live (writeSidecar dest (sha256 b)) os' t₁).state ↔
      (new = some b ∨ t.node dest = some (.file b)) ∧ RecordFits t dest (sha256 b) os' := by
  -- recording the digest leaves the file
  have hfile : (live (writeSidecar dest (sha256 b)) os' t₁).state.node dest = some (.file b) :=
    (node_live (always_writeSidecar (S := (· ≠ dest)) sidecar_ne) fun hne => hne rfl).trans h.file
  -- the rename left the sidecar
  have hfits : RecordFits t₁ dest (sha256 b) os' ↔ RecordFits t dest (sha256 b) os' := by
    unfold RecordFits
    rw [recordedDigest_eq, recordedDigest_eq, h.sidecar]
  rw [← hfits, ← recordFits_iff h.file]
  constructor
  · rintro ⟨hnew, hdigest⟩
    constructor
    · rcases hnew with hold | ⟨b', rfl, hb'⟩
      · exact .inr (hold ▸ hfile)
      · rw [hfile] at hb'
        cases hb'
        exact .inl rfl
    · rcases hdigest with hnone | ⟨b', hb', hsum⟩
      · exact .inl hnone
      · rw [hfile] at hb'
        cases hb'
        exact .inr hsum
  · rintro ⟨hnew, hdigest⟩
    refine ⟨?_, hdigest.imp_right fun hsum => ⟨b, hfile, hsum⟩⟩
    rcases hnew with rfl | hold
    · exact .inr ⟨b, rfl, hfile⟩
    · exact .inl (hfile.trans hold.symm)

theorem ne_nil_of_path : w.path r ≠ [] := List.cons_ne_nil _ _

theorem targetPath_path (hacc : w.Accepts r.category r.rel)
    (hcat : w.categoryOf r.category = r.category)
    (hrel : ¬ (r.rel = "" ∨ r.rel.toList.getLast? = some '/')) :
    targetPath r = .ok (w.path r) := by
  rw [targetPath_eq (hcat ▸ hacc.1) hrel, Writer.path, hcat]

theorem program_upload (hacc : upload.Accepts r.category r.rel) :
    upload.program sha256 P masterKey ivs r = putStream sha256 (upload.path r) r.body := by
  rw [Writer.program, handleUpload, targetPath_path hacc rfl hacc.2]
  rfl

theorem program_configPut (hacc : configPut.Accepts r.category r.rel) :
    configPut.program sha256 P masterKey ivs r =
      (match readBody r.body maxBody with
      | none => pure (.error 400 "read failed")
      | some raw => do
        let prev ← readFile (configPut.path r)
        match encryptConfigJSON P masterKey ivs raw (prev.getD []) with
        | none => return .error 400 "invalid config json"
        | some out => putStream sha256 (configPut.path r) (.ofBytes out)) := by
  have hpath : resolvePath "config" r.rel = some (configPut.path r) :=
    resolvePath_of_mem r.rel hacc.1
  rw [Writer.program, handleConfigPut, if_neg hacc.2, hpath]
  rfl

theorem program_resume {dest : Path} {offset total : ℕ}
    (hparse : parseResume r = .ok (dest, offset, total)) :
    resume.program sha256 P masterKey ivs r = (do
      if ← mkdirAll dest.dropLast then
        let cur := StatResult.size (← stat (dest.withExt partExt))
        if offset ≠ cur then return { Reply.error 409 "offset mismatch" with offset := some cur }
        else appendAndFinish sha256 dest r.body cur total
      else return .error 500 "mkdir failed") := by
  rw [Writer.program, handleUploadResume, hparse]
  rfl

theorem Made.staged (h : Made t dest t₁) : staged t₁ dest = staged t dest := by
  rw [Fs.staged, content, h.companion, Fs.staged, content]

/-- A reading that fails reads nothing. -/
theorem live_readFile (f : Option Bytes → Fs Reply) (o : Outcome) :
    live (readFile p >>= f) (o :: os) t =
      live (f (if o = .done then t.content p else none)) os t := by
  cases o <;> rfl

theorem getD_read (o : Outcome) (found : Option Bytes) :
    (if o = .done then found else none).getD [] = if o = .done then found.getD [] else [] := by
  split_ifs <;> rfl

/-- A chunk is finished, or leaves the file as it was. -/
theorem live_resume {dest : Path} {offset total : ℕ} (sha256 : Bytes → Digest) (P : Primitives)
    (masterKey : Option Key) (ivs : String → IV) (os : List Outcome)
    (hparse : parseResume r = .ok (dest, offset, total)) (hne : dest ≠ [])
    (hoffset : offset = (staged t dest).length) :
    (∃ o os₁ t₁, os = .done :: o :: os₁ ∧ (o = .done ∨ offset = 0) ∧
      (∀ q, q <+: dest.dropLast → t.isFile q = false) ∧ Made t dest t₁ ∧
        live (resume.program sha256 P masterKey ivs r) os t =
          live (appendAndFinish sha256 dest r.body offset total) os₁ t₁) ∨
      ((∀ o os₁, ¬ (os = .done :: o :: os₁ ∧ (o = .done ∨ offset = 0) ∧
        ∀ q, q <+: dest.dropLast → t.isFile q = false)) ∧
        Unchanged t dest (live (resume.program sha256 P masterKey ivs r) os t).state) := by
  let afterStat (found : StatResult) : Fs Reply :=
    if offset ≠ StatResult.size found then
      pure { Reply.error 409 "offset mismatch" with offset := some (StatResult.size found) }
    else appendAndFinish sha256 dest r.body (StatResult.size found) total
  rw [program_resume hparse]
  -- the folders come first, then the size of what is staged is read
  rcases live_mkdirAll (m := stat (dest.withExt partExt) >>= afterStat)
      (a := Reply.error 500 "mkdir failed") hne os t with
    ⟨os₁, t₁, rfl, hfree, hmade, hlive⟩ | ⟨hnot, hstay⟩
  · rcases os₁ with _ | ⟨o, os₂⟩
    · refine .inr ⟨by simp, ?_⟩
      rw [hlive]
      exact hmade.unchanged
    · obtain ⟨found, hfound, hsize⟩ : ∃ found,
          live (stat (dest.withExt partExt) >>= afterStat) (o :: os₂) t₁ =
            live (afterStat found) os₂ t₁ ∧
          (offset = StatResult.size found ↔ o = .done ∨ offset = 0) := by
        cases o with
        | done =>
          refine ⟨t₁.statResult (dest.withExt partExt), rfl, ?_⟩
          rw [size_statResult, hmade.staged, ← hoffset]
          simp
        | refused => exact ⟨.failed, rfl, by simp [StatResult.size]⟩
        | broken k => exact ⟨.failed, rfl, by simp [StatResult.size]⟩
      rw [hlive, hfound]
      -- a size that was not read counts as zero, which only the first chunk passes
      by_cases hok : o = .done ∨ offset = 0
      · refine .inl ⟨o, os₂, t₁, rfl, hok, hfree, hmade, ?_⟩
        have hsame := hsize.mpr hok
        simp only [afterStat, ← hsame, ne_eq, not_true_eq_false, if_false]
      · refine .inr ⟨?_, ?_⟩
        · rintro o' os' ⟨hos, hok', -⟩
          obtain ⟨rfl, -⟩ := List.cons.inj (List.cons.inj hos).2
          exact hok hok'
        · have hdiffers : offset ≠ StatResult.size found := fun h => hok (hsize.mp h)
          rw [show afterStat found = _ from if_pos hdiffers]
          exact hmade.unchanged
  · exact .inr ⟨fun o os₁ h => hnot ⟨⟨_, h.1⟩, h.2.2⟩, hstay⟩

theorem program_of_resume_error {reply : Reply} (h : parseResume r = .error reply) :
    resume.program sha256 P masterKey ivs r = pure reply := by
  rw [Writer.program, handleUploadResume, h]

/-- A chunk's path is the one it names. -/
theorem path_of_parseResume {dest : Path} {offset total : ℕ}
    (h : parseResume r = .ok (dest, offset, total)) :
    dest = resume.path r ∧ resume.Accepts r.category r.rel := by
  have htarget := targetPath_of_parseResume h
  have hacc : resume.Accepts r.category r.rel := by
    by_contra hnot
    obtain ⟨reply, hreply⟩ := targetPath_error hnot
    rw [hreply] at htarget
    cases htarget
  rw [targetPath_path hacc rfl hacc.2] at htarget
  cases htarget
  exact ⟨rfl, hacc⟩

/-- A request whose outcomes bring it to rename contents into place does so, and what is left is
recording the digest. -/
theorem live_program_renames (sha256 : Bytes → Digest) (hpub : w.Publishes r t)
    (h : w.Renames P masterKey ivs r t os b os') : ∃ t₁, Renamed t (w.path r) b t₁ ∧
      (live (w.program sha256 P masterKey ivs r) os t).state =
        (live (writeSidecar (w.path r) (sha256 b)) os' t₁).state := by
  obtain ⟨hacc, h⟩ := h
  cases w with
  | upload =>
    rw [program_upload hacc]
    exact putStream_renames sha256 ne_nil_of_path h
  | configPut =>
    obtain ⟨o, os₁, raw, out, rfl, hraw, hout, hput⟩ := h
    rw [← getD_read] at hout
    rw [program_configPut hacc, hraw]
    simp only [live_readFile, hout]
    exact putStream_renames sha256 ne_nil_of_path hput
  -- a chunk is appended first, at the size that is staged
  | resume =>
    obtain ⟨dest, offset, total, o, os₁, hparse, rfl, hok, hput, rfl, hos₁⟩ := h
    obtain ⟨hoffset, htotal⟩ := hpub dest offset total hparse
    obtain ⟨rfl, -⟩ := path_of_parseResume hparse
    rcases live_resume sha256 P masterKey ivs (.done :: o :: os₁) hparse ne_nil_of_path hoffset with
      ⟨o', os₂, t₁, hos, -, -, hmade, hlive⟩ | ⟨hnot, -⟩
    · obtain ⟨rfl, rfl⟩ := List.cons.inj (List.cons.inj hos).2
      obtain ⟨t₂, hrenamed, hstate⟩ := appendAndFinish_renames sha256 hmade.parent
        (hmade.stageable_iff.mpr hput.2) htotal os'
      rw [← hmade.staged, hlive, hos₁]
      exact ⟨t₂, hrenamed.of_unchanged hmade.unchanged, hstate⟩
    · exact absurd ⟨rfl, hok, hput.1⟩ (hnot o os₁)
  | mkdir | delete => exact h.elim

/-- What a request renames into place is the complete new contents, or what was there, exactly if a
config keeps what it should. -/
theorem file_iff_readsKept (h : w.Renames P masterKey ivs r t os b os') :
    (w.contents P masterKey ivs r t = some b ∨ t.node (w.path r) = some (.file b)) ↔
      w.ReadsKept r t os := by
  obtain ⟨hacc, h⟩ := h
  cases w with
  | upload => exact iff_of_true (.inl (congrArg some h.2.1.symm)) trivial
  | resume =>
    obtain ⟨dest, offset, total, o, os₁, hparse, -, -, -, rfl, -⟩ := h
    exact iff_of_true (.inl (by rw [contents, hparse])) trivial
  | configPut =>
    obtain ⟨o, os₁, raw, out, rfl, hraw, hout, -, rfl, -⟩ := h
    rw [Stream.bytes_ofBytes]
    have hcontents : configPut.contents P masterKey ivs r t =
        encryptConfigJSON P masterKey ivs raw ((t.content (configPut.path r)).getD []) := by
      rw [contents, hraw, Option.bind_some]
    have hkept : configPut.ReadsKept r t (o :: os₁) ↔
        o = .done ∨ KeepsNothing raw ((t.content (configPut.path r)).getD []) := by
      simp [ReadsKept, hraw]
    rw [hcontents, hkept]
    by_cases ho : o = .done
    · rw [if_pos ho] at hout
      exact iff_of_true (.inl hout) (.inl ho)
    · rw [if_neg ho] at hout
      rw [or_iff_right ho, ← hout, encryptConfigJSON_eq_fresh_iff]
      -- the file that is there is no other if the sentinel keeps something of it
      refine or_iff_left_of_imp fun hsame => ?_
      rw [content_eq_some.mpr hsame]
      exact keepsNothing_of_fresh hout
  | mkdir | delete => exact h.elim

/-- Else the file and its sidecar are as they were. -/
theorem live_program_unchanged (sha256 : Bytes → Digest) (hpub : w.Publishes r t)
    (h : ∀ b os', ¬ w.Renames P masterKey ivs r t os b os') :
    Unchanged t (w.path r) (live (w.program sha256 P masterKey ivs r) os t).state := by
  by_cases hacc : w.Accepts r.category r.rel
  -- what is accepted and renames nothing stops at or before the rename
  · cases w with
    | upload =>
      rw [program_upload hacc]
      exact putStream_unchanged sha256 ne_nil_of_path fun b os' hput => h b os' ⟨hacc, hput⟩
    | configPut =>
      rw [program_configPut hacc]
      cases hraw : readBody r.body maxBody with
      | none => exact Unchanged.refl _ _
      | some raw =>
        rcases os with _ | ⟨o, os₁⟩
        · exact Unchanged.refl _ _
        · simp only [live_readFile]
          cases hout : encryptConfigJSON P masterKey ivs raw
              ((if o = .done then t.content (configPut.path r) else none).getD []) with
          | none => exact Unchanged.refl _ _
          | some out =>
            refine putStream_unchanged sha256 ne_nil_of_path fun b os' hput => ?_
            rw [getD_read] at hout
            exact h b os' ⟨hacc, o, os₁, raw, out, rfl, hraw, hout, hput⟩
    | resume =>
      cases hparse : parseResume r with
      | error reply =>
        rw [program_of_resume_error hparse]
        exact Unchanged.refl _ _
      | ok named =>
        obtain ⟨dest, offset, total⟩ := named
        obtain ⟨hoffset, htotal⟩ := hpub dest offset total hparse
        obtain ⟨rfl, -⟩ := path_of_parseResume hparse
        rcases live_resume sha256 P masterKey ivs os hparse ne_nil_of_path hoffset with
          ⟨o, os₁, t₁, rfl, hok, hfree, hmade, hlive⟩ | ⟨-, hstay⟩
        · rw [hlive]
          refine hmade.unchanged.trans (appendAndFinish_unchanged sha256 hmade.parent ?_)
          rintro os' ⟨hstage, hos₁⟩
          exact h _ os' ⟨hacc, _, offset, total, o, os₁, hparse, rfl, hok,
            ⟨hfree, hmade.stageable_iff.mp hstage⟩, rfl, hos₁⟩
        · exact hstay
    | mkdir | delete => exact hpub.elim
  -- a request that is refused makes no call
  · obtain ⟨reply, hreply⟩ := program_refused hacc sha256 P masterKey ivs
    rw [hreply]
    exact Unchanged.refl _ _

/-- **Publishing and the process that dies.** Whatever calls of a request that publishes fail, and
wherever the process dies, the file and its digest on record are consistent exactly when one of
these holds: nothing was renamed into place; or something was, the config that was put keeps no
secret of a config that could not be read, and the sidecar was written, or was cut outside the
digest, or is as it was and holds no digest or the one of the new contents. -/
theorem publishes_crashSafe_iff (w : Writer) (sha256 : Bytes → Digest) (P : Primitives)
    (masterKey : Option Key) (ivs : String → IV) (r : FileRequest) (t : FileTree)
    (os : List Outcome) (hpub : w.Publishes r t) (hstart : ∀ p, DigestMatches sha256 t p) :
    CrashSafe sha256 t (w.path r) (w.contents P masterKey ivs r t)
        (live (w.program sha256 P masterKey ivs r) os t).state ↔
      ∀ b os', w.Renames P masterKey ivs r t os b os' →
        w.ReadsKept r t os ∧ RecordFits t (w.path r) (sha256 b) os' := by
  constructor
  · intro hsafe b os' hrenames
    obtain ⟨t₁, hrenamed, hstate⟩ := live_program_renames sha256 hpub hrenames
    rw [hstate, crashSafe_renamed_iff hrenamed, file_iff_readsKept hrenames] at hsafe
    exact hsafe
  · intro hfits
    by_cases hrenames : ∃ b os', w.Renames P masterKey ivs r t os b os'
    · obtain ⟨b, os', hrenames⟩ := hrenames
      obtain ⟨t₁, hrenamed, hstate⟩ := live_program_renames sha256 hpub hrenames
      rw [hstate]
      rw [crashSafe_renamed_iff hrenamed, file_iff_readsKept hrenames]
      exact hfits b os' hrenames
    · simp only [not_exists] at hrenames
      exact crashSafe_of_unchanged (hstart _) (live_program_unchanged sha256 hpub hrenames)

/-! ## A file that is overwritten -/

/-- A file can be overwritten. -/
theorem puttable_of_file (hfile : t.node dest = some (.file b))
    (hpart : t.node (dest.withExt partExt) ≠ some .folder) (hends : src.Ends) :
    Puttable t dest src := by
  refine ⟨fun q hq => ?_, hpart, by simp [hfile], hends⟩
  have hne : q ≠ dest := by
    rintro rfl
    exact not_prefix_dropLast_self (ne_nil_of_file hfile) hq
  have habove := t.folder_above (by simp [hfile]) (hq.trans (List.dropLast_prefix dest)) hne
  rw [isFile, habove]

/-- A digest that tells files of different lengths apart. -/
def lengthDigest (b : Bytes) : Digest :=
  ⟨List.replicate 32 (UInt8.ofNat b.length), List.length_replicate⟩

def shortUpload : FileRequest := ⟨"images", "a.wim", [], [], .ofBytes [1]⟩

def longUpload : FileRequest := ⟨"images", "a.wim", [], [], .ofBytes [1, 2]⟩

/-- The store that holds the short file with its digest. -/
def shortStored : FileTree := (exec (handleUpload lengthDigest shortUpload) FileTree.empty).2

theorem uploaded_shortStored : Uploaded FileTree.empty ["images", "a.wim"] [1] (lengthDigest [1])
    shortStored :=
  (exec_handleUpload lengthDigest (r := shortUpload) rfl (by decide)
    (puttable_empty (by decide) (by decide))).2

theorem digestMatches_shortStored (p : Path) : DigestMatches lengthDigest shortStored p := by
  obtain ⟨hfile, hsidecar, -, hother⟩ := uploaded_shortStored
  by_cases hp : p = ["images", "a.wim"]
  · subst hp
    refine .inr ⟨_, hfile, ?_⟩
    rw [recordedDigest_eq, hsidecar (by rw [node_empty (by decide)]; simp)]
    exact readSidecar_sidecarLine _
  · -- no other path has a sidecar
    have hcomp : ¬ Companion ["images", "a.wim"] (p.withExt sidecarExt) := by
      rintro (h | h | h)
      · exact ne_of_reserved (by decide) reserved_sidecar h.symm
      · exact sidecar_ne_part h
      · by_cases hnil : p = []
        · subst hnil
          exact absurd (congrArg List.length h) (by decide)
        · exact hp (withExt_inj hnil (by decide) h)
    refine .inl ?_
    rw [recordedDigest_eq, hother _ hcomp, node_empty (by simp [Path.withExt])]
    split_ifs <;> rfl

theorem renames_longUpload (os' : List Outcome) :
    upload.Renames default none sampleIVs longUpload shortStored
      (List.replicate 6 .done ++ os') [1, 2] os' := by
  have hstored : Uploaded FileTree.empty (upload.path longUpload) [1] (lengthDigest [1])
    shortStored := uploaded_shortStored
  exact ⟨⟨by decide, by decide⟩,
    puttable_of_file hstored.file (by simp [hstored.part]) (by decide), rfl, rfl⟩

/-- The longer file is renamed over the shorter one, and its digest is recorded. -/
theorem publishes_crashSafe_overwritten :
    upload.Renames default none sampleIVs longUpload shortStored (List.replicate 7 .done) [1, 2]
        [.done] ∧
      CrashSafe lengthDigest shortStored (upload.path longUpload)
        (upload.contents default none sampleIVs longUpload shortStored)
        (live (upload.program lengthDigest default none sampleIVs longUpload)
          (List.replicate 7 .done) shortStored).state := by
  refine ⟨renames_longUpload [.done], (publishes_crashSafe_iff upload lengthDigest default none
    sampleIVs longUpload shortStored (List.replicate 7 .done) trivial
    digestMatches_shortStored).mpr fun b os' hrenames => ⟨trivial, ?_⟩⟩
  -- one call is left, which records the digest
  obtain ⟨-, -, -, hos⟩ := hrenames
  have hos : List.replicate 6 .done ++ [.done] = List.replicate 6 .done ++ os' := hos
  obtain rfl : [.done] = os' := List.append_cancel_left hos
  trivial

/-- The longer file is renamed into place and the process dies: the digest of the shorter one is
still on record. -/
theorem overwritten_stale : ∃ (w : Writer) (sha256 : Bytes → Digest) (P : Primitives)
    (masterKey : Option Key) (ivs : String → IV) (r : FileRequest) (t : FileTree)
    (os : List Outcome), w.Publishes r t ∧ (∀ p, DigestMatches sha256 t p) ∧
      ¬ CrashSafe sha256 t (w.path r) (w.contents P masterKey ivs r t)
        (live (w.program sha256 P masterKey ivs r) os t).state := by
  refine ⟨upload, lengthDigest, default, none, sampleIVs, longUpload, shortStored,
    List.replicate 6 .done, trivial, digestMatches_shortStored, fun hsafe => ?_⟩
  have hstored : Uploaded FileTree.empty (upload.path longUpload) [1] (lengthDigest [1])
    shortStored := uploaded_shortStored
  have hrenames : upload.Renames default none sampleIVs longUpload shortStored
      (List.replicate 6 .done) [1, 2] [] := renames_longUpload []
  obtain ⟨t₁, hrenamed, hstate⟩ := live_program_renames (w := upload) lengthDigest trivial hrenames
  rw [hstate, crashSafe_renamed_iff hrenamed] at hsafe
  have hdigest : recordedDigest shortStored (upload.path longUpload) =
      hexDigits (lengthDigest [1]).1 := by
    rw [recordedDigest_eq, hstored.sidecar (by rw [node_empty (by decide)]; simp)]
    exact readSidecar_sidecarLine _
  rcases hsafe.2 with hnone | hsame
  · exact absurd (hdigest.symm.trans hnone) (by decide)
  · exact absurd (hdigest.symm.trans hsame) (by decide)

end WinDep.Fs
