/-
# A chunk and the declared length

A chunk request knows four numbers: the size of the staging file, the offset and
the length its headers declare, and the bytes its body delivers. The check of the
offset relates the first two, and the limit of the append the last two. Nothing
relates the staging file to the declared length, so a longer one, left by another
upload, is published as it is.
-/

import WinDep.Upload.Handlers

namespace WinDep.Admin

variable {faults : Faults} {sha256 : Bytes → Digest} {base : String} {offset total : ℕ}
  {body : Stream} {t t' : Target} {reply : Reply} {dest : Path} {d : Disk}

/-- The staging file is as it was, or extended by a part of the body up to the declared length. -/
def StagedWithin (total : ℕ) (body : Stream) (t t' : Target) : Prop :=
  t'.part = t.part ∨ ∃ written, written <+: body.bytes ∧
    t'.part = some (t.part.getD [] ++ written) ∧ (t.part.getD [] ++ written).length ≤ total

/-- What a chunk request promises about the length. -/
structure KeepsLength (offset total : ℕ) (body : Stream) (t : Target) (reply : Reply)
    (t' : Target) : Prop where
  published : reply.status = 200 → reply.complete = some true →
    ∃ file, t'.file = some file ∧ file.length = total ∧
      file = t.part.getD [] ++ body.bytes.take (total - offset) ∧ t'.part = none
  otherwise : ¬ (reply.status = 200 ∧ reply.complete = some true) →
    t'.file = t.file ∧ t'.sidecar = t.sidecar ∧ StagedWithin total body t t'

theorem stagedWithin_append {written : Bytes} (hsize : (t.part.getD []).length = offset)
    (hle : offset ≤ total) (hwritten : written <+: body.bytes.take (total - offset)) :
    StagedWithin total body t { t with part := some (t.part.getD [] ++ written) } := by
  refine .inr ⟨written, hwritten.trans (List.take_prefix _ _), rfl, ?_⟩
  have hlen := hwritten.length_le
  rw [List.length_take] at hlen
  rw [List.length_append, hsize]
  omega

/-- A chunk at an offset within the declared length keeps it, whatever fails but the `stat` of the
staging file. -/
theorem Resumed.keepsLength (h : Resumed base faults sha256 offset total body t reply t')
    (hstat : faults.statPart = false)
    (hle : offset = (t.part.getD []).length → offset ≤ total) :
    KeepsLength offset total body t reply t' := by
  have hsize : partSize faults t = (t.part.getD []).length := by simp [partSize, hstat]
  cases h with
  | refused => exact ⟨by simp [Reply.error], fun _ => ⟨rfl, rfl, .inl rfl⟩⟩
  | mismatch => exact ⟨by simp [Reply.error], fun _ => ⟨rfl, rfl, .inl rfl⟩⟩
  | failed hoffset _ hwritten ht' =>
    rw [hsize] at hoffset
    refine ⟨by simp [Reply.error], fun _ => ?_⟩
    rcases ht' with rfl | rfl
    · exact ⟨rfl, rfl, stagedWithin_append hoffset.symm (hle hoffset) hwritten⟩
    · exact ⟨rfl, rfl, .inl rfl⟩
  | more hoffset hwritten =>
    rw [hsize] at hoffset
    exact ⟨by simp, fun _ => ⟨rfl, rfl, stagedWithin_append hoffset.symm (hle hoffset)
      (by rw [hwritten])⟩⟩
  | unpublished hoffset _ hwritten =>
    rw [hsize] at hoffset
    exact ⟨by simp [Reply.error], fun _ => ⟨rfl, rfl, stagedWithin_append hoffset.symm
      (hle hoffset) (by rw [hwritten])⟩⟩
  | @published written staged hoffset hwritten hstaged hreached =>
    rw [hsize] at hoffset
    refine ⟨fun _ _ => ⟨staged, by simp, ?_, by rw [hstaged, hwritten], by simp⟩, fun hne => ?_⟩
    · -- the append is limited, so what reaches the length is the length
      have hlen : written.length ≤ total - offset := by
        rw [hwritten, List.length_take]
        exact min_le_left _ _
      rw [hstaged, List.length_append, ← hoffset]
      have := hle hoffset
      omega
    · exact absurd ⟨rfl, rfl⟩ hne

/-- A staging file longer than the declared length is published by a chunk at its end. -/
theorem resumeUpload_overlong (hsize : offset = (t.part.getD []).length) (hlt : total < offset) :
    ∃ staged, t.part = some staged ∧ staged.length = offset ∧
      resumeUpload base Faults.none sha256 offset total body t =
        (⟨200, "", some offset, some true⟩,
          writeSidecar base Faults.none (sha256 staged) ⟨some staged, none, t.sidecar⟩) := by
  obtain ⟨staged, hpart⟩ : ∃ staged, t.part = some staged := by
    cases hpart : t.part with
    | none =>
      rw [hpart] at hsize
      simp only [Option.getD_none, List.length_nil] at hsize
      omega
    | some staged => exact ⟨staged, rfl⟩
  rw [hpart, Option.getD_some] at hsize
  refine ⟨staged, hpart, hsize.symm, ?_⟩
  have hpartSize : partSize Faults.none t = offset := by simp [partSize, Faults.none, hpart, hsize]
  -- nothing is left to read, so the append succeeds without reading
  have hlimit : total - offset = 0 := by omega
  have hends : (body.limit 0).Ends := by cases body <;> simp [Stream.limit]
  have hpublish : ¬ offset < total := by omega
  have hfinalize : ¬ (Faults.none.hash = true ∨ Faults.none.rename = true) := by decide
  rw [resumeUpload, if_neg (by decide)]
  dsimp only
  rw [hpartSize, if_neg (not_not.mpr rfl), hlimit, appendStream_none]
  simp [hends, hpublish, finishUpload, finalizePart, hpart, hfinalize]

/-- **A chunk publishes the declared length exactly when the staging file is not longer.** The
request has the headers of a chunk; the system calls may fail, except for the `stat` that tells the
size of the staging file. -/
theorem handleUploadResume_keepsLength_iff (sha256 : Bytes → Digest) (r : FileRequest) (d : Disk)
    (dest : Path) (offset total : ℕ) (h : parseResume r = .ok (dest, offset, total)) :
    (∀ faults : Faults, faults.statPart = false →
      KeepsLength offset total r.body (d.target dest) (handleUploadResume faults sha256 r d).1
        ((handleUploadResume faults sha256 r d).2.target dest)) ↔
      (offset = ((d.target dest).part.getD []).length → offset ≤ total) := by
  have hhandle (faults : Faults) : handleUploadResume faults sha256 r d =
      d.handle dest (resumeUpload dest.base faults sha256 offset total r.body) := by
    rw [handleUploadResume, h]
  simp only [hhandle, Disk.handle, Disk.target_setTarget]
  constructor
  · intro hkeeps hsize
    by_contra hlt
    obtain ⟨staged, hpart, hlen, hrun⟩ :=
      @resumeUpload_overlong sha256 dest.base offset total r.body (d.target dest) hsize
        (not_le.mp hlt)
    obtain ⟨file, hfile, htotal, -, -⟩ := (hrun ▸ hkeeps Faults.none rfl).published rfl rfl
    rw [writeSidecar_file, Option.some.injEq] at hfile
    subst hfile
    omega
  · intro hle faults hstat
    exact (resumeUpload_spec dest.base faults sha256 offset total r.body
      (d.target dest)).keepsLength hstat hle

/-- A chunk of one byte at offset three. -/
def overlongRequest : FileRequest := ⟨"images", "a.wim", ['1'], ['3'], []⟩

/-- Three bytes staged by an upload that declared more. -/
def overlongDisk : Disk :=
  Disk.setTarget Disk.empty ["images", "a.wim"] ⟨none, some [1, 2, 3], none⟩

theorem parseResume_overlong : parseResume overlongRequest = .ok (["images", "a.wim"], 3, 1) := by
  rfl

theorem handleUploadResume_keepsLength_iff_overlong :
    (∀ faults : Faults, faults.statPart = false →
      KeepsLength 3 1 overlongRequest.body (overlongDisk.target ["images", "a.wim"])
        (handleUploadResume faults sampleDigest overlongRequest overlongDisk).1
        ((handleUploadResume faults sampleDigest overlongRequest overlongDisk).2.target
          ["images", "a.wim"])) ↔
      (3 = ((overlongDisk.target ["images", "a.wim"]).part.getD []).length → 3 ≤ 1) :=
  handleUploadResume_keepsLength_iff sampleDigest overlongRequest overlongDisk _ 3 1
    parseResume_overlong

/-- Three bytes are published as a file of one. -/
theorem overlong_published :
    ∃ (sha256 : Bytes → Digest) (r : FileRequest) (d : Disk) (dest : Path) (offset total : ℕ),
      parseResume r = .ok (dest, offset, total) ∧
        ¬ KeepsLength offset total r.body (d.target dest)
          (handleUploadResume Faults.none sha256 r d).1
          ((handleUploadResume Faults.none sha256 r d).2.target dest) := by
  refine ⟨sampleDigest, overlongRequest, overlongDisk, _, 3, 1, parseResume_overlong, fun h => ?_⟩
  have htarget : overlongDisk.target ["images", "a.wim"] = ⟨none, some [1, 2, 3], none⟩ :=
    Disk.target_setTarget _ _ _
  rw [handleUploadResume, parseResume_overlong] at h
  simp only [Disk.handle, Disk.target_setTarget, htarget] at h
  obtain ⟨staged, hpart, -, hrun⟩ := @resumeUpload_overlong sampleDigest "a.wim" 3 1
    overlongRequest.body ⟨none, some [1, 2, 3], none⟩ rfl (by decide)
  obtain rfl : [1, 2, 3] = staged := Option.some.inj hpart
  obtain ⟨file, hfile, hlen, -, -⟩ := (hrun ▸ h).published rfl rfl
  rw [writeSidecar_file, Option.some.injEq] at hfile
  subst hfile
  exact absurd hlen (by decide)

end WinDep.Admin
