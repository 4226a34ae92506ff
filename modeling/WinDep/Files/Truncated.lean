/-
# Uploads that break off

A body that is sent in one request is read until the stream ends. A stream ends
when the declared length has been delivered, and also when the peer goes away, so
the end alone does not tell a complete body from a truncated one. The chunk
handler counts its bytes against the declared length; the handler of a whole
upload does not, and publishes what it got.
-/

import WinDep.Files.Outcomes

namespace WinDep.Fs

open Admin FileTree

variable {t t' : FileTree} {dest : Path} {sha256 : Bytes → Digest} {r : FileRequest}
  {declared received : Bytes} {reply : Reply}

/-- What an upload with a declared body promises, of which some bytes were received. -/
structure PublishesWhole (declared received : Bytes) (t : FileTree) (dest : Path) (reply : Reply)
    (t' : FileTree) : Prop where
  published : reply.status = 201 → received.length = declared.length ∧
    t'.node dest = some (.file declared) ∧ t'.node (dest.withExt partExt) = none
  otherwise : reply.status ≠ 201 → t'.node dest = t.node dest ∧
    t'.node (dest.withExt sidecarExt) = t.node (dest.withExt sidecarExt) ∧
    ∀ b, t'.node (dest.withExt partExt) ≠ some (.file b)

theorem publishesWhole_of_not_puttable (htarget : targetPath r = .ok dest) (hne : dest ≠ [])
    (h : ¬ Puttable t dest r.body) :
    PublishesWhole declared received t dest (exec (handleUpload sha256 r) t).1
      (exec (handleUpload sha256 r) t).2 :=
  ⟨fun hstatus => absurd hstatus (exec_handleUpload_failed sha256 htarget hne h).1,
    fun _ => exec_handleUpload_failed_path sha256 htarget hne h⟩

theorem publishesWhole_of_complete (htarget : targetPath r = .ok dest) (hne : dest ≠ [])
    (h : Puttable t dest r.body) (hdeclared : r.body.bytes <+: declared)
    (hlen : r.body.bytes.length = declared.length) :
    PublishesWhole declared r.body.bytes t dest (exec (handleUpload sha256 r) t).1
      (exec (handleUpload sha256 r) t).2 := by
  obtain ⟨hreply, huploaded⟩ := exec_handleUpload sha256 htarget hne h
  refine ⟨fun _ => ⟨hlen, ?_, huploaded.part⟩, fun hstatus => absurd ?_ hstatus⟩
  · rw [huploaded.file, hdeclared.eq_of_length hlen]
  · rw [hreply]
    rfl

/-- **A whole upload is published exactly when the stream cannot end early.** Unless something is
in the way, or the stream fails, all declared bytes must have been received. -/
theorem handleUpload_publishesWhole_iff (sha256 : Bytes → Digest) (r : FileRequest) (t : FileTree)
    (dest : Path) (declared : Bytes) (htarget : targetPath r = .ok dest)
    (hdeclared : r.body.bytes <+: declared) :
    PublishesWhole declared r.body.bytes t dest (exec (handleUpload sha256 r) t).1
        (exec (handleUpload sha256 r) t).2 ↔
      (Puttable t dest r.body → r.body.bytes.length = declared.length) := by
  have hne : dest ≠ [] := ne_nil_of_resolvePath (resolvePath_of_targetPath htarget)
  constructor
  · intro hwhole hput
    obtain ⟨hreply, -⟩ := exec_handleUpload sha256 htarget hne hput
    exact (hwhole.published (by rw [hreply]; rfl)).1
  · intro hlen
    by_cases hput : Puttable t dest r.body
    · exact publishesWhole_of_complete htarget hne hput hdeclared (hlen hput)
    · exact publishesWhole_of_not_puttable htarget hne hput

/-- Two bytes are declared, and the peer goes away after the first. -/
def brokenUpload : FileRequest := ⟨"images", "a.wim", [], [], [⟨[1], .eof⟩]⟩

theorem handleUpload_publishesWhole_iff_broken :
    PublishesWhole [1, 2] brokenUpload.body.bytes FileTree.empty ["images", "a.wim"]
        (exec (handleUpload sampleDigest brokenUpload) FileTree.empty).1
        (exec (handleUpload sampleDigest brokenUpload) FileTree.empty).2 ↔
      (Puttable FileTree.empty ["images", "a.wim"] brokenUpload.body →
        brokenUpload.body.bytes.length = [1, 2].length) :=
  handleUpload_publishesWhole_iff sampleDigest brokenUpload FileTree.empty _ [1, 2] rfl
    (by decide)

/-- The first byte is published as the whole file. -/
theorem broken_published : ∃ (sha256 : Bytes → Digest) (r : FileRequest) (t : FileTree)
    (dest : Path) (declared : Bytes), targetPath r = .ok dest ∧ r.body.bytes <+: declared ∧
      ¬ PublishesWhole declared r.body.bytes t dest (exec (handleUpload sha256 r) t).1
        (exec (handleUpload sha256 r) t).2 := by
  refine ⟨sampleDigest, brokenUpload, FileTree.empty, _, [1, 2], rfl, by decide, fun h => ?_⟩
  obtain ⟨hreply, -⟩ := exec_handleUpload sampleDigest (r := brokenUpload) rfl (by decide)
    (puttable_empty (by decide) (by decide))
  exact absurd (h.published (by rw [hreply]; rfl)).1 (by decide)

end WinDep.Fs
