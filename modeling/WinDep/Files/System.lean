/-
# File systems with faults

A file system may fail any call, or do a part of its work. It leaves what a call
does not touch, and so does every program. What a copy counts is what it read.
-/

import WinDep.Files.Outcomes

namespace WinDep.Fs

open Admin Program

/-- A file system that serves calls. A call may fail or do a part of its work, but leaves what it
does not touch; making folders makes nothing else; and what is missing has no size. -/
structure FileSystem (σ : Type) where
  serve : (c : FsCall) → σ → c.Answer × σ
  node : σ → Path → Option Node
  frame : ∀ c s q, ¬ c.Touches q → node (serve c s).2 q = node s q
  mkdirAll_makes : ∀ p s q, node (serve (.mkdirAll p) s).2 q = node s q ∨
    node s q = none ∧ node (serve (.mkdirAll p) s).2 q = some .folder
  stat_missing : ∀ p s, node s p = none → StatResult.size (serve (.stat p) s).1 = 0

/-- The file tree without faults. -/
def treeSystem : FileSystem FileTree where
  serve := FileTree.serve
  node := FileTree.node
  frame _ _ _ h := FileTree.node_serve h
  mkdirAll_makes p t q := by
    simp only [FileTree.serve]
    rcases FileTree.makeFolders_cases (t := t) (p := p) with ⟨-, hnone⟩ | ⟨t', hsome, hfree, hnode⟩
    · exact Or.inl (by rw [hnone])
    · rw [hsome]
      exact folders_kept hfree hnode q
  stat_missing p t hp := by
    simp only [FileTree.serve, FileTree.statResult]
    rw [hp]
    dsimp only
    split_ifs <;> rfl

/-! ## Programs on any file system -/

variable {σ α : Type} {fs : FileSystem σ} {s : σ} {m : Fs α} {S : Path → Prop}
  {p q dest : Path} {src : Stream} {sha256 : Bytes → Digest}

/-- A program leaves what it does not touch. -/
theorem node_run (fs : FileSystem σ) (s : σ) (h : m.Always (Touching S)) (hq : ¬ S q) :
    fs.node (m.run fs.serve s).2 q = fs.node s q := by
  let Same : σ → Prop := fun s' => fs.node s' q = fs.node s q
  have hsame : Same (m.run fs.serve s).2 := by
    apply h.run_invariant
    · intro c s' hc hs'
      exact (fs.frame c s' q fun htouch => hq (hc q htouch)).trans hs'
    · rfl
  exact hsame

/-- A copy that goes well has read the stream to its end, and counted its bytes. -/
theorem run_copyChunks (src : Stream) {pending total n : ℕ}
    (h : ((copyChunks p src pending total).run fs.serve s).1 = (n, true)) :
    src.Ends ∧ n = total + src.bytes.length := by
  induction src generalizing s pending total with
  | nil =>
    rw [copyChunks] at h
    simp only [run_bind, run_pure, Prod.mk.injEq] at h
    exact ⟨trivial, h.1.symm⟩
  | cons r rs ih =>
    rw [copyChunks, run_bind] at h
    cases hdata : ((writeData p r.data pending).run fs.serve s).1 with
    | none =>
      rw [hdata] at h
      simp at h
    | some pending' =>
      rw [hdata] at h
      cases hend : r.ending with
      | more =>
        simp only [hend] at h
        obtain ⟨hends, hn⟩ := ih h
        refine ⟨Or.inr ⟨hend, hends⟩, ?_⟩
        simp [Stream.bytes, hend, hn, Nat.add_assoc]
      | eof =>
        simp only [hend, run_bind, run_pure, Prod.mk.injEq] at h
        exact ⟨Or.inl hend, by simp [Stream.bytes, hend, h.1]⟩
      | failed => simp [hend] at h

theorem run_appendStream {limit n : ℕ}
    (h : ((appendStream p src limit).run fs.serve s).1 = (n, true)) :
    (src.limit limit).Ends ∧ n = min limit src.bytes.length := by
  unfold appendStream at h
  rw [run_bind] at h
  split_ifs at h
  · simp only [run_bind, run_pure, Prod.mk.injEq, Bool.and_eq_true] at h
    obtain ⟨hn, hok, -⟩ := h
    obtain ⟨hends, hcount⟩ := run_copyChunks _ (Prod.ext hn hok)
    rw [Stream.bytes_limit, List.length_take, Nat.zero_add] at hcount
    exact ⟨hends, hcount⟩
  · simp at h

/-- Publishing is answered with success or with an error of the server. -/
theorem run_finishUpload (fs : FileSystem σ) (s : σ) (sha256 : Bytes → Digest) (newSize : ℕ)
    (tmp dest : Path) :
    ((finishUpload sha256 newSize tmp dest).run fs.serve s).1.status = 200 ∨
      ((finishUpload sha256 newSize tmp dest).run fs.serve s).1.status = 500 := by
  unfold finishUpload
  rw [run_bind]
  cases ((finalizePart sha256 tmp dest).run fs.serve s).1 with
  | none => exact Or.inr rfl
  | some sum => exact Or.inl rfl

/-! ## Chunks -/

/-- Making folders leaves an entry, or makes it a folder that was missing. -/
theorem run_mkdirAll (fs : FileSystem σ) (s : σ) (p q : Path) :
    fs.node ((mkdirAll p).run fs.serve s).2 q = fs.node s q ∨
    fs.node s q = none ∧ q <+: p ∧ fs.node ((mkdirAll p).run fs.serve s).2 q = some .folder := by
  by_cases htouch : (FsCall.mkdirAll p).Touches q
  · exact (fs.mkdirAll_makes p s q).imp_right fun ⟨hnone, hfolder⟩ => ⟨hnone, htouch.2, hfolder⟩
  · exact Or.inl (fs.frame _ s q htouch)

variable {r : FileRequest} {offset total : ℕ}

/-- A chunk that is answered with 204 or 409 makes folders at most, beside its staging file. -/
theorem run_chunk (hparse : parseResume r = .ok (dest, offset, total))
    (hstatus : ((handleUploadResume sha256 r).run fs.serve s).1.status = 204 ∨
      ((handleUploadResume sha256 r).run fs.serve s).1.status = 409)
    (hq : q ≠ dest.withExt partExt) :
    fs.node ((handleUploadResume sha256 r).run fs.serve s).2 q = fs.node s q ∨
      fs.node s q = none ∧ q <+: dest.dropLast ∧
        fs.node ((handleUploadResume sha256 r).run fs.serve s).2 q = some .folder := by
  have hmade := run_mkdirAll fs s dest.dropLast q
  rw [handleUploadResume, hparse] at hstatus ⊢
  simp only [run_bind] at hstatus ⊢
  cases hok : ((mkdirAll dest.dropLast).run fs.serve s).1 with
  | false => simp [hok, Reply.error] at hstatus
  | true =>
    set s₁ := ((mkdirAll dest.dropLast).run fs.serve s).2
    simp only [hok, if_true, run_bind] at hstatus ⊢
    have hstat : (stat (dest.withExt partExt)).Always (Touching fun _ => False) :=
      always_perform.mpr fun _ htouch => htouch
    have hs₂ := node_run fs s₁ hstat (q := q) id
    set found := ((stat (dest.withExt partExt)).run fs.serve s₁).1
    set s₂ := ((stat (dest.withExt partExt)).run fs.serve s₁).2
    split_ifs at hstatus ⊢ with hoffset
    · -- the offsets differ: 409, and nothing is written
      rw [run_pure, hs₂]
      exact hmade
    · simp only [run_bind] at hstatus ⊢
      have happend : (appendStream (dest.withExt partExt) r.body
          (total - StatResult.size found)).Always (Touching (· = dest.withExt partExt)) :=
        always_appendStream rfl
      have hs₃ := node_run fs s₂ happend hq
      set appended := (appendStream (dest.withExt partExt) r.body
        (total - StatResult.size found)).run fs.serve s₂
      split_ifs at hstatus ⊢ with hwritten hless
      · rw [run_pure, hs₃, hs₂]
        exact hmade
      · -- the upload is complete, and its publishing is answered otherwise
        have hfinish := run_finishUpload fs appended.2 sha256
          (StatResult.size found + appended.1.1) (dest.withExt partExt) dest
        omega
      · simp [Reply.error] at hstatus

/-- A first chunk that is the whole upload, or that breaks off, is not answered so. -/
theorem run_whole (hparse : parseResume r = .ok (dest, 0, total))
    (hpart : fs.node s (dest.withExt partExt) = none)
    (hbody : ¬ (r.body.limit total).Ends ∨ total ≤ r.body.bytes.length) :
    ¬ (((handleUploadResume sha256 r).run fs.serve s).1.status = 204 ∨
      ((handleUploadResume sha256 r).run fs.serve s).1.status = 409) := by
  have hmade :
      fs.node ((mkdirAll dest.dropLast).run fs.serve s).2 (dest.withExt partExt) = none := by
    rcases run_mkdirAll fs s dest.dropLast (dest.withExt partExt) with hsame | ⟨-, hbelow, -⟩
    · rw [hsame, hpart]
    · exact absurd hbelow not_prefix_dropLast_withExt
  rw [handleUploadResume, hparse]
  simp only [run_bind]
  cases hok : ((mkdirAll dest.dropLast).run fs.serve s).1 with
  | false => simp [Reply.error]
  | true =>
    have hsize : StatResult.size ((stat (dest.withExt partExt)).run fs.serve
        ((mkdirAll dest.dropLast).run fs.serve s).2).1 = 0 := fs.stat_missing _ _ hmade
    simp only [if_true, run_bind, hsize, ne_eq, not_true_eq_false, if_false, Nat.sub_zero,
      Nat.zero_add]
    set s₂ :=
      ((stat (dest.withExt partExt)).run fs.serve ((mkdirAll dest.dropLast).run fs.serve s).2).2
    cases happended : ((appendStream (dest.withExt partExt) r.body total).run fs.serve s₂).1 with
    | mk n ok =>
      cases ok with
      | false => simp [Reply.error]
      | true =>
        -- all of the body was written, so it is not short of the whole
        obtain ⟨hends, hn⟩ := run_appendStream happended
        have hwhole : total ≤ r.body.bytes.length := hbody.resolve_left fun h => h hends
        have hless : ¬ n < total := by omega
        have hfinish := run_finishUpload fs
          ((appendStream (dest.withExt partExt) r.body total).run fs.serve s₂).2 sha256 n
          (dest.withExt partExt) dest
        simp only [if_true, hless, if_false]
        omega

/-! ## Listings -/

/-- A listing that gains no row: entries stay, or folders appear where they are not listed. -/
theorem rowOf_eq {node node' : Path → Option Node}
    (hp : reserved p.base = false → node' p = node p)
    (hside : reserved p.base = false → contentOf (node' (p.withExt sidecarExt)) =
      contentOf (node (p.withExt sidecarExt))) : rowOf node' p = rowOf node p := by
  unfold rowOf
  cases hfree : reserved p.base with
  | true => rfl
  | false => rw [hp hfree, hside hfree]

end WinDep.Fs
