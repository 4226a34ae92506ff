/-
# One file, one request at a time

A client uploads one file to a path that was empty. Its requests may be repeated,
stale, cut short or fail while they are written, in any order. The staging file
stays a prefix of the file and what is published is the file, because a chunk is
appended only where the staging file ends.
-/

import WinDep.Data.Runs
import WinDep.Upload.Handlers

namespace WinDep.Admin

open Runs

/-! ## The invariant -/

/-- The sidecar records the digest of the contents. -/
def Recorded (sha256 : Bytes → Digest) (b : Bytes) (t : Target) : Prop :=
  readSidecar t.sidecar = hexDigits (sha256 b).1

/-- The staging file is a prefix of `F`. -/
def Staged (F : Bytes) (t : Target) : Prop := ∀ p, t.part = some p → p <+: F

/-- What is published is `F`, with its digest. -/
def Published (sha256 : Bytes → Digest) (F : Bytes) (t : Target) : Prop :=
  ∀ G, t.file = some G → G = F ∧ Recorded sha256 F t

variable {base : String} {faults : Faults} {sha256 : Bytes → Digest} {F p written : Bytes}
  {offset total n : ℕ} {body : Stream} {t t' : Target} {reply : Reply}

theorem staged_absent : Staged F Target.absent := by
  rintro p ⟨⟩

theorem published_absent : Published sha256 F Target.absent := by
  rintro G ⟨⟩

theorem staged_none (h : t.part = none) : Staged F t := by
  intro p hp
  simp [h] at hp

theorem Staged.getD (h : Staged F t) : t.part.getD [] <+: F := by
  cases hpart : t.part with
  | none => exact List.nil_prefix
  | some p => exact h p hpart

/-- Bytes of `F` from where a prefix ends, appended to it, give a prefix. -/
theorem prefix_append (hp : p <+: F) (hwritten : written <+: F.drop p.length) :
    p ++ written <+: F := by
  have hsplit : F = p ++ F.drop p.length := (List.prefix_iff_eq_append.mp hp).symm
  calc p ++ written <+: p ++ F.drop p.length := (List.prefix_append_right_inj p).mpr hwritten
    _ = F := hsplit.symm

theorem partSize_eq (hstat : faults.statPart = false) :
    partSize faults t = (t.part.getD []).length := by
  simp [partSize, hstat]

/-- What a chunk appends belongs after the staging file. -/
theorem Staged.append (h : Staged F t) (hstat : faults.statPart = false)
    (hoffset : offset = partSize faults t) (hbody : body.bytes <+: F.drop offset)
    (hwritten : written <+: body.bytes.take n) : t.part.getD [] ++ written <+: F := by
  rw [partSize_eq hstat] at hoffset
  subst hoffset
  exact prefix_append h.getD ((hwritten.trans (List.take_prefix n _)).trans hbody)

/-- A staging file that is as long as the declared length is the file. -/
theorem eq_of_prefix_of_length_le (h : p <+: F) (hle : F.length ≤ p.length) : p = F :=
  h.eq_of_length (le_antisymm h.length_le hle)

theorem recorded_writeSidecar (hsidecar : faults.sidecar = .none) :
    Recorded sha256 F (writeSidecar base faults (sha256 F) t) := by
  unfold Recorded writeSidecar
  rw [hsidecar]
  exact readSidecar_sidecarLine (sha256 F)

/-! ## One chunk -/

theorem Resumed.staged (h : Resumed base faults sha256 offset total body t reply t')
    (hstat : faults.statPart = false) (hbody : body.bytes <+: F.drop offset)
    (hstaged : Staged F t) : Staged F t' := by
  -- only an accepted chunk appends, and its offset is where the staging file ends
  cases h with
  | refused => exact hstaged
  | mismatch => exact hstaged
  | failed hoffset _ hwritten ht' =>
    rcases ht' with rfl | rfl
    · rintro _ ⟨⟩
      exact hstaged.append hstat hoffset hbody hwritten
    · exact hstaged
  | more hoffset hwritten =>
    rintro _ ⟨⟩
    exact hstaged.append hstat hoffset hbody (by rw [hwritten])
  | unpublished hoffset _ hwritten =>
    rintro _ ⟨⟩
    exact hstaged.append hstat hoffset hbody (by rw [hwritten])
  | published => exact staged_none (writeSidecar_part _)

/-- A chunk that completes the staging file completes it to `F`. -/
theorem Staged.complete (h : Staged F t) (hstat : faults.statPart = false)
    (hoffset : offset = partSize faults t) (hbody : body.bytes <+: F.drop offset)
    (hwritten : written = body.bytes.take (F.length - offset))
    (hle : F.length ≤ offset + written.length) : t.part.getD [] ++ written = F := by
  have htake : written <+: body.bytes.take (F.length - offset) := by rw [hwritten]
  have hprefix := h.append hstat hoffset hbody htake
  -- a prefix of full length is the file
  apply eq_of_prefix_of_length_le hprefix
  rwa [List.length_append, ← partSize_eq hstat, ← hoffset]

theorem Resumed.published_file
    (h : Resumed base faults sha256 offset F.length body t reply t')
    (hstat : faults.statPart = false) (hsidecar : faults.sidecar = .none)
    (hbody : body.bytes <+: F.drop offset) (hstaged : Staged F t)
    (hpublished : Published sha256 F t) : Published sha256 F t' := by
  -- only the last case publishes, and then the staging file is complete
  cases h with
  | refused => exact hpublished
  | mismatch => exact hpublished
  | failed hoffset _ hwritten ht' => rcases ht' with rfl | rfl <;> exact hpublished
  | more => exact hpublished
  | unpublished => exact hpublished
  | @published written staged hoffset hwritten hstaged' hle =>
    obtain rfl : staged = F :=
      hstaged'.trans (hstaged.complete hstat hoffset hbody hwritten hle)
    intro G hG
    rw [writeSidecar_file, Option.some.injEq] at hG
    exact ⟨hG.symm, recorded_writeSidecar hsidecar⟩

theorem staged_deleteFile (h : Staged F t) : Staged F (deleteFile faults t).2 := by
  rcases (deleteFile_spec faults t).1 with hpart | hpart
  · intro p hp
    exact h p (hpart ▸ hp)
  · exact staged_none hpart

theorem published_deleteFile (h : Published sha256 F t) :
    Published sha256 F (deleteFile faults t).2 := by
  intro G hG
  rcases (deleteFile_spec faults t).2 with hnone | ⟨hfile, hsidecar⟩
  · simp [hnone] at hG
  · rw [hfile] at hG
    rw [Recorded, hsidecar]
    exact h G hG

/-! ## Requests of one client -/

/-- A piece of `F`: a body that follows the file from the stated offset, and may be cut short. -/
structure Piece (F : Bytes) where
  offset : ℕ
  offset_le : offset ≤ F.length
  body : Stream
  body_prefix : body.bytes <+: F.drop offset

/-- A piece that is sent, with the writes of it that fail. -/
structure Chunk (F : Bytes) extends Piece F where
  write : ℕ → Option ℕ

inductive Request (F : Bytes)
  | head
  | delete
  | patch (chunk : Chunk F)

def Chunk.outcome (chunk : Chunk F) : Faults := { Faults.none with write := chunk.write }

section

variable (base : String) (sha256 : Bytes → Digest)

def Chunk.handle (chunk : Chunk F) (t : Target) : Reply × Target :=
  resumeUpload base chunk.outcome sha256 chunk.offset F.length chunk.body t

def Request.handle (r : Request F) (t : Target) : Reply × Target :=
  match r with
  | .head => (uploadOffset Faults.none t, t)
  | .delete => deleteFile Faults.none t
  | .patch chunk => chunk.handle base sha256 t

/-- The files after the requests, from an empty path. -/
def afterRequests (rs : List (Request F)) : Target :=
  run (fun t r => (r.handle base sha256 t).2) rs Target.absent

end

/-! ## Requests as they arrive -/

section

variable {category rel : String} {dest : Path} {d : Disk}

/-- Send a request to the server; the numbers of a chunk are sent in decimal. -/
def Request.send (sha256 : Bytes → Digest) (category rel : String) (r : Request F) (d : Disk) :
    Reply × Disk :=
  match r with
  | .head => (handleUploadOffset Faults.none ⟨category, rel, [], [], []⟩ d, d)
  | .delete => handleDelete Faults.none ⟨category, rel, [], [], []⟩ d
  | .patch chunk =>
    handleUploadResume chunk.outcome sha256
      ⟨category, rel, Nat.toDigits 10 F.length, Nat.toDigits 10 chunk.offset, chunk.body⟩ d

theorem Request.send_eq (hpath : resolvePath category rel = some dest)
    (hrel : ¬ (rel = "" ∨ rel.toList.getLast? = some '/')) (hF : F.length < 2 ^ 63)
    (r : Request F) :
    (r.send sha256 category rel d).1 = (r.handle dest.base sha256 (d.target dest)).1 ∧
      (r.send sha256 category rel d).2.target dest =
        (r.handle dest.base sha256 (d.target dest)).2 := by
  cases r with
  | head => simp [Request.send, Request.handle, handleUploadOffset, hpath]
  | delete =>
    rw [Request.send, handleDelete_eq ⟨category, rel, [], [], []⟩ hpath hrel]
    exact ⟨rfl, Disk.target_setTarget _ _ _⟩
  | patch chunk =>
    rw [Request.send, handleUploadResume_eq hpath hrel hF (chunk.offset_le.trans_lt hF)]
    exact ⟨rfl, Disk.target_setTarget _ _ _⟩

/-- Requests that arrive by their URL do to the files of their path what the invariant is about. -/
theorem target_run_send (hpath : resolvePath category rel = some dest)
    (hrel : ¬ (rel = "" ∨ rel.toList.getLast? = some '/')) (hF : F.length < 2 ^ 63)
    (rs : List (Request F)) (d : Disk) :
    (run (fun d r => (r.send sha256 category rel d).2) rs d).target dest =
      run (fun t r => (r.handle dest.base sha256 t).2) rs (d.target dest) := by
  induction rs generalizing d with
  | nil => rfl
  | cons r rs ih => rw [run_cons, run_cons, ih, (r.send_eq hpath hrel hF).2]

end

/-! ## What the requests keep -/

/-- What a chunk request promises about its reply and the files it leaves. -/
structure ChunkAnswer (F : Bytes) (base : String) (sha256 : Bytes → Digest) (chunk : Chunk F)
    (t : Target) (reply : Reply) (t' : Target) : Prop where
  mismatch : chunk.offset ≠ (t.part.getD []).length →
    reply.status = 409 ∧ reply.offset = some (t.part.getD []).length ∧ t' = t
  more : reply.status = 204 → ∃ p, t'.part = some p ∧ reply.offset = some p.length
  complete : reply.complete = some true →
    t.part.getD [] ++ chunk.body.bytes = F ∧
      t' = ⟨some F, none, some (sidecarLine base (sha256 F))⟩

/-- The invariant of the protocol. -/
def Safe (sha256 : Bytes → Digest) (F : Bytes) (t : Target) : Prop :=
  Staged F t ∧ Published sha256 F t

theorem chunk_resumed (chunk : Chunk F) (t : Target) :
    Resumed base chunk.outcome sha256 chunk.offset F.length chunk.body t
      (chunk.handle base sha256 t).1 (chunk.handle base sha256 t).2 :=
  resumeUpload_spec _ _ _ _ _ _ _

/-- Every request keeps the invariant. -/
theorem Safe.handle (h : Safe sha256 F t) (r : Request F) :
    Safe sha256 F (r.handle base sha256 t).2 := by
  obtain ⟨hstaged, hpublished⟩ := h
  cases r with
  | head => exact ⟨hstaged, hpublished⟩
  | delete => exact ⟨staged_deleteFile hstaged, published_deleteFile hpublished⟩
  | patch chunk =>
    exact ⟨(chunk_resumed chunk t).staged rfl chunk.body_prefix hstaged,
      (chunk_resumed chunk t).published_file rfl rfl chunk.body_prefix hstaged hpublished⟩

theorem safe_afterRequests (rs : List (Request F)) :
    Safe sha256 F (afterRequests base sha256 rs) :=
  invariant rs (fun _ r h => h.handle r) ⟨staged_absent, published_absent⟩

/-- The same of requests that arrive by their URL, on a server that has nothing at the path. -/
theorem safe_sent {category rel : String} {dest : Path} {d : Disk}
    (hpath : resolvePath category rel = some dest)
    (hrel : ¬ (rel = "" ∨ rel.toList.getLast? = some '/')) (hF : F.length < 2 ^ 63)
    (hempty : d.target dest = Target.absent) (rs : List (Request F)) :
    Safe sha256 F ((run (fun d r => (r.send sha256 category rel d).2) rs d).target dest) := by
  rw [target_run_send hpath hrel hF, hempty]
  exact safe_afterRequests rs

/-- The body of a chunk is never longer than what is left of the file. -/
theorem Chunk.take_body (chunk : Chunk F) :
    chunk.body.bytes.take (F.length - chunk.offset) = chunk.body.bytes := by
  apply List.take_of_length_le
  rw [← List.length_drop]
  exact chunk.body_prefix.length_le

theorem Resumed.answer {chunk : Chunk F}
    (h : Resumed base chunk.outcome sha256 chunk.offset F.length chunk.body t reply t')
    (hstaged : Staged F t) : ChunkAnswer F base sha256 chunk t reply t' := by
  have hsize : partSize chunk.outcome t = (t.part.getD []).length := partSize_eq rfl
  cases h with
  | refused hmkdir => simp [Chunk.outcome, Faults.none] at hmkdir
  | mismatch hoffset =>
    exact ⟨fun _ => ⟨rfl, congrArg some hsize, rfl⟩, by simp [Reply.error], by simp [Reply.error]⟩
  | failed hoffset =>
    exact ⟨fun hne => absurd (hoffset.trans hsize) hne, by simp [Reply.error],
      by simp [Reply.error]⟩
  | more hoffset hwritten =>
    refine ⟨fun hne => absurd (hoffset.trans hsize) hne, fun _ => ⟨_, rfl, ?_⟩, by simp⟩
    rw [List.length_append, ← hsize, ← hoffset]
  | unpublished hoffset _ hwritten =>
    exact ⟨fun hne => absurd (hoffset.trans hsize) hne, by simp [Reply.error],
      by simp [Reply.error]⟩
  | @published written staged hoffset hwritten hstaged' hle =>
    refine ⟨fun hne => absurd (hoffset.trans hsize) hne, by simp, fun _ => ?_⟩
    -- the staging file and the whole body make up the file
    have hF := hstaged.complete rfl hoffset chunk.body_prefix hwritten hle
    rw [hwritten, chunk.take_body] at hF
    rw [hwritten, chunk.take_body, hF] at hstaged'
    rw [hstaged']
    exact ⟨hF, rfl⟩

/-- **Sequential safety.** After any requests on a path that was empty, the staging file is a
prefix of the file, what is published is the file with its digest, and whatever chunk comes next
is answered truthfully. -/
theorem afterRequests_safe (base : String) (sha256 : Bytes → Digest) (F : Bytes)
    (rs : List (Request F)) :
    Staged F (afterRequests base sha256 rs) ∧ Published sha256 F (afterRequests base sha256 rs) ∧
      ∀ chunk : Chunk F, ChunkAnswer F base sha256 chunk (afterRequests base sha256 rs)
        (chunk.handle base sha256 (afterRequests base sha256 rs)).1
        (chunk.handle base sha256 (afterRequests base sha256 rs)).2 := by
  have hsafe : Safe sha256 F (afterRequests base sha256 rs) := safe_afterRequests rs
  exact ⟨hsafe.1, hsafe.2, fun chunk => (chunk_resumed chunk _).answer hsafe.1⟩

end WinDep.Admin
