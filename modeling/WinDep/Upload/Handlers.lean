/-
# Upload handlers

A file is published in one request, or in chunks that a client sends one after
another. The staging file holds the chunks received so far; its size is the
offset the next chunk must state. The chunk that reaches the declared length
publishes the file.
-/

import WinDep.Files.Paths
import WinDep.Data.Number

namespace WinDep.Admin

/-! ## The handlers on one path -/

/-- The size of the staging file as `os.Stat` reports it; a failed call counts as absent. -/
def partSize (faults : Faults) (t : Target) : ℕ :=
  if faults.statPart then 0 else (t.part.getD []).length

/-- Answer how many bytes are there. -/
def uploadOffset (faults : Faults) (t : Target) : Reply :=
  match t.file with
  | some b =>
    if faults.statFile then ⟨200, "", some (partSize faults t), some false⟩
    else ⟨200, "", some b.length, some true⟩
  | none => ⟨200, "", some (partSize faults t), some false⟩

/-- Delete the published file with its companions, or the staging file of an upload that never
finished. -/
def deleteFile (faults : Faults) (t : Target) : Reply × Target :=
  if faults.statFile then (.error 500 "stat failed", t)
  else
    match t.file with
    | none =>
      -- discarding the staging file aborts an upload
      if t.part.isSome ∧ ¬ faults.statPart then
        (.send 204, { t with part := if faults.removePart then t.part else none })
      else (.error 404 "not found", t)
    | some _ =>
      if faults.removeFile then (.error 500 "delete failed", t)
      else (.send 204,
        { file := none
          part := if faults.removePart then t.part else none
          sidecar := if faults.removeSidecar then t.sidecar else none })

section

variable (base : String) (faults : Faults) (sha256 : Bytes → Digest)

/-- Publish the whole body. -/
def putFile (body : Stream) (t : Target) : Reply × Target :=
  if faults.mkdirAll then (.error 500 "mkdir failed", t)
  else
    match saveStream faults sha256 body t with
    | (t, none) => (.error 500 "write failed", t)
    | (t, some sum) => (.send 201, writeSidecar base faults sum t)

/-- Publish the staging file; the header with the new size is set already. -/
def finishUpload (newSize : ℕ) (t : Target) : Reply × Target :=
  match finalizePart faults sha256 t with
  | (t, none) => ({ Reply.error 500 "finalize failed" with offset := some newSize }, t)
  | (t, some sum) => (⟨200, "", some newSize, some true⟩, writeSidecar base faults sum t)

/-- Append a chunk at the offset the client states, and publish at the declared length. -/
def resumeUpload (offset total : ℕ) (body : Stream) (t : Target) : Reply × Target :=
  if faults.mkdirAll then (.error 500 "mkdir failed", t)
  else
    let cur := partSize faults t
    -- the one check of the offset, made before the staging file is opened
    if offset ≠ cur then ({ Reply.error 409 "offset mismatch" with offset := some cur }, t)
    else
      let (t, n, ok) := appendStream faults body (total - cur) t
      let newSize := cur + n
      if ¬ ok then ({ Reply.error 500 "write failed" with offset := some newSize }, t)
      else if newSize < total then (⟨204, "", some newSize, some false⟩, t)
      else finishUpload base faults sha256 newSize t

end

/-! ## Requests -/

/-- `strconv.ParseInt` in base ten, for 64 bits. -/
def parseInt (s : List Char) : Option ℤ :=
  let (negative, ds) := match s with
    | '-' :: ds => (true, ds)
    | '+' :: ds => (false, ds)
    | ds => (false, ds)
  let n := Number.signed negative (Nat.ofDigitChars 10 ds 0)
  -- a number out of range is an error as well
  if ds ≠ [] ∧ ds.all Char.isDigit ∧ -2 ^ 63 ≤ n ∧ n < 2 ^ 63 then some n else none

/-- A request on a file: the parts of its URL, the text of its upload headers, and its body. -/
structure FileRequest where
  category : String
  rel : String
  uploadLength : List Char
  uploadOffset : List Char
  body : Stream

/-- A header that holds a number that is not negative. -/
def parseHeader (name : String) (text : List Char) : Except Reply ℕ :=
  match parseInt text with
  | some n => if n < 0 then .error (.error 400 ("missing or invalid " ++ name)) else .ok n.toNat
  | none => .error (.error 400 ("missing or invalid " ++ name))

/-- The file a request that writes names. -/
def targetPath (r : FileRequest) : Except Reply Path :=
  if r.rel = "" ∨ r.rel.toList.getLast? = some '/' then .error (.error 400 "missing file name")
  else
    match resolvePath r.category r.rel with
    | none => .error (.error 400 "unknown category")
    | some dest => .ok dest

def parseResume (r : FileRequest) : Except Reply (Path × ℕ × ℕ) := do
  let dest ← targetPath r
  let total ← parseHeader "Upload-Length" r.uploadLength
  let offset ← parseHeader "Upload-Offset" r.uploadOffset
  return (dest, offset, total)

section

variable (faults : Faults) (sha256 : Bytes → Digest) (r : FileRequest) (d : Disk)

def handleUpload : Reply × Disk :=
  match targetPath r with
  | .error reply => (reply, d)
  | .ok dest => d.handle dest (putFile dest.base faults sha256 r.body)

def handleUploadOffset : Reply :=
  match resolvePath r.category r.rel with
  | none => .error 400 "unknown category"
  | some dest => uploadOffset faults (d.target dest)

def handleUploadResume : Reply × Disk :=
  match parseResume r with
  | .error reply => (reply, d)
  | .ok (dest, offset, total) =>
    d.handle dest (resumeUpload dest.base faults sha256 offset total r.body)

def handleDelete : Reply × Disk :=
  if r.rel.toList.all (· = '/') then (.error 400 "refusing to delete category root", d)
  else
    match resolvePath r.category r.rel with
    | none => (.error 400 "unknown category", d)
    | some dest => d.handle dest (deleteFile faults)

end

/-! ## Requests that are well formed -/

section

variable {faults : Faults} {sha256 : Bytes → Digest} {category rel : String} {dest : Path}
  {offset total n : ℕ} {body : Stream} {d : Disk}

theorem resolvePath_of_targetPath {r : FileRequest} (h : targetPath r = .ok dest) :
    resolvePath r.category r.rel = some dest := by
  unfold targetPath at h
  split_ifs at h
  cases hpath : resolvePath r.category r.rel with
  | none => simp [hpath] at h
  | some dest =>
    rw [hpath] at h
    rw [Except.ok.inj h]

/-- A number sent in decimal is read back. -/
theorem parseInt_toDigits (h : n < 2 ^ 63) : parseInt (Nat.toDigits 10 n) = some (n : ℤ) := by
  have hdigit (c : Char) (hc : c ∈ Nat.toDigits 10 n) : c.isDigit = true :=
    Nat.isDigit_of_mem_toDigits (by norm_num) (by norm_num) hc
  have hne : Nat.toDigits 10 n ≠ [] := Nat.toDigits_ne_nil
  -- a digit is no sign
  rw [parseInt]
  · simp only [Nat.ofDigitChars_ten_toDigits, Number.signed, Bool.false_eq_true, if_false]
    rw [if_pos ⟨hne, List.all_eq_true.mpr hdigit, by omega, by exact_mod_cast h⟩]
  · intro ds hds
    exact absurd (hdigit '-' (by simp [hds])) (by decide)
  · intro ds hds
    exact absurd (hdigit '+' (by simp [hds])) (by decide)

theorem parseHeader_toDigits (name : String) (h : n < 2 ^ 63) :
    parseHeader name (Nat.toDigits 10 n) = .ok n := by
  rw [parseHeader, parseInt_toDigits h]
  simp

theorem handleUploadResume_eq (hpath : resolvePath category rel = some dest)
    (hrel : ¬ (rel = "" ∨ rel.toList.getLast? = some '/')) (htotal : total < 2 ^ 63)
    (hoffset : offset < 2 ^ 63) :
    handleUploadResume faults sha256
        ⟨category, rel, Nat.toDigits 10 total, Nat.toDigits 10 offset, body⟩ d =
      d.handle dest (resumeUpload dest.base faults sha256 offset total body) := by
  have hparse : parseResume ⟨category, rel, Nat.toDigits 10 total, Nat.toDigits 10 offset, body⟩ =
      .ok (dest, offset, total) := by
    rw [parseResume, targetPath, if_neg hrel]
    simp only [hpath, parseHeader_toDigits _ htotal, parseHeader_toDigits _ hoffset]
    rfl
  rw [handleUploadResume, hparse]

theorem handleDelete_eq (r : FileRequest) (hpath : resolvePath r.category r.rel = some dest)
    (hrel : ¬ (r.rel = "" ∨ r.rel.toList.getLast? = some '/')) :
    handleDelete faults r d = d.handle dest (deleteFile faults) := by
  -- a name of nothing but slashes would end in one
  have hname : ¬ r.rel.toList.all (· = '/') = true := by
    intro hall
    cases hlast : r.rel.toList.getLast? with
    | none => exact hrel (Or.inl (by simpa using hlast))
    | some c =>
      have hc := List.all_eq_true.mp hall c (List.mem_of_getLast? hlast)
      exact hrel (Or.inr (by rw [hlast, of_decide_eq_true hc]))
  rw [handleDelete, if_neg hname, hpath]

end

/-! ## What a chunk does -/

/-- The outcomes of a chunk request: its reply and the files it leaves. -/
inductive Resumed (base : String) (faults : Faults) (sha256 : Bytes → Digest) (offset total : ℕ)
    (body : Stream) (t : Target) : Reply → Target → Prop
  | refused (h : faults.mkdirAll = true) :
      Resumed base faults sha256 offset total body t (.error 500 "mkdir failed") t
  | mismatch (h : offset ≠ partSize faults t) :
      Resumed base faults sha256 offset total body t
        { Reply.error 409 "offset mismatch" with offset := some (partSize faults t) } t
  | failed {n : ℕ} {written : Bytes} {t' : Target} (h : offset = partSize faults t)
      (hfault : (appendStream faults body (total - offset) t).2.2 = false)
      (hwritten : written <+: body.bytes.take (total - offset))
      (ht' : t' = { t with part := some (t.part.getD [] ++ written) } ∨ t' = t) :
      Resumed base faults sha256 offset total body t
        { Reply.error 500 "write failed" with offset := some (offset + n) } t'
  | more {written : Bytes} (h : offset = partSize faults t)
      (hwritten : written = body.bytes.take (total - offset))
      (hlt : offset + written.length < total) :
      Resumed base faults sha256 offset total body t
        ⟨204, "", some (offset + written.length), some false⟩
        { t with part := some (t.part.getD [] ++ written) }
  | unpublished {written : Bytes} (h : offset = partSize faults t)
      (hfault : faults.hash = true ∨ faults.rename = true)
      (hwritten : written = body.bytes.take (total - offset)) :
      Resumed base faults sha256 offset total body t
        { Reply.error 500 "finalize failed" with offset := some (offset + written.length) }
        { t with part := some (t.part.getD [] ++ written) }
  | published {written staged : Bytes} (h : offset = partSize faults t)
      (hwritten : written = body.bytes.take (total - offset))
      (hstaged : staged = t.part.getD [] ++ written) (hle : total ≤ offset + written.length) :
      Resumed base faults sha256 offset total body t
        ⟨200, "", some (offset + written.length), some true⟩
        (writeSidecar base faults (sha256 staged) ⟨some staged, none, t.sidecar⟩)

variable {base : String} {faults : Faults} {sha256 : Bytes → Digest} {offset total : ℕ}
  {body : Stream} {t : Target}

theorem resumeUpload_spec (base : String) (faults : Faults) (sha256 : Bytes → Digest)
    (offset total : ℕ) (body : Stream) (t : Target) :
    Resumed base faults sha256 offset total body t
      (resumeUpload base faults sha256 offset total body t).1
      (resumeUpload base faults sha256 offset total body t).2 := by
  unfold resumeUpload
  by_cases hmkdir : faults.mkdirAll = true
  · rw [if_pos hmkdir]
    exact .refused hmkdir
  rw [if_neg hmkdir]
  dsimp only
  by_cases hoffset : offset ≠ partSize faults t
  · rw [if_pos hoffset]
    exact .mismatch hoffset
  rw [if_neg hoffset]
  have hcur : offset = partSize faults t := not_not.mp hoffset
  rw [← hcur]
  obtain ⟨⟨t', n, ok⟩, happend⟩ : ∃ p, appendStream faults body (total - offset) t = p := ⟨_, rfl⟩
  obtain ⟨written, hprefix, -, hpart, hall⟩ := appendStream_cases happend
  rw [happend]
  cases ok with
  | false => exact .failed hcur (by rw [happend]) hprefix (hpart.imp_right And.left)
  | true =>
    -- the chunk was appended completely; whether it reaches the length decides
    obtain ⟨hwritten, rfl, -⟩ := hall rfl
    obtain rfl : t' = _ := hpart.resolve_right (by simp)
    by_cases hlt : offset + written.length < total
    · simpa [hlt] using .more hcur hwritten hlt
    · simp only [hlt, not_true_eq_false, if_false, finishUpload, finalizePart]
      by_cases hfault : faults.hash = true ∨ faults.rename = true
      · simpa only [if_pos hfault] using .unpublished hcur hfault hwritten
      · simpa only [if_neg hfault] using .published hcur hwritten rfl (not_lt.mp hlt)

/-- Deleting removes the staging file or leaves it, and removes the published file or leaves it
with its sidecar. -/
theorem deleteFile_spec (faults : Faults) (t : Target) :
    ((deleteFile faults t).2.part = t.part ∨ (deleteFile faults t).2.part = none) ∧
      ((deleteFile faults t).2.file = none ∨
        (deleteFile faults t).2.file = t.file ∧ (deleteFile faults t).2.sidecar = t.sidecar) := by
  obtain ⟨file, part, sidecar⟩ := t
  unfold deleteFile
  by_cases hstat : faults.statFile = true
  · rw [if_pos hstat]
    exact ⟨Or.inl rfl, Or.inr ⟨rfl, rfl⟩⟩
  · rw [if_neg hstat]
    cases file with
    | none => dsimp only; split_ifs <;> simp
    | some b => dsimp only; split_ifs <;> simp

end WinDep.Admin
