/-
# The file handlers as programs

Each handler of the file API as a program of file-system calls, from the parts of
the request to the answer. A handler of an upload touches the file it names with
its two companions and makes the folders above; deleting also touches what is
below the named entry. The handlers that list, send and verify only read.
-/

import WinDep.Config.Store
import WinDep.Files.Calls
import WinDep.Upload.Handlers

namespace WinDep.Fs

open Admin Program FsCall

section

variable (sha256 : Bytes → Digest)

def handleUpload (r : FileRequest) : Fs Reply :=
  match targetPath r with
  | .error reply => return reply
  | .ok dest => do
    if ← mkdirAll dest.dropLast then
      match ← saveStream sha256 dest r.body with
      | none => return .error 500 "write failed"
      | some sum =>
        -- the file is in place, so a sidecar that cannot be written is only logged
        let _ ← writeSidecar dest sum
        return .send 201
    else return .error 500 "mkdir failed"

def finishUpload (newSize : ℕ) (tmp dest : Path) : Fs Reply := do
  match ← finalizePart sha256 tmp dest with
  | none => return { Reply.error 500 "finalize failed" with offset := some newSize }
  | some sum =>
    let _ ← writeSidecar dest sum
    return ⟨200, "", some newSize, some true⟩

/-- The size of an entry as the resume handlers read it; a failed call counts as absent. -/
def StatResult.size : StatResult → ℕ
  | .file n => n
  | .folder n => n
  | _ => 0

def handleUploadResume (r : FileRequest) : Fs Reply :=
  match parseResume r with
  | .error reply => return reply
  | .ok (dest, offset, total) => do
    if ← mkdirAll dest.dropLast then
      let tmp := dest.withExt partExt
      let cur := StatResult.size (← stat tmp)
      if offset ≠ cur then return { Reply.error 409 "offset mismatch" with offset := some cur }
      else
        let (n, ok) ← appendStream tmp r.body (total - cur)
        let newSize := cur + n
        if ok then
          if newSize < total then return ⟨204, "", some newSize, some false⟩
          else finishUpload sha256 newSize tmp dest
        else return { Reply.error 500 "write failed" with offset := some newSize }
    else return .error 500 "mkdir failed"

/-- `strings.Trim(rel, "/") == ""` -/
def onlySlashes (rel : String) : Bool := rel.toList.all (· = '/')

def handleMkdir (category rel : String) : Fs Reply :=
  if onlySlashes rel then return .error 400 "missing folder name"
  else
    match resolvePath category rel with
    | none => return .error 400 "unknown category"
    | some dest => do
      if ← mkdirAll dest then return .send 201 else return .error 500 "mkdir failed"

def handleDelete (category rel : String) : Fs Reply :=
  if onlySlashes rel then return .error 400 "refusing to delete category root"
  else
    match resolvePath category rel with
    | none => return .error 400 "unknown category"
    | some dest => do
      match ← stat dest with
      | .missing =>
        -- an upload that was interrupted may have left its staging file
        match ← stat (dest.withExt partExt) with
        | .file _ | .folder _ =>
          let _ ← remove (dest.withExt partExt)
          return .send 204
        | _ => return .error 404 "not found"
      | .failed => return .error 500 "stat failed"
      | _ =>
        if ← removeAll dest then
          let _ ← remove (dest.withExt sidecarExt)
          let _ ← remove (dest.withExt partExt)
          return .send 204
        else return .error 500 "delete failed"

variable (P : Primitives) (masterKey : Option Key)

def handleConfigPut (ivs : String → IV) (rel : String) (body : Stream) : Fs Reply :=
  if rel = "" ∨ rel.toList.getLast? = some '/' then return .error 400 "missing file name"
  else
    match resolvePath "config" rel with
    | none => return .error 400 "unknown category"
    | some dest =>
      match readBody body maxBody with
      | none => return .error 400 "read failed"
      | some raw => do
        let prev ← readFile dest
        match encryptConfigJSON P masterKey ivs raw (prev.getD []) with
        | none => return .error 400 "invalid config json"
        | some out =>
          if ← mkdirAll dest.dropLast then
            match ← saveStream sha256 dest (.ofBytes out) with
            | none => return .error 500 "write failed"
            | some sum =>
              let _ ← writeSidecar dest sum
              return .send 201
          else return .error 500 "mkdir failed"

end

/-! ## Handlers that only read -/

def handleUploadOffset (category rel : String) : Fs Reply :=
  match resolvePath category rel with
  | none => return .error 400 "unknown category"
  | some dest => do
    match ← stat dest with
    | .file n => return ⟨200, "", some n, some true⟩
    | _ => return ⟨200, "", some (StatResult.size (← stat (dest.withExt partExt))), some false⟩

/-- A row of a listing, but for the modification time. -/
structure FileInfo where
  name : String
  size : ℕ
  isDir : Bool
  sha256 : List Char
  deriving DecidableEq

/-- The name of a sidecar or of a staging file. -/
def reserved (name : String) : Bool :=
  sidecarExt.toList.isSuffixOf name.toList || partExt.toList.isSuffixOf name.toList

def entryInfo (dir : Path) (e : DirEntry) : Fs (Option FileInfo) :=
  if reserved e.name then return none
  else
    match e.size with
    | none => return none
    | some size => do
      if e.isDir then return some ⟨e.name, 0, true, []⟩
      else return some ⟨e.name, size, false, ← readSidecar (dir ++ [e.name])⟩

def listEntries (dir : Path) : List DirEntry → Fs (List FileInfo)
  | [] => return []
  | e :: es => do
    let info ← entryInfo dir e
    let rest ← listEntries dir es
    return info.toList ++ rest

/-- The rows of a folder. The category of a query that has none is `images`. -/
def handleList (category rel : String) : Fs (Except Reply (List FileInfo)) :=
  match resolvePath (if category = "" then "images" else category) rel with
  | none => return .error (.error 400 "unknown category")
  | some dir => do
    match ← readDir dir with
    | .missing => return .ok []
    | .failed => return .error (.error 500 "read failed")
    | .entries es => return .ok (← listEntries dir es)

def handleDownload (category rel : String) : Fs (Except Reply Bytes) :=
  match resolvePath category rel with
  | none => return .error (.error 400 "unknown category")
  | some src => do
    match ← stat src with
    | .file _ =>
      match ← readFile src with
      | none => return .error (.error 404 "open failed")
      | some b => return .ok b
    | _ => return .error (.error 404 "not a file")

structure VerifyResult where
  ok : Bool
  expected : List Char
  actual : List Char
  size : ℕ
  deriving DecidableEq

def handleVerify (sha256 : Bytes → Digest) (category rel : String) :
    Fs (Except Reply VerifyResult) :=
  match resolvePath category rel with
  | none => return .error (.error 400 "unknown category")
  | some src => do
    match ← stat src with
    | .file size =>
      let expected ← readSidecar src
      if expected = [] then return .error (.error 404 "no recorded checksum")
      else
        match ← hashFile sha256 src with
        | none => return .error (.error 500 "hash failed")
        | some actual => return .ok ⟨actual == expected, expected, actual, size⟩
    | _ => return .error (.error 404 "not a file")

/-! ## Handlers that only read -/

theorem reads_stat (p : Path) : (stat p).Always (Touching fun _ => False) :=
  always_perform.mpr fun _ h => h

theorem reads_readFile (p : Path) : (readFile p).Always (Touching fun _ => False) :=
  always_perform.mpr fun _ h => h

theorem reads_readDir (p : Path) : (readDir p).Always (Touching fun _ => False) :=
  always_perform.mpr fun _ h => h

theorem reads_handleUploadOffset (category rel : String) :
    (handleUploadOffset category rel).Always (Touching fun _ => False) := by
  unfold handleUploadOffset
  split
  · exact always_pure _
  apply always_bind (reads_stat _)
  intro found
  cases found with
  | file n => exact always_pure _
  | missing | failed | folder => exact always_bind (reads_stat _) fun _ => always_pure _

theorem reads_readSidecar (p : Path) : (readSidecar p).Always (Touching fun _ => False) :=
  always_bind (reads_readFile _) fun _ => always_pure _

theorem reads_listEntries (dir : Path) (es : List DirEntry) :
    (listEntries dir es).Always (Touching fun _ => False) := by
  induction es with
  | nil => exact always_pure _
  | cons e es ih =>
    have hentry : (entryInfo dir e).Always (Touching fun _ => False) := by
      unfold entryInfo
      cases e.size with
      | none => split_ifs <;> exact always_pure _
      | some size =>
        split_ifs
        · exact always_pure _
        · exact always_pure _
        · exact always_bind (reads_readSidecar _) fun _ => always_pure _
    exact always_bind hentry fun _ => always_bind ih fun _ => always_pure _

theorem reads_handleList (category rel : String) :
    (handleList category rel).Always (Touching fun _ => False) := by
  unfold handleList
  split
  · exact always_pure _
  apply always_bind (reads_readDir _)
  intro found
  cases found with
  | missing | failed => exact always_pure _
  | entries es => exact always_bind (reads_listEntries _ es) fun _ => always_pure _

theorem reads_handleDownload (category rel : String) :
    (handleDownload category rel).Always (Touching fun _ => False) := by
  unfold handleDownload
  split
  · exact always_pure _
  apply always_bind (reads_stat _)
  intro found
  cases found with
  | missing | failed | folder => exact always_pure _
  | file n =>
    apply always_bind (reads_readFile _)
    intro content
    cases content <;> exact always_pure _

theorem reads_handleVerify (sha256 : Bytes → Digest) (category rel : String) :
    (handleVerify sha256 category rel).Always (Touching fun _ => False) := by
  unfold handleVerify
  split
  · exact always_pure _
  apply always_bind (reads_stat _)
  intro found
  cases found with
  | missing | failed | folder => exact always_pure _
  | file n =>
    apply always_bind (reads_readSidecar _)
    intro expected
    split_ifs
    · exact always_pure _
    · apply always_bind (always_bind (reads_readFile _) fun _ => always_pure _)
      intro actual
      cases actual <;> exact always_pure _

end WinDep.Fs
