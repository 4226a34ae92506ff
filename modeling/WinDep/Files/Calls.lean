/-
# Calls to the file system

The file handlers as programs that call the operating system. A call may be
answered in any way, so a program covers every file system and every fault. Each
call names the entries it can create, write, rename or remove; the rest of the
file system is not its business.
-/

import WinDep.Data.Program
import WinDep.Files.Paths

namespace WinDep

/-- What `os.Stat` finds out: an error, or the size of a file or a folder. -/
inductive StatResult
  | missing
  | failed
  | file (size : ℕ)
  | folder (size : ℕ)
  deriving DecidableEq

/-- An entry of a folder, without a size if its `Info` call fails. -/
structure DirEntry where
  name : String
  isDir : Bool
  size : Option ℕ
  deriving DecidableEq

/-- What `os.ReadDir` finds out. -/
inductive ReadDirResult
  | missing
  | failed
  | entries (es : List DirEntry)
  deriving DecidableEq

inductive FsCall
  | stat (p : Path)
  | readFile (p : Path)
  | readDir (p : Path)
  | mkdirAll (p : Path)
  /-- `os.Create`, or opening to append -/
  | openFile (p : Path) (truncate : Bool)
  | write (p : Path) (b : Bytes)
  | sync (p : Path)
  | close (p : Path)
  | rename (p q : Path)
  | remove (p : Path)
  | removeAll (p : Path)
  | writeFile (p : Path) (b : Bytes)

namespace FsCall

/-- What a call is answered. For most only whether it succeeded matters. -/
@[reducible] def Answer : FsCall → Type
  | stat _ => StatResult
  | readFile _ => Option Bytes
  | readDir _ => ReadDirResult
  | _ => Bool

/-- The entries a call can create, write, rename or remove. -/
def Touches : FsCall → Path → Prop
  | mkdirAll p, q => q ≠ [] ∧ q <+: p
  | openFile p _, q => q = p
  | write p _, q => q = p
  | rename p p', q => q = p ∨ q = p'
  | remove p, q => q = p
  | removeAll p, q => p <+: q
  | writeFile p _, q => q = p
  | _, _ => False

end FsCall

abbrev Fs := Program FsCall.Answer

namespace Fs

open Program

def stat (p : Path) : Fs StatResult := perform (FsCall.stat p)

def readFile (p : Path) : Fs (Option Bytes) := perform (FsCall.readFile p)

def readDir (p : Path) : Fs ReadDirResult := perform (FsCall.readDir p)

def mkdirAll (p : Path) : Fs Bool := perform (FsCall.mkdirAll p)

def openFile (p : Path) (truncate : Bool) : Fs Bool := perform (FsCall.openFile p truncate)

def write (p : Path) (b : Bytes) : Fs Bool := perform (FsCall.write p b)

def sync (p : Path) : Fs Bool := perform (FsCall.sync p)

def close (p : Path) : Fs Bool := perform (FsCall.close p)

def rename (p q : Path) : Fs Bool := perform (FsCall.rename p q)

def remove (p : Path) : Fs Bool := perform (FsCall.remove p)

def removeAll (p : Path) : Fs Bool := perform (FsCall.removeAll p)

def writeFile (p : Path) (b : Bytes) : Fs Bool := perform (FsCall.writeFile p b)

/-! ## Copying a stream -/

/-- Write a chunk, and flush when enough is pending. Nothing if a call fails, else what is pending
then. -/
def writeChunk (dst : Path) (b : Bytes) (pending : ℕ) : Fs (Option ℕ) := do
  if ← write dst b then
    if pending + b.length < syncEvery then return some (pending + b.length)
    else if ← sync dst then return some 0
    else return none
  else return none

/-- Bytes a read returned, if any, are written before its error is looked at. -/
def writeData (dst : Path) (b : Bytes) (pending : ℕ) : Fs (Option ℕ) :=
  if b = [] then return some pending else writeChunk dst b pending

/-- Copy until the stream ends, it fails, or a call fails: the bytes counted, and whether all went
well. -/
def copyChunks (dst : Path) : Stream → ℕ → ℕ → Fs (ℕ × Bool)
  | [], _, total => do return (total, ← sync dst)
  | r :: rs, pending, total => do
    match ← writeData dst r.data pending with
    | none => return (total, false)
    | some pending =>
      match r.ending with
      | .eof => return (total + r.data.length, ← sync dst)
      | .failed => return (total + r.data.length, false)
      | .more => copyChunks dst rs pending (total + r.data.length)

def copyCountedSynced (dst : Path) (src : Stream) : Fs (ℕ × Bool) := copyChunks dst src 0 0

/-- Append up to `limit` bytes to a file, creating it if absent. -/
def appendStream (path : Path) (src : Stream) (limit : ℕ) : Fs (ℕ × Bool) := do
  if ← openFile path false then
    let (n, ok) ← copyCountedSynced path (src.limit limit)
    let closed ← close path
    return (n, ok && closed)
  else return (0, false)

section

variable (sha256 : Bytes → Digest)

/-- Hash the staging file and rename it into place. -/
def finalizePart (tmp dest : Path) : Fs (Option Digest) := do
  match ← readFile tmp with
  | none => return none
  | some staged => if ← rename tmp dest then return some (sha256 staged) else return none

def renameIf (ok : Bool) (p q : Path) : Fs Bool := if ok then rename p q else return false

/-- Write a stream to a fresh staging file and rename it into place. -/
def saveStream (dest : Path) (src : Stream) : Fs (Option Digest) := do
  let tmp := dest.withExt partExt
  if ← openFile tmp true then
    let (_, copied) ← copyCountedSynced tmp src
    let closed ← close tmp
    if ← renameIf (copied && closed) tmp dest then return some (sha256 src.bytes)
    else
      -- every failure after the staging file was created removes it
      let _ ← remove tmp
      return none
  else return none

end

def writeSidecar (dest : Path) (sum : Digest) : Fs Bool :=
  writeFile (dest.withExt sidecarExt) (sidecarLine dest.base sum)

/-- The recorded digest, or nothing if there is no sidecar to be read. -/
def readSidecar (dest : Path) : Fs (List Char) := do
  return WinDep.readSidecar (← readFile (dest.withExt sidecarExt))

/-- `hashFile`: the digest of a file in hexadecimal. -/
def hashFile (sha256 : Bytes → Digest) (path : Path) : Fs (Option (List Char)) := do
  return (← readFile path).map fun b => hexDigits (sha256 b).1

/-! ## What the programs touch -/

/-- The call touches nothing but entries in `S`. -/
def Touching (S : Path → Prop) (c : FsCall) : Prop := ∀ q, c.Touches q → S q

/-- A path or one of its two companions. -/
def Companion (p q : Path) : Prop := q = p ∨ q = p.withExt partExt ∨ q = p.withExt sidecarExt

variable {S : Path → Prop} {p q : Path} {src : Stream} {b : Bytes} {limit : ℕ}
  {sha256 : Bytes → Digest} {sum : Digest}

theorem always_writeChunk (hp : S p) {pending : ℕ} :
    (writeChunk p b pending).Always (Touching S) := by
  have hwrite : Touching S (.write p b) := fun q hq => hq ▸ hp
  have hsync : Touching S (.sync p) := fun q hq => hq.elim
  apply always_bind (always_perform.mpr hwrite)
  intro written
  split_ifs
  · exact always_pure _
  · apply always_bind (always_perform.mpr hsync)
    intro synced
    split_ifs <;> exact always_pure _
  · exact always_pure _

theorem always_writeData (hp : S p) {pending : ℕ} :
    (writeData p b pending).Always (Touching S) := by
  unfold writeData
  split_ifs
  · exact always_pure _
  · exact always_writeChunk hp

theorem always_copyChunks (hp : S p) (src : Stream) (pending total : ℕ) :
    (copyChunks p src pending total).Always (Touching S) := by
  have hsync : (sync p).Always (Touching S) := always_perform.mpr fun q hq => hq.elim
  induction src generalizing pending total with
  | nil => exact always_bind hsync fun _ => always_pure _
  | cons r rs ih =>
    rw [copyChunks]
    apply always_bind (always_writeData hp)
    intro written
    cases written with
    | none => exact always_pure _
    | some pending =>
      cases r.ending with
      | more => exact ih _ _
      | eof => exact always_bind hsync fun _ => always_pure _
      | failed => exact always_pure _

theorem always_appendStream (hp : S p) :
    (appendStream p src limit).Always (Touching S) := by
  have hopen : (openFile p false).Always (Touching S) :=
    always_perform.mpr fun q hq => hq ▸ hp
  have hclose : (close p).Always (Touching S) := always_perform.mpr fun q hq => hq.elim
  apply always_bind hopen
  intro opened
  split_ifs
  · exact always_bind (always_copyChunks hp _ _ _) fun _ =>
      always_bind hclose fun _ => always_pure _
  · exact always_pure _

theorem always_finalizePart (hp : S p) (hq : S q) :
    (finalizePart sha256 p q).Always (Touching S) := by
  have hread : (readFile p).Always (Touching S) := always_perform.mpr fun q hq => hq.elim
  have hrename : (rename p q).Always (Touching S) := by
    apply always_perform.mpr
    rintro q' (rfl | rfl)
    · exact hp
    · exact hq
  apply always_bind hread
  intro staged
  cases staged with
  | none => exact always_pure _
  | some staged =>
    apply always_bind hrename
    intro renamed
    split_ifs <;> exact always_pure _

theorem always_saveStream (hp : S p) (hpart : S (p.withExt partExt)) :
    (saveStream sha256 p src).Always (Touching S) := by
  have hopen : (openFile (p.withExt partExt) true).Always (Touching S) :=
    always_perform.mpr fun q hq => hq ▸ hpart
  have hclose : (close (p.withExt partExt)).Always (Touching S) :=
    always_perform.mpr fun q hq => hq.elim
  have hremove : (remove (p.withExt partExt)).Always (Touching S) :=
    always_perform.mpr fun q hq => hq ▸ hpart
  have hrename : (rename (p.withExt partExt) p).Always (Touching S) := by
    apply always_perform.mpr
    rintro q (rfl | rfl)
    · exact hpart
    · exact hp
  have hrenameIf (ok : Bool) : (renameIf ok (p.withExt partExt) p).Always (Touching S) := by
    cases ok with
    | false => exact always_pure _
    | true => exact hrename
  apply always_bind hopen
  intro opened
  split_ifs
  · apply always_bind (always_copyChunks hpart _ _ _)
    intro copied
    apply always_bind hclose
    intro closed
    apply always_bind (hrenameIf _)
    intro renamed
    split_ifs
    · exact always_pure _
    · exact always_bind hremove fun _ => always_pure _
  · exact always_pure _

theorem always_writeSidecar (hsidecar : S (p.withExt sidecarExt)) :
    (writeSidecar p sum).Always (Touching S) :=
  always_perform.mpr fun _ hq => hq ▸ hsidecar

end Fs

end WinDep
