/-
# Paths and the disk

A path is the list of its segments below `DATA_DIR`. Cleaning a relative path
drops empty and dot segments and lets two dots remove a segment, never more than
there are. The disk maps paths to file contents; the staging file and the sidecar
of a path are the files whose last segment carries their extension.
-/

import WinDep.Files.Target
import Mathlib.Data.String.Basic

namespace WinDep

abbrev Path := List String

namespace Path

def segments (rel : String) : List String := (rel.toList.splitOn '/').map String.ofList

def push (p : Path) (seg : String) : Path :=
  if seg = "" ∨ seg = "." then p else if seg = ".." then p.dropLast else p ++ [seg]

/-- `path.Clean` of a relative path joined to a clean one. -/
def join (p : Path) (rel : String) : Path := (segments rel).foldl push p

/-- The file name, `filepath.Base`. -/
def base (p : Path) : String := p.getLastD ""

/-- The path whose file name carries an extension more. -/
def withExt (p : Path) (ext : String) : Path := p.dropLast ++ [p.base ++ ext]

end Path

/-- The only top-level trees the admin touches. -/
def categories : List String := ["images", "config", "boot"]

/-- The path for a category and a relative URL path. The wildcard is cleaned as a rooted path
first, so the result never leaves the category and the source's second check cannot fail. -/
def resolvePath (category rel : String) : Option Path :=
  if category ∈ categories then some (category :: Path.join [] rel) else none

def partExt : String := ".part"

def sidecarExt : String := ".sha256"

/-- The contents of the files that exist. -/
abbrev Disk := Path → Option Bytes

namespace Disk

def empty : Disk := fun _ => none

/-- The three files of a path. -/
def target (d : Disk) (p : Path) : Target :=
  ⟨d p, d (p.withExt partExt), d (p.withExt sidecarExt)⟩

def setTarget (d : Disk) (p : Path) (t : Target) : Disk := fun q =>
  if q = p then t.file
  else if q = p.withExt partExt then t.part
  else if q = p.withExt sidecarExt then t.sidecar
  else d q

@[simp] theorem setTarget_self (d : Disk) (p : Path) (t : Target) : d.setTarget p t p = t.file := by
  simp [setTarget]

/-- Files other than the three are untouched. -/
theorem setTarget_of_ne {d : Disk} {p q : Path} {t : Target} (hfile : q ≠ p)
    (hpart : q ≠ p.withExt partExt) (hsidecar : q ≠ p.withExt sidecarExt) :
    d.setTarget p t q = d q := by
  simp [setTarget, hfile, hpart, hsidecar]

end Disk

/-! ## Requests -/

/-- What a request is answered: the status, the text of an error, and the upload headers that
were set. -/
structure Reply where
  status : ℕ
  message : String
  offset : Option ℕ
  complete : Option Bool
  deriving DecidableEq

def Reply.send (status : ℕ) : Reply := ⟨status, "", none, none⟩

def Reply.error (status : ℕ) (message : String) : Reply := ⟨status, message, none, none⟩

/-- Handle a request on one path. -/
def Disk.handle (d : Disk) (p : Path) (handler : Target → Reply × Target) : Reply × Disk :=
  let (reply, t) := handler (d.target p)
  (reply, d.setTarget p t)

namespace Path

variable {p : Path} {s t ext : String}

theorem segments_append_slash (h : '/' ∉ s.toList) (t : String) :
    segments (s ++ "/" ++ t) = s :: segments t := by
  have hlist : (s ++ "/" ++ t).toList = s.toList ++ '/' :: t.toList := by simp
  rw [segments, hlist, List.splitOn_append_cons_self_of_not_mem h]
  simp [segments]

theorem segments_eq_singleton (h : '/' ∉ s.toList) : segments s = [s] := by
  rw [segments, List.splitOn_eq_singleton h]
  simp

/-- A segment that means itself. -/
def Plain (seg : String) : Prop := seg ≠ "" ∧ seg ≠ "." ∧ seg ≠ ".."

instance (seg : String) : Decidable (Plain seg) := inferInstanceAs (Decidable (_ ∧ _ ∧ _))

theorem push_plain (h : Plain s) : push p s = p ++ [s] := by
  simp [push, h.1, h.2.1, h.2.2]

theorem join_plain (hs : Plain s) (h : '/' ∉ s.toList) : join p s = p ++ [s] := by
  rw [join, segments_eq_singleton h, List.foldl_cons, List.foldl_nil, push_plain hs]

theorem join_append_slash (hs : Plain s) (h : '/' ∉ s.toList) (t : String) :
    join p (s ++ "/" ++ t) = join (p ++ [s]) t := by
  rw [join, segments_append_slash h, List.foldl_cons, push_plain hs]
  rfl

/-- The companions of a path are other files. -/
theorem withExt_ne (hext : ext ≠ "") : p.withExt ext ≠ p := by
  intro h
  have hbase : p.base ++ ext = p.base := by
    have hlast := congrArg base h
    rwa [withExt, base, List.getLastD_concat] at hlast
  have hlen := congrArg String.length hbase
  rw [String.length_append] at hlen
  have hzero : ext.length = 0 := by omega
  exact hext (String.length_eq_zero_iff.mp hzero)

theorem withExt_injective (p : Path) : Function.Injective p.withExt := by
  intro ext ext' h
  have hlast : p.base ++ ext = p.base ++ ext' := by
    simpa [withExt, base] using congrArg base h
  have hlist := congrArg String.toList hlast
  rw [String.toList_append, String.toList_append, List.append_cancel_left_eq] at hlist
  exact String.toList_inj.mp hlist

end Path

/-- What a request on a path leaves there is what the next one finds. -/
theorem Disk.target_setTarget (d : Disk) (p : Path) (t : Target) :
    (d.setTarget p t).target p = t := by
  have hpart : p.withExt partExt ≠ p := Path.withExt_ne (by decide)
  have hsidecar : p.withExt sidecarExt ≠ p := Path.withExt_ne (by decide)
  have hne : p.withExt sidecarExt ≠ p.withExt partExt := p.withExt_injective.ne (by decide)
  simp [Disk.target, Disk.setTarget, hpart, hsidecar, hne]

theorem ne_nil_of_resolvePath {category rel : String} {p : Path}
    (h : resolvePath category rel = some p) : p ≠ [] := by
  unfold resolvePath at h
  split_ifs at h
  obtain rfl := Option.some.inj h
  exact List.cons_ne_nil _ _

end WinDep
