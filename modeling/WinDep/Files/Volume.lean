/-
# Files under open descriptors

Requests that overlap hold descriptors of the files of one path. A name refers to
an i-node; renaming moves the name and no descriptor, so a request may go on
writing to a file that another one has published. A volume says which i-nodes the
names refer to; forgetting i-nodes gives the three files of the path.
-/

import WinDep.Files.Target
import Mathlib.Logic.Function.Basic

namespace WinDep

abbrev Ino := ℕ

/-- The i-nodes of the published and of the staging file, which are distinct, and the contents
of every i-node. The sidecar is only ever written as a whole. -/
structure Volume where
  data : Ino → Bytes
  next : Ino
  file : Option Ino
  part : Option Ino
  sidecar : Option Bytes
  file_lt : ∀ i ∈ file, i < next
  part_lt : ∀ i ∈ part, i < next
  apart : ∀ i ∈ file, i ∉ part

namespace Volume

variable {v w : Volume} {i fd : Ino} {b : Bytes} {t : Target}

def contents (v : Volume) : Option Bytes := v.file.map v.data

def staged (v : Volume) : Option Bytes := v.part.map v.data

/-- The three files, without their i-nodes. -/
def target (v : Volume) : Target := ⟨v.contents, v.staged, v.sidecar⟩

theorem eq_of_mem_map_const {o : Option Bytes} {n : Ino} (h : i ∈ o.map fun _ => n) : i = n := by
  obtain ⟨_, -, rfl⟩ := Option.mem_map.mp h
  rfl

/-- The files of a path that nobody has open. -/
def ofTarget (t : Target) : Volume where
  data i := if i = 0 then t.file.getD [] else if i = 1 then t.part.getD [] else []
  next := 2
  file := t.file.map fun _ => 0
  part := t.part.map fun _ => 1
  sidecar := t.sidecar
  file_lt _ hi := eq_of_mem_map_const hi ▸ Nat.zero_lt_two
  part_lt _ hi := eq_of_mem_map_const hi ▸ Nat.one_lt_two
  apart _ hi h := Nat.zero_ne_one ((eq_of_mem_map_const hi).symm.trans (eq_of_mem_map_const h))

/-- Create the staging file, with a new i-node. -/
def create (v : Volume) : Volume where
  data := Function.update v.data v.next []
  next := v.next + 1
  file := v.file
  part := some v.next
  sidecar := v.sidecar
  file_lt i hi := (v.file_lt i hi).trans (Nat.lt_succ_self _)
  part_lt := by simp
  apart i hi h := absurd (v.file_lt i hi) (by simp_all)

def setData (v : Volume) (i : Ino) (b : Bytes) : Volume :=
  { v with data := Function.update v.data i b }

/-- Open the staging file for appending, creating it if absent. -/
def openPart (v : Volume) : Ino × Volume :=
  match v.part with
  | some i => (i, v)
  | none => (v.next, v.create)

/-- `os.Create` of the staging file: an existing one is truncated, under the i-node it has. -/
def createPart (v : Volume) : Ino × Volume :=
  match v.part with
  | some i => (i, v.setData i [])
  | none => (v.next, v.create)

/-- Write at the end of an open file. -/
def append (v : Volume) (fd : Ino) (b : Bytes) : Volume := v.setData fd (v.data fd ++ b)

/-- Write at a position of an open file; a gap before it reads as zeros. -/
def writeAt (v : Volume) (fd : Ino) (pos : ℕ) (b : Bytes) : Volume :=
  v.setData fd ((v.data fd).take pos ++ List.replicate (pos - (v.data fd).length) 0 ++ b ++
    (v.data fd).drop (pos + b.length))

/-- Rename the staging file onto the published file. -/
def rename (v : Volume) : Option Volume :=
  -- the i-node that was published stays, under no name, for whoever has it open
  match h : v.part with
  | none => none
  | some i => some { v with
      file := some i
      part := none
      file_lt := fun j hj => v.part_lt j (h ▸ hj)
      part_lt := by simp
      apart := by simp }

def removePart (v : Volume) : Volume :=
  { v with part := none, part_lt := by simp, apart := by simp }

def setSidecar (v : Volume) (b : Bytes) : Volume := { v with sidecar := some b }

/-! ## What the operations leave -/

@[simp] theorem data_create : v.create.data = Function.update v.data v.next [] := rfl

@[simp] theorem data_setData : (v.setData i b).data = Function.update v.data i b := rfl

@[simp] theorem data_append :
    (v.append fd b).data = Function.update v.data fd (v.data fd ++ b) := rfl

@[simp] theorem part_append : (v.append fd b).part = v.part := rfl

@[simp] theorem target_ofTarget (t : Target) : (ofTarget t).target = t := by
  obtain ⟨file, part, sidecar⟩ := t
  cases file <;> cases part <;> rfl

@[simp] theorem contents_ofTarget : (ofTarget t).contents = t.file :=
  congrArg Target.file (target_ofTarget t)

@[simp] theorem staged_ofTarget : (ofTarget t).staged = t.part :=
  congrArg Target.part (target_ofTarget t)

/-- Rewriting an i-node that is not the published file's leaves the published file. -/
theorem contents_setData (h : i ∉ v.file) : (v.setData i b).contents = v.contents :=
  Option.map_congr fun j hj => Function.update_of_ne (fun hji : j = i => h (hji ▸ hj)) _ _

@[simp] theorem append_nil : v.append fd [] = v := by
  simp [append, setData]

theorem append_append {c : Bytes} : (v.append fd b).append fd c = v.append fd (b ++ c) := by
  simp [append, setData]

theorem staged_append (h : v.part = some fd) : (v.append fd b).staged = some (v.data fd ++ b) := by
  simp [staged, h]

theorem contents_create : v.create.contents = v.contents :=
  Option.map_congr fun j hj => Function.update_of_ne (v.file_lt j hj).ne _ _

theorem not_mem_file_of_part (h : v.part = some i) : i ∉ v.file :=
  fun hfile => v.apart i hfile h

/-- An opened staging file is the one there is, or a new empty one. -/
theorem openPart_spec (v : Volume) :
    v.openPart.2.part = some v.openPart.1 ∧
      v.openPart.2.data v.openPart.1 = v.staged.getD [] ∧
      v.openPart.2.contents = v.contents ∧ v.openPart.2.sidecar = v.sidecar := by
  unfold openPart
  cases hpart : v.part with
  | none => exact ⟨rfl, by simp [staged, hpart], contents_create, rfl⟩
  | some i => exact ⟨hpart, by simp [staged, hpart], rfl, rfl⟩

/-- A created staging file is empty, and the published file is not affected. -/
theorem createPart_spec (v : Volume) :
    v.createPart.2.part = some v.createPart.1 ∧ v.createPart.2.data v.createPart.1 = [] ∧
      v.createPart.2.contents = v.contents ∧ v.createPart.2.sidecar = v.sidecar := by
  unfold createPart
  cases hpart : v.part with
  | none => exact ⟨rfl, by simp, contents_create, rfl⟩
  | some i => exact ⟨hpart, by simp, contents_setData (not_mem_file_of_part hpart), rfl⟩

/-- Writing where a file ends is appending. -/
theorem writeAt_length : v.writeAt fd (v.data fd).length b = v.append fd b := by
  have hrest : (v.data fd).drop ((v.data fd).length + b.length) = [] :=
    List.drop_eq_nil_of_le (Nat.le_add_right _ _)
  simp [writeAt, append, hrest]

theorem contents_append (h : v.part = some fd) : (v.append fd b).contents = v.contents :=
  contents_setData (not_mem_file_of_part h)

theorem target_append (h : v.part = some fd) :
    (v.append fd b).target = { v.target with part := some (v.data fd ++ b) } := by
  rw [target, staged_append h, append, contents_setData (not_mem_file_of_part h)]
  rfl

theorem rename_eq_none : v.rename = none ↔ v.part = none := by
  unfold rename
  split
  · next h => simp [h]
  · next h => simp [h]

theorem rename_of_part (h : v.part = some i) :
    ∃ w, v.rename = some w ∧ w.data = v.data ∧ w.next = v.next ∧ w.file = some i ∧
      w.part = none ∧ w.sidecar = v.sidecar := by
  unfold rename
  split
  · next hnone => simp [hnone] at h
  · next j hj =>
    rw [hj] at h
    exact ⟨_, rfl, rfl, rfl, h, rfl, rfl⟩

/-- Renaming publishes what is staged. -/
theorem rename_eq_some (h : v.rename = some w) :
    w.contents = v.staged ∧ w.part = none ∧ v.staged.isSome = true ∧ w.data = v.data ∧
      w.next = v.next ∧ w.sidecar = v.sidecar := by
  cases hpart : v.part with
  | none => simp [rename_eq_none.mpr hpart] at h
  | some i =>
    obtain ⟨w', hw, hdata, hnext, hfile, hnone, hsidecar⟩ := rename_of_part hpart
    obtain rfl := Option.some.inj (hw.symm.trans h)
    refine ⟨?_, hnone, by simp [staged, hpart], hdata, hnext, hsidecar⟩
    rw [contents, staged, hfile, hpart, hdata]

end Volume

end WinDep
