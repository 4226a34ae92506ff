/-
# The files of one path

The admin keeps three files for a path: the published file, the staging file of
an upload in flight, and the sidecar that records the digest of the published
file. The operations here are the ones every handler is made of. Each takes the
outcome of the system calls it makes, any of which may fail; a write may fail
after writing part of its bytes.
-/

import WinDep.Files.Stream
import Mathlib.Tactic.IntervalCases

namespace WinDep

/-- A SHA-256 digest. -/
abbrev Digest := {b : Bytes // b.length = 32}

def sampleDigest : Bytes → Digest := fun _ => ⟨List.replicate 32 0, rfl⟩

structure Target where
  file : Option Bytes
  part : Option Bytes
  sidecar : Option Bytes
  deriving DecidableEq

/-- No file of the path exists. -/
def Target.absent : Target := ⟨none, none, none⟩

/-- How writing a whole small file goes wrong: not at all, before the file is truncated, or
after some of the bytes. -/
inductive WriteFault
  | none
  | refused
  | cut (written : ℕ)
  deriving DecidableEq

/-- The outcome of the system calls of one request. A flag says that the call fails, a `stat`
for another reason than an absent file; a number says that a write fails after that many
bytes. -/
structure Faults where
  statFile : Bool
  statPart : Bool
  mkdirAll : Bool
  openPart : Bool
  write : ℕ → Option ℕ
  sync : ℕ → Bool
  closePart : Bool
  hash : Bool
  rename : Bool
  removePart : Bool
  removeFile : Bool
  removeSidecar : Bool
  sidecar : WriteFault

/-- Every system call succeeds. -/
def Faults.none : Faults :=
  { statFile := false, statPart := false, mkdirAll := false, openPart := false
    write := fun _ => Option.none, sync := fun _ => false, closePart := false
    hash := false, rename := false, removePart := false, removeFile := false
    removeSidecar := false, sidecar := .none }

/-! ## Copying a stream into the staging file -/

/-- Bytes written before the dirty page cache is flushed. -/
def syncEvery : ℕ := 128 * 2 ^ 20

/-- The staging file and the counters of one copy. -/
structure Copy where
  content : Bytes
  total : ℕ
  pending : ℕ
  writes : ℕ
  syncs : ℕ

/-- Write a chunk, and flush when enough is pending. The flag says that the calls succeeded. -/
def writeChunk (faults : Faults) (b : Bytes) (c : Copy) : Copy × Bool :=
  match faults.write c.writes with
  | some k => ({ c with content := c.content ++ b.take k, writes := c.writes + 1 }, false)
  | none =>
    let c := { c with
      content := c.content ++ b, writes := c.writes + 1, pending := c.pending + b.length }
    if c.pending < syncEvery then (c, true)
    else if faults.sync c.syncs then ({ c with syncs := c.syncs + 1 }, false)
    else ({ c with syncs := c.syncs + 1, pending := 0 }, true)

/-- Copy until the stream ends, it fails, or a call fails. The total counts the chunks that
were written completely. -/
def copyChunks (faults : Faults) : Stream → Copy → Copy × Bool
  | [], c => (c, !faults.sync c.syncs)
  | r :: rs, c =>
    -- bytes that come with an error are written before the error is looked at
    let (c, ok) := if r.data = [] then (c, true) else writeChunk faults r.data c
    if ok then
      let c := { c with total := c.total + r.data.length }
      match r.ending with
      | .eof => (c, !faults.sync c.syncs)
      | .failed => (c, false)
      | .more => copyChunks faults rs c
    else (c, false)

/-- Stream `src` after the bytes already in the file. -/
def copyCountedSynced (faults : Faults) (content : Bytes) (src : Stream) : Copy × Bool :=
  copyChunks faults src ⟨content, 0, 0, 0, 0⟩

/-! ## Sidecars -/

def hexDigits (b : Bytes) : List Char :=
  b.flatMap fun a => [Nat.digitChar (a.toNat / 16), Nat.digitChar (a.toNat % 16)]

/-- The line `sha256sum` prints for a file. -/
def sidecarLine (base : String) (sum : Digest) : Bytes :=
  Utf8.encode (hexDigits sum.1 ++ [' ', ' '] ++ base.toList ++ ['\n'])

/-- `unicode.IsSpace` -/
def IsUnicodeSpace (c : Char) : Prop :=
  c ∈ ['\t', '\n', '\x0b', '\x0c', '\r', ' ', '\u0085', '\u00a0', '\u1680', '\u2028', '\u2029',
    '\u202f', '\u205f', '\u3000'] ∨ ('\u2000' ≤ c ∧ c ≤ '\u200a')

instance (c : Char) : Decidable (IsUnicodeSpace c) := inferInstanceAs (Decidable (_ ∨ _))

/-- The recorded digest: the first field of the sidecar, or nothing. -/
def readSidecar (sidecar : Option Bytes) : List Char :=
  match sidecar with
  | none => []
  | some b =>
    ((Utf8.decode b).dropWhile fun c => IsUnicodeSpace c).takeWhile fun c => !IsUnicodeSpace c

/-! ## Operations on a target -/

section

variable (base : String) (faults : Faults)

/-- Append up to `limit` bytes to the staging file, creating it if absent. The number is what
the caller advances the offset by. -/
def appendStream (src : Stream) (limit : ℕ) (t : Target) : Target × ℕ × Bool :=
  if faults.openPart then (t, 0, false)
  else
    let (c, ok) := copyCountedSynced faults (t.part.getD []) (src.limit limit)
    ({ t with part := some c.content }, c.total, ok && !faults.closePart)

variable (sha256 : Bytes → Digest)

/-- Hash the staging file and rename it onto the published file. -/
def finalizePart (t : Target) : Target × Option Digest :=
  match t.part with
  | none => (t, none)
  | some staged =>
    if faults.hash ∨ faults.rename then (t, none)
    else ({ t with file := some staged, part := none }, some (sha256 staged))

/-- Write the stream to a fresh staging file and rename it onto the published file. A failure
removes the staging file. -/
def saveStream (src : Stream) (t : Target) : Target × Option Digest :=
  if faults.openPart then (t, none)
  else
    let (c, ok) := copyCountedSynced faults [] src
    if ok ∧ ¬ faults.closePart ∧ ¬ faults.rename then
      ({ t with file := some c.content, part := none }, some (sha256 src.bytes))
    else ({ t with part := if faults.removePart then some c.content else none }, none)

/-- Record the digest. A failure is only logged. -/
def writeSidecar (sum : Digest) (t : Target) : Target :=
  match faults.sidecar with
  | .none => { t with sidecar := some (sidecarLine base sum) }
  | .refused => t
  | .cut k => { t with sidecar := some ((sidecarLine base sum).take k) }

end

/-! ## What a copy writes -/

variable {faults : Faults} {src : Stream} {c c' : Copy} {b : Bytes} {ok : Bool}

theorem writeChunk_cases (h : writeChunk faults b c = (c', ok)) :
    ∃ written, c'.content = c.content ++ written ∧ written <+: b ∧ c'.total = c.total ∧
      (ok = true → written = b) := by
  unfold writeChunk at h
  split at h
  · obtain ⟨rfl, rfl⟩ := Prod.mk.inj h
    exact ⟨_, rfl, List.take_prefix _ _, rfl, by simp⟩
  · dsimp only at h
    split_ifs at h <;> obtain ⟨rfl, rfl⟩ := Prod.mk.inj h <;>
      exact ⟨b, rfl, List.prefix_rfl, rfl, by simp⟩

/-- A copy appends a prefix of the stream and counts no more than it appended. A copy that
succeeds has read the stream to its end, appended all of it and counted it. -/
theorem copyChunks_cases (h : copyChunks faults src c = (c', ok)) :
    ∃ written, c'.content = c.content ++ written ∧ written <+: src.bytes ∧
      c'.total ≤ c.total + written.length ∧
      (ok = true → written = src.bytes ∧ c'.total = c.total + written.length ∧ src.Ends) := by
  induction src generalizing c with
  | nil =>
    obtain ⟨rfl, rfl⟩ := Prod.mk.inj h
    exact ⟨[], by simp, List.nil_prefix, by simp, by simp⟩
  | cons r rs ih =>
    rw [copyChunks] at h
    obtain ⟨⟨d, okChunk⟩, hchunk⟩ : ∃ p, (if r.data = [] then (c, true)
      else writeChunk faults r.data c) = p := ⟨_, rfl⟩
    obtain ⟨chunk, hcontent, hprefix, htotal, hall⟩ : ∃ written,
        d.content = c.content ++ written ∧ written <+: r.data ∧ d.total = c.total ∧
          (okChunk = true → written = r.data) := by
      split_ifs at hchunk with hnil
      · obtain ⟨rfl, rfl⟩ := Prod.mk.inj hchunk
        exact ⟨[], by simp, List.nil_prefix, rfl, fun _ => hnil.symm⟩
      · exact writeChunk_cases hchunk
    have hdata : r.data <+: Stream.bytes (r :: rs) := by
      rw [Stream.bytes]
      split_ifs
      · exact List.prefix_append _ _
      · exact List.prefix_rfl
    rw [hchunk] at h
    dsimp only at h
    split_ifs at h with hok
    · -- the chunk was written completely, and how the call ended decides
      obtain rfl := hall hok
      cases hending : r.ending with
      | eof =>
        simp only [hending] at h
        obtain ⟨rfl, rfl⟩ := Prod.mk.inj h
        exact ⟨_, hcontent, hdata, by simp [htotal],
          fun _ => ⟨by simp [Stream.bytes, hending], by simp [htotal], Or.inl hending⟩⟩
      | failed =>
        simp only [hending] at h
        obtain ⟨rfl, rfl⟩ := Prod.mk.inj h
        exact ⟨_, hcontent, hdata, by simp [htotal], by simp⟩
      | more =>
        simp only [hending] at h
        obtain ⟨tail, hcontent', hprefix', hle, htail⟩ := ih h
        have hbytes : Stream.bytes (r :: rs) = r.data ++ Stream.bytes rs := by
          simp [Stream.bytes, hending]
        dsimp only at hcontent' hle htail
        refine ⟨r.data ++ tail, by rw [hcontent', hcontent, List.append_assoc], ?_, ?_, ?_⟩
        · rw [hbytes]
          exact (List.prefix_append_right_inj _).mpr hprefix'
        · rw [List.length_append]
          omega
        · intro hok'
          obtain ⟨rfl, hcount, hends⟩ := htail hok'
          exact ⟨hbytes.symm, by rw [List.length_append]; omega, Or.inr ⟨hending, hends⟩⟩
    · -- the write failed: what it wrote is there, and is not counted
      obtain ⟨rfl, rfl⟩ := Prod.mk.inj h
      exact ⟨chunk, hcontent, hprefix.trans hdata, by omega, by simp⟩

/-- Without faults, copying a stream that ends succeeds. -/
theorem copyChunks_ok (hwrite : ∀ i, faults.write i = none) (hsync : ∀ i, faults.sync i = false)
    (hends : src.Ends) : (copyChunks faults src c).2 = true := by
  have hchunk (b : Bytes) (c : Copy) : (writeChunk faults b c).2 = true := by
    simp only [writeChunk, hwrite, hsync, Bool.false_eq_true, if_false]
    split_ifs <;> rfl
  induction src generalizing c with
  | nil => simp [copyChunks, hsync]
  | cons r rs ih =>
    have hpair : (if r.data = [] then (c, true) else writeChunk faults r.data c).2 = true := by
      split_ifs
      · rfl
      · exact hchunk _ _
    rw [copyChunks]
    dsimp only
    rw [if_pos hpair]
    rcases hends with heof | ⟨hmore, hrest⟩
    · simp [heof, hsync]
    · simp only [hmore]
      exact ih hrest

/-! ## What the operations leave -/

variable {base : String} {limit n : ℕ} {sha256 : Bytes → Digest} {t t' : Target}
  {sum : Option Digest}

/-- Appending touches the staging file only and appends a prefix of the limited stream. -/
theorem appendStream_cases (h : appendStream faults src limit t = (t', n, ok)) :
    ∃ written, written <+: src.bytes.take limit ∧ n ≤ written.length ∧
      (t' = { t with part := some (t.part.getD [] ++ written) } ∨ t' = t ∧ ok = false) ∧
      (ok = true → written = src.bytes.take limit ∧ n = written.length ∧
        (src.limit limit).Ends) := by
  unfold appendStream at h
  split_ifs at h
  · obtain ⟨rfl, hn, hok⟩ : t = t' ∧ 0 = n ∧ false = ok := by simpa using h
    exact ⟨[], List.nil_prefix, by omega, Or.inr ⟨rfl, hok.symm⟩, by simp [← hok]⟩
  · obtain ⟨⟨c, okCopy⟩, hcopy⟩ : ∃ p,
        copyCountedSynced faults (t.part.getD []) (src.limit limit) = p := ⟨_, rfl⟩
    rw [hcopy] at h
    obtain ⟨rfl, rfl, rfl⟩ : _ = t' ∧ _ = n ∧ _ = ok := by simpa using h
    obtain ⟨written, hcontent, hprefix, hle, hall⟩ := copyChunks_cases hcopy
    rw [Stream.bytes_limit] at hprefix
    refine ⟨written, hprefix, by simpa using hle, Or.inl (by rw [hcontent]), fun hok => ?_⟩
    obtain ⟨hwritten, htotal, hends⟩ := hall (by simp_all)
    rw [Stream.bytes_limit] at hwritten
    exact ⟨hwritten, by simpa using htotal, hends⟩

theorem appendStream_ok (hopen : faults.openPart = false) (hclose : faults.closePart = false)
    (hwrite : ∀ i, faults.write i = none) (hsync : ∀ i, faults.sync i = false)
    (hends : (src.limit limit).Ends) : (appendStream faults src limit t).2.2 = true := by
  simp [appendStream, hopen, hclose, copyCountedSynced, copyChunks_ok hwrite hsync hends]

/-- Without faults a copy appends what the stream gives until it ends or fails. -/
theorem copyChunks_none (src : Stream) (c : Copy) :
    ∃ c', copyChunks Faults.none src c = (c', decide src.Ends) ∧
      c'.content = c.content ++ src.bytes ∧ c'.total = c.total + src.bytes.length := by
  induction src generalizing c with
  | nil => exact ⟨c, by simp [copyChunks, Faults.none], by simp, by simp⟩
  | cons r rs ih =>
    obtain ⟨d, hd, hcontent, htotal⟩ : ∃ d, (if r.data = [] then (c, true)
        else writeChunk Faults.none r.data c) = (d, true) ∧
        d.content = c.content ++ r.data ∧ d.total = c.total := by
      by_cases hnil : r.data = []
      · exact ⟨c, by rw [if_pos hnil], by simp [hnil], rfl⟩
      · rw [if_neg hnil]
        by_cases hpending : c.pending + r.data.length < syncEvery <;>
          simp [writeChunk, Faults.none, hpending]
    rw [copyChunks, hd]
    cases hending : r.ending with
    | more =>
      obtain ⟨c', hc', hcontent', htotal'⟩ := ih { d with total := d.total + r.data.length }
      refine ⟨c', by simp [hending, hc', Stream.Ends], ?_, ?_⟩
      · simp [hcontent', hcontent, Stream.bytes, hending]
      · simp [htotal', htotal, Stream.bytes, hending, Nat.add_assoc]
    | eof =>
      exact ⟨_, by simp [hending, Stream.Ends, Faults.none]; rfl, by simp [hcontent, Stream.bytes,
        hending], by simp [htotal, Stream.bytes, hending]⟩
    | failed =>
      exact ⟨_, by simp [hending, Stream.Ends]; rfl, by simp [hcontent, Stream.bytes, hending],
        by simp [htotal, Stream.bytes, hending]⟩

theorem appendStream_none (src : Stream) (limit : ℕ) (t : Target) :
    appendStream Faults.none src limit t =
      ({ t with part := some (t.part.getD [] ++ src.bytes.take limit) },
        (src.bytes.take limit).length, decide (src.limit limit).Ends) := by
  obtain ⟨c, hcopy, hcontent, htotal⟩ :=
    copyChunks_none (src.limit limit) ⟨t.part.getD [], 0, 0, 0, 0⟩
  rw [Stream.bytes_limit] at hcontent htotal
  rw [Nat.zero_add] at htotal
  rw [appendStream, if_neg (by decide), copyCountedSynced, hcopy]
  simp [hcontent, htotal, Faults.none]

/-- Saving publishes the whole stream, or leaves the published file and its sidecar alone. -/
theorem saveStream_cases (h : saveStream faults sha256 src t = (t', sum)) :
    (sum = some (sha256 src.bytes) ∧ src.Ends ∧
        t' = { t with file := some src.bytes, part := none }) ∨
      (sum = none ∧ t'.file = t.file ∧ t'.sidecar = t.sidecar) := by
  by_cases hopen : faults.openPart = true
  · rw [saveStream, if_pos hopen] at h
    obtain ⟨rfl, rfl⟩ := Prod.mk.inj h
    exact Or.inr ⟨rfl, rfl, rfl⟩
  · obtain ⟨⟨c, okCopy⟩, hcopy⟩ : ∃ p, copyCountedSynced faults [] src = p := ⟨_, rfl⟩
    obtain ⟨written, hcontent, -, -, hall⟩ := copyChunks_cases hcopy
    rw [saveStream, if_neg hopen, hcopy] at h
    by_cases hok : okCopy = true ∧ ¬ faults.closePart = true ∧ ¬ faults.rename = true
    · simp only [if_pos hok] at h
      obtain ⟨rfl, rfl⟩ := Prod.mk.inj h
      obtain ⟨rfl, -, hends⟩ := hall hok.1
      exact Or.inl ⟨rfl, hends, by rw [hcontent, List.nil_append]⟩
    · simp only [if_neg hok] at h
      obtain ⟨rfl, rfl⟩ := Prod.mk.inj h
      exact Or.inr ⟨rfl, rfl, rfl⟩

theorem saveStream_ok (hopen : faults.openPart = false) (hclose : faults.closePart = false)
    (hrename : faults.rename = false) (hwrite : ∀ i, faults.write i = none)
    (hsync : ∀ i, faults.sync i = false) (hends : src.Ends) :
    saveStream faults sha256 src t =
      ({ t with file := some src.bytes, part := none }, some (sha256 src.bytes)) := by
  obtain ⟨⟨t', sum⟩, hsave⟩ : ∃ p, saveStream faults sha256 src t = p := ⟨_, rfl⟩
  rcases saveStream_cases hsave with ⟨rfl, -, rfl⟩ | ⟨rfl, -, -⟩
  · exact hsave
  · simp [saveStream, hopen, hclose, hrename, copyCountedSynced,
      copyChunks_ok hwrite hsync hends] at hsave

theorem saveStream_none (src : Stream) (t : Target) :
    saveStream Faults.none sha256 src t =
      if src.Ends then ({ t with file := some src.bytes, part := none }, some (sha256 src.bytes))
      else ({ t with part := none }, none) := by
  obtain ⟨c, hcopy, hcontent, -⟩ := copyChunks_none src ⟨[], 0, 0, 0, 0⟩
  rw [List.nil_append] at hcontent
  rw [saveStream, if_neg (by decide), copyCountedSynced, hcopy]
  by_cases hends : src.Ends <;> simp [hends, hcontent, Faults.none]

@[simp] theorem writeSidecar_file (sum : Digest) :
    (writeSidecar base faults sum t).file = t.file := by
  unfold writeSidecar
  cases faults.sidecar <;> rfl

@[simp] theorem writeSidecar_part (sum : Digest) :
    (writeSidecar base faults sum t).part = t.part := by
  unfold writeSidecar
  cases faults.sidecar <;> rfl

/-- What the sixteen digits have in common. -/
theorem forall_mem_hexDigits {b : Bytes} {p : Char → Prop} (hp : ∀ n < 16, p (Nat.digitChar n)) :
    ∀ d ∈ hexDigits b, p d := by
  intro d h
  obtain ⟨a, -, hd⟩ := List.mem_flatMap.mp h
  have ha : a.toNat < 256 := a.toNat_lt
  simp only [List.mem_cons, List.not_mem_nil, or_false] at hd
  rcases hd with rfl | rfl
  · exact hp _ (by omega)
  · exact hp _ (by omega)

theorem hexDigits_not_space {b : Bytes} : ∀ d ∈ hexDigits b, ¬ IsUnicodeSpace d := by
  refine forall_mem_hexDigits fun n hn => ?_
  interval_cases n <;> decide

theorem hexDigits_ne_nil (sum : Digest) : hexDigits sum.1 ≠ [] := by
  obtain ⟨b, hb⟩ := sum
  cases b with
  | nil => simp at hb
  | cons a b => simp [hexDigits]

/-- **Round trip.** The recorded digest is read back, whatever the name of the file. -/
theorem readSidecar_sidecarLine (sum : Digest) :
    readSidecar (some (sidecarLine base sum)) = hexDigits sum.1 := by
  obtain ⟨d, ds, hdigits⟩ := List.exists_cons_of_ne_nil (hexDigits_ne_nil sum)
  -- the first field is the digest: it begins with no blank and ends at the two blanks
  have hd : ¬ IsUnicodeSpace d := hexDigits_not_space d (by rw [hdigits]; simp)
  simp only [readSidecar, sidecarLine, Utf8.decode_encode]
  rw [hdigits, List.cons_append, List.cons_append, List.cons_append,
    List.dropWhile_cons_of_neg (by simpa using hd), ← List.cons_append, ← List.cons_append,
    ← List.cons_append, ← hdigits, List.append_assoc, List.append_assoc,
    List.takeWhile_append_of_pos]
  · rw [List.cons_append, List.takeWhile_cons_of_neg (by decide), List.append_nil]
  · intro c hc
    simpa using hexDigits_not_space c hc

end WinDep
