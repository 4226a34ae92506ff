/-
# The catalogue of a WIM file

A WIM file has its catalogue as UTF-16 text at a place that its header records.
Only the header and the catalogue are read.
-/

import WinDep.Data.Utf16

namespace WinDep.Wim

/-! ## The source -/

/-- `"MSWIM\x00\x00\x00"` -/
def wimMagic : Bytes := [0x4D, 0x53, 0x57, 0x49, 0x4D, 0, 0, 0]

def wimHeaderLen : ℕ := 208

/-- byte offset of rhXmlData within the header -/
def xmlReshdrOff : ℕ := 72

def reshdrCompressed : UInt8 := 0x04

/-- `64 << 20` -/
def xmlSizeCap : UInt64 := 67108864

inductive WimError
  | open
  | notWim
  /-- "WIM XML metadata is compressed (unsupported)" -/
  | compressed
  | read
  deriving DecidableEq

/-- `binary.LittleEndian.Uint64` of eight bytes -/
def uint64 (bs : Bytes) : UInt64 := UInt64.ofNat (LittleEndian.toNat bs)

/-- `io.ReadFull` at the start of the file -/
def readFull (file : Bytes) (n : ℕ) : Option Bytes :=
  if file.length < n then none else some (file.take n)

/-- `f.ReadAt`, which fails before the file and past its end -/
def readAt (file : Bytes) (n : ℕ) (offset : Int64) : Option Bytes :=
  if offset < 0 then none else readFull (file.drop offset.toInt.toNat) n

/-- A string from UTF-16LE bytes, without the byte order mark. -/
def decodeUTF16LE (b : Bytes) : String :=
  let b := match b with
    | 0xFF :: 0xFE :: rest => rest
    | _ => b
  String.ofList (Utf16.decode (Utf16.units b))

/-- The catalogue of a file, if it can be opened. -/
def wimXML (file : Option Bytes) : Except WimError String :=
  match file with
  | none => .error .open
  | some file =>
    match readFull file wimHeaderLen with
    | none => .error .notWim
    | some hdr =>
      if hdr.take 8 ≠ wimMagic then .error .notWim
      else
        -- 7-byte size and 1-byte flags, then the offset
        let rh := hdr.drop xmlReshdrOff
        let sizeFlags := uint64 (rh.take 8)
        let size := sizeFlags &&& 0x00FFFFFFFFFFFFFF
        let flags := (sizeFlags >>> 56).toUInt8
        let offset := uint64 ((rh.drop 8).take 8)
        if flags &&& reshdrCompressed ≠ 0 then .error .compressed
        else if size = 0 ∨ xmlSizeCap < size then .error .notWim
        else
          match readAt file size.toNat offset.toInt64 with
          | none => .error .read
          | some buf => .ok (decodeUTF16LE buf)

/-! ## Files with a catalogue -/

/-- The bytes of a catalogue. -/
def blob (s : String) : Bytes := 0xFF :: 0xFE :: (Utf16.encode s.toList).flatMap Utf16.toBytes

/-- The number in eight bytes of a file. -/
def numberAt (file : Bytes) (offset : ℕ) : ℕ := LittleEndian.toNat ((file.drop offset).take 8)

/-- The file holds the text as its catalogue; its other bytes are arbitrary. -/
structure HoldsCatalogue (file : Bytes) (s : String) : Prop where
  header : wimHeaderLen ≤ file.length
  magic : file.take 8 = wimMagic
  size : numberAt file xmlReshdrOff % 2 ^ 56 = (blob s).length
  uncompressed : (numberAt file xmlReshdrOff).testBit 58 = false
  offset : numberAt file (xmlReshdrOff + 8) < 2 ^ 63
  fits : (blob s).length ≤ xmlSizeCap.toNat
  held : blob s <+: file.drop (numberAt file (xmlReshdrOff + 8))

/-- A file whose catalogue comes right after its header. -/
def buildWim (s : String) : Bytes :=
  (wimMagic ++ List.replicate 64 0) ++ (LittleEndian.ofNat 8 (blob s).length ++
    (LittleEndian.ofNat 8 wimHeaderLen ++ (LittleEndian.ofNat 8 (blob s).length ++
      List.replicate 112 0 ++ blob s)))

variable {file : Bytes} {s : String}

@[simp] theorem decodeUTF16LE_blob (s : String) : decodeUTF16LE (blob s) = s := by
  simp [decodeUTF16LE, blob]

/-- A prefix of the rest of a file is what is read there. -/
theorem readFull_of_prefix {b : Bytes} (h : b <+: file) : readFull file b.length = some b := by
  rw [readFull, if_neg (Nat.not_lt.mpr h.length_le), ← List.prefix_iff_eq_take.mp h]

theorem toNat_uint64 {offset : ℕ} :
    (uint64 ((file.drop offset).take 8)).toNat = numberAt file offset := by
  have hlength : ((file.drop offset).take 8).length ≤ 8 := by
    rw [List.length_take]
    exact Nat.min_le_left _ _
  have hlt : numberAt file offset < 2 ^ 64 :=
    calc numberAt file offset < 256 ^ ((file.drop offset).take 8).length := LittleEndian.toNat_lt _
      _ ≤ 256 ^ 8 := Nat.pow_le_pow_right (by decide) hlength
      _ = 2 ^ 64 := by norm_num
  exact UInt64.toNat_ofNat_of_lt' hlt

/-- The size is the low seven bytes. -/
theorem toNat_size (x : UInt64) : (x &&& 0x00FFFFFFFFFFFFFF).toNat = x.toNat % 2 ^ 56 := by
  rw [UInt64.toNat_and]
  exact Nat.and_two_pow_sub_one_eq_mod x.toNat 56

/-- The compressed flag is the third bit of the highest byte. -/
theorem compressed_eq_zero {x : UInt64} (h : x.toNat.testBit 58 = false) :
    (x >>> 56).toUInt8 &&& reshdrCompressed = 0 := by
  rw [← UInt8.toNat_inj, UInt8.toNat_and]
  have hflags : (x >>> 56).toUInt8.toNat = x.toNat / 2 ^ 56 % 2 ^ 8 := by
    simp [Nat.shiftRight_eq_div_pow]
  rw [hflags]
  change x.toNat / 2 ^ 56 % 2 ^ 8 &&& 2 ^ 2 = 0
  apply Nat.eq_of_testBit_eq
  intro i
  rw [Nat.testBit_and, Nat.testBit_two_pow, Nat.zero_testBit, Bool.and_eq_false_iff]
  by_cases hi : 2 = i
  · -- the only bit that is asked for
    subst hi
    rw [Nat.testBit_mod_two_pow, Nat.testBit_div_two_pow, h]
    exact .inl rfl
  · exact .inr (decide_eq_false hi)

/-- An offset that is no negative number is itself. -/
theorem toInt_toInt64 {x : UInt64} (h : x.toNat < 2 ^ 63) : x.toInt64.toInt = x.toNat := by
  have hlt : 2 * x.toBitVec.toNat < 2 ^ 64 := by
    change 2 * x.toNat < 2 ^ 64
    omega
  exact BitVec.toInt_eq_toNat_of_lt hlt

theorem readAt_of_lt {x : UInt64} (h : x.toNat < 2 ^ 63) (n : ℕ) :
    readAt file n x.toInt64 = readFull (file.drop x.toNat) n := by
  have hint := toInt_toInt64 h
  have hnonneg : ¬ x.toInt64 < 0 := by
    rw [Int64.lt_iff_toInt_lt, hint]
    exact Int.not_lt.mpr (Int.natCast_nonneg _)
  rw [readAt, if_neg hnonneg, hint, Int.toNat_natCast]

/-- The eight bytes of the header at an offset are those of the file. -/
theorem uint64_header (file : Bytes) (k : ℕ) (hk : xmlReshdrOff + k + 8 ≤ wimHeaderLen) :
    uint64 ((((file.take wimHeaderLen).drop xmlReshdrOff).drop k).take 8) =
      uint64 ((file.drop (xmlReshdrOff + k)).take 8) := by
  rw [List.drop_drop, List.drop_take, List.take_take, Nat.min_eq_left (by omega)]

/-- Eight bytes that were written are read back. -/
theorem numberAt_of_written {before after : Bytes} {offset n : ℕ} (hoffset : before.length = offset)
    (hn : n < 2 ^ 64) : numberAt (before ++ (LittleEndian.ofNat 8 n ++ after)) offset = n := by
  rw [numberAt, List.drop_left' hoffset, List.take_left' (LittleEndian.length_ofNat 8 n),
    LittleEndian.toNat_ofNat]
  exact Nat.mod_eq_of_lt hn

/-- A built file holds its catalogue. -/
theorem holdsCatalogue_buildWim (h : (blob s).length ≤ xmlSizeCap.toNat) :
    HoldsCatalogue (buildWim s) s := by
  have hcap : xmlSizeCap.toNat < 2 ^ 56 := by decide
  have hsize : numberAt (buildWim s) xmlReshdrOff = (blob s).length :=
    numberAt_of_written rfl (by omega)
  have hoffset : numberAt (buildWim s) (xmlReshdrOff + 8) = wimHeaderLen := by
    rw [buildWim, ← List.append_assoc]
    exact numberAt_of_written (by simp [wimMagic, xmlReshdrOff]) (by decide)
  obtain ⟨front, hfront, hlength⟩ :
      ∃ front, buildWim s = front ++ blob s ∧ front.length = wimHeaderLen := by
    refine ⟨_, by rw [buildWim]; simp only [← List.append_assoc]; rfl, ?_⟩
    simp only [wimMagic, wimHeaderLen, List.length_append, List.length_replicate,
      LittleEndian.length_ofNat, List.length_cons, List.length_nil]
  have hheld : blob s <+: (buildWim s).drop wimHeaderLen := by
    simp only [hfront, List.drop_left' hlength, List.prefix_rfl]
  exact {
    header := by
      rw [hfront, List.length_append, hlength]
      exact Nat.le_add_right _ _
    magic := rfl
    size := by rw [hsize, Nat.mod_eq_of_lt (by omega)]
    uncompressed := by
      rw [hsize]
      exact Nat.testBit_lt_two_pow (by omega)
    offset := hoffset.trans_lt (by decide)
    fits := h
    held := hoffset.symm ▸ hheld }

/-- **Round trip.** The catalogue that a file holds is read back. -/
theorem wimXML_of_holdsCatalogue (h : HoldsCatalogue file s) : wimXML (some file) = .ok s := by
  have hheader : readFull file wimHeaderLen = some (file.take wimHeaderLen) :=
    if_neg (Nat.not_lt.mpr h.header)
  have hmagic : ¬ (file.take wimHeaderLen).take 8 ≠ wimMagic := by
    rw [List.take_take, Nat.min_eq_left (by decide), h.magic]
    exact not_not.mpr rfl
  have hsizeFlags := uint64_header file 0 (by decide)
  have hoffset := uint64_header file 8 (by decide)
  -- the size is that of the blob, which is neither empty nor too long
  have hsize : (uint64 ((file.drop xmlReshdrOff).take 8) &&& 0x00FFFFFFFFFFFFFF).toNat =
      (blob s).length := by
    rw [toNat_size, toNat_uint64, h.size]
  have hpositive : 0 < (blob s).length := Nat.succ_pos _
  have hbounded : ¬ (uint64 ((file.drop xmlReshdrOff).take 8) &&& 0x00FFFFFFFFFFFFFF = 0 ∨
      xmlSizeCap < uint64 ((file.drop xmlReshdrOff).take 8) &&& 0x00FFFFFFFFFFFFFF) := by
    rw [← UInt64.toNat_inj, UInt64.lt_iff_toNat_lt, hsize]
    exact not_or.mpr ⟨hpositive.ne', Nat.not_lt.mpr h.fits⟩
  have hread : readAt file (blob s).length
      (uint64 ((file.drop (xmlReshdrOff + 8)).take 8)).toInt64 = some (blob s) := by
    rw [readAt_of_lt (by rw [toNat_uint64]; exact h.offset), toNat_uint64]
    exact readFull_of_prefix h.held
  have hflag := compressed_eq_zero (x := uint64 ((file.drop xmlReshdrOff).take 8))
    (by rw [toNat_uint64]; exact h.uncompressed)
  rw [List.drop_zero, Nat.add_zero] at hsizeFlags
  simp only [wimXML, hheader, if_neg hmagic, hsizeFlags, hoffset, hflag, ne_eq, not_true,
    if_false, if_neg hbounded, hsize, hread, decodeUTF16LE_blob]

/-- A character outside the basic plane is read back. -/
theorem wimXML_buildWim_disc : wimXML (some (buildWim (Char.ofNat 0x1F4BF).toString)) =
    .ok (Char.ofNat 0x1F4BF).toString :=
  wimXML_of_holdsCatalogue (holdsCatalogue_buildWim (by decide))

end WinDep.Wim
