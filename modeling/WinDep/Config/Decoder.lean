/-
# The decoders as they are written

The admin and the api each carry a copy of the decoder, with slices, a padding
loop and a cipher that panics on a buffer that is no whole number of blocks. Here
both copies are written out with these operations. Neither can panic, both give
what opening an envelope gives, and an envelope that opens is the one that
sealing its plaintext under its own vector gives.
-/

import WinDep.Config.Envelope
import WinDep.Data.Program
import Mathlib.Data.Set.Finite.List

namespace WinDep

namespace Envelope

/-- Why a decoder does not give a plaintext. -/
inductive Stop
  | error (e : Error)
  | keySize
  | panic
  deriving DecidableEq

/-! ## Operations that may panic -/

/-- `b[lo:hi]`. The bound is the length: nothing here reaches into spare capacity. -/
def slice (b : Bytes) (lo hi : ℤ) : Except Stop Bytes :=
  if 0 ≤ lo ∧ lo ≤ hi ∧ hi ≤ b.length then .ok ((b.take hi.toNat).drop lo.toNat)
  else .error .panic

/-- `b[i]` -/
def index (b : Bytes) (i : ℤ) : Except Stop UInt8 :=
  if i < 0 then .error .panic else (b[i.toNat]?).elim (.error .panic) .ok

/-- `n % block`, which panics on a division by zero. -/
def remainder (n block : ℕ) : Except Stop ℕ :=
  if block = 0 then .error .panic else .ok (n % block)

/-- `aes.NewCipher` refuses keys of other sizes. -/
def newCipher (key : Bytes) : Except Stop Bytes :=
  if key.length = 16 ∨ key.length = 24 ∨ key.length = 32 then .ok key else .error .keySize

/-- `cipher.NewCBCDecrypter(block, iv).CryptBlocks(dst, src)`; the result is the new `dst`. -/
def cryptBlocks (P : Primitives) (block iv dst src : Bytes) : Except Stop Bytes :=
  -- the decrypter checks the vector, the call both buffers
  if iv.length ≠ blockSize then .error .panic
  else if src.length % blockSize ≠ 0 then .error .panic
  else if dst.length < src.length then .error .panic
  else .ok (P.cbcDecrypt block iv src ++ dst.drop src.length)

def decodeString (s : Bytes) : Except Stop Bytes :=
  (Base64.decode (Utf8.decode s)).elim (.error (.error .illegalBase64)) .ok

/-- The loop over the padding bytes. -/
def checkPadding (n : ℤ) : Bytes → Except Stop Unit
  | [] => pure ()
  | c :: cs => if (c.toNat : ℤ) ≠ n then throw (.error .badPadding) else checkPadding n cs

end Envelope

/-! ## The admin's copy -/

namespace Admin.Slices

open Envelope

def pkcs7Unpad (b : Bytes) (block : ℕ) : Except Stop Bytes := do
  if b.length = 0 then throw (.error .badPaddingLength)
  if (← remainder b.length block) ≠ 0 then throw (.error .badPaddingLength)
  let n : ℤ := (← index b (b.length - 1)).toNat
  if n = 0 ∨ n > block ∨ n > b.length then throw (.error .badPadding)
  checkPadding n (← slice b (b.length - n) b.length)
  slice b 0 (b.length - n)

def decryptSecret (P : Primitives) (masterKey : Option Key) (s : Bytes) : Except Stop Bytes := do
  if !isEncrypted s then return s
  match masterKey with
  | none => throw (.error .noConfigKey)
  | some key =>
    let blob ← decodeString (s.drop encPrefix.length)
    if blob.length < blockSize + digestSize then throw (.error .ciphertextTooShort)
    let macAt : ℤ := blob.length - digestSize
    let iv ← slice blob 0 blockSize
    let ct ← slice blob blockSize macAt
    let tag ← slice blob macAt blob.length
    if P.hmacSha256 (subKey P key "mac") (← slice blob 0 macAt) ≠ tag then
      throw (.error .hmacMismatch)
    let block ← newCipher (subKey P key "enc")
    if ct.length % blockSize ≠ 0 then throw (.error .ciphertextNotBlockAligned)
    let out ← cryptBlocks P block iv (List.replicate ct.length 0) ct
    let unpadded ← pkcs7Unpad out blockSize
    return unpadded

end Admin.Slices

/-! ## The api's copy -/

namespace Api.Slices

open Envelope

def pkcs7Unpad (b : Bytes) (block : ℕ) : Except Stop Bytes := do
  if b.length = 0 then throw (.error .badPaddingLength)
  if (← remainder b.length block) ≠ 0 then throw (.error .badPaddingLength)
  let n : ℤ := (← index b (b.length - 1)).toNat
  if n = 0 ∨ n > block ∨ n > b.length then throw (.error .badPadding)
  checkPadding n (← slice b (b.length - n) b.length)
  -- here the string is made, in the admin its caller makes it
  slice b 0 (b.length - n)

def decryptSecret (P : Primitives) (masterKey : Option Key) (s : Bytes) : Except Stop Bytes := do
  if !isEncrypted s then return s
  match masterKey with
  | none => throw (.error .noConfigKey)
  | some key =>
    let blob ← decodeString (s.drop encPrefix.length)
    if blob.length < blockSize + digestSize then throw (.error .ciphertextTooShort)
    let macAt : ℤ := blob.length - digestSize
    let iv ← slice blob 0 blockSize
    let ct ← slice blob blockSize macAt
    let tag ← slice blob macAt blob.length
    if P.hmacSha256 (subKey P key "mac") (← slice blob 0 macAt) ≠ tag then
      throw (.error .hmacMismatch)
    let block ← newCipher (subKey P key "enc")
    if ct.length % blockSize ≠ 0 then throw (.error .ciphertextNotBlockAligned)
    let out ← cryptBlocks P block iv (List.replicate ct.length 0) ct
    pkcs7Unpad out blockSize

end Api.Slices

namespace Envelope

variable {P : Primitives} {key : Key} {masterKey : Option Key} {b s plain blob : Bytes}
  {lo hi n : ℤ} {block : ℕ}

theorem slice_eq (h : 0 ≤ lo ∧ lo ≤ hi ∧ hi ≤ b.length) :
    slice b lo hi = .ok ((b.take hi.toNat).drop lo.toNat) := if_pos h

theorem index_last (h : b ≠ []) : index b (b.length - 1) = .ok (b.getLast h) := by
  have hpos : 0 < b.length := List.length_pos_iff.mpr h
  have hlast : ((b.length : ℤ) - 1).toNat = b.length - 1 := by omega
  rw [index, if_neg (by omega), hlast, ← List.getLast?_eq_getElem?,
    List.getLast?_eq_getLast_of_ne_nil h]
  rfl

theorem checkPadding_eq :
    checkPadding n b =
      if ∃ c ∈ b, (c.toNat : ℤ) ≠ n then .error (.error .badPadding) else .ok () := by
  induction b with
  | nil => simp [checkPadding]; rfl
  | cons c cs ih =>
    rw [checkPadding]
    by_cases hc : (c.toNat : ℤ) = n
    · rw [if_neg (by simpa using hc), ih]
      simp [hc]
    · rw [if_pos hc, if_pos ⟨c, by simp, hc⟩]
      rfl

theorem remainder_eq (h : 0 < block) (m : ℕ) : remainder m block = .ok (m % block) :=
  if_neg (by omega)

theorem throw_bind {α β : Type} (e : Stop) (f : α → Except Stop β) :
    (throw e >>= f) = Except.error e := rfl

/-- The loop over slices computes the padding check on lists. -/
theorem pkcs7Unpad_slices (hblock : 0 < block) :
    Admin.Slices.pkcs7Unpad b block = (pkcs7Unpad b block).mapError .error := by
  by_cases hnil : b = []
  · subst hnil
    rfl
  have hlen : b.length ≠ 0 := by simpa using hnil
  rw [Admin.Slices.pkcs7Unpad, pkcs7Unpad, List.getLast?_eq_getLast_of_ne_nil hnil]
  simp only [if_neg hlen, remainder_eq hblock, index_last hnil, Program.ok_bind, throw_bind]
  generalize hn : (b.getLast hnil).toNat = n
  by_cases hmod : b.length % block ≠ 0
  · rw [if_pos hmod, if_pos hmod]
    rfl
  rw [if_neg hmod, if_neg hmod]
  by_cases hcount : n = 0 ∨ block < n ∨ b.length < n
  · rw [if_pos (by omega), if_pos hcount]
    rfl
  -- the count is within the text, so both slices are in range
  have hstart : ((b.length : ℤ) - n).toNat = b.length - n := by omega
  rw [if_neg (by omega), if_neg hcount, slice_eq (by omega), slice_eq (by omega), hstart,
    Program.ok_bind, checkPadding_eq]
  simp only [Int.toNat_natCast, List.take_length, ne_eq, Nat.cast_inj, Int.toNat_zero,
    List.drop_zero]
  by_cases hbad : ∃ c ∈ b.drop (b.length - n), ¬ c.toNat = n
  · rw [if_pos hbad, if_pos hbad]
    rfl
  · rw [if_neg hbad, if_neg hbad]
    rfl

theorem newCipher_subKey (label : String) :
    newCipher (subKey P key label) = .ok (subKey P key label) :=
  if_pos (.inr (.inr (length_subKey label)))

theorem cryptBlocks_eq {iv ct : Bytes} (hiv : iv.length = blockSize)
    (hct : ct.length % blockSize = 0) :
    cryptBlocks P b iv (List.replicate ct.length 0) ct = .ok (P.cbcDecrypt b iv ct) := by
  rw [cryptBlocks, if_neg (by simpa using hiv), if_neg (by simpa using hct), if_neg (by simp),
    List.drop_of_length_le (by simp), List.append_nil]

/-- The written decoder opens envelopes, and never slices out of range or hands the cipher a
buffer it panics on. -/
theorem decryptSecret_slices :
    Admin.Slices.decryptSecret P masterKey s = (openEnvelope P masterKey s).mapError .error := by
  unfold Admin.Slices.decryptSecret openEnvelope
  by_cases hsealed : isEncrypted s = true
  swap
  · simp only [Bool.not_eq_true] at hsealed
    rw [hsealed]
    rfl
  rw [hsealed]
  simp only [Bool.not_true, Bool.false_eq_true, if_false]
  cases masterKey with
  | none => rfl
  | some key =>
    simp only [decodeString]
    cases hblob : Base64.decode (Utf8.decode (s.drop encPrefix.length)) with
    | none => rfl
    | some blob =>
      simp only [Option.elim_some, Program.ok_bind, throw_bind, openBlob]
      by_cases hshort : blob.length < blockSize + digestSize
      · rw [if_pos hshort, if_pos hshort]
        rfl
      rw [if_neg hshort, if_neg hshort]
      -- the blob holds a vector and a tag, so all four slices are in range
      have hmacAt : ((blob.length : ℤ) - digestSize).toNat = blob.length - digestSize := by omega
      have hiv : (blob.take blockSize).length = blockSize := by
        rw [List.length_take]
        omega
      rw [slice_eq (by omega), slice_eq (by omega), slice_eq (by omega), slice_eq (by omega)]
      simp only [Program.ok_bind, hmacAt, Int.toNat_natCast, Int.toNat_zero, List.drop_zero,
        List.take_length]
      by_cases htag : P.hmacSha256 (subKey P key "mac") (blob.take (blob.length - digestSize)) ≠
          blob.drop (blob.length - digestSize)
      · rw [if_pos htag, if_pos htag]
        rfl
      rw [if_neg htag, if_neg htag, newCipher_subKey, Program.ok_bind]
      by_cases hct : ((blob.take (blob.length - digestSize)).drop blockSize).length % blockSize ≠ 0
      · rw [if_pos hct, if_pos hct]
        rfl
      rw [if_neg hct, if_neg hct, cryptBlocks_eq hiv (not_not.mp hct), Program.ok_bind,
        pkcs7Unpad_slices (by decide)]

/-- The two copies are the same program. -/
theorem decryptSecret_copies :
    Api.Slices.decryptSecret P masterKey s = Admin.Slices.decryptSecret P masterKey s := rfl

/-! ## What opens was sealed -/

/-- Padding is the inverse of unpadding where unpadding succeeds. -/
theorem pkcs7Pad_of_pkcs7Unpad (h : pkcs7Unpad b block = .ok plain) :
    pkcs7Pad plain block = b := by
  unfold pkcs7Unpad at h
  split at h
  · cases h
  next last hlast =>
    dsimp only at h
    split_ifs at h with hmod hcount hbad
    simp only [not_not] at hmod
    simp only [not_or, not_lt] at hcount
    obtain ⟨hpos, hle, hlen⟩ := hcount
    rw [Except.ok.injEq] at h
    subst h
    -- the text is some blocks, less the padding that fills the last one
    obtain ⟨k, hk⟩ := Nat.dvd_of_mod_eq_zero hmod
    have hplain : (b.take (b.length - last.toNat)).length = b.length - last.toNat := by
      rw [List.length_take]
      omega
    have hfill : block - (b.length - last.toNat) % block = last.toNat := by
      obtain ⟨j, rfl⟩ : ∃ j, k = j + 1 :=
        Nat.exists_eq_add_one.mpr (Nat.pos_of_ne_zero fun hk0 => by
          rw [hk0, Nat.mul_zero] at hk
          omega)
      have hsplit : b.length - last.toNat = block - last.toNat + block * j := by
        rw [hk, Nat.mul_succ]
        omega
      rw [hsplit, Nat.add_mul_mod_self_left]
      rcases Nat.lt_or_ge (block - last.toNat) block with hlt | hge
      · rw [Nat.mod_eq_of_lt hlt]
        omega
      · omega
    have hdrop : b.drop (b.length - last.toNat) =
        List.replicate last.toNat (UInt8.ofNat last.toNat) := by
      rw [List.eq_replicate_iff]
      refine ⟨by rw [List.length_drop]; omega, fun c hc => ?_⟩
      have hcn : c.toNat = last.toNat := not_not.mp fun hne => hbad ⟨c, hc, hne⟩
      rw [← hcn, UInt8.ofNat_toNat]
    rw [pkcs7Pad]
    simp only [hplain, hfill]
    rw [← hdrop, List.take_append_drop]

/-- On texts of one length an injection that keeps the length is onto. -/
theorem exists_of_injOn {f : Bytes → Bytes} {n : ℕ} (hlen : ∀ b, b.length = n → (f b).length = n)
    (hinj : ∀ b c, b.length = n → c.length = n → f b = f c → b = c) (h : b.length = n) :
    ∃ c : Bytes, c.length = n ∧ f c = b := by
  have : Finite UInt8 := Finite.of_injective UInt8.toFin fun _ _ => UInt8.toFin_inj.mp
  have : Finite {b : Bytes // b.length = n} := (List.finite_length_eq UInt8 n).to_subtype
  let g : {b : Bytes // b.length = n} → {b : Bytes // b.length = n} := fun b => ⟨f b, hlen b b.2⟩
  have hg : Function.Injective g := fun b c hbc =>
    Subtype.ext (hinj b c b.2 c.2 (congrArg Subtype.val hbc))
  obtain ⟨c, hc⟩ := Finite.surjective_of_injective hg ⟨b, h⟩
  exact ⟨c, c.2, congrArg Subtype.val hc⟩

/-- On whole blocks of one length decryption inverts an injection, so it is inverted by it. -/
theorem cbcEncrypt_cbcDecrypt {iv ct : Bytes} (hkey : b.length = 32) (hiv : iv.length = blockSize)
    (hct : blockSize ∣ ct.length) : P.cbcEncrypt b iv (P.cbcDecrypt b iv ct) = ct := by
  have hround : ∀ plain : Bytes, plain.length = ct.length →
      P.cbcDecrypt b iv (P.cbcEncrypt b iv plain) = plain := fun plain hplain =>
    P.cbcDecrypt_cbcEncrypt hkey hiv (hplain ▸ hct)
  obtain ⟨plain, hplain, rfl⟩ := exists_of_injOn (f := P.cbcEncrypt b iv)
    (fun plain hplain => (P.length_cbcEncrypt hkey hiv (hplain ▸ hct)).trans hplain)
    (fun p q hp hq heq => by rw [← hround p hp, heq, hround q hq]) (rfl : ct.length = ct.length)
  rw [hround plain hplain]

/-- A blob that opens is the vector, the ciphertext and the tag of its plaintext. -/
theorem openBlob_eq_ok (h : openBlob P key blob = .ok plain) :
    ∃ iv : IV, iv.1 = blob.take blockSize ∧
      blob = iv.1 ++ P.cbcEncrypt (subKey P key "enc") iv.1 (pkcs7Pad plain blockSize) ++
        P.hmacSha256 (subKey P key "mac")
          (iv.1 ++ P.cbcEncrypt (subKey P key "enc") iv.1 (pkcs7Pad plain blockSize)) := by
  unfold openBlob at h
  dsimp only at h
  split_ifs at h with hshort htag hct
  simp only [not_lt] at hshort
  simp only [ne_eq, not_not] at htag hct
  set message := blob.take (blob.length - digestSize) with hmessage
  have hivlen : (blob.take blockSize).length = blockSize := by
    rw [List.length_take]
    omega
  have hpad := pkcs7Pad_of_pkcs7Unpad h
  have hkey : (subKey P key "enc").length = 32 := length_subKey "enc"
  have hciphertext : P.cbcEncrypt (subKey P key "enc") (blob.take blockSize)
      (P.cbcDecrypt (subKey P key "enc") (blob.take blockSize) (message.drop blockSize)) =
        message.drop blockSize :=
    cbcEncrypt_cbcDecrypt hkey hivlen (Nat.dvd_of_mod_eq_zero hct)
  have hsplit : blob.take blockSize ++ message.drop blockSize = message := by
    have htake : message.take blockSize = blob.take blockSize := by
      rw [hmessage, List.take_take]
      congr 1
      omega
    rw [← htake, List.take_append_drop]
  refine ⟨⟨blob.take blockSize, hivlen⟩, rfl, ?_⟩
  dsimp only
  rw [hpad, hciphertext, hsplit, htag, hmessage, List.take_append_drop]

end Envelope

open Envelope

/-- **Only genuine envelopes are accepted, by both copies alike.** No copy panics or refuses the
key. When an envelope opens to a plaintext, its payload is the blob that sealing that plaintext
under the payload's own vector gives, part by part. -/
theorem decryptSecret_genuine (P : Primitives) (key : Key) (s : Bytes) :
    (∃ r : Except Error Bytes,
      Admin.Slices.decryptSecret P (some key) s = r.mapError .error ∧
        Api.Slices.decryptSecret P (some key) s = r.mapError .error) ∧
      ∀ plain, isEncrypted s = true → Admin.Slices.decryptSecret P (some key) s = .ok plain →
        ∃ blob, ∃ iv : IV, Base64.decode (Utf8.decode (s.drop encPrefix.length)) = some blob ∧
          Base64.decode (Utf8.decode ((envelope P key iv plain).drop encPrefix.length)) =
            some blob ∧
          iv.1 = blob.take blockSize ∧
          blob = iv.1 ++ P.cbcEncrypt (subKey P key "enc") iv.1 (pkcs7Pad plain blockSize) ++
            P.hmacSha256 (subKey P key "mac")
              (iv.1 ++ P.cbcEncrypt (subKey P key "enc") iv.1 (pkcs7Pad plain blockSize)) := by
  refine ⟨⟨openEnvelope P (some key) s, decryptSecret_slices,
    decryptSecret_copies.trans decryptSecret_slices⟩, fun plain hsealed hopen => ?_⟩
  have hok : openEnvelope P (some key) s = .ok plain := by
    rw [decryptSecret_slices] at hopen
    cases hresult : openEnvelope P (some key) s with
    | error e =>
      rw [hresult] at hopen
      cases hopen
    | ok p =>
      rw [hresult] at hopen
      cases hopen
      rfl
  unfold openEnvelope at hok
  rw [hsealed] at hok
  simp only [Bool.not_true, Bool.false_eq_true, if_false] at hok
  cases hblob : Base64.decode (Utf8.decode (s.drop encPrefix.length)) with
  | none =>
    rw [hblob] at hok
    cases hok
  | some blob =>
    rw [hblob] at hok
    obtain ⟨iv, hiv, hpayload⟩ := openBlob_eq_ok hok
    refine ⟨blob, iv, rfl, ?_, hiv, hpayload⟩
    rw [envelope, List.drop_left, Utf8.decode_encode, Base64.decode_encode, ← hpayload]

end WinDep
