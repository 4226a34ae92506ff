/-
# The secret envelope

A secret is stored as `enc:v1:` followed by the base64 text of the
initialization vector, the ciphertext and a tag over both. The admin seals and
opens envelopes, the api opens them, each with its own copy of the code. Opening
checks the tag before it decrypts, so every value that opens was authenticated.

The main result is that what the admin seals, both programs open.
-/

import WinDep.Config.Primitives
import WinDep.Data.Base64

namespace WinDep

namespace Envelope

variable (P : Primitives)

def encPrefix : Bytes := toBytes "enc:v1:"

def isEncrypted (s : Bytes) : Bool := encPrefix.isPrefixOf s

/-- Why an envelope does not open. -/
inductive Error
  | noConfigKey
  | illegalBase64
  | ciphertextTooShort
  | hmacMismatch
  | ciphertextNotBlockAligned
  | badPaddingLength
  | badPadding
  deriving DecidableEq, Repr

def subKey (masterKey : Key) (label : String) : Bytes :=
  P.hmacSha256 masterKey (toBytes label)

/-! ## Padding -/

def pkcs7Pad (b : Bytes) (block : ℕ) : Bytes :=
  let n := block - b.length % block
  b ++ List.replicate n (UInt8.ofNat n)

def pkcs7Unpad (b : Bytes) (block : ℕ) : Except Error Bytes :=
  match b.getLast? with
  | none => .error .badPaddingLength
  | some last =>
    let n := last.toNat
    -- the last byte counts the padding, and every byte of the padding repeats it
    if b.length % block ≠ 0 then .error .badPaddingLength
    else if n = 0 ∨ block < n ∨ b.length < n then .error .badPadding
    else if ∃ c ∈ b.drop (b.length - n), c.toNat ≠ n then .error .badPadding
    else .ok (b.take (b.length - n))

theorem dvd_length_pkcs7Pad {block : ℕ} (hblock : 0 < block) (b : Bytes) :
    block ∣ (pkcs7Pad b block).length := by
  have hlt := Nat.mod_lt b.length hblock
  have hdiv := Nat.div_add_mod b.length block
  refine ⟨b.length / block + 1, ?_⟩
  simp only [pkcs7Pad, List.length_append, List.length_replicate, mul_add, mul_one]
  omega

/-- **Round trip.** Padding to blocks of at most 255 bytes is undone. -/
theorem pkcs7Unpad_pkcs7Pad {block : ℕ} (hblock : 0 < block) (hbyte : block < 256) (b : Bytes) :
    pkcs7Unpad (pkcs7Pad b block) block = .ok b := by
  have hmod := Nat.mod_lt b.length hblock
  have hdvd := dvd_length_pkcs7Pad hblock b
  obtain ⟨k, hk⟩ : ∃ k, block - b.length % block = k + 1 :=
    Nat.exists_eq_add_one.mpr (by omega)
  -- the count of padding bytes fits in one of them
  have hlast : (UInt8.ofNat (k + 1)).toNat = k + 1 := by
    rw [UInt8.toNat_ofNat']
    exact Nat.mod_eq_of_lt (by omega)
  have hpad : pkcs7Pad b block = b ++ List.replicate (k + 1) (UInt8.ofNat (k + 1)) := by
    rw [pkcs7Pad, hk]
  have hlen : (pkcs7Pad b block).length - (k + 1) = b.length := by
    rw [hpad, List.length_append, List.length_replicate, Nat.add_sub_cancel]
  have hgetLast : (pkcs7Pad b block).getLast? = some (UInt8.ofNat (k + 1)) := by
    rw [hpad, List.replicate_succ', ← List.append_assoc, List.getLast?_concat]
  have hle : k + 1 ≤ (pkcs7Pad b block).length := by simp [hpad]
  rw [pkcs7Unpad, hgetLast]
  simp only [hlast, hlen]
  rw [if_neg (by simpa using Nat.mod_eq_zero_of_dvd hdvd), if_neg (by omega), if_neg,
    hpad, List.take_left]
  rintro ⟨c, hc, hne⟩
  rw [hpad, List.drop_left] at hc
  exact hne (List.eq_of_mem_replicate hc ▸ hlast)

/-! ## Sealing and opening -/

/-- The envelope around a plaintext. -/
def envelope (masterKey : Key) (iv : IV) (plain : Bytes) : Bytes :=
  let ct := P.cbcEncrypt (subKey P masterKey "enc") iv (pkcs7Pad plain blockSize)
  let blob := iv.1 ++ ct
  encPrefix ++ Utf8.encode (Base64.encode (blob ++ P.hmacSha256 (subKey P masterKey "mac") blob))

/-- The bytes an envelope carries, after its tag was checked. -/
def openBlob (masterKey : Key) (blob : Bytes) : Except Error Bytes :=
  if blob.length < blockSize + digestSize then .error .ciphertextTooShort
  else
    let macAt := blob.length - digestSize
    -- the tag is compared before anything is decrypted
    let iv := blob.take blockSize
    let ct := (blob.take macAt).drop blockSize
    let tag := blob.drop macAt
    if P.hmacSha256 (subKey P masterKey "mac") (blob.take macAt) ≠ tag then .error .hmacMismatch
    else if ct.length % blockSize ≠ 0 then .error .ciphertextNotBlockAligned
    else pkcs7Unpad (P.cbcDecrypt (subKey P masterKey "enc") iv ct) blockSize

/-- Open an envelope. Any other value is returned unchanged. -/
def openEnvelope (masterKey : Option Key) (s : Bytes) : Except Error Bytes :=
  if !isEncrypted s then .ok s
  else
    match masterKey with
    | none => .error .noConfigKey
    | some key =>
      match Base64.decode (Utf8.decode (s.drop encPrefix.length)) with
      | none => .error .illegalBase64
      | some blob => openBlob P key blob

variable {P} {key : Key} {masterKey : Option Key} {iv : IV} {plain s : Bytes}

theorem isEncrypted_iff : isEncrypted s = true ↔ encPrefix <+: s := by
  simp [isEncrypted]

theorem isEncrypted_envelope : isEncrypted (envelope P key iv plain) = true :=
  isEncrypted_iff.mpr (List.prefix_append _ _)

@[simp] theorem length_subKey (label : String) : (subKey P key label).length = 32 :=
  P.length_hmacSha256 _ _

theorem openBlob_append (hct : blockSize ∣ s.length) :
    openBlob P key (iv.1 ++ s ++ P.hmacSha256 (subKey P key "mac") (iv.1 ++ s)) =
      pkcs7Unpad (P.cbcDecrypt (subKey P key "enc") iv s) blockSize := by
  have hiv : iv.1.length = blockSize := iv.2
  have hmod : s.length % blockSize = 0 := Nat.mod_eq_zero_of_dvd hct
  rw [openBlob]
  simp only [List.length_append, P.length_hmacSha256, hiv, Nat.add_sub_cancel]
  -- the blob is cut where its three parts were joined
  have hmacAt : blockSize + s.length = (iv.1 ++ s).length := by rw [List.length_append, hiv]
  rw [if_neg (by omega), hmacAt, List.take_left, List.drop_left]
  have hdrop : (iv.1 ++ s).drop blockSize = s := by rw [← hiv, List.drop_left]
  have htake (tag : Bytes) : (iv.1 ++ s ++ tag).take blockSize = iv.1 := by
    rw [List.append_assoc, ← hiv, List.take_left]
  rw [if_neg (by simp), hdrop, if_neg (by simp [hmod]), htake]

theorem openEnvelope_envelope :
    openEnvelope P (some key) (envelope P key iv plain) = .ok plain := by
  have hdvd := dvd_length_pkcs7Pad (show 0 < blockSize by decide) plain
  have hlen := P.length_cbcEncrypt (@length_subKey P key "enc") iv.2 hdvd
  rw [openEnvelope, isEncrypted_envelope]
  simp only [Bool.not_true, Bool.false_eq_true, if_false]
  rw [envelope]
  simp only [List.drop_left, Utf8.decode_encode, Base64.decode_encode]
  rw [openBlob_append (hlen ▸ hdvd), P.cbcDecrypt_cbcEncrypt (length_subKey "enc") iv.2 hdvd,
    pkcs7Unpad_pkcs7Pad (by decide) (by decide)]

/-- An envelope is text, so it survives being stored in a JSON string. -/
theorem toBytes_ofBytes_envelope :
    toBytes (ofBytes (envelope P key iv plain)) = envelope P key iv plain := by
  simp only [envelope, encPrefix, toBytes, ← Utf8.encode_append, ofBytes, Utf8.decode_encode,
    String.toList_ofList]

end Envelope

/-! ## The two programs -/

namespace Admin

open Envelope

/-- Seal a plaintext. Without a key, or for an empty or already sealed value, the value
is returned unchanged. -/
def encryptSecret (P : Primitives) (masterKey : Option Key) (iv : IV) (plain : Bytes) : Bytes :=
  match masterKey with
  | none => plain
  | some key => if plain = [] ∨ isEncrypted plain then plain else envelope P key iv plain

def decryptSecret (P : Primitives) (masterKey : Option Key) (s : Bytes) : Except Error Bytes :=
  openEnvelope P masterKey s

end Admin

namespace Api

open Envelope

def decryptSecret (P : Primitives) (masterKey : Option Key) (s : Bytes) : Except Error Bytes :=
  openEnvelope P masterKey s

end Api

namespace Envelope

variable (P : Primitives) (key : Key) (iv : IV) {plain : Bytes}

theorem encryptSecret_eq_envelope (hne : plain ≠ []) (hplain : isEncrypted plain = false) :
    Admin.encryptSecret P (some key) iv plain = envelope P key iv plain := by
  simp [Admin.encryptSecret, hne, hplain]

/-- **What the admin seals, both programs open.** A plaintext of any length and bytes is sealed
into an envelope, and each program's own opening under the same key gives the plaintext back. -/
theorem encryptSecret_opens (hne : plain ≠ []) (hplain : isEncrypted plain = false) :
    isEncrypted (Admin.encryptSecret P (some key) iv plain) = true ∧
      Api.decryptSecret P (some key) (Admin.encryptSecret P (some key) iv plain) = .ok plain ∧
      Admin.decryptSecret P (some key) (Admin.encryptSecret P (some key) iv plain) = .ok plain := by
  rw [encryptSecret_eq_envelope P key iv hne hplain]
  exact ⟨isEncrypted_envelope, openEnvelope_envelope, openEnvelope_envelope⟩

/-- A one-byte secret, which fills its block with fifteen bytes of padding. -/
theorem encryptSecret_opens_byte :
    isEncrypted (Admin.encryptSecret default (some sampleKey) (sampleIVs "") [0x41]) = true ∧
      Api.decryptSecret default (some sampleKey)
        (Admin.encryptSecret default (some sampleKey) (sampleIVs "") [0x41]) = .ok [0x41] ∧
      Admin.decryptSecret default (some sampleKey)
        (Admin.encryptSecret default (some sampleKey) (sampleIVs "") [0x41]) = .ok [0x41] :=
  encryptSecret_opens default sampleKey (sampleIVs "") (by simp) (by decide)

end Envelope

end WinDep
