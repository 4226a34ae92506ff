/-
# Cryptographic primitives

The programs seal secrets with AES-256 in CBC mode and HMAC-SHA256. What they
rely on is a structure: the functions together with the laws that make an
envelope open again. Nothing below depends on how the functions are computed.
-/

import WinDep.Data.Utf8

namespace WinDep

/-- A decoded `CONFIG_KEY`. -/
abbrev Key := {b : Bytes // b.length = 32}

/-- An initialization vector, one cipher block of random bytes. -/
abbrev IV := {b : Bytes // b.length = 16}

/-- `aes.BlockSize` -/
def blockSize : ℕ := 16

/-- `sha256.Size` -/
def digestSize : ℕ := 32

/-- HMAC-SHA256, and AES-256-CBC on whole blocks. -/
structure Primitives where
  hmacSha256 (key message : Bytes) : Bytes
  cbcEncrypt (key iv plain : Bytes) : Bytes
  cbcDecrypt (key iv cipher : Bytes) : Bytes
  length_hmacSha256 : ∀ key message, (hmacSha256 key message).length = digestSize
  length_cbcEncrypt : ∀ {key iv plain : Bytes}, key.length = 32 → iv.length = blockSize →
    blockSize ∣ plain.length → (cbcEncrypt key iv plain).length = plain.length
  cbcDecrypt_cbcEncrypt : ∀ {key iv plain : Bytes}, key.length = 32 → iv.length = blockSize →
    blockSize ∣ plain.length → cbcDecrypt key iv (cbcEncrypt key iv plain) = plain

attribute [simp] Primitives.length_hmacSha256

/-- The identity cipher and a constant tag satisfy the laws. -/
instance : Inhabited Primitives where
  default :=
    { hmacSha256 := fun _ _ => List.replicate digestSize 0
      cbcEncrypt := fun _ _ plain => plain
      cbcDecrypt := fun _ _ cipher => cipher
      length_hmacSha256 := by simp
      length_cbcEncrypt := by simp
      cbcDecrypt_cbcEncrypt := by simp }

def sampleKey : Key := ⟨List.replicate 32 0x2a, rfl⟩

def sampleIVs : String → IV := fun _ => ⟨List.replicate 16 0, rfl⟩

end WinDep
