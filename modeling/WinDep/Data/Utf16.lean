/-
# Text in 16-bit units

A character below `U+10000` is one unit, any other a pair of surrogates. Decoding
is total: a surrogate without its partner is read as the replacement character.
In bytes, each unit comes with its low byte first.
-/

import WinDep.Data.Utf8
import Mathlib.Tactic.Ring

namespace WinDep

namespace LittleEndian

/-- The number that the bytes spell, the lowest first. -/
def toNat : Bytes → ℕ
  | [] => 0
  | b :: bs => b.toNat + 256 * toNat bs

/-- The lowest bytes of a number, the lowest first. -/
def ofNat : ℕ → ℕ → Bytes
  | 0, _ => []
  | width + 1, n => UInt8.ofNat n :: ofNat width (n / 256)

theorem toNat_lt (bs : Bytes) : toNat bs < 256 ^ bs.length := by
  induction bs with
  | nil => exact Nat.one_pos
  | cons b bs ih =>
    have hb := b.toNat_lt
    rw [toNat, List.length_cons, pow_succ]
    omega

@[simp] theorem length_ofNat (width n : ℕ) : (ofNat width n).length = width := by
  induction width generalizing n with
  | zero => rfl
  | succ width ih => rw [ofNat, List.length_cons, ih]

/-- **Round trip.** A number is read back as far as its bytes go. -/
theorem toNat_ofNat (width n : ℕ) : toNat (ofNat width n) = n % 256 ^ width := by
  induction width generalizing n with
  | zero => rw [ofNat, toNat, pow_zero, Nat.mod_one]
  | succ width ih =>
    have hb : (UInt8.ofNat n).toNat = n % 256 := UInt8.toNat_ofNat'
    rw [ofNat, toNat, ih, hb, pow_succ', Nat.mod_mul]

end LittleEndian

namespace Utf16

/-! ## Units -/

/-- The units of a character. -/
def encodeChar (c : Char) : List UInt16 :=
  if c.toNat < 0x10000 then [UInt16.ofNat c.toNat]
  else [UInt16.ofNat (0xD800 + (c.toNat - 0x10000) / 0x400),
    UInt16.ofNat (0xDC00 + (c.toNat - 0x10000) % 0x400)]

def encode (cs : List Char) : List UInt16 := cs.flatMap encodeChar

/-- The character of a pair of surrogates. -/
def decodePair (high low : UInt16) : Char :=
  Char.ofNat (0x10000 + (high.toNat - 0xD800) * 0x400 + (low.toNat - 0xDC00))

def isSurrogate (u : UInt16) : Bool := 0xD800 ≤ u.toNat && u.toNat < 0xE000

def isHigh (u : UInt16) : Bool := 0xD800 ≤ u.toNat && u.toNat < 0xDC00

def isLow (u : UInt16) : Bool := 0xDC00 ≤ u.toNat && u.toNat < 0xE000

def decode : List UInt16 → List Char
  | [] => []
  | [u] => [if isSurrogate u then '\uFFFD' else Char.ofNat u.toNat]
  | u :: v :: us =>
    if !isSurrogate u then Char.ofNat u.toNat :: decode (v :: us)
    else if isHigh u && isLow v then decodePair u v :: decode us
    else '\uFFFD' :: decode (v :: us)

theorem decode_cons_of_not_isSurrogate {u : UInt16} (h : isSurrogate u = false)
    (us : List UInt16) : decode (u :: us) = Char.ofNat u.toNat :: decode us := by
  cases us with
  | nil => simp [decode, h]
  | cons v us => simp [decode, h]

theorem decode_pair {high low : UInt16} (hhigh : isHigh high = true) (hlow : isLow low = true)
    (us : List UInt16) : decode (high :: low :: us) = decodePair high low :: decode us := by
  have hsurrogate : isSurrogate high = true := by
    simp only [isHigh, isSurrogate, Bool.and_eq_true, decide_eq_true_eq] at hhigh ⊢
    omega
  rw [decode, hsurrogate, hhigh, hlow]
  rfl

theorem decode_encodeChar_append (c : Char) (us : List UInt16) :
    decode (encodeChar c ++ us) = c :: decode us := by
  have hvalid : c.toNat < 0xD800 ∨ 0xDFFF < c.toNat ∧ c.toNat < 0x110000 := c.valid
  have hunit {n : ℕ} (h : n < 0x10000) : (UInt16.ofNat n).toNat = n :=
    UInt16.toNat_ofNat_of_lt' h
  rw [encodeChar]
  split_ifs with hsmall
  · -- a character of one unit lies outside the surrogates
    have hplain : isSurrogate (UInt16.ofNat c.toNat) = false := by
      rw [isSurrogate, hunit hsmall, Bool.and_eq_false_iff, decide_eq_false_iff_not,
        decide_eq_false_iff_not]
      omega
    rw [List.singleton_append, decode_cons_of_not_isSurrogate hplain, hunit hsmall,
      Char.ofNat_toNat]
  · have hhigh : (UInt16.ofNat (0xD800 + (c.toNat - 0x10000) / 0x400)).toNat =
        0xD800 + (c.toNat - 0x10000) / 0x400 := hunit (by omega)
    have hlow : (UInt16.ofNat (0xDC00 + (c.toNat - 0x10000) % 0x400)).toNat =
        0xDC00 + (c.toNat - 0x10000) % 0x400 := hunit (by omega)
    have hpair : decodePair (UInt16.ofNat (0xD800 + (c.toNat - 0x10000) / 0x400))
        (UInt16.ofNat (0xDC00 + (c.toNat - 0x10000) % 0x400)) = c := by
      have hsum : 0x10000 + (0xD800 + (c.toNat - 0x10000) / 0x400 - 0xD800) * 0x400 +
          (0xDC00 + (c.toNat - 0x10000) % 0x400 - 0xDC00) = c.toNat := by
        omega
      rw [decodePair, hhigh, hlow, hsum, Char.ofNat_toNat]
    rw [List.cons_append, List.singleton_append, decode_pair _ _ us, hpair]
    · rw [isHigh, hhigh, Bool.and_eq_true, decide_eq_true_eq, decide_eq_true_eq]
      omega
    · rw [isLow, hlow, Bool.and_eq_true, decide_eq_true_eq, decide_eq_true_eq]
      omega

/-- **Round trip.** Encoded text is decoded back. -/
@[simp] theorem decode_encode (cs : List Char) : decode (encode cs) = cs := by
  induction cs with
  | nil => rfl
  | cons c cs ih =>
    rw [encode, List.flatMap_cons, decode_encodeChar_append]
    exact congrArg (c :: ·) ih

/-! ## Bytes -/

/-- The two bytes of a unit. -/
def toBytes (u : UInt16) : Bytes := [u.toUInt8, (u >>> 8).toUInt8]

/-- The unit of two bytes. -/
def ofBytes (low high : UInt8) : UInt16 := low.toUInt16 ||| (high.toUInt16 <<< 8)

/-- The units of bytes; a last odd byte is dropped. -/
def units : Bytes → List UInt16
  | low :: high :: bs => ofBytes low high :: units bs
  | _ => []

theorem ofBytes_toBytes (u : UInt16) : ofBytes u.toUInt8 (u >>> 8).toUInt8 = u := by
  have hu := u.toNat_lt
  have hlow : u.toUInt8.toUInt16.toNat = u.toNat % 256 := by simp
  have hhigh : ((u >>> 8).toUInt8.toUInt16 <<< 8).toNat = (u.toNat / 256) <<< 8 := by
    simp [Nat.shiftLeft_eq, Nat.shiftRight_eq_div_pow]
    omega
  -- the halves have no bit in common, so that the disjunction is a sum
  rw [← UInt16.toNat_inj, ofBytes, UInt16.toNat_or, hlow, hhigh, Nat.or_comm,
    ← Nat.shiftLeft_add_eq_or_of_lt (by omega), Nat.shiftLeft_eq]
  omega

@[simp] theorem units_flatMap_toBytes (us : List UInt16) : units (us.flatMap toBytes) = us := by
  induction us with
  | nil => rfl
  | cons u us ih =>
    rw [List.flatMap_cons, toBytes, List.cons_append, List.singleton_append, units, ih,
      ofBytes_toBytes]

end Utf16

end WinDep
