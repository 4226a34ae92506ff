/-
# Text in bytes

Text is encoded as UTF-8. Decoding is total: a byte that begins no well-formed
sequence is read as the replacement character and skipped alone, so text that
was encoded is read back and no input is refused.
-/

import Mathlib.Data.List.Basic

namespace WinDep

abbrev Bytes := List UInt8

namespace Utf8

def encode (cs : List Char) : Bytes := cs.flatMap String.utf8EncodeChar

/-- The character whose encoding begins the bytes, if there is one. -/
def decodeRune (bs : Bytes) : Option Char := (bs.take 4).toByteArray.utf8DecodeChar? 0

/-- Decode after skipping `skip` bytes, the rest of the sequence last read. -/
def decodeFrom : ℕ → Bytes → List Char
  | _, [] => []
  | skip + 1, _ :: bs => decodeFrom skip bs
  | 0, b :: bs =>
    match decodeRune (b :: bs) with
    | some c => c :: decodeFrom (c.utf8Size - 1) bs
    | none => '\uFFFD' :: decodeFrom 0 bs

def decode (bs : Bytes) : List Char := decodeFrom 0 bs

theorem decodeRune_encodeChar (c : Char) (bs : Bytes) :
    decodeRune (String.utf8EncodeChar c ++ bs) = some c := by
  have hlen : (String.utf8EncodeChar c).length ≤ 4 := by
    rw [String.length_utf8EncodeChar]
    exact c.utf8Size_le_four
  rw [decodeRune, List.take_append, List.take_of_length_le hlen, List.toByteArray_append]
  exact ByteArray.utf8DecodeChar?_utf8EncodeChar_append

theorem decodeFrom_append (skipped bs : Bytes) :
    decodeFrom skipped.length (skipped ++ bs) = decodeFrom 0 bs := by
  induction skipped with
  | nil => rfl
  | cons b skipped ih => exact ih

theorem decode_encodeChar_append (c : Char) (bs : Bytes) :
    decode (String.utf8EncodeChar c ++ bs) = c :: decode bs := by
  obtain ⟨b, tail, htail⟩ := List.exists_cons_of_ne_nil (String.utf8EncodeChar_ne_nil (c := c))
  have hrune := decodeRune_encodeChar c bs
  -- the bytes after the first are the ones that are skipped
  have hsize : c.utf8Size - 1 = tail.length := by
    rw [← String.length_utf8EncodeChar, htail, List.length_cons, Nat.add_sub_cancel]
  rw [htail, List.cons_append] at hrune ⊢
  rw [decode, decodeFrom, hrune]
  simp only [hsize, decodeFrom_append]
  rfl

theorem decode_encode_append (cs : List Char) (bs : Bytes) :
    decode (encode cs ++ bs) = cs ++ decode bs := by
  induction cs with
  | nil => rfl
  | cons c cs ih =>
    rw [encode, List.flatMap_cons, List.append_assoc, decode_encodeChar_append]
    exact congrArg (c :: ·) ih

/-- **Round trip.** Encoded text is decoded back. -/
@[simp] theorem decode_encode (cs : List Char) : decode (encode cs) = cs := by
  simpa [decode, decodeFrom] using decode_encode_append cs []

@[simp] theorem encode_append (cs ds : List Char) : encode (cs ++ ds) = encode cs ++ encode ds :=
  List.flatMap_append

end Utf8

/-- The bytes of a string. -/
def toBytes (s : String) : Bytes := Utf8.encode s.toList

/-- The string the bytes spell. -/
def ofBytes (bs : Bytes) : String := String.ofList (Utf8.decode bs)

@[simp] theorem ofBytes_toBytes (s : String) : ofBytes (toBytes s) = s := by
  simp [ofBytes, toBytes]

theorem toBytes_injective : Function.Injective toBytes :=
  Function.LeftInverse.injective ofBytes_toBytes

end WinDep
