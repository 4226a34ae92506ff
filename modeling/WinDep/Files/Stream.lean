/-
# Byte streams

A reader is the list of what its calls return: some bytes, and whether more
follow, the stream ends there, or the call failed. A list that runs out ends the
stream. Limiting a reader keeps a prefix of its bytes.
-/

import WinDep.Data.Utf8
import Mathlib.Data.List.Infix

namespace WinDep

inductive ReadEnd
  | more
  | eof
  | failed
  deriving DecidableEq

/-- What one call of `Read` returns. -/
structure ReadResult where
  data : Bytes
  ending : ReadEnd

abbrev Stream := List ReadResult

namespace Stream

/-- The bytes read before the stream ends or fails. -/
def bytes : Stream → Bytes
  | [] => []
  | r :: rs => if r.ending = .more then r.data ++ bytes rs else r.data

/-- The stream is read to its end. -/
def Ends : Stream → Prop
  | [] => True
  | r :: rs => r.ending = .eof ∨ (r.ending = .more ∧ Ends rs)

instance decidableEnds : (s : Stream) → Decidable s.Ends
  | [] => isTrue trivial
  | _ :: rs =>
    have := decidableEnds rs
    inferInstanceAs (Decidable (_ ∨ _))

/-- `io.LimitReader`; a call that would pass the limit returns what is left of it. -/
def limit : ℕ → Stream → Stream
  | _, [] => []
  | n, r :: rs =>
    -- at the limit no call is made, and before it none asks for more than is left
    if n = 0 then []
    else if n < r.data.length then [⟨r.data.take n, .more⟩]
    else r :: limit (n - r.data.length) rs

/-- `io.ReadAll`. -/
def readAll (s : Stream) : Option Bytes := if s.Ends then some s.bytes else none

/-- A reader over bytes in memory. -/
def ofBytes (b : Bytes) : Stream := [⟨b, .more⟩]

@[simp] theorem bytes_nil : bytes [] = [] := rfl

@[simp] theorem ends_nil : Ends [] := trivial

@[simp] theorem bytes_ofBytes (b : Bytes) : (ofBytes b).bytes = b := by simp [ofBytes, bytes]

@[simp] theorem ends_ofBytes (b : Bytes) : (ofBytes b).Ends := Or.inr ⟨rfl, trivial⟩

theorem bytes_limit (n : ℕ) (s : Stream) : (limit n s).bytes = s.bytes.take n := by
  induction s generalizing n with
  | nil => simp [limit]
  | cons r rs ih =>
    rw [limit]
    split_ifs with hzero hlt
    · simp [hzero]
    · by_cases hmore : r.ending = .more
      · simp [bytes, hmore, List.take_append_of_le_length hlt.le]
      · simp [bytes, hmore]
    · by_cases hmore : r.ending = .more
      · simp [bytes, hmore, ih, List.take_append, List.take_of_length_le (not_lt.mp hlt)]
      · simp [bytes, hmore, List.take_of_length_le (not_lt.mp hlt)]

/-- A limited reader of a stream that ends, ends. -/
theorem Ends.limit {s : Stream} (h : s.Ends) (n : ℕ) : (limit n s).Ends := by
  induction s generalizing n with
  | nil => simp [Stream.limit]
  | cons r rs ih =>
    rw [Stream.limit]
    split_ifs
    · trivial
    · exact Or.inr ⟨rfl, trivial⟩
    · exact h.imp_right fun ⟨hmore, hrest⟩ => ⟨hmore, ih hrest _⟩

end Stream

end WinDep
