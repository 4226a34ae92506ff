/-
# Base64 with padding

Three bytes become four characters of six bits each; a last group of one or two
bytes is padded with `=`. Line breaks in a text are skipped. Decoding inverts
encoding; it also accepts a last group whose unused bits are not zero.
-/

import WinDep.Data.Utf8
import Mathlib.Tactic.IntervalCases

namespace WinDep.Base64

/-- The character for six bits. -/
def symbol (n : ℕ) : Char :=
  if n < 26 then Char.ofNat (n + 65)
  else if n < 52 then Char.ofNat (n + 71)
  else if n < 62 then Char.ofNat (n - 4)
  else if n = 62 then '+'
  else '/'

/-- The six bits a character stands for. -/
def value (c : Char) : Option ℕ :=
  if 'A' ≤ c ∧ c ≤ 'Z' then some (c.toNat - 65)
  else if 'a' ≤ c ∧ c ≤ 'z' then some (c.toNat - 71)
  else if '0' ≤ c ∧ c ≤ '9' then some (c.toNat + 4)
  else if c = '+' then some 62
  else if c = '/' then some 63
  else none

def encode : Bytes → List Char
  | [] => []
  | [a] =>
    let n := a.toNat * 16
    [symbol (n / 64), symbol (n % 64), '=', '=']
  | [a, b] =>
    let n := (a.toNat * 256 + b.toNat) * 4
    [symbol (n / 4096), symbol (n / 64 % 64), symbol (n % 64), '=']
  | a :: b :: c :: bs =>
    let n := (a.toNat * 256 + b.toNat) * 256 + c.toNat
    symbol (n / 262144) :: symbol (n / 4096 % 64) :: symbol (n / 64 % 64) :: symbol (n % 64) ::
      encode bs

def decodeGroups : List Char → Option Bytes
  | [] => some []
  | [a, b, '=', '='] => do
    let n := (← value a) * 64 + (← value b)
    return [UInt8.ofNat (n / 16)]
  | [a, b, c, '='] => do
    let n := ((← value a) * 64 + (← value b)) * 64 + (← value c)
    return [UInt8.ofNat (n / 1024), UInt8.ofNat (n / 4 % 256)]
  | a :: b :: c :: d :: cs => do
    let n := (((← value a) * 64 + (← value b)) * 64 + (← value c)) * 64 + (← value d)
    let bs ← decodeGroups cs
    return UInt8.ofNat (n / 65536) :: UInt8.ofNat (n / 256 % 256) :: UInt8.ofNat (n % 256) :: bs
  | _ => none

def decode (cs : List Char) : Option Bytes :=
  decodeGroups (cs.filter fun c => c ≠ '\n' ∧ c ≠ '\r')

theorem value_symbol {n : ℕ} (hn : n < 64) : value (symbol n) = some n := by
  interval_cases n <;> decide

theorem symbol_ne {n : ℕ} (hn : n < 64) :
    symbol n ≠ '=' ∧ symbol n ≠ '\n' ∧ symbol n ≠ '\r' := by
  interval_cases n <;> decide

theorem decodeGroups_full {a b c d : Char} {cs : List Char} (hd : d ≠ '=') :
    decodeGroups (a :: b :: c :: d :: cs) = (do
      let n := (((← value a) * 64 + (← value b)) * 64 + (← value c)) * 64 + (← value d)
      let bs ← decodeGroups cs
      return UInt8.ofNat (n / 65536) :: UInt8.ofNat (n / 256 % 256) ::
        UInt8.ofNat (n % 256) :: bs) := by
  rw [decodeGroups]
  · intro _ hd' _
    exact hd hd'
  · intro hd' _
    exact hd hd'

theorem decodeGroups_pad {a b c : Char} (hc : c ≠ '=') :
    decodeGroups [a, b, c, '='] = (do
      let n := ((← value a) * 64 + (← value b)) * 64 + (← value c)
      return [UInt8.ofNat (n / 1024), UInt8.ofNat (n / 4 % 256)]) := by
  rw [decodeGroups]
  exact hc

private theorem ofNat_eq {n : ℕ} {a : UInt8} (h : n = a.toNat) : UInt8.ofNat n = a := by
  rw [h, UInt8.ofNat_toNat]

theorem decodeGroups_encode (bs : Bytes) : decodeGroups (encode bs) = some bs := by
  -- the groups of the encoding: none, one byte, two bytes, three bytes and the rest
  induction bs using encode.induct with
  | case1 => rfl
  | case2 a =>
    have ha := a.toNat_lt
    rw [encode, decodeGroups, value_symbol (by omega), value_symbol (by omega)]
    simp only [Option.bind_eq_bind, Option.bind_some, Option.pure_def]
    rw [ofNat_eq (a := a) (by omega)]
  | case3 a b =>
    have ha := a.toNat_lt
    have hb := b.toNat_lt
    rw [encode, decodeGroups_pad (symbol_ne (by omega)).1, value_symbol (by omega),
      value_symbol (by omega), value_symbol (by omega)]
    simp only [Option.bind_eq_bind, Option.bind_some, Option.pure_def]
    rw [ofNat_eq (a := a) (by omega), ofNat_eq (a := b) (by omega)]
  | case4 a b c bs ih =>
    have ha := a.toNat_lt
    have hb := b.toNat_lt
    have hc := c.toNat_lt
    rw [encode, decodeGroups_full (symbol_ne (by omega)).1, value_symbol (by omega),
      value_symbol (by omega), value_symbol (by omega), value_symbol (by omega), ih]
    simp only [Option.bind_eq_bind, Option.bind_some, Option.pure_def]
    rw [ofNat_eq (a := a) (by omega), ofNat_eq (a := b) (by omega), ofNat_eq (a := c) (by omega)]

/-- Encoded text holds no line break. -/
theorem mem_encode {bs : Bytes} {c : Char} (h : c ∈ encode bs) : c ≠ '\n' ∧ c ≠ '\r' := by
  have hpad : '=' ≠ '\n' ∧ '=' ≠ '\r' := by decide
  induction bs using encode.induct with
  | case1 => simp [encode] at h
  | case2 a =>
    have ha := a.toNat_lt
    simp only [encode, List.mem_cons, List.not_mem_nil, or_false] at h
    rcases h with rfl | rfl | rfl | rfl
    · exact (symbol_ne (by omega)).2
    · exact (symbol_ne (by omega)).2
    · exact hpad
    · exact hpad
  | case3 a b =>
    have ha := a.toNat_lt
    have hb := b.toNat_lt
    simp only [encode, List.mem_cons, List.not_mem_nil, or_false] at h
    rcases h with rfl | rfl | rfl | rfl
    · exact (symbol_ne (by omega)).2
    · exact (symbol_ne (by omega)).2
    · exact (symbol_ne (by omega)).2
    · exact hpad
  | case4 a b c bs ih =>
    have ha := a.toNat_lt
    have hb := b.toNat_lt
    have hc := c.toNat_lt
    simp only [encode, List.mem_cons] at h
    rcases h with rfl | rfl | rfl | rfl | h
    · exact (symbol_ne (by omega)).2
    · exact (symbol_ne (by omega)).2
    · exact (symbol_ne (by omega)).2
    · exact (symbol_ne (by omega)).2
    · exact ih h

/-- **Round trip.** Encoded bytes are decoded back. -/
theorem decode_encode (bs : Bytes) : decode (encode bs) = some bs := by
  have hkeep : (encode bs).filter (fun c => c ≠ '\n' ∧ c ≠ '\r') = encode bs :=
    List.filter_eq_self.mpr fun c hc => decide_eq_true (mem_encode hc)
  rw [decode, hkeep, decodeGroups_encode]

end WinDep.Base64
