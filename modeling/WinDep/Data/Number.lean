/-
# Numbers as a text writes them

A number of a text is its sign, its digits, the place of the point and the exponent, if one is
written. Programs read different values from one spelling: `1.0` is an integer to some and none
to others, and a machine's numbers are fewer than the text can write. So the scanner keeps the
spelling, up to the form of the exponent, and the values are functions of it.

The scanner accepts every spelling of the number grammar; on printed text it returns the printed
number and leaves what follows.
-/

import Mathlib.Algebra.Order.Ring.Int
import Mathlib.Data.Rat.Defs
import Mathlib.Tactic.IntervalCases
import Mathlib.Tactic.Positivity
import Mathlib.Tactic.Ring

namespace WinDep

/-- A number as a text writes it. -/
structure Number where
  negative : Bool
  /-- The digits before and after the point, read as one number. -/
  mant : ℕ
  /-- How many digits stand after the point. -/
  frac : ℕ
  exp : Option ℤ
deriving DecidableEq

namespace Number

/-- The sign, applied to a magnitude. -/
def signed (negative : Bool) (m : ℕ) : ℤ := if negative then -m else m

/-- The power of ten that the mantissa counts. -/
def scale (n : Number) : ℤ := n.exp.getD 0 - n.frac

/-- The rational number a spelling denotes. -/
def toRat (n : Number) : ℚ := signed n.negative n.mant * (10 : ℚ) ^ n.scale

/-- The value is an integer, however it is spelled. -/
def IsInteger (n : Number) : Prop := 0 ≤ n.scale ∨ 10 ^ (-n.scale).toNat ∣ n.mant

instance (n : Number) : Decidable n.IsInteger := inferInstanceAs (Decidable (_ ∨ _))

/-- The integer that is spelled by its digits alone, without a point or an exponent. -/
def toInt? (n : Number) : Option ℤ :=
  if n.frac = 0 ∧ n.exp = none then some (signed n.negative n.mant) else none

def ofInt (i : ℤ) : Number := ⟨decide (i < 0), i.natAbs, 0, none⟩

@[simp] theorem signed_ofInt (i : ℤ) : signed (decide (i < 0)) i.natAbs = i := by
  by_cases h : i < 0
  · simp only [signed, h, decide_true, if_true]
    omega
  · simp only [signed, h, decide_false, Bool.false_eq_true, if_false]
    omega

@[simp] theorem toInt?_ofInt (i : ℤ) : (ofInt i).toInt? = some i := by
  simp [toInt?, ofInt]

theorem isInteger_ofInt (i : ℤ) : (ofInt i).IsInteger := Or.inl (by simp [scale, ofInt])

@[simp] theorem toRat_ofInt (i : ℤ) : (ofInt i).toRat = i := by
  simp only [toRat, scale, ofInt, signed_ofInt]
  simp

/-- `m / 10 ^ digits`, without zeros at the end of the digits after the point. -/
def ofDecimal (m : ℕ) : ℕ → Number
  | 0 => ⟨false, m, 0, none⟩
  | digits + 1 => if 10 ∣ m then ofDecimal (m / 10) digits else ⟨false, m, digits + 1, none⟩

theorem toRat_ofDecimal (m digits : ℕ) : (ofDecimal m digits).toRat = m / 10 ^ digits := by
  induction digits generalizing m with
  | zero => simp [ofDecimal, toRat, scale, signed]
  | succ digits ih =>
    rw [ofDecimal]
    split_ifs with hdvd
    · obtain ⟨k, rfl⟩ := hdvd
      rw [ih, Nat.mul_div_cancel_left _ (by norm_num), pow_succ']
      push_cast
      rw [mul_div_mul_left _ _ (by norm_num)]
    · simp only [toRat, scale, signed, Option.getD_none, zero_sub, zpow_neg, zpow_natCast,
        Bool.false_eq_true, if_false, Int.cast_natCast, div_eq_mul_inv]

/-! ## Printing -/

/-- The digits before the point, the digits after it, and the exponent. -/
structure Layout where
  int : List Char
  frac : List Char
  exp : Option ℤ

/-- The digits of a mantissa, at least one of them before the point. -/
def digits (n : Number) : List Char :=
  List.replicate (n.frac + 1 - (Nat.toDigits 10 n.mant).length) '0' ++ Nat.toDigits 10 n.mant

def layout (n : Number) : Layout :=
  let point := n.digits.length - n.frac
  ⟨n.digits.take point, n.digits.drop point, n.exp⟩

def fracText (frac : List Char) : List Char := if frac = [] then [] else '.' :: frac

def expText : Option ℤ → List Char
  | none => []
  | some x => 'e' :: (if x < 0 then '-' else '+') :: Nat.toDigits 10 x.natAbs

def Layout.text (l : Layout) : List Char := l.int ++ (fracText l.frac ++ expText l.exp)

def print (n : Number) : List Char := (if n.negative then ['-'] else []) ++ n.layout.text

/-! ## Scanning -/

def scanSign : List Char → Bool × List Char
  | '-' :: cs => (true, cs)
  | cs => (false, cs)

/-- A run of digits, not empty, without a superfluous leading zero. -/
def scanInt (cs : List Char) : Option (List Char × List Char) :=
  let ds := cs.takeWhile Char.isDigit
  if ds = [] ∨ (ds.head? = some '0' ∧ ds ≠ ['0']) then none
  else some (ds, cs.dropWhile Char.isDigit)

def scanFrac : List Char → Option (List Char × List Char)
  | '.' :: cs =>
    if cs.takeWhile Char.isDigit = [] then none
    else some (cs.takeWhile Char.isDigit, cs.dropWhile Char.isDigit)
  | cs => some ([], cs)

def scanExpDigits (negative : Bool) (cs : List Char) : Option (Option ℤ × List Char) :=
  if cs.takeWhile Char.isDigit = [] then none
  else some (some (signed negative (Nat.ofDigitChars 10 (cs.takeWhile Char.isDigit) 0)),
    cs.dropWhile Char.isDigit)

def scanExpSign : List Char → Option (Option ℤ × List Char)
  | '-' :: cs => scanExpDigits true cs
  | '+' :: cs => scanExpDigits false cs
  | cs => scanExpDigits false cs

def scanExp : List Char → Option (Option ℤ × List Char)
  | 'e' :: cs => scanExpSign cs
  | 'E' :: cs => scanExpSign cs
  | cs => some (none, cs)

/-- Read one number off the front of a text. -/
def scan (cs : List Char) : Option (Number × List Char) := do
  let (negative, cs) := scanSign cs
  let (int, cs) ← scanInt cs
  let (frac, cs) ← scanFrac cs
  let (exp, cs) ← scanExp cs
  return (⟨negative, Nat.ofDigitChars 10 (int ++ frac) 0, frac.length, exp⟩, cs)

/-! ## What is printed is scanned back -/

/-- No character of `cs` continues a number. -/
def Ends (cs : List Char) : Prop :=
  ∀ c ∈ cs.head?, c.isDigit = false ∧ c ≠ '.' ∧ c ≠ 'e' ∧ c ≠ 'E'

/-- The first character, if any, is not a digit. -/
def NoDigit (cs : List Char) : Prop := ∀ c ∈ cs.head?, c.isDigit = false

theorem takeWhile_digits {ds cs : List Char} (hds : ∀ c ∈ ds, c.isDigit = true)
    (hcs : NoDigit cs) : (ds ++ cs).takeWhile Char.isDigit = ds := by
  rw [List.takeWhile_append_of_pos hds]
  cases cs with
  | nil => simp
  | cons c cs => rw [List.takeWhile_cons_of_neg (by simp [hcs c rfl]), List.append_nil]

theorem dropWhile_digits {ds cs : List Char} (hds : ∀ c ∈ ds, c.isDigit = true)
    (hcs : NoDigit cs) : (ds ++ cs).dropWhile Char.isDigit = cs := by
  rw [List.dropWhile_append_of_pos hds]
  cases cs with
  | nil => rfl
  | cons c cs => rw [List.dropWhile_cons_of_neg (by simp [hcs c rfl])]

/-- A layout the number grammar allows. -/
structure Layout.Valid (l : Layout) : Prop where
  int_digits : ∀ c ∈ l.int, c.isDigit = true
  frac_digits : ∀ c ∈ l.frac, c.isDigit = true
  int_ne_nil : l.int ≠ []
  no_leading_zero : l.int.head? = some '0' → l.int = ['0']

theorem scanExp_expText (x : Option ℤ) {cs : List Char} (hcs : Ends cs) :
    scanExp (expText x ++ cs) = some (x, cs) := by
  cases x with
  | none =>
    cases cs with
    | nil => rfl
    | cons c cs =>
      obtain ⟨-, -, he, hE⟩ := hcs c rfl
      simp [expText, scanExp, he, hE]
  | some x =>
    have hds : ∀ c ∈ Nat.toDigits 10 x.natAbs, c.isDigit = true :=
      fun c hc => Nat.isDigit_of_mem_toDigits (by norm_num) (by norm_num) hc
    have hend : NoDigit cs := fun c hc => (hcs c hc).1
    have hscan (negative : Bool) : scanExpDigits negative (Nat.toDigits 10 x.natAbs ++ cs) =
        some (some (signed negative x.natAbs), cs) := by
      rw [scanExpDigits, takeWhile_digits hds hend, dropWhile_digits hds hend,
        if_neg Nat.toDigits_ne_nil, Nat.ofDigitChars_ten_toDigits]
    by_cases hx : x < 0
    · simp only [expText, hx, if_true, List.cons_append, scanExp, scanExpSign, hscan, signed]
      congr 3
      omega
    · simp only [expText, hx, if_false, List.cons_append, scanExp, scanExpSign, hscan, signed,
        Bool.false_eq_true]
      congr 3
      omega

theorem expText_head {x : Option ℤ} {cs : List Char} (hcs : Ends cs) :
    ∀ c ∈ (expText x ++ cs).head?, c.isDigit = false ∧ c ≠ '.' := by
  cases x with
  | none => exact fun c hc => ⟨(hcs c hc).1, (hcs c hc).2.1⟩
  | some x => simp [expText, Char.isDigit]

theorem scanFrac_fracText {l : Layout} (hl : l.Valid) {cs : List Char} (hcs : Ends cs) :
    scanFrac (fracText l.frac ++ (expText l.exp ++ cs)) = some (l.frac, expText l.exp ++ cs) := by
  have hhead := expText_head (x := l.exp) hcs
  by_cases hfrac : l.frac = []
  · rw [fracText, if_pos hfrac, hfrac, List.nil_append]
    cases htext : expText l.exp ++ cs with
    | nil => rfl
    | cons c rest =>
      obtain ⟨-, hdot⟩ := hhead c (by rw [htext]; rfl)
      simp [scanFrac, hdot]
  · -- the digits after the point end at the exponent, or where the number ends
    have hend : NoDigit (expText l.exp ++ cs) := fun c hc => (hhead c hc).1
    simp only [fracText, hfrac, if_false, List.cons_append, scanFrac,
      takeWhile_digits hl.frac_digits hend, dropWhile_digits hl.frac_digits hend]

theorem scanInt_text {l : Layout} (hl : l.Valid) {cs : List Char} (hcs : Ends cs) :
    scanInt (l.text ++ cs) = some (l.int, fracText l.frac ++ (expText l.exp ++ cs)) := by
  have hend : NoDigit (fracText l.frac ++ (expText l.exp ++ cs)) := by
    by_cases hfrac : l.frac = []
    · rw [fracText, if_pos hfrac]
      exact fun c hc => (expText_head (x := l.exp) hcs c hc).1
    · simp [NoDigit, fracText, hfrac, Char.isDigit]
  have hzero : ¬ (l.int = [] ∨ (l.int.head? = some '0' ∧ l.int ≠ ['0'])) := by
    rintro (hnil | ⟨hhead, hne⟩)
    · exact hl.int_ne_nil hnil
    · exact hne (hl.no_leading_zero hhead)
  rw [Layout.text, List.append_assoc, List.append_assoc, scanInt,
    takeWhile_digits hl.int_digits hend, dropWhile_digits hl.int_digits hend, if_neg hzero]

theorem scanSign_text {l : Layout} (hl : l.Valid) (negative : Bool) (cs : List Char) :
    scanSign ((if negative then ['-'] else []) ++ (l.text ++ cs)) = (negative, l.text ++ cs) := by
  cases negative with
  | true => rfl
  | false =>
    obtain ⟨c, int, hint⟩ := List.exists_cons_of_ne_nil hl.int_ne_nil
    have hc : c.isDigit = true := hl.int_digits c (by simp [hint])
    have hne : c ≠ '-' := by rintro rfl; simp [Char.isDigit] at hc
    simp [Layout.text, hint, scanSign, hne]

/-- Scanning a valid layout reads its digits and exponent. -/
theorem scan_text {l : Layout} (hl : l.Valid) (negative : Bool) {cs : List Char} (hcs : Ends cs) :
    scan ((if negative then ['-'] else []) ++ (l.text ++ cs)) =
      some (⟨negative, Nat.ofDigitChars 10 (l.int ++ l.frac) 0, l.frac.length, l.exp⟩, cs) := by
  simp only [scan, scanSign_text hl, scanInt_text hl hcs, scanFrac_fracText hl hcs,
    scanExp_expText _ hcs, Option.bind_eq_bind, Option.bind_some, Option.pure_def]

theorem toDigits_head_ne_zero {n : ℕ} (hn : n ≠ 0) : (Nat.toDigits 10 n).head? ≠ some '0' := by
  -- the leading digit of a number is that of its tenth
  induction n using Nat.strong_induction_on with
  | _ n ih =>
    by_cases hlt : n < 10
    · rw [Nat.toDigits_of_lt_base hlt]
      interval_cases n <;> simp_all [Nat.digitChar]
    · rw [Nat.toDigits_of_base_le (by norm_num) (by omega), List.head?_append]
      have := ih (n / 10) (by omega) (by omega)
      cases hhead : (Nat.toDigits 10 (n / 10)).head? with
      | none => exact absurd (List.head?_eq_none_iff.mp hhead) Nat.toDigits_ne_nil
      | some c => simpa [hhead] using this

private theorem isDigit_zeros {n : ℕ} {c : Char} (hc : c ∈ List.replicate n '0') :
    c.isDigit = true := by
  rw [List.eq_of_mem_replicate hc]
  rfl

theorem digits_isDigit (n : Number) : ∀ c ∈ n.digits, c.isDigit = true := fun c hc =>
  (List.mem_append.mp hc).elim isDigit_zeros fun hc =>
    Nat.isDigit_of_mem_toDigits (by norm_num) (by norm_num) hc

theorem frac_lt_length_digits (n : Number) : n.frac < n.digits.length := by
  simp only [digits, List.length_append, List.length_replicate]
  omega

theorem layout_valid (n : Number) : n.layout.Valid := by
  have hlen := n.frac_lt_length_digits
  constructor
  · intro c hc
    exact n.digits_isDigit c (List.mem_of_mem_take hc)
  · intro c hc
    exact n.digits_isDigit c (List.mem_of_mem_drop hc)
  · intro hnil
    have hlength := congrArg List.length hnil
    simp only [layout, List.length_take, List.length_nil] at hlength
    omega
  · intro hhead
    have hpoint : 0 < n.digits.length - n.frac := by omega
    have hzero : n.digits.head? = some '0' := by
      rwa [layout, List.head?_take, if_neg hpoint.ne'] at hhead
    by_cases hpad : (Nat.toDigits 10 n.mant).length ≤ n.frac
    · -- zeros were written in front, and then only one digit stands before the point
      have hone : n.digits.length - n.frac = 1 := by
        simp only [digits, List.length_append, List.length_replicate]
        omega
      obtain ⟨tail, htail⟩ := List.head?_eq_some_iff.mp hzero
      simp only [layout, hone]
      rw [htail]
      rfl
    · -- the digits begin with a zero only for the number zero
      have hdigits : n.digits = Nat.toDigits 10 n.mant := by
        rw [digits, show n.frac + 1 - (Nat.toDigits 10 n.mant).length = 0 by omega]
        rfl
      have hmant : n.mant = 0 := by
        by_contra hne
        exact toDigits_head_ne_zero hne (hdigits ▸ hzero)
      have hfrac : n.frac = 0 := by
        rw [hmant] at hpad
        simp at hpad
        omega
      simp [layout, hdigits, hmant, hfrac]

/-- A layout holds the digits of the mantissa. -/
theorem layout_value (n : Number) :
    Nat.ofDigitChars 10 (n.layout.int ++ n.layout.frac) 0 = n.mant ∧
      n.layout.frac.length = n.frac := by
  have hlen := n.frac_lt_length_digits
  constructor
  · simp only [layout, List.take_append_drop]
    rw [digits, Nat.ofDigitChars_append, Nat.ofDigitChars_replicate_zero, mul_zero,
      Nat.ofDigitChars_ten_toDigits]
  · simp only [layout, List.length_drop]
    omega

/-- Printed text begins with the sign or a digit. -/
theorem print_head (n : Number) :
    ∃ c cs, n.print = c :: cs ∧ (c = '-' ∨ c.isDigit = true) := by
  obtain ⟨c, int, hint⟩ := List.exists_cons_of_ne_nil n.layout_valid.int_ne_nil
  cases hneg : n.negative with
  | true => exact ⟨'-', _, by rw [print, hneg]; rfl, Or.inl rfl⟩
  | false =>
    refine ⟨c, int ++ _, by rw [print, hneg, Layout.text, hint]; rfl, Or.inr ?_⟩
    exact n.layout_valid.int_digits c (by simp [hint])

/-- **Round trip.** A printed number is scanned back, and what follows it is left. -/
theorem scan_print (n : Number) {cs : List Char} (hcs : Ends cs) :
    scan (n.print ++ cs) = some (n, cs) := by
  obtain ⟨hmant, hfrac⟩ := n.layout_value
  have hscan := scan_text n.layout_valid n.negative hcs
  rw [hmant, hfrac] at hscan
  rw [print, List.append_assoc]
  exact hscan

end Number

end WinDep
