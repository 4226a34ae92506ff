/-
# Doubles and their text

A finite double is a sign and a multiple of the smallest positive double whose significant bits
fit in 53. Reading a number takes the double closest to it, the even one of two, and fails beyond
the largest. Printing takes the shortest digits that are read back as the double, and of these
the closest to it; the form is positional from `1e-6` up to `1e21` and scientific outside.

What is printed is read back, so reading a number and printing it again is idempotent.
-/

import WinDep.Data.Number

namespace WinDep

/-! ## Rounding -/

/-- The integer closest to `a / b`, the even one of two. -/
def roundHalfEven (a b : ℕ) : ℕ :=
  let q := a / b
  let r := a % b
  if 2 * r < b then q else if b < 2 * r then q + 1 else if q % 2 = 0 then q else q + 1

theorem roundHalfEven_mul (q : ℕ) {b : ℕ} (hb : 0 < b) : roundHalfEven (q * b) b = q := by
  simp [roundHalfEven, Nat.mul_div_cancel q hb, hb]

theorem roundHalfEven_le (a b : ℕ) : roundHalfEven a b ≤ a / b + 1 := by
  unfold roundHalfEven
  dsimp only
  split_ifs <;> omega

/-- The number with 53 significant bits that is closest to `a / b`. -/
def roundUnits (a b : ℕ) : ℕ :=
  let shift := (a / b).log2 - 52
  roundHalfEven a (b * 2 ^ shift) * 2 ^ shift

/-- All but the first 53 bits are zero. -/
def Fits (units : ℕ) : Prop := 2 ^ (units.log2 - 52) ∣ units

instance (units : ℕ) : Decidable (Fits units) := inferInstanceAs (Decidable (_ ∣ _))

theorem fits_mul {m : ℕ} (hm : m ≤ 2 ^ 53) (shift : ℕ) : Fits (m * 2 ^ shift) := by
  rcases hm.eq_or_lt with rfl | hlt
  · -- the carry out of the last bit leaves a power of two
    rw [Fits, ← pow_add, Nat.log2_two_pow]
    exact pow_dvd_pow 2 (by omega)
  · have hlog : (m * 2 ^ shift).log2 - 52 ≤ shift := by
      by_cases hzero : m * 2 ^ shift = 0
      · simp [hzero]
      · have hbound : m * 2 ^ shift < 2 ^ (53 + shift) := by
          rw [pow_add]
          exact Nat.mul_lt_mul_of_pos_right hlt (by positivity)
        have := (Nat.log2_lt hzero).mpr hbound
        omega
    exact (pow_dvd_pow 2 hlog).mul_left m

theorem fits_roundUnits (a b : ℕ) : Fits (roundUnits a b) := by
  refine fits_mul ?_ _
  have hle := roundHalfEven_le a (b * 2 ^ ((a / b).log2 - 52))
  rw [← Nat.div_div_eq_div_mul] at hle
  have hlt : a / b / 2 ^ ((a / b).log2 - 52) < 2 ^ 53 := by
    rw [Nat.div_lt_iff_lt_mul (by positivity), ← pow_add]
    exact Nat.lt_log2_self.trans_le (Nat.pow_le_pow_right (by norm_num) (by omega))
  omega

/-- A number that fits is rounded to itself. -/
theorem roundUnits_mul {units b : ℕ} (h : Fits units) (hb : 0 < b) :
    roundUnits (units * b) b = units := by
  obtain ⟨m, hm⟩ := h
  have hpow : 0 < b * 2 ^ (units.log2 - 52) := by positivity
  have hsplit : units * b = m * (b * 2 ^ (units.log2 - 52)) := by
    calc units * b = 2 ^ (units.log2 - 52) * m * b := by rw [← hm]
      _ = m * (b * 2 ^ (units.log2 - 52)) := by ring
  simp only [roundUnits, Nat.mul_div_cancel units hb]
  rw [hsplit, roundHalfEven_mul m hpow, mul_comm, ← hm]

/-! ## Doubles -/

/-- The smallest positive double is `2 ^ -minExp`. -/
def minExp : ℕ := 1074

/-- Doubles are below `2 ^ maxExp`. -/
def maxExp : ℕ := 1024

/-- A finite double. Zero has two signs. -/
structure Float64 where
  negative : Bool
  /-- The magnitude, as a multiple of the smallest positive double. -/
  units : ℕ
  fits : Fits units
  finite : units < 2 ^ (maxExp + minExp)
deriving DecidableEq

namespace Float64

/-! ## Reading -/

/-- An exponent is added up until it has five digits; those that follow are passed over. -/
def readExp (x : ℤ) : ℤ :=
  Number.signed (decide (x < 0)) (Nat.ofDigitChars 10 ((Nat.toDigits 10 x.natAbs).take 5) 0)

theorem readExp_eq {x : ℤ} (hx : x.natAbs < 10 ^ 5) : readExp x = x := by
  have hlen := (Nat.length_toDigits_le_iff (b := 10) (by norm_num) (by norm_num : 0 < 5)).mpr hx
  rw [readExp, List.take_of_length_le hlen, Nat.ofDigitChars_ten_toDigits, Number.signed_ofInt]

/-- The double closest to `m * 10 ^ e`, as a multiple of the smallest one. -/
def unitsOf (m : ℕ) (e : ℤ) : ℕ :=
  roundUnits (m * 10 ^ e.toNat * 2 ^ minExp) (10 ^ (-e).toNat)

/-- `strconv.ParseFloat`; a number out of range is an error. -/
def read? (n : Number) : Option Float64 :=
  let units := unitsOf n.mant ((n.exp.map readExp).getD 0 - n.frac)
  if finite : units < 2 ^ (maxExp + minExp) then
    some ⟨n.negative, units, fits_roundUnits _ _, finite⟩
  else none

/-! ## Printing -/

/-- The form in which `± d * 10 ^ e` is printed. -/
def format (negative : Bool) (d : ℕ) (e : ℤ) : Number :=
  let len := (Nat.toDigits 10 d).length
  if len + e ≤ -6 ∨ 22 ≤ len + e then ⟨negative, d, len - 1, some (len + e - 1)⟩
  else if 0 ≤ e then ⟨negative, d * 10 ^ e.toNat, 0, none⟩
  else ⟨negative, d, (-e).toNat, none⟩

/-- The magnitude in units of `10 ^ -minExp`. -/
def scaled (f : Float64) : ℕ := f.units * 5 ^ minExp

/-- The closest number that is read as `f` and has no digits below `10 ^ (place - minExp)`. -/
def closest? (f : Float64) (place : ℕ) : Option Number :=
  let unit := 10 ^ place
  let candidates := [roundHalfEven f.scaled unit, f.scaled / unit, f.scaled / unit + 1]
  (candidates.map fun d => format f.negative d (place - minExp)).find? fun n => read? n = some f

/-- The first of these, from a given place down; the last resort is `f` itself. -/
def shortest (f : Float64) : ℕ → Number
  | 0 => format f.negative f.scaled (-minExp)
  | place + 1 => (closest? f (place + 1)).getD (shortest f place)

/-- The digits of a number that is read as `f` begin at most one place before those of `f`. -/
def print (f : Float64) : Number :=
  if f.units = 0 then ⟨f.negative, 0, 0, none⟩
  else shortest f (Nat.toDigits 10 f.scaled).length

/-! ## What is printed is read back -/

theorem two_pow_mul_five_pow (n : ℕ) : 2 ^ n * 5 ^ n = 10 ^ n := by
  rw [← mul_pow]
  norm_num

theorem scaled_lt (f : Float64) : f.scaled < 10 ^ (maxExp + minExp) := by
  have hfive : 5 ^ minExp ≤ 5 ^ (maxExp + minExp) := Nat.pow_le_pow_right (by norm_num) (by omega)
  calc f.scaled < 2 ^ (maxExp + minExp) * 5 ^ minExp :=
        Nat.mul_lt_mul_of_pos_right f.finite (by positivity)
    _ ≤ 2 ^ (maxExp + minExp) * 5 ^ (maxExp + minExp) := Nat.mul_le_mul_left _ hfive
    _ = 10 ^ (maxExp + minExp) := two_pow_mul_five_pow _

/-- The exact digits of a double denote it. -/
theorem unitsOf_scaled (f : Float64) : unitsOf f.scaled (-minExp) = f.units := by
  have hten : f.units * 5 ^ minExp * 2 ^ minExp = f.units * 10 ^ minExp := by
    rw [mul_assoc]
    rw [mul_comm (5 ^ _), two_pow_mul_five_pow]
  rw [unitsOf, scaled, neg_neg, Int.toNat_natCast, Int.toNat_of_nonpos (by omega), pow_zero,
    mul_one, hten]
  exact roundUnits_mul f.fits (by positivity)

/-- Every form of a number below one denotes it. -/
theorem format_value {negative : Bool} {d : ℕ} {e : ℤ} (he : e < 0) (hsmall : -10 ^ 4 ≤ e)
    (hd : (Nat.toDigits 10 d).length ≤ 10 ^ 4) :
    (format negative d e).negative = negative ∧ (format negative d e).mant = d ∧
      ((format negative d e).exp.map readExp).getD 0 - (format negative d e).frac = e := by
  have hpos : 0 < (Nat.toDigits 10 d).length := Nat.length_toDigits_pos
  unfold format
  dsimp only
  split_ifs with hsci hnonneg
  · refine ⟨rfl, rfl, ?_⟩
    dsimp only
    rw [Option.map_some, Option.getD_some, readExp_eq (by omega)]
    omega
  · omega
  · exact ⟨rfl, rfl, by simp; omega⟩

theorem read?_exact (f : Float64) : read? (format f.negative f.scaled (-minExp)) = some f := by
  have hlen : (Nat.toDigits 10 f.scaled).length ≤ maxExp + minExp :=
    (Nat.length_toDigits_le_iff (by norm_num) (by simp [maxExp])).mpr f.scaled_lt
  obtain ⟨hneg, hmant, hexp⟩ := @format_value f.negative f.scaled (-minExp) (by decide) (by decide)
    (hlen.trans (by simp [maxExp, minExp]))
  unfold read?
  simp only [hneg, hmant, hexp, unitsOf_scaled, f.finite, dite_true]

theorem read?_closest? {f : Float64} {place : ℕ} {n : Number} (h : closest? f place = some n) :
    read? n = some f := by
  unfold closest? at h
  simpa only [decide_eq_true_eq] using List.find?_some h

theorem read?_shortest (f : Float64) (place : ℕ) : read? (shortest f place) = some f := by
  induction place with
  | zero => exact read?_exact f
  | succ place ih =>
    simp only [shortest]
    cases hclosest : closest? f (place + 1) with
    | none => exact ih
    | some n => exact read?_closest? hclosest

/-- **Round trip.** The text of a double is read as that double. -/
@[simp] theorem read?_print (f : Float64) : read? f.print = some f := by
  rw [print]
  split_ifs with hzero
  · obtain ⟨negative, units, fits, finite⟩ := f
    obtain rfl : units = 0 := hzero
    have hunits : unitsOf 0 0 = 0 := by simp [unitsOf, roundUnits, roundHalfEven]
    simp [read?, hunits]
  · exact read?_shortest f _

end Float64

/-- The number that a program prints for this one after it held it as a double. -/
def Number.float? (n : Number) : Option Number := (Float64.read? n).map Float64.print

theorem Number.float?_float? {n m : Number} (h : n.float? = some m) : m.float? = some m := by
  obtain ⟨f, -, rfl⟩ := Option.map_eq_some_iff.mp h
  simp [Number.float?]

end WinDep
