import Mathlib.Data.Nat.Cast.Order.Field
import Toggles.Numeric.Layout
import Toggles.Proofs.Rounding

/-! Decimal texts of binary64 numbers.

A decimal is read by its value, however its digits and its power of ten are divided. The digits
that are chosen for a number therefore read back as the number, and so does a text in which they
are laid out with a point.
-/

set_option autoImplicit false

namespace Toggles.Numeric

namespace Decimal

def magnitude (decimal : Decimal) : ℚ :=
  decimal.coefficient * 10 ^ decimal.exponent

variable {decimal : Decimal}

theorem scaledRatio_eq (decimal : Decimal) :
    ((scaleRatio 10 decimal.exponent decimal.coefficient 1).1 : ℚ) /
        (scaleRatio 10 decimal.exponent decimal.coefficient 1).2 = decimal.magnitude := by
  rw [scaleRatio_quotient (by decide), Nat.cast_one, div_one, magnitude, Nat.cast_ofNat]

theorem scaledRatio_eq_zero :
    (scaleRatio 10 decimal.exponent decimal.coefficient 1).1 = 0 ↔ decimal.coefficient = 0 := by
  have power : Nat.pow 10 decimal.exponent.toNat ≠ 0 := Nat.ne_of_gt (Nat.pow_pos (by decide))
  unfold scaleRatio
  split
  · rfl
  · exact Nat.mul_eq_zero.trans (or_iff_left power)

theorem scaledRatio_denominator (decimal : Decimal) :
    (scaleRatio 10 decimal.exponent decimal.coefficient 1).2 ≠ 0 :=
  (scaleRatio_pos (by decide) Nat.one_pos).ne'

theorem two_pow_le_ten_pow {power : Int} (natural : 0 ≤ power) :
    (2 : ℚ) ^ (3 * power) ≤ 10 ^ power := by
  rw [zpow_mul]
  exact zpow_le_zpow_left₀ natural (by norm_num) (by norm_num)

theorem overflow_le_magnitude (filled : decimal.coefficient ≠ 0) (high : 400 < decimal.exponent) :
    (Binary64.overflow : ℚ) ≤ decimal.magnitude := by
  have least : (1 : ℚ) ≤ decimal.coefficient := by
    exact_mod_cast Nat.one_le_iff_ne_zero.mpr filled
  calc (Binary64.overflow : ℚ) = (2 ^ 53 - 1 / 2) * 2 ^ (971 : Int) := Binary64.overflow_eq
    _ ≤ (2 ^ 53 : Nat) * 2 ^ (971 : Int) := by
        gcongr
        norm_num
    _ = 2 ^ (1024 : Int) := by
        rw [Nat.cast_pow, Nat.cast_two, ← zpow_natCast, ← zpow_add₀ two_ne_zero, Nat.cast_ofNat]
        norm_num only
    _ ≤ 2 ^ (3 * decimal.exponent) := zpow_le_zpow_right₀ one_le_two (by omega)
    _ ≤ 10 ^ decimal.exponent := two_pow_le_ten_pow (by omega)
    _ ≤ decimal.magnitude := le_mul_of_one_le_left (by positivity) least

theorem magnitude_lt (low : (Nat.log2 decimal.coefficient : Int) + 1 + 3 * decimal.exponent < -1100) :
    decimal.magnitude < 2 ^ (-1075 : Int) := by
  obtain ⟨places, same⟩ := Int.exists_eq_neg_ofNat (by omega : decimal.exponent ≤ 0)
  have beyond : (decimal.coefficient : ℚ) < 2 ^ (decimal.coefficient.log2 + 1) := by
    exact_mod_cast Nat.lt_log2_self
  have smaller : (10 : ℚ) ^ decimal.exponent ≤ 2 ^ (3 * decimal.exponent) := by
    rw [zpow_mul, same, zpow_neg, zpow_neg, zpow_natCast, zpow_natCast]
    gcongr
    norm_num
  calc decimal.magnitude < 2 ^ (decimal.coefficient.log2 + 1) * 10 ^ decimal.exponent := by
        rw [magnitude]
        gcongr
    _ ≤ 2 ^ (decimal.coefficient.log2 + 1) * 2 ^ (3 * decimal.exponent) := by gcongr
    _ = 2 ^ ((decimal.coefficient.log2 : Int) + 1 + 3 * decimal.exponent) := by
        rw [← zpow_natCast, ← zpow_add₀ two_ne_zero, Nat.cast_succ]
    _ ≤ 2 ^ (-1075 : Int) := zpow_le_zpow_right₀ one_le_two (by omega)

-- The shortcuts for exponents far outside the range give what rounding gives.
theorem toBinary64?_eq (decimal : Decimal) :
    decimal.toBinary64? =
      Binary64.ofRatio? decimal.negative (scaleRatio 10 decimal.exponent decimal.coefficient 1).1
        (scaleRatio 10 decimal.exponent decimal.coefficient 1).2 := by
  have denominatorFilled := scaledRatio_denominator decimal
  by_cases empty : decimal.coefficient = 0
  · rw [toBinary64?, if_pos empty, Binary64.ofRatio?, if_pos (scaledRatio_eq_zero.mpr empty)]
  have numeratorFilled := mt scaledRatio_eq_zero.mp empty
  rw [toBinary64?, if_neg empty]
  split
  · next high =>
      rw [eq_comm, Binary64.ofRatio?_eq_none numeratorFilled denominatorFilled, scaledRatio_eq]
      exact overflow_le_magnitude empty high
  split
  · next low =>
      rw [Binary64.ofRatio?_eq_zero numeratorFilled denominatorFilled]
      rw [scaledRatio_eq]
      exact magnitude_lt low
  · rfl

-- A decimal is read by its sign and its value.
theorem toBinary64?_congr {other : Decimal} (sameSign : decimal.negative = other.negative)
    (same : decimal.magnitude = other.magnitude) : decimal.toBinary64? = other.toBinary64? := by
  rw [toBinary64?_eq, toBinary64?_eq, sameSign]
  refine Binary64.ofRatio?_congr (scaledRatio_denominator _) (scaledRatio_denominator _) ?_
  rw [scaledRatio_eq, scaledRatio_eq, same]

theorem toBinary64?_exact (number : Binary64) (notZero : number.mantissa ≠ 0)
    (sameSign : decimal.negative = number.negative)
    (same : decimal.magnitude = number.mantissa * 2 ^ number.exponent) :
    decimal.toBinary64? = some number := by
  rw [toBinary64?_eq, sameSign]
  refine Binary64.ofRatio?_exact number notZero (scaledRatio_denominator _) ?_
  rw [scaledRatio_eq, same]

theorem nearest_of_toBinary64? {number : Binary64} (read : decimal.toBinary64? = some number) :
    number.negative = decimal.negative ∧
      number.Nearest (Binary64.signed decimal.negative decimal.magnitude) := by
  rw [toBinary64?_eq] at read
  rw [← scaledRatio_eq]
  exact Binary64.nearest_of_ofRatio? (scaledRatio_denominator _) read

theorem toBinary64?_eq_none (filled : decimal.coefficient ≠ 0) :
    decimal.toBinary64? = none ↔ (Binary64.overflow : ℚ) ≤ decimal.magnitude := by
  rw [toBinary64?_eq, Binary64.ofRatio?_eq_none (mt scaledRatio_eq_zero.mp filled)
    (scaledRatio_denominator _), scaledRatio_eq]

end Decimal

namespace Binary64
variable {number : Binary64}

theorem toBinary64?_exactDecimal (notZero : number.mantissa ≠ 0) :
    number.exactDecimal.toBinary64? = some number := by
  unfold exactDecimal
  split
  · next below =>
      obtain ⟨places, same⟩ := Int.exists_eq_neg_ofNat below.le
      refine Decimal.toBinary64?_exact number notZero rfl ?_
      simp only [Decimal.magnitude, same, neg_neg, Int.toNat_natCast, Nat.pow_eq, Nat.cast_mul,
        Nat.cast_pow, Nat.cast_ofNat, zpow_neg, zpow_natCast]
      rw [mul_assoc, (by norm_num : (10 : ℚ) = 5 * 2), mul_pow, mul_inv,
        mul_inv_cancel_left₀ (by positivity)]
  · next above =>
      obtain ⟨places, same⟩ := Int.eq_ofNat_of_zero_le (Int.not_lt.mp above)
      refine Decimal.toBinary64?_exact number notZero rfl ?_
      simp only [Decimal.magnitude, same, Int.toNat_natCast, Nat.pow_eq, Nat.cast_mul,
        Nat.cast_pow, Nat.cast_ofNat, zpow_zero, mul_one, zpow_natCast]

-- The digits that are printed read back, whichever candidate they are.
theorem toBinary64?_shortest (notZero : number.mantissa ≠ 0) :
    number.shortest.toBinary64? = some number := by
  unfold shortest
  obtain ⟨numerator, denominator⟩ := number.ratio
  dsimp only
  generalize tried : (List.range 17).findSome? _ = candidates
  cases candidates with
  | none => exact toBinary64?_exactDecimal notZero
  | some decimal =>
      obtain ⟨count, -, found⟩ := List.exists_of_findSome?_eq_some tried
      have readsBack : number.readsBack decimal = true := List.find?_some found
      exact of_decide_eq_true readsBack

theorem coefficient_shortest (notZero : number.mantissa ≠ 0) : number.shortest.coefficient ≠ 0 := by
  intro empty
  have read := toBinary64?_shortest notZero
  rw [Decimal.toBinary64?, if_pos empty] at read
  exact notZero (by rw [← Option.some.inj read]; rfl)

end Binary64

section Runs
variable {digits : List Char}

theorem ofDigits_eq (digits : List Char) : ofDigits digits = Nat.ofDigitChars 10 digits 0 := by
  rw [Nat.ofDigitChars_eq_foldl, ofDigits]
  congr 1
  funext value digit
  rw [Nat.mul_comm]

@[simp] theorem ofDigits_toDigits (value : Nat) : ofDigits (Nat.toDigits 10 value) = value := by
  rw [ofDigits_eq, Nat.ofDigitChars_ten_toDigits]

theorem ofDigits_zeros (digits : List Char) (count : Nat) :
    ofDigits (digits ++ List.replicate count '0') = ofDigits digits * 10 ^ count := by
  induction count with
  | zero => simp
  | succ count ih =>
      rw [List.replicate_succ', ← List.append_assoc, ofDigits, List.foldl_append, ← ofDigits, ih,
        List.foldl_cons, List.foldl_nil, Nat.sub_self, Nat.add_zero, Nat.pow_succ, Nat.mul_assoc]

theorem zeros_ofDigits (count : Nat) (digits : List Char) :
    ofDigits (List.replicate count '0' ++ digits) = ofDigits digits := by
  have front : ofDigits (List.replicate count '0') = 0 * 10 ^ count := ofDigits_zeros [] count
  rw [Nat.zero_mul] at front
  rw [ofDigits, List.foldl_append, ← ofDigits, front]
  rfl

-- Only zeros are dropped.
theorem exists_trimZeros (digits : List Char) :
    ∃ count, digits = trimZeros digits ++ List.replicate count '0' := by
  refine ⟨(digits.reverse.takeWhile (· == '0')).length, ?_⟩
  have zeros : digits.reverse.takeWhile (· == '0') =
      List.replicate (digits.reverse.takeWhile (· == '0')).length '0' := by
    refine List.eq_replicate_iff.mpr ⟨rfl, fun c member => ?_⟩
    simpa using List.all_eq_true.mp List.all_takeWhile c member
  rw [trimZeros, ← List.reverse_replicate, ← zeros, ← List.reverse_append,
    List.takeWhile_append_dropWhile, List.reverse_reverse]

end Runs

namespace Digits

def value (number : Digits) : ℚ :=
  ofDigits number.digits * 10 ^ (number.exponent + 1 - number.digits.length)

/-- A text with a point in it: digits on both sides, and the number they stand for. -/
structure Pointed (text whole fraction : List Char) (value : ℚ) : Prop where
  split : text = whole ++ '.' :: fraction
  filled : whole ≠ []
  digits : ∀ c ∈ whole ++ fraction, c.isDigit = true
  same : (ofDigits (whole ++ fraction) : ℚ) * 10 ^ (-(fraction.length : Int)) = value

theorem isDigit_zeros (count : Nat) : ∀ c ∈ List.replicate count '0', c.isDigit = true := by
  intro c member
  rw [List.eq_of_mem_replicate member]
  rfl

-- One case for each place of the point: in front of the digits, behind them, and among them.
theorem exists_pointed (number : Digits) (filled : number.digits ≠ [])
    (digits : ∀ c ∈ number.digits, c.isDigit = true) :
    ∃ whole fraction, Pointed (number.positional ['.', '0']) whole fraction number.value := by
  unfold positional
  split
  · next below =>
      let zeros := List.replicate (-number.exponent - 1).toNat '0'
      refine ⟨['0'], zeros ++ number.digits, rfl, List.cons_ne_nil _ _, ?_, ?_⟩
      · exact List.forall_mem_append.mpr
          ⟨isDigit_zeros 1, List.forall_mem_append.mpr ⟨isDigit_zeros _, digits⟩⟩
      · have dropped : ofDigits (['0'] ++ (zeros ++ number.digits)) = ofDigits number.digits := by
          rw [← List.append_assoc]
          exact zeros_ofDigits (_ + 1) number.digits
        have power : -((zeros ++ number.digits).length : Int) =
            number.exponent + 1 - number.digits.length := by
          simp only [zeros, List.length_append, List.length_replicate]
          omega
        rw [dropped, power, value]
  dsimp only
  split
  · next above within =>
      let zeros := List.replicate (number.exponent.toNat + 1 - number.digits.length) '0'
      refine ⟨number.digits ++ zeros, ['0'], rfl, by simp [filled], ?_, ?_⟩
      · exact List.forall_mem_append.mpr
          ⟨List.forall_mem_append.mpr ⟨digits, isDigit_zeros _⟩, isDigit_zeros 1⟩
      · have shifted : ofDigits (number.digits ++ zeros ++ ['0']) = ofDigits number.digits *
            10 ^ (number.exponent.toNat + 1 - number.digits.length + 1) := by
          rw [← ofDigits_zeros, List.replicate_succ', List.append_assoc]
        rw [shifted, value, Nat.cast_mul, mul_assoc, Nat.cast_pow, Nat.cast_ofNat, ← zpow_natCast,
          ← zpow_add₀ (by norm_num)]
        congr 2
        simp only [List.length_cons, List.length_nil]
        omega
  · next above beyond =>
      refine ⟨number.digits.take (number.exponent.toNat + 1),
        number.digits.drop (number.exponent.toNat + 1), rfl, by simp [filled], ?_, ?_⟩
      · rwa [List.take_append_drop]
      · rw [List.take_append_drop, value, List.length_drop]
        congr 2
        omega

end Digits

section Chosen
variable {decimal : Decimal}

theorem isDigit_toDigits (decimal : Decimal) :
    ∀ c ∈ decimal.toDigits.digits, c.isDigit = true := by
  intro c member
  obtain ⟨count, same⟩ := exists_trimZeros (Nat.toDigits 10 decimal.coefficient)
  have written : c ∈ Nat.toDigits 10 decimal.coefficient := by
    rw [same]
    exact List.mem_append_left _ member
  exact Nat.isDigit_of_mem_toDigits (by decide) (by decide) written

theorem toDigits_filled (filled : decimal.coefficient ≠ 0) : decimal.toDigits.digits ≠ [] := by
  intro empty
  obtain ⟨count, same⟩ := exists_trimZeros (Nat.toDigits 10 decimal.coefficient)
  have trimmed : trimZeros (Nat.toDigits 10 decimal.coefficient) = [] := empty
  have value := ofDigits_toDigits decimal.coefficient
  rw [same, trimmed, ofDigits_zeros] at value
  exact filled (by rw [← value]; exact Nat.zero_mul _)

-- The zeros that are dropped count for the power of ten.
theorem value_toDigits (decimal : Decimal) : decimal.toDigits.value = decimal.magnitude := by
  obtain ⟨count, same⟩ := exists_trimZeros (Nat.toDigits 10 decimal.coefficient)
  have value := ofDigits_toDigits decimal.coefficient
  have filled : 0 < (Nat.toDigits 10 decimal.coefficient).length :=
    List.length_pos_iff.mpr Nat.toDigits_ne_nil
  have length := congrArg List.length same
  rw [List.length_append, List.length_replicate] at length
  rw [same, ofDigits_zeros] at value
  have power : decimal.toDigits.exponent + 1 - decimal.toDigits.digits.length =
      count + decimal.exponent := by
    simp only [Decimal.toDigits]
    omega
  rw [Digits.value, power, zpow_add₀ (by norm_num), Decimal.magnitude, ← value, ← mul_assoc]
  congr 1
  push_cast
  rfl

end Chosen

def signText (negative : Bool) : List Char :=
  if negative then ['-'] else []

namespace Binary64
variable {number : Binary64}

/-- The plain text of a number is digits with a point in them, which read back as the number. -/
structure Positional (number : Binary64) (whole fraction : List Char) : Prop where
  text : number.text .plain = signText number.negative ++ (whole ++ '.' :: fraction)
  filled : whole ≠ []
  digits : ∀ c ∈ whole ++ fraction, c.isDigit = true
  reads : Decimal.toBinary64? ⟨number.negative, ofDigits (whole ++ fraction), -fraction.length⟩ =
    some number

/-- The plain text of a number is digits, perhaps with a point in them, and a signed power of ten. -/
structure Scientific (number : Binary64) (whole fraction : List Char) (sign : Char)
    (power : List Char) : Prop where
  text : number.text .plain =
    signText number.negative ++ (whole ++ fraction ++ 'e' :: sign :: power)
  filled : whole ≠ []
  digits : ∀ c ∈ whole, c.isDigit = true
  point : fraction = [] ∨ ∃ places, fraction = '.' :: places ∧ ∀ c ∈ places, c.isDigit = true
  sign : sign = '+' ∨ sign = '-'
  powerFilled : power ≠ []
  powerDigits : ∀ c ∈ power, c.isDigit = true

theorem eq_zero_of_mantissa (empty : number.mantissa = 0) : number = zero number.negative := by
  obtain ⟨negative, mantissa, exponent, canonical⟩ := number
  obtain rfl : mantissa = 0 := empty
  obtain rfl : exponent = -1074 := canonical.2.2.2.resolve_left (by decide)
  rfl

theorem positional_zero (negative : Bool) : Positional (zero negative) ['0'] ['0'] where
  text := by cases negative <;> rfl
  filled := List.cons_ne_nil _ _
  digits := by simp
  reads := rfl

theorem exists_positional (notZero : number.mantissa ≠ 0)
    (inRange : -5 ≤ number.shortest.toDigits.exponent ∧ number.shortest.toDigits.exponent ≤ 15) :
    ∃ whole fraction, Positional number whole fraction := by
  have coefficient := coefficient_shortest notZero
  obtain ⟨whole, fraction, split, filled, digits, same⟩ :=
    number.shortest.toDigits.exists_pointed (toDigits_filled coefficient) (isDigit_toDigits _)
  have read := toBinary64?_shortest notZero
  refine ⟨whole, fraction, ?_, filled, digits, ?_⟩
  · have written : number.isZero = false := by simpa [isZero] using notZero
    rw [text, written, if_neg Bool.false_ne_true]
    simp only [Layout.plain, inRange, and_self, if_true, split, signText]
    split <;> rfl
  · rw [← read]
    refine (Decimal.toBinary64?_congr ?_ ?_).symm
    · exact (Decimal.nearest_of_toBinary64? read).1.symm
    · rw [← value_toDigits, ← same]
      rfl

theorem exists_scientific (notZero : number.mantissa ≠ 0)
    (outside : ¬(-5 ≤ number.shortest.toDigits.exponent ∧
      number.shortest.toDigits.exponent ≤ 15)) :
    ∃ whole fraction sign power, Scientific number whole fraction sign power := by
  have filled := toDigits_filled (coefficient_shortest notZero)
  have digits := isDigit_toDigits number.shortest
  have written : number.isZero = false := by simpa [isZero] using notZero
  generalize same : number.shortest.toDigits = chosen at filled digits outside
  have text : number.text .plain = signText number.negative ++ chosen.scientific := by
    rw [text, written, if_neg Bool.false_ne_true]
    simp only [Layout.plain, same, outside, if_false, signText]
    split <;> rfl
  rw [Digits.scientific] at text
  have sign : (if chosen.exponent < 0 then '-' else '+') = '+' ∨
      (if chosen.exponent < 0 then '-' else '+') = '-' := by
    split
    · exact .inr rfl
    · exact .inl rfl
  have power : ∀ c ∈ Nat.toDigits 10 chosen.exponent.natAbs, c.isDigit = true :=
    fun c member => Nat.isDigit_of_mem_toDigits (by decide) (by decide) member
  by_cases single : chosen.digits.length ≤ 1
  · rw [if_pos single] at text
    refine ⟨chosen.digits, [], _, _, ?_, filled, digits, .inl rfl, sign, Nat.toDigits_ne_nil, power⟩
    rw [text, List.append_nil]
  · rw [if_neg single] at text
    refine ⟨chosen.digits.take 1, '.' :: chosen.digits.drop 1, _, _, text, by simp [filled], ?_,
      .inr ⟨_, rfl, ?_⟩, sign, Nat.toDigits_ne_nil, power⟩
    · exact fun c member => digits c (List.mem_of_mem_take member)
    · exact fun c member => digits c (List.mem_of_mem_drop member)

-- A number is printed in one of two notations.
theorem positional_or_scientific (number : Binary64) :
    (∃ whole fraction, Positional number whole fraction) ∨
      ∃ whole fraction sign power, Scientific number whole fraction sign power := by
  by_cases empty : number.mantissa = 0
  · rw [eq_zero_of_mantissa empty]
    exact .inl ⟨_, _, positional_zero _⟩
  · by_cases inRange : -5 ≤ number.shortest.toDigits.exponent ∧
        number.shortest.toDigits.exponent ≤ 15
    · exact .inl (exists_positional empty inRange)
    · exact .inr (exists_scientific empty inRange)

end Binary64

section Lengths
variable {number : Binary64}

structure Bounded (decimal : Decimal) : Prop where
  coefficient : (decimal.coefficient : ℚ) < 10 ^ (1100 : Int)
  lowest : -1074 ≤ decimal.exponent
  highest : decimal.exponent ≤ 308

theorem magnitude_bounds (notZero : number.mantissa ≠ 0) :
    (2 : ℚ) ^ (-1074 : Int) ≤ number.mantissa * 2 ^ number.exponent ∧
      (number.mantissa : ℚ) * 2 ^ number.exponent < 2 ^ (1024 : Int) := by
  obtain ⟨below, lowest, highest, -⟩ := number.canonical
  have least : (1 : ℚ) ≤ number.mantissa := by exact_mod_cast Nat.one_le_iff_ne_zero.mpr notZero
  have most : (number.mantissa : ℚ) < 2 ^ (53 : Int) := by exact_mod_cast below
  constructor
  · calc (2 : ℚ) ^ (-1074 : Int) ≤ 2 ^ number.exponent := zpow_le_zpow_right₀ one_le_two lowest
      _ ≤ number.mantissa * 2 ^ number.exponent := le_mul_of_one_le_left (by positivity) least
  · calc (number.mantissa : ℚ) * 2 ^ number.exponent < 2 ^ (53 : Int) * 2 ^ number.exponent := by
          gcongr
      _ = 2 ^ (53 + number.exponent) := (zpow_add₀ two_ne_zero _ _).symm
      _ ≤ 2 ^ (1024 : Int) := zpow_le_zpow_right₀ one_le_two (by omega)

theorem ratio_quotient (number : Binary64) :
    (number.ratio.1 : ℚ) / number.ratio.2 = number.mantissa * 2 ^ number.exponent := by
  rw [Binary64.ratio, scaleRatio_quotient Nat.two_pos, Nat.cast_one, div_one, Nat.cast_two]

-- The estimate of the first digit's power of ten comes from the binary exponent.
theorem decimalExponent_bounds (notZero : number.mantissa ≠ 0) :
    -326 ≤ decimalExponent number.ratio.1 number.ratio.2 ∧
      decimalExponent number.ratio.1 number.ratio.2 ≤ 308 := by
  obtain ⟨least, beyond⟩ := magnitude_bounds notZero
  have filled : number.ratio.2 ≠ 0 := (scaleRatio_pos Nat.two_pos Nat.one_pos).ne'
  have magnitude : 0 < (number.mantissa : ℚ) * 2 ^ number.exponent :=
    lt_of_lt_of_le (by positivity) least
  have numeratorFilled : number.ratio.1 ≠ 0 := by
    intro empty
    have quotient := ratio_quotient number
    rw [empty, Nat.cast_zero, zero_div] at quotient
    exact magnitude.ne quotient
  have lower : -1074 ≤ Int.log 2 ((number.mantissa : ℚ) * 2 ^ number.exponent) :=
    (Int.zpow_le_iff_le_log Nat.one_lt_two magnitude).mp (by rw [Nat.cast_two]; exact least)
  have upper : Int.log 2 ((number.mantissa : ℚ) * 2 ^ number.exponent) < 1024 :=
    (Int.lt_zpow_iff_log_lt Nat.one_lt_two magnitude).mp (by rw [Nat.cast_two]; exact beyond)
  rw [← ratio_quotient, ← binaryExponent_eq numeratorFilled filled] at lower upper
  unfold decimalExponent
  rw [Int.fdiv_eq_ediv_of_nonneg _ (by decide)]
  dsimp only
  split
  · next found =>
      have member := List.mem_of_find?_eq_some found
      simp only [List.mem_cons, List.not_mem_nil, or_false] at member
      omega
  · omega

-- Any power of two that occurs is below this power of ten.
theorem two_pow_le : (2 : ℚ) ^ (1024 : Int) ≤ 10 ^ (342 : Int) :=
  calc (2 : ℚ) ^ (1024 : Int) ≤ 2 ^ (3 * 342 : Int) := zpow_le_zpow_right₀ one_le_two (by decide)
    _ ≤ 10 ^ (342 : Int) := Decimal.two_pow_le_ten_pow (by decide)

theorem bounded_neighbours (notZero : number.mantissa ≠ 0) {exponent : Int}
    (lowest : -342 ≤ exponent) (highest : exponent ≤ 308) :
    ∀ decimal ∈ number.neighbours exponent, Bounded decimal := by
  have quotient := scaleRatio_quotient (by decide : 0 < 10) (-exponent) number.ratio.1 number.ratio.2
  rw [ratio_quotient, Nat.cast_ofNat] at quotient
  unfold Binary64.neighbours
  generalize number.ratio = parts at quotient ⊢
  obtain ⟨numerator, denominator⟩ := parts
  dsimp only at quotient ⊢
  generalize scaleRatio 10 (-exponent) numerator denominator = scaled at quotient ⊢
  obtain ⟨scaled, unit⟩ := scaled
  have small : ((scaled / unit : Nat) : ℚ) < 10 ^ (684 : Int) :=
    calc ((scaled / unit : Nat) : ℚ) ≤ (scaled : ℚ) / unit := Nat.cast_div_le
      _ = number.mantissa * 2 ^ number.exponent * 10 ^ (-exponent) := quotient
      _ < 10 ^ (342 : Int) * 10 ^ (-exponent) := by
          gcongr
          exact (magnitude_bounds notZero).2.trans_le two_pow_le
      _ ≤ 10 ^ (342 : Int) * 10 ^ (342 : Int) := by
          gcongr
          · norm_num
          · omega
      _ = 10 ^ (684 : Int) := (zpow_add₀ (by norm_num) _ _).symm
  have fits : ∀ coefficient ≤ scaled / unit + 1,
      Bounded ⟨number.negative, coefficient, exponent⟩ := by
    intro coefficient most
    refine ⟨?_, by dsimp only; omega, highest⟩
    have mostRat : (coefficient : ℚ) ≤ (scaled / unit : Nat) + 1 := by exact_mod_cast most
    have one : (1 : ℚ) ≤ 10 ^ (684 : Int) := one_le_zpow₀ (by norm_num) (by decide)
    have beyond : ∀ power : ℚ, 1 ≤ power → ((scaled / unit : Nat) : ℚ) < power →
        ((scaled / unit : Nat) : ℚ) + 1 < power * 10 := by
      intro power one small
      linarith
    calc (coefficient : ℚ) ≤ (scaled / unit : Nat) + 1 := mostRat
      _ < 10 ^ (684 : Int) * 10 := beyond _ one small
      _ = 10 ^ (685 : Int) := (zpow_add_one₀ (by norm_num) _).symm
      _ ≤ 10 ^ (1100 : Int) := zpow_le_zpow_right₀ (by norm_num) (by decide)
  intro decimal member
  have among : decimal = ⟨number.negative, scaled / unit, exponent⟩ ∨
      decimal = ⟨number.negative, scaled / unit + 1, exponent⟩ := by
    dsimp only at member
    split at member
    · simpa using member
    · simpa [or_comm] using member
  rcases among with rfl | rfl
  · exact fits _ (Nat.le_succ _)
  · exact fits _ (Nat.le_refl _)

theorem scaled_mantissa_lt (number : Binary64) {base places : Nat} (small : base ≤ 10)
    (within : places ≤ 1074) :
    ((number.mantissa * Nat.pow base places : Nat) : ℚ) < 10 ^ (1100 : Int) := by
  have below : (number.mantissa : ℚ) < 10 ^ (16 : Int) := by
    have most : (number.mantissa : ℚ) < 2 ^ 53 := by exact_mod_cast number.canonical.1
    exact most.trans (by norm_num)
  have power : ((Nat.pow base places : Nat) : ℚ) ≤ 10 ^ (places : Int) := by
    rw [Nat.pow_eq, Nat.cast_pow, zpow_natCast]
    gcongr
    exact_mod_cast small
  calc ((number.mantissa * Nat.pow base places : Nat) : ℚ)
      = number.mantissa * (Nat.pow base places : Nat) := Nat.cast_mul _ _
    _ ≤ number.mantissa * 10 ^ (places : Int) := by gcongr
    _ < 10 ^ (16 : Int) * 10 ^ (places : Int) := by gcongr
    _ = 10 ^ (16 + places : Int) := (zpow_add₀ (by norm_num) _ _).symm
    _ ≤ 10 ^ (1100 : Int) := zpow_le_zpow_right₀ (by norm_num) (by omega)

theorem bounded_exactDecimal (number : Binary64) : Bounded number.exactDecimal := by
  obtain ⟨-, lowest, highest, -⟩ := number.canonical
  unfold Binary64.exactDecimal
  split
  · next below =>
      exact ⟨scaled_mantissa_lt number (by decide) (by omega), lowest, by dsimp only; omega⟩
  · exact ⟨scaled_mantissa_lt number (by decide) (by omega), by dsimp only; decide,
      by dsimp only; decide⟩

theorem bounded_shortest (notZero : number.mantissa ≠ 0) : Bounded number.shortest := by
  have first := decimalExponent_bounds notZero
  unfold Binary64.shortest
  generalize number.ratio = parts at first ⊢
  obtain ⟨numerator, denominator⟩ := parts
  dsimp only at first ⊢
  generalize tried : (List.range 17).findSome? _ = candidates
  cases candidates with
  | none => exact bounded_exactDecimal number
  | some decimal =>
      obtain ⟨count, within, found⟩ := List.exists_of_findSome?_eq_some tried
      have fewer := List.mem_range.mp within
      exact bounded_neighbours notZero (by omega) (by omega) decimal
        (List.mem_of_find?_eq_some found)

theorem length_toDigits_le (value places : Nat) (filled : 0 < places)
    (small : (value : ℚ) < 10 ^ (places : Int)) : (Nat.toDigits 10 value).length ≤ places := by
  rw [zpow_natCast] at small
  exact (Nat.length_toDigits_le_iff (by decide) filled).mpr (by exact_mod_cast small)

theorem length_positional_le (tail : List Char) (number : Digits) :
    (number.positional tail).length ≤
      number.digits.length + number.exponent.natAbs + tail.length + 2 := by
  unfold Digits.positional
  split
  · simp only [List.cons_append, List.length_cons, List.length_append, List.length_replicate]
    omega
  dsimp only
  split
  · simp only [List.length_append, List.length_replicate]
    omega
  · simp only [pointAfter, List.length_append, List.length_cons, List.length_take, List.length_drop]
    omega

theorem length_scientific_le (number : Digits) :
    number.scientific.length ≤ number.digits.length + number.exponent.natAbs + 4 := by
  have power : (Nat.toDigits 10 number.exponent.natAbs).length ≤ number.exponent.natAbs + 1 := by
    refine (Nat.length_toDigits_le_iff (by decide) (Nat.succ_pos _)).mpr ?_
    exact (Nat.lt_succ_self _).trans (Nat.lt_pow_self (by decide))
  unfold Digits.scientific
  dsimp only
  split
  · simp only [List.length_append, List.length_cons]
    omega
  · simp only [pointAfter, List.length_append, List.length_cons, List.length_take, List.length_drop]
    omega

-- No number has a long text.
theorem length_text_le (number : Binary64) : (number.text .plain).length ≤ 3000 := by
  by_cases empty : number.mantissa = 0
  · rw [Binary64.eq_zero_of_mantissa empty]
    cases number.negative <;> decide
  obtain ⟨coefficient, lowest, highest⟩ := bounded_shortest empty
  have digits := length_toDigits_le number.shortest.coefficient 1100 (by decide) coefficient
  have trimmed : number.shortest.toDigits.digits.length ≤ 1100 :=
    (List.length_reverse.trans_le
      ((List.dropWhile_sublist _).length_le.trans List.length_reverse.le)).trans digits
  have exponent : number.shortest.toDigits.exponent = number.shortest.exponent +
    ((Nat.toDigits 10 number.shortest.coefficient).length - 1 : Nat) := rfl
  have positional := length_positional_le ['.', '0'] number.shortest.toDigits
  have scientific := length_scientific_le number.shortest.toDigits
  have tail : ['.', '0'].length = 2 := rfl
  have written : number.isZero = false := by simpa [Binary64.isZero] using empty
  rw [Binary64.text, written, if_neg Bool.false_ne_true]
  dsimp only [Layout.plain]
  have short : (if -5 ≤ number.shortest.toDigits.exponent ∧ number.shortest.toDigits.exponent ≤ 15
      then number.shortest.toDigits.positional ['.', '0']
      else number.shortest.toDigits.scientific).length ≤ 2999 := by
    split <;> omega
  split
  · exact Nat.succ_le_succ short
  · exact short.trans (Nat.le_succ _)

end Lengths

namespace NumberText
variable {whole rest places : List Char}

theorem splitSign_of_digits (filled : whole ≠ []) (digits : ∀ c ∈ whole, c.isDigit = true) :
    splitSign (whole ++ rest) = (none, whole ++ rest) := by
  cases whole with
  | nil => contradiction
  | cons first others =>
      have digit := digits first List.mem_cons_self
      have unsigned : isSign first = false := by
        apply Bool.eq_false_iff.mpr
        intro sign
        rcases (by simpa [isSign] using sign : first = '+' ∨ first = '-') with rfl | rfl
        · exact absurd digit (by decide)
        · exact absurd digit (by decide)
      rw [List.cons_append, splitSign, unsigned, if_neg Bool.false_ne_true]

theorem takeWhile_digits (digits : ∀ c ∈ whole, c.isDigit = true)
    (ends : ∀ c ∈ rest.head?, c.isDigit = false) :
    (whole ++ rest).takeWhile Char.isDigit = whole ∧
      (whole ++ rest).dropWhile Char.isDigit = rest := by
  rw [List.takeWhile_append_of_pos digits, List.dropWhile_append_of_pos digits]
  cases rest with
  | nil => simp
  | cons c rest => simp [ends c rfl]

theorem split?_whole (filled : whole ≠ []) (digits : ∀ c ∈ whole, c.isDigit = true)
    (ends : ∀ c ∈ rest.head?, c.isDigit = false) (noPoint : rest.head? ≠ some '.') :
    split? (whole ++ rest) =
      (splitExponent rest).map fun exponent => ⟨none, whole, none, exponent⟩ := by
  obtain ⟨taken, dropped⟩ := takeWhile_digits digits ends
  rw [split?, splitSign_of_digits filled digits]
  simp only [taken, dropped]
  split
  · simp at noPoint
  · rfl

theorem split?_pointed (filled : whole ≠ []) (digits : ∀ c ∈ whole, c.isDigit = true)
    (decimals : ∀ c ∈ places, c.isDigit = true) (ends : ∀ c ∈ rest.head?, c.isDigit = false) :
    split? (whole ++ '.' :: (places ++ rest)) =
      (splitExponent rest).map fun exponent => ⟨none, whole, some places, exponent⟩ := by
  have point : ∀ c ∈ ('.' :: (places ++ rest)).head?, c.isDigit = false := by
    rintro c ⟨⟩
    rfl
  obtain ⟨taken, dropped⟩ := takeWhile_digits digits point
  obtain ⟨takenPlaces, droppedPlaces⟩ := takeWhile_digits decimals ends
  rw [split?, splitSign_of_digits filled digits]
  simp only [taken, dropped, takenPlaces, droppedPlaces]

end NumberText

end Toggles.Numeric
