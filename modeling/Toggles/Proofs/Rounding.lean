import Mathlib.Algebra.Order.Field.Power
import Mathlib.Data.Int.Log
import Mathlib.Data.Rat.Floor
import Mathlib.Tactic.Linarith
import Mathlib.Tactic.Positivity
import Mathlib.Tactic.Ring
import Toggles.Numeric.Decimal

/-! Rounding to binary64.

A ratio is rounded by scaling it so that its last place is the unit, and by rounding the quotient
to a natural number. The result depends on the ratio only, not on the naturals that it is given by,
and no binary64 number is nearer to it.
-/

set_option autoImplicit false

namespace Toggles.Numeric

section Ratios
variable {base numerator denominator : Nat} {exponent : Int}

theorem ratio_pos (numeratorFilled : numerator ≠ 0) (filled : denominator ≠ 0) :
    (0 : ℚ) < (numerator : ℚ) / denominator := by
  have numeratorRat : (0 : ℚ) < numerator := by exact_mod_cast Nat.pos_of_ne_zero numeratorFilled
  have filledRat : (0 : ℚ) < denominator := by exact_mod_cast Nat.pos_of_ne_zero filled
  positivity

theorem scaleRatio_pos (baseFilled : 0 < base) (filled : 0 < denominator) :
    0 < (scaleRatio base exponent numerator denominator).2 := by
  unfold scaleRatio
  split
  · exact Nat.mul_pos filled (Nat.pow_pos baseFilled)
  · exact filled

theorem scaleRatio_quotient (baseFilled : 0 < base) (exponent : Int) (numerator denominator : Nat) :
    ((scaleRatio base exponent numerator denominator).1 : ℚ) /
        (scaleRatio base exponent numerator denominator).2 =
      (numerator : ℚ) / denominator * (base : ℚ) ^ exponent := by
  have filled : (base : ℚ) ≠ 0 := by exact_mod_cast Nat.ne_of_gt baseFilled
  unfold scaleRatio
  split
  · next below =>
      obtain ⟨power, same⟩ := Int.exists_eq_neg_ofNat (Int.le_of_lt below)
      subst same
      simp only [Nat.pow_eq, neg_neg, Int.toNat_natCast, Nat.cast_mul, Nat.cast_pow, zpow_neg,
        zpow_natCast]
      rw [← div_div, div_eq_mul_inv _ ((base : ℚ) ^ power)]
  · next above =>
      obtain ⟨power, rfl⟩ := Int.eq_ofNat_of_zero_le (Int.not_lt.mp above)
      simp only [Nat.pow_eq, Int.toNat_natCast, Nat.cast_mul, Nat.cast_pow, zpow_natCast]
      rw [mul_div_right_comm]

theorem powerAtMost_iff (baseFilled : 0 < base) (filled : 0 < denominator) :
    powerAtMost base exponent numerator denominator = true ↔
      (base : ℚ) ^ exponent ≤ (numerator : ℚ) / denominator := by
  have power := scaleRatio_quotient baseFilled exponent 1 1
  have scaled : 0 < (scaleRatio base exponent 1 1).2 := scaleRatio_pos baseFilled Nat.one_pos
  have scaledRat : (0 : ℚ) < (scaleRatio base exponent 1 1).2 := by exact_mod_cast scaled
  have filledRat : (0 : ℚ) < denominator := by exact_mod_cast filled
  rw [Nat.cast_one, div_one, one_mul] at power
  rw [← power, div_le_div_iff₀ scaledRat filledRat, powerAtMost]
  simp only [decide_eq_true_eq]
  exact_mod_cast Iff.rfl

theorem log_eq {ratio : ℚ} (least : (2 : ℚ) ^ exponent ≤ ratio)
    (beyond : ratio < (2 : ℚ) ^ (exponent + 1)) : Int.log 2 ratio = exponent := by
  have filled : 0 < ratio := lt_of_lt_of_le (by positivity) least
  have lower := (Int.zpow_le_iff_le_log Nat.one_lt_two filled).mp (by exact_mod_cast least)
  have upper := (Int.lt_zpow_iff_log_lt Nat.one_lt_two filled).mp (by exact_mod_cast beyond)
  omega

-- The lengths of two numbers in bits tell the power of two below their ratio up to one.
theorem ratio_bounds (numeratorFilled : numerator ≠ 0) (filled : denominator ≠ 0) :
    (2 : ℚ) ^ ((numerator.log2 : Int) - denominator.log2 - 1) ≤ (numerator : ℚ) / denominator ∧
      (numerator : ℚ) / denominator < (2 : ℚ) ^ ((numerator.log2 : Int) - denominator.log2 + 1) := by
  have least : (2 : ℚ) ^ numerator.log2 ≤ numerator := by
    exact_mod_cast Nat.log2_self_le numeratorFilled
  have beyond : (numerator : ℚ) < 2 ^ (numerator.log2 + 1) := by exact_mod_cast Nat.lt_log2_self
  have leastBelow : (2 : ℚ) ^ denominator.log2 ≤ denominator := by
    exact_mod_cast Nat.log2_self_le filled
  have beyondBelow : (denominator : ℚ) < 2 ^ (denominator.log2 + 1) := by
    exact_mod_cast Nat.lt_log2_self
  have filledRat : (0 : ℚ) < denominator := by exact_mod_cast Nat.pos_of_ne_zero filled
  constructor
  · rw [le_div_iff₀ filledRat]
    calc (2 : ℚ) ^ ((numerator.log2 : Int) - denominator.log2 - 1) * denominator
        ≤ (2 : ℚ) ^ ((numerator.log2 : Int) - denominator.log2 - 1) * 2 ^ (denominator.log2 + 1) := by
          gcongr
      _ = (2 : ℚ) ^ numerator.log2 := by
          rw [← zpow_natCast, ← zpow_natCast, ← zpow_add₀ two_ne_zero]
          congr 1
          push_cast
          ring
      _ ≤ numerator := least
  · rw [div_lt_iff₀ filledRat]
    calc (numerator : ℚ) < 2 ^ (numerator.log2 + 1) := beyond
      _ = (2 : ℚ) ^ ((numerator.log2 : Int) - denominator.log2 + 1) * 2 ^ denominator.log2 := by
          rw [← zpow_natCast, ← zpow_natCast, ← zpow_add₀ two_ne_zero]
          congr 1
          push_cast
          ring
      _ ≤ (2 : ℚ) ^ ((numerator.log2 : Int) - denominator.log2 + 1) * denominator := by gcongr

-- The exponent of the greatest power of two that is at most the ratio.
theorem binaryExponent_eq (numeratorFilled : numerator ≠ 0) (filled : denominator ≠ 0) :
    binaryExponent numerator denominator = Int.log 2 ((numerator : ℚ) / denominator) := by
  obtain ⟨lower, upper⟩ := ratio_bounds numeratorFilled filled
  rw [binaryExponent]
  by_cases atMost : powerAtMost 2 ((numerator.log2 : Int) - denominator.log2) numerator denominator
  · rw [if_pos atMost]
    rw [powerAtMost_iff Nat.two_pos (Nat.pos_of_ne_zero filled)] at atMost
    exact (log_eq (by exact_mod_cast atMost) upper).symm
  · rw [if_neg atMost]
    rw [powerAtMost_iff Nat.two_pos (Nat.pos_of_ne_zero filled), not_le] at atMost
    refine (log_eq lower ?_).symm
    rw [sub_add_cancel]
    exact_mod_cast atMost

end Ratios

section Integers
variable {ratio : ℚ} {value other : Nat}

/-- A natural number that a ratio is rounded to: none is nearer, and of two that are equally near
it is the even one. -/
structure RoundsTo (ratio : ℚ) (value : Nat) : Prop where
  within : |(value : ℚ) - ratio| ≤ 1 / 2
  tie : |(value : ℚ) - ratio| = 1 / 2 → value % 2 = 0

theorem roundsTo_roundHalfEven (numerator : Nat) {denominator : Nat} (filled : denominator ≠ 0) :
    RoundsTo ((numerator : ℚ) / denominator) (roundHalfEven numerator denominator) := by
  have filledRat : (0 : ℚ) < denominator := by exact_mod_cast Nat.pos_of_ne_zero filled
  have small : (0 : ℚ) ≤ (numerator % denominator : Nat) := by positivity
  have below := Nat.mod_lt numerator (Nat.pos_of_ne_zero filled)
  have divided : (numerator : ℚ) / denominator =
      (numerator / denominator : Nat) + ((numerator % denominator : Nat) : ℚ) / denominator := by
    rw [div_eq_iff filledRat.ne', add_mul, div_mul_cancel₀ _ filledRat.ne']
    exact_mod_cast (Nat.div_add_mod' numerator denominator).symm
  rw [divided, roundHalfEven]
  generalize numerator / denominator = quotient
  generalize numerator % denominator = rest at small below
  have share : (0 : ℚ) ≤ (rest : ℚ) / denominator := div_nonneg small filledRat.le
  have shareTwice : 2 * ((rest : ℚ) / denominator) = ((2 * rest : Nat) : ℚ) / denominator := by
    push_cast
    ring
  split
  · next less =>
      have less : ((2 * rest : Nat) : ℚ) / denominator < 1 := by
        rw [div_lt_one filledRat]
        exact_mod_cast less
      have distance : |(quotient : ℚ) - (quotient + (rest : ℚ) / denominator)| =
          (rest : ℚ) / denominator := by
        rw [sub_add_cancel_left, abs_neg, abs_of_nonneg share]
      constructor
      · linarith
      · intro same
        linarith
  split
  · next above =>
      have more : 1 < ((2 * rest : Nat) : ℚ) / denominator := by
        rw [one_lt_div filledRat]
        exact_mod_cast above
      have most : (rest : ℚ) / denominator ≤ 1 := by
        rw [div_le_one filledRat]
        exact_mod_cast below.le
      have distance : |((quotient + 1 : Nat) : ℚ) - (quotient + (rest : ℚ) / denominator)| =
          1 - (rest : ℚ) / denominator := by
        rw [← abs_of_nonneg (sub_nonneg.mpr most)]
        push_cast
        ring_nf
      constructor
      · linarith
      · intro same
        linarith
  · next notBelow notAbove =>
      have half : (rest : ℚ) / denominator = 1 / 2 := by
        have doubled : 2 * rest = denominator := by omega
        rw [doubled, div_self filledRat.ne'] at shareTwice
        linarith
      rw [half]
      split
      · next even =>
          exact ⟨by norm_num, fun _ => even⟩
      · next odd =>
          refine ⟨by push_cast; norm_num, fun _ => by omega⟩

-- Both would be a half away, and one of two numbers that follow each other is odd.
theorem RoundsTo.not_next (rounds : RoundsTo ratio value) : ¬RoundsTo ratio (value + 1) := by
  intro next
  have first := abs_le.mp rounds.within
  have second := abs_le.mp next.within
  push_cast at second
  have distance : (value : ℚ) - ratio = -(1 / 2) := by linarith
  have even := rounds.tie (by rw [distance]; norm_num)
  have evenNext := next.tie (by push_cast; rw [add_sub_right_comm, distance]; norm_num)
  omega

theorem RoundsTo.unique (rounds : RoundsTo ratio value) (roundsOther : RoundsTo ratio other) :
    value = other := by
  have first := abs_le.mp rounds.within
  have second := abs_le.mp roundsOther.within
  have above : (value : ℚ) ≤ other + 1 := by linarith
  have below : (other : ℚ) ≤ value + 1 := by linarith
  have above : value ≤ other + 1 := by exact_mod_cast above
  have below : other ≤ value + 1 := by exact_mod_cast below
  by_contra different
  rcases (by omega : value = other + 1 ∨ other = value + 1) with rfl | rfl
  · exact roundsOther.not_next rounds
  · exact rounds.not_next roundsOther

-- A half above an odd number is rounded up.
theorem RoundsTo.lt_of_odd {bound : Nat} (rounds : RoundsTo ratio value) (odd : bound % 2 = 1)
    (half : (bound : ℚ) + 1 / 2 ≤ ratio) : bound < value := by
  have within := abs_le.mp rounds.within
  have least : (bound : ℚ) ≤ value := by linarith
  have least : bound ≤ value := by exact_mod_cast least
  refine lt_of_le_of_ne least ?_
  rintro rfl
  have distance : (bound : ℚ) - ratio = -(1 / 2) := by linarith
  have even := rounds.tie (by rw [distance]; norm_num)
  omega

theorem roundsTo_self (value : Nat) : RoundsTo value value := by
  constructor <;> simp

theorem RoundsTo.atLeast {bound : Nat} (rounds : RoundsTo ratio value) (least : (bound : ℚ) ≤ ratio) :
    bound ≤ value := by
  have within := abs_le.mp rounds.within
  have below : (bound : ℚ) < value + 1 := by linarith
  exact Nat.lt_add_one_iff.mp (by exact_mod_cast below)

theorem RoundsTo.atMost {bound : Nat} (rounds : RoundsTo ratio value) (most : ratio ≤ bound) :
    value ≤ bound := by
  have within := abs_le.mp rounds.within
  have below : (value : ℚ) < bound + 1 := by linarith
  exact Nat.lt_add_one_iff.mp (by exact_mod_cast below)

-- No integer is nearer to the ratio, and another one that is as near leaves an even number.
theorem RoundsTo.nearest (rounds : RoundsTo ratio value) (other : Int) :
    |(value : ℚ) - ratio| ≤ |(other : ℚ) - ratio| ∧
      (|(other : ℚ) - ratio| = |(value : ℚ) - ratio| → other ≠ value → value % 2 = 0) := by
  rcases eq_or_ne other value with rfl | different
  · exact ⟨by simp, fun _ other => absurd rfl other⟩
  have apart : (1 : ℚ) ≤ |(value : ℚ) - other| := by
    exact_mod_cast Int.one_le_abs (sub_ne_zero.mpr different.symm)
  have split := abs_sub_le (value : ℚ) ratio other
  rw [abs_sub_comm ratio] at split
  have within := rounds.within
  refine ⟨by linarith, fun same _ => rounds.tie (by linarith)⟩

end Integers

namespace Binary64

section Parts
variable {negative : Bool} {mantissa : Nat} {exponent : Int} {number : Binary64}

theorem ofParts?_eq_none :
    ofParts? negative mantissa exponent = none ↔ ¬ CanonicalBinary64 mantissa exponent := by
  unfold ofParts?
  split <;> simp_all

theorem ofParts?_eq_some (canonical : CanonicalBinary64 mantissa exponent) :
    ofParts? negative mantissa exponent = some ⟨negative, mantissa, exponent, canonical⟩ := by
  rw [ofParts?, dif_pos canonical]

theorem eq_of_ofParts?_eq_some (made : ofParts? negative mantissa exponent = some number) :
    number.negative = negative ∧ number.mantissa = mantissa ∧ number.exponent = exponent := by
  unfold ofParts? at made
  split at made
  · obtain rfl := Option.some.inj made
    exact ⟨rfl, rfl, rfl⟩
  · cases made

end Parts

section Rounds
variable {negative : Bool} {numerator denominator mantissa : Nat} {ratio : ℚ}

/-- The power of two that the last place of a rounded ratio stands for. -/
def place (ratio : ℚ) : Int :=
  max (-1074) (Int.log 2 ratio - 52)

theorem two_pow_place_pos (ratio : ℚ) : (0 : ℚ) < 2 ^ place ratio := by positivity

theorem lt_of_place (ratio : ℚ) : ratio / 2 ^ place ratio < (2 ^ 53 : Nat) := by
  have beyond : ratio < (2 : ℚ) ^ (Int.log 2 ratio + 1) := by
    exact_mod_cast Int.lt_zpow_succ_log_self Nat.one_lt_two ratio
  have reaches : Int.log 2 ratio + 1 ≤ 53 + place ratio := by
    rw [place]
    omega
  rw [div_lt_iff₀ (two_pow_place_pos ratio)]
  calc ratio < (2 : ℚ) ^ (Int.log 2 ratio + 1) := beyond
    _ ≤ 2 ^ (53 + place ratio) := zpow_le_zpow_right₀ one_le_two reaches
    _ = (2 ^ 53 : Nat) * 2 ^ place ratio := by
        rw [zpow_add₀ two_ne_zero]
        norm_num

-- Above the least place the last place is chosen so that the mantissa is full.
theorem le_of_place (filled : 0 < ratio) :
    place ratio = -1074 ∨ ((2 ^ 52 : Nat) : ℚ) ≤ ratio / 2 ^ place ratio := by
  rcases le_or_gt (Int.log 2 ratio - 52) (-1074) with low | high
  · exact .inl (max_eq_left low)
  · right
    have atPlace : Int.log 2 ratio = 52 + place ratio := by
      rw [place, max_eq_right high.le]
      omega
    have least : (2 : ℚ) ^ Int.log 2 ratio ≤ ratio := by
      exact_mod_cast Int.zpow_log_le_self Nat.one_lt_two filled
    rw [le_div_iff₀ (two_pow_place_pos ratio)]
    calc ((2 ^ 52 : Nat) : ℚ) * 2 ^ place ratio = 2 ^ Int.log 2 ratio := by
          rw [atPlace, zpow_add₀ two_ne_zero]
          norm_num
      _ ≤ ratio := least

/-- The number that a rounded mantissa stands for, the carry into the next place taken out. -/
def ofRounded? (negative : Bool) (mantissa : Nat) (exponent : Int) : Option Binary64 :=
  if mantissa = Nat.pow 2 53 then ofParts? negative (Nat.pow 2 52) (exponent + 1)
  else ofParts? negative mantissa exponent

theorem exists_ofRatio?_eq (negative : Bool) (numeratorFilled : numerator ≠ 0)
    (filled : denominator ≠ 0) :
    ∃ mantissa,
      RoundsTo ((numerator : ℚ) / denominator / 2 ^ place ((numerator : ℚ) / denominator)) mantissa ∧
        ofRatio? negative numerator denominator =
          ofRounded? negative mantissa (place ((numerator : ℚ) / denominator)) := by
  have atPlace : max (-1074) (binaryExponent numerator denominator - 52) =
      place ((numerator : ℚ) / denominator) := by
    rw [place, binaryExponent_eq numeratorFilled filled]
  have unitFilled : 0 < (scaleRatio 2 (-place ((numerator : ℚ) / denominator))
      numerator denominator).2 := scaleRatio_pos Nat.two_pos (Nat.pos_of_ne_zero filled)
  have rounds := roundsTo_roundHalfEven
    (scaleRatio 2 (-place ((numerator : ℚ) / denominator)) numerator denominator).1 unitFilled.ne'
  rw [scaleRatio_quotient Nat.two_pos, Nat.cast_two, zpow_neg, ← div_eq_mul_inv] at rounds
  refine ⟨_, rounds, ?_⟩
  rw [ofRatio?, if_neg numeratorFilled, atPlace]
  rfl

-- Equal ratios are rounded alike, whatever naturals they are given by.
theorem ofRatio?_congr {otherNumerator otherDenominator : Nat} (filled : denominator ≠ 0)
    (otherFilled : otherDenominator ≠ 0)
    (same : (numerator : ℚ) / denominator = (otherNumerator : ℚ) / otherDenominator) :
    ofRatio? negative numerator denominator =
      ofRatio? negative otherNumerator otherDenominator := by
  have filledRat : (denominator : ℚ) ≠ 0 := by exact_mod_cast filled
  have otherFilledRat : (otherDenominator : ℚ) ≠ 0 := by exact_mod_cast otherFilled
  by_cases empty : numerator = 0
  · have otherEmpty : otherNumerator = 0 := by
      subst empty
      rw [Nat.cast_zero, zero_div, eq_comm, div_eq_zero_iff] at same
      exact_mod_cast same.resolve_right otherFilledRat
    rw [ofRatio?, ofRatio?, if_pos empty, if_pos otherEmpty]
  · have otherNumeratorFilled : otherNumerator ≠ 0 := by
      rintro rfl
      rw [Nat.cast_zero, zero_div, div_eq_zero_iff] at same
      exact empty (by exact_mod_cast same.resolve_right filledRat)
    obtain ⟨value, rounds, result⟩ := exists_ofRatio?_eq negative empty filled
    obtain ⟨other, otherRounds, otherResult⟩ :=
      exists_ofRatio?_eq negative otherNumeratorFilled otherFilled
    rw [← same] at otherRounds otherResult
    rw [result, otherResult, rounds.unique otherRounds]

/-- The middle between the greatest finite number and the power of two above it. -/
def overflow : Nat :=
  (2 ^ 54 - 1) * 2 ^ 970

theorem overflow_eq : (overflow : ℚ) = (2 ^ 53 - 1 / 2) * 2 ^ (971 : Int) := by
  have shifted : (2 : ℚ) ^ (971 : Int) = 2 * 2 ^ 970 := by
    rw [← zpow_natCast, ← zpow_one_add₀ two_ne_zero, Nat.cast_ofNat]
    norm_num only
  have half : ((2 ^ 54 - 1 : Nat) : ℚ) = (2 ^ 53 - 1 / 2) * 2 := by norm_num
  calc (overflow : ℚ) = (2 ^ 54 - 1 : Nat) * (2 ^ 970 : Nat) := Nat.cast_mul _ _
    _ = (2 ^ 53 - 1 / 2) * 2 * 2 ^ 970 := by
        rw [half, Nat.cast_pow, Nat.cast_two]
    _ = (2 ^ 53 - 1 / 2) * 2 ^ (971 : Int) := by rw [mul_assoc, shifted]

theorem word_le_overflow : 2 ^ 63 ≤ overflow := by
  have raised : ∀ high, 63 ≤ high → 2 ^ 63 ≤ (2 ^ 54 - 1) * 2 ^ high := by
    intro high above
    have power := Nat.pow_le_pow_right Nat.two_pos above
    omega
  exact raised 970 (by decide)

section Rounded
variable (filled : 0 < ratio) (rounds : RoundsTo (ratio / 2 ^ place ratio) mantissa)
include filled rounds

theorem rounded_bounds :
    mantissa ≤ 2 ^ 53 ∧ (place ratio = -1074 ∨ 2 ^ 52 ≤ mantissa) :=
  ⟨rounds.atMost (lt_of_place ratio).le, (le_of_place filled).imp_right rounds.atLeast⟩

theorem ofRounded?_eq_none :
    ofRounded? negative mantissa (place ratio) = none ↔
      971 < place ratio ∨ place ratio = 971 ∧ mantissa = 2 ^ 53 := by
  obtain ⟨most, least⟩ := rounded_bounds filled rounds
  have lowest : -1074 ≤ place ratio := le_max_left _ _
  rw [ofRounded?, Nat.pow_eq, Nat.pow_eq]
  split
  · rw [ofParts?_eq_none, CanonicalBinary64, Nat.pow_eq, Nat.pow_eq]
    omega
  · rw [ofParts?_eq_none, CanonicalBinary64, Nat.pow_eq, Nat.pow_eq]
    omega

theorem overflow_le_of_limit (limit : 971 < place ratio ∨ place ratio = 971 ∧ mantissa = 2 ^ 53) :
    (overflow : ℚ) ≤ ratio := by
  rcases limit with high | ⟨atLast, rfl⟩
  · have full := (le_of_place filled).resolve_left (by omega)
    rw [le_div_iff₀ (two_pow_place_pos ratio)] at full
    calc (overflow : ℚ) = (2 ^ 53 - 1 / 2) * 2 ^ (971 : Int) := overflow_eq
      _ ≤ (2 ^ 52 : Nat) * 2 * 2 ^ (971 : Int) := by
          gcongr
          norm_num
      _ = (2 ^ 52 : Nat) * 2 ^ (972 : Int) := by
          rw [mul_assoc, ← zpow_one_add₀ two_ne_zero]
          norm_num only
      _ ≤ (2 ^ 52 : Nat) * 2 ^ place ratio := by
          gcongr
          · exact one_le_two
          · omega
      _ ≤ ratio := full
  · have within := (abs_le.mp rounds.within).2
    rw [overflow_eq, ← le_div_iff₀ (by positivity), ← atLast]
    push_cast at within
    linarith

-- The greatest mantissa is odd, so a ratio in the middle above it is not rounded to it.
theorem limit_of_overflow_le (beyond : (overflow : ℚ) ≤ ratio) :
    971 < place ratio ∨ place ratio = 971 ∧ mantissa = 2 ^ 53 := by
  have high : 1023 ≤ Int.log 2 ratio := by
    refine (Int.zpow_le_iff_le_log Nat.one_lt_two filled).mp (le_trans ?_ beyond)
    calc ((2 : Nat) : ℚ) ^ (1023 : Int) = 2 ^ 52 * 2 ^ (971 : Int) := by
          rw [Nat.cast_two, ← zpow_natCast, ← zpow_add₀ two_ne_zero, Nat.cast_ofNat]
          norm_num only
      _ ≤ (2 ^ 53 - 1 / 2) * 2 ^ (971 : Int) := by
          gcongr
          norm_num
      _ = overflow := overflow_eq.symm
  rcases (by rw [place]; omega : 971 < place ratio ∨ place ratio = 971) with above | atLast
  · exact .inl above
  · rw [overflow_eq, ← le_div_iff₀ (by positivity), ← atLast] at beyond
    have middle : ((2 ^ 53 - 1 : Nat) : ℚ) + 1 / 2 ≤ ratio / 2 ^ place ratio := by
      norm_num at beyond ⊢
      exact beyond
    have above := rounds.lt_of_odd (by decide) middle
    have most := (rounded_bounds filled rounds).1
    exact .inr ⟨atLast, by omega⟩

end Rounded

-- Half a place above the greatest finite number there is nothing to round to.
theorem ofRatio?_eq_none (numeratorFilled : numerator ≠ 0) (filled : denominator ≠ 0) :
    ofRatio? negative numerator denominator = none ↔
      (overflow : ℚ) ≤ (numerator : ℚ) / denominator := by
  have ratioFilled := ratio_pos numeratorFilled filled
  obtain ⟨mantissa, rounds, result⟩ := exists_ofRatio?_eq negative numeratorFilled filled
  rw [result, ofRounded?_eq_none ratioFilled rounds]
  exact ⟨overflow_le_of_limit ratioFilled rounds, limit_of_overflow_le ratioFilled rounds⟩

-- Below half of the least number everything is rounded to zero.
theorem ofRatio?_eq_zero (numeratorFilled : numerator ≠ 0) (filled : denominator ≠ 0)
    (small : (numerator : ℚ) / denominator < 2 ^ (-1075 : Int)) :
    ofRatio? negative numerator denominator = some (zero negative) := by
  have ratioFilled := ratio_pos numeratorFilled filled
  obtain ⟨mantissa, rounds, result⟩ := exists_ofRatio?_eq negative numeratorFilled filled
  generalize (numerator : ℚ) / denominator = ratio at ratioFilled small rounds result
  have logBelow := (Int.lt_zpow_iff_log_lt Nat.one_lt_two ratioFilled).mp (by exact_mod_cast small)
  have atPlace : place ratio = -1074 := by
    rw [place]
    omega
  rw [atPlace] at rounds result
  have less : ratio / 2 ^ (-1074 : Int) < 1 / 2 := by
    rw [div_lt_iff₀ (by positivity)]
    calc ratio < 2 ^ (-1075 : Int) := small
      _ = 1 / 2 * 2 ^ (-1074 : Int) := by
          rw [one_div, ← zpow_neg_one, ← zpow_add₀ two_ne_zero]
          norm_num only
  have scaled : 0 < ratio / 2 ^ (-1074 : Int) := by positivity
  have toZero : RoundsTo (ratio / 2 ^ (-1074 : Int)) 0 := by
    have distance : |((0 : Nat) : ℚ) - ratio / 2 ^ (-1074 : Int)| = ratio / 2 ^ (-1074 : Int) := by
      rw [Nat.cast_zero, zero_sub, abs_neg, abs_of_pos scaled]
    exact ⟨by rw [distance]; exact less.le, fun _ => rfl⟩
  obtain rfl := rounds.unique toZero
  rw [result]
  rfl

def signed (negative : Bool) (magnitude : ℚ) : ℚ :=
  if negative then -magnitude else magnitude

theorem signed_sub (negative : Bool) (first second : ℚ) :
    signed negative first - signed negative second = signed negative (first - second) := by
  cases negative
  · rfl
  · simp only [signed, if_true]
    ring

@[simp] theorem abs_signed (negative : Bool) (magnitude : ℚ) :
    |signed negative magnitude| = |magnitude| := by
  cases negative
  · rfl
  · exact abs_neg magnitude

@[simp] theorem signed_signed (negative : Bool) (magnitude : ℚ) :
    signed negative (signed negative magnitude) = magnitude := by
  cases negative
  · rfl
  · exact neg_neg magnitude

def value (number : Binary64) : ℚ :=
  number.signedMantissa * 2 ^ number.exponent

theorem value_eq (number : Binary64) :
    number.value = signed number.negative (number.mantissa * 2 ^ number.exponent) := by
  rw [value, signedMantissa, signed]
  split
  · push_cast
    ring
  · push_cast
    ring

theorem place_of_canonical (number : Binary64) (notZero : number.mantissa ≠ 0) :
    place (number.mantissa * 2 ^ number.exponent) = number.exponent := by
  obtain ⟨below, lowest, highest, full⟩ := number.canonical
  rw [Nat.pow_eq] at below full
  generalize number.mantissa = mantissa at notZero below full ⊢
  generalize number.exponent = exponent at lowest highest full ⊢
  have mantissaFilled : (0 : ℚ) < mantissa := by exact_mod_cast Nat.pos_of_ne_zero notZero
  have filled : (0 : ℚ) < mantissa * 2 ^ exponent := by positivity
  have upper : (mantissa : ℚ) * 2 ^ exponent < (2 : Nat) ^ (53 + exponent) := by
    rw [Nat.cast_two, zpow_add₀ two_ne_zero]
    gcongr
    exact_mod_cast below
  have logBelow := (Int.lt_zpow_iff_log_lt Nat.one_lt_two filled).mp upper
  rw [place]
  rcases full with full | atLeast
  · have lower : (2 : Nat) ^ (52 + exponent) ≤ (mantissa : ℚ) * 2 ^ exponent := by
      rw [Nat.cast_two, zpow_add₀ two_ne_zero]
      gcongr
      exact_mod_cast full
    have logAbove := (Int.zpow_le_iff_le_log Nat.one_lt_two filled).mp lower
    omega
  · omega

-- A ratio that is a binary64 number is read without any rounding.
theorem ofRatio?_exact (number : Binary64) (notZero : number.mantissa ≠ 0) (filled : denominator ≠ 0)
    (same : (numerator : ℚ) / denominator = number.mantissa * 2 ^ number.exponent) :
    ofRatio? number.negative numerator denominator = some number := by
  have mantissaFilled : (number.mantissa : ℚ) ≠ 0 := by exact_mod_cast notZero
  have numeratorFilled : numerator ≠ 0 := by
    rintro rfl
    rw [Nat.cast_zero, zero_div] at same
    exact mul_ne_zero mantissaFilled (by positivity) same.symm
  obtain ⟨mantissa, rounds, result⟩ := exists_ofRatio?_eq number.negative numeratorFilled filled
  rw [same, place_of_canonical number notZero] at rounds result
  rw [mul_div_cancel_right₀ _ (by positivity)] at rounds
  obtain rfl := rounds.unique (roundsTo_self number.mantissa)
  rw [result, ofRounded?, if_neg (Nat.ne_of_lt number.canonical.1),
    ofParts?_eq_some number.canonical]

/-- A number that is nearest to a rational: no other is nearer, and its mantissa is even when
another is as near. -/
structure Nearest (number : Binary64) (target : ℚ) : Prop where
  closest : ∀ other : Binary64, |number.value - target| ≤ |other.value - target|
  tie : ∀ other : Binary64, |other.value - target| = |number.value - target| →
    other.value ≠ number.value → number.mantissa % 2 = 0

-- A number with a lower last place is below every mantissa that is full at this place.
theorem abs_value_lt (other : Binary64) {exponent : Int} (lower : other.exponent < exponent) :
    |other.value| < (2 ^ 52 : Nat) * 2 ^ exponent := by
  have below : (other.mantissa : ℚ) < 2 ^ 53 := by exact_mod_cast other.canonical.1
  have magnitude : (0 : ℚ) ≤ other.mantissa * 2 ^ other.exponent := by positivity
  rw [value_eq, abs_signed, abs_of_nonneg magnitude]
  calc (other.mantissa : ℚ) * 2 ^ other.exponent < 2 ^ 53 * 2 ^ other.exponent := by gcongr
    _ = 2 ^ (52 : Int) * 2 ^ (other.exponent + 1) := by
        rw [zpow_add_one₀ two_ne_zero]
        norm_num
        ring
    _ ≤ 2 ^ (52 : Int) * 2 ^ exponent := by
        gcongr
        · exact one_le_two
        · omega
    _ = (2 ^ 52 : Nat) * 2 ^ exponent := by norm_num

-- Numbers with this last place or a higher one are its multiples.
theorem exists_value_eq (other : Binary64) (negative : Bool) {exponent : Int}
    (higher : exponent ≤ other.exponent) :
    ∃ multiple : Int, signed negative other.value = multiple * 2 ^ exponent := by
  obtain ⟨steps, reached⟩ := Int.exists_add_of_le higher
  have split : other.value = (other.signedMantissa * 2 ^ steps : Int) * 2 ^ exponent := by
    rw [value, reached, zpow_add₀ two_ne_zero, zpow_natCast]
    push_cast
    ring
  rw [split, signed]
  split
  · exact ⟨-(other.signedMantissa * 2 ^ steps), by push_cast; ring⟩
  · exact ⟨_, rfl⟩

section Rounded
variable (filled : 0 < ratio) (rounds : RoundsTo (ratio / 2 ^ place ratio) mantissa)
include filled rounds

theorem rounded_closest (other : Binary64) (negative : Bool) :
    |mantissa * 2 ^ place ratio - ratio| ≤ |signed negative other.value - ratio| ∧
      (|signed negative other.value - ratio| = |mantissa * 2 ^ place ratio - ratio| →
        signed negative other.value ≠ mantissa * 2 ^ place ratio → mantissa % 2 = 0) := by
  have unit := two_pow_place_pos ratio
  have atUnit : ∀ factor : ℚ, |factor * 2 ^ place ratio - ratio| =
      |factor - ratio / 2 ^ place ratio| * 2 ^ place ratio := by
    intro factor
    rw [← abs_of_pos unit, ← abs_mul, abs_of_pos unit, sub_mul, div_mul_cancel₀ _ unit.ne']
  rcases le_or_gt (place ratio) other.exponent with higher | lower
  · obtain ⟨multiple, same⟩ := exists_value_eq other negative higher
    obtain ⟨closest, tie⟩ := rounds.nearest multiple
    rw [same, atUnit, atUnit]
    refine ⟨by gcongr, fun level different => tie ?_ ?_⟩
    · exact mul_right_cancel₀ unit.ne' level
    · rintro rfl
      exact different (by push_cast; rfl)
  · -- Then the place is not the least, and the mantissa that is just full is nearer.
    have full := (le_of_place filled).resolve_left (by have := other.canonical.2.1; omega)
    rw [le_div_iff₀ unit] at full
    have small := abs_value_lt other lower
    rw [← abs_signed negative] at small
    have closest := (rounds.nearest (2 ^ 52 : Nat)).1
    have nearer : |mantissa * 2 ^ place ratio - ratio| ≤
        |(2 ^ 52 : Nat) * 2 ^ place ratio - ratio| := by
      rw [atUnit, atUnit]
      exact mul_le_mul_of_nonneg_right (by exact_mod_cast closest) unit.le
    rw [abs_of_nonpos (sub_nonpos.mpr full)] at nearer
    have farther : ratio - (2 ^ 52 : Nat) * 2 ^ place ratio <
        |signed negative other.value - ratio| := by
      rw [abs_sub_comm]
      have := le_abs_self (signed negative other.value)
      have := le_abs_self (ratio - signed negative other.value)
      linarith
    exact ⟨by linarith, fun level _ => by linarith⟩

end Rounded

theorem parts_of_ofRounded? {exponent : Int} {number : Binary64}
    (made : ofRounded? negative mantissa exponent = some number) :
    number.negative = negative ∧
      (number.mantissa : ℚ) * 2 ^ number.exponent = mantissa * 2 ^ exponent ∧
        (mantissa % 2 = 0 → number.mantissa % 2 = 0) := by
  unfold ofRounded? at made
  split at made
  · next carry =>
      obtain ⟨sign, atMantissa, atExponent⟩ := eq_of_ofParts?_eq_some made
      rw [sign, atMantissa, atExponent, carry, zpow_add_one₀ two_ne_zero]
      refine ⟨rfl, by push_cast; ring, fun _ => rfl⟩
  · obtain ⟨sign, atMantissa, atExponent⟩ := eq_of_ofParts?_eq_some made
    rw [sign, atMantissa, atExponent]
    exact ⟨rfl, rfl, id⟩

-- What a ratio is read as has its sign, and no number is nearer.
theorem nearest_of_ofRatio? {number : Binary64} (filled : denominator ≠ 0)
    (read : ofRatio? negative numerator denominator = some number) :
    number.negative = negative ∧
      Nearest number (signed negative ((numerator : ℚ) / denominator)) := by
  by_cases empty : numerator = 0
  · rw [ofRatio?, if_pos empty, Option.some.injEq] at read
    subst read empty
    have exact : (zero negative).value = signed negative ((0 : Nat) / denominator : ℚ) := by
      rw [value_eq]
      simp [zero]
    refine ⟨rfl, ⟨fun other => ?_, fun _ _ _ => rfl⟩⟩
    rw [exact, sub_self, abs_zero]
    exact abs_nonneg _
  · have ratioFilled := ratio_pos empty filled
    obtain ⟨mantissa, rounds, result⟩ := exists_ofRatio?_eq negative empty filled
    generalize (numerator : ℚ) / denominator = ratio at ratioFilled rounds result ⊢
    rw [result] at read
    obtain ⟨rfl, magnitude, even⟩ := parts_of_ofRounded? read
    have distance : ∀ other : ℚ, |other - signed number.negative ratio| =
        |signed number.negative other - ratio| := by
      intro other
      rw [← abs_signed number.negative (other - _), ← signed_sub, signed_signed]
    have own : signed number.negative number.value = mantissa * 2 ^ place ratio := by
      rw [value_eq, signed_signed, magnitude]
    refine ⟨rfl, ⟨fun other => ?_, fun other level different => even ?_⟩⟩
    · rw [distance, distance, own]
      exact (rounded_closest ratioFilled rounds other _).1
    · rw [distance, distance, own] at level
      refine (rounded_closest ratioFilled rounds other _).2 level fun same => different ?_
      rw [← own] at same
      rw [← signed_signed number.negative other.value, same, signed_signed]

end Rounds

end Binary64

end Toggles.Numeric
