import Mathlib.Algebra.Order.Field.Rat
import Mathlib.Data.Nat.Cast.Field
import Mathlib.Data.Rat.Cast.Order
import Mathlib.Tactic.Linarith
import Mathlib.Tactic.Positivity
import Mathlib.Tactic.Ring
import Segmentation.Double.Shortest

/-!
# The numbers that round to a binary64 number

* (whole numbers) `Double.toInt?` gives the value of a number wherever it is an integer (`toInt?_eq_some_iff`).
* (rounding) No rational number rounds to two magnitudes (`Rounds.unique`): the intervals of neighbours meet in one
  point, which belongs to the number with the even mantissa.
* (shortest decimals) The shortest decimal of a number rounds to it (`rounds_shortest`).
-/

namespace Segmentation

/-- A power with a natural exponent, as one with an integral exponent. -/
private theorem pow_toNat {b : ℚ} (pos : 0 < b) (z : ℤ) : b ^ z.toNat = b ^ z * b ^ (-z).toNat := by
  have all (z : ℤ) : (b ^ z.toNat : ℚ) = b ^ (z.toNat : ℤ) := (zpow_natCast b _).symm
  rw [all, all, ← zpow_add₀ pos.ne']
  congr 1
  omega

/-- The number that a decimal stands for. -/
def Decimal.value (x : Decimal) : ℚ := x.digits * 10 ^ x.exponent

namespace Double

variable (x y : Double)

/-- The value without its sign. -/
def magnitude : ℚ := x.mantissa * 2 ^ x.exponent

def value : ℚ := if x.negative then -x.magnitude else x.magnitude

/-! ### Whole numbers -/

/-- A magnitude is whole where the mantissa is divided by what stands below it, and then it is the quotient. -/
private theorem magnitude_eq_iff (n : ℕ) :
    x.magnitude = n ↔ x.mantissa % Nat.pow 2 (-x.exponent).toNat = 0 ∧
      x.mantissa * Nat.pow 2 x.exponent.toNat / Nat.pow 2 (-x.exponent).toNat = n := by
  have below : 0 < 2 ^ (-x.exponent).toNat := Nat.two_pow_pos _
  have whole : x.magnitude = n ↔ x.mantissa * 2 ^ x.exponent.toNat = n * 2 ^ (-x.exponent).toNat := by
    have scaled : ((x.mantissa * 2 ^ x.exponent.toNat : ℕ) : ℚ) = x.magnitude * (2 ^ (-x.exponent).toNat : ℕ) := by
      push_cast
      rw [magnitude, pow_toNat two_pos x.exponent]
      ring
    rw [← Nat.cast_inj (R := ℚ), scaled, Nat.cast_mul]
    exact (mul_left_inj' (Nat.cast_ne_zero.2 below.ne')).symm
  rw [whole]
  simp only [Nat.pow_eq]
  -- one of the two powers is one
  rcases Int.le_total 0 x.exponent with nonneg | nonpos
  · have none_below : (-x.exponent).toNat = 0 := by omega
    simp [none_below, Nat.mod_one]
  · have none_above : x.exponent.toNat = 0 := by omega
    simp only [none_above, pow_zero, Nat.mul_one]
    constructor
    · intro same
      rw [same]
      exact ⟨Nat.mul_mod_left _ _, Nat.mul_div_cancel _ below⟩
    · rintro ⟨divides, quotient⟩
      rw [← quotient]
      exact (Nat.div_mul_cancel (Nat.dvd_of_mod_eq_zero divides)).symm

theorem magnitude_nonneg : 0 ≤ x.magnitude := mul_nonneg (Nat.cast_nonneg _) (zpow_nonneg zero_le_two _)

/-- The integer that is found is the value, and every integral value is found. -/
theorem toInt?_eq_some_iff (n : ℤ) : x.toInt? = some n ↔ x.value = n := by
  -- up to the sign, both say that the magnitude is a natural number
  have by_magnitude (z : ℤ) : (∃ m : ℕ, x.magnitude = m ∧ (m : ℤ) = z) ↔ x.magnitude = z := by
    constructor
    · rintro ⟨m, eq, rfl⟩
      rw [eq, Int.cast_natCast]
    · intro eq
      have nonneg : 0 ≤ z := by exact_mod_cast eq ▸ x.magnitude_nonneg
      refine ⟨z.toNat, ?_, Int.toNat_of_nonneg nonneg⟩
      rw [eq, ← Int.cast_natCast, Int.toNat_of_nonneg nonneg]
  have found (z : ℤ) : x.magnitude = z ↔ x.mantissa % Nat.pow 2 (-x.exponent).toNat = 0 ∧
      ((x.mantissa * Nat.pow 2 x.exponent.toNat / Nat.pow 2 (-x.exponent).toNat : ℕ) : ℤ) = z := by
    rw [← by_magnitude]
    constructor
    · rintro ⟨m, eq, rfl⟩
      exact ((x.magnitude_eq_iff m).1 eq).imp_right (congrArg _)
    · rintro ⟨whole, eq⟩
      exact ⟨_, (x.magnitude_eq_iff _).2 ⟨whole, rfl⟩, eq⟩
  unfold toInt? value
  cases x.negative with
  | false =>
    simp only [Bool.false_eq_true, if_false, found]
    split <;> simp only [*, true_and, false_and, Option.some.injEq, reduceCtorEq]
  | true =>
    have negated : -x.magnitude = n ↔ x.magnitude = ((-n : ℤ) : ℚ) := by rw [Int.cast_neg, neg_eq_iff_eq_neg]
    simp only [if_true, negated, found]
    split <;> simp only [*, true_and, false_and, Option.some.injEq, reduceCtorEq, neg_eq_iff_eq_neg]

/-! ### Rounding -/

/-- A quarter of the last place of the mantissa. -/
def quarter : ℚ := 2 ^ (x.exponent - 2)

theorem quarter_pos : 0 < x.quarter := zpow_pos two_pos _

/-- The rational number rounds to the magnitude; the ends of the interval do so for an even mantissa. -/
def Rounds (v : ℚ) : Prop :=
  if x.mantissa % 2 = 0 then x.roundingInterval.1 * x.quarter ≤ v ∧ v ≤ x.roundingInterval.2 * x.quarter
  else x.roundingInterval.1 * x.quarter < v ∧ v < x.roundingInterval.2 * x.quarter

/-- What `readsBack` compares are multiples of one unit. -/
theorem commonUnit_spec (k : ℤ) : ∃ unit : ℚ, 0 < unit ∧
    ((x.commonUnit k).1 : ℚ) = x.quarter * unit ∧ ((x.commonUnit k).2 : ℚ) = 10 ^ k * unit := by
  refine ⟨2 ^ (-(x.exponent - 2)).toNat * 10 ^ (-k).toNat, by positivity, ?_, ?_⟩
  · simp only [commonUnit, Nat.pow_eq]
    push_cast
    rw [quarter, pow_toNat two_pos (x.exponent - 2)]
    ring
  · have ten_pos : (0 : ℚ) < 10 := by norm_num
    simp only [commonUnit, Nat.pow_eq]
    push_cast
    rw [pow_toNat ten_pos k]
    ring

theorem readsBack_iff (k : ℤ) (d : ℕ) : x.readsBack k d = true ↔ x.Rounds (d * 10 ^ k) := by
  obtain ⟨unit, pos, binary, decimal⟩ := x.commonUnit_spec k
  have le (a b : ℕ) : a * (x.commonUnit k).1 ≤ b * (x.commonUnit k).2 ↔ a * x.quarter ≤ b * 10 ^ k := by
    rw [← Nat.cast_le (α := ℚ)]
    push_cast
    rw [binary, decimal, ← mul_assoc, ← mul_assoc]
    exact mul_le_mul_iff_left₀ pos
  have ge (a b : ℕ) : b * (x.commonUnit k).2 ≤ a * (x.commonUnit k).1 ↔ b * 10 ^ k ≤ a * x.quarter := by
    rw [← Nat.cast_le (α := ℚ)]
    push_cast
    rw [binary, decimal, ← mul_assoc, ← mul_assoc]
    exact mul_le_mul_iff_left₀ pos
  unfold readsBack Rounds
  dsimp only
  split
  · simp only [Bool.decide_and, Bool.and_eq_true, decide_eq_true_eq, le, ge]
  · simp only [Bool.decide_and, Bool.and_eq_true, decide_eq_true_eq, ← not_le, le, ge]

variable {x y} {v : ℚ}

theorem Rounds.le (rounds : x.Rounds v) :
    x.roundingInterval.1 * x.quarter ≤ v ∧ v ≤ x.roundingInterval.2 * x.quarter := by
  unfold Rounds at rounds
  split at rounds
  · exact rounds
  · exact rounds.imp le_of_lt le_of_lt

theorem Rounds.lt (rounds : x.Rounds v) (odd : x.mantissa % 2 = 1) :
    x.roundingInterval.1 * x.quarter < v ∧ v < x.roundingInterval.2 * x.quarter := by
  rwa [Rounds, odd, if_neg Nat.one_ne_zero] at rounds

/-- If something rounds to two magnitudes, the interval of the one with the greater exponent begins in that of the
other, or they meet in one point and both mantissas are even. -/
theorem Rounds.meet {shift : ℕ} (above : y.exponent = x.exponent + shift) (rounds : x.Rounds v)
    (also : y.Rounds v) :
    y.roundingInterval.1 * 2 ^ shift ≤ x.roundingInterval.2 ∧
      (x.mantissa % 2 = 1 ∨ y.mantissa % 2 = 1 → y.roundingInterval.1 * 2 ^ shift < x.roundingInterval.2) := by
  have quarters : y.quarter = 2 ^ shift * x.quarter := by
    rw [quarter, quarter, above, ← zpow_natCast, ← zpow_add₀ two_ne_zero]
    congr 1
    omega
  have scaled : (y.roundingInterval.1 : ℚ) * y.quarter = (y.roundingInterval.1 * 2 ^ shift : ℕ) * x.quarter := by
    push_cast
    rw [quarters, mul_assoc]
  have first := also.le.1
  rw [scaled] at first
  refine ⟨?_, fun odd => ?_⟩
  · have le := le_of_mul_le_mul_right (first.trans rounds.le.2) x.quarter_pos
    exact_mod_cast le
  · have lt : ((y.roundingInterval.1 * 2 ^ shift : ℕ) : ℚ) * x.quarter < x.roundingInterval.2 * x.quarter := by
      rcases odd with odd | odd
      · exact first.trans_lt (rounds.lt odd).2
      · exact (scaled ▸ (also.lt odd).1).trans_le rounds.le.2
    have lt := lt_of_mul_lt_mul_right lt x.quarter_pos.le
    exact_mod_cast lt

/-- The lower gap is half a unit of the mantissa at most, and half of that below a power of two. -/
private theorem le_lower (x : Double) :
    4 * x.mantissa - 2 ≤ x.roundingInterval.1 ∧
      (x.mantissa = 2 ^ 52 → x.exponent ≠ -1074 → 4 * x.mantissa - 1 ≤ x.roundingInterval.1) := by
  simp only [roundingInterval, Nat.pow_eq]
  split
  · exact ⟨by omega, fun _ _ => le_rfl⟩
  · rename_i wide
    exact ⟨le_rfl, fun full normal => absurd (And.intro full normal) wide⟩

/-- Nothing rounds to two magnitudes with one exponent. -/
private theorem Rounds.mantissa_le (same : x.exponent = y.exponent) (rounds : x.Rounds v) (also : y.Rounds v) :
    y.mantissa ≤ x.mantissa := by
  obtain ⟨le, lt⟩ := rounds.meet (by rw [same, Nat.cast_zero, Int.add_zero]) also
  rw [pow_zero, Nat.mul_one] at le lt
  have upper : x.roundingInterval.2 = 4 * x.mantissa + 2 := rfl
  have lower := (le_lower y).1
  omega

/-- Nothing rounds to two magnitudes with different exponents: the one with the greater exponent has a full mantissa,
and its interval begins behind that of the other. -/
private theorem Rounds.exponent_le (rounds : x.Rounds v) (also : y.Rounds v) : y.exponent ≤ x.exponent := by
  by_contra! greater
  obtain ⟨shift, above⟩ := Int.le.dest greater.le
  obtain ⟨le, lt⟩ := rounds.meet above.symm also
  obtain ⟨narrow, least, -, -⟩ := x.canonical
  have full : 2 ^ 52 ≤ y.mantissa := y.canonical.2.2.2.resolve_right (by omega)
  have upper : x.roundingInterval.2 = 4 * x.mantissa + 2 := rfl
  have doubled : y.roundingInterval.1 * 2 ≤ y.roundingInterval.1 * 2 ^ shift :=
    Nat.mul_le_mul_left _ (Nat.le_self_pow (by omega) 2)
  obtain ⟨lower, lower_full⟩ := le_lower y
  rw [Nat.pow_eq] at narrow
  rcases full.eq_or_lt with least_full | more
  · have lower := lower_full least_full.symm (by omega)
    omega
  · omega

/-- Nothing rounds to two magnitudes. -/
theorem Rounds.unique (rounds : x.Rounds v) (also : y.Rounds v) :
    x.mantissa = y.mantissa ∧ x.exponent = y.exponent := by
  have same : x.exponent = y.exponent := Int.le_antisymm (also.exponent_le rounds) (rounds.exponent_le also)
  exact ⟨Nat.le_antisymm (also.mantissa_le same.symm rounds) (rounds.mantissa_le same also), same⟩

/-! ### Shortest decimals -/

theorem magnitude_eq (x : Double) : x.magnitude = (4 * x.mantissa : ℕ) * x.quarter := by
  have two_places : (2 : ℚ) ^ x.exponent = 2 ^ (x.exponent - 2) * 2 ^ (2 : ℤ) := by
    rw [← zpow_add₀ two_ne_zero, Int.sub_add_cancel]
  push_cast
  rw [magnitude, quarter, two_places]
  norm_num
  ring

/-- A number rounds to itself. -/
theorem rounds_magnitude (x : Double) : x.Rounds x.magnitude := by
  have lower : x.roundingInterval.1 ≤ 4 * x.mantissa := Nat.sub_le _ _
  have upper : 4 * x.mantissa < x.roundingInterval.2 := Nat.lt_add_of_pos_right two_pos
  unfold Rounds
  rw [magnitude_eq]
  simp only [mul_le_mul_iff_left₀ x.quarter_pos, mul_lt_mul_iff_left₀ x.quarter_pos, Nat.cast_le, Nat.cast_lt]
  split
  · exact ⟨lower, upper.le⟩
  · refine ⟨Nat.sub_lt (by omega) ?_, upper⟩
    split <;> decide

theorem readsBack_of_nearestOnGrid? {tie : Tie} {k : ℤ} {d : ℕ} (found : x.nearestOnGrid? tie k = some d) :
    x.readsBack k d = true := by
  unfold nearestOnGrid? at found
  dsimp only at found
  generalize 4 * x.mantissa * (x.commonUnit k).1 = value at found
  generalize value / (x.commonUnit k).2 = below at found
  have one_of : ∀ {d}, d = below ∨ d = below + 1 → x.readsBack k below = true → x.readsBack k (below + 1) = true →
      x.readsBack k d = true := by
    rintro d (rfl | rfl) reads_below reads_above
    · exact reads_below
    · exact reads_above
  split at found
  · rename_i reads_below reads_above
    refine one_of ?_ reads_below reads_above
    split at found
    · exact .inl (Option.some.inj found).symm
    · split at found
      · exact .inr (Option.some.inj found).symm
      · split at found
        · exact .inr (Option.some.inj found).symm
        · have found := Option.some.inj found
          split at found
          · exact .inl found.symm
          · exact .inr found.symm
  · rwa [← Option.some.inj found]
  · rwa [← Option.some.inj found]
  · cases found

/-- The finest grid contains the number itself. -/
theorem onGrid_finest (x : Double) :
    (⟨x.onGrid (min 0 x.exponent), min 0 x.exponent⟩ : Decimal).value = x.magnitude := by
  have divides : (x.commonUnit (min 0 x.exponent)).2 ∣ 4 * (x.commonUnit (min 0 x.exponent)).1 := by
    simp only [commonUnit, Nat.pow_eq]
    rcases Int.le_total 0 x.exponent with nonneg | nonpos
    · have few : 2 ^ (-(x.exponent - 2)).toNat ∣ 2 ^ 2 := Nat.pow_dvd_pow 2 (by omega)
      rw [Int.min_eq_left nonneg]
      exact (Nat.mul_dvd_mul_left _ few).trans (by simp [Dvd.intro])
    · have ten : 10 ^ (-x.exponent).toNat = 2 ^ (-x.exponent).toNat * 5 ^ (-x.exponent).toNat := (Nat.mul_pow 2 5 _)
      have four : 2 ^ (-(x.exponent - 2)).toNat = 4 * 2 ^ (-x.exponent).toNat := by
        rw [show (-(x.exponent - 2)).toNat = 2 + (-x.exponent).toNat by omega, pow_add]
        rfl
      have none_above : x.exponent.toNat = 0 := Int.toNat_of_nonpos nonpos
      rw [Int.min_eq_right nonpos, four, ten, none_above, pow_zero, Nat.one_mul]
      exact Dvd.intro (2 ^ (x.exponent - 2).toNat * 5 ^ (-x.exponent).toNat) (by ring)
  obtain ⟨unit, pos, binary, decimal⟩ := x.commonUnit_spec (min 0 x.exponent)
  have ten_pos : (0 : ℚ) < 10 ^ min 0 x.exponent := zpow_pos (by norm_num) _
  have decimal_ne : ((x.commonUnit (min 0 x.exponent)).2 : ℚ) ≠ 0 := decimal ▸ (mul_pos ten_pos pos).ne'
  have exact : 4 * x.mantissa * (x.commonUnit (min 0 x.exponent)).1 =
      x.mantissa * (4 * (x.commonUnit (min 0 x.exponent)).1) := by ring
  have quotient : (x.onGrid (min 0 x.exponent) : ℚ) =
      (4 * x.mantissa * (x.commonUnit (min 0 x.exponent)).1 : ℕ) / (x.commonUnit (min 0 x.exponent)).2 :=
    Nat.cast_div (exact ▸ Dvd.dvd.mul_left divides _) decimal_ne
  rw [Decimal.value, quotient, decimal, div_mul_eq_mul_div, div_eq_iff (mul_pos ten_pos pos).ne', magnitude_eq]
  push_cast
  rw [binary]
  ring

theorem rounds_shortestFrom (tie : Tie) {k : ℤ} (finest : x.Rounds (⟨x.onGrid k, k⟩ : Decimal).value) (n : ℕ) :
    x.Rounds (x.shortestFrom tie k n).value := by
  induction n with
  | zero => exact finest
  | succ n ih =>
    unfold shortestFrom
    split
    · exact (x.readsBack_iff _ _).1 (readsBack_of_nearestOnGrid? ‹_›)
    · exact ih

/-- The shortest decimal of a number rounds to it. -/
theorem rounds_shortest (x : Double) (tie : Tie) : x.Rounds (x.shortest tie).value := by
  have rounds := x.rounds_magnitude
  unfold shortest
  split
  · rename_i zero
    have mantissa_eq : x.mantissa = 0 := by simpa [isZero] using zero
    have zero_value : (⟨0, 0⟩ : Decimal).value = x.magnitude := by simp [Decimal.value, magnitude, mantissa_eq]
    rwa [zero_value]
  · exact rounds_shortestFrom tie (x.onGrid_finest ▸ rounds) _

end Double

end Segmentation
