import Mathlib

/-! The `float` arithmetic of `wm_splitter_layout`: IEEE single precision,
round to nearest, ties to even, a value being `mant * 2 ^ exp`. An integer
below `2 ^ 24` is a `float` exactly, and so is a product of two of them that
stays below `2 ^ 24` (`mul_ofInt`); comparisons of such values are the
integers' comparisons (`lt_ofInt`). Division by a power of two is exact too, so
a size up to `2 ^ k` divided by `2 ^ k` and scaled back is the size again
(`share_two_pow`), which `7 / 23 * 23` is not. -/

namespace Cgdb

/-- A `float`: the value `mant * 2 ^ exp`. -/
structure Single where
  mant : Int
  exp : Int
  deriving DecidableEq, Repr

/-- `⌊log₂ n⌋` for `0 < n`, halving at most `fuel` times. -/
def log2Floor : Nat → Nat → Nat
  | 0, _ => 0
  | fuel + 1, n => if n < 2 then 0 else log2Floor fuel (n / 2) + 1

/-- `a / b` rounded to the nearest integer, ties to even. -/
def roundDiv (a b : Nat) : Nat :=
  if 2 * (a % b) < b then a / b
  else if b < 2 * (a % b) then a / b + 1
  else if a / b % 2 = 0 then a / b else a / b + 1

/-- The `float` nearest to `n / d`, for `0 < d`: the exponent `e` puts the
significand `|n| / (d * 2 ^ e)` in `[2 ^ 23, 2 ^ 24)`, then it is rounded. The
bit lengths of `|n|` and `d` give `⌊log₂ (|n| / d)⌋` or one more. -/
def roundRatio (n : Int) (d : Nat) : Single :=
  let a := n.natAbs
  let guess : Int := (log2Floor a a : Int) - log2Floor d d
  let below : Bool :=
    if 0 ≤ guess then a < d * 2 ^ guess.toNat else a * 2 ^ (-guess).toNat < d
  let e := (if below then guess - 1 else guess) - 23
  ⟨n.sign * roundDiv (a * 2 ^ (-e).toNat) (d * 2 ^ e.toNat), e⟩

/-- `(float) n`. -/
def Single.ofInt (n : Int) : Single := roundRatio n 1

/-- `x * y`. -/
def Single.mul (x y : Single) : Single :=
  let e := x.exp + y.exp
  roundRatio (x.mant * y.mant * 2 ^ e.toNat) (2 ^ (-e).toNat)

/-- `x / y`. A zero divisor, which makes C's quotient infinite or not a number,
gives `0`: results about the layout exclude it. -/
def Single.div (x y : Single) : Single :=
  if y.mant = 0 then ⟨0, 0⟩ else
  let e := x.exp - y.exp
  roundRatio (x.mant * y.mant.sign * 2 ^ e.toNat) (y.mant.natAbs * 2 ^ (-e).toNat)

/-- `(int) x`, which truncates towards zero. -/
def Single.toInt (x : Single) : Int :=
  if 0 ≤ x.exp then x.mant * 2 ^ x.exp.toNat else x.mant.tdiv (2 ^ (-x.exp).toNat)

/-- `x < y`. -/
def Single.lt (x y : Single) : Bool :=
  let e := min x.exp y.exp
  decide (x.mant * 2 ^ (x.exp - e).toNat < y.mant * 2 ^ (y.exp - e).toNat)

example : (Single.mul (Single.div (.ofInt 1) (.ofInt 3)) (.ofInt 3)).toInt = 1 := by decide

/-- `7 / 23` rounds down, and so does its product with 23. -/
example : (Single.mul (Single.div (.ofInt 7) (.ofInt 23)) (.ofInt 23)).toInt = 6 := by decide

theorem log2Floor_eq : ∀ (fuel n : Nat), n ≤ fuel → log2Floor fuel n = Nat.log 2 n
  | 0, n, small => by
    obtain rfl : n = 0 := by omega
    simp [log2Floor]
  | fuel + 1, n, small => by
    rw [log2Floor]
    split_ifs with one
    · interval_cases n <;> simp
    · rw [log2Floor_eq fuel (n / 2) (by omega)]
      exact (Nat.log_of_one_lt_of_le one_lt_two (by omega)).symm

theorem log_mul_two_pow {c : Nat} (pos : c ≠ 0) (k : Nat) : Nat.log 2 (c * 2 ^ k) = Nat.log 2 c + k := by
  induction k with
  | zero => simp
  | succ k ih => rw [pow_succ, ← mul_assoc, Nat.log_mul_base one_lt_two (by positivity), ih, add_assoc]

theorem roundDiv_mul (q : Nat) {b : Nat} (pos : 0 < b) : roundDiv (q * b) b = q := by
  simp [roundDiv, pos, Nat.mul_div_cancel _ pos]

theorem roundRatio_exact {c : Nat} (pos : 0 < c) (small : c < 2 ^ 24) (a b : Nat) :
    roundRatio (c * 2 ^ a : Nat) (2 ^ b) = ⟨c * 2 ^ (23 - Nat.log 2 c), Nat.log 2 c + a - b - 23⟩ := by
  have top : Nat.log 2 c < 24 := Nat.log_lt_of_lt_pow (by omega) small
  have low : 2 ^ Nat.log 2 c ≤ c := Nat.pow_log_le_self 2 (by omega)
  have scaled : ∀ x y, a + x = 23 - Nat.log 2 c + (b + y) →
      roundDiv (c * 2 ^ a * 2 ^ x) (2 ^ b * 2 ^ y) = c * 2 ^ (23 - Nat.log 2 c) := fun x y same => by
    rw [mul_assoc, ← pow_add, ← pow_add, same, pow_add, ← mul_assoc, roundDiv_mul _ (by positivity)]
  have reach : ∀ x, 2 ^ (Nat.log 2 c + x) ≤ c * 2 ^ x := fun x => by
    rw [pow_add]; exact Nat.mul_le_mul_right _ low
  have notBelow : (if 0 ≤ ((Nat.log 2 c + a : Nat) : Int) - (b : Nat)
      then decide (c * 2 ^ a < 2 ^ b * 2 ^ (((Nat.log 2 c + a : Nat) : Int) - (b : Nat)).toNat)
      else decide (c * 2 ^ a * 2 ^ (-(((Nat.log 2 c + a : Nat) : Int) - (b : Nat))).toNat < 2 ^ b)) = false := by
    split_ifs with up
    · rw [decide_eq_false_iff_not, not_lt, ← pow_add, show b + (((Nat.log 2 c + a : Nat) : Int) - (b : Nat)).toNat =
        Nat.log 2 c + a by omega, pow_add]
      exact Nat.mul_le_mul_right _ low
    · rw [decide_eq_false_iff_not, not_lt, mul_assoc, ← pow_add]
      calc 2 ^ b = 2 ^ (Nat.log 2 c + (a + (-(((Nat.log 2 c + a : Nat) : Int) - (b : Nat))).toNat)) := by
            congr 1; omega
        _ ≤ c * 2 ^ (a + (-(((Nat.log 2 c + a : Nat) : Int) - (b : Nat))).toNat) := reach _
  simp only [roundRatio, Int.natAbs_ofNat, log2Floor_eq _ _ le_rfl, log_mul_two_pow pos.ne' a,
    Nat.log_pow one_lt_two, notBelow, Bool.false_eq_true, if_false,
    Int.sign_natCast_of_ne_zero (by positivity : c * 2 ^ a ≠ 0), one_mul]
  rw [scaled _ _ (by omega)]
  congr 1; push_cast; ring

theorem ofInt_exact {c : Nat} (pos : 0 < c) (small : c < 2 ^ 24) :
    Single.ofInt c = ⟨c * 2 ^ (23 - Nat.log 2 c), Nat.log 2 c - 23⟩ := by
  simpa using roundRatio_exact pos small 0 0

theorem mul_ofInt {x y : Nat} (px : 0 < x) (py : 0 < y) (small : x * y < 2 ^ 24) :
    Single.mul (.ofInt x) (.ofInt y) = .ofInt (x * y : Nat) := by
  have hx : x < 2 ^ 24 := lt_of_le_of_lt (Nat.le_mul_of_pos_right x py) small
  have hy : y < 2 ^ 24 := lt_of_le_of_lt (Nat.le_mul_of_pos_left y px) small
  have tx : Nat.log 2 x < 24 := Nat.log_lt_of_lt_pow (by omega) hx
  have ty : Nat.log 2 y < 24 := Nat.log_lt_of_lt_pow (by omega) hy
  rw [ofInt_exact px hx, ofInt_exact py hy, ofInt_exact (Nat.mul_pos px py) small]
  unfold Single.mul
  dsimp only
  rw [show ((Nat.log 2 x : Int) - 23 + ((Nat.log 2 y : Int) - 23)).toNat = 0 by omega,
    show (-((Nat.log 2 x : Int) - 23 + ((Nat.log 2 y : Int) - 23))).toNat = 46 - Nat.log 2 x - Nat.log 2 y by omega,
    show (x * 2 ^ (23 - Nat.log 2 x) : Int) * (y * 2 ^ (23 - Nat.log 2 y)) * 2 ^ 0 =
      ((x * y * 2 ^ (46 - Nat.log 2 x - Nat.log 2 y) : Nat) : Int) by
      rw [show 46 - Nat.log 2 x - Nat.log 2 y = (23 - Nat.log 2 x) + (23 - Nat.log 2 y) by omega]
      push_cast
      ring,
    roundRatio_exact (Nat.mul_pos px py) small]
  congr 1
  omega

theorem lt_ofInt {x y : Nat} (px : 0 < x) (py : 0 < y) (hx : x < 2 ^ 24) (hy : y < 2 ^ 24) :
    (Single.ofInt x).lt (.ofInt y) = decide (x < y) := by
  have tx : Nat.log 2 x < 24 := Nat.log_lt_of_lt_pow (by omega) hx
  have ty : Nat.log 2 y < 24 := Nat.log_lt_of_lt_pow (by omega) hy
  rw [ofInt_exact px hx, ofInt_exact py hy]
  simp only [Single.lt]
  set m := min (Nat.log 2 x) (Nat.log 2 y)
  have shift : ∀ a, a < 24 → m ≤ a →
      (2 : Int) ^ (23 - a) * 2 ^ ((a : Int) - 23 - min ((Nat.log 2 x : Int) - 23) ((Nat.log 2 y : Int) - 23)).toNat =
        2 ^ (23 - m) := fun a top least => by
    rw [← pow_add]
    congr 1
    omega
  rw [mul_assoc, mul_assoc, shift _ tx (min_le_left _ _), shift _ ty (min_le_right _ _)]
  simp only [decide_eq_decide]
  exact_mod_cast Nat.mul_lt_mul_right (by positivity)

theorem roundRatio_mant_nonneg {n : Int} (d : Nat) (nonneg : 0 ≤ n) : 0 ≤ (roundRatio n d).mant :=
  mul_nonneg (Int.sign_nonneg.mpr nonneg) (Int.natCast_nonneg _)

theorem roundRatio_mant_nonpos {n : Int} (d : Nat) (nonpos : n ≤ 0) : (roundRatio n d).mant ≤ 0 := by
  have sign : n.sign ≤ 0 := by
    rcases nonpos.lt_or_eq with neg | rfl
    · rw [Int.sign_eq_neg_one_of_neg neg]; decide
    · rfl
  exact mul_nonpos_of_nonpos_of_nonneg sign (Int.natCast_nonneg _)

theorem mul_mant_nonneg {x y : Single} (hx : 0 ≤ x.mant) (hy : 0 ≤ y.mant) : 0 ≤ (Single.mul x y).mant :=
  roundRatio_mant_nonneg _ (mul_nonneg (mul_nonneg hx hy) (by positivity))

theorem lt_eq_false_of_mant {x y : Single} (hx : 0 ≤ x.mant) (hy : y.mant ≤ 0) : x.lt y = false := by
  simp only [Single.lt, decide_eq_false_iff_not, not_lt]
  exact le_trans (mul_nonpos_of_nonpos_of_nonneg hy (by positivity)) (mul_nonneg hx (by positivity))

theorem ofInt_two_pow {k : Nat} (small : k ≤ 23) : Single.ofInt (2 ^ k : Nat) = ⟨2 ^ 23, k - 23⟩ := by
  rw [ofInt_exact (by positivity) (lt_of_le_of_lt (Nat.pow_le_pow_right two_pos small) (by norm_num)),
    Nat.log_pow one_lt_two]
  congr 1
  rw [Nat.cast_pow, Nat.cast_ofNat, ← pow_add, Nat.add_sub_cancel' small]

theorem div_ofInt_two_pow {c k : Nat} (pos : 0 < c) (hc : c < 2 ^ 24) (small : k ≤ 23) :
    Single.div (.ofInt c) (.ofInt (2 ^ k : Nat)) = ⟨c * 2 ^ (23 - Nat.log 2 c), (Nat.log 2 c : Int) - k - 23⟩ := by
  have top : Nat.log 2 c < 24 := Nat.log_lt_of_lt_pow (by omega) hc
  rw [ofInt_exact pos hc, ofInt_two_pow small]
  unfold Single.div
  rw [if_neg (by norm_num)]
  dsimp only
  rw [Int.sign_eq_one_of_pos (by norm_num), show ((2 : Int) ^ 23).natAbs = 2 ^ 23 by norm_num, mul_one,
    show (c * 2 ^ (23 - Nat.log 2 c) : Int) * 2 ^ ((Nat.log 2 c : Int) - 23 - ((k : Int) - 23)).toNat =
      ((c * 2 ^ (23 - Nat.log 2 c + ((Nat.log 2 c : Int) - 23 - ((k : Int) - 23)).toNat) : Nat) : Int) by
      push_cast; ring,
    ← pow_add, roundRatio_exact pos hc]
  congr 1
  omega

theorem roundRatio_mant_zero {n : Int} (d : Nat) (zero : n = 0) : (roundRatio n d).mant = 0 :=
  le_antisymm (roundRatio_mant_nonpos d zero.le) (roundRatio_mant_nonneg d zero.ge)

theorem mant_div_zero {x : Single} (y : Single) (zero : x.mant = 0) : (Single.div x y).mant = 0 := by
  unfold Single.div
  split_ifs
  · rfl
  · exact roundRatio_mant_zero _ (by rw [zero, zero_mul, zero_mul])

theorem mant_mul_zero {x : Single} (y : Single) (zero : x.mant = 0) : (Single.mul x y).mant = 0 :=
  roundRatio_mant_zero _ (by rw [zero, zero_mul, zero_mul])

theorem toInt_zero {x : Single} (zero : x.mant = 0) : x.toInt = 0 := by
  simp [Single.toInt, zero]

theorem share_two_pow {c k : Nat} (fits : c ≤ 2 ^ k) (small : k ≤ 23) :
    (Single.mul (Single.div (.ofInt c) (.ofInt (2 ^ k : Nat))) (.ofInt (2 ^ k : Nat))).toInt = c := by
  rcases Nat.eq_zero_or_pos c with rfl | pos
  · exact toInt_zero (mant_mul_zero _ (mant_div_zero _ (roundRatio_mant_zero _ rfl)))
  have hc : c < 2 ^ 24 := lt_of_le_of_lt fits (lt_of_le_of_lt (Nat.pow_le_pow_right two_pos small) (by norm_num))
  have top : Nat.log 2 c < 24 := Nat.log_lt_of_lt_pow (by omega) hc
  rw [div_ofInt_two_pow pos hc small, ofInt_two_pow small]
  unfold Single.mul
  dsimp only
  rw [show ((Nat.log 2 c : Int) - k - 23 + ((k : Int) - 23)).toNat = 0 by omega,
    show (-((Nat.log 2 c : Int) - k - 23 + ((k : Int) - 23))).toNat = 46 - Nat.log 2 c by omega,
    show (c * 2 ^ (23 - Nat.log 2 c) : Int) * 2 ^ 23 * 2 ^ 0 = ((c * 2 ^ (46 - Nat.log 2 c) : Nat) : Int) by
      rw [show 46 - Nat.log 2 c = 23 - Nat.log 2 c + 23 by omega]; push_cast; ring,
    roundRatio_exact pos hc]
  unfold Single.toInt
  dsimp only
  split_ifs with whole
  · rw [show Nat.log 2 c = 23 by omega]
    simp
  · rw [show (-((Nat.log 2 c : Int) + (46 - Nat.log 2 c : Nat) - (46 - Nat.log 2 c : Nat) - 23)).toNat =
      23 - Nat.log 2 c by omega]
    exact Int.mul_tdiv_cancel _ (by positivity)

end Cgdb
