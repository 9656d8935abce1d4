import Mathlib.Algebra.Order.Field.Rat
import Mathlib.Algebra.Order.Floor.Ring
import Mathlib.Data.Rat.Floor

/-!
# Binary64 numbers as rationals

A double is a rational, NaN, or an infinity; the two zeros are one.  An operation computes exactly and
rounds to the nearest double, ties to even.  Comparisons are exact, so that the rationals may also
stand for integers of any size, as in a language that compares the two without conversion.
-/

namespace Doubles

/-- A number: a rational, or one of the special doubles. -/
inductive Number
  | finite (q : ℚ)
  | nan
  | infinity (negative : Bool)
  deriving DecidableEq

namespace Number

/-! ### Rounding -/

/-- `⌊log₂ |q|⌋`, for `q ≠ 0`. -/
def exponent (q : ℚ) : ℤ :=
  let e : ℤ := q.num.natAbs.log2 - q.den.log2
  if |q| < 2 ^ e then e - 1 else e

/-- The nearest integer, ties to even. -/
def roundHalfEven (q : ℚ) : ℤ :=
  if q - ⌊q⌋ < 1 / 2 ∨ (q - ⌊q⌋ = 1 / 2 ∧ ⌊q⌋ % 2 = 0) then ⌊q⌋ else ⌊q⌋ + 1

/-- The double nearest to a rational. -/
def round (q : ℚ) : Number :=
  let ulp : ℚ := 2 ^ max (exponent q - 52) (-1074)
  let nearest : ℚ := roundHalfEven (q / ulp) * ulp
  if 2 ^ 1024 ≤ |nearest| then .infinity (decide (q < 0)) else .finite nearest

/-! ### Arithmetic -/

def neg : Number → Number
  | finite q => finite (-q)
  | nan => nan
  | infinity negative => infinity !negative

def add : Number → Number → Number
  | finite q, finite r => round (q + r)
  | nan, _ | _, nan => nan
  | infinity m, infinity n => if m = n then infinity m else nan
  | infinity m, finite _ | finite _, infinity m => infinity m

def sub (x y : Number) : Number := add x (neg y)

def abs : Number → Number
  | finite q => finite |q|
  | nan => nan
  | infinity _ => infinity false

/-- The product with a finite number other than zero. -/
def scale (q : ℚ) : Number → Number
  | finite r => round (q * r)
  | nan => nan
  | infinity negative => infinity (negative != decide (q < 0))

/-! ### Comparisons -/

/-- `x < y`, false when one of them is NaN. -/
def lt : Number → Number → Bool
  | finite q, finite r => decide (q < r)
  | infinity true, infinity false => true
  | infinity true, finite _ | finite _, infinity false => true
  | _, _ => false

/-- `x == y`, false when one of them is NaN. -/
def beq : Number → Number → Bool
  | finite q, finite r => decide (q = r)
  | infinity m, infinity n => m == n
  | _, _ => false

/-- `x <= y`, false when one of them is NaN. -/
def le (x y : Number) : Bool := lt x y || beq x y

/-- The number is finite. -/
def isFinite : Number → Bool
  | finite _ => true
  | nan | infinity _ => false

/-- `math.isclose`, on doubles. -/
def isClose (relTol absTol : ℚ) (x y : Number) : Bool :=
  if beq x y then true
  else
    match x, y with
    | infinity _, _ | _, infinity _ => false
    | _, _ =>
        let diff := abs (sub y x)
        le diff (abs (scale relTol y)) || le diff (abs (scale relTol x)) || le diff (finite absTol)

theorem round_ne_nan (q : ℚ) : round q ≠ nan := by
  unfold round
  simp only
  split <;> simp

/-! ### NaN -/

@[simp] theorem lt_nan (x : Number) : lt x nan = false := by
  cases x with
  | finite q | nan => rfl
  | infinity negative => cases negative <;> rfl

@[simp] theorem nan_lt (x : Number) : lt nan x = false := by
  cases x with
  | finite q | nan => rfl
  | infinity negative => cases negative <;> rfl

@[simp] theorem beq_nan (x : Number) : beq x nan = false := by
  cases x <;> rfl

@[simp] theorem nan_beq (x : Number) : beq nan x = false := by
  cases x <;> rfl

@[simp] theorem le_nan (x : Number) : le x nan = false := by
  simp [le]

@[simp] theorem nan_le (x : Number) : le nan x = false := by
  simp [le]

@[simp] theorem sub_nan (x : Number) : sub x nan = nan := by
  cases x <;> rfl

/-- NaN is close to nothing. -/
@[simp] theorem nan_isClose (relTol absTol : ℚ) (y : Number) : isClose relTol absTol nan y = false := by
  unfold isClose
  rw [nan_beq, if_neg Bool.false_ne_true]
  split
  · rfl
  · rfl
  · rw [sub_nan]
    simp only [abs, nan_le, Bool.or_self]

@[simp] theorem isFinite_finite (q : ℚ) : (finite q).isFinite = true := rfl

@[simp] theorem isFinite_nan : nan.isFinite = false := rfl

@[simp] theorem isFinite_infinity (b : Bool) : (infinity b).isFinite = false := rfl

end Number

end Doubles
