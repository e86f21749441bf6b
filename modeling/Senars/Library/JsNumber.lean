/-
This file is the arithmetic of script numbers over exact rationals. A number is a
rational, an infinity or not a number, and every operation is total: dividing by
zero gives an infinity or not a number, and not a number is absorbing and not
comparable. There is no rounding and one zero.

On rationals the operations are those of the field, which the simp lemmas say.
Division is the one that needs a fact, that the divisor is not zero.
-/

import Mathlib.Algebra.Order.Field.Rat

namespace Senars.Library

/-- A fraction of the way from one number to another. -/
def lerp {Number : Type} [Add Number] [Sub Number] [Mul Number] (start stop fraction : Number) :
    Number :=
  start + (stop - start) * fraction

/-- A script number. -/
inductive JsNumber where
  | nan
  | infinite (negative : Bool)
  | finite (value : ℚ)
  deriving DecidableEq

namespace JsNumber

instance (number : Nat) : OfNat JsNumber number := ⟨.finite number⟩

/-- Whether a number is below zero. -/
def isNegative : JsNumber → Bool
  | .nan => false
  | .infinite negative => negative
  | .finite value => value < 0

def neg : JsNumber → JsNumber
  | .nan => .nan
  | .infinite negative => .infinite !negative
  | .finite value => .finite (-value)

def add : JsNumber → JsNumber → JsNumber
  | .finite first, .finite second => .finite (first + second)
  | .infinite first, .infinite second => if first = second then .infinite first else .nan
  | .infinite first, .finite _ => .infinite first
  | .finite _, .infinite second => .infinite second
  | .nan, _ | _, .nan => .nan

def mul : JsNumber → JsNumber → JsNumber
  | .finite first, .finite second => .finite (first * second)
  | .infinite first, .infinite second => .infinite (first != second)
  | .infinite first, .finite second =>
    if second = 0 then .nan else .infinite (first != decide (second < 0))
  | .finite first, .infinite second =>
    if first = 0 then .nan else .infinite (decide (first < 0) != second)
  | .nan, _ | _, .nan => .nan

def div : JsNumber → JsNumber → JsNumber
  | .finite first, .finite second =>
    if second = 0 then if first = 0 then .nan else .infinite (first < 0)
    else .finite (first / second)
  | .infinite _, .infinite _ => .nan
  | .infinite first, .finite second => .infinite (first != decide (second < 0))
  | .finite _, .infinite _ => .finite 0
  | .nan, _ | _, .nan => .nan

instance : Neg JsNumber := ⟨neg⟩

instance : Add JsNumber := ⟨add⟩

instance : Sub JsNumber := ⟨fun first second => first + -second⟩

instance : Mul JsNumber := ⟨mul⟩

instance : Div JsNumber := ⟨div⟩

/-- `first < second`, which not a number never satisfies. -/
def less : JsNumber → JsNumber → Bool
  | .finite first, .finite second => first < second
  | .infinite first, .infinite second => first && !second
  | .infinite first, .finite _ => first
  | .finite _, .infinite second => !second
  | .nan, _ | _, .nan => false

/-- `first <= second`, which not a number never satisfies. -/
def lessEq (first second : JsNumber) : Bool :=
  first != .nan && second != .nan && !less second first

/-- `Math.min` of two numbers. -/
def min (first second : JsNumber) : JsNumber :=
  if first = .nan ∨ second = .nan then .nan else if less second first then second else first

/-- `Math.max` of two numbers. -/
def max (first second : JsNumber) : JsNumber :=
  if first = .nan ∨ second = .nan then .nan else if less first second then second else first

/-- `Math.abs`. -/
def abs (number : JsNumber) : JsNumber := if number.isNegative then -number else number

/-- `Math.ceil`. -/
def ceil : JsNumber → JsNumber
  | .finite value => .finite value.ceil
  | number => number

/-- `Math.floor`. -/
def floor : JsNumber → JsNumber
  | .finite value => .finite value.floor
  | number => number

def isNaN (number : JsNumber) : Bool := decide (number = .nan)

/-- The whole numbers the script represents exactly. -/
def isSafeInteger : JsNumber → Bool
  | .finite value => decide (value.den = 1 ∧ value.num.natAbs < 2 ^ 53)
  | _ => false

/-- Whether a number counts as true. -/
def truthy (number : JsNumber) : Bool := number != .nan && number != 0

/-- `values.slice(0, end)`: a fraction is cut off and a negative end counts from the back. -/
def sliceTo {Value : Type} (values : List Value) : JsNumber → List Value
  | .nan => []
  | .infinite negative => if negative then [] else values
  | .finite stop =>
    let whole := stop.num.tdiv stop.den
    values.take (if whole < 0 then values.length + whole else whole).toNat

theorem sliceTo_prefix {Value} (values : List Value) (stop : JsNumber) :
    sliceTo values stop <+: values := by
  unfold sliceTo
  split
  · exact List.nil_prefix
  · split
    · exact List.nil_prefix
    · exact List.prefix_rfl
  · exact List.take_prefix _ _

theorem sliceTo_of_nonneg {Value} (values : List Value) {stop} (nonneg : 0 ≤ stop) :
    sliceTo values (.finite stop) = values.take stop.floor.toNat := by
  have positive : 0 ≤ stop.num := Rat.num_nonneg.mpr nonneg
  have whole : 0 ≤ stop.num.tdiv stop.den := Int.tdiv_nonneg positive (Int.natCast_nonneg _)
  rw [sliceTo, if_neg (not_lt.mpr whole), Int.tdiv_eq_ediv_of_nonneg positive, Rat.floor_def]

/-- The rational a finite number is. -/
def value : JsNumber → ℚ
  | .finite value => value
  | _ => 0

/-! ### Operations on rationals -/

section Finite

variable (first second : ℚ)

@[simp] theorem ofNat_eq (number : Nat) :
    (OfNat.ofNat number : JsNumber) = .finite (number : ℚ) := rfl

@[simp] theorem finite_add : finite first + finite second = finite (first + second) := rfl

@[simp] theorem finite_mul : finite first * finite second = finite (first * second) := rfl

@[simp] theorem finite_neg : -finite first = finite (-first) := rfl

@[simp] theorem finite_sub : finite first - finite second = finite (first - second) := by
  rw [sub_eq_add_neg]
  rfl

theorem finite_div {first second} (nonzero : second ≠ 0) :
    finite first / finite second = finite (first / second) := by
  change div _ _ = _
  rw [div, if_neg nonzero]

@[simp] theorem less_finite : less (finite first) (finite second) = decide (first < second) := rfl

@[simp] theorem min_finite : min (finite first) (finite second) = finite (first ⊓ second) := by
  rw [min, if_neg (by simp), less_finite]
  by_cases before : second < first
  · rw [if_pos (decide_eq_true before), inf_eq_right.mpr before.le]
  · rw [if_neg (by simpa using before), inf_eq_left.mpr (not_lt.mp before)]

@[simp] theorem max_finite : max (finite first) (finite second) = finite (first ⊔ second) := by
  rw [max, if_neg (by simp), less_finite]
  by_cases before : first < second
  · rw [if_pos (decide_eq_true before), sup_eq_right.mpr before.le]
  · rw [if_neg (by simpa using before), sup_eq_left.mpr (not_lt.mp before)]

@[simp] theorem abs_finite : abs (finite first) = finite |first| := by
  rw [abs, isNegative]
  by_cases negative : first < 0
  · rw [if_pos (decide_eq_true negative), abs_of_neg negative]
    rfl
  · rw [if_neg (by simpa using negative), abs_of_nonneg (not_lt.mp negative)]

@[simp] theorem isNaN_finite : isNaN (finite first) = false := rfl

end Finite

/-! ### The order of the numbers -/

variable {first second : JsNumber}

theorem lessEq_total (firstNumber : first ≠ .nan) (secondNumber : second ≠ .nan) :
    lessEq first second = true ∨ lessEq second first = true := by
  cases first with
  | nan => exact absurd rfl firstNumber
  | infinite firstNegative =>
    cases second with
    | nan => exact absurd rfl secondNumber
    | infinite negative => cases firstNegative <;> simp [lessEq, less]
    | finite value => cases firstNegative <;> simp [lessEq, less]
  | finite firstValue =>
    cases second with
    | nan => exact absurd rfl secondNumber
    | infinite negative => cases negative <;> simp [lessEq, less]
    | finite value => simpa [lessEq] using le_total firstValue value

theorem lessEq_refl {number} (isNumber : number ≠ .nan) : lessEq number number = true :=
  (lessEq_total isNumber isNumber).elim id id

theorem lessEq_iff :
    lessEq first second = true ↔ first ≠ .nan ∧ second ≠ .nan ∧ less second first = false := by
  simp [lessEq, and_assoc]

theorem lessEq_trans {third} (low : lessEq first second = true)
    (high : lessEq second third = true) : lessEq first third = true := by
  cases first <;> cases second <;> cases third <;> simp_all [lessEq, less]
  · grind
  · exact low.trans high

theorem lessEq_natCast_iff {count : ℕ} {bound} (nonneg : 0 ≤ bound) :
    lessEq (.finite count) (.finite bound) = true ↔ count ≤ bound.floor.toNat := by
  have floor : 0 ≤ bound.floor := Rat.le_floor_iff.mpr (by exact_mod_cast nonneg)
  have below : (count : ℚ) ≤ bound ↔ (count : ℤ) ≤ bound.floor := by
    exact Rat.le_floor_iff.symm
  rw [lessEq_iff, less_finite, decide_eq_false_iff_not, not_lt, below]
  simp only [ne_eq, reduceCtorEq, not_false_eq_true, true_and]
  omega

end JsNumber

end Senars.Library
