import Prism.Types.Float64

/-!
The `f32` values of the query path, as bit patterns: the total order they are sorted in, the
comparisons of the language, and the conversions into `f64`.
-/

namespace Prism

structure F32 where
  bits : UInt32
  deriving DecidableEq, Repr

namespace F32

def zero : F32 := ⟨0⟩

variable (x : F32)

/-- `f32::total_cmp` compares these: the bits of a positive value, and those of a negative one
counted down from `-1`. -/
def totalKey : Int :=
  if x.bits.toNat < 2 ^ 31 then x.bits.toNat else 2 ^ 31 - 1 - x.bits.toNat

def totalCmp (x y : F32) : Ordering := compare x.totalKey y.totalKey

theorem totalKey_injective : Function.Injective totalKey := by
  intro a b same
  have bits : a.bits.toNat = b.bits.toNat := by
    simp only [totalKey] at same
    split at same <;> split at same <;> omega
  cases a
  cases b
  exact congrArg F32.mk (UInt32.toNat_inj.mp bits)

instance : Std.TransCmp totalCmp :=
  inferInstanceAs (Std.TransCmp (compareOn totalKey))

instance : Std.LawfulEqCmp totalCmp where
  eq_of_compare same := totalKey_injective (Std.LawfulEqOrd.eq_of_compare same)

def negative : Bool := x.bits >>> 31 = 1

def exponentField : Nat := ((x.bits >>> 23) &&& 0xFF).toNat

def fraction : Nat := (x.bits &&& 0x7FFFFF).toNat

def isNan : Bool := x.exponentField = 0xFF ∧ x.fraction ≠ 0

/-- A number that orders the values other than NaN as `<` does. -/
def orderKey : Int :=
  let magnitude := (x.bits &&& 0x7FFFFFFF).toNat
  if x.negative then -(magnitude : Int) else magnitude

/-- Whether the comparison of two values other than NaN is one of `allowed`; a NaN compares with
nothing. -/
def compares (allowed : Ordering → Bool) (x y : F32) : Bool :=
  !x.isNan && !y.isNan && allowed (compare x.orderKey y.orderKey)

/-- `x < y`. -/
def below : F32 → F32 → Bool := compares Ordering.isLT

/-- `x <= y`. -/
def atMost : F32 → F32 → Bool := compares Ordering.isLE

/-- `x > y`. -/
def above : F32 → F32 → Bool := compares Ordering.isGT

/-- `x >= y`. -/
def atLeast : F32 → F32 → Bool := compares Ordering.isGE

/-- Of a value that compares with `y`, exactly one of `x <= y` and `x > y` is true. -/
theorem above_eq_not_atMost {x y : F32} (number : x.isNan = false) (bound : y.isNan = false) :
    x.above y = !x.atMost y := by
  simp only [above, atMost, compares, number, bound]
  cases compare x.orderKey y.orderKey <;> rfl

/-- `x as f64`, which is exact. -/
def toF64 : F64 :=
  let sign := if x.negative then 2 ^ 63 else 0
  let magnitude :=
    if x.exponentField = 0xFF then 0x7FF * 2 ^ 52 + x.fraction * 2 ^ 29
    else if x.exponentField = 0 then
      if x.fraction = 0 then 0
      else
        let top := x.fraction.log2
        (top + 1023 - 149) * 2 ^ 52 + (x.fraction - 2 ^ top) * 2 ^ (52 - top)
    else (x.exponentField + 1023 - 127) * 2 ^ 52 + x.fraction * 2 ^ 29
  ⟨UInt64.ofNat (sign + magnitude)⟩

/-- `f16_bits_to_f32`. The shifts bring the leading bit of a subnormal fraction to bit ten. -/
def ofHalfBits (h : Nat) : F32 :=
  let sign := h / 2 ^ 15 % 2 * 2 ^ 31
  let exp := h / 2 ^ 10 % 2 ^ 5
  let mant := h % 2 ^ 10
  let magnitude :=
    if exp = 0 then
      if mant = 0 then 0
      else
        let shifts : Nat := 10 - mant.log2
        let e : Int := -1 - (shifts : Int)
        (e + 1 - 15 + 127).toNat * 2 ^ 23 + mant * 2 ^ shifts % 2 ^ 10 * 2 ^ 13
    else if exp = 0x1F then 0x7F800000 + mant * 2 ^ 13
    else (exp + 127 - 15) * 2 ^ 23 + mant * 2 ^ 13
  ⟨UInt32.ofNat (sign + magnitude)⟩

end F32

namespace F64

/-- `n as f64` of a natural number: the nearest value of 53 significant bits, ties to even. A carry
out of the fraction raises the exponent. -/
def ofMagnitude (n : Nat) : Nat :=
  if n = 0 then 0
  else
    let top := n.log2
    let exponent := (top + 1023) * 2 ^ 52
    if top ≤ 52 then exponent + (n - 2 ^ top) * 2 ^ (52 - top)
    else
      let unit := 2 ^ (top - 52)
      let quotient := n / unit
      let rest := n % unit
      let up := unit < 2 * rest ∨ (2 * rest = unit ∧ quotient % 2 = 1)
      exponent + (quotient - 2 ^ 52) + if up then 1 else 0

/-- `x as f64` of an `i64`. -/
def ofI64 (x : Int) : F64 :=
  ⟨UInt64.ofNat ((if x < 0 then 2 ^ 63 else 0) + ofMagnitude x.natAbs)⟩

/-- `f64::partial_cmp`. -/
def partialCmp (a b : F64) : Option Ordering :=
  if a.isNan || b.isNan then none else some (compare a.orderKey b.orderKey)

end F64

end Prism
