import Prism.Lib.Bytes

/-!
The `f64` values events carry, as bit patterns: the tests admission makes on them, and the
decimal text the standard library prints for them.
-/

namespace Prism

structure F64 where
  bits : UInt64
  deriving DecidableEq, Repr

namespace F64

def zero : F64 := ⟨0⟩

variable (x : F64)

def negative : Bool := x.bits >>> 63 = 1

def exponentField : Nat := ((x.bits >>> 52) &&& 0x7FF).toNat

def fraction : Nat := (x.bits &&& 0xFFFFFFFFFFFFF).toNat

def isFinite : Bool := x.exponentField ≠ 0x7FF

def isNan : Bool := x.exponentField = 0x7FF ∧ x.fraction ≠ 0

def isZero : Bool := x.exponentField = 0 ∧ x.fraction = 0

/-- `x < 0.0`: a negative zero is not below zero, and a NaN compares with nothing. -/
def belowZero : Bool := x.negative && !x.isNan && !x.isZero

/-- A number that orders the values other than NaN as `<` does. -/
def orderKey : Int :=
  let magnitude := (x.bits &&& 0x7FFFFFFFFFFFFFFF).toNat
  if x.negative then -(magnitude : Int) else magnitude

/-- `f64::min`, which ignores a NaN. -/
def min (a b : F64) : F64 :=
  if a.isNan then b else if b.isNan then a else if a.orderKey ≤ b.orderKey then a else b

/-- `f64::max`, which ignores a NaN. -/
def max (a b : F64) : F64 :=
  if a.isNan then b else if b.isNan then a else if b.orderKey ≤ a.orderKey then a else b

def infinity : F64 := ⟨0x7FF0000000000000⟩

def negInfinity : F64 := ⟨0xFFF0000000000000⟩

/-! ### Display -/

/-- A finite magnitude is `significand * 2 ^ (scale - 1075)`. -/
def significand : Nat :=
  if x.exponentField = 0 then x.fraction else 2 ^ 52 + x.fraction

def scale : Nat := if x.exponentField = 0 then 1 else x.exponentField

/-- The magnitude in units of `2 ^ -1076`, a quarter of the gap between the smallest floats. -/
def units : Nat := 4 * x.significand * 2 ^ (x.scale - 1)

def one : Nat := 2 ^ 1076

/-- Half the gap to the next float below and above, in the same units. -/
def halfGapBelow : Nat :=
  if x.fraction = 0 ∧ 1 < x.exponentField then 2 ^ (x.scale - 1) else 2 * 2 ^ (x.scale - 1)

def halfGapAbove : Nat := 2 * 2 ^ (x.scale - 1)

/-- Whether `digits / 10 ^ places` reads back as the magnitude of `x`. A tie reads back as the float
with the even significand. -/
def readsBack (digits places : Nat) : Bool :=
  let value := digits * one
  let low := (x.units - x.halfGapBelow) * 10 ^ places
  let high := (x.units + x.halfGapAbove) * 10 ^ places
  if x.significand % 2 = 0 then decide (low ≤ value ∧ value ≤ high)
  else decide (low < value ∧ value < high)

/-- The closest multiple of `10 ^ drop / 10 ^ places` that reads back, if one does. -/
def closest (places drop : Nat) : Option Nat :=
  let unit := 10 ^ drop * one
  let exact := x.units * 10 ^ places
  let down := exact / unit * 10 ^ drop
  let up := down + 10 ^ drop
  let downFirst := 2 * (exact % unit) ≤ unit
  let first := if downFirst then down else up
  let second := if downFirst then up else down
  if x.readsBack first places then some first
  else if x.readsBack second places then some second
  else none

/-- The closest value that reads back with as many of the last digits dropped as possible. -/
def shortest (x : F64) (places : Nat) : Nat → Nat
  | 0 => (x.closest places 0).getD 0
  | drop + 1 => (x.closest places (drop + 1)).getD (x.shortest places drop)

def dropZeros : List Char → List Char
  | [] => []
  | c :: rest => if c = '0' then dropZeros rest else c :: rest

/-- No finite float needs more decimal places, and none has more digits before the point. -/
def maxPlaces : Nat := 345

def maxWhole : Nat := 310

/-- The digits of `digits / 10 ^ places`, without a decimal point for an integer. -/
def decimalText (digits places : Nat) : String :=
  let whole := digits / 10 ^ places
  let rest := (Nat.toDigits 10 (digits % 10 ^ places))
  let padded := List.replicate (places - rest.length) '0' ++ rest
  let tail := (dropZeros padded.reverse).reverse
  if tail.isEmpty then toString whole else toString whole ++ "." ++ String.ofList tail

/-- The text `Display` prints: the shortest decimal that reads back, never in scientific form. -/
def display : String :=
  if x.isNan then "NaN"
  else
    let sign := if x.negative then "-" else ""
    if !x.isFinite then sign ++ "inf"
    else if x.isZero then sign ++ "0"
    else sign ++ decimalText (x.shortest maxPlaces (maxPlaces + maxWhole)) maxPlaces

end F64

end Prism
