import Prism.Types.Event
import Prism.Types.Float32

/-!
The row predicates of the query path and the SQL surface: three-valued evaluation over whatever
hands out the columns of a row, and the time bounds that pruning takes from a predicate
(`prism-types/src/predicate.rs`).
-/

namespace Prism

inductive Literal where
  | str (value : String)
  | int (value : Int)
  | float (value : F64)
  | bool (value : Bool)
  deriving DecidableEq, Repr

inductive CmpOp where
  | eq
  | notEq
  | lt
  | ltEq
  | gt
  | gtEq
  deriving DecidableEq, Repr

inductive Predicate where
  | column (name : String)
  | attribute (key : String)
  | literal (value : Literal)
  | cmp (left : Predicate) (op : CmpOp) (right : Predicate)
  | and (left right : Predicate)
  | or (left right : Predicate)
  | not (inner : Predicate)
  | in (value : Predicate) (list : List Literal)
  deriving DecidableEq, Repr

/-- One cell; an attribute that the row does not have is `null`. -/
inductive Value where
  | str (value : String)
  | int (value : Int)
  | float (value : F64)
  | bool (value : Bool)
  | null
  deriving DecidableEq, Repr

namespace Value

def fromAttr : AttrValue → Value
  | .str s => .str s
  | .int i => .int i
  | .double d => .float d
  | .bool b => .bool b

def fromLiteral : Literal → Value
  | .str s => .str s
  | .int i => .int i
  | .float f => .float f
  | .bool b => .bool b

def asF64 : Value → Option F64
  | .int i => some (F64.ofI64 i)
  | .float f => some f
  | _ => none

/-- The order of two values; `none` where they do not compare. -/
def cmpTo : Value → Value → Option Ordering
  | .null, _ => none
  | _, .null => none
  | .str a, .str b => some (compare a b)
  | .bool a, .bool b => some (compare a b)
  | a, b => do
    let a ← a.asF64
    let b ← b.asF64
    a.partialCmp b

end Value

/-- Whatever can hand a predicate the value of a column for a row. -/
structure RowSource where
  column : String → Nat → Result Value
  attr : String → Nat → Result Value

def CmpOp.holds : CmpOp → Ordering → Bool
  | .eq, ord => ord = .eq
  | .notEq, ord => ord ≠ .eq
  | .lt, ord => ord = .lt
  | .ltEq, ord => ord ≠ .gt
  | .gt, ord => ord = .gt
  | .gtEq, ord => ord ≠ .lt

namespace Predicate

/-- The value of an operand of a comparison. -/
def value (src : RowSource) (row : Nat) : Predicate → Result Value
  | .column c => src.column c row
  | .attribute k => src.attr k row
  | .literal l => .ok (Value.fromLiteral l)
  | _ => .error (.invalid "expected a column or a literal, found a boolean expression")

def and3 : Option Bool → Option Bool → Option Bool
  | some false, _ => some false
  | _, some false => some false
  | some true, some true => some true
  | _, _ => none

def or3 : Option Bool → Option Bool → Option Bool
  | some true, _ => some true
  | _, some true => some true
  | some false, some false => some false
  | _, _ => none

/-- A bare column or literal that stands for a boolean. -/
def truth : Value → Result (Option Bool)
  | .bool b => .ok (some b)
  | .null => .ok none
  | _ => .error (.invalid "expression is not a boolean")

/-- Three-valued evaluation. Both sides of a connective are evaluated, whatever the first says. -/
def eval3 (src : RowSource) (row : Nat) : Predicate → Result (Option Bool)
  | .and a b => do
    let x ← a.eval3 src row
    let y ← b.eval3 src row
    return and3 x y
  | .or a b => do
    let x ← a.eval3 src row
    let y ← b.eval3 src row
    return or3 x y
  | .not a => do
    let x ← a.eval3 src row
    return x.map (!·)
  | .cmp l op r => do
    let a ← l.value src row
    let b ← r.value src row
    return (a.cmpTo b).map op.holds
  | .in l list => do
    let a ← l.value src row
    if a = .null then return none
    else return some (list.any fun x => a.cmpTo (Value.fromLiteral x) = some .eq)
  | .column c => do truth (← src.column c row)
  | .attribute k => do truth (← src.attr k row)
  | .literal l => truth (Value.fromLiteral l)

/-- A comparison with an absent value is not true, and neither is its negation. -/
def eval (p : Predicate) (src : RowSource) (row : Nat) : Result Bool := do
  let x ← p.eval3 src row
  return x = some true

/-! ### Time bounds -/

/-- What has been found of the range of `event_time`. -/
structure TimeBounds where
  lo : Option Int
  hi : Option Int
  deriving DecidableEq, Repr

namespace TimeBounds

variable (b : TimeBounds)

def atLeast (v : Int) : TimeBounds := { b with lo := some (b.lo.elim v (max · v)) }

def atMost (v : Int) : TimeBounds := { b with hi := some (b.hi.elim v (min · v)) }

/-- What one comparison of `event_time` with an integer says; the neighbours wrap around. -/
def narrow (v : Int) : CmpOp → TimeBounds
  | .eq => (b.atLeast v).atMost v
  | .gt => b.atLeast (wrapI64 (v + 1))
  | .gtEq => b.atLeast v
  | .lt => b.atMost (wrapI64 (v - 1))
  | .ltEq => b.atMost v
  | .notEq => b

end TimeBounds

/-- The top-level conjuncts, in order. -/
def conjuncts : Predicate → List Predicate
  | .and a b => a.conjuncts ++ b.conjuncts
  | p => [p]

def boundsOf (b : TimeBounds) : Predicate → TimeBounds
  | .cmp (.column name) op (.literal (.int v)) => if name = "event_time" then b.narrow v op else b
  | _ => b

/-- The range of `event_time` that the top-level conjunction leaves. -/
def timeBounds (p : Predicate) : TimeBounds := p.conjuncts.foldl boundsOf ⟨none, none⟩

end Predicate

end Prism
