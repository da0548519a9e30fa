import Prism.Types.Query

/-!
The statement a client writes and the plan it is bound to, with the tenant of the session beneath it
(`prism-sql/src/ast.rs` and `binder.rs`).
-/

namespace Prism

namespace Sql

inductive Agg where
  | countStar
  | count (column : String)
  | sum (column : String)
  | avg (column : String)
  | min (column : String)
  | max (column : String)
  deriving DecidableEq, Repr

inductive Item where
  | star
  | column (name : String)
  | attribute (key : String)
  | agg (a : Agg)
  deriving DecidableEq, Repr

structure Semantic where
  text : String
  deriving DecidableEq, Repr

structure Controls where
  nprobe : Option Nat := none
  candidates : Option Nat := none
  rerank : Option Nat := none
  deriving DecidableEq, Repr

structure Select where
  items : List Item
  filter : Option Predicate := none
  semantic : Option Semantic := none
  groupBy : List String := []
  limit : Option Nat := none
  controls : Controls := {}
  deriving DecidableEq, Repr

def columns : List String :=
  ["event_id", "tenant_id", "event_time", "observed_time", "event_name", "cost", "error", "body",
    "trace_id", "span_id", "score"]

def numeric : List String := ["cost", "event_time", "observed_time", "score"]

/-- Who is asking, from the authorization layer. -/
structure Session where
  tenant : String
  deriving DecidableEq, Repr

structure Plan where
  tenant : String
  filter : Option Predicate
  semantic : Option String
  projections : List Item
  groupBy : List String
  limit : Nat
  nprobe : Nat
  candidates : Nat
  rerank : Nat
  deriving DecidableEq, Repr

def Item.isAgg : Item → Bool
  | .agg _ => true
  | _ => false

def Item.isPlain : Item → Bool
  | .column _ => true
  | .star => true
  | _ => false

def Plan.isAggregate (p : Plan) : Bool := !p.groupBy.isEmpty || p.projections.any Item.isAgg

def checkColumn (c : String) : Result Unit :=
  if columns.contains c then .ok ()
  else .error (.invalid <| s!"unknown column `{c}`. An alias is not a column and is not in scope " ++
    "in WHERE; the columns are: " ++ ", ".intercalate columns)

def Agg.over : Agg → Option (String × String)
  | .countStar => none
  | .count c => some ("count", c)
  | .sum c => some ("sum", c)
  | .avg c => some ("avg", c)
  | .min c => some ("min", c)
  | .max c => some ("max", c)

def Agg.needsNumeric : Agg → Bool
  | .sum _ => true
  | .avg _ => true
  | _ => false

def checkAgg (a : Agg) : Result Unit :=
  match a.over with
  | none => .ok ()
  | some (name, col) => do
    checkColumn col
    if a.needsNumeric && !numeric.contains col then
      .error (.invalid s!"{name}({col}) is not defined: `{col}` is not numeric")

def checkExpr : Predicate → Result Unit
  | .column c => checkColumn c
  | .attribute _ => .ok ()
  | .literal _ => .ok ()
  | .not a => checkExpr a
  | .and a b => do
    checkExpr a
    checkExpr b
  | .or a b => do
    checkExpr a
    checkExpr b
  | .cmp a _ b => do
    checkExpr a
    checkExpr b
  | .in a _ => checkExpr a

def checkItem : Item → Result Unit
  | .column c => checkColumn c
  | .agg a => checkAgg a
  | .star => .ok ()
  | .attribute _ => .ok ()

def checkGroup (g : String) : Result Unit := do
  checkColumn g
  if g = "score" ∨ g = "semantic_cluster" then
    .error (.invalid <| "cannot GROUP BY score or semantic_cluster in SQL yet. Semantic grouping — " ++
      "GROUP BY meaning — is built and gated at the engine level in S9 (Engine::semantic_cluster, " ++
      "with NOVELTY/SEMANTIC_DIFF alongside it); its determinism, ordering, bounding and exemplar " ++
      "rules are the query contract §15–§18. The SQL *keyword* surface for it is the next " ++
      "increment, deferred exactly as S8 deferred the Flight wire transport — the semantics ship " ++
      "first, the grammar follows.")

def checkAll {α : Type} (check : α → Result Unit) : List α → Result Unit
  | [] => .ok ()
  | x :: xs => do
    check x
    checkAll check xs

def bind (stmt : Select) (session : Session) : Result Plan := do
  if session.tenant.isEmpty then
    .error (.invariant <| "no session tenant; a query with no tenant policy is a cross-tenant " ++
      "read, and this engine does not have one")
  checkAll checkExpr stmt.filter.toList
  checkAll checkItem stmt.items
  checkAll checkGroup stmt.groupBy
  if stmt.groupBy.isEmpty ∧ stmt.items.any Item.isAgg ∧ stmt.items.any Item.isPlain then
    .error (.invalid <| "a column is projected alongside an aggregate without a GROUP BY; which " ++
      "row's value would that be?")
  return {
    tenant := session.tenant
    filter := stmt.filter
    semantic := stmt.semantic.map (·.text)
    projections := stmt.items
    groupBy := stmt.groupBy
    limit := stmt.limit.getD 10
    nprobe := stmt.controls.nprobe.getD defaultNprobe
    candidates := stmt.controls.candidates.getD defaultCandidates
    rerank := stmt.controls.rerank.getD defaultRerank }

/-! ### What a bound plan is -/

theorem checkColumn_eq_ok {c : String} : checkColumn c = .ok () ↔ c ∈ columns := by
  unfold checkColumn
  split <;> simp_all

end Sql

end Prism
