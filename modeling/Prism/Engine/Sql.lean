import Prism.Engine.Cursor
import Prism.Engine.Search
import Prism.Sql.Binder

/-!
Execution of a bound plan: rows in pages, the scalar scan and the scalar count beside the search, and
aggregates (`prism-engine/src/sql.rs`).
-/

namespace Prism

namespace Sql

inductive Cell where
  | null
  | bool (value : Bool)
  | int (value : Int)
  | float (value : F64)
  | string (value : String)
  deriving DecidableEq, Repr

abbrev Row := List (String × Cell)

structure SqlResult where
  columns : List String
  rows : List Row
  counters : Counters
  snapshotId : SnapshotId
  nextCursor : Option String
  deriving DecidableEq

structure CursorBody where
  snapshot : SnapshotId
  plan : String
  position : Keyset
  route : String
  deriving DecidableEq, Repr

/-- What a plan runs on, beside the engine and its store: the search, the JSON library, and the
least and the greatest of two floats. -/
structure Env where
  query : QueryEnv
  cursors : CursorSerde CursorBody
  planToVec : Plan → Option Bytes
  min64 : F64 → F64 → F64
  max64 : F64 → F64 → F64

def Env.planFingerprint (env : Env) (p : Plan) : String := contentId ((env.planToVec p).getD [])

abbrev ScoredRow := Event × F32

def resultOrder (a b : ScoredRow) : Ordering :=
  (b.2.totalCmp a.2).then (compare a.1.eventId b.1.eventId)

instance : Std.TransCmp resultOrder :=
  inferInstanceAs (Std.TransCmp
    (Ranking.descendingThen F32.totalCmp compare Prod.snd fun r : ScoredRow => r.1.eventId))

def resultKey (r : ScoredRow) : Keyset := ⟨r.2, r.1.eventId⟩

/-! ### Projection -/

def display : Value → String
  | .str s => s
  | .int i => toString i
  | .float f => f.display
  | .bool b => toString b
  | .null => ""

/-- A float as JSON, which has no number for one that is not finite. -/
def Cell.ofF64 (f : F64) : Cell := if f.isFinite then .float f else .null

def toJson : Value → Cell
  | .str s => .string s
  | .int i => .int i
  | .float f => Cell.ofF64 f
  | .bool b => .bool b
  | .null => .null

def aggName : Agg → String
  | .countStar => "count(*)"
  | .count c => s!"count({c})"
  | .sum c => s!"sum({c})"
  | .avg c => s!"avg({c})"
  | .min c => s!"min({c})"
  | .max c => s!"max({c})"

def attributeName (key : String) : String := s!"attributes[{key}]"

def starColumns : List String := columns.filter (· ≠ "score")

variable (plan : Plan)

def projectionNames : List String :=
  plan.projections.flatMap fun
    | .star => starColumns
    | .column c => [c]
    | .attribute k => [attributeName k]
    | .agg a => [aggName a]

def cellOf (r : ScoredRow) (column : String) : Result Value :=
  (Rowsource.EventRow.mk r.1 r.2).column column 0

def projectColumn (r : ScoredRow) (column : String) : Result (String × Cell) := do
  return (column, toJson (← cellOf r column))

def projectItem (r : ScoredRow) : Item → Result Row
  | .star => starColumns.mapM (projectColumn r)
  | .column c => do return [← projectColumn r c]
  | .attribute k => do
    let v ← (Rowsource.EventRow.mk r.1 r.2).attr k 0
    return [(attributeName k, toJson v)]
  | .agg _ => .error (.invalid "an aggregate appeared in a non-aggregate query")

def project (r : ScoredRow) : Result Row := do
  return (← plan.projections.mapM (projectItem r)).flatten

/-! ### Aggregates -/

def numbers (members : List ScoredRow) (column : String) : Result (List F64) := do
  return (← members.mapM fun r => do return (← cellOf r column).asF64).filterMap id

def extremum (pick : F64 → F64 → F64) (xs : List F64) : Cell :=
  match xs.foldl (fun acc x => some (acc.elim x (pick · x))) (none : Option F64) with
  | some x => Cell.ofF64 x
  | none => .null

def isNullAt (column : String) (r : ScoredRow) : Bool :=
  match cellOf r column with
  | .ok .null => true
  | _ => false

def aggregate (env : Env) (a : Agg) (members : List ScoredRow) : Result Cell :=
  let fu := env.query.floats
  match a with
  | .countStar => .ok (.int members.length)
  | .count c => .ok (.int (members.filter (!isNullAt c ·)).length)
  | .sum c => do return Cell.ofF64 (fu.sum64 (← numbers members c))
  | .avg c => do
    let xs ← numbers members c
    if xs.isEmpty then return .null
    else return Cell.ofF64 (fu.div64 (fu.sum64 xs) (F64.ofI64 xs.length))
  | .min c => do return extremum env.min64 (← numbers members c)
  | .max c => do return extremum env.max64 (← numbers members c)

def groupKey (r : ScoredRow) : Result (List String) :=
  plan.groupBy.mapM fun g => do return display (← cellOf r g)

def prepend (cell : String × Cell) (rest : Panics (Result Row)) :
    Panics (Result Row) :=
  rest.map (·.map (cell :: ·))

/-- The cells of one group. A projected column that is grouped takes the next value of the key, in
the order of the projections; past the end of the key the source panics. -/
def groupCells (env : Env) (plan : Plan) (key : List String) (members : List ScoredRow) :
    Nat → List Item → Panics (Result Row)
  | _, [] => some (.ok [])
  | ki, .column c :: items =>
    if plan.groupBy.contains c then
      match key[ki]? with
      | some v => prepend (c, .string v) (groupCells env plan key members (ki + 1) items)
      | none => none
    else prepend (c, .null) (groupCells env plan key members ki items)
  | ki, .agg a :: items =>
    match aggregate env a members with
    | .ok v => prepend (aggName a, v) (groupCells env plan key members ki items)
    | .error e => some (.error e)
  | _, .star :: _ => some (.error (.invalid "`*` is not meaningful beside an aggregate"))
  | ki, .attribute k :: items =>
    prepend (attributeName k, .null) (groupCells env plan key members ki items)

def groupRows (env : Env) (plan : Plan) :
    List (List String × List ScoredRow) → Panics (Result (List Row))
  | [] => some (.ok [])
  | (key, members) :: groups =>
    match groupCells env plan key members 0 plan.projections with
    | some (.ok row) => (groupRows env plan groups).map (·.map (row :: ·))
    | some (.error e) => some (.error e)
    | none => none

/-- The groups of the rows by their keys. Without GROUP BY there is one group, even of no rows. -/
def groupsOf (rows : List ScoredRow) :
    Result (List (List String × List ScoredRow)) := do
  let keyed ← rows.mapM fun r => do return (← groupKey plan r, r)
  let groups := (OrderedMap.groupBy Prod.fst keyed).toList.map fun (key, members) =>
    (key, members.map Prod.snd)
  if plan.groupBy.isEmpty && groups.isEmpty then return [([], [])] else return groups

def isPureCount : Bool :=
  plan.groupBy.isEmpty && !plan.projections.isEmpty &&
    plan.projections.all (· = .agg .countStar)

/-! ### The scalar path -/

def Plan.bounds : Predicate.TimeBounds :=
  (plan.filter.map Predicate.timeBounds).getD ⟨none, none⟩

def scalarMatches (e : Event) : Result Bool :=
  if e.tenantId ≠ plan.tenant then .ok false
  else
    match plan.filter with
    | some p => p.eval (Rowsource.EventRow.mk e F32.zero).source 0
    | none => .ok true

def countMatches (tenants : Scalars) (view : Rowsource.PartRows) (row : Nat) :
    Result Bool :=
  if !tenants.tenantIs row plan.tenant then .ok false
  else
    match plan.filter with
    | some p => p.eval view.source row
    | none => .ok true

structure Pass (σ : Type) where
  found : σ
  counters : Counters

namespace Pass

variable {σ : Type}

def pruned (p : Pass σ) : Pass σ :=
  { p with counters := { p.counters with partsPruned := p.counters.partsPruned + 1 } }

def opened (p : Pass σ) (r : PartReader) (found : σ) (passing : Nat) : Pass σ :=
  let c := p.counters
  ⟨found, { c with
    partsOpened := c.partsOpened + 1
    rowsEligible := c.rowsEligible + r.manifest.rowCount
    rowsPassingFilter := c.rowsPassingFilter + passing }⟩

end Pass

def matchingEvents (r : PartReader) : Result (List Event) := do
  let rows ← r.readPartRows
  Fallible.keepM (scalarMatches plan) rows.events

/-- The matching rows of a part, from the columns the filter names and those of the tenant. -/
def matchingRows (r : PartReader) : Result (List Nat) := do
  let view ← Rowsource.PartRows.new r plan.filter
  let tenants ← r.readScalars
  Fallible.keepM (countMatches plan tenants view) (List.range r.manifest.rowCount)

variable (tokenizer : Option TenantTokenizer)

def scalarScanPart (plan : Plan) (pass : Pass (List ScoredRow)) (r : PartReader) :
    Result (Pass (List ScoredRow)) := do
  if ← mayHold tokenizer (some plan.tenant) plan.bounds.lo plan.bounds.hi r then
    let kept ← matchingEvents plan r
    return pass.opened r (pass.found ++ kept.map (·, F32.zero)) kept.length
  else return pass.pruned

def scalarCountPart (plan : Plan) (pass : Pass Nat) (r : PartReader) : Result (Pass Nat) := do
  if ← mayHold tokenizer (some plan.tenant) plan.bounds.lo plan.bounds.hi r then
    let kept ← matchingRows plan r
    return pass.opened r (pass.found + kept.length) kept.length
  else return pass.pruned

end Sql

namespace Engine

open Sql

def scalarPass {σ : Type} (engine : Engine) (store : Store) (plan : Plan) (snap : Snapshot)
    (start : σ) (step : Option TenantTokenizer → Pass σ → PartReader → Result (Pass σ)) :
    Result (Pass σ) := do
  let tokenizer ← engine.tenantTokenizer
  let (readers, pruned) ←
    engine.openCandidates store snap (some plan.tenant) plan.bounds.lo plan.bounds.hi
  readers.foldlM (step tokenizer)
    ⟨start, { partsTotal := snap.parts.length, partsPruned := pruned }⟩

variable (engine : Engine)

/-- Materialize the matching rows. Every row has the same score. -/
def scalarScan (store : Store) (plan : Plan) (snap : Snapshot) :
    Result (List ScoredRow × Counters) := do
  let pass ← engine.scalarPass store plan snap [] (scalarScanPart · plan)
  return (pass.found, pass.counters)

def scalarCount (store : Store) (plan : Plan) (snap : Snapshot) :
    Result (Nat × Counters) := do
  let pass ← engine.scalarPass store plan snap 0 (scalarCountPart · plan)
  return (pass.found, pass.counters)

/-! ### Rows -/

def planToQuery (plan : Plan) : Result Query :=
  match plan.semantic with
  | none => .error (.invalid "not a semantic query")
  | some text => .ok {
      text
      tenant := some plan.tenant
      k := plan.limit
      nprobe := plan.nprobe
      candidates := plan.candidates
      rerank := plan.rerank
      predicate := plan.filter }

variable (env : Env)

/-- The rows a plan produces, scored, unordered. For a semantic plan they are the survivors of the
rerank; the route of a cursor is forced on it. -/
def resultSet (store : Store) (plan : Plan) (snap : Snapshot) (route : Option String) :
    Result (List ScoredRow × Counters) :=
  match plan.semantic with
  | some _ => do
    let q ← planToQuery plan
    let res ← engine.searchAt env.query store snap { q with k := plan.rerank, forceRoute := route }
    return (res.hits.map fun h => (h.event, h.score), res.counters)
  | none => engine.scalarScan store plan snap

def resolveSnapshot (store : Store) (plan : Plan) (cursor : Option String) :
    Result (Snapshot × Option CursorBody) :=
  match cursor with
  | none => do return (← Catalog.currentIn store, none)
  | some token => do
    let body ← decodeCursor env.cursors token
    if body.plan ≠ env.planFingerprint plan then
      .error (.invalid <| "this cursor belongs to a different query. A cursor binds the statement " ++
        "and its four controls; presenting it to another query is an error rather than a " ++
        "surprising result.")
    match Catalog.loadSnapshotIn store body.snapshot with
    | .ok snap => return (snap, some body)
    | .error _ => .error (.notFound <|
        s!"cursor is bound to snapshot {snapshotName body.snapshot}, which has been reclaimed; " ++
        "re-run the query to start from the current snapshot")

/-- The route that ran a page, which every later page uses. -/
def pinnedRoute (c : Counters) : String := if c.rerankRoute.isEmpty then "cpu" else c.rerankRoute

def runRows (store : Store) (plan : Plan) (cursor : Option String) :
    Result SqlResult := do
  let (snap, cur) ← resolveSnapshot env store plan cursor
  let (scored, counters) ← engine.resultSet env store plan snap (cur.map (·.route))
  let sorted := Ranking.rank resultOrder scored
  let (page, last) := pageOf resultKey (cur.map (·.position)) plan.limit sorted
  let nextCursor ← match last with
    | some row =>
      some <$> encodeCursor env.cursors
        ⟨snap.snapshotId, env.planFingerprint plan, resultKey row, pinnedRoute counters⟩
    | none => .ok none
  let rows ← page.mapM (project plan)
  return ⟨projectionNames plan, rows, counters, snap.snapshotId, nextCursor⟩

/-! ### Aggregates -/

def aggregateRows (plan : Plan) (rows : List ScoredRow) :
    Panics (Result (List Row)) :=
  match groupsOf plan rows with
  | .ok groups => groupRows env plan groups
  | .error e => some (.error e)

def runAggregate (store : Store) (plan : Plan) :
    Panics (Result SqlResult) :=
  match Catalog.currentIn store with
  | .error e => some (.error e)
  | .ok snap =>
    if plan.semantic.isNone && isPureCount plan then
      some do
        let (n, counters) ← engine.scalarCount store plan snap
        return ⟨projectionNames plan, [plan.projections.map fun _ => ("count(*)", .int n)],
          counters, snap.snapshotId, none⟩
    else
      match engine.resultSet env store plan snap none with
      | .error e => some (.error e)
      | .ok (rows, counters) =>
        (aggregateRows env plan rows).map (·.map fun rows =>
          ⟨projectionNames plan, rows, counters, snap.snapshotId, none⟩)

def runSql (store : Store) (plan : Plan) (cursor : Option String) :
    Panics (Result SqlResult) :=
  if plan.isAggregate then
    if cursor.isSome then
      some (.error (.invalid <| "aggregate queries are not paginated; a GROUP BY produces groups, " ++
        "and there is no defined total order over them yet (S9 owns semantic grouping)"))
    else engine.runAggregate env store plan
  else some (engine.runRows env store plan cursor)

end Engine

end Prism
