import Prism.Part.Columns
import Prism.Types.Predicate

/-!
The two row sources a predicate is evaluated over: the columns of a part, loaded only where the
predicate names them, and a materialized event (`prism-engine/src/rowsource.rs`).
-/

namespace Prism

namespace Predicate

def columnsUsed : Predicate → List String
  | .column c => [c]
  | .attribute _ => []
  | .literal _ => []
  | .not a => a.columnsUsed
  | .and a b => a.columnsUsed ++ b.columnsUsed
  | .or a b => a.columnsUsed ++ b.columnsUsed
  | .cmp a _ b => a.columnsUsed ++ b.columnsUsed
  | .in a _ => a.columnsUsed

def attributeKeysUsed : Predicate → List String
  | .column _ => []
  | .attribute k => [k]
  | .literal _ => []
  | .not a => a.attributeKeysUsed
  | .and a b => a.attributeKeysUsed ++ b.attributeKeysUsed
  | .or a b => a.attributeKeysUsed ++ b.attributeKeysUsed
  | .cmp a _ b => a.attributeKeysUsed ++ b.attributeKeysUsed
  | .in a _ => a.attributeKeysUsed

def usesAttributes : Predicate → Bool
  | .column _ => false
  | .attribute _ => true
  | .literal _ => false
  | .not a => a.usesAttributes
  | .and a b => a.usesAttributes || b.usesAttributes
  | .or a b => a.usesAttributes || b.usesAttributes
  | .cmp a _ b => a.usesAttributes || b.usesAttributes
  | .in a _ => a.usesAttributes

end Predicate

namespace Rowsource

/-- The columns of a part that a predicate names. The columns of text are read when they are asked
for. -/
structure PartRows where
  reader : PartReader
  times : Option (List Int)
  observed : Option (List Int)
  costs : Option (List F64)
  errors : Option Bytes
  attrs : Option StringCol
  promoted : List (String × PromotedCol)
  score : F32

namespace PartRows

/-- Whether the attribute map is read: not if every key asked for is promoted in this part. -/
def wantsAttrs (s4 : S4Ext) (p : Predicate) : Bool :=
  p.usesAttributes &&
    !(!s4.promoted.isEmpty && p.attributeKeysUsed.all fun k => (s4.promotedFor k).isSome)

def new (reader : PartReader) (pred : Option Predicate) : Result PartRows := do
  let m := reader.manifest
  let cols := (pred.map Predicate.columnsUsed).getD []
  let keys := (pred.map Predicate.attributeKeysUsed).getD []
  let s4 ← m.s4
  let times ← PartReader.readOptional (cols.contains "event_time" && m.hasColumn "event_time")
    (decodeI64s <$> reader.readColumn "event_time")
  let observed ← PartReader.readOptional
    (cols.contains "observed_time" && m.hasColumn "observed_time")
    (decodeI64s <$> reader.readColumn "observed_time")
  let costs ← PartReader.readOptional (cols.contains "cost")
    (decodeF64s <$> reader.readColumn "cost")
  let errors ← PartReader.readOptional (cols.contains "error") (reader.readColumn "error")
  let attrs ← PartReader.readOptional (pred.any (wantsAttrs s4) && m.hasAttributes)
    (reader.readStrings "attributes")
  let promoted ← (s4.promoted.filter fun p => keys.contains p.key).mapM fun p => do
    return (p.key, ← reader.promotedColumn p)
  return ⟨reader, times, observed, costs, errors, attrs, promoted, F32.zero⟩

def stringColumns : List String :=
  ["event_id", "tenant_id", "event_name", "body", "trace_id", "span_id"]

variable (v : PartRows)

def stringCol (base : String) (row : Nat) : Result Value := do
  let col ← v.reader.readStrings base
  return .str (← stringAt col row v.reader.manifest.rowCount)

/-- A column that was loaded; one that was not is null. -/
def loaded {α : Type} (column : Option (List α)) (default : α) (make : α → Value) (row : Nat) :
    Value :=
  match column with
  | some values => make (values.getD row default)
  | none => .null

def column (v : PartRows) (name : String) (row : Nat) : Result Value :=
  match name with
  | "event_time" => .ok (loaded v.times 0 .int row)
  | "observed_time" => .ok (loaded v.observed 0 .int row)
  | "cost" => .ok (loaded v.costs F64.zero .float row)
  | "error" => .ok (loaded v.errors 0 (fun b => .bool (b = 1)) row)
  | "score" => .ok (.float v.score.toF64)
  | other =>
    if stringColumns.contains other then v.stringCol other row
    else .error (.invalid s!"unknown column `{other}`")

/-- An attribute: from its own column if it is promoted in this part, else from the map. -/
def attr (key : String) (row : Nat) : Result Value :=
  match v.promoted.find? (·.1 = key) with
  | some (_, col) => do return ((← col.value row).map Value.fromAttr).getD .null
  | none =>
    match v.attrs with
    | none => .ok .null
    | some col => do
      let m := v.reader.manifest
      let attrs ← decodeAttributesAt col row m.rowCount m.attributeKeys
      return (attrs[key]?.map Value.fromAttr).getD .null

def source : RowSource := ⟨v.column, v.attr⟩

end PartRows

structure EventRow where
  event : Event
  score : F32

namespace EventRow

def column (v : EventRow) (name : String) (_row : Nat) : Result Value :=
  match name with
  | "event_id" => .ok (.str v.event.eventId)
  | "tenant_id" => .ok (.str v.event.tenantId)
  | "event_time" => .ok (.int v.event.eventTime)
  | "observed_time" => .ok (.int v.event.observedTime)
  | "event_name" => .ok (.str v.event.eventName)
  | "cost" => .ok (.float v.event.cost)
  | "error" => .ok (.bool v.event.error)
  | "body" => .ok (.str v.event.body)
  | "trace_id" => .ok (.str v.event.traceId)
  | "span_id" => .ok (.str v.event.spanId)
  | "score" => .ok (.float v.score.toF64)
  | other => .error (.invalid s!"unknown column `{other}`")

def attr (v : EventRow) (key : String) (_row : Nat) : Result Value :=
  .ok ((v.event.attributes[key]?.map Value.fromAttr).getD .null)

def source (v : EventRow) : RowSource := ⟨v.column, v.attr⟩

end EventRow

end Rowsource

end Prism
