import Prism.Part.Reader
import Prism.Types.Float32

/-!
Decoding what the columns of a part hold: byte ranges, fixed-width and string columns, attribute
maps, promoted columns, the partition extension, and the events of single rows
(`prism-part/src/part.rs`, `io.rs`, `ext.rs` and `format.rs`).
-/

namespace Prism

/-! ### Fixed-width and string columns -/

/-- The first `count` little-endian words of `width` bytes. -/
def takeWords (width : Nat) : Nat → Bytes → List Nat
  | 0, _ => []
  | count + 1, bytes => Bytes.ofLe (bytes.take width) :: takeWords width count (bytes.drop width)

/-- The whole words of `width` bytes; an incomplete last one is dropped. -/
def decodeWords (width : Nat) (bytes : Bytes) : List Nat :=
  takeWords width (bytes.length / width) bytes

variable (bytes : Bytes)

def decodeU32s : List Nat := decodeWords 4 bytes

def decodeI64s : List Int := (decodeWords 8 bytes).map fun n => wrapI64 n

def decodeF64s : List F64 := (decodeWords 8 bytes).map fun n => ⟨UInt64.ofNat n⟩

/-- Decode and validate the offsets of a column of variable-length values. -/
def stringOffsets (offsets : Bytes) (rowCount : Nat) : Result (List Int) :=
  let offs := decodeI64s offsets
  if offs.length ≠ rowCount + 1 then
    .error (.corrupt s!"string column has {offs.length} offsets, expected {rowCount + 1}")
  else .ok offs

/-- A data blob and its offsets. -/
abbrev StringCol := Bytes × List Int

/-- The bytes of one row of a blob; `what` names the kind of column. -/
def blobAt (what : String) (col : StringCol) (row rowCount : Nat) : Result Bytes :=
  let (data, offs) := col
  if row ≥ rowCount ∨ row + 1 ≥ offs.length then
    .error (.corrupt s!"{what} row {row} is out of range ({rowCount} rows)")
  else
    let start := offs.getD row 0
    let stop := offs.getD (row + 1) 0
    if start < 0 ∨ stop < start ∨ stop.toNat > data.length then
      .error (.corrupt
        s!"{what} offset pair ({start}, {stop}) is outside a {data.length}-byte blob")
    else .ok ((data.drop start.toNat).take (stop - start).toNat)

def fromUtf8 : Option String := String.fromUTF8? ⟨bytes.toArray⟩

def stringAt (col : StringCol) (row rowCount : Nat) : Result String := do
  let raw ← blobAt "string column" col row rowCount
  match fromUtf8 raw with
  | some s => return s
  | none => .error (.corrupt s!"string column row {row} is not utf-8")

/-! ### Attribute maps -/

namespace Cursor

def f64 : Cursor F64 := do
  let n ← unsigned 8
  let v : F64 := ⟨UInt64.ofNat n⟩
  if v.isFinite then return v
  else throw (.corrupt s!"manifest holds a non-finite float at offset {(← get) - 8}")

/-- A count of elements of at least `minBytes` each, which have to be there. -/
def readLen (minBytes : Nat) (what : String) : Cursor Nat := do
  let n ← unsigned 4
  let need := n * max minBytes 1
  let left ← remaining
  if need > left then
    throw (.corrupt <| s!"manifest claims {n} {what} (at least {need} bytes) but only {left} " ++
      "bytes remain; refusing to allocate on an untrusted length")
  else return n

def replicate {α : Type} (c : Cursor α) : Nat → Cursor (List α)
  | 0 => return []
  | n + 1 => do
    let x ← c
    return x :: (← replicate c n)

end Cursor

def decodeAttribute (keys : List String) : Cursor (String × AttrValue) := do
  let id ← Cursor.unsigned 4
  match keys[id]? with
  | none => throw (.corrupt
      s!"attribute key id {id} is not in the part's {keys.length}-key dictionary")
  | some key =>
    let tag ← Cursor.unsigned 1
    match tag with
    | 1 => return (key, .str (← Cursor.string))
    | 2 => return (key, .int (← Cursor.i64))
    | 3 => return (key, .double (← Cursor.f64))
    | 4 => return (key, .bool ((← Cursor.unsigned 1) ≠ 0))
    | other => throw (.corrupt
        s!"attribute `{key}` has type tag {other}, which this build cannot decode")

def decodeAttributesAt (col : StringCol) (row rowCount : Nat) (keys : List String) :
    Result Attributes := do
  let buf ← blobAt "attribute" col row rowCount
  let pairs ← Cursor.run buf do
    let n ← Cursor.readLen 5 "attributes"
    Cursor.replicate (decodeAttribute keys) n
  return pairs.foldl (fun attrs (key, value) => attrs.insert key value) ∅

/-! ### The partition extension -/

def maxTenantsPerPart : Nat := 4096

def PartitionKey.decode : Cursor PartitionKey := do
  let kind ← Cursor.unsigned 1
  let bucket ← match kind with
    | 0 => Bucket.shared <$> Cursor.unsigned 4
    | 1 => Bucket.dedicated <$> Cursor.unsigned 4
    | other => throw (.corrupt
        s!"part declares bucket kind {other}, which this build does not know")
  let window ← Cursor.i64
  let generation ← Cursor.string
  return ⟨bucket, window, generation⟩

def TenantStats.decode : Cursor TenantStats := do
  let tenant ← Cursor.string
  let rows ← Cursor.unsigned 8
  let timeMin ← Cursor.i64
  let timeMax ← Cursor.i64
  let costMin ← Cursor.f64
  let costMax ← Cursor.f64
  let flags ← Cursor.unsigned 1
  let keyCount ← Cursor.readLen 4 "tenant attribute keys"
  if keyCount > maxAttributeKeyCardinality then
    throw (.corrupt <| s!"tenant `{tenant}` declares {keyCount} attribute keys, over the " ++
      s!"{maxAttributeKeyCardinality} cardinality bound")
  let attributeKeys ← Cursor.replicate Cursor.string keyCount
  if timeMin > timeMax then
    throw (.corrupt <| s!"tenant `{tenant}` has time_min {timeMin} > time_max {timeMax}; a zone " ++
      "map that cannot be true would prune rows that exist")
  return ⟨tenant, rows, timeMin, timeMax, costMin, costMax, flags % 2 ≠ 0, flags / 2 % 2 ≠ 0,
    attributeKeys⟩

def PromotedColumn.decode : Cursor PromotedColumn := do
  let key ← Cursor.string
  let column ← Cursor.string
  let typeTag ← Cursor.unsigned 1
  return ⟨key, column, UInt8.ofNat typeTag⟩

namespace S4Ext

def decode (bytes : Bytes) : Result S4Ext :=
  Cursor.run bytes do
    let tag ← Cursor.unsigned 1
    let partition ← if tag = 1 then some <$> PartitionKey.decode else pure none
    let tenants ← Cursor.readLen 49 "tenant sections"
    if tenants > maxTenantsPerPart then
      throw (.corrupt
        s!"part declares {tenants} tenant sections, over the {maxTenantsPerPart} bound")
    let tenantStats ← Cursor.replicate TenantStats.decode tenants
    let columns ← Cursor.readLen 9 "promoted columns"
    let promoted ← Cursor.replicate PromotedColumn.decode columns
    return ⟨partition, tenantStats, promoted⟩

def statsFor (e : S4Ext) (tenant : String) : Option TenantStats :=
  e.tenantStats.find? (·.tenant = tenant)

def promotedFor (e : S4Ext) (key : String) : Option PromotedColumn :=
  e.promoted.find? (·.key = key)

end S4Ext

/-! ### Pruning -/

/-- Whether times between `timeMin` and `timeMax` can be in the asked range. -/
def timesMayMatch (timeMin timeMax : Int) (lo hi : Option Int) : Bool :=
  !(lo.any (timeMax < ·)) && !(hi.any (timeMin > ·))

/-- A handle of the tenant is among these: its name, or its token on a store that seals names. -/
def handleMatches (handles : List String) (tenant : String) (tokenizer : Option TenantTokenizer) :
    Bool :=
  handles.contains tenant || tokenizer.any fun t => handles.contains (t.token tenant)

def TenantStats.mayMatch (s : TenantStats) (lo hi : Option Int) : Bool :=
  timesMayMatch s.timeMin s.timeMax lo hi

def PartRef.mayMatch (r : PartRef) (tenant : String) (lo hi : Option Int)
    (tokenizer : Option TenantTokenizer) : Bool :=
  handleMatches r.tenants tenant tokenizer && timesMayMatch r.timeMin r.timeMax lo hi

namespace PartManifest

variable (m : PartManifest)

def mayMatch (tenant : Option String) (lo hi : Option Int) (tokenizer : Option TenantTokenizer) :
    Bool :=
  tenant.all (handleMatches m.tenants · tokenizer) && timesMayMatch m.timeMin m.timeMax lo hi

def s4 : Result S4Ext :=
  match m.extensions.find? (·.id = extS4Partition) with
  | some e => S4Ext.decode e.bytes
  | none => .ok ⟨none, [], []⟩

def hasAttributes : Bool :=
  m.featureFlags &&& featureAttributes ≠ 0 ∧ m.hasColumn "attributes.data"

def hasTraceContext : Bool :=
  m.featureFlags &&& featureTraceContext ≠ 0 ∧ m.hasColumn "trace_id.data"

end PartManifest

/-! ### Vectors -/

def RerankDescriptor.decodeVector (d : RerankDescriptor) (bytes : Bytes) (dim : Nat) :
    Result (List UInt32) :=
  match d.encodingId with
  | 1 =>
    if bytes.length ≠ dim * 4 then
      .error (.corrupt <| s!"rerank vector is {bytes.length} bytes, expected {dim * 4} for a " ++
        s!"{dim}-dim float32 vector")
    else .ok ((decodeWords 4 bytes).map UInt32.ofNat)
  | 2 =>
    if bytes.length ≠ dim * 2 then
      .error (.corrupt <| s!"rerank vector is {bytes.length} bytes, expected {dim * 2} for a " ++
        s!"{dim}-dim float16 vector")
    else .ok ((decodeWords 2 bytes).map fun half => (F32.ofHalfBits half).bits)
  | other => .error (.corrupt
      s!"part declares rerank encoding id {other}, which this build cannot decode")

/-! ### Reading columns -/

/-- Which blocks cover a logical byte range. -/
def blocksForRange (offset len blockSize : Nat) : Nat × Nat :=
  if len = 0 then (offset / blockSize, offset / blockSize)
  else (offset / blockSize, (offset + len - 1) / blockSize)

/-- The part of the range that lies in block `index`. -/
def blockWindow (offset stop blockSize index : Nat) (payload : Bytes) : Bytes :=
  let start := index * blockSize
  (payload.take (stop - start)).drop (offset - start)

def blockWindows (offset stop blockSize : Nat) : Nat → List Bytes → Bytes
  | _, [] => []
  | index, payload :: rest =>
    blockWindow offset stop blockSize index payload ++
      blockWindows offset stop blockSize (index + 1) rest

structure Scalars where
  times : List Int
  tenants : StringCol
  ids : StringCol
  rowCount : Nat

namespace Scalars

def tenantIs (s : Scalars) (row : Nat) (want : String) : Bool :=
  match stringAt s.tenants row s.rowCount with
  | .ok t => t = want
  | .error _ => false

def eventIdAt (s : Scalars) (row : Nat) : String :=
  match stringAt s.ids row s.rowCount with
  | .ok id => id
  | .error _ => ""

end Scalars

structure PromotedCol where
  typeTag : UInt8
  column : String
  nulls : Bytes
  data : Bytes
  offs : List Int
  rowCount : Nat

namespace PromotedCol

def decodeValue (p : PromotedCol) (row : Nat) (raw : Bytes) : Result AttrValue :=
  match p.typeTag with
  | 1 =>
    match fromUtf8 raw with
    | some s => .ok (.str s)
    | none => .error (.corrupt s!"promoted column `{p.column}` is not utf-8")
  | 2 =>
    if raw.length ≠ 8 then
      .error (.corrupt
        s!"promoted int column `{p.column}` row {row} is {raw.length} bytes, not 8")
    else .ok (.int (wrapI64 (Bytes.ofLe raw)))
  | 3 =>
    if raw.length ≠ 8 then
      .error (.corrupt
        s!"promoted double column `{p.column}` row {row} is {raw.length} bytes, not 8")
    else
      let d : F64 := ⟨UInt64.ofNat (Bytes.ofLe raw)⟩
      if d.isFinite then .ok (.double d)
      else .error (.corrupt s!"promoted column `{p.column}` row {row} is not a finite number")
  | 4 => .ok (.bool (raw.headD 0 ≠ 0))
  | other => .error (.corrupt
      s!"promoted column `{p.column}` has type tag {other}, which this build cannot decode")

def value (p : PromotedCol) (row : Nat) : Result (Option AttrValue) :=
  if row ≥ p.rowCount then
    .error (.corrupt
      s!"row {row} is out of range for promoted column `{p.column}` ({p.rowCount} rows)")
  else if p.nulls.getD row 0 = 0 then .ok none
  else
    let a := p.offs.getD row 0
    let b := p.offs.getD (row + 1) 0
    if a < 0 ∨ b < a ∨ b.toNat > p.data.length then
      .error (.corrupt <| s!"promoted column `{p.column}` offset pair ({a}, {b}) is outside a " ++
        s!"{p.data.length}-byte blob")
    else some <$> p.decodeValue row ((p.data.drop a.toNat).take (b - a).toNat)

end PromotedCol

/-- The columns an event is made of, loaded. The last four are absent from older parts. -/
structure EventColumns where
  rowCount : Nat
  partId : String
  keys : List String
  times : List Int
  costs : List F64
  errors : Bytes
  eventIds : StringCol
  tenantIds : StringCol
  eventNames : StringCol
  bodies : StringCol
  observed : List Int
  trace : Option (StringCol × StringCol)
  idempotencyKeys : Option StringCol
  attributes : Option StringCol
  promoted : List (String × PromotedCol)

namespace EventColumns

def optionalString (col : Option StringCol) (row rowCount : Nat) : Result String :=
  match col with
  | some col => stringAt col row rowCount
  | none => .ok ""

/-- The attributes of a row: those of its map, and the promoted ones put back. -/
def attributesAt (c : EventColumns) (row : Nat) : Result Attributes := do
  let attrs ← match c.attributes with
    | some col => decodeAttributesAt col row c.rowCount c.keys
    | none => .ok ∅
  c.promoted.foldlM (fun attrs (key, col) => do
    match ← col.value row with
    | some v => return attrs.insert key v
    | none => return attrs) attrs

def eventAt (c : EventColumns) (row : Nat) : Result Event := do
  if row ≥ c.rowCount then
    .error (.corrupt s!"row {row} is out of range for part {c.partId} ({c.rowCount} rows)")
  let traceId ← optionalString (c.trace.map Prod.fst) row c.rowCount
  let spanId ← optionalString (c.trace.map Prod.snd) row c.rowCount
  let idempotencyKey ← optionalString c.idempotencyKeys row c.rowCount
  let attributes ← c.attributesAt row
  let eventId ← stringAt c.eventIds row c.rowCount
  let tenantId ← stringAt c.tenantIds row c.rowCount
  let eventName ← stringAt c.eventNames row c.rowCount
  let body ← stringAt c.bodies row c.rowCount
  return {
    eventId, tenantId, eventName, body, traceId, spanId, attributes
    eventTime := c.times.getD row 0
    observedTime := c.observed.getD row 0
    cost := c.costs.getD row F64.zero
    error := c.errors.getD row 0 = 1
    idempotencyKey := if idempotencyKey.isEmpty then none else some idempotencyKey }

end EventColumns

structure PartRows where
  events : List Event
  centroids : List Nat
  codes : Bytes
  vectors : List (List UInt32)

namespace PartReader

variable (r : PartReader)

/-- Read a logical byte range from a column, verifying every block it touches. -/
def readRange (column : String) (offset len : Nat) : Result Bytes := do
  let c ← r.manifest.column column
  match r.part.file c.file with
  | none => .error deviceError
  | some file =>
    let stop := offset + len
    let logicalBytes := c.storage.logicalBytes
    if stop > logicalBytes then
      .error (.corrupt <| s!"part {r.manifest.partId} column `{column}`: range {offset}..{stop} " ++
        s!"runs past the {logicalBytes} bytes in the column")
    match c.storage with
    | .unframed _ _ => return ((← r.readColumnChecked c).drop offset).take len
    | .framed _ blockSize blocks =>
      let (first, last) := blocksForRange offset len blockSize
      if last ≥ blocks.length then
        .error (.corrupt <| s!"part {r.manifest.partId} column `{column}`: range needs block " ++
          s!"{last}, but the column has {blocks.length}")
      let payloads ← r.readBlocks c file blockSize first ((blocks.take (last + 1)).drop first)
      return blockWindows offset stop blockSize first payloads

def readColumn (column : String) : Result Bytes := do
  let c ← r.manifest.column column
  r.readColumnChecked c

def readStrings (base : String) : Result StringCol := do
  let data ← r.readColumn s!"{base}.data"
  let offsets ← r.readColumn s!"{base}.offsets"
  return (data, ← stringOffsets offsets r.manifest.rowCount)

def readPqRange (range : CentroidRange) : Result Bytes :=
  r.readRange "pq_codes" range.pqOffset range.pqLen

variable (rows : List Nat)

def readVectorsForRows : Result (List (List UInt32)) :=
  rows.mapM fun row => do
    let m := r.manifest
    if row ≥ m.rowCount then
      .error (.corrupt s!"row {row} is out of range for part {m.partId} ({m.rowCount} rows)")
    let bytes ← r.readRange "rerank_vectors" (row * m.bytesPerVector) m.bytesPerVector
    m.rerank.decodeVector bytes m.dim

def readEventIdsForRows : Result (List String) := do
  let ids ← r.readStrings "event_id"
  rows.mapM fun row => stringAt ids row r.manifest.rowCount

def promotedColumn (p : PromotedColumn) : Result PromotedCol := do
  let nulls ← r.readColumn s!"{p.column}.nulls"
  let (data, offs) ← r.readStrings p.column
  return ⟨p.typeTag, p.column, nulls, data, offs, r.manifest.rowCount⟩

def readScalars : Result Scalars := do
  let times ← r.readColumn "event_time"
  let tenants ← r.readStrings "tenant_id"
  let ids ← r.readStrings "event_id"
  return ⟨decodeI64s times, tenants, ids, r.manifest.rowCount⟩

/-- A column that is there only on newer parts. -/
def readOptional {α : Type} (present : Bool) (read : Result α) :
    Result (Option α) :=
  if present then some <$> read else .ok none

def eventColumns : Result EventColumns := do
  let m := r.manifest
  let times ← r.readColumn "event_time"
  let costs ← r.readColumn "cost"
  let errors ← r.readColumn "error"
  let eventIds ← r.readStrings "event_id"
  let tenantIds ← r.readStrings "tenant_id"
  let eventNames ← r.readStrings "event_name"
  let bodies ← r.readStrings "body"
  let observed ← readOptional (m.hasColumn "observed_time") (r.readColumn "observed_time")
  let trace ← readOptional m.hasTraceContext do
    let traceIds ← r.readStrings "trace_id"
    let spanIds ← r.readStrings "span_id"
    return (traceIds, spanIds)
  let idempotencyKeys ← readOptional (m.hasColumn "idempotency_key.data")
    (r.readStrings "idempotency_key")
  let attributes ← readOptional m.hasAttributes (r.readStrings "attributes")
  let s4 ← m.s4
  let promoted ← s4.promoted.mapM fun p => do return (p.key, ← r.promotedColumn p)
  return {
    rowCount := m.rowCount
    partId := m.partId
    keys := m.attributeKeys
    times := decodeI64s times
    costs := decodeF64s costs
    errors, eventIds, tenantIds, eventNames, bodies, trace, idempotencyKeys, attributes, promoted
    observed := decodeI64s (observed.getD times) }

def readEventsForRows : Result (List Event) := do
  let columns ← r.eventColumns
  rows.mapM columns.eventAt

/-- `read_all`: decode the entire part from its bytes. -/
def readPartRows : Result PartRows := do
  let m := r.manifest
  let codes ← r.readColumn "pq_codes"
  let centroids ← r.readColumn "centroid"
  let raw ← r.readColumn "rerank_vectors"
  let vectors ← (List.range m.rowCount).mapM fun i =>
    m.rerank.decodeVector ((raw.drop (i * m.bytesPerVector)).take m.bytesPerVector) m.dim
  let events ← r.readEventsForRows (List.range m.rowCount)
  return ⟨events, decodeU32s centroids, codes, vectors⟩

end PartReader

end Prism
