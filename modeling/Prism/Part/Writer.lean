import Mathlib.Data.List.Sort
import Prism.Part.Format

/-!
The part writer: the order of the rows, the columns, the content-addressed name, the manifest and
the checks it makes on itself (`prism-part/src/part.rs` and the encoders of `io.rs`).
-/

namespace Prism

/-- One row on its way into a part. `vector` holds the bits of its `f32` components. -/
structure RowIn where
  event : Event
  centroid : Nat
  code : Bytes
  vector : List UInt32
  deriving DecidableEq

structure PartEncryption where
  cipher : BlockCipher
  envelope : S14Ext

structure PartSpec where
  partition : Option PartitionKey
  promote : List String
  lineage : S5Ext
  encryption : Option PartEncryption
  tenantTokenizer : Option TenantTokenizer

inductive ColumnStorage where
  | unframed (bytes : Nat) (crc32 : UInt32)
  | framed (logicalBytes blockSize : Nat) (blocks : List BlockRef)
  deriving DecidableEq, Repr

def ColumnStorage.logicalBytes : ColumnStorage → Nat
  | .unframed bytes _ => bytes
  | .framed logicalBytes _ _ => logicalBytes

structure ColumnMeta where
  name : String
  file : String
  codecId : Nat
  storage : ColumnStorage
  deriving DecidableEq, Repr

/-- Where one centroid's rows live, in rows and in bytes of both tiers. -/
structure CentroidRange where
  centroid : Nat
  firstRow : Nat
  rowCount : Nat
  pqOffset : Nat
  pqLen : Nat
  rerankOffset : Nat
  rerankLen : Nat
  timeMin : Int
  timeMax : Int
  deriving DecidableEq, Repr

structure RerankDescriptor where
  encodingId : Nat
  accuracyContractId : Nat
  deriving DecidableEq, Repr

structure PartManifest where
  formatVersion : Nat
  partId : String
  generationId : String
  modelId : String
  modelVersion : String
  rowCount : Nat
  dim : Nat
  pqM : Nat
  rerank : RerankDescriptor
  timeMin : Int
  timeMax : Int
  tenants : List String
  costMin : F64
  costMax : F64
  hasError : Bool
  hasSuccess : Bool
  centroidRanges : List CentroidRange
  columns : List ColumnMeta
  createdAtMs : Int
  featureFlags : UInt64
  attributeKeys : List String
  extensions : List Extension
  deriving DecidableEq

/-- A part directory: its manifest, its column files by name, and the rows its columns decode to. -/
structure Part where
  manifest : PartManifest
  files : List (String × Bytes)
  rows : List RowIn
  deriving DecidableEq

/-! ### Encoders -/

def encodeI64s (values : List Int) : Bytes := values.flatMap i64Bytes

def encodeBlobs (values : List Bytes) : Bytes × Bytes :=
  let ends := values.foldl (fun offsets v => offsets ++ [offsets.getLastD 0 + v.length]) [0]
  (values.flatten, encodeI64s (ends.map Int.ofNat))

def encodeStrings (values : List String) : Bytes × Bytes := encodeBlobs (values.map utf8)

def AttrValue.valueBytes : AttrValue → Bytes
  | .str s => utf8 s
  | .int i => i64Bytes i
  | .double d => Bytes.le 8 d.bits.toNat
  | .bool b => [if b then 1 else 0]

def encodeAttribute (keys : List String) : String × AttrValue → Result Bytes
  | (key, value) =>
    match keys.idxOf? key with
    | none => .error (.invariant <| s!"attribute key `{key}` is not in the part's key " ++
        "dictionary; the dictionary is built from the rows being written, so this is a writer bug")
    | some id =>
      let length := match value with
        | .str s => Bytes.le 4 s.utf8ByteSize
        | _ => []
      .ok (Bytes.le 4 id ++ [value.typeTag] ++ length ++ value.valueBytes)

def encodeAttributes (keys : List String) (rows : List Attributes) :
    Result (Bytes × Bytes) := do
  let blobs ← rows.mapM fun attrs => do
    let pairs ← attrs.toList.mapM (encodeAttribute keys)
    return Bytes.le 4 attrs.size ++ pairs.flatten
  return encodeBlobs blobs

def sortedSet (names : List String) : List String :=
  (names.foldl (fun (set : BTreeMap String Unit) name => set.insert name ()) ∅).keys

/-! ### Row order and promotion -/

/-- The inner order of a part: centroid, then event time, then event id. -/
def rowOrder : RowIn → RowIn → Ordering :=
  compareLex (compareOn (·.centroid))
    (compareLex (compareOn (·.event.eventTime)) (compareOn (·.event.eventId)))

variable (rows : List RowIn)

def sortRows : List RowIn :=
  rows.insertionSort fun a b => (rowOrder a b).isLE

theorem sortRows_perm : (sortRows rows).Perm rows :=
  List.perm_insertionSort _ _

@[simp] theorem mem_sortRows {rows : List RowIn} {r : RowIn} : r ∈ sortRows rows ↔ r ∈ rows :=
  (sortRows_perm rows).mem_iff

/-- A promoted column with the value each row has in it. -/
structure Promoted where
  column : PromotedColumn
  values : List (Option AttrValue)

/-- Take one key out of the attribute maps. It becomes a column if a row has it, and the part is
refused if two rows have it with different types. -/
def promoteKey (key : String) (rows : List Attributes) :
    Result (Option Promoted × List Attributes) :=
  let values := rows.map (·[key]?)
  let tags := values.filterMap (·.map AttrValue.typeTag)
  let rest := rows.map (·.erase key)
  match tags with
  | [] => .ok (none, rest)
  | tag :: others =>
    if others.any (· != tag) then
      .error (.invariant <| s!"cannot promote attribute `{key}`: it is used with more than one " ++
        "value type in this part, so it has no column type")
    else .ok (some ⟨⟨key, PromotedColumn.columnFor key, tag⟩, values⟩, rest)

def promoteKeys : List String → List Attributes →
    Result (List Promoted × List Attributes)
  | [], rows => .ok ([], rows)
  | key :: keys, rows => do
    let (column, rest) ← promoteKey key rows
    let (columns, rest) ← promoteKeys keys rest
    return (column.toList ++ columns, rest)

/-! ### Marks and statistics -/

def maxI64 : Int := 2 ^ 63 - 1

/-- Extend the last mark with a row of its centroid, or open the next one. -/
def markRow (pqM bpv : Nat) (ranges : List CentroidRange) (row : Nat × RowIn) :
    List CentroidRange :=
  let time := row.2.event.eventTime
  match ranges.getLast? with
  | some last =>
    if last.centroid = row.2.centroid then
      ranges.dropLast ++ [{ last with
        rowCount := last.rowCount + 1
        pqLen := (last.rowCount + 1) * pqM
        rerankLen := (last.rowCount + 1) * bpv
        timeMin := min last.timeMin time
        timeMax := max last.timeMax time }]
    else ranges ++ [⟨row.2.centroid, row.1, 1, row.1 * pqM, pqM, row.1 * bpv, bpv, time, time⟩]
  | none => [⟨row.2.centroid, row.1, 1, row.1 * pqM, pqM, row.1 * bpv, bpv, time, time⟩]

def centroidMarks (pqM bpv : Nat) (rows : List RowIn) : List CentroidRange :=
  ((List.range rows.length).zip rows).foldl (markRow pqM bpv) []

/-- One row's contribution to the statistics of its tenant. `keys` are the attribute keys left in
its map and those promoted out of it. -/
def TenantStats.addRow (s : TenantStats) (row : RowIn × List String) : TenantStats :=
  let e := row.1.event
  { s with
    tenant := e.tenantId
    rows := s.rows + 1
    timeMin := min s.timeMin e.eventTime
    timeMax := max s.timeMax e.eventTime
    costMin := s.costMin.min e.cost
    costMax := s.costMax.max e.cost
    hasError := s.hasError || e.error
    hasSuccess := s.hasSuccess || !e.error
    attributeKeys := s.attributeKeys ++ row.2.filter (!s.attributeKeys.contains ·) }

def TenantStats.start : TenantStats :=
  ⟨"", 0, maxI64, minI64, F64.infinity, F64.negInfinity, false, false, []⟩

def tenantStats (rows : List (RowIn × List String)) : List TenantStats :=
  ((OrderedMap.foldBy (fun row : RowIn × List String => row.1.event.tenantId) TenantStats.start
    TenantStats.addRow rows).toList.map Prod.snd).map fun s =>
      { s with attributeKeys := s.attributeKeys.insertionSort fun a b => (compare a b).isLE }

/-! ### Columns -/

structure Column where
  name : String
  file : String
  bytes : Bytes

def stringColumns (name file : String) (values : List String) : List Column :=
  let (data, offsets) := encodeStrings values
  [⟨name ++ ".data", file ++ ".dat", data⟩, ⟨name ++ ".offsets", file ++ ".off", offsets⟩]

/-- A promoted column: a null map, the values and their offsets. -/
def promotedColumns (p : Promoted) : List Column :=
  let safe := p.column.key.map fun c => if c = '/' ∨ c = '\\' then '_' else c
  let (data, offsets) := encodeBlobs (p.values.map fun v => (v.map AttrValue.valueBytes).getD [])
  [⟨s!"{p.column.column}.nulls", s!"pc_{safe}.null",
      p.values.map fun v => if v.isSome then 1 else 0⟩,
   ⟨s!"{p.column.column}.data", s!"pc_{safe}.dat", data⟩,
   ⟨s!"{p.column.column}.offsets", s!"pc_{safe}.off", offsets⟩]

/-- The logical byte streams of a part, in the order they are written. -/
def logicalColumns (attributes : Bytes × Bytes) (promoted : List Promoted) :
    List Column :=
  let events := rows.map (·.event)
  [⟨"pq_codes", "pq.codes", rows.flatMap (·.code)⟩,
   ⟨"rerank_vectors", "rerank.vec", rows.flatMap fun r => r.vector.flatMap (Bytes.le 4 ·.toNat)⟩,
   ⟨"centroid", "centroid.u32", rows.flatMap (Bytes.le 4 ·.centroid)⟩,
   ⟨"event_time", "event_time.i64", encodeI64s (events.map (·.eventTime))⟩,
   ⟨"observed_time", "observed_time.i64", encodeI64s (events.map (·.observedTime))⟩,
   ⟨"cost", "cost.f64", events.flatMap (Bytes.le 8 ·.cost.bits.toNat)⟩,
   ⟨"error", "error.u8", events.map fun e => if e.error then 1 else 0⟩] ++
    stringColumns "event_id" "event_id" (events.map (·.eventId)) ++
    stringColumns "tenant_id" "tenant_id" (events.map (·.tenantId)) ++
    stringColumns "event_name" "event_name" (events.map (·.eventName)) ++
    stringColumns "body" "body" (events.map (·.body)) ++
    stringColumns "trace_id" "trace_id" (events.map (·.traceId)) ++
    stringColumns "span_id" "span_id" (events.map (·.spanId)) ++
    stringColumns "idempotency_key" "idem" (events.map (·.idempotencyKey.getD "")) ++
    [⟨"attributes.data", "attrs.dat", attributes.1⟩,
     ⟨"attributes.offsets", "attrs.off", attributes.2⟩] ++
    promoted.flatMap promotedColumns

/-- What the part id digests: column names, plaintext block checksums and lengths, and the
generation. -/
def partFingerprint (columns : List Column) (blockSize : Nat) (generationId : String) : Bytes :=
  columns.flatMap (fun c => utf8 c.name ++ (plainBlockRefs c.bytes blockSize).flatMap fun b =>
    Bytes.le 4 b.crc32.toNat ++ Bytes.le 4 b.payloadLen) ++ utf8 generationId

def partIdOf (seq : Nat) (fingerprint : Bytes) : String :=
  s!"p{zeroPadded 8 seq}-{contentId fingerprint}"

/-! ### The checks on a manifest -/

def RerankDescriptor.float32Exact : RerankDescriptor := ⟨1, 1⟩

def RerankDescriptor.validate (r : RerankDescriptor) : Result Unit :=
  if (r.encodingId = 1 ∧ r.accuracyContractId = 1) ∨
      (r.encodingId = 2 ∧ r.accuracyContractId = 2) then .ok ()
  else .error (.corrupt <| s!"part declares rerank encoding id {r.encodingId} with accuracy " ++
    s!"contract id {r.accuracyContractId}, a pairing this build does not implement; its " ++
    "re-rank scores would not mean what the caller expects. Upgrade, or migrate the part to an " ++
    "encoding/contract this build supports.")

namespace PartManifest

def column (m : PartManifest) (name : String) : Result ColumnMeta :=
  match m.columns.find? (·.name = name) with
  | some c => .ok c
  | none => .error (.corrupt s!"part {m.partId} has no column `{name}`")

variable (m : PartManifest)

def hasColumn (name : String) : Bool := m.columns.any (·.name = name)

def encrypted : Bool := m.featureFlags &&& featureEncryption ≠ 0

def bytesPerVector : Nat := if m.rerank.encodingId = 1 then m.dim * 4 else m.dim * 2

def validateBlocks (m : PartManifest) (name : String) (full blockSize : Nat) :
    Nat → List BlockRef → Result Unit
  | _, [] => .ok ()
  | i, b :: rest =>
    if rest ≠ [] ∧ b.payloadLen ≠ full then
      .error (.corrupt <| s!"part {m.partId} column `{name}` block {i} is {b.payloadLen} bytes; " ++
        "only the last block may be short")
    else if b.payloadLen > full then
      .error (.corrupt <| s!"part {m.partId} column `{name}` block {i} claims {b.payloadLen} " ++
        s!"bytes, over the {blockSize}-byte block size")
    else validateBlocks m name full blockSize (i + 1) rest

/-- The block directory of a column covers its logical stream. -/
def validateColumn (c : ColumnMeta) : Result Unit :=
  if c.codecId ≠ codecRaw then
    .error (.corrupt <| s!"part {m.partId} column `{c.name}` uses codec id {c.codecId} " ++
      "(unknown), which this build cannot decode")
  else
    match c.storage with
    | .unframed _ _ => .ok ()
    | .framed logicalBytes blockSize blocks =>
      let overhead := if m.encrypted then blocks.length * sealOverhead else 0
      let covered := (blocks.map (·.payloadLen)).sum
      let expected := if logicalBytes = 0 then 1 else (logicalBytes + blockSize - 1) / blockSize
      let perBlock := if overhead > 0 then sealOverhead else 0
      if covered ≠ logicalBytes + overhead then
        .error (.corrupt <| s!"part {m.partId} column `{c.name}`: blocks cover {covered} bytes " ++
          s!"but the column declares {logicalBytes}")
      else if blocks.length ≠ expected then
        .error (.corrupt <| s!"part {m.partId} column `{c.name}`: {blocks.length} blocks for " ++
          s!"{logicalBytes} logical bytes, expected {expected}")
      else m.validateBlocks c.name (blockSize + perBlock) blockSize 0 blocks

def expectBytes (name : String) (want : Nat) : Result Unit := do
  let c ← m.column name
  if c.storage.logicalBytes ≠ want then
    .error (.corrupt <| s!"part {m.partId} column `{name}` holds {c.storage.logicalBytes} bytes, " ++
      s!"but {m.rowCount} rows imply {want}")

/-- The centroid marks tile the rows in order. `next` is the row the next mark starts at and
`before` the centroid of the one before. -/
def validateMarks (m : PartManifest) :
    Nat → Nat → Option Nat → List CentroidRange → Result Unit
  | _, next, _, [] =>
    if next ≠ m.rowCount then
      .error (.corrupt
        s!"part {m.partId} centroid marks cover {next} rows but the part has {m.rowCount}")
    else .ok ()
  | i, next, before, r :: rest =>
    let last := r.firstRow + r.rowCount
    if r.firstRow ≠ next then
      .error (.corrupt <| s!"part {m.partId} centroid mark {i} starts at row {r.firstRow}, " ++
        s!"expected {next}: the marks do not tile the rows")
    else if last > m.rowCount then
      .error (.corrupt <| s!"part {m.partId} centroid mark {i} runs to row {last}, past the " ++
        s!"{m.rowCount} rows in the part")
    else if r.pqOffset ≠ r.firstRow * m.pqM ∨ r.pqLen ≠ r.rowCount * m.pqM then
      .error (.corrupt <| s!"part {m.partId} centroid mark {i} has pq byte range " ++
        s!"({r.pqOffset}, {r.pqLen}) that disagrees with its rows")
    else if r.rerankOffset ≠ r.firstRow * m.bytesPerVector ∨
        r.rerankLen ≠ r.rowCount * m.bytesPerVector then
      .error (.corrupt <| s!"part {m.partId} centroid mark {i} has a rerank byte range that " ++
        "disagrees with its rows")
    else if before.any (r.centroid ≤ ·) then
      .error (.corrupt
        s!"part {m.partId} centroid marks are not strictly ordered by centroid id")
    else validateMarks m (i + 1) last (some r.centroid) rest

def validateStructure : Result Unit := do
  if m.dim = 0 ∨ m.pqM = 0 ∨ m.dim % m.pqM ≠ 0 then
    .error (.corrupt <| s!"part {m.partId} declares dim={m.dim} pq_m={m.pqM}, which is not a " ++
      "valid product quantization")
  m.rerank.validate
  m.columns.forM m.validateColumn
  if m.attributeKeys.length > maxAttributeKeyCardinality then
    .error (.corrupt <| s!"part {m.partId} carries {m.attributeKeys.length} attribute keys, " ++
      s!"over the {maxAttributeKeyCardinality} bound")
  if m.hasColumn "observed_time" then m.expectBytes "observed_time" (m.rowCount * 8)
  m.expectBytes "pq_codes" (m.rowCount * m.pqM)
  m.expectBytes "rerank_vectors" (m.rowCount * m.bytesPerVector)
  m.expectBytes "centroid" (m.rowCount * 4)
  m.expectBytes "event_time" (m.rowCount * 8)
  m.expectBytes "cost" (m.rowCount * 8)
  m.expectBytes "error" m.rowCount
  m.validateMarks 0 0 none m.centroidRanges

end PartManifest

/-! ### Writing -/

def checkRow (dim pqM : Nat) (r : RowIn) : Result Unit :=
  if r.vector.length ≠ dim then
    .error (.invariant <| s!"row {r.event.eventId} has a {r.vector.length}-dim vector in a " ++
      s!"{dim}-dim part")
  else if r.code.length ≠ pqM then
    .error (.invariant
      s!"row {r.event.eventId} has a {r.code.length}-byte code in an m={pqM} part")
  else .ok ()

variable (spec : PartSpec)

def partFeatures (promoted : List Promoted) : UInt64 :=
  featureBlockFraming ||| featureAttributes ||| featureTraceContext |||
    (if spec.partition.isSome then featurePartitionMeta else 0) |||
    (if promoted.isEmpty then 0 else featurePromotedColumns) |||
    (if spec.encryption.isSome then featureEncryption else 0) |||
    (if spec.tenantTokenizer.isSome then featureTenantTokens else 0)

/-- The extensions of a part; each is written only when it says something. -/
def partExtensions (s4 : S4Ext) : List Extension :=
  (if spec.partition.isSome ∨ s4.promoted ≠ [] then [⟨extS4Partition, s4.encode⟩] else []) ++
    (if spec.lineage.isDefault then [] else [⟨extS5Lineage, spec.lineage.encode⟩]) ++
    match spec.encryption with
    | some enc => [⟨extS14Encryption, enc.envelope.encode⟩]
    | none => []

def PartSpec.handle (tenant : String) : String :=
  match spec.tenantTokenizer with
  | some t => t.token tenant
  | none => tenant

structure PartShape where
  generationId : String
  modelId : String
  modelVersion : String
  dim : Nat
  pqM : Nat
  blockSize : Nat
  deriving DecidableEq, Repr

def isPowerOfTwo (n : Nat) : Bool := 0 < n ∧ 2 ^ n.log2 = n

def frameColumn (shape : PartShape) (spec : PartSpec) (partId : String) (c : Column) :
    Result (ColumnMeta × Bytes) := do
  let framed ← frameColumnSealed c.bytes shape.blockSize (spec.encryption.map (·.cipher)) partId
    c.name
  return (⟨c.name, c.file, codecRaw, .framed c.bytes.length shape.blockSize framed.blocks⟩,
    framed.file)

/-- The part that `PartWriter::write` renames into place. -/
def buildPart (shape : PartShape) (spec : PartSpec) (seq : Nat) (unsorted : List RowIn)
    (nowMs : Int) : Result Part := do
  if !isPowerOfTwo shape.blockSize then
    .error (.invalid s!"block size {shape.blockSize} is not a positive power of two")
  if unsorted.isEmpty then .error (.invalid "refusing to write an empty part")
  unsorted.forM (checkRow shape.dim shape.pqM)
  let rows := sortRows unsorted
  let (promoted, attrRows) ← promoteKeys spec.promote (rows.map (·.event.attributes))
  let attributeKeys := sortedSet (attrRows.flatMap (·.keys))
  if attributeKeys.length > maxAttributeKeyCardinality then
    .error (.invariant <| s!"part would carry {attributeKeys.length} distinct attribute keys, " ++
      s!"over the {maxAttributeKeyCardinality} cardinality bound")
  let times := rows.map (·.event.eventTime)
  let costs := rows.map (·.event.cost)
  let promotedKeys (row : Nat) : List String :=
    (promoted.filter fun p => (p.values.getD row none).isSome).map (·.column.key)
  let rowKeys := (List.range rows.length).zip (rows.zip attrRows) |>.map fun (i, row, attrs) =>
    (row, attrs.keys ++ promotedKeys i)
  let s4 : S4Ext := ⟨spec.partition,
    (tenantStats rowKeys).map fun s => { s with tenant := spec.handle s.tenant },
    promoted.map (·.column)⟩
  let attributes ← encodeAttributes attributeKeys attrRows
  let columns := logicalColumns rows attributes promoted
  let partId := partIdOf seq (partFingerprint columns shape.blockSize shape.generationId)
  let framed ← columns.mapM (frameColumn shape spec partId)
  let manifest : PartManifest :=
    { formatVersion := formatVersion
      partId := partId
      generationId := shape.generationId
      modelId := shape.modelId
      modelVersion := shape.modelVersion
      rowCount := rows.length
      dim := shape.dim
      pqM := shape.pqM
      rerank := RerankDescriptor.float32Exact
      timeMin := times.foldl min maxI64
      timeMax := times.foldl max minI64
      tenants := sortedSet (rows.map fun r => spec.handle r.event.tenantId)
      costMin := costs.foldl F64.min F64.infinity
      costMax := costs.foldl F64.max F64.negInfinity
      hasError := rows.any (·.event.error)
      hasSuccess := rows.any (!·.event.error)
      centroidRanges := centroidMarks shape.pqM (shape.dim * 4) rows
      columns := framed.map Prod.fst
      createdAtMs := nowMs
      featureFlags := partFeatures spec promoted
      attributeKeys := attributeKeys
      extensions := partExtensions spec s4 }
  manifest.validateStructure
  return ⟨manifest, framed.map fun (c, bytes) => (c.file, bytes), rows⟩

end Prism
