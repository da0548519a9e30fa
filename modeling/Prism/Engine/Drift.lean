import Prism.Engine.Search

/-!
The readers that describe a tenant's rows as a whole: drift baselines, the drift check and the
rows of a semantic clustering (`prism-engine/src/drift.rs`, `gather_filtered` of `cluster.rs` and
`prism-part/src/baseline.rs`).
-/

namespace Prism

open CrashLogic

def baselineClusters : Nat := 16
def baselineQuantilePct : Nat := 99

/-- `5 * (1 - 0.99)`, the novel fraction above which an alarm fires. -/
def firingFraction : F64 := ⟨0x3FA99999999999A0⟩

namespace F32

def maximum : F32 := ⟨0x7F7FFFFF⟩
def minimum : F32 := ⟨0xFF7FFFFF⟩
def negInfinity : F32 := ⟨0xFF800000⟩

end F32

/-- What a baseline is computed with: the float unit, the k-means of `prism-quantizer` under the
store's seed, the rank of the calibrated quantile and the serialised body of a baseline. -/
structure BaselineEnv where
  floats : FloatUnit
  kmeans : (vectors : List Vector32) → (dim nlist : Nat) → Result (List UInt32)
  /-- `((rows - 1) as f64 * 0.99).round()`. -/
  quantileIndex : Nat → Nat
  bodyToVec : Baseline → Bytes

namespace Baseline

def contentAddress (env : BaselineEnv) (b : Baseline) : String := contentId (env.bodyToVec b)

def new (env : BaselineEnv) (tenant generationId : String) (dim : Nat) (centroids : List UInt32)
    (nlist : Nat) (threshold : F32) (calibration : String) (rows : Nat)
    (builtFromSnapshot : SnapshotId) (builtAtMs : Int) : Result Baseline :=
  if dim = 0 ∨ centroids.length ≠ nlist * dim then
    .error (.invariant <| s!"baseline has {centroids.length} centroid floats, which is not nlist " ++
      s!"({nlist}) * dim ({dim})")
  else
    let b : Baseline := ⟨"", tenant, generationId, dim, centroids, nlist, threshold, calibration,
      rows, builtFromSnapshot, builtAtMs⟩
    .ok { b with baselineId := b.contentAddress env }

def novelty (env : BaselineEnv) (b : Baseline) (v : Vector32) : Result F32 :=
  if v.length ≠ b.dim then
    .error (.invariant <| s!"novelty: vector of dim {v.length} against a baseline of dim {b.dim}")
  else
    let best := (List.range b.nlist).foldl (fun best c =>
      let similarity := env.floats.dot v ((b.centroids.drop (c * b.dim)).take b.dim)
      if similarity.above best then similarity else best) F32.negInfinity
    .ok (env.floats.sub32 F32.one best)

end Baseline

def Snapshot.baselineFor (s : Snapshot) (tenant generation : String) : Option BaselineRef :=
  s.baselines.find? fun b => b.tenant = tenant ∧ b.generationId = generation

namespace Engine

/-! ### Building a baseline -/

/-- The rows of an entry that a baseline is built from. Its handles are compared with the name of
the tenant. -/
def baselineRows (snap : Snapshot) (tenant generationId : String) (entry : PartEntry) :
    Io (List RowIn) :=
  match entry.located? with
  | none => pure []
  | some r =>
    if r.partition.generation ≠ generationId then pure []
    else if !r.tenants.contains tenant then pure []
    else do
      let (_, rows) ← openAndRead r.partId
      return rows.filter fun row =>
        row.event.tenantId = tenant ∧ ¬snap.isTombstoned row.event.eventId

def calibrate (engine : Engine) (env : BaselineEnv) (snap : Snapshot) (g : Generation)
    (tenant generationId : String) (vectors : List Vector32) (nowMs : Int) :
    Result Baseline := do
  let rows := vectors.length
  let dim := engine.config.dim
  let nlist := min baselineClusters rows
  let centroids ← env.kmeans vectors dim nlist
  let provisional ← Baseline.new env tenant generationId dim centroids nlist F32.maximum
    "uncalibrated" rows snap.snapshotId nowMs
  let novelties ← vectors.mapM (provisional.novelty env)
  let threshold := (Ranking.rank F32.totalCmp novelties).getD
    (min (env.quantileIndex rows) (rows - 1)) F32.zero
  Baseline.new env tenant generationId dim centroids nlist threshold
    (s!"the p{baselineQuantilePct} novelty of the {rows} rows this baseline was built from, in " ++
      s!"space {g.space}")
    rows snap.snapshotId nowMs

def baselineOrder (a b : BaselineRef) : Ordering :=
  (compare a.tenant b.tenant).then (compare a.generationId b.generationId)

def withBaseline (snap : Snapshot) (ref : BaselineRef) : List BaselineRef :=
  Ranking.rank baselineOrder (snap.baselines.filter
    (fun b => ¬(b.tenant = ref.tenant ∧ b.generationId = ref.generationId)) ++ [ref])

/-- Build the drift baseline of a tenant in one generation and commit it. -/
def baselineBuild (engine : Engine) (env : BaselineEnv) (tenant generationId : String)
    (nowMs : Int) : Io Baseline := do
  let snap ← snapshot
  let g ← onStore (Catalog.getGeneration generationId)
  let parts ← Prog.each (baselineRows snap tenant generationId) snap.parts
  let vectors := parts.flatten.map (·.vector)
  if vectors.isEmpty then
    Prog.throw (.invalid <| s!"cannot build a baseline for tenant `{tenant}` in generation " ++
      s!"{generationId}: it has no rows there")
  else
    let b ← Prog.ofExcept (engine.calibrate env snap g tenant generationId vectors nowMs)
    onStore (Catalog.putBaseline b)
    let _ ← onStore (Catalog.commitMeta snap snap.parts snap.nextSeq snap.activeGeneration
      { SnapshotMeta.of snap with
        baselines := withBaseline snap ⟨b.baselineId, tenant, generationId, .ready⟩ } nowMs)
    return b

end Engine

/-! ### The drift check -/

structure DriftAlarm where
  tenant : String
  generationId : String
  baselineId : String
  events : Nat
  novel : Nat
  novelFraction : F64
  meanNovelty : F32
  maxNovelty : F32
  threshold : F32
  fired : Bool
  deriving DecidableEq, Repr

structure DegradedAlarm where
  tenant : String
  generationId : String
  rowsUnwatched : Nat
  reason : String
  deriving DecidableEq, Repr

structure DriftReport where
  tenant : String
  snapshotId : SnapshotId
  alarms : List DriftAlarm
  degraded : List DegradedAlarm
  fired : Bool
  deriving DecidableEq, Repr

def withinTimes (lo hi : Option Int) (time : Int) : Bool := !(lo.any (time < ·)) && !(hi.any (time > ·))

namespace Engine

def driftRows (tokenizer : Option TenantTokenizer) (tenant : String) (lo hi : Option Int)
    (entry : PartEntry) : Io (List (String × Vector32)) :=
  match entry.located? with
  | none => pure []
  | some r =>
    if !r.mayMatch tenant lo hi tokenizer then pure []
    else do
      let (_, rows) ← openAndRead r.partId
      return (rows.filter fun row =>
        row.event.tenantId = tenant ∧ withinTimes lo hi row.event.eventTime).map
          fun row => (r.partition.generation, row.vector)

def noBaseline (tenant generation : String) (n : Nat) : String :=
  s!"no baseline exists for tenant `{tenant}` in generation {generation}. These {n} events are " ++
    "NOT being watched. A baseline from another generation cannot be used: it describes a " ++
    "different embedding space, and comparing across it is forbidden (invariant 9)."

def evaluateDrift (env : BaselineEnv) (tenant generation : String) (b : Baseline)
    (vectors : List Vector32) : Result DriftAlarm := do
  let n := vectors.length
  let novelties ← vectors.mapM (b.novelty env)
  let novel := novelties.countP (·.above b.threshold)
  let sum := novelties.foldl env.floats.add32 F32.zero
  let largest := novelties.foldl (fun best x => if x.above best then x else best) F32.minimum
  let fraction := env.floats.div64 (F64.ofI64 novel) (F64.ofI64 n)
  return ⟨tenant, generation, b.baselineId, n, novel, fraction,
    env.floats.div32 sum (env.floats.ofNat32 n), largest, b.threshold,
    fraction.partialCmp firingFraction = some .gt⟩

def checkGenerationDrift (env : BaselineEnv) (snap : Snapshot) (tenant : String)
    (group : String × List (String × Vector32)) : Io (DegradedAlarm ⊕ DriftAlarm) :=
  let (generation, rows) := group
  match snap.baselineFor tenant generation with
  | none => pure (.inl ⟨tenant, generation, rows.length, noBaseline tenant generation rows.length⟩)
  | some ref =>
    match ref.state with
    | .degraded reason => pure (.inl ⟨tenant, generation, rows.length, reason⟩)
    | .ready => do
      let b ← onStore (Catalog.getBaseline (Baseline.contentAddress env) ref.baselineId)
      if b.generationId ≠ generation then
        Prog.throw (.invariant <| s!"baseline {b.baselineId} claims generation {b.generationId} " ++
          s!"but the catalog filed it under {generation}")
      else
        let alarm ← Prog.ofExcept (evaluateDrift env tenant generation b (rows.map Prod.snd))
        return .inr alarm

def driftCheck (engine : Engine) (env : BaselineEnv) (tenant : String) (lo hi : Option Int) :
    Io DriftReport := do
  let tokenizer ← Prog.ofExcept engine.tenantTokenizer
  let snap ← snapshot
  let parts ← Prog.each (driftRows tokenizer tenant lo hi) snap.parts
  let byGeneration := (OrderedMap.groupBy Prod.fst parts.flatten).toList
  let checked ← Prog.each (checkGenerationDrift env snap tenant) byGeneration
  let alarms := Ranking.rank (fun a b => compare a.generationId b.generationId)
    (checked.filterMap Sum.getRight?)
  let degraded := Ranking.rank (fun a b => compare a.generationId b.generationId)
    (checked.filterMap Sum.getLeft?)
  return ⟨tenant, snap.snapshotId, alarms, degraded, alarms.any (·.fired)⟩

end Engine

/-! ### The rows of a semantic clustering -/

structure ClusterRequest where
  tenant : String
  predicate : Option Predicate
  timeFrom : Option Int
  timeTo : Option Int
  space : Option String

namespace Engine

/-- Whether a row of an opened part is in the filtered set. The end of the time range is
exclusive. -/
def admitsRow (snap : Snapshot) (req : ClusterRequest) (row : RowIn) : Result Bool :=
  let e := row.event
  if e.tenantId ≠ req.tenant then .ok false
  else if snap.isTombstoned e.eventId then .ok false
  else if req.timeFrom.any (e.eventTime < ·) then .ok false
  else if req.timeTo.any (e.eventTime ≥ ·) then .ok false
  else
    match req.predicate with
    | none => .ok true
    | some p => p.eval (Rowsource.EventRow.source ⟨e, F32.zero⟩) 0

def spansTwoSpaces (a b : String) : PrismError :=
  .invariant <| s!"this semantic_cluster spans two embedding spaces — {a} and {b} — whose " ++
    "vectors are not comparable (a distance in one is not a distance in the other). PrismDB will " ++
    "not cluster across them. Name one space with `USING SPACE`, or finish the re-embed " ++
    "migration so a single space remains."

def joinSpace (space : Option String) (partSpace : String) : Result (Option String) :=
  match space with
  | none => .ok (some partSpace)
  | some s =>
    if s = partSpace then .ok space
    else if compare s partSpace = .lt then .error (spansTwoSpaces s partSpace)
    else .error (spansTwoSpaces partSpace s)

/-- The entries one after another; `space` is that of the parts taken so far. -/
def gatherFrom (snap : Snapshot) (req : ClusterRequest) :
    Option String → List PartEntry → Io (List RowIn × Option String)
  | space, [] => pure ([], space)
  | space, entry :: rest =>
    match entry.located? with
    | none => gatherFrom snap req space rest
    | some r =>
      if !r.tenants.contains req.tenant then gatherFrom snap req space rest
      else do
        let g ← onStore (Catalog.getGeneration r.partition.generation)
        if req.space.any (g.space ≠ ·) then gatherFrom snap req space rest
        else
          let space ← Prog.ofExcept (joinSpace space g.space)
          let (_, rows) ← openAndRead r.partId
          let kept ← Prog.ofExcept (Fallible.keepM (admitsRow snap req) rows)
          let (others, space) ← gatherFrom snap req space rest
          return (kept ++ others, space)

/-- The rows a predicate admits, for one tenant, in one embedding space. -/
def gatherFiltered (req : ClusterRequest) : Io (List RowIn × String) := do
  let snap ← snapshot
  let (rows, space) ← gatherFrom snap req none snap.parts
  return (rows, space.getD "")

end Engine

end Prism
