import Prism.Engine.Generations
import Prism.Engine.Kernels
import Prism.Engine.RowSource
import Prism.Engine.TopK

/-!
The query path: prune parts, score the centroids, scan the selected ranges under one of three
strategies, rerank the candidates on their exact vectors, group the survivors
(`prism-engine/src/search.rs`).
-/

namespace Prism

/-! ### The parts of a query -/

namespace Query

def check (q : Query) : Result Unit :=
  if q.k = 0 then .error (.invalid "k must be positive")
  else if q.nprobe = 0 then .error (.invalid "nprobe must be positive")
  else if q.text.toList.all Event.isWhiteSpace then .error (.invalid "query text is empty")
  else .ok ()

def tighter (pick : Int → Int → Int) : Option Int → Option Int → Option Int
  | some a, some b => some (pick a b)
  | a, b => a.or b

def bounds (q : Query) : Predicate.TimeBounds :=
  let pred := (q.predicate.map Predicate.timeBounds).getD ⟨none, none⟩
  ⟨tighter max q.timeFrom pred.lo, tighter min q.timeTo pred.hi⟩

end Query

def Snapshot.candidateParts (s : Snapshot) (tenant : Option String) (lo hi : Option Int)
    (tokenizer : Option TenantTokenizer) : List String :=
  (s.parts.filter fun e =>
    match e.located?, tenant with
    | some r, some t => r.mayMatch t lo hi tokenizer
    | _, _ => true).map PartEntry.partId

def Catalog.getGenerationIn (store : Store) (id : String) : Result Generation :=
  match store.generations[id]? with
  | some g => .ok g
  | none => .error (.notFound s!"generation `{id}`")

def PartManifest.space (m : PartManifest) : String := s!"{m.modelId}:{m.modelVersion}"

namespace Engine

def openReader (engine : Engine) (store : Store) (id : String) : Result PartReader := do
  let part ← Catalog.openPartIn store id
  let cipher ← engine.cipherFor part.manifest
  return ⟨part, cipher⟩

/-- Open only the parts a query could need; the number counts those pruned. -/
def openCandidates (engine : Engine) (store : Store) (snap : Snapshot) (tenant : Option String)
    (lo hi : Option Int) : Result (List PartReader × Nat) := do
  let tokenizer ← engine.tenantTokenizer
  let ids := snap.candidateParts tenant lo hi tokenizer
  let readers ← ids.mapM (engine.openReader store)
  return (readers, snap.parts.length - ids.length)

end Engine

def checkGeneration (snap : Snapshot) (r : PartReader) : Result Unit :=
  let m := r.manifest
  match snap.parts.findSome? fun e => e.located?.filter (·.partId = m.partId) with
  | none => .ok ()
  | some ref =>
    if ref.partition.generation ≠ m.generationId then
      .error (.corrupt <| s!"part {m.partId} is filed in the catalog under generation " ++
        s!"{ref.partition.generation} but its manifest says it was encoded under " ++
        s!"{m.generationId}. Decoding it with either codebook would produce a number, and the " ++
        "number would look fine. Refusing.")
    else .ok ()

/-- Whether an opened part may hold a row of the tenant in the time range. The section of the tenant
decides where there is one. -/
def mayHold (tokenizer : Option TenantTokenizer) (tenant : Option String) (lo hi : Option Int)
    (r : PartReader) : Result Bool := do
  let s4 ← r.manifest.s4
  match tenant.bind s4.statsFor with
  | some stats => return stats.mayMatch lo hi
  | none => return r.manifest.mayMatch tenant lo hi tokenizer

def debugSet (names : List String) : String :=
  "\x7b" ++ ", ".intercalate (names.map fun s => s!"\"{s}\"") ++ "\x7d"

/-- The parts to scan, or the two spaces a declared bridge joins. -/
inductive SpaceChoice where
  | within (eligible : List PartReader)
  | bridged (spaces : List String) (bridge : Bridge)

variable (eligible : List PartReader)

def spacesOf : List String :=
  sortedSet (eligible.map (·.manifest.space))

/-- Scores of two embedding spaces do not compare: more than one is refused unless the query names
one or a bridge joins them. -/
def chooseSpace (snap : Snapshot) (q : Query) (eligible : List PartReader) :
    Result SpaceChoice :=
  let spaces := spacesOf eligible
  if spaces.length ≤ 1 then .ok (.within eligible)
  else
    match q.space with
    | some want =>
      if spaces.contains want then .ok (.within (eligible.filter (·.manifest.space = want)))
      else .error (.invalid <| s!"no eligible parts are in embedding space `{want}`; present " ++
        s!"spaces: {debugSet spaces}")
    | none =>
      let a := spaces.getD 0 ""
      let b := spaces.getD 1 ""
      match if spaces.length = 2 then snap.bridge a b else none with
      | some bridge => .ok (.bridged spaces bridge)
      | none => .error (.invariant <| s!"this query spans two embedding spaces — {a} and {b} — " ++
          "whose scores are not comparable (a cosine of 0.8 in one is not a cosine of 0.8 in the " ++
          "other). PrismDB will not merge them into one ranking. Either name one space with " ++
          s!"`USING SPACE '{b}'`, declare a bridge to fuse their ranks (`prism bridge declare`), " ++
          "or finish the re-embed migration so a single space remains.")

/-! ### The query in a space -/

structure SpaceContext where
  queryVector : Vector32
  adc : AdcTable
  ranked : List Nat
  rankedDists : List F32

namespace Engine

def spaceContext (engine : Engine) (env : QueryEnv) (store : Store) (q : Query) (gid : String) :
    Result SpaceContext := do
  let g ← Catalog.getGenerationIn store gid
  let embedder ← engine.plane.embedder g.modelId g.modelVersion
  let queryVector ← env.embedQuery embedder q.tenant q.text
  let adc ← env.codebooks.adcTable env.floats g queryVector
  let scored := env.codebooks.rank env.floats g queryVector
  return ⟨queryVector, adc, scored.map Prod.fst, scored.map Prod.snd⟩

end Engine

def generationsOf : List String :=
  sortedSet (eligible.map (·.manifest.generationId))

abbrev SpaceContexts := List (String × SpaceContext)

def Engine.buildSpaceContexts (engine : Engine) (env : QueryEnv) (store : Store) (q : Query)
    (eligible : List PartReader) : Result SpaceContexts :=
  (generationsOf eligible).mapM fun gid => do return (gid, ← engine.spaceContext env store q gid)

/-! ### The plan -/

def planSampleRows : Nat := 512

def tenantShare (tenant : String) (eligible : List PartReader) : Nat × Nat :=
  ((eligible.map fun r =>
      match r.manifest.s4 with
      | .ok s4 => ((s4.statsFor tenant).map (·.rows)).getD 0
      | .error _ => 0).sum,
    (eligible.map (·.manifest.rowCount)).sum)

/-- Of evenly spaced rows of the first part, those the predicate accepts, and how many there are. -/
def samplePredicate (p : Predicate) (eligible : List PartReader) : Option (Nat × Nat) := do
  let r ← eligible.head?
  let view ← (Rowsource.PartRows.new r (some p)).toOption
  let n := r.manifest.rowCount
  guard (0 < n)
  let sample := min planSampleRows n
  let step := max (n / sample) 1
  let rows := ((List.range sample).map (· * step)).filter (· < n)
  return ((rows.filter (Fallible.accepts (p.eval view.source))).length, rows.length)

def choosePlan (costs : CostModel) (q : Query) (eligible : List PartReader) : Strategy :=
  match q.plan.bind Strategy.parse with
  | some forced => forced
  | none =>
    if q.predicate.isNone ∧ q.tenant.isNone ∧ q.timeFrom.isNone ∧ q.timeTo.isNone then .interleaved
    else
      let selectivity := costs.selectivity (q.tenant.map (tenantShare · eligible))
        (q.predicate.bind (samplePredicate · eligible))
      let ranges := (eligible.flatMap (·.manifest.centroidRanges)).map (·.rowCount)
      let probedRows := max (ranges.take (max q.nprobe 1 * max eligible.length 1)).sum 1
      costs.cheapest probedRows selectivity q.candidates

/-! ### The scan -/

/-- The test on one row, and how often it evaluated the predicate. -/
abbrev Mask := Nat → Result (Bool × Nat)

/-- A range that was read: where its rows are, how many bytes its codes have, and the distance of
its `i`-th row. -/
structure ProbedRange where
  range : CentroidRange
  codeBytes : Nat
  dist : Nat → F32

/-- A part of the scan: the test on its rows and the ranges to scan, in the order of the probes. A
range may fail to be read. -/
structure ProbedPart where
  index : Nat
  probesTaken : Nat
  probesWidened : Nat
  mask : Mask
  ranges : List (Result ProbedRange)

structure ScanState where
  collector : Collector
  counters : Counters

namespace Counters

variable (c : Counters)

def addEvals (evals : Nat) : Counters :=
  { c with predicateEvals := c.predicateEvals + evals }

def addPassing (strategy : Strategy) : Counters :=
  { c with
    rowsPassingFilter := c.rowsPassingFilter + 1
    distancesComputed := c.distancesComputed + if strategy = .scalarFirst then 1 else 0 }

def addRange (strategy : Strategy) (pr : ProbedRange) : Counters :=
  { c with
    rangesScanned := c.rangesScanned + 1
    pqBytesScanned := c.pqBytesScanned + pr.codeBytes
    rowsScannedPq := c.rowsScannedPq + pr.range.rowCount
    distancesComputed := c.distancesComputed +
      if strategy = .scalarFirst then 0 else pr.range.rowCount }

def addPart (p : ProbedPart) : Counters :=
  { c with
    partsOpened := c.partsOpened + 1
    probesTaken := c.probesTaken + p.probesTaken
    probesWidened := c.probesWidened + p.probesWidened }

end Counters

/-- One row of a range. In the semantic-first strategy the distance comes first, and a row that
cannot enter is skipped untested. -/
def scanRow (strategy : Strategy) (idOf : IdOf) (part : Nat) (mask : Mask) (pr : ProbedRange)
    (st : ScanState) (i : Nat) : Result ScanState :=
  let dist := pr.dist i
  let row := pr.range.firstRow + i
  if strategy = .semanticFirst ∧ !st.collector.wouldAdmit dist then .ok st
  else do
    let (passed, evals) ← mask row
    let counters := st.counters.addEvals evals
    if passed then
      return ⟨st.collector.offer idOf ⟨dist, part, row⟩, counters.addPassing strategy⟩
    else return ⟨st.collector, counters⟩

def scanRange (strategy : Strategy) (idOf : IdOf) (part : Nat) (mask : Mask) (st : ScanState)
    (pr : ProbedRange) : Result ScanState :=
  (List.range pr.range.rowCount).foldlM (scanRow strategy idOf part mask pr)
    ⟨st.collector, st.counters.addRange strategy pr⟩

def scanPart (strategy : Strategy) (idOf : IdOf) (st : ScanState) (p : ProbedPart) :
    Result ScanState :=
  p.ranges.foldlM (fun st read => do scanRange strategy idOf p.index p.mask st (← read))
    ⟨st.collector, st.counters.addPart p⟩

def scanParts (strategy : Strategy) (idOf : IdOf) (st : ScanState)
    (parts : List (Result ProbedPart)) : Result ScanState :=
  parts.foldlM (fun st part => do scanPart strategy idOf st (← part)) st

/-- The scalar mask: tenant and time range, then the predicate. -/
def rowMask (q : Query) (scalars : Scalars) (view : Option Rowsource.PartRows) : Mask := fun row =>
  let time := scalars.times.getD row 0
  if q.tenant.any (!scalars.tenantIs row ·) then .ok (false, 0)
  else if q.timeFrom.any (time < ·) then .ok (false, 0)
  else if q.timeTo.any (time > ·) then .ok (false, 0)
  else
    match q.predicate, view with
    | some p, some view => do return (← p.eval view.source row, 1)
    | _, _ => .ok (true, 0)

/-- A range whose whole time span is outside the query's is skipped without a read. -/
def rangeMayMatch (q : Query) (range : CentroidRange) : Bool :=
  timesMayMatch range.timeMin range.timeMax q.timeFrom q.timeTo

variable (fu : FloatUnit)

def probeCount (q : Query) (ctx : SpaceContext) : Nat :=
  if q.adaptive then
    adaptiveNprobe fu ctx.rankedDists q.nprobe (q.adaptiveMargin.getD Prism.adaptiveMargin)
      adaptiveMaxNprobe
  else min q.nprobe ctx.ranked.length

def probeRange (r : PartReader) (ctx : SpaceContext) (range : CentroidRange) :
    Result ProbedRange := do
  let codes ← r.readPqRange range
  let m := r.manifest.pqM
  return ⟨range, codes.length, fun i => ctx.adc ((codes.drop (i * m)).take m)⟩

def partView (q : Query) (r : PartReader) : Result (Option Rowsource.PartRows) :=
  match q.predicate with
  | some p => some <$> Rowsource.PartRows.new r (some p)
  | none => .ok none

def probePart (q : Query) (ctxs : SpaceContexts) (index : Nat) (r : PartReader)
    (scalars : Scalars) : Result ProbedPart :=
  match ctxs.lookup r.manifest.generationId with
  | none => .error (.corrupt "part references an absent generation")
  | some ctx => do
    let view ← partView q r
    let probes := probeCount fu q ctx
    let ranges := (ctx.ranked.take probes).filterMap fun cid =>
      r.manifest.centroidRanges.find? (·.centroid = cid)
    return {
      index
      probesTaken := probes
      probesWidened := probes - min q.nprobe ctx.ranked.length
      mask := rowMask q scalars view
      ranges := (ranges.filter (rangeMayMatch q)).map (probeRange r ctx) }

def idsOf (scalars : List Scalars) : IdOf := fun part row =>
  ((scalars[part]?).map (·.eventIdAt row)).getD ""

def Query.collector (q : Query) (fu : FloatUnit) : Collector :=
  match q.threshold with
  | some tau =>
    let exactBound := fu.mul32 F32.two (fu.sub32 F32.one tau)
    .threshold ⟨exactBound, fu.add32 exactBound thresholdOverfetchMarginEpsilon,
      thresholdStateBudget, [], 0, false⟩
  | none => .bounded (TopK.new q.candidates)

def thresholdRefusal (q : Query) : PrismError :=
  .invalid <| s!"threshold query `similarity > {fu.display32 (q.threshold.getD F32.zero)}` " ++
    s!"qualifies more than the state budget ({thresholdStateBudget} candidates) over this " ++
    "filter; refusing rather than reranking without bound (D-074). Narrow the time/predicate " ++
    "filter or raise the threshold."

/-- What the candidate phase hands to the rerank. The part of a candidate is an index into
`eligible`. -/
structure CandidateSet where
  eligible : List PartReader
  ctxs : SpaceContexts
  candidates : List Candidate
  genIds : List String
  counters : Counters

def Engine.scanEligible (engine : Engine) (env : QueryEnv) (store : Store) (q : Query)
    (eligible : List PartReader) (c : Counters) : Result CandidateSet := do
  let ctxs ← engine.buildSpaceContexts env store q eligible
  let scalars ← eligible.mapM PartReader.readScalars
  let idOf := idsOf scalars
  let strategy := choosePlan env.costs q eligible
  let counters := { c with
    centroidsScored := (ctxs.map (·.2.ranked.length)).sum
    plan := strategy.name }
  let parts := (eligible.zip scalars).mapIdx fun i (r, s) => probePart env.floats q ctxs i r s
  let st ← scanParts strategy idOf ⟨q.collector env.floats, counters⟩ parts
  if st.collector.overflowed then .error (thresholdRefusal env.floats q)
  let candidates := st.collector.intoSorted idOf
  return {
    eligible, ctxs, candidates
    genIds := generationsOf eligible
    counters := { st.counters with
      thresholdOverfetch := st.collector.overfetch
      candidatesConsidered := candidates.length } }

inductive CandidatePhase where
  | done (result : SearchResult)
  | rerank (set : CandidateSet)

/-- The parts of a query before the embedding-space check, with the number of those pruned. -/
def Engine.eligibleParts (engine : Engine) (store : Store) (snap : Snapshot) (q : Query) :
    Result (List PartReader × Nat) := do
  let tokenizer ← engine.tenantTokenizer
  q.check
  let b := q.bounds
  let (readers, pruned) ← engine.openCandidates store snap q.tenant b.lo b.hi
  let eligible ← Fallible.keepM (fun r => do
    checkGeneration snap r
    mayHold tokenizer q.tenant b.lo b.hi r) readers
  return (eligible, pruned + (readers.length - eligible.length))

/-- `bridged` answers a query across two spaces. -/
def Engine.candidatePhase (engine : Engine) (env : QueryEnv) (store : Store)
    (bridged : List String → Bridge → Result SearchResult) (snap : Snapshot) (q : Query) :
    Result CandidatePhase := do
  let (inTime, pruned) ← engine.eligibleParts store snap q
  match ← chooseSpace snap q inTime with
  | .bridged spaces bridge => return .done (← bridged spaces bridge)
  | .within eligible =>
    let c : Counters := {
      partsTotal := snap.parts.length
      partsPruned := pruned + (inTime.length - eligible.length)
      rowsEligible := (eligible.map (·.manifest.rowCount)).sum }
    if eligible.isEmpty then return .done ⟨[], none, c, [], none, [], snapshotName snap.snapshotId⟩
    else return .rerank (← engine.scanEligible env store q eligible c)

/-! ### The rerank -/

structure RowPos where
  part : Nat
  row : Nat
  deriving DecidableEq, Repr

namespace RowPos

instance : Ord RowPos := ⟨compareLex (compareOn part) (compareOn row)⟩

instance : Std.TransOrd RowPos :=
  inferInstanceAs (Std.TransCmp (compareLex (compareOn part) (compareOn row)))

instance : Std.LawfulEqOrd RowPos where
  eq_of_compare {a b} same := by
    obtain ⟨parts, rows⟩ := compareLex_eq_eq.mp same
    have parts : a.part = b.part := Std.LawfulEqOrd.eq_of_compare parts
    have rows : a.row = b.row := Std.LawfulEqOrd.eq_of_compare rows
    cases a; cases b; simp_all

end RowPos

structure Scored where
  score : F32
  pos : RowPos
  vector : Vector32
  eventId : String
  deriving DecidableEq, Repr

def Scored.order (a b : Scored) : Ordering :=
  (b.score.totalCmp a.score).then (compare a.eventId b.eventId)

instance : Std.TransCmp Scored.order :=
  inferInstanceAs (Std.TransCmp
    (Ranking.descendingThen F32.totalCmp compare Scored.score Scored.eventId))

/-- The part a candidate indexes. The source stops where there is none. -/
def partAt (index : Nat) : Result PartReader :=
  match eligible[index]? with
  | some r => .ok r
  | none => .error (.invariant s!"index {index} of {eligible.length} parts")

structure Fetched where
  pos : RowPos
  vector : Vector32
  eventId : String
  queryVector : Vector32

def fetchPart (ctxs : SpaceContexts) (item : Nat × List Candidate) :
    Result (List Fetched) := do
  let r ← partAt eligible item.1
  let rows := item.2.map (·.row)
  let vectors ← r.readVectorsForRows rows
  let ids ← r.readEventIdsForRows rows
  let query := ((ctxs.lookup r.manifest.generationId).map (·.queryVector)).getD []
  return (rows.zip (vectors.zip ids)).map fun (row, vector, id) => ⟨⟨item.1, row⟩, vector, id, query⟩

/-- The route of the exact scores; a tenant over its share of the device gets the processor. -/
def rerankRoute (env : QueryEnv) (dim : Nat) (q : Query) (fetched : Nat) : Route :=
  let route := planRoute (q.forceRoute.map Route.forced)
  if route.isDevice && !env.deviceAdmits (q.tenant.getD "(none)") (fetched * dim * 4) then .cpu
  else route

def rerankScores (env : QueryEnv) (dim : Nat) (q : Query) (eligible : List PartReader)
    (ctxs : SpaceContexts) (candidates : List Candidate) (c : Counters) :
    Result (List Scored × Counters) := do
  let byPart := (OrderedMap.groupBy Candidate.part candidates).toList
  let fetched := (← byPart.mapM (fetchPart eligible ctxs)).flatten
  let route := rerankRoute env dim q fetched.length
  let scored := fetched.map fun f : Fetched =>
    (⟨rerankScore env.floats route f.queryVector f.vector, f.pos, f.vector, f.eventId⟩ : Scored)
  return (scored, { c with
    exactVectorsFetched := c.exactVectorsFetched + fetched.length
    exactBytesFetched := c.exactBytesFetched + fetched.length * dim * 4
    objectRequests := c.objectRequests + byPart.length
    rerankRoute := route.name })

abbrev Materialized := BTreeMap RowPos (Event × Nat)

def centroidAt (m : PartManifest) (row : Nat) : Result Nat :=
  match m.centroidRanges.find? fun cr => row ≥ cr.firstRow ∧ row < cr.firstRow + cr.rowCount with
  | some cr => .ok cr.centroid
  | none => .error (.corrupt s!"row {row} of part {m.partId} is in no centroid range")

def materializePart (item : Nat × List RowPos) :
    Result (List (RowPos × Event × Nat)) := do
  let r ← partAt eligible item.1
  let events ← r.readEventsForRows (item.2.map (·.row))
  (item.2.zip events).mapM fun (pos, event) => do
    return (pos, event, ← centroidAt r.manifest pos.row)

def materialize (needed : List RowPos) :
    Result Materialized := do
  let byPart := (OrderedMap.groupBy RowPos.part needed).toList
  let rows := (← byPart.mapM (materializePart eligible)).flatten
  return rows.foldl (fun out (pos, value) => out.insert pos value) ∅

/-! ### Grouping -/

def ClusterSummary.of (clusterId : Nat) (members : List Event) (exemplar : Event) :
    ClusterSummary :=
  let count := members.length
  let errors := (members.filter (·.error)).length
  { clusterId, count, exemplar
    avgCost := fu.div64 (fu.sum64 (members.map (·.cost))) (F64.ofI64 count)
    errorRate := fu.div64 (F64.ofI64 errors) (F64.ofI64 count)
    memberIds := Ranking.rank compare (members.map (·.eventId)) }

def ClusterSummary.order (a b : ClusterSummary) : Ordering :=
  (compare b.count a.count).then (compare a.clusterId b.clusterId)

/-- The event of a survivor. The source stops with this message if it was not materialized. -/
def survivorEvent (materialized : Materialized) (s : Scored) : Result Event :=
  match materialized[s.pos]? with
  | some (event, _) => .ok event
  | none => .error (.invariant "every survivor event was materialized")

def summarize (materialized : Materialized) (clusterId : Nat) (centroid : Vector32)
    (members : List Scored) : Result (Option ClusterSummary) :=
  match members with
  | [] => .ok none
  | first :: _ => do
    let best := members.getD (nearest (fun s => fu.l2Sq s.vector centroid) members) first
    let events ← members.mapM (survivorEvent materialized)
    let exemplar ← survivorEvent materialized best
    return some (.of fu clusterId events exemplar)

def group (cb : Codebooks) (scored : List Scored) (materialized : Materialized) (groupK : Nat) :
    Result (List ClusterSummary) := do
  let k := min groupK scored.length
  let found ← cb.kmeans (scored.map (·.vector)) k
  let centroids := (List.range k).map (found.getD · [])
  let assign (s : Scored) : Nat := nearest (fu.l2Sq s.vector) centroids
  let summaries ← ((List.range k).zip centroids).mapM fun (cid, centroid) =>
    summarize fu materialized cid centroid (scored.filter (assign · = cid))
  return Ranking.rank ClusterSummary.order (summaries.filterMap id)

/-! ### The answer -/

def rowSet (positions : List RowPos) : List RowPos :=
  (positions.foldl (fun (set : BTreeMap RowPos Unit) pos => set.insert pos ()) ∅).keys

def hitOf (materialized : Materialized) (s : Scored) : Result Hit :=
  match materialized[s.pos]? with
  | some (event, centroid) => .ok ⟨event, s.score, centroid⟩
  | none => .error (.corrupt s!"survivor {s.eventId} was not materialized")

def survivors (q : Query) (scored : List Scored) : List Scored :=
  let sorted := Ranking.rank Scored.order scored
  match q.threshold with
  | some tau => sorted.filter (·.score.atLeast tau)
  | none => sorted

/-- Order the scored rows, take the top `k`, materialize them, drop the deleted ones, and group. -/
def finalize (env : QueryEnv) (tombstones : List String) (snapshotId : String) (q : Query)
    (scored : List Scored) (genIds : List String) (c : Counters)
    (materialize : List RowPos → Result Materialized) :
    Result SearchResult := do
  let scored := survivors q scored
  let take := if q.groupK.isSome then scored.length else q.k
  let materialized ← materialize (rowSet ((scored.take take).map (·.pos)))
  let hits ← (scored.take q.k).mapM (hitOf materialized)
  let clusters ← match q.groupK with
    | some groupK =>
      if groupK > 0 ∧ scored ≠ [] then
        some <$> group env.floats env.codebooks scored materialized groupK
      else .ok none
    | none => .ok none
  return {
    hits := hits.filter (!tombstones.contains ·.event.eventId)
    clusters
    counters := c
    generations := genIds
    bridge := none
    missingShards := []
    snapshotId }

namespace Engine

/-- Bound the candidates by the rerank width and by the bytes the query declares. -/
def boundCandidates (dim : Nat) (q : Query) (candidates : List Candidate) : List Candidate × Bool :=
  let kept := if q.threshold.isNone then candidates.take q.rerank else candidates
  match q.fetchBudgetBytes with
  | some budget =>
    let most := budget / max (dim * 4) 1
    (kept.take most, kept.length > most)
  | none => (kept, false)

variable (engine : Engine) (env : QueryEnv)

def rerankPhase (snap : Snapshot) (q : Query) (set : CandidateSet) : Result SearchResult := do
  let dim := engine.config.dim
  let (candidates, exhausted) := boundCandidates dim q set.candidates
  let c := { set.counters with
    fetchBudgetExhausted := exhausted
    rerankWidth := candidates.length }
  let (scored, c) ← rerankScores env dim q set.eligible set.ctxs candidates c
  finalize env snap.tombstones (snapshotName snap.snapshotId) q scored set.genIds c
    (materialize set.eligible)

/-- A search whose queries across two spaces are answered by `bridged`. -/
def searchWith (store : Store)
    (bridged : Snapshot → Query → List String → Bridge → Result SearchResult) (snap : Snapshot)
    (q : Query) : Result SearchResult := do
  match ← engine.candidatePhase env store (bridged snap q) snap q with
  | .done result => return result
  | .rerank set => engine.rerankPhase env snap q set

/-! ### Bridges -/

/-- What the loop over the spaces of a bridged query has gathered: the fused score of each event, by
its id, with the first hit of it. -/
structure Fused where
  rows : BTreeMap String (F32 × Hit)
  counters : Counters
  generations : List String

/-- The contribution of the hit at a position: `1 / (60 + rank)`. -/
def reciprocalRank (fu : FloatUnit) (i : Nat) : F32 :=
  fu.div32 F32.one (fu.add32 F32.sixty (fu.ofNat32 (i + 1)))

def fuseHit (fu : FloatUnit) (rows : BTreeMap String (F32 × Hit)) (item : Nat × Hit) :
    BTreeMap String (F32 × Hit) :=
  let (i, hit) := item
  let (score, first) := (rows[hit.event.eventId]?).getD (F32.zero, hit)
  rows.insert hit.event.eventId (fu.add32 score (reciprocalRank fu i), first)

def Fused.add (fu : FloatUnit) (f : Fused) (r : SearchResult) : Fused :=
  let c := f.counters
  let n := r.counters
  { rows := ((List.range r.hits.length).zip r.hits).foldl (fuseHit fu) f.rows
    counters := { c with
      partsTotal := n.partsTotal
      partsPruned := c.partsPruned + n.partsPruned
      partsOpened := c.partsOpened + n.partsOpened
      rowsScannedPq := c.rowsScannedPq + n.rowsScannedPq
      rowsPassingFilter := c.rowsPassingFilter + n.rowsPassingFilter
      candidatesConsidered := c.candidatesConsidered + n.candidatesConsidered
      exactVectorsFetched := c.exactVectorsFetched + n.exactVectorsFetched
      exactBytesFetched := c.exactBytesFetched + n.exactBytesFetched
      rowsEligible := c.rowsEligible + n.rowsEligible }
    generations := f.generations ++ r.generations }

def fusedOrder (a b : F32 × Hit) : Ordering :=
  (b.1.totalCmp a.1).then (compare a.2.event.eventId b.2.event.eventId)

/-- Answer a query across two spaces: `search` answers it in each, and the ranks are fused. -/
def searchBridged (fu : FloatUnit) (search : Snapshot → Query → Result SearchResult)
    (snap : Snapshot) (q : Query) (spaces : List String) (bridge : Bridge) :
    Result SearchResult := do
  let fused ← spaces.foldlM (fun f space => do
    return Fused.add fu f (← search snap { q with space := some space })) ⟨∅, {}, []⟩
  let rows := Ranking.rank fusedOrder (fused.rows.toList.map Prod.snd)
  return {
    hits := (rows.take q.k).map fun (score, hit) => { hit with score }
    clusters := none
    counters := fused.counters
    generations := sortedSet fused.generations
    bridge := some <|
      s!"RankFusion across {bridge.fromSpace} <-> {bridge.toSpace} ({bridge.validation})"
    missingShards := []
    snapshotId := snapshotName snap.snapshotId }

/-- A query that names its space is in one, so it never meets a bridge. -/
def searchInSpace (store : Store) :
    Snapshot → Query → Result SearchResult :=
  engine.searchWith env store fun _ _ _ _ => .error deviceError

def searchAt (store : Store) :
    Snapshot → Query → Result SearchResult :=
  engine.searchWith env store (searchBridged env.floats (engine.searchInSpace env store))

/-! ### The exact oracle -/

def exactMatches (q : Query) (e : Event) : Result Bool :=
  if q.tenant.any (e.tenantId ≠ ·) then .ok false
  else if q.timeFrom.any (e.eventTime < ·) then .ok false
  else if q.timeTo.any (e.eventTime > ·) then .ok false
  else
    match q.predicate with
    | some p => p.eval (Rowsource.EventRow.mk e F32.zero).source 0
    | none => .ok true

def exactPart (store : Store) (tokenizer : Option TenantTokenizer) (q : Query) (r : PartReader) :
    Result (List Hit) := do
  if !r.manifest.mayMatch q.tenant q.timeFrom q.timeTo tokenizer then return []
  else
    let g ← Catalog.getGenerationIn store r.manifest.generationId
    let embedder ← engine.plane.embedder g.modelId g.modelVersion
    let queryVector ← env.embedQuery embedder q.tenant q.text
    let rows ← r.readPartRows
    let hits := (rows.events.zip (rows.vectors.zip rows.centroids)).map fun (e, v, centroid) =>
      (⟨e, env.floats.dot queryVector v, centroid⟩ : Hit)
    Fallible.keepM (fun h => exactMatches q h.event) hits

def hitOrder (a b : Hit) : Ordering :=
  (b.score.totalCmp a.score).then (compare a.event.eventId b.event.eventId)

instance : Std.TransCmp hitOrder :=
  inferInstanceAs (Std.TransCmp
    (Ranking.descendingThen F32.totalCmp compare Hit.score (·.event.eventId)))

/-- Brute-force search of every row of a snapshot. -/
def exactSearchAt (store : Store) (snap : Snapshot) (q : Query) :
    Result (List Hit) := do
  let tokenizer ← engine.tenantTokenizer
  let readers ← snap.partIds.mapM (engine.openReader store)
  let all ← readers.mapM (engine.exactPart env store tokenizer q)
  return (Ranking.rank hitOrder all.flatten).take q.k

end Engine

end Prism
