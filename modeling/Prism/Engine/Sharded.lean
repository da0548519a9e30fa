import Prism.Engine.Cursor
import Prism.Engine.Search

/-!
A cluster of shards and its coordinator: two rounds over the shards of a pinned snapshot vector, one
`finalize` over what they scored, and pages of the answer (`prism-engine/src/sharded.rs`, and the
shard side of `search.rs`).
-/

namespace Prism

/-! ### A shard -/

structure ShardCandidate where
  dist : F32
  eventId : String
  partId : String
  row : Nat
  deriving DecidableEq, Repr

structure ShardCandidates where
  candidates : List ShardCandidate
  thresholdOverfetch : Nat
  deriving DecidableEq, Repr

structure ShardScored where
  score : F32
  eventId : String
  partId : String
  row : Nat
  vector : Vector32
  deriving DecidableEq, Repr

abbrev Selection := List (String × Nat)

/-- What a coordinator needs from a shard. A query may ask a shard to materialize rows more than
once; the number counts the times before, and a shard may fail the second time only. -/
structure ReadShard where
  validateSnapshot : Snapshot → Result Unit
  candidates : Snapshot → Query → Result ShardCandidates
  rerank : Snapshot → Query → Selection → Result (List ShardScored)
  materialize : Nat → Snapshot → Selection → Result (List (Event × Nat))

namespace Engine

variable (store : Store)

/-- Every part directory the snapshot names is still there. -/
def validateSnapshot (snap : Snapshot) : Result Unit :=
  match snap.partIds.find? (!store.parts.contains ·) with
  | none => .ok ()
  | some id => .error (.notFound <| s!"snapshot `{snapshotName snap.snapshotId}` names part " ++
      s!"`{id}`, which has been reclaimed")

def candidateIds (eligible : List PartReader) (item : Nat × List Candidate) :
    Result (List (RowPos × String)) := do
  let r ← partAt eligible item.1
  let rows := item.2.map (·.row)
  let ids ← r.readEventIdsForRows rows
  return (rows.zip ids).map fun (row, id) => (⟨item.1, row⟩, id)

/-- A candidate under the name of its part. The source stops where there is no id for it. -/
def shardCandidate (eligible : List PartReader) (ids : BTreeMap RowPos String) (c : Candidate) :
    Result ShardCandidate := do
  let r ← partAt eligible c.part
  match ids[(⟨c.part, c.row⟩ : RowPos)]? with
  | some id => return ⟨c.dist, id, r.manifest.partId, c.row⟩
  | none => .error (.invariant "no entry found for key")

variable (engine : Engine)

def searchCandidates (env : QueryEnv) (store : Store) (snap : Snapshot) (q : Query) :
    Result ShardCandidates := do
  let bridged := searchBridged env.floats (engine.searchInSpace env store) snap q
  match ← engine.candidatePhase env store bridged snap q with
  | .done r =>
    if r.hits.isEmpty && r.bridge.isNone then return ⟨[], r.counters.thresholdOverfetch⟩
    else .error (.invalid <| "a cross-tenant cluster query that spans two embedding spaces (a " ++
      "bridge) is not supported yet — rank-fusion across shards is a later increment")
  | .rerank set =>
    let byPart := (OrderedMap.groupBy Candidate.part set.candidates).toList
    let ids := (← byPart.mapM (candidateIds set.eligible)).flatten
    let eid := ids.foldl (fun out (pos, id) => out.insert pos id) (∅ : BTreeMap RowPos String)
    return ⟨← set.candidates.mapM (shardCandidate set.eligible eid),
      set.counters.thresholdOverfetch⟩

def selectedParts (selected : Selection) : List String := (selected.map Prod.fst).eraseDups

def openSelected (selected : Selection) : Result (List PartReader) :=
  (selectedParts selected).mapM fun id => do return ⟨← Catalog.openPartIn store id, none⟩

def searchRerankSelected (env : QueryEnv) (store : Store) (q : Query) (selected : Selection) :
    Result (List ShardScored) := do
  if selected.isEmpty then return []
  else
    let readers ← openSelected store selected
    let ctxs ← engine.buildSpaceContexts env store q readers
    let candidates := selected.map fun (id, row) =>
      (⟨F32.zero, (selectedParts selected).idxOf id, row⟩ : Candidate)
    let (scored, _) ← rerankScores env engine.config.dim q readers ctxs candidates {}
    scored.mapM fun s => do
      let r ← partAt readers s.pos.part
      return ⟨s.score, s.eventId, r.manifest.partId, s.pos.row, s.vector⟩

def materializeRow (readers : List PartReader) (order : List String) (item : String × Nat) :
    Result (Event × Nat) := do
  let (id, row) := item
  let r ← partAt readers (order.idxOf id)
  match (← r.readEventsForRows [row]).getLast? with
  | none => .error (.corrupt s!"row {row} of part {id} is missing")
  | some event =>
    match r.manifest.centroidRanges.find? fun cr =>
        row ≥ cr.firstRow ∧ row < cr.firstRow + cr.rowCount with
    | some cr => return (event, cr.centroid)
    | none => .error (.corrupt s!"row {row} of part {id} is in no centroid range")

def searchMaterialize (selected : Selection) :
    Result (List (Event × Nat)) := do
  if selected.isEmpty then return []
  else
    let readers ← openSelected store selected
    selected.mapM (materializeRow readers (selectedParts selected))

/-- A selection names parts of the pinned snapshot only. -/
def checkSelection (snap : Snapshot) (selected : Selection) : Result Unit :=
  match selected.find? fun item => !snap.partIds.contains item.1 with
  | none => .ok ()
  | some (id, _) => .error (.invalid <| s!"selection names part `{id}`, which is not in pinned " ++
      s!"snapshot `{snapshotName snap.snapshotId}`")

def readShard (env : QueryEnv) (store : Store) : ReadShard where
  validateSnapshot := validateSnapshot store
  candidates := engine.searchCandidates env store
  rerank snap q selected := do
    checkSelection snap selected
    engine.searchRerankSelected env store q selected
  materialize _ snap selected := do
    checkSelection snap selected
    searchMaterialize store selected

end Engine

/-! ### Partial answers -/

/-- A shard that could not be reached is recorded on a best-effort query, and fails any other. -/
def resolveUnreachable (shard : Nat) (reason : String) (bestEffort : Bool)
    (missing : List MissingShard) : Result (List MissingShard) :=
  if bestEffort then
    if missing.any (·.shard = shard) then .ok missing else .ok (missing ++ [⟨shard, reason⟩])
  else .error (.notFound <| s!"shard {shard} unreachable: {reason}. This query touches it and did " ++
    "not opt in to a partial answer, so it fails rather than return a silently short result " ++
    "(query §21). Pass best_effort to accept a labelled partial answer.")

def debugNats (ns : List Nat) : String := "[" ++ ", ".intercalate (ns.map toString) ++ "]"

/-- A grouped answer is not given over some of the shards. -/
def refusePartialGroup (q : Query) (missing : List MissingShard) : Result Unit :=
  if !missing.isEmpty && q.groupK.isSome then
    .error (.invalid <| "a best-effort semantic GROUP BY dropped shard(s) " ++
      debugNats (missing.map (·.shard)) ++
      ": a cluster distribution over an incomplete shard set is not comparable to a complete run " ++
      "(cluster mass and exemplars shift with the data present), so it is refused rather than " ++
      "returned as if whole (query §21). Re-run without best_effort to fail by name, or narrow to " ++
      "a reachable tenant.")
  else .ok ()

/-! ### The coordinator -/

structure Handle where
  shard : Nat
  partId : String
  row : Nat
  deriving DecidableEq, Repr

namespace Coordinator

/-- The shards a query goes on without. `failed` is history: the shard of every call that failed. -/
structure Ledger where
  missing : List MissingShard
  failed : List Nat
  deriving DecidableEq, Repr

def Ledger.fail (l : Ledger) (q : Query) (shard : Nat) (reason : String) :
    Result Ledger := do
  return ⟨← resolveUnreachable shard reason q.bestEffort l.missing, l.failed ++ [shard]⟩

def Ledger.lacks (l : Ledger) (shard : Nat) : Bool := l.missing.any (·.shard = shard)

def expiredReason (snap : Snapshot) (e : PrismError) : String :=
  let name := snapshotName snap.snapshotId
  match e with
  | .notFound _ => s!"the pinned snapshot vector is expired: snapshot `{name}` is no longer " ++
      s!"readable: {e.display}"
  | _ => s!"pinned snapshot `{name}` validation failed: {e.display}"

/-- The pinned snapshots are still readable on the shards that are not missing already. -/
def validateVector (q : Query) (l : Ledger) (item : Nat × ReadShard × Snapshot) :
    Result Ledger :=
  let (si, shard, snap) := item
  if l.lacks si then .ok l
  else
    match shard.validateSnapshot snap with
    | .ok _ => .ok l
    | .error e => l.fail q si (expiredReason snap e)

structure Round1 where
  merged : List (Nat × ShardCandidate)
  overfetch : Nat
  ledger : Ledger

/-- A shard that was missing before the round is not asked. -/
def round1Shard (q : Query) (before : Ledger) (st : Round1) (item : Nat × ReadShard × Snapshot) :
    Result Round1 := do
  let (si, shard, snap) := item
  if before.lacks si then
    let e : PrismError := .notFound "shard was unreachable while pinning the snapshot vector"
    let missing ← resolveUnreachable si e.display q.bestEffort st.ledger.missing
    return { st with ledger := { st.ledger with missing } }
  else
    match shard.candidates snap q with
    | .ok c => return ⟨st.merged ++ c.candidates.map (si, ·), st.overfetch + c.thresholdOverfetch,
        st.ledger⟩
    | .error e => return { st with ledger := ← st.ledger.fail q si e.display }

def candidateOrder (a b : Nat × ShardCandidate) : Ordering :=
  (a.2.dist.totalCmp b.2.dist).then (compare a.2.eventId b.2.eventId)

/-- The global candidates, bounded once for the query. -/
def boundGlobal (dim : Nat) (q : Query) (merged : List (Nat × ShardCandidate)) :
    List (Nat × ShardCandidate) × Bool :=
  let ranked := Ranking.rank candidateOrder merged
  let kept := if q.threshold.isNone then ranked.take q.rerank else ranked
  match q.fetchBudgetBytes with
  | some budget =>
    let most := budget / max (dim * 4) 1
    (kept.take most, kept.length > most)
  | none => (kept, false)

/-- What the second round has gathered. A scored row is numbered by its handle. -/
structure Round2 where
  scored : List Scored
  handles : List Handle
  bytes : Nat
  requests : Nat
  ledger : Ledger

def Round2.add (si : Nat) (st : Round2) (s : ShardScored) : Round2 :=
  { st with
    scored := st.scored ++ [⟨s.score, ⟨st.handles.length, s.row⟩, s.vector, s.eventId⟩]
    handles := st.handles ++ [⟨si, s.partId, s.row⟩]
    bytes := st.bytes + s.vector.length * 4 }

variable (shards : List (ReadShard × Snapshot))

/-- The shard and the snapshot at an index. The source stops where there is none. -/
def shardAt (si : Nat) :
    Result (ReadShard × Snapshot) :=
  match shards[si]? with
  | some shard => .ok shard
  | none => .error (.invariant s!"index {si} of {shards.length} shards")

def selectionOf (group : List (Nat × ShardCandidate)) : Selection :=
  group.map fun (_, c) => (c.partId, c.row)

def round2Shard (q : Query) (st : Round2) (item : Nat × List (Nat × ShardCandidate)) :
    Result Round2 := do
  let (si, group) := item
  let (shard, snap) ← shardAt shards si
  match shard.rerank snap q (selectionOf group) with
  | .ok scored =>
    let st := scored.foldl (Round2.add si) st
    return { st with requests := st.requests + 1 }
  | .error e => return { st with ledger := ← st.ledger.fail q si e.display }

/-- The rows whose events `finalize` asks for. -/
def neededRows (q : Query) (scored : List Scored) : List RowPos :=
  let scored := survivors q scored
  rowSet ((scored.take (if q.groupK.isSome then scored.length else q.k)).map (·.pos))

/-- The handle of a row. The source stops where there is none. -/
def handleOf (handles : List Handle) (pos : RowPos) : Except (Nat × PrismError) Handle :=
  match handles[pos.part]? with
  | some h => .ok h
  | none => .error (0, .invariant s!"index {pos.part} of {handles.length} handles")

def materializeShard (attempt : Nat) (item : Nat × List (RowPos × Handle)) :
    Except (Nat × PrismError) (List (RowPos × Event × Nat)) := do
  let (si, requests) := item
  let (shard, snap) ← (shardAt shards si).mapError (si, ·)
  let selected := requests.map fun (pos, h) => (h.partId, pos.row)
  let rows ← (shard.materialize attempt snap selected).mapError (si, ·)
  return (requests.zip rows).map fun ((pos, _), row) => (pos, row)

def materializeOn (handles : List Handle) (attempt : Nat) (needed : List RowPos) :
    Except (Nat × PrismError) Materialized := do
  let requests ← needed.mapM fun pos => do return (pos, ← handleOf handles pos)
  let byShard := (OrderedMap.groupBy (fun item : RowPos × Handle => item.2.shard) requests).toList
  let rows := (← byShard.mapM (materializeShard shards attempt)).flatten
  return rows.foldl (fun out (pos, value) => out.insert pos value) ∅

def materializeError (failure : Nat × PrismError) : PrismError :=
  .notFound s!"shard {failure.1} unreachable during survivor materialization: {failure.2.display}"

def labelled (missing : List MissingShard) (r : SearchResult) : SearchResult :=
  { r with
    counters := { r.counters with shardsMissing := missing.length }
    missingShards := Ranking.rank (compareOn MissingShard.shard) missing }

structure Final where
  env : QueryEnv
  shards : List (ReadShard × Snapshot)
  handles : List Handle
  tombstones : List String
  snapshotId : String
  query : Query
  genIds : List String
  counters : Counters

/-- Finalize; on a best-effort query, drop the scores of a shard that fails to materialize and
finalize again. There is no answer if the fuel runs out. -/
def finalizeLoop (f : Final) : Nat → Nat → List Scored → Ledger →
    Option (Result (SearchResult × Ledger))
  | 0, _, _, _ => none
  | fuel + 1, attempt, scored, ledger =>
    match materializeOn f.shards f.handles attempt (neededRows f.query scored) with
    | .ok _ => some do
      let r ← finalize f.env f.tombstones f.snapshotId f.query scored f.genIds f.counters
        fun needed => (materializeOn f.shards f.handles attempt needed).mapError materializeError
      return (labelled ledger.missing r, ledger)
    | .error (si, e) =>
      let gone := do
        let ledger ← ledger.fail f.query si e.display
        refusePartialGroup f.query ledger.missing
        return ledger
      match gone with
      | .error e => some (.error e)
      | .ok ledger =>
        let left := scored.filter fun s => (f.handles[s.pos.part]?).all (·.shard ≠ si)
        finalizeLoop f fuel (attempt + 1) left ledger

def rounds (env : QueryEnv) (dim : Nat) (shards : List ReadShard) (vector : List Snapshot)
    (q : Query) (missing : List MissingShard) : Result (Final × Round2) := do
  if shards.isEmpty ∨ vector.length ≠ shards.length then
    .error (.invalid "the coordinator needs one pinned snapshot per shard")
  let pinned := shards.zip vector
  let numbered := (List.range pinned.length).zip pinned
  let ledger ← numbered.foldlM (validateVector q) ⟨missing, []⟩
  let first ← numbered.foldlM (round1Shard q ledger) ⟨[], 0, ledger⟩
  let (global, exhausted) := boundGlobal dim q first.merged
  let byShard := (OrderedMap.groupBy Prod.fst global).toList
  let second ← byShard.foldlM (round2Shard pinned q) ⟨[], [], 0, 0, first.ledger⟩
  refusePartialGroup q second.ledger.missing
  let genIds := sortedSet (vector.filterMap (·.activeGeneration))
  if genIds.length > 1 then
    .error (.invariant <| "the pinned snapshot vector serves multiple active generations " ++
      debugSet genIds ++ "; every shard must install the same content-addressed generation " ++
      "before serving")
  let counters : Counters := {
    rerankWidth := global.length
    fetchBudgetExhausted := exhausted
    exactBytesFetched := second.bytes
    objectRequests := second.requests
    thresholdOverfetch := first.overfetch }
  return ({
    env, shards := pinned, handles := second.handles
    tombstones := sortedSet (vector.flatMap (·.tombstones))
    snapshotId := "+".intercalate (vector.map fun s => snapshotName s.snapshotId)
    query := q, genIds, counters }, second)

/-- Run a query against a pinned snapshot vector; the answer comes with the ledger. Every round of
the last loop drops a row, so the number of rows bounds them. -/
def run (env : QueryEnv) (dim : Nat) (shards : List ReadShard) (vector : List Snapshot) (q : Query)
    (missing : List MissingShard) : Option (Result (SearchResult × Ledger)) :=
  match rounds env dim shards vector q missing with
  | .error e => some (.error e)
  | .ok (f, second) => finalizeLoop f (second.scored.length + 1) 0 second.scored second.ledger

end Coordinator

def coordinateCrossShard (env : QueryEnv) (dim : Nat) (shards : List ReadShard)
    (vector : List Snapshot) (q : Query) (missing : List MissingShard) :
    Result SearchResult :=
  match Coordinator.run env dim shards vector q missing with
  | some answer => answer.map Prod.fst
  | none => .error (.invariant "a shard failed twice")

/-! ### The cluster -/

namespace Sharded

structure Shard where
  engine : Engine
  store : Store

structure Cluster where
  shards : List Shard
  scheme : PartitionScheme

structure ClusterCursor where
  snapshots : List SnapshotId
  position : Keyset
  deriving DecidableEq, Repr

namespace Cluster

variable (cluster : Cluster)

def shardIndex (tenant : String) : Nat :=
  cluster.scheme.bucketOrdinal (cluster.scheme.bucketOf tenant) % cluster.shards.length

def pinVector : Result (List Snapshot) :=
  cluster.shards.mapM fun shard => Catalog.currentIn shard.store

/-- The owner of a tenant, with its pinned snapshot. The source stops where there is none. -/
def ownerOf (vector : List Snapshot) (tenant : String) :
    Result (Shard × Snapshot) :=
  let owner := cluster.shardIndex tenant
  match (cluster.shards.zip vector)[owner]? with
  | some pinned => .ok pinned
  | none => .error (.invariant s!"index {owner} of {vector.length} snapshots")

/-- Answer a query against a pinned snapshot vector. A cluster has a shard. -/
def searchAtVector (env : QueryEnv) (vector : List Snapshot) (q : Query) :
    Result SearchResult :=
  match q.tenant with
  | some tenant => do
    let (shard, snap) ← cluster.ownerOf vector tenant
    shard.engine.searchAt env shard.store snap q
  | none =>
    match cluster.shards with
    | [] => .error (.invariant "index 0 of 0 shards")
    | first :: _ =>
      coordinateCrossShard env first.engine.config.dim
        (cluster.shards.map fun shard => shard.engine.readShard env shard.store) vector q []

def loadPinned (item : Nat × Shard × SnapshotId) : Result Snapshot :=
  let (si, shard, id) := item
  let name := snapshotName id
  (Catalog.loadSnapshotIn shard.store id).mapError fun _ => .notFound <|
    s!"the cursor's pinned snapshot vector is expired: shard {si}'s snapshot `{name}` has been " ++
    "reclaimed. Re-run the query to pin the current vector."

def loadVector (ids : List SnapshotId) : Result (List Snapshot) := do
  if ids.length ≠ cluster.shards.length then
    .error (.invalid "this cursor is for a cluster of a different shard count")
  ((List.range ids.length).zip (cluster.shards.zip ids)).mapM loadPinned

/-- The pinned vector of a page, and where the page before it ended. -/
def resolveVector (serde : CursorSerde ClusterCursor) (cursor : Option String) :
    Result (List Snapshot × Option Keyset) := do
  match cursor with
  | none => return (← cluster.pinVector, none)
  | some token =>
    let body ← decodeCursor serde token
    return (← cluster.loadVector body.snapshots, some body.position)

def hitKey (h : Hit) : Keyset := ⟨h.score, h.event.eventId⟩

/-- One page of a query. The whole answer, up to the rerank width, is computed for every page. -/
def searchPage (env : QueryEnv) (serde : CursorSerde ClusterCursor) (q : Query)
    (cursor : Option String) : Result (SearchResult × Option String) := do
  let (vector, cur) ← cluster.resolveVector serde cursor
  let result ← cluster.searchAtVector env vector { q with k := max q.rerank q.k }
  let (page, last) := pageOf hitKey cur q.k result.hits
  let next ← match last with
    | some h => some <$> encodeCursor serde ⟨vector.map (·.snapshotId), hitKey h⟩
    | none => .ok none
  return ({ result with hits := page }, next)

end Cluster

/-! ### Shards behind a network -/

/-- One pinned snapshot of a remote shard. On a best-effort query a shard that does not answer is
missing, and stands in the vector with nothing. -/
def pinShard (q : Query) (st : List Snapshot × List MissingShard) (item : Nat × Result Snapshot) :
    Result (List Snapshot × List MissingShard) :=
  match item.2 with
  | .ok snap => .ok (st.1 ++ [snap], st.2)
  | .error e =>
    if q.bestEffort then
      .ok (st.1 ++ [Snapshot.empty], st.2 ++ [⟨item.1, s!"snapshot pin failed: {e.display}"⟩])
    else .error (.notFound <| s!"shard {item.1} unreachable while pinning the distributed snapshot " ++
      s!"vector: {e.display}. The query did not opt in to a partial answer.")

def pinRemote (q : Query) (answers : List (Result Snapshot)) :
    Result (List Snapshot × List MissingShard) :=
  ((List.range answers.length).zip answers).foldlM (pinShard q) ([], [])

/-- A query without a tenant over remote shards; `answers` is what pinning got from each. -/
def searchRemote (env : QueryEnv) (dim : Nat) (shards : List ReadShard)
    (answers : List (Result Snapshot)) (q : Query) : Result SearchResult := do
  let (vector, missing) ← pinRemote q answers
  coordinateCrossShard env dim shards vector q missing

end Sharded

end Prism
