import Prism.Types.Predicate

/-!
The query the direct interface takes, and what a search answers (`prism-types/src/query.rs`).
-/

namespace Prism

def defaultNprobe : Nat := 11
def defaultCandidates : Nat := 50
def defaultRerank : Nat := 50
def adaptiveMaxNprobe : Nat := 16
def thresholdStateBudget : Nat := 100000

/-- `0.02`. -/
def adaptiveMargin : F32 := ⟨0x3CA3D70A⟩

/-- `0.30`. -/
def thresholdOverfetchMarginEpsilon : F32 := ⟨0x3E99999A⟩

structure Query where
  text : String
  tenant : Option String := none
  timeFrom : Option Int := none
  timeTo : Option Int := none
  k : Nat := 10
  nprobe : Nat := defaultNprobe
  candidates : Nat := defaultCandidates
  rerank : Nat := defaultRerank
  groupK : Option Nat := none
  predicate : Option Predicate := none
  space : Option String := none
  adaptive : Bool := true
  adaptiveMargin : Option F32 := none
  plan : Option String := none
  threshold : Option F32 := none
  forceRoute : Option String := none
  fetchBudgetBytes : Option Nat := none
  bestEffort : Bool := false
  deriving DecidableEq, Repr

/-- What the query physically did. -/
structure Counters where
  partsTotal : Nat := 0
  partsPruned : Nat := 0
  partsOpened : Nat := 0
  centroidsScored : Nat := 0
  rangesScanned : Nat := 0
  rowsScannedPq : Nat := 0
  pqBytesScanned : Nat := 0
  rowsPassingFilter : Nat := 0
  candidatesConsidered : Nat := 0
  rerankWidth : Nat := 0
  exactBytesFetched : Nat := 0
  exactVectorsFetched : Nat := 0
  rowsEligible : Nat := 0
  probesTaken : Nat := 0
  probesWidened : Nat := 0
  rerankRoute : String := ""
  plan : String := ""
  distancesComputed : Nat := 0
  predicateEvals : Nat := 0
  objectRequests : Nat := 0
  fetchBudgetExhausted : Bool := false
  thresholdOverfetch : Nat := 0
  shardsMissing : Nat := 0
  deriving DecidableEq, Repr

structure Hit where
  event : Event
  score : F32
  centroid : Nat
  deriving DecidableEq

/-- One semantic group. -/
structure ClusterSummary where
  clusterId : Nat
  count : Nat
  avgCost : F64
  errorRate : F64
  exemplar : Event
  memberIds : List String
  deriving DecidableEq

/-- A shard that a best-effort query dropped, and why. -/
structure MissingShard where
  shard : Nat
  reason : String
  deriving DecidableEq, Repr

structure SearchResult where
  hits : List Hit
  clusters : Option (List ClusterSummary)
  counters : Counters
  generations : List String
  bridge : Option String
  missingShards : List MissingShard
  snapshotId : String
  deriving DecidableEq

end Prism
