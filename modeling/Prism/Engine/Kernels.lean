import Prism.Engine.World
import Prism.Lib.Ranking
import Prism.Types.Query

/-!
The arithmetic of the query path: vectors, the two codebooks of a generation, the routes of the
exact scores, probing and the physical strategies (`prism-types/src/vector.rs` and `query.rs`,
`prism-quantizer`, `prism-engine/src/gpu` and `plan.rs`).
-/

namespace Prism

structure FloatUnit where
  add32 : F32 → F32 → F32
  sub32 : F32 → F32 → F32
  mul32 : F32 → F32 → F32
  div32 : F32 → F32 → F32
  /-- `n as f32`. -/
  ofNat32 : Nat → F32
  div64 : F64 → F64 → F64
  /-- `iter().sum::<f64>()`. -/
  sum64 : List F64 → F64
  /-- `{}` of an `f32`. -/
  display32 : F32 → String

namespace F32

def one : F32 := ⟨0x3F800000⟩
def two : F32 := ⟨0x40000000⟩
def sixty : F32 := ⟨0x42700000⟩
def infinity : F32 := ⟨0x7F800000⟩

end F32

namespace FloatUnit

def dot (fu : FloatUnit) (a b : Vector32) : F32 :=
  (a.zip b).foldl (fun acc (x, y) => fu.add32 acc (fu.mul32 ⟨x⟩ ⟨y⟩)) F32.zero

/-- The tree reduction of a device; `fuel` bounds its depth. -/
def dotPairwise (fu : FloatUnit) : Nat → List (UInt32 × UInt32) → F32
  | _, [] => F32.zero
  | _, [(x, y)] => fu.mul32 ⟨x⟩ ⟨y⟩
  | 0, _ => F32.zero
  | fuel + 1, pairs =>
    let mid := pairs.length / 2
    fu.add32 (fu.dotPairwise fuel (pairs.take mid)) (fu.dotPairwise fuel (pairs.drop mid))

def l2Sq (fu : FloatUnit) (a b : Vector32) : F32 :=
  (a.zip b).foldl (fun acc (x, y) =>
    let d := fu.sub32 ⟨x⟩ ⟨y⟩
    fu.add32 acc (fu.mul32 d d)) F32.zero

end FloatUnit

/-- The index of the element at the least distance, the first of them on a tie. -/
def nearest {α : Type} (dist : α → F32) (xs : List α) : Nat :=
  ((List.range xs.length).zip xs).foldl (fun (best : Nat × F32) (i, x) =>
    if (dist x).below best.2 then (i, dist x) else best) (0, F32.infinity) |>.1

theorem nearest_lt {α : Type} (dist : α → F32) {xs : List α} (some : 0 < xs.length) :
    nearest dist xs < xs.length := by
  have stays (pairs : List (Nat × α)) (inside : ∀ p ∈ pairs, p.1 < xs.length)
      (best : Nat × F32) (start : best.1 < xs.length) :
      (pairs.foldl (fun (best : Nat × F32) (i, x) =>
        if (dist x).below best.2 then (i, dist x) else best) best).1 < xs.length := by
    induction pairs generalizing best with
    | nil => exact start
    | cons p pairs ih =>
      apply ih fun q hq => inside q (List.mem_cons_of_mem p hq)
      dsimp only
      split
      · exact inside p List.mem_cons_self
      · exact start
  apply stays _ _ _ some
  intro p hp
  exact List.mem_range.mp (List.of_mem_zip hp).1

/-! ### Codebooks -/

/-- What the quantizer crate makes of the codebooks of a generation, and its clustering. -/
structure Codebooks where
  centroids : Generation → List Vector32
  pqDim : Generation → Nat
  pqM : Generation → Nat
  codeword : Generation → Nat → UInt8 → Vector32
  kmeans : List Vector32 → Nat → Result (List Vector32)

abbrev AdcTable := Bytes → F32

namespace Codebooks

def distance (cb : Codebooks) (fu : FloatUnit) (g : Generation) (q : Vector32) : AdcTable :=
  fun code =>
    let sub := cb.pqDim g / cb.pqM g
    ((List.range code.length).zip code).foldl (fun acc (j, c) =>
      fu.add32 acc (fu.l2Sq ((q.drop (j * sub)).take sub) (cb.codeword g j c))) F32.zero

def adcTable (cb : Codebooks) (fu : FloatUnit) (g : Generation) (q : Vector32) :
    Result AdcTable :=
  if q.length ≠ cb.pqDim g then
    .error (.invalid s!"query has {q.length} dims, codebook has {cb.pqDim g}")
  else .ok (cb.distance fu g q)

/-- `partial_cmp` where the values compare, and equal where they do not. -/
def distanceOrder (a b : Nat × F32) : Ordering :=
  ((a.2.toF64.partialCmp b.2.toF64).getD .eq).then (compare a.1 b.1)

def rank (cb : Codebooks) (fu : FloatUnit) (g : Generation) (q : Vector32) : List (Nat × F32) :=
  let centroids := cb.centroids g
  Ranking.rank distanceOrder
    (((List.range centroids.length).zip centroids).map fun (c, point) => (c, fu.l2Sq q point))

end Codebooks

/-! ### Probing -/

/-- How many of the distances from the `count`-th on are within the widened boundary. -/
def widen (boundary : F32) : Nat → List F32 → Nat
  | 0, _ => 0
  | _, [] => 0
  | left + 1, d :: rest => if d.atMost boundary then widen boundary left rest + 1 else 0

/-- The probe count of a query: at least the base, more where the next centroids are nearly as
close. -/
def adaptiveNprobe (fu : FloatUnit) (dists : List F32) (base : Nat) (margin : F32) (limit : Nat) :
    Nat :=
  let base := min base dists.length
  if base = 0 then 0
  else
    let boundary := dists.getD (base - 1) F32.zero
    let cap := min (max limit base) dists.length
    base + widen (fu.mul32 boundary (fu.add32 F32.one margin)) (cap - base) (dists.drop base)

/-! ### Routes -/

inductive Route where
  | cpu
  | gpuReference
  | cuda
  deriving DecidableEq, Repr

namespace Route

def name : Route → String
  | .cpu => "cpu"
  | .gpuReference => "gpu-reference"
  | .cuda => "cuda"

def isDevice : Route → Bool
  | .cpu => false
  | _ => true

def forced : String → Route
  | "gpu-reference" => .gpuReference
  | "cuda" => .cuda
  | _ => .cpu

end Route

/-- With no device there is nothing to choose: the route is the forced one, or the processor. -/
def planRoute (forced : Option Route) : Route := forced.getD .cpu

def rerankScore (fu : FloatUnit) (route : Route) (query vector : Vector32) : F32 :=
  if route.isDevice then fu.dotPairwise query.length (query.zip vector) else fu.dot query vector

/-! ### Strategies -/

inductive Strategy where
  | interleaved
  | scalarFirst
  | semanticFirst
  deriving DecidableEq, Repr

namespace Strategy

def name : Strategy → String
  | .interleaved => "interleaved"
  | .scalarFirst => "scalar-first"
  | .semanticFirst => "semantic-first"

def parse : String → Option Strategy
  | "interleaved" => some .interleaved
  | "scalar-first" => some .scalarFirst
  | "semantic-first" => some .semanticFirst
  | _ => none

end Strategy

/-- The optimizer: how selective a query looks from the share of its tenant and from a sample, and
which strategy costs least. It decides how the work is done. -/
structure CostModel where
  selectivity (tenantShare sample : Option (Nat × Nat)) : F64
  cheapest (probedRows : Nat) (selectivity : F64) (candidates : Nat) : Strategy

structure QueryEnv where
  floats : FloatUnit
  codebooks : Codebooks
  costs : CostModel
  embedQuery : Embedder → Option String → String → Result Vector32
  /-- Whether a tenant may put this many bytes on the device. -/
  deviceAdmits : String → Nat → Bool

end Prism
