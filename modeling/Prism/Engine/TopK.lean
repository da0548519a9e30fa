import Prism.Lib.BoundedHeap
import Prism.Types.Float32

/-!
The candidates of a scan and what collects them: a bounded selection of the nearest, or everything
within a threshold (`prism-engine/src/topk.rs` and the collectors of `search.rs`).
-/

namespace Prism

structure Candidate where
  dist : F32
  part : Nat
  row : Nat
  deriving DecidableEq, Repr

abbrev IdOf := Nat → Nat → String

namespace Candidate

/-- Larger distance is worse; on a tie the larger id is. -/
def worse (idOf : IdOf) (a b : Candidate) : Ordering :=
  (a.dist.totalCmp b.dist).then (compare (idOf a.part a.row) (idOf b.part b.row))

end Candidate

/-- A bounded selection of the nearest candidates: a heap with the worst one at its root. -/
structure TopK where
  cap : Nat
  heap : Array Candidate
  deriving DecidableEq, Repr

namespace TopK

def new (cap : Nat) : TopK := ⟨cap, #[]⟩

def offer (idOf : IdOf) (t : TopK) (c : Candidate) : TopK :=
  { t with heap := BoundedHeap.offer (Candidate.worse idOf) t.cap t.heap c }

def wouldAdmit (t : TopK) (dist : F32) : Bool :=
  if t.heap.size < t.cap then true
  else
    match t.heap[0]? with
    | some worst => dist.totalCmp worst.dist ≠ .gt
    | none => true

end TopK

/-- Keeps every candidate within the relaxed bound, up to a budget. -/
structure ThresholdCollector where
  exactBound : F32
  relaxedBound : F32
  budget : Nat
  kept : List Candidate
  overfetch : Nat
  overflowed : Bool
  deriving DecidableEq, Repr

def ThresholdCollector.offer (t : ThresholdCollector) (c : Candidate) : ThresholdCollector :=
  if c.dist.above t.relaxedBound then t
  else if t.kept.length ≥ t.budget then { t with overflowed := true }
  else
    { t with
      overfetch := if c.dist.above t.exactBound then t.overfetch + 1 else t.overfetch
      kept := t.kept ++ [c] }

inductive Collector where
  | bounded (top : TopK)
  | threshold (th : ThresholdCollector)
  deriving DecidableEq, Repr

namespace Collector

def offer (idOf : IdOf) (c : Candidate) : Collector → Collector
  | .bounded t => .bounded (t.offer idOf c)
  | .threshold th => .threshold (th.offer c)

/-- A row past the bound can never be kept. -/
def wouldAdmit (dist : F32) : Collector → Bool
  | .bounded t => t.wouldAdmit dist
  | .threshold th => dist.atMost th.relaxedBound

def overflowed : Collector → Bool
  | .bounded _ => false
  | .threshold th => th.overflowed

def overfetch : Collector → Nat
  | .bounded _ => 0
  | .threshold th => th.overfetch

def candidates : Collector → List Candidate
  | .bounded t => t.heap.toList
  | .threshold th => th.kept

def intoSorted (idOf : IdOf) (c : Collector) : List Candidate :=
  Ranking.rank (Candidate.worse idOf) c.candidates

end Collector

end Prism
