import Mathlib.Data.List.Sort
import Prism.Part.Partition

/-!
The merge scheduler: size tiers, the ripe ones of every partition, and the admission of their
merges under the budgets of a cycle (`prism-engine/src/scheduler.rs`).
-/

namespace Prism

def mergeTierFanout : Nat := 4
def mergeTierRatio : Nat := 4
def mergeTierBaseRows : Nat := 256
def mergeIoBudgetRows : Nat := 1000000
def mergeMaxOps : Nat := 16

/-- The first tier at or after `tier` whose bound covers `rows`. -/
def tierFrom (rows : Nat) : Nat → Nat → Nat → Nat
  | 0, tier, _ => tier
  | fuel + 1, tier, bound =>
    if bound < rows then tierFrom rows fuel (tier + 1) (bound * mergeTierRatio) else tier

/-- The size tier of a part: tier `t` covers up to `base · ratio ^ t` rows. -/
def tierOf (rows : Nat) : Nat := tierFrom rows rows 0 mergeTierBaseRows

structure MergeOp where
  partition : String
  tier : Nat
  partIds : List String
  inputRows : Nat
  reason : String
  deriving DecidableEq, Repr

structure MergePlan where
  ops : List MergeOp
  mergeDebt : Nat
  ioBudgetRows : Nat
  ioSpentRows : Nat
  deferredOps : Nat
  deriving DecidableEq, Repr

/-- The bucket as the derived `Debug` prints it. -/
def Bucket.debug : Bucket → String
  | .dedicated i => s!"Dedicated({i})"
  | .shared i => s!"Shared({i})"

def PartitionKey.describe (key : PartitionKey) : String :=
  s!"bucket={key.bucket.debug} window={key.window} generation={key.generation}"

def byTier (parts : List PartRef) : List (PartitionKey × List (Nat × List PartRef)) :=
  (OrderedMap.groupBy PartRef.partition parts).toList.map fun (key, members) =>
    (key, (OrderedMap.groupBy (fun p : PartRef => tierOf p.rows) members).toList)

def ripeOp (key : PartitionKey) (tier : Nat) (members : List PartRef) : Option (Bucket × MergeOp) :=
  if members.length ≥ mergeTierFanout then
    some (key.bucket,
      { partition := key.describe
        tier := tier
        partIds := (members.map (·.partId)).insertionSort fun a b => (compare a b).isLE
        inputRows := (members.map (·.rows)).sum
        reason := s!"tier {tier} holds {members.length} parts (>= fan-out {mergeTierFanout}); " ++
          "merging them into one graduates the tier and cuts part count by " ++
          s!"{members.length - 1}" })
  else none

/-- The smallest input first; ties go by the partition's description. -/
def opOrder (a b : MergeOp) : Bool :=
  ((compare a.inputRows b.inputRows).then (compare a.partition b.partition)).isLE

def mergeQueues (tiers : List (PartitionKey × List (Nat × List PartRef))) : List (List MergeOp) :=
  let ripe := tiers.flatMap fun (key, members) =>
    members.filterMap fun (tier, parts) => ripeOp key tier parts
  (OrderedMap.groupBy (fun op : Bucket × MergeOp => op.1.index) ripe).toList.map fun (_, ops) =>
    (ops.map Prod.snd).insertionSort fun a b => opOrder a b

structure CycleBudget where
  ops : List MergeOp
  ioSpent : Nat
  deferred : Nat

/-- The head of one queue is admitted, or it and the rest of its queue are deferred. -/
def CycleBudget.take (s : CycleBudget) : List MergeOp → CycleBudget × List MergeOp
  | [] => (s, [])
  | op :: rest =>
    if s.ops.length ≥ mergeMaxOps ∨ s.ioSpent + op.inputRows > mergeIoBudgetRows then
      ({ s with deferred := s.deferred + 1 + rest.length }, [])
    else ({ s with ops := s.ops ++ [op], ioSpent := s.ioSpent + op.inputRows }, rest)

/-- One merge of every bucket in turn, until the queues are empty. -/
def admitMerges : Nat → List (List MergeOp) → CycleBudget → CycleBudget
  | 0, _, s => s
  | fuel + 1, queues, s =>
    if queues.all List.isEmpty then s
    else
      let (s, queues) := queues.foldl (fun (s, done) queue =>
        let (s, rest) := s.take queue
        (s, done ++ [rest])) (s, [])
      admitMerges fuel queues s

def planMerges (parts : List PartRef) : MergePlan :=
  let tiers := byTier parts
  let debt := (tiers.flatMap fun (_, members) => members.map fun (_, ps) => ps.length - 1).sum
  let admitted := admitMerges parts.length (mergeQueues tiers) ⟨[], 0, 0⟩
  ⟨admitted.ops, debt, mergeIoBudgetRows, admitted.ioSpent, admitted.deferred⟩

end Prism
