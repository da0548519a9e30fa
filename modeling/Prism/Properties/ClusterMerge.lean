import Mathlib.Data.Prod.Lex
import Mathlib.Data.String.Basic
import Prism.Lib.Ranking
import Prism.Properties.AdmissionLog

/-!
# Partial cluster aggregates

`shard_and_reduce` and `merge_partials` of `cluster.rs`: shards of the rows are reduced to one partial
state per cluster, and the partial states are merged in the order of the shards.
-/

namespace Prism

variable {δ : Type} [LinearOrder δ]

structure ExemplarCandidate (δ : Type) where
  dist : δ
  event : Event

namespace ExemplarCandidate

def worseThan (self other : ExemplarCandidate δ) : Bool :=
  match compare self.dist other.dist with
  | .gt => true
  | .lt => false
  | .eq => other.event.eventId < self.event.eventId

def place (cand : ExemplarCandidate δ) : δ ×ₗ String := toLex (cand.dist, cand.event.eventId)

theorem worseThan_iff {self other : ExemplarCandidate δ} :
    self.worseThan other = true ↔ other.place < self.place := by
  rw [worseThan, place, place, Prod.Lex.toLex_lt_toLex]
  cases order : compare self.dist other.dist with
  | lt => simp [(compare_lt_iff_lt.mp order).not_gt, (compare_lt_iff_lt.mp order).ne']
  | eq => simp [compare_eq_iff_eq.mp order]
  | gt => simp [compare_gt_iff_gt.mp order]

/-- A candidate replaces the one held unless it is worse. -/
def replaces (cand cur : ExemplarCandidate δ) : Bool := !cand.worseThan cur

theorem replaces_iff (cand cur : ExemplarCandidate δ) :
    cand.replaces cur = true ↔ cand.place ≤ cur.place := by
  rw [replaces, Bool.not_eq_true', ← Bool.not_eq_true, worseThan_iff, not_lt]

end ExemplarCandidate

open ExemplarCandidate OrderedMap Ranking

structure PartialCluster (δ : Type) where
  count : Nat := 0
  costSum : F64 := ⟨0⟩
  errorCount : Nat := 0
  exemplar : Option (ExemplarCandidate δ) := none

structure Partial (δ : Type) where
  shardId : Nat
  clusters : List (PartialCluster δ)

section Reduction

variable (addCost : F64 → F64 → F64) (nearest : List UInt32 → Nat) (dist : List UInt32 → Nat → δ)
  (k : Nat)

def PartialCluster.absorb (pc : PartialCluster δ) (cand : ExemplarCandidate δ) : PartialCluster δ where
  count := pc.count + 1
  costSum := addCost pc.costSum cand.event.cost
  errorCount := if cand.event.error then pc.errorCount + 1 else pc.errorCount
  exemplar := offer replaces pc.exemplar cand

def PartialCluster.merge (merged pc : PartialCluster δ) : PartialCluster δ where
  count := merged.count + pc.count
  costSum := addCost merged.costSum pc.costSum
  errorCount := merged.errorCount + pc.errorCount
  exemplar := pc.exemplar.elim merged.exemplar (offer replaces merged.exemplar)

def candidate (row : RowIn) : ExemplarCandidate δ := ⟨dist row.vector (nearest row.vector), row.event⟩

/-- The clusters of one shard. -/
def reduce (rows : List RowIn) : List (PartialCluster δ) :=
  rows.foldl (fun clusters row =>
    clusters.modify (nearest row.vector) (·.absorb addCost (candidate nearest dist row)))
    (List.replicate k {})

def shardAndReduce (shards : List (List RowIn)) : List (Partial δ) :=
  shards.zipIdx.map fun (rows, shardId) => ⟨shardId, reduce addCost nearest dist k rows⟩

def mergePartials (partials : List (Partial δ)) : List (PartialCluster δ) :=
  (rank (compareOn Partial.shardId) partials).foldl (fun merged p =>
    merged.mapIdx fun c pc => ((p.clusters[c]?).map (pc.merge addCost)).getD pc)
    (List.replicate k {})

def members (c : Nat) (rows : List RowIn) : List (ExemplarCandidate δ) :=
  (rows.filter (nearest ·.vector = c)).map (candidate nearest dist)

end Reduction

/-- What is compared: the sum of the costs depends on the order of the additions. -/
def PartialCluster.exact (pc : PartialCluster δ) : Nat × Nat × Option (ExemplarCandidate δ) :=
  (pc.count, pc.errorCount, pc.exemplar)

def tally (xs : List (ExemplarCandidate δ)) : Nat × Nat × Option (ExemplarCandidate δ) :=
  (xs.length, xs.countP (·.event.error), winner replaces xs)

variable {addCost : F64 → F64 → F64} {nearest : List UInt32 → Nat} {dist : List UInt32 → Nat → δ}
  {k : Nat} {pc other : PartialCluster δ} {xs ys : List (ExemplarCandidate δ)}

theorem absorb_exact (held : pc.exact = tally xs) (cand : ExemplarCandidate δ) :
    (pc.absorb addCost cand).exact = tally (xs ++ [cand]) := by
  simp only [PartialCluster.exact, tally, Prod.mk.injEq] at held ⊢
  obtain ⟨count, errors, exemplar⟩ := held
  refine ⟨by simp [PartialCluster.absorb, count], ?_, ?_⟩
  · cases error : cand.event.error <;> simp [PartialCluster.absorb, errors, error]
  · simp [PartialCluster.absorb, exemplar, winner]

theorem merge_exact (held : pc.exact = tally xs) (new : other.exact = tally ys) :
    (pc.merge addCost other).exact = tally (xs ++ ys) := by
  simp only [PartialCluster.exact, tally, Prod.mk.injEq] at held new ⊢
  obtain ⟨count, errors, exemplar⟩ := held
  obtain ⟨count', errors', exemplar'⟩ := new
  refine ⟨by simp [PartialCluster.merge, count, count'],
    by simp [PartialCluster.merge, errors, errors'], ?_⟩
  simp only [winner_append (ρ := δ ×ₗ String) replaces_iff, PartialCluster.merge, exemplar, exemplar']

/-- The clusters count, each, the rows nearest to it. -/
structure Sums (nearest : List UInt32 → Nat) (dist : List UInt32 → Nat → δ) (k : Nat)
    (rows : List RowIn) (clusters : List (PartialCluster δ)) : Prop where
  length : clusters.length = k
  exact : ∀ c pc, clusters[c]? = some pc → pc.exact = tally (members nearest dist c rows)

theorem sums_nil : Sums nearest dist k [] (List.replicate k {}) where
  length := List.length_replicate
  exact c pc found := by
    rw [List.getElem?_replicate] at found
    split at found
    · cases found
      rfl
    · cases found

theorem reduce_sums (rows : List RowIn) :
    Sums nearest dist k rows (reduce addCost nearest dist k rows) := by
  induction rows using List.reverseRecOn with
  | nil => exact sums_nil
  | append_singleton rows row ih =>
    rw [reduce, List.foldl_concat, ← reduce]
    refine ⟨by simp [ih.length], fun c pc found => ?_⟩
    rw [List.getElem?_modify] at found
    obtain ⟨before, there, rfl⟩ := Option.map_eq_some_iff.mp found
    by_cases own : nearest row.vector = c
    · simpa [own, members] using absorb_exact (ih.exact c before there) _
    · simpa [own, members] using ih.exact c before there

theorem merge_sums {rows shard : List RowIn} {merged clusters : List (PartialCluster δ)}
    (sums : Sums nearest dist k rows merged) (new : Sums nearest dist k shard clusters) :
    Sums nearest dist k (rows ++ shard)
      (merged.mapIdx fun c pc => ((clusters[c]?).map (pc.merge addCost)).getD pc) := by
  refine ⟨by simp [sums.length], fun c pc found => ?_⟩
  rw [List.getElem?_mapIdx] at found
  obtain ⟨before, there, rfl⟩ := Option.map_eq_some_iff.mp found
  have inside : c < clusters.length := by
    rw [new.length, ← sums.length]
    exact (List.getElem?_eq_some_iff.mp there).1
  have own := List.getElem?_eq_getElem inside
  simpa [own, members] using merge_exact (sums.exact c before there) (new.exact c _ own)

theorem Sums.map_exact {rows : List RowIn} {clusters : List (PartialCluster δ)}
    (sums : Sums nearest dist k rows clusters) : clusters.map PartialCluster.exact =
      (List.range k).map fun c => tally (members nearest dist c rows) := by
  refine List.ext_getElem (by simp [sums.length]) fun c inside _ => ?_
  simpa using sums.exact c _ (List.getElem?_eq_getElem (by simpa using inside))

theorem mergePartials_sums {shards : List (List RowIn)} {arrived : List (Partial δ)}
    (perm : arrived.Perm (shardAndReduce addCost nearest dist k shards)) :
    Sums nearest dist k shards.flatten (mergePartials addCost k arrived) := by
  have ids : (shardAndReduce addCost nearest dist k shards).map Partial.shardId =
      List.range' 0 shards.length := by
    simp [shardAndReduce, Function.comp_def]
  have sorted : rank (compareOn Partial.shardId) arrived =
      shardAndReduce addCost nearest dist k shards := by
    have apart : Separates (compareOn Partial.shardId)
        (shardAndReduce addCost nearest dist k shards) :=
      fun a inside b there tie => List.inj_on_of_nodup_map (ids ▸ List.nodup_range') inside there
        (Nat.compare_eq_eq.mp tie)
    rw [rank_eq_of_perm (apart.perm perm.symm) perm]
    refine rank_of_pairwise apart ?_
    have ascending := @List.pairwise_le_range' 0 shards.length 1
    rw [← ids, List.pairwise_map] at ascending
    exact ascending.imp fun le => Nat.isLE_compare.mpr le
  -- Over any rows merged before: the ids are not looked at any more.
  have run : ∀ (shards : List (List RowIn)) (first : Nat) (rows : List RowIn)
      (merged : List (PartialCluster δ)), Sums nearest dist k rows merged →
      Sums nearest dist k (rows ++ shards.flatten) (((shards.zipIdx first).map fun (rows, shardId) =>
        (⟨shardId, reduce addCost nearest dist k rows⟩ : Partial δ)).foldl (fun merged p =>
          merged.mapIdx fun c pc => ((p.clusters[c]?).map (pc.merge addCost)).getD pc) merged) := by
    intro shards
    induction shards with
    | nil => exact fun _ rows merged sums => by simpa using sums
    | cons shard shards ih =>
      intro first rows merged sums
      rw [List.flatten_cons, ← List.append_assoc]
      exact ih (first + 1) _ _ (merge_sums sums (reduce_sums shard))
  rw [mergePartials, sorted]
  exact run shards 0 [] _ sums_nil

/-- **Partial cluster aggregates merge exactly.** However the rows are cut into shards and in
whatever order the partial states arrive, every cluster has the count, the errors and the exemplar
of one reduction over all rows, and no row of the cluster is nearer than the exemplar, or as near
with a smaller id. -/
theorem cluster_partials_merge (addCost : F64 → F64 → F64) (nearest : List UInt32 → Nat)
    (dist : List UInt32 → Nat → δ) (k : Nat) (shards : List (List RowIn)) (arrived : List (Partial δ))
    (perm : arrived.Perm (shardAndReduce addCost nearest dist k shards)) :
    (mergePartials addCost k arrived).map PartialCluster.exact =
        (reduce addCost nearest dist k shards.flatten).map PartialCluster.exact ∧
      ∀ c pc, (mergePartials addCost k arrived)[c]? = some pc →
        (pc.exemplar = none → members nearest dist c shards.flatten = []) ∧
        ∀ e, pc.exemplar = some e → e ∈ members nearest dist c shards.flatten ∧
          ∀ m ∈ members nearest dist c shards.flatten, e.worseThan m = false := by
  have merged := mergePartials_sums perm
  refine ⟨merged.map_exact.trans (reduce_sums _).map_exact.symm, fun c pc found => ?_⟩
  have own : pc.exemplar = winner replaces (members nearest dist c shards.flatten) :=
    congrArg (·.2.2) (merged.exact c pc found)
  constructor
  · intro nothing
    simpa [← own, nothing] using
      @winner_isSome_iff _ replaces (members nearest dist c shards.flatten)
  · intro e some
    obtain ⟨inside, least⟩ := winner_min (ρ := δ ×ₗ String) replaces_iff (own.symm.trans some)
    refine ⟨inside, fun m mem => ?_⟩
    rw [← Bool.not_eq_true, worseThan_iff, not_lt]
    exact least m mem

theorem cluster_partials_merge_reversed :
    (mergePartials (fun a _ => a) 1 (shardAndReduce (fun a _ => a) (fun _ => 0) (fun v _ => v.length) 1
      [[⟨sampleEvent "a", 0, [], [0]⟩], [⟨sampleEvent "b", 0, [], []⟩]]).reverse).map
        PartialCluster.exact = [(2, 0, some ⟨0, sampleEvent "b"⟩)] :=
  (cluster_partials_merge _ _ _ _ _ _ (List.reverse_perm _)).1.trans rfl

end Prism
