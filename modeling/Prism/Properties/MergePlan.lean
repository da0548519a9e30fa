import Mathlib.Algebra.BigOperators.Group.List.Lemmas
import Mathlib.Algebra.Order.BigOperators.Group.List
import Mathlib.Algebra.Order.Ring.Nat
import Prism.Engine.Scheduler
import Prism.Lib.Ranking

/-!
The plan of a merge cycle. Every ripe tier has one merge, which is admitted or deferred once; a
cycle stays within its budgets, and round by round takes the cheapest merge of every queue.
-/

namespace Prism

open OrderedMap

/-! ### Tiers -/

def PartRef.tier (p : PartRef) : PartitionKey × Nat := (p.partition, tierOf p.rows)

def tierParts (parts : List PartRef) (t : PartitionKey × Nat) : List PartRef :=
  parts.filter (·.tier = t)

def tierRows (parts : List PartRef) (t : PartitionKey × Nat) : Nat :=
  ((tierParts parts t).map (·.rows)).sum

def tiersOf (parts : List PartRef) : List (PartitionKey × Nat) := (parts.map PartRef.tier).dedup

def ripeTiers (parts : List PartRef) : List (PartitionKey × Nat) :=
  (tiersOf parts).filter fun t => mergeTierFanout ≤ (tierParts parts t).length

def mergeOf (parts : List PartRef) (t : PartitionKey × Nat) : Option (Bucket × MergeOp) :=
  ripeOp t.1 t.2 (tierParts parts t)

def ripeMerges (parts : List PartRef) : List (Bucket × MergeOp) :=
  (tiersOf parts).filterMap (mergeOf parts)

variable {parts : List PartRef}

theorem mem_tiersOf {t : PartitionKey × Nat} : t ∈ tiersOf parts ↔ ∃ p ∈ parts, p.tier = t := by
  rw [tiersOf, List.mem_dedup, List.mem_map]

theorem filter_tier (key : PartitionKey) (tier : Nat) :
    (parts.filter (·.partition = key)).filter (tierOf ·.rows = tier) =
      tierParts parts (key, tier) := by
  simp [List.filter_filter, tierParts, PartRef.tier, Bool.and_comm]

/-- The tiers of all partitions are the groups of the parts by partition and tier. -/
theorem byTier_perm (parts : List PartRef) :
    ((byTier parts).flatMap fun of => of.2.map fun tier => ((of.1, tier.1), tier.2)).Perm
      ((tiersOf parts).map fun t => (t, tierParts parts t)) := by
  have outer := nodup_keys (groupBy PartRef.partition parts)
  rw [List.nodup_iff_pairwise_ne, List.pairwise_map] at outer
  rw [byTier, List.flatMap_map, List.perm_ext_iff_of_nodup]
  · rintro ⟨⟨key, tier⟩, ps⟩
    simp only [List.mem_flatMap, List.mem_map, Prod.exists, mem_groupBy_iff, mem_tiersOf,
      Prod.mk.injEq]
    constructor
    · rintro ⟨key, _, ⟨-, rfl⟩, tier, _, ⟨⟨p, inside, rfl⟩, rfl⟩, ⟨rfl, rfl⟩, rfl⟩
      obtain ⟨mem, own⟩ := List.mem_filter.mp inside
      refine ⟨key, tierOf p.rows, ⟨p, mem, ?_⟩, ⟨rfl, rfl⟩, (filter_tier _ _).symm⟩
      simp [PartRef.tier, of_decide_eq_true own]
    · rintro ⟨_, _, ⟨p, mem, own⟩, ⟨rfl, rfl⟩, rfl⟩
      obtain ⟨rfl, rfl⟩ := Prod.mk.inj own
      exact ⟨_, _, ⟨⟨p, mem, rfl⟩, rfl⟩, _, _, ⟨⟨p, by simp [mem], rfl⟩, rfl⟩, ⟨rfl, rfl⟩,
        filter_tier _ _⟩
  · rw [List.nodup_flatMap]
    constructor
    · intro group _
      refine (nodup_keys _).of_map.map ?_
      rintro ⟨a, xs⟩ ⟨b, ys⟩ same
      simpa using same
    · refine outer.imp fun {a b} differ => ?_
      rintro entry left right
      obtain ⟨_, -, rfl⟩ := List.mem_map.mp left
      obtain ⟨_, -, same⟩ := List.mem_map.mp right
      exact differ (congrArg (·.1.1) same).symm
  · exact (List.nodup_dedup _).map fun _ _ same => congrArg Prod.fst same

/-! ### Merges -/

/-- What the merge of a tier says of it. -/
theorem mergeOf_eq_some {t : PartitionKey × Nat} {ripe : Bucket × MergeOp}
    (made : mergeOf parts t = some ripe) :
    mergeTierFanout ≤ (tierParts parts t).length ∧ ripe.1 = t.1.bucket ∧
      ripe.2.partition = t.1.describe ∧ ripe.2.tier = t.2 ∧
      ripe.2.partIds.Perm ((tierParts parts t).map (·.partId)) ∧
      ripe.2.inputRows = tierRows parts t := by
  simp only [mergeOf, ripeOp] at made
  split at made
  · next ripe =>
    cases made
    exact ⟨ripe, rfl, rfl, rfl, List.perm_insertionSort _ _, rfl⟩
  · cases made

theorem isSome_mergeOf (t : PartitionKey × Nat) :
    (mergeOf parts t).isSome = decide (mergeTierFanout ≤ (tierParts parts t).length) := by
  simp only [mergeOf, ripeOp]
  split
  · next ripe => simp [ripe]
  · next few => simp [few]

theorem length_ripeMerges (parts : List PartRef) :
    (ripeMerges parts).length = (ripeTiers parts).length := by
  rw [ripeMerges, List.length_filterMap_eq_countP, List.countP_eq_length_filter, ripeTiers]
  simp only [isSome_mergeOf]

/-- A ripe merge is that of a ripe tier. -/
theorem mem_ripeMerges {ripe : Bucket × MergeOp} :
    ripe ∈ ripeMerges parts ↔ ∃ t ∈ ripeTiers parts, mergeOf parts t = some ripe := by
  rw [ripeMerges, List.mem_filterMap]
  constructor
  · rintro ⟨t, known, made⟩
    exact ⟨t, List.mem_filter.mpr ⟨known, decide_eq_true (mergeOf_eq_some made).1⟩, made⟩
  · rintro ⟨t, ripe, made⟩
    exact ⟨t, (List.mem_filter.mp ripe).1, made⟩

theorem flatMap_ripeOp_perm (parts : List PartRef) : ((byTier parts).flatMap fun (key, members) =>
      members.filterMap fun (tier, ps) => ripeOp key tier ps).Perm (ripeMerges parts) := by
  have merges := (byTier_perm parts).filterMap fun of => ripeOp of.1.1 of.1.2 of.2
  rw [List.filterMap_map, List.filterMap_flatMap] at merges
  simp only [List.filterMap_map] at merges
  exact merges

/-- The queues hold the merges of all ripe tiers. -/
theorem mergeQueues_perm (parts : List PartRef) :
    (mergeQueues (byTier parts)).flatten.Perm ((ripeMerges parts).map Prod.snd) := by
  refine .trans ?_ ((flatMap_ripeOp_perm parts).map Prod.snd)
  have grouped := groupBy_perm (fun op : Bucket × MergeOp => op.1.index)
  refine .trans ?_ ((grouped _).map Prod.snd)
  rw [List.map_flatMap, mergeQueues, ← List.flatMap_def]
  exact List.Perm.flatMap_left _ fun group _ => List.perm_insertionSort _ _

/-- A queue holds the merges of one bucket number, the cheapest first. -/
theorem ascending_of_mem (tiers : List (PartitionKey × List (Nat × List PartRef)))
    {queue : List MergeOp} (queued : queue ∈ mergeQueues tiers) :
    queue.Pairwise (·.inputRows ≤ ·.inputRows) := by
  obtain ⟨group, -, rfl⟩ := List.mem_map.mp queued
  have ranked := @Ranking.rank_pairwise _ (compareLex (compareOn MergeOp.inputRows)
    (compareOn MergeOp.partition)) _ (group.2.map Prod.snd)
  refine List.Pairwise.imp ?_ ranked
  intro a b le
  simp only [compareLex, compareOn, Ordering.isLE_then_iff_or] at le
  rcases le with lt | ⟨eq, -⟩
  · exact (Nat.compare_eq_lt.mp lt).le
  · exact (Nat.compare_eq_eq.mp eq).le

/-! ### Debt -/

theorem sum_length_tierParts (parts : List PartRef) :
    ((tiersOf parts).map fun t => (tierParts parts t).length).sum = parts.length := by
  have counted := List.sum_map_count_dedup_eq_length (parts.map PartRef.tier)
  rw [List.length_map] at counted
  rw [← counted]
  congr 1
  refine List.map_congr_left fun t _ => ?_
  rw [tierParts, ← List.countP_eq_length_filter]
  simp only [List.count, List.countP_map, Function.comp_def, Bool.beq_eq_decide_eq]

/-- The debt is what the tiers hold beyond one part each. -/
theorem mergeDebt_planMerges (parts : List PartRef) :
    (planMerges parts).mergeDebt = parts.length - (tiersOf parts).length := by
  have spread : ((byTier parts).flatMap fun (_, members) =>
      members.map fun (_, ps) => ps.length - 1).Perm
      ((tiersOf parts).map fun t => (tierParts parts t).length - 1) := by
    have sizes := (byTier_perm parts).map fun of => of.2.length - 1
    simpa only [List.map_flatMap, List.map_map, Function.comp_def] using sizes
  have excess : ∀ ts : List (PartitionKey × Nat), (∀ t ∈ ts, tierParts parts t ≠ []) →
      (ts.map fun t => (tierParts parts t).length - 1).sum + ts.length =
        (ts.map fun t => (tierParts parts t).length).sum := by
    intro ts held
    induction ts with
    | nil => rfl
    | cons t ts ih =>
      have some := List.length_pos_iff.mpr (held t List.mem_cons_self)
      have rest := ih fun t mem => held t (List.mem_cons_of_mem _ mem)
      simp only [List.map_cons, List.sum_cons, List.length_cons]
      omega
  have total := excess (tiersOf parts) fun t known => by
    obtain ⟨p, mem, own⟩ := mem_tiersOf.mp known
    exact List.ne_nil_of_mem (List.mem_filter.mpr ⟨mem, decide_eq_true own⟩)
  rw [sum_length_tierParts] at total
  change ((byTier parts).flatMap _).sum = _
  rw [spread.sum_eq]
  omega

/-! ### Admission -/

def CycleBudget.turn (now : CycleBudget × List (List MergeOp)) (queue : List MergeOp) :
    CycleBudget × List (List MergeOp) :=
  ((now.1.take queue).1, now.2 ++ [(now.1.take queue).2])

theorem admitMerges_succ (fuel : Nat) (queues : List (List MergeOp)) (s : CycleBudget) :
    admitMerges (fuel + 1) queues s =
      if queues.all List.isEmpty then s
      else admitMerges fuel (queues.foldl CycleBudget.turn (s, [])).2
        (queues.foldl CycleBudget.turn (s, [])).1 := rfl

/-- A round leaves of every queue at most what is behind its head. -/
theorem mem_rounded {queues done : List (List MergeOp)} {s : CycleBudget} {left : List MergeOp}
    (mem : left ∈ (queues.foldl CycleBudget.turn (s, done)).2) :
    left ∈ done ∨ ∃ queue ∈ queues, left.Sublist queue.tail := by
  induction queues generalizing s done with
  | nil => exact .inl mem
  | cons queue queues ih =>
    rcases ih mem with before | ⟨later, known, part⟩
    · rcases List.mem_append.mp before with before | own
      · exact .inl before
      · refine .inr ⟨queue, List.mem_cons_self, ?_⟩
        rw [List.mem_singleton.mp own]
        cases queue with
        | nil => exact List.Sublist.refl _
        | cons op rest =>
          simp only [CycleBudget.take]
          split <;> simp
    · exact .inr ⟨later, List.mem_cons_of_mem _ known, part⟩

structure CycleBudget.Sound (all waiting : List MergeOp) (s : CycleBudget) : Prop where
  few : s.ops.length ≤ mergeMaxOps
  spent : s.ioSpent = (s.ops.map (·.inputRows)).sum
  within : s.ioSpent ≤ mergeIoBudgetRows
  counted : s.ops.length + s.deferred + waiting.length = all.length
  drawn : (s.ops ++ waiting).Subperm all
  passed : s.ops = [] → ∀ op ∈ all, op ∈ waiting ∨ mergeIoBudgetRows < op.inputRows

abbrev Ascending (queue : List MergeOp) : Prop := queue.Pairwise (·.inputRows ≤ ·.inputRows)

namespace CycleBudget.Sound

variable {all waiting : List MergeOp} {s : CycleBudget}

theorem perm {other : List MergeOp} (sound : s.Sound all waiting) (same : waiting.Perm other) :
    s.Sound all other :=
  ⟨sound.few, sound.spent, sound.within, same.length_eq ▸ sound.counted,
    (same.append_left _).symm.subperm.trans sound.drawn,
    fun none op known => (sound.passed none op known).imp_left same.mem_iff.mp⟩

theorem take {queue : List MergeOp} (sorted : Ascending queue)
    (sound : s.Sound all (queue ++ waiting)) :
    (s.take queue).1.Sound all ((s.take queue).2 ++ waiting) := by
  cases queue with
  | nil => exact sound
  | cons op rest =>
    obtain ⟨few, spent, within, counted, drawn, passed⟩ := sound
    obtain ⟨least, -⟩ := List.pairwise_cons.mp sorted
    simp only [List.length_append, List.length_cons] at counted
    simp only [CycleBudget.take]
    split
    · next refused =>
      refine ⟨few, spent, within, by simp; omega, .trans ?_ drawn, ?_⟩
      · exact ((List.sublist_append_right _ _).append_left _).subperm
      · -- The head does not fit, and the rest of its queue costs no less.
        intro (none : s.ops = []) other known
        have large : mergeIoBudgetRows < op.inputRows := by
          simpa [spent, none, mergeMaxOps] using refused
        rcases passed none other known with inside | past
        · rcases List.mem_append.mp inside with own | later
          · rcases List.mem_cons.mp own with rfl | behind
            · exact .inr large
            · exact .inr (large.trans_le (least other behind))
          · exact .inl later
        · exact .inr past
    · next fits =>
      rw [not_or] at fits
      refine ⟨?_, by simp [spent], by simp only; omega, ?_, by simpa using drawn, by simp⟩
      · simp only [List.length_append, List.length_singleton]
        omega
      · simp only [List.length_append, List.length_singleton]
        omega

/-- One round over the queues. -/
theorem round {queues : List (List MergeOp)} (done : List (List MergeOp))
    (sorted : ∀ queue ∈ queues, Ascending queue)
    (sound : s.Sound all (done.flatten ++ queues.flatten)) :
    (queues.foldl turn (s, done)).1.Sound all (queues.foldl turn (s, done)).2.flatten := by
  induction queues generalizing s done with
  | nil => simpa using sound
  | cons queue queues ih =>
    obtain ⟨first, later⟩ := List.forall_mem_cons.mp sorted
    rw [List.flatten_cons] at sound
    have turned := (sound.perm (List.perm_append_comm_assoc _ _ _)).take first
    refine ih _ later (turned.perm ?_)
    simpa using List.perm_append_comm_assoc _ _ _

/-- The whole admission: every round shortens each queue, so the fuel is enough. -/
theorem admitMerges {fuel : Nat} {queues : List (List MergeOp)}
    (sorted : ∀ queue ∈ queues, Ascending queue) (enough : ∀ queue ∈ queues, queue.length ≤ fuel)
    (sound : s.Sound all queues.flatten) : (admitMerges fuel queues s).Sound all [] := by
  induction fuel generalizing s queues with
  | zero => exact sound.perm (.of_eq (List.flatten_eq_nil_iff.mpr (by simpa using enough)))
  | succ fuel ih =>
    rw [admitMerges_succ]
    split
    · next empty => exact sound.perm (.of_eq (List.flatten_eq_nil_iff.mpr (by simpa using empty)))
    · refine ih (fun left mem => ?_) (fun left mem => ?_) (round [] sorted sound)
      · obtain ⟨queue, known, part⟩ := (mem_rounded mem).resolve_left (by simp)
        exact (sorted queue known).sublist (part.trans (List.tail_sublist queue))
      · obtain ⟨queue, known, part⟩ := (mem_rounded mem).resolve_left (by simp)
        have short := part.length_le
        have long := enough queue known
        rw [List.length_tail] at short
        omega

end CycleBudget.Sound

theorem sound_start (parts : List PartRef) :
    CycleBudget.Sound ((ripeMerges parts).map Prod.snd) (mergeQueues (byTier parts)).flatten
      ⟨[], 0, 0⟩ := by
  have all := mergeQueues_perm parts
  exact ⟨Nat.zero_le _, rfl, Nat.zero_le _, by simpa using all.length_eq,
    by simpa using all.subperm, fun _ op mem => .inl (all.mem_iff.mpr mem)⟩

/-- What a plan comes to. -/
theorem planMerges_sound (parts : List PartRef) :
    CycleBudget.Sound ((ripeMerges parts).map Prod.snd) []
      ⟨(planMerges parts).ops, (planMerges parts).ioSpentRows, (planMerges parts).deferredOps⟩ := by
  refine (sound_start parts).admitMerges (fun queue => ascending_of_mem _) fun queue queued => ?_
  have part := (List.sublist_flatten_of_mem queued).length_le
  have tiers : (ripeMerges parts).length ≤ (tiersOf parts).length := List.length_filterMap_le _ _
  have groups : (tiersOf parts).length ≤ parts.length := by
    rw [← List.length_map PartRef.tier]
    exact (List.dedup_sublist _).length_le
  rw [(mergeQueues_perm parts).length_eq, List.length_map] at part
  omega

/-- A planned merge is that of a ripe tier. -/
theorem exists_ripe_of_planned {op : MergeOp} (planned : op ∈ (planMerges parts).ops) :
    ∃ t ∈ ripeTiers parts, ∃ b, mergeOf parts t = some (b, op) := by
  have drawn : op ∈ (ripeMerges parts).map Prod.snd :=
    (planMerges_sound parts).drawn.subset (List.mem_append_left _ planned)
  obtain ⟨ripe, known, rfl⟩ := List.mem_map.mp drawn
  obtain ⟨t, ripe, made⟩ := mem_ripeMerges.mp known
  exact ⟨t, ripe, _, made⟩

/-- A planned merge reads live parts only. -/
theorem planMerges_reads_live {op : MergeOp} (planned : op ∈ (planMerges parts).ops) :
    ∀ id ∈ op.partIds, ∃ r ∈ parts, r.partId = id := by
  obtain ⟨t, -, b, made⟩ := exists_ripe_of_planned planned
  obtain ⟨-, -, -, -, ids, -⟩ := mergeOf_eq_some made
  intro id read
  obtain ⟨r, mem, named⟩ := List.mem_map.mp (ids.mem_iff.mp read)
  exact ⟨r, List.mem_of_mem_filter mem, named⟩

/-- Merges of different tiers read different parts. -/
theorem disjoint_merges (distinct : (parts.map (·.partId)).Nodup) :
    ((ripeMerges parts).map Prod.snd).Pairwise fun a b => a.partIds.Disjoint b.partIds := by
  rw [List.pairwise_map, ripeMerges, List.pairwise_filterMap]
  refine (List.nodup_dedup _).imp fun {t u} differ a madeA b madeB => ?_
  obtain ⟨-, -, -, -, left, -⟩ := mergeOf_eq_some madeA
  obtain ⟨-, -, -, -, right, -⟩ := mergeOf_eq_some madeB
  intro id inA inB
  obtain ⟨p, inP, rfl⟩ := List.mem_map.mp (left.mem_iff.mp inA)
  obtain ⟨q, inQ, same⟩ := List.mem_map.mp (right.mem_iff.mp inB)
  obtain ⟨memP, ownP⟩ := List.mem_filter.mp inP
  obtain ⟨memQ, ownQ⟩ := List.mem_filter.mp inQ
  obtain rfl := List.inj_on_of_nodup_map distinct memQ memP same
  exact differ ((of_decide_eq_true ownP).symm.trans (of_decide_eq_true ownQ))

/-- A plan takes whole ripe tiers, no part twice, within both budgets; it admits or defers each of
them once, and its debt counts the parts beyond one a tier. -/
theorem merge_plan_well_formed {parts : List PartRef} (distinct : (parts.map (·.partId)).Nodup) :
    (planMerges parts).ops.Pairwise (fun a b => a.partIds.Disjoint b.partIds) ∧
      (∀ op ∈ (planMerges parts).ops, ∃ t ∈ ripeTiers parts, op.tier = t.2 ∧
        op.partition = t.1.describe ∧ op.partIds.Perm ((tierParts parts t).map (·.partId)) ∧
        op.inputRows = tierRows parts t) ∧
      (planMerges parts).ops.length ≤ mergeMaxOps ∧
      (planMerges parts).ioSpentRows = ((planMerges parts).ops.map (·.inputRows)).sum ∧
      (planMerges parts).ioSpentRows ≤ mergeIoBudgetRows ∧
      (planMerges parts).ops.length + (planMerges parts).deferredOps = (ripeTiers parts).length ∧
      (planMerges parts).mergeDebt = parts.length - (tiersOf parts).length := by
  have sound := planMerges_sound parts
  have drawn : (planMerges parts).ops.Subperm ((ripeMerges parts).map Prod.snd) := by
    simpa using sound.drawn
  refine ⟨?_, fun op admitted => ?_, sound.few, sound.spent, sound.within, ?_,
    mergeDebt_planMerges parts⟩
  · obtain ⟨ops, same, part⟩ := drawn
    exact ((disjoint_merges distinct).sublist part).perm same fun apart => apart.symm
  · obtain ⟨t, ripe, b, made⟩ := exists_ripe_of_planned admitted
    obtain ⟨-, -, described, tier, ids, rows⟩ := mergeOf_eq_some made
    exact ⟨t, ripe, tier, described, ids, rows⟩
  · simpa [length_ripeMerges] using sound.counted

/-- A ripe tier: four parts of as many rows each. -/
def fanout (name : String) (bucket : Bucket) (rows : Nat) : List PartRef :=
  ["0", "1", "2", "3"].map fun i => ⟨name ++ i, ⟨bucket, 0, "g"⟩, rows, ["t"], 0, 0⟩

theorem merge_plan_well_formed_fanout :
    (planMerges (fanout "a" (.shared 0) 1)).ops.length +
      (planMerges (fanout "a" (.shared 0) 1)).deferredOps = 1 := by
  have distinct : ((fanout "a" (.shared 0) 1).map (·.partId)).Nodup := by decide
  exact (merge_plan_well_formed distinct).2.2.2.2.2.1

/-- A cycle admits a merge exactly when some ripe tier fits the row budget by itself. -/
theorem merge_progress_iff (parts : List PartRef) :
    (planMerges parts).ops ≠ [] ↔ ∃ t ∈ ripeTiers parts, tierRows parts t ≤ mergeIoBudgetRows := by
  have sound := planMerges_sound parts
  constructor
  · intro some
    obtain ⟨op, admitted⟩ := List.exists_mem_of_ne_nil _ some
    obtain ⟨t, ripe, b, made⟩ := exists_ripe_of_planned admitted
    obtain ⟨-, -, -, -, -, rows⟩ := mergeOf_eq_some made
    have part := List.le_sum_of_mem (List.mem_map_of_mem (f := MergeOp.inputRows) admitted)
    exact ⟨t, ripe, by rw [← rows]; exact part.trans (sound.spent.symm.le.trans sound.within)⟩
  · rintro ⟨t, ripe, fits⟩ none
    obtain ⟨op, made⟩ := Option.isSome_iff_exists.mp
      ((isSome_mergeOf t).trans (List.mem_filter.mp ripe).2)
    have known : op.2 ∈ (ripeMerges parts).map Prod.snd :=
      List.mem_map_of_mem (mem_ripeMerges.mpr ⟨t, ripe, made⟩)
    obtain ⟨-, -, -, -, -, rows⟩ := mergeOf_eq_some made
    have past := sound.passed none op.2 known
    simp only [List.not_mem_nil, false_or, rows] at past
    omega

/-- A tier of four parts of 300000 rows each waits in every cycle. -/
theorem merge_progress_stalls : ripeTiers (fanout "a" (.shared 0) 300000) ≠ [] ∧
    (planMerges (fanout "a" (.shared 0) 300000)).ops = [] := by
  decide +kernel

/-! ### Fairness -/

/-- The description of a partition names its bucket. -/
theorem bucket_of_describe {k k' : PartitionKey} (same : k.describe = k'.describe) :
    k.bucket = k'.bucket := by
  have number : ∀ {i j : Nat} {r r' : List Char},
      Nat.toDigits 10 i ++ ')' :: r = Nat.toDigits 10 j ++ ')' :: r' → i = j := by
    intro i j r r' same
    have digits : ∀ (n : Nat) (rest : List Char),
        (Nat.toDigits 10 n ++ ')' :: rest).takeWhile (·.isDigit) = Nat.toDigits 10 n := by
      intro n rest
      have all : ∀ c ∈ Nat.toDigits 10 n, c.isDigit = true := fun c =>
        Nat.isDigit_of_mem_toDigits (by decide) (by decide)
      rw [List.takeWhile_append_of_pos all, List.takeWhile_cons_of_neg (by decide), List.append_nil]
    have chars := congrArg (List.takeWhile (·.isDigit)) same
    rw [digits, digits] at chars
    simpa [Nat.ofDigitChars_ten_toDigits] using congrArg (Nat.ofDigitChars 10 · 0) chars
  have chars := congrArg String.toList same
  simp only [PartitionKey.describe, String.toList_append, toString] at chars
  cases left : k.bucket <;> cases right : k'.bucket <;>
    simp [left, right, Bucket.debug, String.toList_append, toString, Nat.repr] at chars
  · rw [number chars]
  · rw [number chars]

variable {b b' : Bucket} {op : MergeOp}

theorem bucket_unique (left : (b, op) ∈ ripeMerges parts) (right : (b', op) ∈ ripeMerges parts) :
    b = b' := by
  obtain ⟨t, -, madeT⟩ := mem_ripeMerges.mp left
  obtain ⟨u, -, madeU⟩ := mem_ripeMerges.mp right
  obtain ⟨-, rfl, name, -⟩ := mergeOf_eq_some madeT
  obtain ⟨-, rfl, name', -⟩ := mergeOf_eq_some madeU
  exact bucket_of_describe (name.symm.trans name')

theorem exists_part_of_ripe (known : (b, op) ∈ ripeMerges parts) :
    ∃ p ∈ parts, p.partition.bucket = b := by
  obtain ⟨t, ripe, made⟩ := mem_ripeMerges.mp known
  obtain ⟨p, mem, rfl⟩ := mem_tiersOf.mp (List.mem_filter.mp ripe).1
  exact ⟨p, mem, (mergeOf_eq_some made).2.1.symm⟩

/-- The queues by bucket number. -/
theorem exists_queues (parts : List PartRef) : ∃ numbered : List (Nat × List MergeOp),
    mergeQueues (byTier parts) = numbered.map Prod.snd ∧ (numbered.map Prod.fst).Nodup ∧
      ∀ op, ∀ i, (∃ queue, (i, queue) ∈ numbered ∧ op ∈ queue) ↔
        ∃ b, (b, op) ∈ ripeMerges parts ∧ b.index = i := by
  set ripe := (byTier parts).flatMap fun (key, members) =>
    members.filterMap fun (tier, ps) => ripeOp key tier ps with named
  have same : ripe.Perm (ripeMerges parts) := flatMap_ripeOp_perm parts
  set groups := (groupBy (fun op : Bucket × MergeOp => op.1.index) ripe).toList
  refine ⟨groups.map fun group =>
    (group.1, (group.2.map Prod.snd).insertionSort fun a b => opOrder a b), ?_, ?_, ?_⟩
  · rw [List.map_map]
    rfl
  · rw [List.map_map]
    exact nodup_keys _
  · intro op i
    simp only [List.mem_map, Prod.mk.injEq, Prod.exists, groups, mem_groupBy_iff]
    constructor
    · rintro ⟨_, ⟨_, _, ⟨-, rfl⟩, rfl, rfl⟩, mem⟩
      rw [(List.perm_insertionSort _ _).mem_iff] at mem
      obtain ⟨⟨b, _⟩, inside, rfl⟩ := List.mem_map.mp mem
      obtain ⟨known, own⟩ := List.mem_filter.mp inside
      exact ⟨b, same.mem_iff.mp known, of_decide_eq_true own⟩
    · rintro ⟨b, known, rfl⟩
      have known := same.mem_iff.mpr known
      refine ⟨_, ⟨_, _, ⟨⟨b, op, known, rfl⟩, rfl⟩, rfl, rfl⟩, ?_⟩
      rw [(List.perm_insertionSort _ _).mem_iff]
      exact List.mem_map.mpr ⟨(b, op), List.mem_filter.mpr ⟨known, by simp⟩, rfl⟩

/-- A round tries the head of every queue: it is admitted, or there is no room for it. -/
theorem round_tries (queues done : List (List MergeOp)) (s : CycleBudget) :
    ∃ new, (queues.foldl CycleBudget.turn (s, done)).1.ops = s.ops ++ new ∧
      new.Sublist (queues.filterMap List.head?) ∧
      s.ioSpent ≤ (queues.foldl CycleBudget.turn (s, done)).1.ioSpent ∧
      ∀ op rest, op :: rest ∈ queues → op ∈ new ∨
        mergeMaxOps ≤ (s.ops ++ new).length ∨
        mergeIoBudgetRows < (queues.foldl CycleBudget.turn (s, done)).1.ioSpent + op.inputRows := by
  induction queues generalizing s done with
  | nil => exact ⟨[], by simp⟩
  | cons queue queues ih =>
    rw [List.foldl_cons]
    cases queue with
    | nil =>
      obtain ⟨new, ops, heads, spent, tried⟩ := ih (done ++ [[]]) s
      exact ⟨new, ops, by simpa [List.filterMap_cons] using heads, spent,
        fun op rest known => tried op rest (by simpa using known)⟩
    | cons op rest =>
      by_cases refused : s.ops.length ≥ mergeMaxOps ∨ s.ioSpent + op.inputRows > mergeIoBudgetRows
      · have stops : CycleBudget.turn (s, done) (op :: rest) =
            ({ s with deferred := s.deferred + 1 + rest.length }, done ++ [[]]) := by
          simp [CycleBudget.turn, CycleBudget.take, refused]
        rw [stops]
        obtain ⟨new, ops, heads, spent, tried⟩ :=
          ih (done ++ [[]]) { s with deferred := s.deferred + 1 + rest.length }
        refine ⟨new, ops, heads.trans (by simp), spent, ?_⟩
        simp only [List.mem_cons, List.cons.injEq]
        rintro other behind (⟨rfl, -⟩ | later)
        · rw [List.length_append]
          exact .inr (refused.imp (fun full => by omega) fun wide => by simp only at spent; omega)
        · exact tried other behind later
      · have goes : CycleBudget.turn (s, done) (op :: rest) =
            ({ s with ops := s.ops ++ [op], ioSpent := s.ioSpent + op.inputRows },
              done ++ [rest]) := by
          simp [CycleBudget.turn, CycleBudget.take, refused]
        rw [goes]
        obtain ⟨new, ops, heads, spent, tried⟩ := ih (done ++ [rest])
          { s with ops := s.ops ++ [op], ioSpent := s.ioSpent + op.inputRows }
        refine ⟨op :: new, by simpa using ops, by simpa [List.filterMap_cons] using heads,
          by simp only at spent; omega, ?_⟩
        simp only [List.mem_cons, List.cons.injEq]
        rintro other behind (⟨rfl, -⟩ | later)
        · exact .inl (.inl rfl)
        · exact (tried other behind later).imp .inr (by simp)

theorem admitMerges_extends (fuel : Nat) (queues : List (List MergeOp)) (s : CycleBudget) :
    s.ops <+: (admitMerges fuel queues s).ops := by
  induction fuel generalizing queues s with
  | zero => exact List.prefix_refl _
  | succ fuel ih =>
    rw [admitMerges_succ]
    split
    · exact List.prefix_refl _
    · obtain ⟨new, ops, -⟩ := round_tries queues [] s
      exact (ops ▸ List.prefix_append s.ops new).trans (ih _ _)

/-- Once a second merge of a bucket is admitted, every other bucket with a ripe tier that fits the
rows left at that point has an admitted merge too. -/
def FairPlan (parts : List PartRef) : Prop :=
  ∀ b before op after, (planMerges parts).ops = before ++ op :: after →
    (b, op) ∈ ripeMerges parts → (∃ first ∈ before, (b, first) ∈ ripeMerges parts) →
    ∀ b' ≠ b, ∀ other, (b', other) ∈ ripeMerges parts →
      (before.map (·.inputRows)).sum + other.inputRows ≤ mergeIoBudgetRows →
      ∃ admitted ∈ (planMerges parts).ops, (b', admitted) ∈ ripeMerges parts

/-- The first round over the queues of a plan. -/
theorem exists_first_round (parts : List PartRef) (some : (planMerges parts).ops ≠ []) :
    ∃ heads : List MergeOp, heads <+: (planMerges parts).ops ∧
      heads.Pairwise (fun a c => ∀ x y, (x, a) ∈ ripeMerges parts → (y, c) ∈ ripeMerges parts →
        x.index ≠ y.index) ∧
      ∀ b op, (b, op) ∈ ripeMerges parts → ∃ first, (∃ x, (x, first) ∈ ripeMerges parts ∧
          x.index = b.index) ∧ first.inputRows ≤ op.inputRows ∧
        (first ∈ heads ∨ mergeMaxOps ≤ heads.length ∨
          mergeIoBudgetRows < (heads.map (·.inputRows)).sum + first.inputRows) := by
  obtain ⟨numbered, queues, keys, members⟩ := exists_queues parts
  have sorted : ∀ queue ∈ mergeQueues (byTier parts), Ascending queue := fun _ => ascending_of_mem _
  change (admitMerges parts.length (mergeQueues (byTier parts)) ⟨[], 0, 0⟩).ops ≠ [] at some
  change ∃ heads : List MergeOp,
    heads <+: (admitMerges parts.length (mergeQueues (byTier parts)) ⟨[], 0, 0⟩).ops ∧ _
  rw [queues] at some sorted ⊢
  cases fuel : parts.length with
  | zero => simp [fuel, admitMerges] at some
  | succ fuel =>
    rw [fuel, admitMerges_succ] at some
    rw [admitMerges_succ]
    split_ifs at some ⊢ with empty
    · simp at some
    · have spent := ((queues ▸ sound_start parts).round [] sorted).spent
      obtain ⟨new, ops, heads, -, tried⟩ := round_tries (numbered.map Prod.snd) [] ⟨[], 0, 0⟩
      simp only [List.nil_append] at ops tried
      rw [ops] at spent
      refine ⟨new, ops ▸ admitMerges_extends _ _ _, List.Pairwise.sublist heads ?_, ?_⟩
      · rw [List.filterMap_map, List.pairwise_filterMap]
        rw [List.nodup_iff_pairwise_ne, List.pairwise_map] at keys
        refine keys.imp_of_mem fun {q q'} inQ inQ' differ a headA c headC x y knownX knownY same =>
          ?_
        obtain ⟨x', knownX', own⟩ := (members a q.1).mp ⟨q.2, inQ, List.mem_of_mem_head? headA⟩
        obtain ⟨y', knownY', own'⟩ := (members c q'.1).mp ⟨q'.2, inQ', List.mem_of_mem_head? headC⟩
        rw [← bucket_unique knownX knownX'] at own
        rw [← bucket_unique knownY knownY'] at own'
        exact differ (own.symm.trans (same.trans own'))
      · intro b op known
        obtain ⟨queue, listed, inside⟩ := (members op b.index).mpr ⟨b, known, rfl⟩
        cases queue with
        | nil => cases inside
        | cons first rest =>
          have queued := List.mem_map_of_mem (f := Prod.snd) listed
          refine ⟨first, (members first b.index).mp ⟨_, listed, List.mem_cons_self⟩, ?_, ?_⟩
          · rcases List.mem_cons.mp inside with rfl | behind
            · exact le_rfl
            · exact (List.pairwise_cons.mp (sorted _ queued)).1 op behind
          · exact spent ▸ tried first rest queued

/-- With one number for each bucket in use, no bucket has a second merge while another waits for its
first. -/
theorem fairPlan_of_distinct
    (distinct : ∀ p ∈ parts, ∀ q ∈ parts, p.partition.bucket.index = q.partition.bucket.index →
      p.partition.bucket = q.partition.bucket) : FairPlan parts := by
  rintro b before op after split known ⟨first, earlier, knownFirst⟩ b' differ other knownOther fits
  obtain ⟨heads, opened, apart, tried⟩ := exists_first_round parts (by simp [split])
  have sound := planMerges_sound parts
  -- The second merge of a bucket comes after the first round.
  have later : heads <+: before := by
    rw [split] at opened
    rcases List.prefix_or_prefix_of_prefix opened (List.prefix_append before (op :: after)) with
      inside | outside
    · exact inside
    · obtain ⟨more, rfl⟩ := outside
      cases more with
      | nil => simp
      | cons op' more =>
        obtain ⟨rest, same⟩ := opened
        simp only [List.append_assoc, List.append_cancel_left_eq, List.cons_append,
          List.cons.injEq] at same
        obtain ⟨rfl, -⟩ := same
        exact absurd rfl ((List.pairwise_append.mp apart).2.2 first earlier op' List.mem_cons_self
          b b knownFirst known)
  obtain ⟨head, ⟨x, knownHead, number⟩, cheap, admitted | full | wide⟩ := tried b' other knownOther
  · obtain ⟨p, inP, rfl⟩ := exists_part_of_ripe knownHead
    obtain ⟨q, inQ, rfl⟩ := exists_part_of_ripe knownOther
    exact ⟨head, opened.subset admitted, distinct p inP q inQ number ▸ knownHead⟩
  · have few := sound.few
    have short := later.length_le
    simp only [split, List.length_append, List.length_cons] at few
    omega
  · have part := (later.sublist.map (·.inputRows)).sum_le_sum fun _ _ => Nat.zero_le _
    omega

/-- Two ripe tiers of a loud bucket and a larger one of a quiet bucket. -/
def crowd (loud quiet : Bucket) : List PartRef :=
  fanout "a" loud 1 ++ fanout "b" loud 150000 ++ fanout "c" quiet 175000

theorem ripeMerges_crowd {loud quiet : Bucket} (differ : loud ≠ quiet) : ∃ small large other,
      ripeMerges (crowd loud quiet) = [(loud, small), (loud, large), (quiet, other)] ∧
      small.inputRows = 4 ∧ large.inputRows = 600000 ∧ other.inputRows = 700000 := by
  have tiers : tierOf 1 = 0 ∧ tierOf 150000 = 5 ∧ tierOf 175000 = 5 := by decide
  have known : tiersOf (crowd loud quiet) =
      [(⟨loud, 0, "g"⟩, 0), (⟨loud, 0, "g"⟩, 5), (⟨quiet, 0, "g"⟩, 5)] := by
    simp [tiersOf, crowd, fanout, PartRef.tier, tiers, differ]
  have first : tierParts (crowd loud quiet) (⟨loud, 0, "g"⟩, 0) = fanout "a" loud 1 := by
    simp [tierParts, crowd, fanout, PartRef.tier, tiers]
  have second : tierParts (crowd loud quiet) (⟨loud, 0, "g"⟩, 5) = fanout "b" loud 150000 := by
    simp [tierParts, crowd, fanout, PartRef.tier, tiers, differ.symm]
  have third : tierParts (crowd loud quiet) (⟨quiet, 0, "g"⟩, 5) = fanout "c" quiet 175000 := by
    simp [tierParts, crowd, fanout, PartRef.tier, tiers, differ]
  rw [ripeMerges, known]
  simp [mergeOf, ripeOp, first, second, third, fanout, mergeTierFanout]

/-- Merges of one bucket number make one queue. -/
theorem mergeQueues_eq_singleton {i : Nat} (some : ripeMerges parts ≠ [])
    (numbered : ∀ op ∈ ripeMerges parts, op.1.index = i) :
    ∃ queue, mergeQueues (byTier parts) = [queue] := by
  have same := flatMap_ripeOp_perm parts
  rw [mergeQueues]
  set ripe := (byTier parts).flatMap fun (key, members) =>
    members.filterMap fun (tier, ps) => ripeOp key tier ps
  have single : (groupBy (fun op : Bucket × MergeOp => op.1.index) ripe).toList.Perm
      [(i, ripe)] := by
    rw [List.perm_ext_iff_of_nodup (nodup_keys _).of_map (List.nodup_singleton _)]
    rintro ⟨k, group⟩
    have whole : ripe.filter (·.1.index = i) = ripe :=
      List.filter_eq_self.mpr fun op mem => decide_eq_true (numbered op (same.mem_iff.mp mem))
    rw [mem_groupBy_iff, List.mem_singleton, Prod.mk.injEq]
    constructor
    · rintro ⟨⟨op, mem, rfl⟩, rfl⟩
      rw [numbered op (same.mem_iff.mp mem)]
      exact ⟨rfl, whole⟩
    · rintro ⟨rfl, rfl⟩
      obtain ⟨op, mem⟩ := List.exists_mem_of_ne_nil _ some
      exact ⟨⟨op, same.mem_iff.mpr mem, numbered op mem⟩, whole.symm⟩
  rw [List.perm_singleton.mp single]
  exact ⟨_, rfl⟩

theorem not_fairPlan_crowd {loud quiet : Bucket} (differ : loud ≠ quiet)
    (same : loud.index = quiet.index) : ¬ FairPlan (crowd loud quiet) := by
  obtain ⟨small, large, other, merges, rowsA, rowsB, rowsC⟩ := ripeMerges_crowd differ
  -- All three wait in one queue, in the order of their rows.
  have queue : mergeQueues (byTier (crowd loud quiet)) = [[small, large, other]] := by
    have all := mergeQueues_perm (crowd loud quiet)
    obtain ⟨queue, single⟩ : ∃ queue, mergeQueues (byTier (crowd loud quiet)) = [queue] :=
      mergeQueues_eq_singleton (i := loud.index) (by simp [merges]) (by simp [merges, same])
    rw [single, merges, List.flatten_singleton] at all
    have sorted : Ascending queue := ascending_of_mem _ (single ▸ List.mem_singleton_self queue)
    rw [single, List.Perm.eq_of_pairwise ?_ sorted ?_ all]
    · simp
    · intro a c inA inC le le'
      simp only [all.mem_iff, List.map_cons, List.map_nil, List.mem_cons, List.not_mem_nil,
        or_false] at inA inC
      rcases inA with rfl | rfl | rfl <;> rcases inC with rfl | rfl | rfl <;> first | rfl | omega
    · simp [rowsA, rowsB, rowsC]
  have run : admitMerges 12 [[small, large, other]] ⟨[], 0, 0⟩ = ⟨[small, large], 600004, 1⟩ := by
    simp [admitMerges, CycleBudget.take, rowsA, rowsB, rowsC, mergeMaxOps, mergeIoBudgetRows]
  have ops : (planMerges (crowd loud quiet)).ops = [small, large] := by
    have length : (crowd loud quiet).length = 12 := by simp [crowd, fanout]
    simp only [planMerges, queue, length, run]
  intro fair
  obtain ⟨admitted, mem, known⟩ := fair loud [small] large [] ops (by simp [merges])
    ⟨small, by simp, by simp [merges]⟩ quiet differ.symm other (by simp [merges])
    (by simp [rowsA, rowsC, mergeIoBudgetRows])
  have own : (loud, admitted) ∈ ripeMerges (crowd loud quiet) := by
    rw [ops] at mem
    rw [merges]
    rcases List.mem_pair.mp mem with rfl | rfl <;> simp
  exact differ (bucket_unique own known)

/-- Whatever buckets are in use, all their plans are fair exactly when no two of them have one
number. -/
theorem merge_fairness_iff (used : Bucket → Prop) :
    (∀ parts, (∀ p ∈ parts, used p.partition.bucket) → FairPlan parts) ↔
      ∀ b b', used b → used b' → b.index = b'.index → b = b' := by
  constructor
  · intro fair b b' usedB usedB' same
    by_contra differ
    refine not_fairPlan_crowd differ same (fair _ fun p mem => ?_)
    have own : p.partition.bucket = b ∨ p.partition.bucket = b' := by
      simp only [crowd, fanout, List.map_cons, List.map_nil, List.mem_append, List.mem_cons,
        List.not_mem_nil, or_false] at mem
      aesop
    rcases own with own | own <;> rw [own] <;> assumption
  · intro distinct parts inUse
    exact fairPlan_of_distinct fun p inP q inQ => distinct _ _ (inUse p inP) (inUse q inQ)

/-- A shared bucket of the number of a dedicated one takes its turn. -/
theorem merge_fairness_shared_dedicated : ¬ FairPlan (crowd (.shared 0) (.dedicated 0)) :=
  not_fairPlan_crowd (by decide) rfl

end Prism
