import Mathlib.Data.Prod.Lex
import Mathlib.Data.String.Basic
import Prism.Engine.Merge

/-!
What the reconciliation of a full merge computes from the rows of the parts: in every partition
each event id keeps one row, and the order of the parts decides only between rows of one rank.
-/

namespace Prism

open OrderedMap

variable {generation : String} {key : PartitionKey}

/-! ### The order of the rows of one id -/

/-- The time of an event, and its content hash among events of one time. -/
def RowIn.rank (r : RowIn) : Int ×ₗ String := toLex (r.event.eventTime, r.event.contentHash)

def RowIn.beats (new old : RowIn) : Bool := supersedes new.event old.event

theorem beats_orders : OrdersBy RowIn.beats RowIn.rank := by
  intro new old
  unfold RowIn.beats supersedes RowIn.rank
  rw [Prod.Lex.toLex_lt_toLex]
  cases times : compare new.event.eventTime old.event.eventTime with
  | gt =>
    have later := compare_gt_iff_gt.mp times
    simp [later]
  | lt =>
    have earlier := compare_lt_iff_lt.mp times
    simp [not_lt_of_gt earlier, ne_of_gt earlier]
  | eq =>
    have same := compare_eq_iff_eq.mp times
    simp only [same, lt_self_iff_false, true_and, false_or, Ordering.isGT_iff_eq_gt]
    exact compare_gt_iff_gt

theorem reconcileRow_fst (bucket : BTreeMap String RowIn) (row : RowIn) :
    (reconcileRow bucket row).1 = offerInto RowIn.beats (·.event.eventId) bucket row := by
  unfold reconcileRow offerInto RowIn.beats
  cases bucket[row.event.eventId]? with
  | none => rfl
  | some existing => by_cases wins : supersedes row.event existing.event <;> simp [wins]

/-! ### The rows of a partition -/

def taggedRows (parts : List (String × List RowIn)) : List (String × RowIn) :=
  parts.flatMap fun (generation, rows) => rows.map (generation, ·)

variable (scheme : PartitionScheme) (snap : Snapshot)

/-- The rows that are not deleted, each with its partition. -/
def liveRows (parts : List (String × List RowIn)) :
    List (PartitionKey × RowIn) :=
  ((taggedRows parts).filter fun (_, r) => !snap.isTombstoned r.event.eventId).map
    fun (generation, r) => (scheme.keyOf generation r.event, r)

def liveIn (parts : List (String × List RowIn)) (key : PartitionKey) : List RowIn :=
  ((liveRows scheme snap parts).filter (·.1 = key)).map Prod.snd

theorem mem_liveIn {scheme : PartitionScheme} {snap : Snapshot} {parts : List (String × List RowIn)}
    {key : PartitionKey} {r : RowIn} :
    r ∈ liveIn scheme snap parts key ↔ (key, r) ∈ liveRows scheme snap parts := by
  simp [liveIn]

theorem mem_liveRows {scheme : PartitionScheme} {snap : Snapshot}
    {parts : List (String × List RowIn)} {key : PartitionKey} {r : RowIn} :
    (key, r) ∈ liveRows scheme snap parts ↔
      ∃ generation, (generation, r) ∈ taggedRows parts ∧ snap.isTombstoned r.event.eventId = false ∧
        scheme.keyOf generation r.event = key := by
  simp only [liveRows, List.mem_map, List.mem_filter, Prod.exists, Prod.mk.injEq]
  constructor
  · rintro ⟨generation, r', ⟨mem, live⟩, placed, rfl⟩
    exact ⟨generation, mem, by simpa using live, placed⟩
  · rintro ⟨generation, mem, live, placed⟩
    exact ⟨generation, r, ⟨mem, by simp [live]⟩, placed, rfl⟩

theorem liveRows_append (xs ys : List (String × List RowIn)) :
    liveRows scheme snap (xs ++ ys) = liveRows scheme snap xs ++ liveRows scheme snap ys := by
  simp [liveRows, taggedRows]

theorem liveRows_cons_row (r : RowIn) (rs : List RowIn) :
    liveRows scheme snap [(generation, r :: rs)] =
      liveRows scheme snap [(generation, [r])] ++ liveRows scheme snap [(generation, rs)] := by
  simp only [liveRows, taggedRows, List.flatMap_cons, List.flatMap_nil, List.map_cons, List.map_nil,
    List.append_nil, List.filter_cons]
  split_ifs <;> simp

/-! ### The loops of the merge -/

def offerAll (m : BTreeMap PartitionKey (BTreeMap String RowIn)) (rows : List (PartitionKey × RowIn)) :
    BTreeMap PartitionKey (BTreeMap String RowIn) :=
  foldInto Prod.fst ∅ (fun bucket entry => offerInto RowIn.beats (·.event.eventId) bucket entry.2) m
    rows

theorem offerAll_append (m : BTreeMap PartitionKey (BTreeMap String RowIn))
    (xs ys : List (PartitionKey × RowIn)) : offerAll m (xs ++ ys) = offerAll (offerAll m xs) ys :=
  List.foldl_append

/-- One row: it is offered to the map of its partition unless it is deleted. -/
theorem take_byPartition (generation : String) (s : Reconciled) (r : RowIn) :
    (s.take scheme snap generation r).byPartition =
      offerAll s.byPartition (liveRows scheme snap [(generation, [r])]) := by
  unfold Reconciled.take
  by_cases deleted : snap.isTombstoned r.event.eventId
  · simp [deleted, liveRows, taggedRows, offerAll, foldInto]
  · simp only [deleted, Bool.false_eq_true, if_false, reconcileRow_fst]
    refine Std.ExtTreeMap.ext_getElem? fun key => ?_
    simp [liveRows, taggedRows, deleted, offerAll, foldInto, Std.ExtTreeMap.getElem?_insert,
      Std.ExtTreeMap.getElem?_alter]

/-- The loop over the rows of a part. -/
theorem takeRows_byPartition (rows : List RowIn) (s : Reconciled) :
    (rows.foldl (Reconciled.take scheme snap generation) s).byPartition =
      offerAll s.byPartition (liveRows scheme snap [(generation, rows)]) := by
  induction rows generalizing s with
  | nil => rfl
  | cons r rows ih =>
    rw [List.foldl_cons, ih, take_byPartition, liveRows_cons_row scheme snap r rows,
      offerAll_append]

/-- The loop over the parts. -/
theorem reconcileParts_byPartition (parts : List (String × List RowIn)) :
    (reconcileParts scheme snap parts).byPartition = offerAll ∅ (liveRows scheme snap parts) := by
  have all (s : Reconciled) :
      (parts.foldl (fun s (generation, rows) =>
        rows.foldl (Reconciled.take scheme snap generation) s) s).byPartition =
        offerAll s.byPartition (liveRows scheme snap parts) := by
    induction parts generalizing s with
    | nil => rfl
    | cons part parts ih =>
      rw [List.foldl_cons, ih, takeRows_byPartition scheme snap part.2 s, ← offerAll_append,
        ← liveRows_append]
      rfl
  exact all ⟨∅, 0⟩

/-! ### The rows that a merge writes -/

def mergedRows (parts : List (String × List RowIn)) (key : PartitionKey) : List RowIn :=
  ((reconcileParts scheme snap parts).byPartition[key]?.getD ∅).toList.map Prod.snd

section Merged

variable {scheme : PartitionScheme} {snap : Snapshot} {parts : List (String × List RowIn)}
  {key : PartitionKey}

/-- The map of a partition is the reconciliation of its live rows. -/
theorem byPartition_getD : (reconcileParts scheme snap parts).byPartition[key]?.getD ∅ =
      reconcile RowIn.beats (·.event.eventId) (liveIn scheme snap parts key) := by
  have inside : liveIn scheme snap parts key =
      ((liveRows scheme snap parts).filter (·.1 = key)).map Prod.snd := rfl
  rw [reconcileParts_byPartition, inside, reconcile, List.foldl_map]
  have found := getElem?_foldBy Prod.fst (∅ : BTreeMap String RowIn)
    (fun bucket entry => offerInto RowIn.beats (·.event.eventId) bucket entry.2)
    (liveRows scheme snap parts) key
  rw [offerAll, show foldInto _ _ _ ∅ _ = foldBy Prod.fst _ _ _ from rfl, found]
  split
  next none => simp [none]
  · rfl

variable {r : RowIn}

/-- A merged row won among the live rows of its partition and id. -/
theorem mem_mergedRows : r ∈ mergedRows scheme snap parts key ↔
      winner RowIn.beats ((liveIn scheme snap parts key).filter
        (·.event.eventId = r.event.eventId)) = some r := by
  rw [mergedRows, byPartition_getD, List.mem_map]
  simp only [Prod.exists, exists_eq_right, Std.ExtTreeMap.mem_toList_iff_getElem?_eq_some,
    getElem?_reconcile]
  constructor
  · rintro ⟨id, won⟩
    have own := (winner_max beats_orders won).1
    obtain rfl : r.event.eventId = id := by simpa using (List.mem_filter.mp own).2
    exact won
  · intro won
    exact ⟨r.event.eventId, won⟩

theorem mergedRows_subset (mem : r ∈ mergedRows scheme snap parts key) :
    r ∈ liveIn scheme snap parts key :=
  (List.mem_filter.mp (winner_max beats_orders (mem_mergedRows.mp mem)).1).1

/-- No live row of its id ranks above a merged row. -/
theorem mergedRows_max (mem : r ∈ mergedRows scheme snap parts key) :
    ∀ r' ∈ liveIn scheme snap parts key, r'.event.eventId = r.event.eventId → r'.rank ≤ r.rank :=
  fun r' live same => (winner_max beats_orders (mem_mergedRows.mp mem)).2 r'
    (List.mem_filter.mpr ⟨live, by simpa using same⟩)

/-- Every id with a live row keeps one. -/
theorem exists_mergedRow (live : r ∈ liveIn scheme snap parts key) :
    ∃ best ∈ mergedRows scheme snap parts key, best.event.eventId = r.event.eventId := by
  have some : (winner RowIn.beats ((liveIn scheme snap parts key).filter
      (·.event.eventId = r.event.eventId))).isSome := by
    refine winner_isSome_iff.mpr (List.ne_nil_of_mem (a := r) (List.mem_filter.mpr ⟨live, ?_⟩))
    simp
  obtain ⟨best, won⟩ := Option.isSome_iff_exists.mp some
  have own : best.event.eventId = r.event.eventId := by
    simpa using (List.mem_filter.mp (winner_max beats_orders won).1).2
  exact ⟨best, mem_mergedRows.mpr (own ▸ won), own⟩

/-- Two merged rows of one partition have different ids. -/
theorem mergedRows_ids : ((mergedRows scheme snap parts key).map (·.event.eventId)).Nodup := by
  set bucket := (reconcileParts scheme snap parts).byPartition[key]?.getD ∅ with named
  have own : ∀ entry ∈ bucket.toList, entry.2.event.eventId = entry.1 := by
    intro entry mem
    rw [named, byPartition_getD, Std.ExtTreeMap.mem_toList_iff_getElem?_eq_some,
      getElem?_reconcile] at mem
    simpa using (List.mem_filter.mp (winner_max beats_orders mem).1).2
  have keys : (mergedRows scheme snap parts key).map (·.event.eventId) =
      bucket.toList.map Prod.fst := by
    rw [mergedRows, ← named, List.map_map]
    exact List.map_congr_left own
  rw [keys]
  exact nodup_keys bucket

theorem eq_of_mergedRows {r' : RowIn} (mem : r ∈ mergedRows scheme snap parts key)
    (mem' : r' ∈ mergedRows scheme snap parts key) (same : r.event.eventId = r'.event.eventId) :
    r = r' := by
  have won := mem_mergedRows.mp mem
  rw [same, mem_mergedRows.mp mem'] at won
  exact (Option.some.inj won).symm

end Merged

/-! ### Layouts -/

/-- Two layouts hold the same rows under the same generations. -/
def SameRows (parts parts' : List (String × List RowIn)) : Prop :=
  (taggedRows parts).Perm (taggedRows parts')

/-- Two snapshots have the same ids deleted. -/
def SameTombstones (snap snap' : Snapshot) : Prop :=
  ∀ id, snap'.isTombstoned id = snap.isTombstoned id

/-- Live rows of one partition and id that are both of the highest rank are equal. -/
def Unambiguous (parts : List (String × List RowIn)) :
    Prop :=
  ∀ key, ∀ r ∈ liveIn scheme snap parts key, ∀ r' ∈ liveIn scheme snap parts key,
    r.event.eventId = r'.event.eventId → r.rank = r'.rank →
      (∀ x ∈ liveIn scheme snap parts key, x.event.eventId = r.event.eventId → x.rank ≤ r.rank) →
        r = r'

section Layouts

variable {scheme : PartitionScheme} {snap snap' : Snapshot} {parts parts' : List (String × List RowIn)}

theorem liveIn_perm (deleted : SameTombstones snap snap') (same : SameRows parts parts') :
    (liveIn scheme snap parts key).Perm (liveIn scheme snap' parts' key) := by
  have live : (liveRows scheme snap parts).Perm (liveRows scheme snap' parts') := by
    refine List.Perm.map _ ((same.filter _).trans (.of_eq (List.filter_congr ?_)))
    rintro ⟨generation, r⟩ _
    simp only [deleted r.event.eventId]
  exact (live.filter _).map _

/-- Without ties between different rows the layout does not show in what is written. -/
theorem mergedRows_layout (deleted : SameTombstones snap snap') (same : SameRows parts parts')
    (unambiguous : Unambiguous scheme snap parts) :
    mergedRows scheme snap parts key = mergedRows scheme snap' parts' key := by
  have equal : reconcile RowIn.beats (·.event.eventId) (liveIn scheme snap parts key) =
      reconcile RowIn.beats (·.event.eventId) (liveIn scheme snap' parts' key) := by
    refine Std.ExtTreeMap.ext_getElem? fun id => ?_
    rw [getElem?_reconcile, getElem?_reconcile]
    refine winner_perm beats_orders ((liveIn_perm deleted same).filter _) ?_
    intro a inside b inside' most tied
    obtain ⟨live, own⟩ := List.mem_filter.mp inside
    obtain ⟨live', own'⟩ := List.mem_filter.mp inside'
    simp only [decide_eq_true_eq] at own own'
    refine unambiguous key a live b live' (own.trans own'.symm) tied fun x among named => ?_
    exact most x (List.mem_filter.mpr ⟨among, by simpa using named.trans own⟩)
  rw [mergedRows, mergedRows, byPartition_getD, byPartition_getD, equal]

/-- A row of the highest rank is written when its part comes first. -/
theorem exists_layout_first {key : PartitionKey} {r : RowIn}
    (live : r ∈ liveIn scheme snap parts key)
    (most : ∀ x ∈ liveIn scheme snap parts key, x.event.eventId = r.event.eventId →
      x.rank ≤ r.rank) : ∃ first, SameRows parts first ∧ r ∈ mergedRows scheme snap first key := by
  obtain ⟨generation, tagged, kept, placed⟩ := mem_liveRows.mp (mem_liveIn.mp live)
  obtain ⟨before, after, split⟩ := List.append_of_mem tagged
  -- Every row gets a part of its own, and the row in question the first one.
  let first := ((generation, r) :: (before ++ after)).map fun entry => (entry.1, [entry.2])
  have rows : taggedRows first = (generation, r) :: (before ++ after) := by
    simp [first, taggedRows, List.flatMap_map]
  have same : SameRows parts first := by
    rw [SameRows, split, rows]
    exact List.perm_middle
  refine ⟨first, same, mem_mergedRows.mpr ?_⟩
  obtain ⟨others, head⟩ : ∃ others, liveIn scheme snap first key = r :: others := by
    simp [liveIn, liveRows, rows, kept, placed]
  rw [head, List.filter_cons_of_pos (by simp)]
  refine winner_eq_head beats_orders r _ fun x inside => ?_
  obtain ⟨among, named⟩ := List.mem_filter.mp inside
  refine most x ?_ (by simpa using named)
  have there : x ∈ liveIn scheme snap first key := head ▸ List.mem_cons_of_mem _ among
  exact (liveIn_perm (fun _ => rfl) same).mem_iff.mpr there

/-- If no layout shows in what is written, there are no ties between different rows. -/
theorem unambiguous_of_layouts (independent : ∀ other, SameRows parts other → ∀ key,
      (mergedRows scheme snap parts key).Perm (mergedRows scheme snap other key)) :
    Unambiguous scheme snap parts := by
  intro key r live r' live' named tied most
  have written : ∀ x ∈ liveIn scheme snap parts key,
      (∀ y ∈ liveIn scheme snap parts key, y.event.eventId = x.event.eventId → y.rank ≤ x.rank) →
        x ∈ mergedRows scheme snap parts key := by
    intro x among highest
    obtain ⟨first, same, inside⟩ := exists_layout_first among highest
    exact (independent first same key).mem_iff.mpr inside
  refine eq_of_mergedRows (written r live most) (written r' live' ?_) named
  intro y among own
  exact tied ▸ most y among (own.trans named.symm)

end Layouts

end Prism
