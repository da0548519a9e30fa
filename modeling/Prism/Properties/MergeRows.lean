import Prism.Properties.MarkerSoundness
import Prism.Properties.OperationPhases
import Prism.Properties.Reconciliation

/-!
The rows of a store before and after a full merge.
-/

namespace Prism

open CrashLogic Fallible Catalog Store Engine

variable {readers : List PartReader}

/-! ### What a merge reads and writes -/

namespace Store

def layout (store : Store) (entries : List PartEntry) : List (String × List RowIn) :=
  entries.filterMap fun entry =>
    (store.parts[entry.partId]?).map fun part => (part.manifest.generationId, part.rows)

def rowsIn (store : Store) (key : PartitionKey) : List RowIn :=
  match currentIn store with
  | .ok snap => store.rowsOf (snap.parts.filter fun entry =>
      entry.located?.map (·.partition) = some key)
  | .error _ => []

end Store

variable (engine : Engine) {store : Store}

namespace Engine

/-- The generations and rows of the opened parts are the layout of the snapshot. -/
theorem layout_of_opened {entries : List PartEntry} {readers : List PartReader}
    (opened : List.Forall₂ (fun id r => store.parts[id]? = some r.part)
      (entries.map PartEntry.partId) readers) :
    store.layout entries = readers.map fun r => (r.manifest.generationId, r.part.rows) := by
  rw [List.forall₂_map_left_iff] at opened
  induction opened with
  | nil => rfl
  | cons found _ ih =>
    rw [Store.layout, List.filterMap_cons_some (b := _) (by rw [found]; rfl), List.map_cons, ← ih]
    rfl

theorem readParts_spec : Observes (Prog.each readPart readers) fun _ parts =>
      parts = readers.map fun r => (r.manifest.generationId, r.part.rows) := by
  refine (Observes.each readPart_spec readers).weaken fun _ parts read => ?_
  induction read with
  | nil => rfl
  | cons here _ ih => rw [here, ih, List.map_cons]

theorem mergePartition_spec (nowMs : Int) (item : Nat × PartitionKey × List RowIn) (start : World) :
    Triple (· = start) (engine.mergePartition nowMs item)
      (fun out w => Grown start.store w.store ∧ w.deadLetters = start.deadLetters ∧
        (w.store.clashed = false → Holds w.store item out.1))
      (fun w => World.Quiet start w) := by
  refine getGeneration_spec.bind_triple (World.Quiet.refl start) fun g _ => ?_
  refine Observes.ofExcept.bind_triple (World.Quiet.refl start) fun tokenizer _ => ?_
  exact Triple.bind (storePart_spec _ _ item) fun _ => Triple.pure fun _ held => held

end Engine

/-- The store after a merge of `snap`: its head names one part for every partition with a live row,
and the parts hold the reconciled rows. -/
structure Merged (engine : Engine) (snap : Snapshot) (store store' : Store) : Prop where
  head : ∃ (new : Snapshot) (refs : List PartRef), currentIn store' = .ok new ∧
    new.parts = refs.map .located ∧
    (store'.clashed = false → List.Forall₂ (Holds store')
      (numbered snap.nextSeq (reconcileParts engine.config.partitions snap
        (store.layout snap.parts)).groups) refs)

namespace Engine

theorem mergeParts_spec (snap : Snapshot) (migrated : Nat) (nowMs : Int) (start : World)
    (opened : start.store.layout snap.parts =
      readers.map fun r => (r.manifest.generationId, r.part.rows)) :
    Triple (· = start) (engine.mergeParts snap readers migrated nowMs)
      (fun _ w => Merged engine snap start.store w.store) (fun _ => True) := by
  refine readParts_spec.bind_triple trivial fun parts read => ?_
  rw [← opened] at read
  subst read
  refine Triple.bind ((eachPart_spec Prod.fst (mergePartition_spec engine nowMs) _).stopping fun _ _ => trivial) fun written => ?_
  refine Triple.bind (Q := fun _ w => Merged engine snap start.store w.store) ?_ fun _ =>
    Triple.pure fun _ merged => merged
  refine Triple.fix fun w' ⟨_, _, held⟩ => onStore_spec ?_
  refine (commitMeta_spec snap _ _ _ _ nowMs w'.store).conseq (fun _ h => h) ?_ fun _ _ => trivial
  rintro _ store ⟨rfl, rfl, _⟩
  refine ⟨_, written.map Prod.fst, currentIn_install _ _, ?_, held⟩
  simp [nextSnapshot]

/-- A merge that returns has left the store alone or rewritten it. -/
theorem merge_spec (free : Option Nat) (nowMs : Int) (start : World) :
    Triple (· = start) (engine.merge free nowMs)
      (fun _ w => w = start ∨ ∃ snap, currentIn start.store = .ok snap ∧
        Merged engine snap start.store w.store) (fun _ => True) := by
  refine snapshot_spec.bind_triple trivial fun snap head => ?_
  refine openParts_spec.bind_triple trivial fun readers opened => ?_
  have layout := layout_of_opened opened
  refine Observes.ofExcept.bind_triple trivial fun tokenizer _ => ?_
  dsimp only
  split
  · exact Triple.pure fun _ same => .inl same
  · split
    · exact Triple.pure fun _ same => .inl same
    · exact (mergeParts_spec engine snap _ nowMs start layout).weaken
        fun _ _ merged => .inr ⟨snap, head, merged⟩

end Engine

/-! ### The rows of a partition after a merge -/

theorem rowsOf_held_in {items : List (Nat × PartitionKey × List RowIn)} {refs : List PartRef}
    (held : List.Forall₂ (Holds store) items refs) (key : PartitionKey) :
    store.rowsOf ((refs.map PartEntry.located).filter fun entry =>
        entry.located?.map (·.partition) = some key) =
      (items.filter (·.2.1 = key)).flatMap fun item => sortRows item.2.2 := by
  have kept : List.Forall₂ (Holds store) (items.filter (·.2.1 = key))
      (refs.filter (·.partition = key)) := by
    induction held with
    | nil => exact .nil
    | @cons item ref _ _ first _ ih =>
      by_cases here : item.2.1 = key
      · rw [List.filter_cons_of_pos (by simpa using here),
          List.filter_cons_of_pos (by simpa [first.2] using here)]
        exact .cons first ih
      · rw [List.filter_cons_of_neg (by simpa using here),
          List.filter_cons_of_neg (by simpa [first.2] using here)]
        exact ih
  rw [← rowsOf_held kept, List.filter_map]
  congr 2
  refine List.filter_congr fun ref _ => ?_
  simp [PartEntry.located?]

theorem groups_filter_key (s : Reconciled) (key : PartitionKey) :
    (s.groups.filter (·.1 = key)).flatMap (fun group => sortRows group.2) =
      (s.byPartition[key]?.map fun bucket => sortRows (bucket.toList.map Prod.snd)).getD [] := by
  rw [Reconciled.groups, List.filter_map, List.flatMap_map]
  have entries := OrderedMap.toList_filter_key s.byPartition key
  have same : (s.byPartition.toList.filter ((fun group : PartitionKey × List RowIn =>
      decide (group.1 = key)) ∘ fun entry => (entry.1, entry.2.toList.map Prod.snd))) =
      s.byPartition.toList.filter (·.1 = key) := rfl
  rw [same, entries]
  cases s.byPartition[key]? <;> simp

/-- A partition of the new head holds the reconciled rows. -/
theorem Merged.rowsIn {engine : Engine} {snap : Snapshot} {store' : Store}
    (merged : Merged engine snap store store') (clean : store'.clashed = false) (key : PartitionKey) :
    (store'.rowsIn key).Perm
      (mergedRows engine.config.partitions snap (store.layout snap.parts) key) := by
  obtain ⟨new, refs, head, parts, held⟩ := merged.head
  set s := reconcileParts engine.config.partitions snap (store.layout snap.parts) with named
  have items : ((numbered snap.nextSeq s.groups).filter (·.2.1 = key)).flatMap
      (fun item => sortRows item.2.2) =
        (s.groups.filter (·.1 = key)).flatMap fun group => sortRows group.2 := by
    conv_rhs => rw [← numbered_groups snap.nextSeq s.groups]
    rw [List.filter_map, List.flatMap_map]
    rfl
  have rows : store'.rowsIn key =
      (s.byPartition[key]?.map fun bucket => sortRows (bucket.toList.map Prod.snd)).getD [] := by
    simp only [Store.rowsIn, head, parts]
    rw [rowsOf_held_in (held clean) key, items, groups_filter_key]
  rw [rows, mergedRows, ← named]
  cases s.byPartition[key]? with
  | none => simp
  | some bucket => exact sortRows_perm _

/-- Every row of the new head is in the partition of its part. -/
theorem Merged.exists_key {engine : Engine} {snap : Snapshot} {store' : Store}
    (merged : Merged engine snap store store') {r : RowIn} (mem : r ∈ store'.headRows) :
    ∃ key, r ∈ store'.rowsIn key := by
  obtain ⟨new, refs, head, parts, _⟩ := merged.head
  simp only [headRows, head, parts] at mem
  obtain ⟨entry, inside, own⟩ := List.mem_flatMap.mp mem
  obtain ⟨ref, _, rfl⟩ := List.mem_map.mp inside
  refine ⟨ref.partition, ?_⟩
  simp only [Store.rowsIn, head, parts]
  exact List.mem_flatMap.mpr ⟨_, List.mem_filter.mpr ⟨inside, by simp [PartEntry.located?]⟩, own⟩

namespace Engine

/-- What is known of a merge that returned and moved the head. -/
theorem merge_committed {engine : Engine} {free : Option Nat} {nowMs : Int}
    {faults rest : List Fault} {start w : World} {report : MergeReport}
    (ran : engine.merge free nowMs faults start = (.ok report, rest, w))
    (committed : w.store.current ≠ start.store.current) :
    ∃ snap, currentIn start.store = .ok snap ∧ Merged engine snap start.store w.store := by
  have ends := merge_spec engine free nowMs start faults start rfl
  rw [ran] at ends
  rcases ends with same | merged
  · exact absurd (same ▸ rfl) committed
  · exact merged

def liveOf (engine : Engine) (store : Store) (snap : Snapshot) (key : PartitionKey) : List RowIn :=
  liveIn engine.config.partitions snap (store.layout snap.parts) key

/-- Exactly one row of the tenant and the id is left, and it is one of the highest rank. -/
def KeepsBest (input output : List RowIn) (tenant id : String) : Prop :=
  ∃ best ∈ input,
    output.filter (fun r => r.event.tenantId = tenant ∧ r.event.eventId = id) = [best] ∧
      ∀ r ∈ input, r.event.eventId = id → r.rank ≤ best.rank

/-- **A merge reconciles within a partition.** Where no other tenant has a live row of the id, the
new head holds exactly one row of the tenant and the id in the partition, and it is a live row
of the old head of the highest time and content hash. The new head holds no other rows, and none
that was deleted. -/
theorem merge_reconciles_partition (engine : Engine) (free : Option Nat) (nowMs : Int)
    (faults rest : List Fault) (start w : World) (report : MergeReport)
    (ran : engine.merge free nowMs faults start = (.ok report, rest, w))
    (committed : w.store.current ≠ start.store.current) (clean : w.store.clashed = false) :
    ∃ snap, currentIn start.store = .ok snap ∧
      (∀ key tenant id,
        (∃ r ∈ engine.liveOf start.store snap key,
          r.event.tenantId = tenant ∧ r.event.eventId = id) →
        (∀ r ∈ engine.liveOf start.store snap key,
          r.event.eventId = id → r.event.tenantId = tenant) →
        KeepsBest (engine.liveOf start.store snap key) (w.store.rowsIn key) tenant id) ∧
      ∀ r ∈ w.store.headRows, snap.isTombstoned r.event.eventId = false ∧
        ∃ key, r ∈ engine.liveOf start.store snap key := by
  obtain ⟨snap, head, merged⟩ := merge_committed ran committed
  refine ⟨snap, head, ?_, fun r mem => ?_⟩
  · rintro key tenant id ⟨r, live, rfl, rfl⟩ alone
    obtain ⟨best, inside, named⟩ := exists_mergedRow live
    have among := mergedRows_subset inside
    refine ⟨best, among, ?_, fun r' live' own => ?_⟩
    · -- The rows of the pair are the rows of the id, and there is one of these.
      have rows := merged.rowsIn clean key
      have nodup : (w.store.rowsIn key).Nodup :=
        rows.nodup_iff.mpr (List.Nodup.of_map _ mergedRows_ids)
      refine List.perm_singleton.mp ((List.perm_ext_iff_of_nodup (nodup.filter _)
        (List.nodup_singleton best)).mpr fun x => ?_)
      simp only [List.mem_filter, decide_eq_true_eq, List.mem_singleton, rows.mem_iff]
      constructor
      · rintro ⟨written, _, own⟩
        exact eq_of_mergedRows written inside (own.trans named.symm)
      · rintro rfl
        exact ⟨inside, alone x among named, named⟩
    · exact mergedRows_max inside r' live' (own.trans named.symm)
  · obtain ⟨key, written⟩ := merged.exists_key mem
    have live := mergedRows_subset ((merged.rowsIn clean key).mem_iff.mp written)
    obtain ⟨_, _, kept, _⟩ := mem_liveRows.mp (mem_liveIn.mp live)
    exact ⟨kept, key, live⟩

end Engine

def ingested (batches : List (List Event)) : World :=
  batches.foldl (fun w events => (sampleEngine.ingest events 1000 [] w).2.2) World.fresh

/-- Two versions of one event, each in a part of its own. -/
def twoVersions : World :=
  ingested [[sampleEvent "e1"], [{ sampleEvent "e1" with eventTime := 2000 }]]

def headPartIds (w : World) : List String :=
  match currentIn w.store with
  | .ok snap => snap.partIds
  | .error _ => []

set_option maxRecDepth 100000

/-- The merge of the two versions returns, moves the head and finds its part name free. -/
theorem twoVersions_merge :
    ∃ report rest w, sampleEngine.merge none 3000 [] twoVersions = (.ok report, rest, w) ∧
      w.store.current ≠ twoVersions.store.current ∧ w.store.clashed = false ∧
      ∀ id ∈ headPartIds w, twoVersions.store.parts[id]? = none := by
  have facts : Prod.map Outcome.isOk (Prod.map id fun w => (w.store.current, w.store.clashed,
        (headPartIds w).all fun id => twoVersions.store.parts[id]?.isNone))
      (sampleEngine.merge none 3000 [] twoVersions) = (true, [], some 3, false, true) ∧
      twoVersions.store.current = some 2 := by
    decide +kernel
  obtain ⟨ran, before⟩ := facts
  generalize sampleEngine.merge none 3000 [] twoVersions = result at ran ⊢
  obtain ⟨_ | _ | _, rest, w⟩ := result
  · simp only [Prod.map, Prod.mk.injEq] at ran
    obtain ⟨-, -, moved, clean, unused⟩ := ran
    refine ⟨_, rest, w, rfl, by simp [moved, before], clean, ?_⟩
    simpa using unused
  · cases congrArg Prod.fst ran
  · cases congrArg Prod.fst ran

namespace Engine

theorem merge_reconciles_partition_twoVersions :
    ∃ snap report rest w, sampleEngine.merge none 3000 [] twoVersions = (.ok report, rest, w) ∧
      currentIn twoVersions.store = .ok snap ∧
      (∀ key, (∃ r ∈ sampleEngine.liveOf twoVersions.store snap key,
          r.event.tenantId = "t1" ∧ r.event.eventId = "e1") →
        (∀ r ∈ sampleEngine.liveOf twoVersions.store snap key,
          r.event.eventId = "e1" → r.event.tenantId = "t1") →
        KeepsBest (sampleEngine.liveOf twoVersions.store snap key) (w.store.rowsIn key) "t1" "e1") ∧
      ∀ r ∈ w.store.headRows, snap.isTombstoned r.event.eventId = false ∧
        ∃ key, r ∈ sampleEngine.liveOf twoVersions.store snap key := by
  obtain ⟨report, rest, w, ran, committed, clean, _⟩ := twoVersions_merge
  obtain ⟨snap, head, best, rows⟩ :=
    merge_reconciles_partition sampleEngine none 3000 [] rest twoVersions w report ran committed clean
  exact ⟨snap, report, rest, w, ran, head, fun key => best key "t1" "e1", rows⟩

def rowsAfterMerge (w : World) : List RowIn :=
  (sampleEngine.merge none 3000 [] w).2.2.store.headRows

/-- Two versions of one event whose times lie in different windows both survive. -/
theorem merge_keeps_one_row_per_window :
    (rowsAfterMerge (ingested [[sampleEvent "e1",
      { sampleEvent "e1" with eventTime := 86401000 }]])).map
        (fun r => (r.event.tenantId, r.event.eventId, r.event.eventTime)) =
      [("t1", "e1", 1000), ("t1", "e1", 86401000)] := by
  decide +kernel

/-! ### The layout of the rows -/

/-- **What a merge writes depends on the layout exactly where versions tie.** A merge that commits
writes, for every partition, the reconciled rows of the layout it found; and these are the same
for all layouts of the same rows exactly if no two different live rows of a partition and id are
both of the highest time and content hash. -/
theorem merge_layout_iff_unambiguous (engine : Engine) :
    (∀ free nowMs faults rest start w report,
      engine.merge free nowMs faults start = (.ok report, rest, w) →
      w.store.current ≠ start.store.current → w.store.clashed = false →
        ∃ snap, currentIn start.store = .ok snap ∧ ∀ key, (w.store.rowsIn key).Perm
          (mergedRows engine.config.partitions snap (start.store.layout snap.parts) key)) ∧
      ∀ snap parts,
        (∀ snap' parts', SameTombstones snap snap' → SameRows parts parts' →
          ∀ key, (mergedRows engine.config.partitions snap parts key).Perm
            (mergedRows engine.config.partitions snap' parts' key)) ↔
          Unambiguous engine.config.partitions snap parts := by
  refine ⟨?_, fun snap parts => ⟨fun independent => ?_, fun unambiguous => ?_⟩⟩
  · intro free nowMs faults rest start w report ran committed clean
    obtain ⟨snap, head, merged⟩ := merge_committed ran committed
    exact ⟨snap, head, merged.rowsIn clean⟩
  · exact unambiguous_of_layouts fun other same key => independent snap other (fun _ => rfl) same key
  · intro snap' parts' deleted same key
    exact .of_eq (mergedRows_layout deleted same unambiguous)

theorem merge_layout_iff_unambiguous_twoVersions :
    ∃ snap w, currentIn twoVersions.store = .ok snap ∧
      (sampleEngine.merge none 3000 [] twoVersions).2.2 = w ∧
      ∀ key, (w.store.rowsIn key).Perm (mergedRows sampleEngine.config.partitions snap
        (twoVersions.store.layout snap.parts) key) := by
  obtain ⟨report, rest, w, ran, committed, clean, _⟩ := twoVersions_merge
  obtain ⟨snap, head, rows⟩ := (merge_layout_iff_unambiguous sampleEngine).1 none 3000 [] rest
    twoVersions w report ran committed clean
  exact ⟨snap, w, head, by rw [ran], rows⟩

/-- One event as two deliveries saw it: only the time of observation differs. -/
def observedAt (observedTime : Int) : Event := { sampleEvent "e1" with observedTime := observedTime }

/-- The same two rows in two orders of parts: each merge keeps the row of the first part. -/
theorem merge_keeps_first_of_tie :
    (ingested [[observedAt 1], [observedAt 2]]).store.headRows =
        (ingested [[observedAt 2], [observedAt 1]]).store.headRows.reverse ∧
      (rowsAfterMerge (ingested [[observedAt 1], [observedAt 2]])).map (·.event.observedTime) =
        [1] ∧
      (rowsAfterMerge (ingested [[observedAt 2], [observedAt 1]])).map (·.event.observedTime) =
        [2] := by
  decide +kernel

end Engine

end Prism
