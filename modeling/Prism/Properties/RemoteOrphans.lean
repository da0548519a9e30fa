import Prism.Engine.Remote
import Prism.Properties.FileAccess

/-!
Remote reconciliation beside releases of new parts: what a live snapshot needs, how that changes
while the live set is read piece by piece, and which objects may be deleted on the strength of it.
-/

namespace Prism

open CrashLogic Catalog Fallible OrderedMap

namespace Store

/-! ### The newest snapshots -/

theorem zeroPadded_injective (width : Nat) : Function.Injective (zeroPadded width) := by
  intro a b same
  have chars := congrArg (fun s : String => Nat.ofDigitChars 10 s.toList 0) same
  simpa [zeroPadded, Nat.ofDigitChars_append, Nat.ofDigitChars_replicate_zero,
    Nat.ofDigitChars_ten_toDigits] using chars

theorem snapshotName_injective : Function.Injective snapshotName := by
  intro a b same
  have chars := congrArg String.toList same
  simp only [snapshotName, String.toList_append, List.append_cancel_left_eq] at chars
  exact zeroPadded_injective 8 (String.toList_inj.mp chars)

abbrev nameLE (a b : SnapshotId) : Prop := (compare (snapshotName a) (snapshotName b)).isLE = true

instance : Std.Total nameLE where
  total a b := by
    by_cases le : (compare (snapshotName a) (snapshotName b)).isLE = true
    · exact .inl le
    · refine .inr (Std.OrientedCmp.isGE_iff_isLE.mp ?_)
      cases order : compare (snapshotName a) (snapshotName b) with
      | lt => simp [order] at le
      | eq => rfl
      | gt => rfl

instance : IsTrans SnapshotId nameLE where
  trans _ _ _ := Std.TransCmp.isLE_trans

instance : Std.Antisymm nameLE where
  antisymm _ _ le ge := snapshotName_injective
    (Std.LawfulEqCmp.compare_eq_iff_eq.mp (Std.OrientedCmp.isLE_antisymm le ge))

def newest (count : Nat) (store : Store) : List SnapshotId :=
  (listSnapshots store).reverse.take count

theorem mem_take_of_sublist {α : Type} {small large : List α} (sub : small.Sublist large)
    (distinct : large.Nodup) {x : α} (inside : x ∈ small) {count : Nat}
    (early : x ∈ large.take count) : x ∈ small.take count := by
  induction sub generalizing count with
  | slnil => cases inside
  | @cons small large y sub ih =>
    cases count with
    | zero => simp at early
    | succ count =>
      obtain ⟨new, rest⟩ := List.nodup_cons.mp distinct
      have differ : x ≠ y := fun same => new (same ▸ sub.subset inside)
      have later : x ∈ large.take count := by simpa [differ] using early
      exact List.take_subset_take_left _ (Nat.le_succ count) (ih rest inside later)
  | @cons_cons small large y sub ih =>
    cases count with
    | zero => simp at early
    | succ count =>
      obtain ⟨_, rest⟩ := List.nodup_cons.mp distinct
      rw [List.take_succ_cons, List.mem_cons] at early ⊢
      by_cases same : x = y
      · exact .inl same
      · exact .inr (ih rest ((List.mem_cons.mp inside).resolve_left same)
          (early.resolve_left same))

variable {id : SnapshotId}

/-- With more snapshots than before, one that was there is among the newest only if it was. -/
theorem mem_newest_of_grown {store store' : Store} {count : Nat}
    (grown : ∀ other, other ∈ store.snapshots → other ∈ store'.snapshots)
    (there : id ∈ store.snapshots) (kept : id ∈ newest count store') : id ∈ newest count store := by
  have sub : (listSnapshots store).Sublist (listSnapshots store') := by
    refine List.sublist_of_subperm_of_pairwise (r := nameLE) ?_
      (List.pairwise_insertionSort nameLE _) (List.pairwise_insertionSort nameLE _)
    refine List.subperm_of_subset (nodup_listSnapshots store) fun other mem => ?_
    exact mem_listSnapshots.mpr (grown other (mem_listSnapshots.mp mem))
  refine mem_take_of_sublist sub.reverse ?_ ?_ kept
  · exact List.nodup_reverse.mpr (nodup_listSnapshots store')
  · exact List.mem_reverse.mpr (mem_listSnapshots.mpr there)

/-! ### The chain of `CURRENT` -/

/-- Every snapshot has a number above that of its parent, and none has the number of the empty
store. So it is in every store that commits have made. -/
structure Numbered (store : Store) : Prop where
  positive : ∀ snap, loadSnapshotIn store 0 ≠ .ok snap
  descends : ∀ id snap, loadSnapshotIn store id = .ok snap →
    ∀ parent, snap.parent = some parent → parent < id

theorem numbered_fresh : fresh.Numbered := by
  have nothing (id : SnapshotId) (snap : Snapshot) : loadSnapshotIn fresh id ≠ .ok snap := by
    intro loaded
    have file := (loadSnapshotIn_eq_ok.mp loaded).1
    simp [fresh] at file
  exact ⟨nothing 0, fun id snap loaded => absurd loaded (nothing id snap)⟩

theorem ancestors_congr {store store' : Store} (numbered : store.Numbered) {bound : Nat}
    (same : ∀ id < bound, loadSnapshotIn store' id = loadSnapshotIn store id) (fuel : Nat)
    (below : id < bound) : store'.ancestors fuel id = store.ancestors fuel id := by
  induction fuel generalizing id with
  | zero => rfl
  | succ fuel ih =>
    simp only [ancestors, same id below]
    cases loaded : loadSnapshotIn store id with
    | error e => rfl
    | ok snap =>
      cases parent : snap.parent with
      | none => simp [parent]
      | some p =>
        have under := numbered.descends id snap loaded p parent
        simp only [parent, Option.map_some, Option.getD_some]
        rw [ih (Nat.lt_trans under below)]

variable {snap : Snapshot}

theorem mem_ancestors {store : Store} (numbered : store.Numbered) {fuel : Nat}
    (mem : snap ∈ store.ancestors fuel id) :
    snap.snapshotId ≤ id ∧ loadSnapshotIn store snap.snapshotId = .ok snap := by
  induction fuel generalizing id with
  | zero => cases mem
  | succ fuel ih =>
    simp only [ancestors] at mem
    cases loaded : loadSnapshotIn store id with
    | error e => simp [loaded] at mem
    | ok own =>
      simp only [loaded, List.mem_cons] at mem
      obtain rfl | above := mem
      · have number := (loadSnapshotIn_eq_ok.mp loaded).2
        exact ⟨number.le, number.symm ▸ loaded⟩
      · cases parent : own.parent with
        | none => simp [parent] at above
        | some p =>
          have under := numbered.descends id own loaded p parent
          simp only [parent, Option.map_some, Option.getD_some] at above
          obtain ⟨le, file⟩ := ih above
          exact ⟨le.trans under.le, file⟩

/-- The snapshots of the chain have their files, under numbers up to that of the head. -/
theorem mem_chain {store : Store} (numbered : store.Numbered) (mem : snap ∈ store.chain) :
    ∃ id, store.current = some id ∧ snap.snapshotId ≤ id ∧
      loadSnapshotIn store snap.snapshotId = .ok snap := by
  unfold chain at mem
  cases named : store.current with
  | none => simp [named] at mem
  | some id =>
    simp only [named] at mem
    obtain ⟨le, file⟩ := mem_ancestors numbered mem
    exact ⟨id, rfl, le, file⟩

/-! ### Live snapshots -/

variable {retain : Nat} {nowMs : Int} (retainSnapshots : Nat)

def Retains (nowMs : Int) (store : Store) (id : SnapshotId) : Prop :=
  ∃ retained, retainedIn store retainSnapshots nowMs = .ok retained ∧ id ∈ retained.snapshots

instance (store : Store) (id : SnapshotId) :
    Decidable (store.Retains retain nowMs id) :=
  decidable_of_iff (∃ retained ∈ (retainedIn store retain nowMs).toOption,
    id ∈ retained.snapshots) <| by
    unfold Retains
    cases retainedIn store retain nowMs <;> simp [Except.toOption]

theorem retains_iff {store : Store} :
    store.Retains retain nowMs id ↔ ∃ head, currentIn store = .ok head ∧
      (id ∈ store.newest (max retain 1) ∨ id = head.snapshotId ∨
        (id ∈ store.snapshots ∧ withinHorizon store nowMs id = true)) := by
  constructor
  · rintro ⟨retained, kept, mem⟩
    obtain ⟨head, loaded, rfl⟩ := bind_pure_eq_ok.mp kept
    refine ⟨head, loaded, ?_⟩
    simp only [List.mem_append, List.mem_filter, List.mem_singleton, Bool.and_eq_true] at mem
    obtain (early | own) | ⟨listed, _, young⟩ := mem
    · exact .inl early
    · exact .inr (.inl own)
    · exact .inr (.inr ⟨mem_listSnapshots.mp listed, young⟩)
  · rintro ⟨head, loaded, why⟩
    refine ⟨_, bind_eq_ok.mpr ⟨head, loaded, rfl⟩, ?_⟩
    simp only [List.mem_append, List.mem_filter, List.mem_singleton, Bool.and_eq_true]
    by_cases pinned : id ∈ store.newest (max retain 1) ∨ id = head.snapshotId
    · exact .inl pinned
    · obtain early | own | ⟨there, young⟩ := why
      · exact absurd (.inl early) pinned
      · exact absurd (.inr own) pinned
      · refine .inr ⟨mem_listSnapshots.mpr there, ?_, young⟩
        simpa [newest, not_or] using pinned

/-- On the chain of `CURRENT` and retained. -/
def Live (nowMs : Int) (store : Store) (snap : Snapshot) : Prop :=
  snap ∈ store.chain ∧ store.Retains retainSnapshots nowMs snap.snapshotId

/-- A live snapshot names the part. -/
def Needs (nowMs : Int) (store : Store) (part : String) : Prop :=
  ∃ snap, store.Live retainSnapshots nowMs snap ∧ part ∈ snap.partIds

theorem needs_of_head {store : Store} {head : Snapshot} (loaded : currentIn store = .ok head)
    {part : String} (named : part ∈ head.partIds) : store.Needs retain nowMs part := by
  obtain ⟨_, rfl⟩ | ⟨current, file⟩ := currentIn_eq_ok.mp loaded
  · simp [Snapshot.partIds, Snapshot.empty] at named
  · have mem := mem_chain_of_current (by simp [current]) loaded
    exact ⟨head, ⟨mem, retains_iff.mpr ⟨head, loaded, .inr (.inl rfl)⟩⟩, named⟩

/-- What one access of a release does to the head: nothing, or it writes the file of the next
snapshot, or it names that file, whose parts are those of the head and announced ones. -/
inductive HeadStep (announced : List String) (store store' : Store) : Prop
  | same (current : store'.current = store.current)
      (snapshots : store'.snapshots = store.snapshots)
  | file (head snap : Snapshot) (loaded : currentIn store = .ok head)
      (number : snap.snapshotId = head.snapshotId + 1)
      (parent : snap.parent = some head.snapshotId)
      (current : store'.current = store.current)
      (snapshots : store'.snapshots = store.snapshots.insert snap.snapshotId snap)
  | head (head snap : Snapshot) (loaded : currentIn store = .ok head)
      (number : snap.snapshotId = head.snapshotId + 1)
      (parent : snap.parent = some head.snapshotId)
      (file : store.snapshots[snap.snapshotId]? = some snap)
      (named : ∀ part ∈ snap.partIds, part ∈ head.partIds ∨ part ∈ announced)
      (current : store'.current = some snap.snapshotId)
      (snapshots : store'.snapshots = store.snapshots)

namespace HeadStep

variable {announced : List String} {store store' : Store}

variable (step : HeadStep announced store store')
include step

theorem grown (id : SnapshotId) (there : id ∈ store.snapshots) : id ∈ store'.snapshots := by
  cases step with
  | same _ snapshots => exact snapshots ▸ there
  | file _ snap _ _ _ _ snapshots =>
    rw [snapshots]
    exact Std.ExtTreeMap.mem_insert.mpr (.inr there)
  | head _ _ _ _ _ _ _ _ snapshots => exact snapshots ▸ there

/-- Files up to the number of the head are left alone. -/
theorem load {head : Snapshot} (loaded : currentIn store = .ok head) (old : id ≤ head.snapshotId) :
    loadSnapshotIn store' id = loadSnapshotIn store id := by
  cases step with
  | same _ snapshots | head _ _ _ _ _ _ _ _ snapshots => simp only [loadSnapshotIn, snapshots]
  | file head' snap loaded' number _ _ snapshots =>
    obtain rfl := ok_unique loaded loaded'
    have other : snap.snapshotId ≠ id := by
      rintro rfl
      exact Nat.not_succ_le_self head.snapshotId (number.symm.le.trans old)
    simp only [loadSnapshotIn, snapshots, getElem?_insert_of_ne other]

theorem numbered (numbered : store.Numbered) : store'.Numbered := by
  cases step with
  | same _ snapshots | head _ _ _ _ _ _ _ _ snapshots =>
    constructor
    · simpa only [loadSnapshotIn, snapshots] using numbered.positive
    · simpa only [loadSnapshotIn, snapshots] using numbered.descends
  | file head snap loaded number parent current snapshots =>
    -- A file of the new store is the new one or was there.
    have cases (id : SnapshotId) (found : Snapshot) (now : loadSnapshotIn store' id = .ok found) :
        found = snap ∧ id = snap.snapshotId ∨ loadSnapshotIn store id = .ok found := by
      obtain ⟨file, own⟩ := loadSnapshotIn_eq_ok.mp now
      rw [snapshots] at file
      exact (of_getElem?_insert file).imp And.symm fun file =>
        loadSnapshotIn_eq_ok.mpr ⟨file, own⟩
    constructor
    · intro found now
      obtain ⟨_, zero⟩ | before := cases 0 found now
      · exact Nat.succ_ne_zero head.snapshotId (number.symm.trans zero.symm)
      · exact numbered.positive found before
    · intro id found now p above
      obtain ⟨rfl, rfl⟩ | before := cases id found now
      · obtain rfl := Option.mem_unique parent above
        exact number ▸ Nat.lt_succ_self head.snapshotId
      · exact numbered.descends id found before p above

/-- The chain may get a new head, which names parts of the old one and announced parts. -/
theorem mem_chain (numbered : store.Numbered) (mem : snap ∈ store'.chain) :
    snap ∈ store.chain ∨ ∃ head, currentIn store = .ok head ∧
      currentIn store' = .ok snap ∧ head.snapshotId < snap.snapshotId ∧
      ∀ part ∈ snap.partIds, part ∈ head.partIds ∨ part ∈ announced := by
  cases step with
  | same current snapshots =>
    refine .inl ?_
    have same : store'.chain = store.chain := by
      simp only [chain, current]
      cases store.current with
      | none => rfl
      | some id =>
        exact ancestors_congr numbered (fun id _ => by simp only [loadSnapshotIn, snapshots]) _
          (Nat.lt_succ_self id)
    exact same ▸ mem
  | file head new loaded number parent current snapshots =>
    refine .inl ?_
    have step : HeadStep announced store store' :=
      .file head new loaded number parent current snapshots
    have same : store'.chain = store.chain := by
      simp only [chain, current]
      obtain ⟨absent, _⟩ | ⟨named, _⟩ := currentIn_eq_ok.mp loaded
      · simp [absent]
      · simp only [named]
        exact ancestors_congr numbered (fun id below => step.load loaded (Nat.lt_succ_iff.mp below))
          _ (Nat.lt_succ_self _)
    exact same ▸ mem
  | head head new loaded number parent file named current snapshots =>
    have same (id : SnapshotId) : loadSnapshotIn store' id = loadSnapshotIn store id := by
      simp only [loadSnapshotIn, snapshots]
    have found : loadSnapshotIn store' new.snapshotId = .ok new :=
      (same _).trans (loadSnapshotIn_eq_ok.mpr ⟨file, rfl⟩)
    simp only [chain, current, ancestors, found, parent, Option.map_some, Option.getD_some,
      List.mem_cons] at mem
    obtain rfl | above := mem
    · refine .inr ⟨head, loaded, ?_, number ▸ Nat.lt_succ_self head.snapshotId, named⟩
      simp only [currentIn, current]
      exact found
    · refine .inl ?_
      rw [number, ancestors_congr numbered (fun id _ => same id) _ (Nat.lt_succ_self _)] at above
      obtain ⟨absent, rfl⟩ | ⟨own, _⟩ := currentIn_eq_ok.mp loaded
      · -- Below the first snapshot there is no file.
        exfalso
        simp only [Snapshot.empty, ancestors] at above
        cases none : loadSnapshotIn store 0 with
        | ok first => exact numbered.positive first none
        | error e => simp [none] at above
      · simp only [chain, own]
        exact above

theorem head_of_ok {head : Snapshot} (loaded : currentIn store = .ok head) :
    ∃ head', currentIn store' = .ok head' ∧
      (head' = head ∨ (head.snapshotId < head'.snapshotId ∧
        ∀ part ∈ head'.partIds, part ∈ head.partIds ∨ part ∈ announced)) := by
  have stays (current : store'.current = store.current) : currentIn store' = .ok head := by
    obtain ⟨absent, rfl⟩ | ⟨named, file⟩ := currentIn_eq_ok.mp loaded
    · simp [currentIn, current, absent]
    · simp only [currentIn, current, named]
      rw [step.load loaded le_rfl]
      exact loadSnapshotIn_eq_ok.mpr ⟨file, rfl⟩
  cases step with
  | same current snapshots | file _ _ _ _ _ current _ => exact ⟨head, stays current, .inl rfl⟩
  | head head' new loaded' number parent file named current snapshots =>
    obtain rfl := ok_unique loaded loaded'
    refine ⟨new, ?_, .inr ⟨number ▸ Nat.lt_succ_self head.snapshotId, named⟩⟩
    simp only [currentIn, current, loadSnapshotIn_eq_ok, snapshots]
    exact ⟨file, trivial⟩

/-- A snapshot of the chain that is retained now was retained before. -/
theorem retains (numbered : store.Numbered) (mem : snap ∈ store.chain)
    (kept : store'.Retains retain nowMs snap.snapshotId) :
    store.Retains retain nowMs snap.snapshotId := by
  obtain ⟨head', loaded', why⟩ := retains_iff.mp kept
  obtain ⟨id, named, le, file⟩ := Store.mem_chain numbered mem
  have there := mem_of_getElem? (loadSnapshotIn_eq_ok.mp file).1
  -- The head loads: a step from a store whose head does not load changes nothing.
  obtain ⟨head, loaded⟩ : ∃ head, currentIn store = .ok head := by
    cases step with
    | same current snapshots =>
      refine ⟨head', ?_⟩
      rw [← loaded']
      simp only [currentIn, loadSnapshotIn, current, snapshots]
    | file head _ loaded | head head _ loaded => exact ⟨head, loaded⟩
  have own : head.snapshotId = id := by
    obtain ⟨absent, _⟩ | ⟨current, _⟩ := currentIn_eq_ok.mp loaded
    · simp [absent] at named
    · exact Option.mem_unique current named
  have under : snap.snapshotId ≤ head.snapshotId := own ▸ le
  refine retains_iff.mpr ⟨head, loaded, ?_⟩
  obtain early | current | ⟨_, young⟩ := why
  · exact .inl (mem_newest_of_grown step.grown there early)
  · obtain ⟨head'', loaded'', same | ⟨above, _⟩⟩ := step.head_of_ok loaded
    · obtain rfl := ok_unique loaded' loaded''
      exact .inr (.inl (same ▸ current))
    · obtain rfl := ok_unique loaded' loaded''
      exact absurd (current ▸ above) (Nat.not_lt.mpr under)
  · refine .inr (.inr ⟨there, ?_⟩)
    simpa only [withinHorizon, step.load loaded under] using young

/-- The parts that live snapshots need are those of before and announced ones. -/
theorem needs (numbered : store.Numbered) {part : String} (needed : store'.Needs retain nowMs part)
    : store.Needs retain nowMs part ∨ part ∈ announced := by
  obtain ⟨snap, ⟨mem, kept⟩, named⟩ := needed
  obtain before | ⟨head, loaded, _, _, names⟩ := step.mem_chain numbered mem
  · exact .inl ⟨snap, ⟨before, step.retains numbered before kept⟩, named⟩
  · exact (names part named).imp_left (needs_of_head loaded)

end HeadStep

end Store

namespace Remote

open Store

variable {retain : Nat} {nowMs : Int}

/-! ### What each side may rely on -/

variable (retainSnapshots : Nat)

/-- No live snapshot names a part whose object the reconciliation has taken away. -/
def NothingMissing (nowMs : Int) (s : Remote) : Prop :=
  ∀ part, s.store.Needs retainSnapshots nowMs part → part ∈ s.removed → part ∈ s.cold

structure Tidy (retainSnapshots : Nat) (nowMs : Int) (s : Remote) : Prop where
  numbered : s.store.Numbered
  announced : ∀ id ∈ s.pending, id ∈ s.announced
  kept : s.NothingMissing retainSnapshots nowMs

structure Sweeps (retainSnapshots : Nat) (nowMs : Int) (s s' : Remote) : Prop where
  store : s'.store = s.store
  pending : s'.pending = s.pending
  cold : ∀ id ∈ s.pending, s'.cold[id]? = s.cold[id]?
  tidy : s.Tidy retainSnapshots nowMs → s'.Tidy retainSnapshots nowMs

structure Adds (retainSnapshots : Nat) (nowMs : Int) (s s' : Remote) : Prop where
  phase : s'.phase = s.phase
  aged : s'.aged = s.aged
  announced : ∀ id ∈ s.announced, id ∈ s'.announced
  step : HeadStep s.announced s.store s'.store
  tidy : s.Tidy retainSnapshots nowMs → s'.Tidy retainSnapshots nowMs

theorem Sweeps.refl (s : Remote) : Sweeps retain nowMs s s :=
  ⟨rfl, rfl, fun _ _ => rfl, id⟩

theorem Adds.refl (s : Remote) : Adds retain nowMs s s :=
  ⟨rfl, rfl, fun _ h => h, .same rfl rfl, id⟩

inductive Side where
  | reconciler
  | releaser
  deriving DecidableEq

/-- The accesses that are looked at: no read of the reconciliation fails, and once it has listed the
objects, none that was past the horizon belongs to a part of a release that has been under way since
it began. -/
def allows : Side → Fault → Remote → Prop
  | .reconciler, fault, s => fault.isFail = false ∧
      (s.phase = .listed → ∀ id ∈ s.announced, id ∉ s.aged)
  | .releaser, _, _ => True

def contract (nowMs : Int) : Side → Contract Remote
  | .reconciler =>
    ⟨allows .reconciler, Adds retainSnapshots nowMs, Sweeps retainSnapshots nowMs⟩
  | .releaser => ⟨allows .releaser, Sweeps retainSnapshots nowMs, Adds retainSnapshots nowMs⟩

theorem contract_compatible : Threads.Compatible (contract retain nowMs) := by
  intro i j differ s s' step
  cases i with
  | reconciler =>
    cases j with
    | reconciler => exact absurd rfl differ
    | releaser => exact step
  | releaser =>
    cases j with
    | reconciler => exact step
    | releaser => exact absurd rfl differ

/-! ### The live set, read piece by piece -/

variable {start : Store} {first : Snapshot}

/-- Since `CURRENT` was read: the snapshots that were on the chain `start` still have their files,
and every newer one names parts of the head of that time and announced parts. -/
structure Since (retainSnapshots : Nat) (nowMs : Int) (start : Store) (first : Snapshot)
    (s : Remote) : Prop where
  tidy : s.Tidy retainSnapshots nowMs
  head : ∃ now, currentIn s.store = .ok now ∧ first.snapshotId ≤ now.snapshotId ∧
    ∀ part ∈ now.partIds, part ∈ first.partIds ∨ part ∈ s.announced
  chain : ∀ snap ∈ s.store.chain, snap ∈ start.chain ∨
    ∀ part ∈ snap.partIds, part ∈ first.partIds ∨ part ∈ s.announced
  files : ∀ snap ∈ start.chain, loadSnapshotIn s.store snap.snapshotId = .ok snap
  old : ∀ snap ∈ start.chain, snap.snapshotId ≤ first.snapshotId

theorem since_start {s : Remote} (tidy : s.Tidy retain nowMs)
    (loaded : currentIn s.store = .ok first) : Since retain nowMs s.store first s := by
  refine ⟨tidy, ⟨first, loaded, le_rfl, fun part named => .inl named⟩, fun snap mem =>
    .inl mem, fun snap mem => ?_, fun snap mem => ?_⟩
  · obtain ⟨_, _, _, file⟩ := mem_chain tidy.numbered mem
    exact file
  · obtain ⟨id, named, le, _⟩ := mem_chain tidy.numbered mem
    obtain ⟨absent, _⟩ | ⟨current, _⟩ := currentIn_eq_ok.mp loaded
    · simp [absent] at named
    · exact (Option.mem_unique current named).symm ▸ le

theorem since_stable : (contract retain nowMs .reconciler).Stable
    (Since retain nowMs start first) := by
  intro s s' since step
  obtain ⟨now, loaded, above, names⟩ := since.head
  have later (part : String) (named : part ∈ first.partIds ∨ part ∈ s.announced) :
      part ∈ first.partIds ∨ part ∈ s'.announced := named.imp_right (step.announced part)
  -- What a new head names, it has from the old one or it was announced.
  have through (part : String) (named : part ∈ now.partIds ∨ part ∈ s.announced) :
      part ∈ first.partIds ∨ part ∈ s'.announced :=
    later part (named.elim (names part) .inr)
  refine ⟨step.tidy since.tidy, ?_, fun snap mem => ?_, fun snap mem => ?_, since.old⟩
  · obtain ⟨now', loaded', rfl | ⟨new, parts⟩⟩ := step.step.head_of_ok loaded
    · exact ⟨now', loaded', above, fun part named => through part (.inl named)⟩
    · exact ⟨now', loaded', above.trans new.le, fun part named => through part (parts part named)⟩
  · obtain before | ⟨head, loaded', _, _, parts⟩ := step.step.mem_chain since.tidy.numbered mem
    · exact (since.chain snap before).imp_right fun all part named => later part (all part named)
    · obtain rfl := ok_unique loaded loaded'
      exact .inr fun part named => through part (parts part named)
  · rw [step.step.load loaded ((since.old snap mem).trans above)]
    exact since.files snap mem

theorem since_readable : Readable Remote.store (contract retain nowMs .reconciler)
    (Since retain nowMs start first) fun id snap => snap ∈ start.chain ∧ id = snap.snapshotId where
  stable := since_stable
  stays s _ := Sweeps.refl s
  answers n s allowed := by simp [contract, allows, Fault.isFail] at allowed
  known s since id snap known := known.2 ▸ since.files snap known.1

/-- The head of `start` did not load; then nobody builds on it. -/
structure Stuck (retainSnapshots : Nat) (nowMs : Int) (start : Store) (s : Remote) : Prop where
  current : s.store.current = start.current
  snapshots : s.store.snapshots = start.snapshots

theorem stuck_stable {e : PrismError} (failed : currentIn start = .error e) :
    (contract retain nowMs .reconciler).Stable (Stuck retain nowMs start) := by
  intro s s' stuck step
  have none (head : Snapshot) : currentIn s.store ≠ .ok head := by
    have same : currentIn s.store = currentIn start := by
      simp only [currentIn, loadSnapshotIn, stuck.current, stuck.snapshots]
    rw [same, failed]
    exact fun loaded => nomatch loaded
  cases step.step with
  | same current snapshots =>
    exact ⟨current.trans stuck.current, snapshots.trans stuck.snapshots⟩
  | file head _ loaded | head head _ loaded => exact absurd loaded (none head)

theorem readCurrent_secures : Secures (contract retain nowMs .reconciler)
      (fun head s => ∃ start, currentIn start = .ok head ∧
        Since retain nowMs start head s)
      (fun _ _ => True) (readCurrent Remote.store) (Tidy retain nowMs) := by
  refine Secures.bind (M := fun named s => ∃ start : Store, named = start.current ∧
    ((∃ head, currentIn start = .ok head ∧ Since retain nowMs start head s) ∨
      ∃ e, currentIn start = .error e ∧ Stuck retain nowMs start s)) ?_ fun named => ?_
  · refine Secures.read ?_ (fun _ _ _ _ _ => trivial) (fun s _ => Sweeps.refl s) ?_
      (fun _ _ _ _ => trivial) fun _ _ _ _ => trivial
    · rintro named s s' ⟨start, same, ⟨head, loaded, since⟩ | ⟨e, failed, stuck⟩⟩ step
      · exact ⟨start, same, .inl ⟨head, loaded, since_stable s s' since step⟩⟩
      · exact ⟨start, same, .inr ⟨e, failed, stuck_stable failed s s' stuck step⟩⟩
    · intro named s tidy found
      refine ⟨s.store, (Except.ok.inj found).symm, ?_⟩
      cases loaded : currentIn s.store with
      | ok head => exact .inl ⟨head, rfl, since_start tidy loaded⟩
      | error e => exact .inr ⟨e, rfl, rfl, rfl⟩
  · refine Secures.open_exists fun start => Secures.assume fun same => ?_
    cases named with
    | none =>
      refine Secures.pure fun s held => ?_
      obtain ⟨head, loaded, since⟩ | ⟨e, failed, _⟩ := held
      · obtain rfl : Snapshot.empty = head := by
          simpa [currentIn, ← same] using loaded
        exact ⟨start, loaded, since⟩
      · simp [currentIn, ← same] at failed
    | some id =>
      refine Secures.read ?_ (fun _ _ _ _ _ => trivial) (fun s _ => Sweeps.refl s) ?_
        (fun _ _ _ _ => trivial) fun _ _ _ _ => trivial
      · rintro head s s' ⟨start, loaded, since⟩ step
        exact ⟨start, loaded, since_stable s s' since step⟩
      · intro snap s held found
        obtain ⟨head, loaded, since⟩ | ⟨e, failed, stuck⟩ := held
        · obtain ⟨absent, _⟩ | ⟨current, _⟩ := currentIn_eq_ok.mp loaded
          · simp [absent] at same
          · obtain rfl : id = head.snapshotId := Option.some.inj (same.trans current)
            have file := since.files head (mem_chain_of_current (by simp [current]) loaded)
            obtain rfl := ok_unique found file
            exact ⟨start, loaded, since⟩
        · -- The file is as it was, so it does not load now either.
          have failed' : loadSnapshotIn s.store id = .error e := by
            simpa only [currentIn, ← same, loadSnapshotIn, stuck.snapshots] using failed
          simp only [failed'] at found
          cases found

/-- The live set covers what live snapshots need, up to announced parts. -/
structure Covered (retainSnapshots : Nat) (nowMs : Int) (live : Retained) (s : Remote) : Prop where
  tidy : s.Tidy retainSnapshots nowMs
  parts : ∀ part, s.store.Needs retainSnapshots nowMs part →
    part ∈ live.parts ∨ part ∈ s.announced

variable {live : Retained}

theorem covered_stable : (contract retain nowMs .reconciler).Stable
    (Covered retain nowMs live) := by
  intro s s' covered step
  refine ⟨step.tidy covered.tidy, fun part needed => ?_⟩
  obtain before | new := step.step.needs covered.tidy.numbered needed
  · exact (covered.parts part before).imp_right (step.announced part)
  · exact .inr (step.announced part new)

theorem covered_of_covers {s : Remote} {all : List SnapshotId}
    (loaded : currentIn start = .ok first) (since : Since retain nowMs start first s)
    (listed : ∀ snap ∈ start.chain, snap.snapshotId ∈ all)
    (newer : ∀ snap ∈ start.chain, snap.snapshotId ∈ s.store.newest (max retain 1) →
      snap.snapshotId ∈ all.reverse.take (max retain 1))
    (covers : Covers (fun id snap => snap ∈ start.chain ∧ id = snap.snapshotId) retain nowMs
      first.snapshotId all live) : Covered retain nowMs live s := by
  refine ⟨since.tidy, fun part ⟨snap, ⟨mem, kept⟩, named⟩ => ?_⟩
  obtain old | new := since.chain snap mem
  · -- A snapshot of that time that is retained now was found retained.
    obtain ⟨now, current, why⟩ := retains_iff.mp kept
    refine .inl (covers.parts snap.snapshotId ?_ snap ⟨old, rfl⟩ part named)
    obtain early | own | ⟨_, young⟩ := why
    · exact covers.pinned _ (List.mem_append_left _ (newer snap old early))
    · obtain ⟨now', current', above, _⟩ := since.head
      obtain rfl := ok_unique current current'
      have same : snap.snapshotId = first.snapshotId :=
        Nat.le_antisymm (since.old snap old) (own ▸ above)
      exact covers.pinned _ (List.mem_append_right _ (by simp [same]))
    · refine covers.young _ (listed snap old) snap ⟨old, rfl⟩ ?_
      simpa [withinHorizon, since.files snap old] using young
  · obtain inside | announced := new part named
    · obtain ⟨_, rfl⟩ | ⟨current, _⟩ := currentIn_eq_ok.mp loaded
      · simp [Snapshot.partIds, Snapshot.empty] at inside
      · have head : first ∈ start.chain := mem_chain_of_current (by simp [current]) loaded
        exact .inl (covers.parts first.snapshotId (covers.pinned _ (by simp)) first ⟨head, rfl⟩
          part inside)
    · exact .inr announced

theorem readRetained_secures : Secures (contract retain nowMs .reconciler) (Covered retain nowMs)
      (fun _ _ => True) (readRetained Remote.store retain nowMs)
      (Tidy retain nowMs) := by
  refine Secures.bind readCurrent_secures fun head => Secures.open_exists fun start =>
    Secures.assume fun loaded => ?_
  let Newer (all : List SnapshotId) (s : Remote) : Prop := ∀ snap ∈ start.chain,
    snap.snapshotId ∈ all ∧ (snap.snapshotId ∈ s.store.newest (max retain 1) →
      snap.snapshotId ∈ all.reverse.take (max retain 1))
  have stable (all : List SnapshotId) : (contract retain nowMs .reconciler).Stable
      fun s => Since retain nowMs start head s ∧ Newer all s := by
    intro s s' ⟨since, newer⟩ step
    refine ⟨since_stable s s' since step, fun snap mem => ?_⟩
    have there := mem_of_getElem? (loadSnapshotIn_eq_ok.mp (since.files snap mem)).1
    exact ⟨(newer snap mem).1, fun early =>
      (newer snap mem).2 (mem_newest_of_grown step.step.grown there early)⟩
  refine Secures.bind (M := fun all s => Since retain nowMs start head s ∧ Newer all s)
    ?_ fun all => ?_
  · refine Secures.read stable (fun _ _ _ _ _ => trivial) (fun s _ => Sweeps.refl s) ?_
      (fun _ _ _ _ => trivial) fun _ _ _ _ => trivial
    intro all s since found
    cases found
    refine ⟨since, fun snap mem => ⟨mem_listSnapshots.mpr ?_, fun early => early⟩⟩
    exact mem_of_getElem? (loadSnapshotIn_eq_ok.mp (since.files snap mem)).1
  · have readable : Readable Remote.store (contract retain nowMs .reconciler)
        (fun s => Since retain nowMs start head s ∧ Newer all s)
        fun id snap => snap ∈ start.chain ∧ id = snap.snapshotId :=
      ⟨stable all, fun s _ => Sweeps.refl s, fun n s allowed => by
        simp [contract, allows, Fault.isFail] at allowed, fun s held =>
        since_readable.known s held.1⟩
    refine (retainFrom_secures readable retain nowMs all).weaken ?_ fun _ _ h => h
    intro live s ⟨⟨since, newer⟩, covers⟩
    exact covered_of_covers loaded since (fun snap mem => (newer snap mem).1)
      (fun snap mem => (newer snap mem).2) covers

/-! ### The deletions -/

structure Deleting (retainSnapshots : Nat) (nowMs : Int) (live : Retained) (aged : List String)
    (s : Remote) : Prop where
  covered : Covered retainSnapshots nowMs live s
  phase : s.phase = .listed
  aged : s.aged = aged

variable {aged : List String}

theorem deleting_stable : (contract retain nowMs .reconciler).Stable
      (Deleting retain nowMs live aged) :=
  fun s s' deleting step => ⟨covered_stable s s' deleting.covered step,
    step.phase.trans deleting.phase, step.aged.trans deleting.aged⟩

theorem listCold_secures : Secures (contract retain nowMs .reconciler)
      (fun parts => Deleting retain nowMs live
        ((parts.filter fun object => isOld nowMs object.2).map Prod.fst))
      (fun _ _ => True) (listCold nowMs) (Covered retain nowMs live) := by
  refine Secures.update (fun _ => deleting_stable) (fun _ _ _ _ _ => trivial)
    (fun s _ => Sweeps.refl s) (fun _ s _ covered => ?_) fun _ _ _ _ => trivial
  have tidy : s.Tidy retain nowMs := covered.tidy
  have tidy' : Tidy retain nowMs { s with
      phase := .listed
      aged := ((listParts s).filter fun object => isOld nowMs object.2).map Prod.fst } :=
    ⟨tidy.numbered, tidy.announced, tidy.kept⟩
  exact ⟨⟨rfl, rfl, fun _ _ => rfl, fun _ => tidy'⟩, ⟨⟨tidy', covered.parts⟩, rfl, rfl⟩, trivial⟩

theorem deleting_read {α : Type} (g : Remote → Result α) :
    Secures (contract retain nowMs .reconciler)
      (fun _ => Deleting retain nowMs live aged) (fun _ _ => True)
      (Prog.read deviceError g) (Deleting retain nowMs live aged) := by
  refine Secures.read (fun _ => deleting_stable) (fun _ _ _ _ _ => trivial)
    (fun s _ => Sweeps.refl s) ?_ (fun _ _ _ _ => trivial) fun _ _ _ _ => trivial
  exact fun _ s deleting _ => deleting

variable {id : String}

/-- An old object that the live set does not name is that of a part nobody needs. -/
theorem deleteCold_secures (old : id ∈ aged) (orphan : id ∉ live.parts) :
    Secures (contract retain nowMs .reconciler)
      (fun _ => Deleting retain nowMs live aged) (fun _ _ => True) (deleteCold id)
      (Deleting retain nowMs live aged) := by
  refine Secures.replace deleting_stable (fun _ _ _ _ _ => trivial) (fun s _ => Sweeps.refl s)
    (fun _ s allowed deleting => ?_) fun _ _ _ _ => trivial
  have unannounced : id ∉ s.announced := fun announced =>
    allowed.2 deleting.phase id announced (deleting.aged.symm ▸ old)
  have unneeded : ¬ s.store.Needs retain nowMs id := fun needed =>
    (deleting.covered.parts id needed).elim orphan unannounced
  have others (other : String) (differ : other ≠ id) : (s.cold.erase id)[other]? = s.cold[other]? := by
    rw [Std.ExtTreeMap.getElem?_erase, if_neg]
    simpa using differ.symm
  have tidy := deleting.covered.tidy
  have tidy' : Tidy retain nowMs
      { s with cold := s.cold.erase id, removed := id :: s.removed } := by
    refine ⟨tidy.numbered, tidy.announced, fun part needed gone => ?_⟩
    have differ : part ≠ id := fun same => unneeded (same ▸ needed)
    have there := tidy.kept part needed ((List.mem_cons.mp gone).resolve_left differ)
    rw [Std.ExtTreeMap.mem_iff_isSome_getElem?] at there ⊢
    rwa [others part differ]
  refine ⟨⟨rfl, rfl, fun other mem => others other fun same => ?_, fun _ => tidy'⟩,
    ⟨⟨tidy', deleting.covered.parts⟩, deleting.phase, deleting.aged⟩, trivial⟩
  exact unannounced (tidy.announced id (same ▸ mem))

theorem deleteMirror_secures (id : SnapshotId) : Secures (contract retain nowMs .reconciler)
      (fun _ => Deleting retain nowMs live aged) (fun _ _ => True) (deleteMirror id)
      (Deleting retain nowMs live aged) := by
  refine Secures.replace deleting_stable (fun _ _ _ _ _ => trivial) (fun s _ => Sweeps.refl s)
    (fun _ s _ deleting => ?_) fun _ _ _ _ => trivial
  have tidy := deleting.covered.tidy
  have tidy' : Tidy retain nowMs { s with mirror := s.mirror.erase id } :=
    ⟨tidy.numbered, tidy.announced, tidy.kept⟩
  exact ⟨⟨rfl, rfl, fun _ _ => rfl, fun _ => tidy'⟩,
    ⟨⟨tidy', deleting.covered.parts⟩, deleting.phase, deleting.aged⟩, trivial⟩

theorem reconcile_secures (dryRun : Bool) :
    Secures (contract retain nowMs .reconciler) (fun _ _ => True) (fun _ _ => True)
      (reconcileRemoteOrphans retain nowMs dryRun) (Tidy retain nowMs) := by
  have ended (s : Remote) : Sweeps retain nowMs s { s with phase := .over } :=
    ⟨rfl, rfl, fun _ _ => rfl, fun tidy =>
      ⟨tidy.numbered, tidy.announced, tidy.kept⟩⟩
  refine Secures.ending (M := fun _ _ => True) (F := fun _ _ => True) ?_ ended
    (fun _ _ _ _ _ => trivial) (fun _ _ _ _ _ => trivial) (fun _ _ _ => trivial)
    fun _ _ _ => trivial
  have begins (s : Remote) (tidy : s.Tidy retain nowMs) :
      (beginReconciliation s).Tidy retain nowMs :=
    ⟨tidy.numbered, fun _ mem => mem, tidy.kept⟩
  refine Secures.bind (M := fun _ => Tidy retain nowMs) (Secures.note
    (fun _ _ tidy step => step.tidy tidy) (fun s tidy => ?_) begins) fun _ => ?_
  · exact ⟨rfl, rfl, fun _ _ => rfl, begins s⟩
  refine Secures.bind readRetained_secures fun live => Secures.bind listCold_secures fun parts => ?_
  generalize listed : (parts.filter fun object => isOld nowMs object.2).map Prod.fst = aged
  refine Secures.bind (deleting_read _) fun mirrors => ?_
  extract_lets orphanParts orphanMirrors oldParts oldMirrors
  have orphans : ∀ id ∈ oldParts, id ∈ aged ∧ id ∉ live.parts := by
    intro id mem
    obtain ⟨object, found, rfl⟩ := List.mem_map.mp mem
    obtain ⟨unnamed, old⟩ := List.mem_filter.mp found
    obtain ⟨inside, outside⟩ := List.mem_filter.mp unnamed
    refine ⟨listed ▸ List.mem_map_of_mem (List.mem_filter.mpr ⟨inside, old⟩), ?_⟩
    simpa using outside
  clear_value oldParts oldMirrors
  cases dryRun with
  | true => exact Secures.pure fun _ _ => trivial
  | false =>
    refine Secures.bind (Secures.each (I := fun _ _ => Deleting retain nowMs live aged) oldParts
      (fun _ h => h) fun before id after _ split => ?_) fun _ => ?_
    · obtain ⟨old, orphan⟩ := orphans id (by simp [split])
      exact deleteCold_secures old orphan
    · exact Secures.bind (Secures.each (I := fun _ _ => Deleting retain nowMs live aged) oldMirrors
        (fun _ h => h) fun _ id _ _ _ => deleteMirror_secures id) fun _ =>
        Secures.pure fun _ _ => trivial

/-! ### The release -/

variable {part : Part}

/-- Every part that is written has its rerank column. -/
theorem rerankOf_buildPart {shape : PartShape} {spec : PartSpec} {seq : Nat} {rows : List RowIn}
    {createdMs : Int} (built : buildPart shape spec seq rows createdMs = .ok part) :
    (rerankOf part).isSome := by
  obtain ⟨_, _, _, _, written⟩ := buildPart_written built
  obtain ⟨column, mem, ran⟩ := exists_of_mem_of_mapM_eq_ok (x := ⟨"rerank_vectors", "rerank.vec",
    part.rows.flatMap fun r => r.vector.flatMap (Bytes.le 4 ·.toNat)⟩) written.frames
    (by simp [logicalColumns])
  obtain ⟨framing, _, rfl⟩ := bind_pure_eq_ok.mp ran
  rw [rerankOf, written.files, List.lookup_isSome_iff]
  exact ⟨_, List.mem_map_of_mem mem, by simp⟩

variable {released : List String} {parent : Snapshot} {ids placed published : List String}

/-- Between two releases: what is on disk of the parts `released` is whole. -/
structure Ready (released : List String) (retainSnapshots : Nat) (nowMs : Int) (s : Remote) :
    Prop where
  tidy : s.Tidy retainSnapshots nowMs
  tiered : ∀ id ∈ released, ∀ part : Part, s.store.parts[id]? = some part →
    (rerankOf part).isSome

/-- A release under way: it builds on the head, these parts are in place and the objects of these
are there. -/
structure Building (released : List String) (retainSnapshots : Nat) (nowMs : Int) (parent : Snapshot)
    (ids placed published : List String) (s : Remote) : Prop where
  ready : s.Ready released retainSnapshots nowMs
  head : currentIn s.store = .ok parent
  pending : s.pending = ids
  parts : ∀ id ∈ placed, id ∈ s.store.parts
  cold : ∀ id ∈ published, id ∈ s.cold

theorem ready_stable : (contract retain nowMs .releaser).Stable (Ready released retain nowMs) :=
  fun _ _ ready step => ⟨step.tidy ready.tidy, step.store ▸ ready.tiered⟩

theorem building_stable (within : ∀ id ∈ published, id ∈ ids) :
    (contract retain nowMs .releaser).Stable
      (Building released retain nowMs parent ids placed published) := by
  intro s s' building step
  refine ⟨ready_stable s s' building.ready step, step.store ▸ building.head, step.pending.trans building.pending,
    step.store ▸ building.parts, fun id mem => ?_⟩
  have there := building.cold id mem
  rw [Std.ExtTreeMap.mem_iff_isSome_getElem?] at there ⊢
  rwa [step.cold id (building.pending.symm ▸ within id mem)]

/-- A step that leaves the head alone and takes nothing away. -/
theorem Tidy.step {s s' : Remote} (tidy : s.Tidy retain nowMs)
    (current : s'.store.current = s.store.current)
    (snapshots : s'.store.snapshots = s.store.snapshots)
    (announced : ∀ id ∈ s'.pending, id ∈ s'.announced) (removed : s'.removed = s.removed)
    (cold : ∀ id ∈ s.cold, id ∈ s'.cold) : s'.Tidy retain nowMs := by
  have same : HeadStep [] s.store s'.store := .same current snapshots
  refine ⟨same.numbered tidy.numbered, announced, fun part needed gone => ?_⟩
  obtain before | none := same.needs tidy.numbered needed
  · exact cold part (tidy.kept part before (removed ▸ gone))
  · cases none

theorem beginRelease_secures (r : Release) : Secures (contract retain nowMs .releaser)
      (fun parent => Building released retain nowMs parent r.ids [] [])
      (fun _ => Ready released retain nowMs) (beginRelease r)
      (Ready released retain nowMs) := by
  refine Secures.transact (fun _ => building_stable (by simp)) (fun _ => ready_stable)
    (fun s _ => Adds.refl s) ?_ (fun _ _ ready _ => ready) fun _ _ _ ready => ready
  intro fault s parent s' _ ready done
  cases loaded : currentIn s.store with
  | error e => simp [loaded, Except.map] at done
  | ok head =>
    simp only [loaded, Except.map, Except.ok.injEq, Prod.mk.injEq] at done
    obtain ⟨rfl, rfl⟩ := done
    have tidy' : Tidy retain nowMs
        { s with pending := r.ids, announced := s.announced ++ r.ids } :=
      ready.tidy.step rfl rfl (fun id mem => List.mem_append_right _ mem) rfl fun _ there => there
    exact ⟨⟨rfl, rfl, fun id mem => List.mem_append_left _ mem, .same rfl rfl, fun _ => tidy'⟩,
      ⟨⟨tidy', ready.tiered⟩, loaded, rfl, by simp, by simp⟩, tidy', ready.tiered⟩

theorem putPart_head (part : Part) (store : Store) : (putPart part store).current = store.current ∧
      (putPart part store).snapshots = store.snapshots := by
  unfold putPart
  split <;> exact ⟨rfl, rfl⟩

theorem getElem?_putPart {found : Part} {store : Store}
    (there : (putPart part store).parts[id]? = some found) :
    store.parts[id]? = some found ∨ (id = part.manifest.partId ∧ found = part) := by
  unfold putPart at there
  split at there
  · exact .inl there
  · exact (of_getElem?_insert there).symm

theorem mem_putPart {store : Store} (there : id ∈ store.parts ∨ id = part.manifest.partId) :
    id ∈ (putPart part store).parts := by
  unfold putPart
  split
  next found held =>
    obtain before | rfl := there
    · exact before
    · exact mem_of_getElem? held
  next =>
    rw [Std.ExtTreeMap.mem_insert]
    exact there.symm.imp_left fun same => by simp [same]

theorem putPart_secures (tier : (rerankOf part).isSome) : Secures (contract retain nowMs .releaser)
      (fun _ => Building released retain nowMs parent ids
        (placed ++ [part.manifest.partId]) [])
      (fun _ => Ready released retain nowMs)
      (onStore (Prog.replace deviceError (putPart part)))
      (Building released retain nowMs parent ids placed []) := by
  rw [onStore, Prog.zoom_replace storeLens]
  refine Secures.replace (building_stable (by simp)) (fun _ => ready_stable)
    (fun s _ => Adds.refl s) (fun _ s _ building => ?_) fun _ _ _ building => building.ready
  obtain ⟨current, snapshots⟩ := putPart_head part s.store
  have tidy := building.ready.tidy
  have tidy' : Tidy retain nowMs (setStore (putPart part s.store) s) :=
    tidy.step current snapshots tidy.announced rfl fun _ there => there
  have ready' : Ready released retain nowMs (setStore (putPart part s.store) s) := by
    refine ⟨tidy', fun id mem found there => ?_⟩
    obtain before | ⟨_, rfl⟩ := getElem?_putPart there
    · exact building.ready.tiered id mem found before
    · exact tier
  refine ⟨⟨rfl, rfl, fun _ mem => mem, .same current snapshots, fun _ => tidy'⟩,
    ⟨ready', ?_, building.pending, fun id mem => mem_putPart ?_, by simp⟩, ready'⟩
  · rw [← building.head]
    simp only [setStore, currentIn, loadSnapshotIn, current, snapshots]
  · exact (List.mem_append.mp mem).imp (building.parts id) List.mem_singleton.mp

/-- A read of a release under way. -/
theorem building_read {α : Type} {g : Remote → Result α} {C : α → Remote → Prop}
    (stable : ∀ a, (contract retain nowMs .releaser).Stable fun s => Building released retain nowMs
      parent ids placed published s ∧ C a s)
    (shows : ∀ a s, Building released retain nowMs parent ids placed published s → g s = .ok a → C
      a s) : Secures (contract retain nowMs .releaser)
      (fun a s => Building released retain nowMs parent ids placed published s ∧ C a s)
      (fun _ => Ready released retain nowMs) (Prog.read deviceError g)
      (Building released retain nowMs parent ids placed published) := by
  refine Secures.read stable (fun _ => ready_stable) (fun s _ => Adds.refl s) ?_
    (fun _ _ building _ => building.ready) fun _ _ _ building => building.ready
  exact fun a s building found => ⟨building, shows a s building found⟩

theorem verifyLanded_secures {want : Nat} (own : id ∈ ids) (within : ∀ id ∈ published, id ∈ ids) :
    Secures (contract retain nowMs .releaser)
      (fun _ => Building released retain nowMs parent ids placed (published ++ [id]))
      (fun _ => Ready released retain nowMs) (verifyLanded id want)
      (Building released retain nowMs parent ids placed published) := by
  have found (s : Remote) : (Building released retain nowMs parent ids placed published s ∧
      id ∈ s.cold) → Building released retain nowMs parent ids placed (published ++ [id]) s :=
    fun ⟨building, there⟩ => ⟨building.ready, building.head, building.pending, building.parts,
      fun other mem => (List.mem_append.mp mem).elim (building.cold other)
        fun last => List.mem_singleton.mp last ▸ there⟩
  have within' : ∀ other ∈ published ++ [id], other ∈ ids := fun other mem =>
    (List.mem_append.mp mem).elim (within other) fun last => List.mem_singleton.mp last ▸ own
  refine Secures.bind (building_read (C := fun landed s => landed.isSome → id ∈ s.cold)
    (fun landed => ?_) ?_) fun landed => ?_
  · intro s s' ⟨building, there⟩ step
    refine ⟨building_stable within s s' building step, fun some => ?_⟩
    have still := building_stable within' s s' (found s ⟨building, there some⟩) step
    exact still.cold id (by simp)
  · intro landed s building read
    cases read
    intro some
    rw [Std.ExtTreeMap.mem_iff_isSome_getElem?]
    simpa using some
  · cases landed with
    | none => exact Secures.throw fun s held => held.1.ready
    | some length =>
      simp only
      split
      · exact Secures.pure fun s held => found s ⟨held.1, held.2 rfl⟩
      · exact Secures.throw fun s held => held.1.ready

theorem publishPartCold_secures {stampMs : Int} (own : id ∈ ids) (put : id ∈ placed)
    (known : id ∈ released) (within : ∀ id ∈ published, id ∈ ids) :
    Secures (contract retain nowMs .releaser)
      (fun _ => Building released retain nowMs parent ids placed (published ++ [id]))
      (fun _ => Ready released retain nowMs) (publishPartCold stampMs id)
      (Building released retain nowMs parent ids placed published) := by
  have stays : (contract retain nowMs .releaser).Stable
      (Building released retain nowMs parent ids placed published) := building_stable within
  have constant (C : Prop) : (contract retain nowMs .releaser).Stable fun s =>
      Building released retain nowMs parent ids placed published s ∧ C :=
    fun s s' ⟨building, fact⟩ step => ⟨stays s s' building step, fact⟩
  refine Secures.bind (building_read (C := fun found _ => ∃ part bytes,
    found = some part ∧ rerankOf part = some bytes) (fun _ => constant _) ?_) fun found => ?_
  · intro found s building read
    obtain ⟨part, there⟩ := Option.isSome_iff_exists.mp
      (Std.ExtTreeMap.mem_iff_isSome_getElem?.mp (building.parts id put))
    obtain ⟨bytes, tier⟩ := Option.isSome_iff_exists.mp (building.ready.tiered id known part there)
    exact ⟨part, bytes, (Except.ok.inj read).symm.trans there, tier⟩
  refine (Secures.assume fun ⟨part, bytes, same, tier⟩ => ?_).strengthen fun s held => held.symm
  subst same
  simp only [Option.bind_some, tier, Option.map_some]
  -- Whether it is uploaded or not, what counts is that it is found afterwards.
  have verify : Secures _ _ _ (verifyLanded id bytes.length)
      (Building released retain nowMs parent ids placed published) :=
    verifyLanded_secures own within
  refine Secures.bind (building_read (C := fun _ _ => True) (fun _ => constant _)
    fun _ _ _ _ => trivial) fun before => ?_
  split
  · refine Secures.bind (M := fun _ => Building released retain nowMs parent ids placed published)
      (Secures.replace stays (fun _ => ready_stable) (fun s _ => Adds.refl s)
        (fun _ s _ held => ?_) fun _ _ _ held => held.1.ready) fun _ => verify
    have building := held.1
    have grows (other : String) (there : other ∈ s.cold) :
        other ∈ s.cold.insert id ⟨bytes, stampMs⟩ := Std.ExtTreeMap.mem_insert.mpr (.inr there)
    have tidy' : Tidy retain nowMs
        { s with cold := s.cold.insert id ⟨bytes, stampMs⟩ } :=
      building.ready.tidy.step rfl rfl building.ready.tidy.announced rfl grows
    have ready' : Ready released retain nowMs
        { s with cold := s.cold.insert id ⟨bytes, stampMs⟩ } := ⟨tidy', building.ready.tiered⟩
    exact ⟨⟨rfl, rfl, fun _ mem => mem, .same rfl rfl, fun _ => tidy'⟩,
      ⟨ready', building.head, building.pending, building.parts, fun other mem =>
        grows other (building.cold other mem)⟩, ready'⟩
  · exact verify.strengthen fun s held => held.1

/-- The accesses of the commit: the entries are opened, the file is written, then named. -/
theorem commitMeta_eq (parent : Snapshot) (entries : List PartEntry) (nextSeq : Nat)
    (active : Option String) (carried : SnapshotMeta) (createdMs : Int) :
    onStore (Catalog.commitMeta parent entries nextSeq active carried createdMs) = do
      let _ ← Prog.each (fun entry => onStore (checkEntry entry)) entries
      let snap := nextSnapshot parent entries nextSeq active carried createdMs
      Prog.replace deviceError fun s => { s with store := putSnapshot snap s.store }
      Prog.replace deviceError fun s => { s with store := putCurrent snap.snapshotId s.store }
      return snap := by
  simp only [onStore, Catalog.commitMeta, Prog.zoom_bind, Prog.zoom_each,
    Prog.zoom_replace storeLens]
  rfl

theorem checkEntry_secures (entry : PartEntry) (within : ∀ id ∈ published, id ∈ ids) :
    Secures (contract retain nowMs .releaser)
      (fun _ => Building released retain nowMs parent ids placed published)
      (fun _ => Ready released retain nowMs) (onStore (checkEntry entry))
      (Building released retain nowMs parent ids placed published) := by
  simp only [onStore, checkEntry, Prog.zoom_bind, Prog.zoom_ofExcept, Prog.zoom_read storeLens]
  refine Secures.bind (M := fun _ => Building released retain nowMs parent ids placed published)
    (Secures.ofExcept (fun _ _ _ building => building) fun _ _ _ building => building.ready)
    fun _ => ?_
  refine Secures.read (fun _ => building_stable within) (fun _ => ready_stable)
    (fun s _ => Adds.refl s) (fun _ _ building _ => building)
    (fun _ _ building _ => building.ready) fun _ _ _ building => building.ready

theorem commitMeta_secures (r : Release) :
    Secures (contract retain nowMs .releaser) (fun _ => Ready released retain nowMs)
      (fun _ => Ready released retain nowMs)
      (onStore (Catalog.commitMeta parent (r.entries parent) (r.nextSeq parent)
        (r.activeGeneration parent) (r.carried parent) r.nowMs))
      (Building released retain nowMs parent r.ids placed r.ids) := by
  have within : ∀ id ∈ r.ids, id ∈ r.ids := fun _ mem => mem
  rw [commitMeta_eq]
  refine Secures.bind (Secures.each (I := fun _ _ => Building released retain nowMs parent r.ids
    placed r.ids) (r.entries parent) (fun _ h => h) fun _ entry _ _ _ =>
      checkEntry_secures entry within) fun _ => ?_
  extract_lets snap
  have number : snap.snapshotId = parent.snapshotId + 1 := rfl
  have above : snap.parent = some parent.snapshotId := rfl
  have named : ∀ part ∈ snap.partIds, part ∈ parent.partIds ∨ part ∈ r.ids := by
    intro part mem
    obtain ⟨entry, inside, rfl⟩ := List.mem_map.mp mem
    exact r.named parent entry inside
  clear_value snap
  refine Secures.bind (M := fun _ s => Building released retain nowMs parent r.ids placed r.ids s ∧
    s.store.snapshots[snap.snapshotId]? = some snap) (Secures.replace ?_ (fun _ => ready_stable)
      (fun s _ => Adds.refl s) (fun _ s _ building => ?_) fun _ _ _ building => building.ready)
      fun _ => ?_
  · exact fun s s' ⟨building, file⟩ step =>
      ⟨building_stable within s s' building step, step.store ▸ file⟩
  · have tidy := building.ready.tidy
    have step (announced : List String) :
        HeadStep announced s.store (putSnapshot snap s.store) :=
      .file parent snap building.head number above rfl rfl
    have tidy' : Tidy retain nowMs { s with store := putSnapshot snap s.store } := by
      refine ⟨(step []).numbered tidy.numbered, tidy.announced, fun part needed gone => ?_⟩
      obtain before | none := (step []).needs tidy.numbered needed
      · exact tidy.kept part before gone
      · cases none
    have head : currentIn (putSnapshot snap s.store) = .ok parent := by
      obtain ⟨absent, rfl⟩ | ⟨current, file⟩ := currentIn_eq_ok.mp building.head
      · exact currentIn_eq_ok.mpr (.inl ⟨absent, rfl⟩)
      · have loaded := (step []).load building.head (le_refl parent.snapshotId)
        rw [loadSnapshotIn_eq_ok.mpr ⟨file, rfl⟩] at loaded
        exact currentIn_eq_ok.mpr (.inr ⟨current, (loadSnapshotIn_eq_ok.mp loaded).1⟩)
    exact ⟨⟨rfl, rfl, fun _ mem => mem, step _, fun _ => tidy'⟩,
      ⟨⟨⟨tidy', building.ready.tiered⟩, head, building.pending, building.parts, building.cold⟩,
        Std.ExtTreeMap.getElem?_insert_self⟩, tidy', building.ready.tiered⟩
  · refine Secures.bind (M := fun _ => Ready released retain nowMs) (Secures.replace ready_stable
      (fun _ => ready_stable) (fun s _ => Adds.refl s) (fun _ s _ held => ?_)
      fun _ _ _ held => held.1.ready) fun _ => Secures.pure fun _ tidy => tidy
    obtain ⟨building, file⟩ := held
    have tidy := building.ready.tidy
    have step {announced : List String} (all : ∀ id ∈ r.ids, id ∈ announced) :
        HeadStep announced s.store (putCurrent snap.snapshotId s.store) :=
      .head parent snap building.head number above file
        (fun part mem => (named part mem).imp_right (all part)) rfl rfl
    -- A part that is needed now was needed before, or its object was just verified.
    have tidy' : Tidy retain nowMs
        { s with store := putCurrent snap.snapshotId s.store } := by
      refine ⟨(step within).numbered tidy.numbered, tidy.announced, fun part needed gone => ?_⟩
      obtain before | new := (step within).needs tidy.numbered needed
      · exact tidy.kept part before gone
      · exact building.cold part new
    refine ⟨⟨rfl, rfl, fun _ mem => mem, step fun id mem => ?_, fun _ => tidy'⟩,
      ⟨tidy', building.ready.tiered⟩, tidy', building.ready.tiered⟩
    exact tidy.announced id (building.pending.symm ▸ mem)

theorem release_secures (r : Release) (known : ∀ id ∈ r.ids, id ∈ released) :
    Secures (contract retain nowMs .releaser)
      (fun _ => Ready released retain nowMs)
      (fun _ => Ready released retain nowMs) (release r)
      (Ready released retain nowMs) := by
  have rest (s : Remote) (tidy : s.Tidy retain nowMs) :
      Tidy retain nowMs { s with pending := [] } :=
    tidy.step rfl rfl (fun _ mem => nomatch mem) rfl fun _ there => there
  have ends (s : Remote) (ready : s.Ready released retain nowMs) :
      Ready released retain nowMs { s with pending := [] } :=
    ⟨rest s ready.tidy, ready.tiered⟩
  refine Secures.ending (M := fun _ => Ready released retain nowMs)
    (F := fun _ => Ready released retain nowMs) ?_ (fun s => ?_) (fun _ => ready_stable)
    (fun _ => ready_stable) (fun _ => ends) fun _ => ends
  · refine Secures.bind (beginRelease_secures r) fun parent => ?_
    refine Secures.bind (M := fun _ => Building released retain nowMs parent r.ids r.ids []) ?_
      fun _ => ?_
    · refine Secures.each (I := fun done _ => Building released retain nowMs parent r.ids
        (done.map (·.1.manifest.partId)) []) r.parts (fun _ h => h) fun before item after _ split => ?_
      simpa using putPart_secures (r.tiered item (by simp [split]))
    refine Secures.bind (M := fun _ => Building released retain nowMs parent r.ids r.ids r.ids) ?_
      fun _ => Secures.bind (commitMeta_secures r) fun _ => Secures.pure fun _ tidy => tidy
    refine Secures.each (I := fun done _ => Building released retain nowMs parent r.ids r.ids
      (done.map (·.1.manifest.partId))) r.parts (fun _ h => h) fun before item after _ split => ?_
    have own : item.1.manifest.partId ∈ r.ids := by simp [Release.ids, split]
    have within : ∀ id ∈ before.map (·.1.manifest.partId), id ∈ r.ids := by
      intro id mem
      rw [Release.ids, split, List.map_append]
      exact List.mem_append_left _ mem
    simpa using publishPartCold_secures own own (known _ own) within
  · exact ⟨rfl, rfl, fun _ mem => mem, .same rfl rfl, rest s⟩

/-! ### Both at once -/

/-- A reconciliation and a session of releases, over the files and objects of a store. -/
def beside (nowMs : Int) (releases : List Release) (store : Store)
    (cold : BTreeMap String ColdObject) (mirror : BTreeMap SnapshotId Int) :
    Threads Side Remote PrismError Unit where
  prog
    | .reconciler => reconcileRemoteOrphans retainSnapshots nowMs false >>= fun _ => pure ()
    | .releaser => Prog.session (releases.map release) >>= fun _ => pure ()
  state := ⟨store, cold, mirror, [], [], .idle, [], []⟩

/-- The moves of a schedule whose accesses are all looked at. -/
def Graced (t : Threads Side Remote PrismError Unit) (moves : List (Side × Fault)) : Prop :=
  Meets Threads.step (fun t move => allows move.1 move.2 t.state) t moves

/-- If no part that is released while the reconciliation is under way had an object past the
horizon when the objects were listed, then no live snapshot ever names a part whose object
the reconciliation has deleted. -/
theorem reconciliation_spares_live (retainSnapshots : Nat) (nowMs : Int) (releases : List Release)
    (store : Store) (numbered : store.Numbered)
    (whole : ∀ r ∈ releases, ∀ id ∈ r.ids, ∀ part : Part, store.parts[id]? = some part →
      (rerankOf part).isSome)
    (cold : BTreeMap String ColdObject) (mirror : BTreeMap SnapshotId Int)
    (moves : List (Side × Fault))
    (graced : Graced (beside retainSnapshots nowMs releases store cold mirror) moves) :
    let s := ((beside retainSnapshots nowMs releases store cold mirror).run moves).state
    ∀ snap ∈ s.store.chain, s.store.Retains retainSnapshots nowMs snap.snapshotId →
      ∀ part ∈ snap.partIds, part ∈ s.removed → part ∈ s.cold := by
  have tidy : Tidy retainSnapshots nowMs ⟨store, cold, mirror, [], [], .idle, [], []⟩ :=
    ⟨numbered, fun _ mem => (nomatch mem), fun _ _ gone => (nomatch gone)⟩
  have ready : Ready (releases.flatMap (·.ids)) retainSnapshots nowMs
      ⟨store, cold, mirror, [], [], .idle, [], []⟩ := by
    refine ⟨tidy, fun id mem => ?_⟩
    obtain ⟨r, inside, own⟩ := List.mem_flatMap.mp mem
    exact whole r inside id own
  have sound : Threads.Sound (contract retainSnapshots nowMs) (fun _ _ _ => True)
      (fun _ _ _ => True) (beside retainSnapshots nowMs releases store cold mirror) := by
    intro side
    cases side with
    | reconciler =>
      refine ⟨Tidy retainSnapshots nowMs, fun _ _ tidy step => step.tidy tidy, tidy, ?_⟩
      exact Secures.bind (reconcile_secures false) fun _ => Secures.pure fun _ _ => trivial
    | releaser =>
      refine ⟨Ready (releases.flatMap (·.ids)) retainSnapshots nowMs, ready_stable, ready, ?_⟩
      refine Secures.bind (Secures.each (I := fun _ _ => Ready (releases.flatMap (·.ids))
        retainSnapshots nowMs) (releases.map release) (fun _ h => h) fun before p after _ split => ?_)
        fun _ => Secures.pure fun _ _ => trivial
      obtain ⟨r, inside, rfl⟩ : ∃ r ∈ releases, release r = p :=
        List.mem_map.mp (by simp [split])
      have known (id : String) (own : id ∈ r.ids) : id ∈ releases.flatMap (·.ids) :=
        List.mem_flatMap.mpr ⟨r, inside, own⟩
      refine Secures.weaken (E := fun _ _ => True) (release_secures r known).attempt
        (fun result s held => ?_) fun _ _ _ => trivial
      cases result with
      | ok _ | error _ => exact held
  have allowed : Meets Threads.step
      (fun t move => (contract retainSnapshots nowMs move.1).allows move.2 t.state)
      (beside retainSnapshots nowMs releases store cold mirror) moves := by
    have same (side : Side) : (contract retainSnapshots nowMs side).allows = allows side := by
      cases side <;> rfl
    simp only [same]
    exact graced
  have kept := sound.invariant contract_compatible (I := Tidy retainSnapshots nowMs)
    (fun side s s' held step => by
      cases side with
      | reconciler => exact step.tidy held
      | releaser => exact step.tidy held) tidy moves allowed
  intro s snap mem retains part named gone
  exact kept.kept part ⟨snap, ⟨mem, retains⟩, named⟩ gone

instance : ∀ side fault s, Decidable (allows side fault s)
  | .reconciler, fault, s => inferInstanceAs (Decidable (fault.isFail = false ∧
      (s.phase = .listed → ∀ id ∈ s.announced, id ∉ s.aged)))
  | .releaser, _, _ => inferInstanceAs (Decidable True)

instance (t : Threads Side Remote PrismError Unit) (moves : List (Side × Fault)) :
    Decidable (Graced t moves) :=
  inferInstanceAs (Decidable (Meets Threads.step (fun t move => allows move.1 move.2 t.state) t
    moves))

def firstRelease (stampMs : Int) : Release :=
  match built : firstPart with
  | .ok part =>
    { parts := [(part, stampMs)]
      entries := fun parent => parent.parts ++ [.legacy part.manifest.partId]
      nextSeq := fun _ => 2
      activeGeneration := fun _ => some "g"
      carried := SnapshotMeta.of
      nowMs := stampMs
      tiered := fun item mem => by
        obtain rfl := List.mem_singleton.mp mem
        exact rerankOf_buildPart built
      named := fun parent entry mem => by
        obtain old | new := List.mem_append.mp mem
        · exact .inl (List.mem_map_of_mem old)
        · obtain rfl := List.mem_singleton.mp new
          exact .inr (by simp [PartEntry.partId]) }
  | .error _ => ⟨[], Snapshot.parts, fun _ => 1, Snapshot.activeGeneration, SnapshotMeta.of, stampMs,
      fun _ mem => (nomatch mem), fun _ _ mem => .inl (List.mem_map_of_mem mem)⟩

def accesses (side : Side) (count : Nat) : List (Side × Fault) :=
  List.replicate count (side, .proceed)

/-- What an attempt that crashed before its commit has left on the object store. -/
def leftover (part : Part) : BTreeMap String ColdObject :=
  (∅ : BTreeMap String ColdObject).insert part.manifest.partId ⟨(rerankOf part).getD [], 0⟩

set_option maxRecDepth 100000

/-- The leftover is deleted, then the part is released again. -/
theorem reconciliation_before_release : ∃ part ∈ firstPart.toOption,
    let t := beside 1 10000000 [firstRelease 9999000] Store.fresh (leftover part) ∅
    let moves := accesses .reconciler 10 ++ accesses .releaser 40
    let s := (t.run moves).state
    Graced t moves ∧ s.store.current = some 1 ∧ part.manifest.partId ∈ s.removed ∧
      ∀ snap ∈ s.store.chain, s.store.Retains 1 10000000 snap.snapshotId →
        ∀ part ∈ snap.partIds, part ∈ s.removed → part ∈ s.cold := by
  have concrete : ∃ part ∈ firstPart.toOption,
      let t := beside 1 10000000 [firstRelease 9999000] Store.fresh (leftover part) ∅
      let moves := accesses .reconciler 10 ++ accesses .releaser 40
      let s := (t.run moves).state
      Graced t moves ∧ s.store.current = some 1 ∧ part.manifest.partId ∈ s.removed := by
    decide +kernel
  obtain ⟨part, built, graced, named, gone⟩ := concrete
  have nothing (r : Release) (_ : r ∈ [firstRelease 9999000]) (id : String) (_ : id ∈ r.ids)
      (part : Part) (there : Store.fresh.parts[id]? = some part) : (rerankOf part).isSome := by
    simp [Store.fresh] at there
  exact ⟨part, built, graced, named, gone, reconciliation_spares_live 1 10000000 _ Store.fresh
    numbered_fresh nothing _ _ _ graced⟩

/-- The leftover is past the horizon and listed as an orphan. The release finds an object of the
right size and does not upload; after its commit, the object is deleted. -/
theorem reconciliation_takes_leftover : ∃ part ∈ firstPart.toOption,
    let t := beside 1 10000000 [firstRelease 9999000] Store.fresh (leftover part) ∅
    let s := (t.run (accesses .reconciler 6 ++ accesses .releaser 40 ++
      accesses .reconciler 10)).state
    s.store.current = some 1 ∧ ∃ snap ∈ s.store.chain,
      s.store.Retains 1 10000000 snap.snapshotId ∧ part.manifest.partId ∈ snap.partIds ∧
        part.manifest.partId ∈ s.removed ∧ part.manifest.partId ∉ s.cold := by
  decide +kernel

end Remote

end Prism
