import Prism.Properties.StoreAccess

/-!
Reader leases: a snapshot that a reader pinned while `CURRENT` named it, and what garbage
collection may take away during the lease.
-/

namespace Prism

open CrashLogic Fallible Catalog Store

/-! ### Garbage collection -/

/-- Whatever the retained set names is as it was; other files may be gone. -/
structure Swept (retained : Retained) (store store' : Store) : Prop where
  current : store'.current = store.current
  snapshots : ∀ id ∈ retained.snapshots, store'.snapshots[id]? = store.snapshots[id]?
  parts : ∀ id ∈ retained.parts, store'.parts[id]? = store.parts[id]?

theorem Swept.refl (retained : Retained) (store : Store) : Swept retained store store :=
  ⟨rfl, fun _ _ => rfl, fun _ _ => rfl⟩

section Sweep

variable {retained : Retained} {store : Store}

theorem Swept.removePart {start : Store} {id : String} (swept : Swept retained start store)
    (unnamed : id ∉ retained.parts) : Swept retained start (removePart id store) where
  current := swept.current
  snapshots := swept.snapshots
  parts other named := by
    have differ : compare id other ≠ .eq := by
      rw [ne_eq, Std.LawfulEqCmp.compare_eq_iff_eq]
      intro same
      exact unnamed (same ▸ named)
    simp only [Catalog.removePart, Std.ExtTreeMap.getElem?_erase, if_neg differ]
    exact swept.parts other named

theorem Swept.removeSnapshot {start : Store} {id : SnapshotId} (swept : Swept retained start store)
    (unnamed : id ∉ retained.snapshots) : Swept retained start (removeSnapshot id store) where
  current := swept.current
  parts := swept.parts
  snapshots other named := by
    have differ : compare id other ≠ .eq := by
      rw [ne_eq, Std.LawfulEqCmp.compare_eq_iff_eq]
      intro same
      exact unnamed (same ▸ named)
    simp only [Catalog.removeSnapshot, Std.ExtTreeMap.getElem?_erase, if_neg differ]
    exact swept.snapshots other named

/-- However a collection ends, it has removed only what it did not retain. -/
theorem gcAt_spec (retain : Nat) (nowMs : Int) (dryRun : Bool) (start : Store) :
    Triple (· = start) (gcAt retain nowMs dryRun)
      (fun _ store => ∃ retained, retainedIn start retain nowMs = .ok retained ∧
        Swept retained start store)
      (fun store => store = start ∨ ∃ retained,
        retainedIn start retain nowMs = .ok retained ∧ Swept retained start store) := by
  refine Triple.bind (Q := fun read store =>
    retainedIn start retain nowMs = .ok read.1 ∧ store = start) ?_ fun read => ?_
  · refine Triple.read ?_ fun _ same => .inl same
    rintro read store rfl returned
    obtain ⟨retained, kept, rfl⟩ := bind_pure_eq_ok.mp returned
    exact ⟨kept, rfl⟩
  obtain ⟨retained, parts, snapshots⟩ := read
  refine Triple.assume fun kept => ?_
  have stopped : ∀ store, Swept retained start store → store = start ∨ ∃ retained,
      retainedIn start retain nowMs = .ok retained ∧ Swept retained start store :=
    fun store swept => .inr ⟨retained, kept, swept⟩
  have finished : ∀ store, Swept retained start store → ∃ retained,
      retainedIn start retain nowMs = .ok retained ∧ Swept retained start store :=
    fun store swept => ⟨retained, kept, swept⟩
  dsimp only
  split
  · refine Triple.pure ?_
    rintro store rfl
    exact finished store (Swept.refl _ _)
  · -- Both loops remove names outside of the retained ones.
    have directories : Keeps (Swept retained start) (Prog.each (fun id =>
        Prog.replace deviceError (removePart id)) (parts.filter (!retained.parts.contains ·))) := by
      refine Keeps.each fun id mem => Keeps.replace fun store swept => ?_
      exact swept.removePart (by simpa using (List.mem_filter.mp mem).2)
    have files : Keeps (Swept retained start) (Prog.each (fun id =>
        Prog.replace deviceError (removeSnapshot id))
          (snapshots.filter (!retained.snapshots.contains ·))) := by
      refine Keeps.each fun id mem => Keeps.replace fun store swept => ?_
      exact swept.removeSnapshot (by simpa using (List.mem_filter.mp mem).2)
    refine Triple.bind (directories.conseq ?_ (fun _ _ swept => swept) stopped) fun _ => ?_
    · rintro store rfl
      exact Swept.refl _ _
    · refine Triple.bind (files.conseq (fun _ swept => swept) (fun _ _ swept => swept) stopped)
        fun _ => Triple.pure finished

variable {nowMs : Int} {retain : Nat} {snap : Snapshot}

variable (kept : retainedIn store retain nowMs = .ok retained)
include kept

/-- A retained snapshot that loads has its parts retained. -/
theorem retainedIn_parts (named : snap.snapshotId ∈ retained.snapshots)
    (file : store.snapshots[snap.snapshotId]? = some snap) :
    ∀ entry ∈ snap.parts, entry.partId ∈ retained.parts := by
  obtain ⟨current, _, rfl⟩ := bind_pure_eq_ok.mp kept
  intro entry mem
  refine List.mem_flatMap.mpr ⟨snap.snapshotId, named, ?_⟩
  simp only [loadSnapshotIn_eq_ok.mpr ⟨file, rfl⟩]
  exact List.mem_map_of_mem mem

/-- The head is always retained. -/
theorem retainedIn_head :
    ∃ head, currentIn store = .ok head ∧ head.snapshotId ∈ retained.snapshots := by
  obtain ⟨current, head, rfl⟩ := bind_pure_eq_ok.mp kept
  exact ⟨current, head, by simp⟩

/-- A snapshot younger than the horizon is retained. -/
theorem retainedIn_young (file : store.snapshots[snap.snapshotId]? = some snap)
    (young : saturatingSub nowMs gcHorizonMs < snap.createdAtMs) :
    snap.snapshotId ∈ retained.snapshots := by
  obtain ⟨current, _, rfl⟩ := bind_pure_eq_ok.mp kept
  have listed : snap.snapshotId ∈ listSnapshots store := by
    rw [listSnapshots, List.mem_insertionSort, Std.ExtTreeMap.mem_keys]
    exact OrderedMap.mem_of_getElem? file
  have within : withinHorizon store nowMs snap.snapshotId = true := by
    simpa [withinHorizon, loadSnapshotIn_eq_ok.mpr ⟨file, rfl⟩] using young
  by_cases pinned : snap.snapshotId ∈
      (listSnapshots store).reverse.take (max retain 1) ++ [current.snapshotId]
  · exact List.mem_append_left _ pinned
  · refine List.mem_append_right _ (List.mem_filter.mpr ⟨listed, ?_⟩)
    simp only [Bool.and_eq_true, Bool.not_eq_true', within, and_true]
    simpa using pinned

/-! ### Pinned snapshots -/

/-- The file of the snapshot and the parts it names are there, and no later commit can take the name
of the file. -/
structure Leased (store : Store) (snap : Snapshot) : Prop where
  file : store.snapshots[snap.snapshotId]? = some snap
  parts : store.PartsPresent snap.parts
  older : ∃ id, store.current = some id ∧ snap.snapshotId ≤ id

omit kept in
theorem Leased.of_head {id : SnapshotId} (named : store.current = some id)
    (head : currentIn store = .ok snap) (present : store.PartsPresent snap.parts) :
    Leased store snap := by
  obtain ⟨absent, _⟩ | ⟨current, file⟩ := currentIn_eq_ok.mp head
  · simp [named] at absent
  · exact ⟨file, present, snap.snapshotId, current, le_rfl⟩

omit kept in
/-- The snapshot of a commit is written under a number that no pinned one has. -/
theorem Leased.putSnapshot {parent new : Snapshot} (leased : Leased store snap)
    (head : currentIn store = .ok parent) (next : new.snapshotId = parent.snapshotId + 1) :
    (putSnapshot new store).snapshots[snap.snapshotId]? = some snap ∧
      snap.snapshotId ≤ new.snapshotId := by
  obtain ⟨id, named, below⟩ := leased.older
  obtain ⟨absent, _⟩ | ⟨current, _⟩ := currentIn_eq_ok.mp head
  · simp [named] at absent
  · obtain rfl : id = parent.snapshotId := by simpa [named] using current
    have above : snap.snapshotId < new.snapshotId := next ▸ Nat.lt_succ_of_le below
    have other : compare new.snapshotId snap.snapshotId ≠ .eq := by
      rw [ne_eq, Std.LawfulEqCmp.compare_eq_iff_eq]
      exact Nat.ne_of_gt above
    refine ⟨?_, Nat.le_of_lt above⟩
    simp only [Catalog.putSnapshot]
    rw [Std.ExtTreeMap.getElem?_insert, if_neg other, leased.file]

variable {store' : Store}

omit kept in
theorem Leased.access {built : Part → Prop} (access : Access built store store')
    (leased : Leased store snap) : Leased store' snap := by
  have kept (grown : Grown store store') : store'.PartsPresent snap.parts := fun entry mem =>
    (leased.parts entry mem).imp fun part found => grown.parts _ _ found
  cases access with
  | part part _ =>
    have present := kept putPart_grown
    unfold putPart at present ⊢
    split
    · exact ⟨leased.file, leased.parts, leased.older⟩
    next absent => exact ⟨leased.file, by simpa [absent] using present, leased.older⟩
  | generation g =>
    unfold putGenerationIn
    split
    · exact leased
    · exact ⟨leased.file, leased.parts, leased.older⟩
  | snapshot parent new head next =>
    exact ⟨(leased.putSnapshot head next).1, leased.parts, leased.older⟩
  | commit parent new head next _ =>
    obtain ⟨file, below⟩ := leased.putSnapshot head next
    exact ⟨file, leased.parts, new.snapshotId, rfl, below⟩

omit kept in
theorem Store.Intact.access {built : Part → Prop} (access : Access built store store')
    (intact : store.Intact) : store'.Intact := by
  cases access with
  | part part _ => exact putPart_grown.intact intact
  | generation g => exact (Engine.putGenerationIn_grown g store).intact intact
  | snapshot parent new head next =>
    exact (putSnapshot_grown head (next ▸ Nat.lt_succ_self _)).intact intact
  | commit parent new _ _ present => exact ⟨new, currentIn_install new store, present⟩

/-- A collection leaves the head and the parts it names. -/
theorem Swept.head (swept : Swept retained store store') :
    ∃ head, currentIn store = .ok head ∧ currentIn store' = .ok head ∧
      ∀ entry ∈ head.parts, store'.parts[entry.partId]? = store.parts[entry.partId]? := by
  obtain ⟨head, same, named⟩ := retainedIn_head kept
  refine ⟨head, same, ?_⟩
  obtain ⟨absent, rfl⟩ | ⟨current, file⟩ := currentIn_eq_ok.mp same
  · exact ⟨currentIn_eq_ok.mpr (.inl ⟨swept.current.trans absent, rfl⟩), by simp [Snapshot.empty]⟩
  · refine ⟨currentIn_eq_ok.mpr (.inr ⟨swept.current.trans current, ?_⟩), fun entry mem => ?_⟩
    · exact (swept.snapshots _ named).trans file
    · exact swept.parts _ (retainedIn_parts kept named file entry mem)

theorem Store.Intact.swept (swept : Swept retained store store') (intact : store.Intact) :
    store'.Intact := by
  obtain ⟨snap, head, present⟩ := intact
  obtain ⟨snap', head', left, parts⟩ := swept.head kept
  obtain rfl := ok_unique head head'
  exact ⟨snap, left, fun entry mem =>
    (present entry mem).imp fun part found => (parts entry mem).trans found⟩

/-- A collection keeps a pinned snapshot that is younger than the horizon. -/
theorem Leased.swept (swept : Swept retained store store')
    (young : saturatingSub nowMs gcHorizonMs < snap.createdAtMs) (leased : Leased store snap) :
    Leased store' snap := by
  have named := retainedIn_young kept leased.file young
  refine ⟨(swept.snapshots _ named).trans leased.file, fun entry mem => ?_, ?_⟩
  · obtain ⟨part, found⟩ := leased.parts entry mem
    exact ⟨part, (swept.parts _ (retainedIn_parts kept named leased.file entry mem)).trans found⟩
  · rw [swept.current]
    exact leased.older

end Sweep

/-! ### Runs -/

/-- A store, the clock of its last operation and the leases that readers took: the snapshot and the
time of each. -/
structure ReaderState where
  world : World
  clock : Int
  leases : List (Snapshot × Int)

inductive ReaderOp where
  | ingest (engine : Engine) (events : List Event) (applied : Option Nat) (preflightModel : Bool)
      (nowMs : Int) (faults : List Fault)
  | merge (engine : Engine) (free : Option Nat) (nowMs : Int) (faults : List Fault)
  | delete (eventIds : List String) (nowMs : Int) (faults : List Fault)
  | rollback (toId : SnapshotId) (nowMs : Int) (faults : List Fault)
  | gcAt (retainSnapshots : Nat) (nowMs : Int) (faults : List Fault)
  | pin (nowMs : Int)

namespace ReaderOp

def nowMs : ReaderOp → Int
  | .ingest _ _ _ _ nowMs _ => nowMs
  | .merge _ _ nowMs _ => nowMs
  | .delete _ nowMs _ => nowMs
  | .rollback _ nowMs _ => nowMs
  | .gcAt _ nowMs _ => nowMs
  | .pin nowMs => nowMs

def run : ReaderOp → World → World
  | .ingest engine events applied preflightModel nowMs faults, w =>
    (engine.ingestInner events nowMs applied preflightModel faults w).2.2
  | .merge engine free nowMs faults, w => (engine.merge free nowMs faults w).2.2
  | .delete eventIds nowMs faults, w => (Engine.delete eventIds nowMs faults w).2.2
  | .rollback toId nowMs faults, w => (Engine.rollback toId nowMs faults w).2.2
  | .gcAt retainSnapshots nowMs faults, w =>
    (onStore (Catalog.gcAt retainSnapshots nowMs false) faults w).2.2
  | .pin _, w => w

def leaseOf (store : Store) : ReaderOp → List (Snapshot × Int)
  | .pin nowMs =>
    match store.current, currentIn store with
    | some _, .ok snap => [(snap, nowMs)]
    | _, _ => []
  | _ => []

end ReaderOp

namespace ReaderState

def fresh (clock : Int) : ReaderState := ⟨World.fresh, clock, []⟩

def step (s : ReaderState) (op : ReaderOp) : ReaderState :=
  ⟨op.run s.world, op.nowMs, s.leases ++ op.leaseOf s.world.store⟩

/-- The clock does not go back, and a reader only pins a snapshot that was committed less than the
grace period before. -/
def Orderly (s : ReaderState) (op : ReaderOp) : Prop :=
  s.clock ≤ op.nowMs ∧ ∀ lease ∈ op.leaseOf s.world.store,
    saturatingSub lease.2 gcGraceMs < lease.1.createdAtMs

instance (s : ReaderState) (op : ReaderOp) : Decidable (s.Orderly op) :=
  inferInstanceAs (Decidable (_ ∧ _))

structure LeasesHeld (s : ReaderState) : Prop where
  intact : s.world.store.Intact
  young : ∀ lease ∈ s.leases, saturatingSub lease.2 gcGraceMs < lease.1.createdAtMs
  held : ∀ lease ∈ s.leases, s.clock ≤ lease.2 + leaseTtlMs → Leased s.world.store lease.1

theorem LeasesHeld.fresh (clock : Int) : (fresh clock).LeasesHeld :=
  ⟨intact_fresh, by simp [ReaderState.fresh], by simp [ReaderState.fresh]⟩

/-- During the lease the horizon of a collection lies before the grace period of the pin. -/
theorem horizon_before_grace {nowMs pinnedMs : Int} (during : nowMs ≤ pinnedMs + leaseTtlMs) :
    saturatingSub nowMs gcHorizonMs ≤ saturatingSub pinnedMs gcGraceMs := by
  unfold saturatingSub gcHorizonMs gcGraceMs at *
  omega

variable {s : ReaderState}

/-- Leases survive an operation that changes the store by commits only. -/
theorem LeasesHeld.publishes {α : Type} {p : Io α} (held : s.LeasesHeld)
    (publishes : Publishes (fun _ => True) p) {nowMs : Int} (later : s.clock ≤ nowMs)
    (faults : List Fault) : LeasesHeld ⟨(p faults s.world).2.2, nowMs, s.leases⟩ where
  intact := (publishes.keeps fun _ _ => Store.Intact.access).after (fun _ _ h => h) held.intact faults
  young := held.young
  held lease mem during :=
    (publishes.keeps fun _ _ => Leased.access).after (fun _ _ h => h)
      (held.held lease mem (le_trans later during)) faults

/-- Leases that have not run out survive a collection. -/
theorem LeasesHeld.collect (held : s.LeasesHeld) (retain : Nat) {nowMs : Int}
    (later : s.clock ≤ nowMs) (faults : List Fault) :
    LeasesHeld ⟨(onStore (gcAt retain nowMs false) faults s.world).2.2, nowMs,
      s.leases⟩ := by
  have ends : Triple (· = s.world) (onStore (gcAt retain nowMs false))
      (fun _ w => LeasesHeld ⟨w, nowMs, s.leases⟩) (fun w => LeasesHeld ⟨w, nowMs, s.leases⟩) := by
    have stays : LeasesHeld ⟨s.world, nowMs, s.leases⟩ :=
      ⟨held.intact, held.young, fun lease mem during =>
        held.held lease mem (le_trans later during)⟩
    have sweeps : ∀ store, (∃ retained, retainedIn s.world.store retain nowMs =
        .ok retained ∧ Swept retained s.world.store store) →
          LeasesHeld ⟨{ s.world with store }, nowMs, s.leases⟩ := by
      rintro store ⟨retained, kept, swept⟩
      refine ⟨held.intact.swept kept swept, held.young, fun lease mem during => ?_⟩
      have young := lt_of_le_of_lt (horizon_before_grace during) (held.young lease mem)
      exact (stays.held lease mem during).swept kept swept young
    refine Engine.onStore_spec ((gcAt_spec retain nowMs false s.world.store).conseq
      (fun _ same => same) (fun _ store swept => sweeps store swept) ?_)
    rintro store (rfl | swept)
    · exact stays
    · exact sweeps store swept
  exact ends.after (fun _ _ h => h) rfl faults

/-- A lease on the head is held when it is taken. -/
theorem LeasesHeld.pin (held : s.LeasesHeld) (nowMs : Int) (orderly : s.Orderly (.pin nowMs)) :
    (s.step (.pin nowMs)).LeasesHeld := by
  obtain ⟨later, young⟩ := orderly
  refine ⟨held.intact, fun lease mem => ?_, fun lease mem during => ?_⟩
  · rcases List.mem_append.mp mem with earlier | new
    · exact held.young lease earlier
    · exact young lease new
  · rcases List.mem_append.mp mem with earlier | new
    · exact held.held lease earlier (le_trans later during)
    · obtain ⟨snap, head, present⟩ := held.intact
      unfold ReaderOp.leaseOf at new
      rw [head] at new
      cases named : s.world.store.current with
      | none => simp [named] at new
      | some id =>
        simp only [named, List.mem_singleton] at new
        subst new
        exact Leased.of_head named head present

theorem step_of_no_lease {op : ReaderOp} (none : op.leaseOf s.world.store = []) :
    s.step op = ⟨op.run s.world, op.nowMs, s.leases⟩ := by
  simp [step, none]

theorem step_leasesHeld (s : ReaderState) (op : ReaderOp) (orderly : s.Orderly op)
    (held : s.LeasesHeld) : (s.step op).LeasesHeld := by
  have later := orderly.1
  cases op with
  | ingest engine events applied preflightModel nowMs faults =>
    rw [step_of_no_lease rfl]
    exact held.publishes (Engine.ingestInner_publishes (Engine.Makes.any engine) events nowMs applied
      preflightModel) later faults
  | merge engine free nowMs faults =>
    rw [step_of_no_lease rfl]
    exact held.publishes (Engine.merge_publishes engine (Engine.Remakes.any engine)) later faults
  | delete eventIds nowMs faults =>
    rw [step_of_no_lease rfl]
    exact held.publishes ((accessPhases _).delete (fun _ => trivial) eventIds nowMs) later faults
  | rollback toId nowMs faults =>
    rw [step_of_no_lease rfl]
    exact held.publishes ((accessPhases _).rollback (fun _ _ => trivial) toId nowMs) later faults
  | gcAt retain nowMs faults =>
    rw [step_of_no_lease rfl]
    exact held.collect retain later faults
  | pin nowMs => exact held.pin nowMs orderly

/-- In every run whose clock does not go back and whose readers pin only snapshots younger than the
grace period, the file of a pinned snapshot and the parts it names are on disk until the lease
runs out. -/
theorem leased_files_stay (clock : Int) (ops : List ReaderOp)
    (orderly : Meets step Orderly (fresh clock) ops) :
    ∀ lease ∈ (ops.foldl step (fresh clock)).leases,
      (ops.foldl step (fresh clock)).clock ≤ lease.2 + leaseTtlMs →
        (ops.foldl step (fresh clock)).world.store.snapshots[lease.1.snapshotId]? =
            some lease.1 ∧
          (ops.foldl step (fresh clock)).world.store.PartsPresent lease.1.parts := by
  intro lease mem during
  have held := invariant_run step_leasesHeld ops (fresh clock) (LeasesHeld.fresh clock) orderly
  obtain ⟨file, parts, _⟩ := held.held lease mem during
  exact ⟨file, parts⟩

/-- A snapshot is pinned right after its commit, another commit follows, and a collection that
retains one snapshot runs at the end of the lease. -/
def shortLease : List ReaderOp :=
  [.delete ["x"] 0 [], .pin 1, .delete ["y"] 2 [], .gcAt 1 (1 + leaseTtlMs) []]

theorem leased_files_stay_shortLease :
    Meets step Orderly (fresh 0) shortLease ∧
      ∀ lease ∈ (shortLease.foldl step (fresh 0)).leases,
        (shortLease.foldl step (fresh 0)).clock ≤ lease.2 + leaseTtlMs →
          (shortLease.foldl step (fresh 0)).world.store.snapshots[lease.1.snapshotId]? =
              some lease.1 ∧
            (shortLease.foldl step (fresh 0)).world.store.PartsPresent lease.1.parts := by
  have orderly : Meets step Orderly (fresh 0) shortLease := by decide +kernel
  exact ⟨orderly, leased_files_stay 0 shortLease orderly⟩

/-- A snapshot is pinned two hours after its commit, while it is still the head. -/
def oldHead : List ReaderOp :=
  [.delete ["x"] 0 [], .pin 7200000, .delete ["y"] 7200001 [], .gcAt 1 7200002 []]

/-- The lease is a few milliseconds old when the collection removes the snapshot's file. -/
theorem collected_during_lease :
    (oldHead.foldl step (fresh 0)).leases.map (fun lease => (lease.1.snapshotId, lease.2)) =
        [(1, 7200000)] ∧
      (oldHead.foldl step (fresh 0)).clock = 7200002 ∧
      (((oldHead.take 3).foldl step (fresh 0)).world.store.snapshots[1]?).isSome ∧
      (oldHead.foldl step (fresh 0)).world.store.snapshots[1]? = none := by
  decide +kernel

end ReaderState

end Prism
