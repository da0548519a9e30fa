import Prism.Properties.FileAccess

/-!
Garbage collection beside a publication. Between two accesses of one the other may have made any
number of its own; what each may rely on is stated once for every access of the other.
-/

namespace Prism

open CrashLogic Catalog Fallible OrderedMap

namespace Disk

/-! ### What each side may rely on -/

/-- `CURRENT` names no snapshot file and no part directory that the collection has taken away. -/
def NothingLost (d : Disk) : Prop :=
  ∀ id, d.store.current = some id →
    (id ∈ d.removedSnapshots → id ∈ d.store.snapshots) ∧
      ∀ snap, d.store.snapshots[id]? = some snap →
        ∀ part ∈ snap.partIds, part ∈ d.removedParts → part ∈ d.store.parts

/-- The collection is not in the parts directory while a publication is under way. -/
structure Apart (d : Disk) : Prop where
  disjoint : d.publication = .running → d.collection ≠ .parts
  kept : d.NothingLost

structure Collects (next : SnapshotId) (d d' : Disk) : Prop where
  publication : d'.publication = d.publication
  apart : d.Apart → d'.Apart
  parts : d.publication = .running → d'.store.parts = d.store.parts
  tmp : d.publication = .running → d'.tmp = d.tmp
  file : d.publication = .running → d'.store.snapshots[next]? = d.store.snapshots[next]?

structure Publishes (next : SnapshotId) (d d' : Disk) : Prop where
  collection : d'.collection = d.collection
  apart : d.Apart → d'.Apart
  frozen : d.collection = .parts → d'.store = d.store ∧ d'.tmp = d.tmp
  files : ∀ id, id ∈ d.store.snapshots → id ∈ d'.store.snapshots
  current : d'.store.current = d.store.current ∨
    (d.publication = .running ∧ d'.store.current = some next)
  begins : d'.publication = .running → d.publication = .running ∨
    (d.collection = .snapshots → next ∉ d.store.snapshots)

variable (next : SnapshotId)

theorem Collects.refl (d : Disk) : Collects next d d :=
  ⟨rfl, id, fun _ => rfl, fun _ => rfl, fun _ => rfl⟩

theorem Publishes.refl (d : Disk) : Publishes next d d :=
  ⟨rfl, id, fun _ => ⟨rfl, rfl⟩, fun _ h => h, .inl rfl, .inl⟩

inductive Side where
  | collector
  | publisher
  deriving DecidableEq

/-- The accesses that are looked at: no read of the collection fails, it does not begin while the
publication is under way, and the publication does not begin while the collection is in the parts
directory. Nor does it begin while the collection removes snapshot files and an old file has the
number of its snapshot. -/
def allows : Side → Fault → Disk → Prop
  | .collector, fault, d =>
    fault.isFail = false ∧ (d.collection = .idle → d.publication ≠ .running)
  | .publisher, _, d => d.publication = .idle → d.collection ≠ .parts ∧
      (d.collection = .snapshots → next ∉ d.store.snapshots)

def contract : Side → Contract Disk
  | .collector => ⟨allows next .collector, Publishes next, Collects next⟩
  | .publisher => ⟨allows next .publisher, Collects next, Publishes next⟩

theorem contract_compatible : Threads.Compatible (contract next) := by
  intro i j differ d d' step
  cases i with
  | collector =>
    cases j with
    | collector => exact absurd rfl differ
    | publisher => exact step
  | publisher =>
    cases j with
    | collector => exact step
    | publisher => exact absurd rfl differ

/-! ### The collection -/

variable {next : SnapshotId} {st : Store}

structure Sweeping (st : Store) (d : Disk) : Prop where
  apart : d.Apart
  phase : d.collection = .parts
  current : d.store.current = st.current
  snapshots : d.store.snapshots = st.snapshots

theorem sweeping_stable : (contract next .collector).Stable (Sweeping st) := by
  intro d d' sweeping step
  obtain ⟨same, _⟩ := step.frozen sweeping.phase
  exact ⟨step.apart sweeping.apart, step.collection.trans sweeping.phase,
    same ▸ sweeping.current, same ▸ sweeping.snapshots⟩

theorem Sweeping.not_running {d : Disk} (sweeping : Sweeping st d) : d.publication ≠ .running :=
  fun running => sweeping.apart.disjoint running sweeping.phase

theorem loadSnapshotIn_congr {store store' : Store} (same : store'.snapshots = store.snapshots)
    (id : SnapshotId) : loadSnapshotIn store' id = loadSnapshotIn store id := by
  simp only [loadSnapshotIn, same]

theorem sweeping_readable : Readable Disk.store (contract next .collector) (Sweeping st)
    fun id snap => loadSnapshotIn st id = .ok snap where
  stable := sweeping_stable
  stays d _ := Collects.refl next d
  answers n d allowed := by simp [contract, allows, Fault.isFail] at allowed
  known d sweeping id snap loaded := by rw [loadSnapshotIn_congr sweeping.snapshots, loaded]

/-- A read while the collection is in the parts directory. -/
theorem sweeping_read {α : Type} {g : Disk → Result α} {C : α → Prop}
    (shows : ∀ a d, Sweeping st d → g d = .ok a → C a) :
    Secures (contract next .collector) (fun a d => Sweeping st d ∧ C a) (fun _ _ => True)
      (Prog.read deviceError g) (Sweeping st) := by
  refine Secures.read (fun _ => sweeping_readable.stable_and _) (fun _ _ _ _ _ => trivial)
    (fun d _ => Collects.refl next d) ?_ (fun _ _ _ _ => trivial) fun _ _ _ _ => trivial
  exact fun a d sweeping found => ⟨sweeping, shows a d sweeping found⟩

theorem beginCollection_secures :
    Secures (contract next .collector) (fun all d => ∃ st, Sweeping st d ∧ all = listSnapshots st)
      (fun _ _ => True) beginCollection (fun d => d.Apart ∧ d.collection = .idle) := by
  refine Secures.update ?_ (fun _ _ _ _ _ => trivial) (fun d _ => Collects.refl next d) ?_
    fun _ _ _ _ => trivial
  · rintro all d d' ⟨st, sweeping, rfl⟩ step
    exact ⟨st, sweeping_stable d d' sweeping step, rfl⟩
  · intro fault d allowed ⟨apart, idle⟩
    have separate : Apart { d with collection := .parts } :=
      ⟨fun running => absurd running (allowed.2 idle), apart.kept⟩
    exact ⟨⟨rfl, fun _ => separate, fun _ => rfl, fun _ => rfl, fun _ => rfl⟩,
      ⟨d.store, ⟨separate, rfl, rfl, rfl⟩, rfl⟩, trivial⟩

theorem readCurrent_secures :
    Secures (contract next .collector) (fun current d => Sweeping st d ∧ currentIn st = .ok current)
      (fun _ _ => True) (readCurrent Disk.store) (Sweeping st) := by
  refine Secures.bind (M := fun named d => Sweeping st d ∧ named = st.current)
    (sweeping_read ?_) fun named => ?_
  · intro named d sweeping found
    exact (Except.ok.inj found).symm.trans sweeping.current
  · cases named with
    | none =>
      exact Secures.pure fun d ⟨sweeping, named⟩ => ⟨sweeping, by simp [currentIn, ← named]⟩
    | some id =>
      refine (Secures.assume (C := some id = st.current) fun named => sweeping_read ?_).strengthen
        fun d held => held.symm
      intro current d sweeping found
      rw [loadSnapshotIn_congr sweeping.snapshots] at found
      simpa [currentIn, ← named] using found

/-- The live set holds the head of `st` and its parts. -/
def Protects (st : Store) (retained : Retained) : Prop :=
  ∀ id, st.current = some id → id ∈ retained.snapshots ∧
    ∀ snap, st.snapshots[id]? = some snap → ∀ part ∈ snap.partIds, part ∈ retained.parts

theorem readRetained_secures (retain : Nat) (nowMs : Int) :
    Secures (contract next .collector) (fun retained d => Sweeping st d ∧ Protects st retained)
      (fun _ _ => True) (readRetained Disk.store retain nowMs) (Sweeping st) := by
  refine Secures.bind readCurrent_secures fun current => ?_
  refine (Secures.assume (C := currentIn st = .ok current) fun head => ?_).strengthen
    fun _ held => held.symm
  refine Secures.bind (sweeping_read (C := fun _ => True) fun _ _ _ _ => trivial) fun all => ?_
  refine ((retainFrom_secures sweeping_readable retain nowMs
    all).strengthen fun _ held => held.1).weaken ?_ fun _ _ h => h
  intro retained d ⟨sweeping, covers⟩
  refine ⟨sweeping, fun id named => ?_⟩
  obtain ⟨absent, _⟩ | ⟨own, file⟩ := Store.currentIn_eq_ok.mp head
  · simp [absent] at named
  · obtain rfl := Option.mem_unique own named
    have pinned := covers.pinned current.snapshotId (by simp)
    refine ⟨pinned, fun snap found => ?_⟩
    obtain rfl := Option.mem_unique file found
    exact covers.parts _ pinned _ (Store.loadSnapshotIn_eq_ok.mpr ⟨file, rfl⟩)

theorem removeTmp_sweeping (id : String) :
    Secures (contract next .collector) (fun _ => Sweeping st) (fun _ _ => True) (removeTmp id)
      (Sweeping st) := by
  refine Secures.transact (fun _ => sweeping_stable) (fun _ _ _ _ _ => trivial)
    (fun d _ => Collects.refl next d) ?_ (fun _ _ _ _ => trivial) fun _ _ _ _ => trivial
  intro fault d a d' _ sweeping done
  split at done
  next =>
    cases done
    have apart : Apart { d with tmp := d.tmp.erase id } := ⟨sweeping.apart.1, sweeping.apart.2⟩
    refine ⟨⟨rfl, fun _ => apart, fun _ => rfl, fun running => ?_, fun _ => rfl⟩,
      ⟨apart, sweeping.phase, sweeping.current, sweeping.snapshots⟩, trivial⟩
    exact absurd running sweeping.not_running
  next => cases done

theorem removeEntry_secures {retained : Retained} (protects : Protects st retained)
    {entry : PartsEntry} (unnamed : orphan retained.parts entry = true) :
    Secures (contract next .collector) (fun _ => Sweeping st) (fun _ _ => True)
      (removeEntry entry) (Sweeping st) := by
  cases entry with
  | tmp id => exact removeTmp_sweeping id
  | part id =>
    have outside : id ∉ retained.parts := by simpa [orphan] using unnamed
    refine Secures.transact (fun _ => sweeping_stable) (fun _ _ _ _ _ => trivial)
      (fun d _ => Collects.refl next d) ?_ (fun _ _ _ _ => trivial) fun _ _ _ _ => trivial
    intro fault d a d' _ sweeping done
    split at done
    next =>
      cases done
      -- The parts of the head are protected, so `id` is none of them.
      have kept : NothingLost { d with
          store := Catalog.removePart id d.store
          removedParts := id :: d.removedParts } := by
        intro head named
        obtain ⟨filed, present⟩ := sweeping.apart.kept head named
        refine ⟨filed, fun snap file part inside removed => ?_⟩
        have differ : part ≠ id := by
          rintro rfl
          have current : st.current = some head := sweeping.current ▸ named
          exact outside ((protects head current).2 snap (sweeping.snapshots ▸ file) part inside)
        have before : part ∈ d.removedParts := (List.mem_cons.mp removed).resolve_left differ
        rw [Catalog.removePart, Std.ExtTreeMap.mem_erase]
        exact ⟨by simpa using differ.symm, present snap file part inside before⟩
      have apart : Apart { d with
          store := Catalog.removePart id d.store
          removedParts := id :: d.removedParts } := ⟨sweeping.apart.disjoint, kept⟩
      refine ⟨⟨rfl, fun _ => apart, fun running => ?_, fun _ => rfl, fun _ => rfl⟩,
        ⟨apart, sweeping.phase, sweeping.current, sweeping.snapshots⟩, trivial⟩
      exact absurd running sweeping.not_running
    next => cases done

structure Unlinking (next : SnapshotId) (ids : List SnapshotId) (d : Disk) : Prop where
  apart : d.Apart
  phase : d.collection = .snapshots
  present : ∀ id ∈ ids, id ∈ d.store.snapshots
  current : ∀ id ∈ ids, d.store.current ≠ some id
  other : d.publication = .running → next ∉ ids

variable {ids : List SnapshotId}

theorem unlinking_stable : (contract next .collector).Stable (Unlinking next ids) := by
  intro d d' unlinking step
  refine ⟨step.apart unlinking.apart, step.collection.trans unlinking.phase,
    fun id left => step.files id (unlinking.present id left), fun id left named => ?_,
    fun running => ?_⟩
  · obtain same | ⟨running, moved⟩ := step.current
    · exact unlinking.current id left (same ▸ named)
    · obtain rfl := Option.mem_unique moved named
      exact unlinking.other running left
  · obtain already | new := step.begins running
    · exact unlinking.other already
    · exact fun left => new unlinking.phase (unlinking.present next left)

theorem removeFile_secures {id : SnapshotId} (new : id ∉ ids) :
    Secures (contract next .collector) (fun _ => Unlinking next ids) (fun _ _ => True)
      (removeFile id) (Unlinking next (id :: ids)) := by
  refine Secures.transact (fun _ => unlinking_stable) (fun _ _ _ _ _ => trivial)
    (fun d _ => Collects.refl next d) ?_ (fun _ _ _ _ => trivial) fun _ _ _ _ => trivial
  intro fault d a d' _ unlinking done
  split at done
  next =>
    cases done
    have others (other : SnapshotId) (differ : other ≠ id) :
        (Catalog.removeSnapshot id d.store).snapshots[other]? = d.store.snapshots[other]? := by
      rw [Catalog.removeSnapshot, Std.ExtTreeMap.getElem?_erase, if_neg]
      simpa using differ.symm
    have stays (other : SnapshotId) (differ : other ≠ id) (there : other ∈ d.store.snapshots) :
        other ∈ (Catalog.removeSnapshot id d.store).snapshots := by
      rw [Std.ExtTreeMap.mem_iff_isSome_getElem?] at there ⊢
      rwa [others other differ]
    -- The head is not among the files that are removed.
    have kept : NothingLost { d with
        store := Catalog.removeSnapshot id d.store
        removedSnapshots := id :: d.removedSnapshots } := by
      intro head named
      have differ : head ≠ id := by
        rintro rfl
        exact unlinking.current head List.mem_cons_self named
      obtain ⟨filed, present⟩ := unlinking.apart.kept head named
      refine ⟨fun removed => ?_, fun snap file => present snap (others head differ ▸ file)⟩
      exact stays head differ (filed ((List.mem_cons.mp removed).resolve_left differ))
    have apart : Apart { d with
        store := Catalog.removeSnapshot id d.store
        removedSnapshots := id :: d.removedSnapshots } := ⟨unlinking.apart.disjoint, kept⟩
    refine ⟨⟨rfl, fun _ => apart, fun _ => rfl, fun _ => rfl, fun running => ?_⟩,
      ⟨apart, unlinking.phase, fun other left => ?_, fun other left => ?_, fun running left => ?_⟩,
      trivial⟩
    · refine others next fun same => unlinking.other running ?_
      exact same ▸ List.mem_cons_self
    · exact stays other (fun same => new (same ▸ left))
        (unlinking.present other (List.mem_cons_of_mem id left))
    · exact unlinking.current other (List.mem_cons_of_mem id left)
    · exact unlinking.other running (List.mem_cons_of_mem id left)
  next => cases done

theorem removeFiles_secures (distinct : ids.Nodup) :
    Secures (contract next .collector) (fun _ _ => True) (fun _ _ => True)
      (Prog.each removeFile ids) (Unlinking next ids) := by
  induction ids with
  | nil => exact Secures.pure fun _ _ => trivial
  | cons id ids ih =>
    obtain ⟨new, rest⟩ := List.nodup_cons.mp distinct
    refine Secures.bind (removeFile_secures new) fun _ => ?_
    exact Secures.bind (ih rest) fun _ => Secures.pure fun _ _ => trivial

theorem gcAt_secures (retain : Nat) (nowMs : Int) (dryRun : Bool) :
    Secures (contract next .collector) (fun _ _ => True) (fun _ _ => True)
      (gcAt retain nowMs dryRun) (fun d => d.Apart ∧ d.collection = .idle) := by
  have ended (d : Disk) : Collects next d { d with collection := .over } :=
    ⟨rfl, fun apart => ⟨fun _ ended => (nomatch ended), apart.kept⟩, fun _ => rfl, fun _ => rfl,
      fun _ => rfl⟩
  refine Secures.ending (M := fun _ _ => True) (F := fun _ _ => True) ?_ ended
    (fun _ _ _ _ _ => trivial) (fun _ _ _ _ _ => trivial) (fun _ _ _ => trivial)
    fun _ _ _ => trivial
  refine Secures.bind beginCollection_secures fun all => Secures.open_exists fun st => ?_
  refine (Secures.assume (C := all = listSnapshots st) fun listed => ?_).strengthen
    fun _ held => held.symm
  refine Secures.bind (readRetained_secures retain nowMs) fun retained => ?_
  refine (Secures.assume (C := Protects st retained) fun protects => ?_).strengthen
    fun _ held => held.symm
  refine Secures.bind (sweeping_read (C := fun _ => True) fun _ _ _ _ => trivial) fun entries => ?_
  cases dryRun with
  | true => exact Secures.pure fun _ _ => trivial
  | false =>
    refine Secures.bind (M := fun _ => Sweeping st) ?_ fun _ => ?_
    · refine Secures.each (I := fun _ _ => Sweeping st) (entries.filter (orphan retained.parts))
        (fun _ held => held.1) fun before entry after _ split => removeEntry_secures protects ?_
      have mem : entry ∈ entries.filter (orphan retained.parts) := by simp [split]
      exact (List.mem_filter.mp mem).2
    · refine Secures.bind (M := fun _ => Unlinking next
        (all.filter (!retained.snapshots.contains ·))) (Secures.note unlinking_stable ?_ ?_)
        fun _ => Secures.bind (removeFiles_secures ?_) fun _ => Secures.pure fun _ _ => trivial
      · exact fun d sweeping => ⟨rfl, fun apart => ⟨fun _ left => (nomatch left), apart.kept⟩,
          fun _ => rfl, fun _ => rfl, fun _ => rfl⟩
      · intro d sweeping
        refine ⟨⟨fun _ left => (nomatch left), sweeping.apart.kept⟩, rfl, fun id left => ?_,
          fun id left named => ?_, fun running => absurd running sweeping.not_running⟩
        · have found := (List.mem_filter.mp left).1
          rw [listed, mem_listSnapshots, ← sweeping.snapshots] at found
          exact found
        · have outside : id ∉ retained.snapshots := by simpa using (List.mem_filter.mp left).2
          exact outside (protects id (sweeping.current ▸ named)).1
      · exact (listed ▸ nodup_listSnapshots st).filter _

/-! ### The publication -/

def refusal (id : String) (e : PrismError) : PrismError :=
  .invariant <| s!"refusing to commit a snapshot naming part " ++
    s!"`{id}`, which is not readable: {e.display}"

def noManifest (id : String) : PrismError :=
  .corrupt s!"parts/{id} holds no part manifest (manifest.bin or manifest.json)"

/-- The errors of a publication that are not due to anybody who takes its files away: the device
fails an access, an entry is malformed, a part that is there does not validate, or a part is missing
that the publication has not written. -/
inductive OwnError (written : List String) (entries : List PartEntry) : PrismError → Prop
  | device : OwnError written entries deviceError
  | malformed {entry : PartEntry} {e : PrismError} (named : entry ∈ entries)
      (failed : entry.validate = .error e) : OwnError written entries e
  | unreadable {entry : PartEntry} {part : Part} {e : PrismError} (named : entry ∈ entries)
      (failed : part.manifest.validateStructure = .error e) :
      OwnError written entries (refusal entry.partId e)
  | absent {entry : PartEntry} (named : entry ∈ entries) (other : entry.partId ∉ written) :
      OwnError written entries (refusal entry.partId (noManifest entry.partId))

structure Running (next : SnapshotId)
    (Φ : BTreeMap String (List String) → BTreeMap String Part → Option Snapshot → Prop)
    (d : Disk) : Prop where
  phase : d.publication = .running
  apart : d.Apart
  holds : Φ d.tmp d.store.parts d.store.snapshots[next]?

variable {Φ Ψ : BTreeMap String (List String) → BTreeMap String Part → Option Snapshot → Prop}
  {written : List String} {entries : List PartEntry}

theorem running_stable : (contract next .publisher).Stable (Running next Φ) := by
  intro d d' running step
  refine ⟨step.publication.trans running.phase, step.apart running.apart, ?_⟩
  rw [step.tmp running.phase, step.parts running.phase, step.file running.phase]
  exact running.holds

/-- A step of a publication under way: the head keeps its files. -/
theorem Running.step {d d' : Disk} (running : Running next Φ d)
    (publication : d'.publication = d.publication) (collection : d'.collection = d.collection)
    (kept : d'.NothingLost) (files : ∀ id, id ∈ d.store.snapshots → id ∈ d'.store.snapshots)
    (current : d'.store.current = d.store.current ∨ d'.store.current = some next)
    (holds : Ψ d'.tmp d'.store.parts d'.store.snapshots[next]?) :
    Publishes next d d' ∧ Running next Ψ d' := by
  have apart : d'.Apart :=
    ⟨fun _ => collection ▸ running.apart.disjoint running.phase, kept⟩
  refine ⟨⟨collection, fun _ => apart, fun sweeping => ?_, files, ?_, fun _ => .inl running.phase⟩,
    publication.trans running.phase, apart, holds⟩
  · exact absurd sweeping (running.apart.disjoint running.phase)
  · exact current.imp id fun moved => ⟨running.phase, moved⟩

/-- A step that changes temporary directories only. -/
theorem Running.step_tmp {d : Disk} (running : Running next Φ d)
    {tmp : BTreeMap String (List String)} (holds : Ψ tmp d.store.parts d.store.snapshots[next]?) :
    Publishes next d { d with tmp } ∧ Running next Ψ { d with tmp } :=
  running.step rfl rfl running.apart.kept (fun _ there => there) (.inl rfl) holds

/-- A read of a publication under way. -/
theorem running_read {α : Type} {g : Disk → Result α}
    {Ψ : α → BTreeMap String (List String) → BTreeMap String Part → Option Snapshot → Prop}
    (returned : ∀ a d, Running next Φ d → g d = .ok a →
      Ψ a d.tmp d.store.parts d.store.snapshots[next]?)
    (refused : ∀ e d, Running next Φ d → g d = .error e → OwnError written entries e) :
    Secures (contract next .publisher) (fun a => Running next (Ψ a))
      (fun e _ => OwnError written entries e) (Prog.read deviceError g) (Running next Φ) := by
  refine Secures.read (fun _ => running_stable) (fun _ _ _ own _ => own)
    (fun d _ => Publishes.refl next d) ?_ refused fun _ _ _ _ => .device
  exact fun a d running found => ⟨running.phase, running.apart, returned a d running found⟩

/-- An atomic step of a publication under way. -/
theorem running_transact {α : Type} {f : Disk → Result (α × Disk)}
    {Ψ : α → BTreeMap String (List String) → BTreeMap String Part → Option Snapshot → Prop}
    (returned : ∀ d a d', Running next Φ d → f d = .ok (a, d') →
      Publishes next d d' ∧ Running next (Ψ a) d')
    (refused : ∀ e d, Running next Φ d → f d = .error e → OwnError written entries e) :
    Secures (contract next .publisher) (fun a => Running next (Ψ a))
      (fun e _ => OwnError written entries e) (Prog.transact deviceError f) (Running next Φ) := by
  refine Secures.transact (fun _ => running_stable) (fun _ _ _ own _ => own)
    (fun d _ => Publishes.refl next d) ?_ refused fun _ _ _ _ => .device
  intro fault d a d' _ running done
  obtain ⟨within, reached⟩ := returned d a d' running done
  exact ⟨within, reached, .device⟩

theorem running_replace {done : Disk → Disk}
    (returned : ∀ d, Running next Φ d → Publishes next d (done d) ∧ Running next Ψ (done d)) :
    Secures (contract next .publisher) (fun _ => Running next Ψ)
      (fun e _ => OwnError written entries e) (Prog.replace deviceError done)
      (Running next Φ) := by
  rw [Prog.replace_eq_update, Prog.update_eq_transact]
  refine running_transact (Ψ := fun _ => Ψ) (fun d a d' running same => ?_)
    fun _ _ _ other => nomatch other
  cases same
  exact returned d running

structure Ready (written : List String) (d : Disk) : Prop where
  apart : d.Apart
  phase : d.publication = .running ∨ (written = [] ∧ d.publication = .idle)
  present : ∀ id ∈ written, id ∈ d.store.parts

theorem ready_stable {present : List String} :
    (contract next .publisher).Stable (Ready present) := by
  intro d d' ready step
  refine ⟨step.apart ready.apart, by rw [step.publication]; exact ready.phase, fun id mem => ?_⟩
  obtain running | ⟨rfl, _⟩ := ready.phase
  · rw [step.parts running]
    exact ready.present id mem
  · cases mem

section WritePart

variable {present : List String} {id : String}

abbrev Staged (present : List String) (id : String) :
    BTreeMap String (List String) → BTreeMap String Part → Option Snapshot → Prop :=
  fun tmp parts _ => (∀ other ∈ present, other ∈ parts) ∧ id ∈ tmp

abbrev Placed (present : List String) :
    BTreeMap String (List String) → BTreeMap String Part → Option Snapshot → Prop :=
  fun _ parts _ => ∀ other ∈ present, other ∈ parts

theorem tmpExists_secures : Secures (contract next .publisher)
      (fun stale => Running next fun tmp parts _ =>
        (∀ other ∈ present, other ∈ parts) ∧ (stale = true → id ∈ tmp))
      (fun e _ => OwnError written entries e) (tmpExists id) (Ready present) := by
  refine Secures.update (fun _ => running_stable) (fun _ _ _ own _ => own)
    (fun d _ => Publishes.refl next d) ?_ fun _ _ _ _ => .device
  intro fault d allowed ready
  -- The collection is not in the parts directory, or the publication was under way before.
  have outside : d.collection ≠ .parts := by
    obtain running | ⟨_, idle⟩ := ready.phase
    · exact ready.apart.disjoint running
    · exact (allowed idle).1
  have apart : Apart { d with publication := .running } := ⟨fun _ => outside, ready.apart.kept⟩
  refine ⟨⟨rfl, fun _ => apart, fun sweeping => absurd sweeping outside, fun _ there => there,
    .inl rfl, fun _ => ?_⟩, ⟨rfl, apart, ready.present, fun stale => ?_⟩, .device⟩
  · exact ready.phase.imp_right fun ⟨_, idle⟩ => (allowed idle).2
  · exact Std.ExtTreeMap.contains_iff_mem.mp stale

theorem removeTmp_running (lost : ∀ tmp parts file, Φ tmp parts file → Ψ (tmp.erase id) parts file)
    (there : ∀ tmp parts file, Φ tmp parts file → id ∈ tmp) :
    Secures (contract next .publisher) (fun _ => Running next Ψ)
      (fun e _ => OwnError written entries e) (removeTmp id) (Running next Φ) := by
  have found (d : Disk) (running : Running next Φ d) : d.tmp.contains id = true :=
    Std.ExtTreeMap.contains_iff_mem.mpr (there _ _ _ running.holds)
  refine running_transact (Ψ := fun _ => Ψ) (fun d a d' running done => ?_)
    fun e d running failed => ?_
  · rw [if_pos (found d running)] at done
    cases done
    exact running.step_tmp (lost _ _ _ running.holds)
  · rw [if_pos (found d running)] at failed
    cases failed

theorem ensureTmp_secures :
    Secures (contract next .publisher) (fun _ => Running next (Staged present id))
      (fun e _ => OwnError written entries e) (ensureTmp id) (Running next (Placed present)) := by
  refine running_replace fun d running => ?_
  split
  next there =>
    exact ⟨Publishes.refl next d, running.phase, running.apart, running.holds,
      Std.ExtTreeMap.contains_iff_mem.mp there⟩
  next => exact running.step_tmp ⟨running.holds, Std.ExtTreeMap.mem_insert_self⟩

theorem writeFile_secures (file : String) :
    Secures (contract next .publisher) (fun _ => Running next (Staged present id))
      (fun e _ => OwnError written entries e) (writeFile id file)
      (Running next (Staged present id)) := by
  have found (d : Disk) (running : Running next (Staged present id) d) :
      ∃ files, d.tmp[id]? = some files :=
    Option.isSome_iff_exists.mp (Std.ExtTreeMap.mem_iff_isSome_getElem?.mp running.holds.2)
  refine running_transact (Ψ := fun _ => Staged present id) (fun d a d' running done => ?_)
    fun e d running failed => ?_
  · obtain ⟨files, there⟩ := found d running
    simp only [there] at done
    cases done
    exact running.step_tmp ⟨running.holds.1, Std.ExtTreeMap.mem_insert_self⟩
  · obtain ⟨files, there⟩ := found d running
    simp [there] at failed

theorem fsyncTmp_secures :
    Secures (contract next .publisher) (fun _ => Running next (Staged present id))
      (fun e _ => OwnError written entries e) (fsyncTmp id) (Running next (Staged present id)) := by
  refine running_read (Ψ := fun _ => Staged present id) (fun _ d running _ => running.holds)
    fun e d running failed => ?_
  rw [if_pos (Std.ExtTreeMap.contains_iff_mem.mpr running.holds.2)] at failed
  cases failed

theorem renameTmp_secures {part : Part} : Secures (contract next .publisher)
      (fun _ => Running next (Placed (present ++ [part.manifest.partId])))
      (fun e _ => OwnError written entries e) (renameTmp part)
      (Running next (Staged present part.manifest.partId)) := by
  have found (d : Disk) (running : Running next (Staged present part.manifest.partId) d) :
      d.tmp.contains part.manifest.partId = true :=
    Std.ExtTreeMap.contains_iff_mem.mpr running.holds.2
  refine running_transact (Ψ := fun _ => Placed (present ++ [part.manifest.partId]))
    (fun d a d' running done => ?_) fun e d running failed => ?_
  · rw [if_pos (found d running)] at done
    cases done
    have grows (other : String) (there : other ∈ d.store.parts) :
        other ∈ d.store.parts.insert part.manifest.partId part :=
      Std.ExtTreeMap.mem_insert.mpr (.inr there)
    refine running.step rfl rfl ?_ (fun _ there => there) (.inl rfl) ?_
    · intro head named
      obtain ⟨filed, kept⟩ := running.apart.kept head named
      exact ⟨filed, fun snap file other inside removed =>
        grows other (kept snap file other inside removed)⟩
    · intro other mem
      obtain earlier | rfl := List.mem_append.mp mem |>.imp_right List.mem_singleton.mp
      · exact grows other (running.holds.1 other earlier)
      · exact Std.ExtTreeMap.mem_insert_self
  · rw [if_pos (found d running)] at failed
    cases failed

theorem fillAndRename_secures (part : Part) : Secures (contract next .publisher)
      (fun _ => Running next (Placed (present ++ [part.manifest.partId])))
      (fun e _ => OwnError written entries e) (fillAndRename part)
      (Running next (Placed present)) := by
  refine Secures.bind ensureTmp_secures fun _ => ?_
  refine Secures.bind (Secures.each (I := fun _ _ => Running next
    (Staged present part.manifest.partId)) _ (fun _ h => h) fun _ file _ _ _ =>
      writeFile_secures file) fun _ => Secures.bind fsyncTmp_secures fun _ => ?_
  refine Secures.bind (M := fun published => Running next fun tmp parts file =>
    Staged present part.manifest.partId tmp parts file ∧
      (published = true → part.manifest.partId ∈ parts)) (running_read ?_ ?_) fun published => ?_
  · intro published d running found
    refine ⟨running.holds, fun there => ?_⟩
    exact Std.ExtTreeMap.contains_iff_mem.mp ((Except.ok.inj found).trans there)
  · exact fun _ _ _ failed => nomatch failed
  · cases published with
    | true =>
      refine removeTmp_running ?_ fun tmp parts file held => held.1.2
      intro tmp parts file ⟨⟨placed, _⟩, there⟩ other mem
      obtain earlier | rfl := List.mem_append.mp mem |>.imp_right List.mem_singleton.mp
      · exact placed other earlier
      · exact there rfl
    | false =>
      exact renameTmp_secures.strengthen fun d running =>
        ⟨running.phase, running.apart, running.holds.1⟩

/-- A part that is written comes to its place without an error for a missing file. -/
theorem writePart_secures (part : Part) :
    Secures (contract next .publisher) (fun _ => Ready (present ++ [part.manifest.partId]))
      (fun e _ => OwnError written entries e) (writePart part) (Ready present) := by
  have rest : Secures (contract next .publisher)
      (fun _ => Ready (present ++ [part.manifest.partId]))
      (fun e _ => OwnError written entries e) (fillAndRename part)
      (Running next (Placed present)) :=
    (fillAndRename_secures part).weaken
      (fun _ d running => ⟨running.apart, .inl running.phase, running.holds⟩) fun _ _ own => own
  refine Secures.bind tmpExists_secures fun stale => ?_
  cases stale with
  | true =>
    refine Secures.bind (removeTmp_running (Ψ := Placed present) ?_ ?_) fun _ => rest
    · exact fun tmp parts file held => held.1
    · exact fun tmp parts file held => held.2 rfl
  | false =>
    exact rest.strengthen fun d running => ⟨running.phase, running.apart, running.holds.1⟩

end WritePart

variable (commit : Commit)

/-- The accesses of a commit. -/
theorem commitMeta_eq : commitMeta commit = do
      let _ ← Prog.each (fun entry => do
        Prog.ofExcept entry.validate
        Prog.read deviceError fun d =>
          match openPartIn d.store entry.partId with
          | .ok _ => .ok ()
          | .error e => .error (refusal entry.partId e)) commit.entries
      let snap := nextSnapshot commit.parent commit.entries commit.nextSeq commit.activeGeneration
        commit.carried commit.nowMs
      Prog.replace deviceError fun d => { d with store := putSnapshot snap d.store }
      Prog.replace deviceError fun d => { d with store := putCurrent snap.snapshotId d.store }
      return snap := by
  simp only [commitMeta, onStore, Catalog.commitMeta, checkEntry, Prog.zoom_bind, Prog.zoom_each,
    Prog.zoom_read storeLens, Prog.zoom_replace storeLens, Prog.zoom_ofExcept]
  rfl

theorem openPartIn_eq_error {store : Store} {id : String} {e : PrismError}
    (failed : openPartIn store id = .error e) : (id ∉ store.parts ∧ e = noManifest id) ∨
      ∃ part : Part, part.manifest.validateStructure = .error e := by
  unfold openPartIn at failed
  split at failed
  next absent =>
    refine .inl ⟨?_, (Except.error.inj failed).symm⟩
    rw [Std.ExtTreeMap.mem_iff_isSome_getElem?, absent]
    simp
  next part found =>
    refine .inr ⟨part, ?_⟩
    cases checked : part.manifest.validateStructure with
    | ok _ => simp [checked, Except.map] at failed
    | error e' =>
      rw [checked] at failed
      exact congrArg Except.error (Except.error.inj failed)

theorem openPartIn_mem {store : Store} {id : String} {part : Part}
    (opened : openPartIn store id = .ok part) : id ∈ store.parts := by
  unfold openPartIn at opened
  split at opened
  next => cases opened
  next part' found =>
    exact mem_of_getElem? found

theorem commitMeta_secures : Secures (contract commit.snapshotId .publisher) (fun _ _ => True)
      (fun e _ => OwnError written commit.entries e) (commitMeta commit)
      (Running commit.snapshotId (Placed written)) := by
  rw [commitMeta_eq]
  -- Every entry is opened after the publication began, so its part stays where it is.
  refine Secures.bind (M := fun _ => Running commit.snapshotId
    (Placed (commit.entries.map PartEntry.partId))) ?_ fun _ => ?_
  · refine (Secures.each (I := fun done _ => Running commit.snapshotId
      (Placed (written ++ done.map PartEntry.partId))) commit.entries (fun d running => ?_)
      fun before entry after _ split => ?_).weaken (fun _ d running => ?_) fun _ _ own => own
    · exact ⟨running.phase, running.apart, by simpa using running.holds⟩
    · have named : entry ∈ commit.entries := by simp [split]
      refine Secures.bind (M := fun _ => Running commit.snapshotId
        (Placed (written ++ before.map PartEntry.partId))) (Secures.ofExcept ?_ ?_) fun _ => ?_
      · exact fun _ _ _ running => running
      · exact fun e _ failed _ => .malformed named failed
      · refine running_read (Ψ := fun _ => Placed (written ++ (before ++ [entry]).map
          PartEntry.partId)) (fun _ d running found => ?_) fun e d running failed => ?_
        · split at found
          next part opened =>
            intro id mem
            rw [List.map_append, ← List.append_assoc] at mem
            obtain earlier | own := List.mem_append.mp mem
            · exact running.holds id earlier
            · obtain rfl := List.mem_singleton.mp own
              exact openPartIn_mem opened
          next => cases found
        · split at failed
          next => cases failed
          next e' broken =>
            cases failed
            obtain ⟨missing, rfl⟩ | ⟨part, invalid⟩ := openPartIn_eq_error broken
            · exact .absent named fun own => missing (running.holds _ (List.mem_append_left _ own))
            · exact .unreadable named invalid
    · exact ⟨running.phase, running.apart,
        fun id mem => running.holds id (List.mem_append_right _ mem)⟩
  · extract_lets snap
    have own : snap.snapshotId = commit.snapshotId := rfl
    have names : snap.partIds = commit.entries.map PartEntry.partId := rfl
    refine Secures.bind (M := fun _ => Running commit.snapshotId fun _ parts file =>
      file = some snap ∧ ∀ id ∈ snap.partIds, id ∈ parts)
      (running_replace fun d running => running.step rfl rfl ?_ ?_ (.inl rfl) ⟨?_, ?_⟩) fun _ => ?_
    · intro head moved
      obtain ⟨filed, kept⟩ := running.apart.kept head moved
      refine ⟨fun removed => ?_, fun held file part inside removed => ?_⟩
      · exact Std.ExtTreeMap.mem_insert.mpr (.inr (filed removed))
      · -- The file may be the one that `CURRENT` names; its parts were opened.
        obtain ⟨-, rfl⟩ | file := of_getElem?_insert file
        · exact running.holds part (names ▸ inside)
        · exact kept held file part inside removed
    · exact fun id there => Std.ExtTreeMap.mem_insert.mpr (.inr there)
    · exact own ▸ Std.ExtTreeMap.getElem?_insert_self
    · exact fun id inside => running.holds id (names ▸ inside)
    refine Secures.bind (M := fun _ => Running commit.snapshotId fun _ _ _ => True)
      (running_replace fun d running => running.step rfl rfl ?_ (fun _ there => there)
        (.inr (congrArg some own)) trivial) fun _ => Secures.pure fun _ _ => trivial
    intro head moved
    obtain rfl : commit.snapshotId = head := Option.some.inj moved
    obtain ⟨file, present⟩ := running.holds
    refine ⟨fun _ => ?_, fun held found part inside _ => ?_⟩
    · exact mem_of_getElem? file
    · obtain rfl := Option.mem_unique file found
      exact present part inside

/-- A publication of at least one part fails only for reasons of its own. -/
theorem publish_secures {parts : List Part} (some_part : parts ≠ []) (commit : Commit) :
    Secures (contract commit.snapshotId .publisher) (fun _ _ => True)
      (fun e _ => OwnError (parts.map (·.manifest.partId)) commit.entries e)
      (publish parts commit) (Ready []) := by
  have ended (d : Disk) : Publishes commit.snapshotId d { d with publication := .over } :=
    ⟨rfl, fun apart => ⟨fun ended => (nomatch ended), apart.kept⟩, fun _ => ⟨rfl, rfl⟩,
      fun _ there => there, .inl rfl, fun ended => (nomatch ended)⟩
  refine Secures.ending (M := fun _ _ => True) (F := fun e _ =>
    OwnError (parts.map (·.manifest.partId)) commit.entries e) ?_ ended
    (fun _ _ _ _ _ => trivial) (fun _ _ _ own _ => own) (fun _ _ _ => trivial) fun _ _ own => own
  refine Secures.bind (Secures.each (I := fun done _ => Ready (done.map (·.manifest.partId))) parts
    (fun _ h => h) fun before part after _ _ => (writePart_secures part).weaken
      (fun _ d ready => by simpa using ready) fun _ _ own => own) fun _ => ?_
  refine Secures.bind ((commitMeta_secures commit).strengthen fun d ready => ?_) fun _ =>
    Secures.pure fun _ _ => trivial
  -- At least one part was written, so the publication is under way.
  obtain running | ⟨none, _⟩ := ready.phase
  · exact ⟨running, ready.apart, ready.present⟩
  · exact absurd (List.map_eq_nil_iff.mp none) some_part

/-! ### Both at once -/

/-- A collection and a publication that have not begun, over the files of a store. -/
def race (retainSnapshots : Nat) (nowMs : Int) (parts : List Part) (commit : Commit)
    (store : Store) (tmp : BTreeMap String (List String)) : Threads Side Disk PrismError Unit where
  prog
    | .collector => gcAt retainSnapshots nowMs false >>= fun _ => pure ()
    | .publisher => publish parts commit
  state := ⟨store, tmp, .idle, .idle, [], []⟩

/-- The moves of a schedule whose accesses are all looked at. -/
def Separate (t : Threads Side Disk PrismError Unit) (moves : List (Side × Fault)) : Prop :=
  Meets Threads.step (fun t move => allows commit.snapshotId move.1 move.2 t.state) t moves

/-- If the publication and the collection's pass over the parts directory do not overlap, then
`CURRENT` never names a file that the collection removed, and the publication never fails for
a temporary directory or a part of its own that is gone. -/
theorem collection_spares_publication (retainSnapshots : Nat) (nowMs : Int) (parts : List Part)
    (some_part : parts ≠ []) (commit : Commit) (store : Store)
    (tmp : BTreeMap String (List String)) (moves : List (Side × Fault))
    (separate : Separate commit (race retainSnapshots nowMs parts commit store tmp) moves) :
    let t := (race retainSnapshots nowMs parts commit store tmp).run moves
    t.state.NothingLost ∧ ∀ e, t.prog .publisher = .raise e →
      OwnError (parts.map (·.manifest.partId)) commit.entries e := by
  have apart : Apart ⟨store, tmp, .idle, .idle, [], []⟩ := by
    refine ⟨fun running => (nomatch running), fun id _ => ⟨fun removed => ?_, ?_⟩⟩
    · cases removed
    · exact fun snap _ part _ removed => nomatch removed
  let E : Side → PrismError → Disk → Prop := fun side e _ => side = .publisher →
    OwnError (parts.map (·.manifest.partId)) commit.entries e
  have sound : Threads.Sound (contract commit.snapshotId) (fun _ _ _ => True) E
      (race retainSnapshots nowMs parts commit store tmp) := by
    intro side
    cases side with
    | collector =>
      refine ⟨fun d => d.Apart ∧ d.collection = .idle, ?_, ⟨apart, rfl⟩, ?_⟩
      · exact fun d d' ⟨apart, idle⟩ step => ⟨step.apart apart, step.collection.trans idle⟩
      · exact Secures.bind ((gcAt_secures retainSnapshots nowMs false).weaken (fun _ _ h => h)
          fun _ _ _ other => nomatch other) fun _ => Secures.pure fun _ _ => trivial
    | publisher =>
      refine ⟨Ready [], ready_stable, ⟨apart, .inr ⟨rfl, rfl⟩, by simp⟩, ?_⟩
      exact (publish_secures some_part commit).weaken (fun _ _ h => h) fun _ _ own _ => own
  have allowed : Meets Threads.step
      (fun t move => (contract commit.snapshotId move.1).allows move.2 t.state)
      (race retainSnapshots nowMs parts commit store tmp) moves := by
    have same (side : Side) : (contract commit.snapshotId side).allows =
        allows commit.snapshotId side := by cases side <;> rfl
    simp only [same]
    exact separate
  refine ⟨?_, fun e ended => ?_⟩
  · have kept := sound.invariant (contract_compatible commit.snapshotId) (I := Apart)
      (fun side d d' held step => by
        cases side with
        | collector => exact step.apart held
        | publisher => exact step.apart held) apart moves allowed
    exact kept.kept
  · have final := sound.run (contract_compatible commit.snapshotId) moves allowed
    exact final.raised ended rfl

instance (next : SnapshotId) : ∀ side fault d, Decidable (allows next side fault d)
  | .collector, fault, d => inferInstanceAs
      (Decidable (fault.isFail = false ∧ (d.collection = .idle → d.publication ≠ .running)))
  | .publisher, _, d => inferInstanceAs
      (Decidable (d.publication = .idle → d.collection ≠ .parts ∧
        (d.collection = .snapshots → next ∉ d.store.snapshots)))

instance (commit : Commit) (t : Threads Side Disk PrismError Unit) (moves : List (Side × Fault)) :
    Decidable (Separate commit t moves) :=
  inferInstanceAs (Decidable (Meets Threads.step
    (fun t move => allows commit.snapshotId move.1 move.2 t.state) t moves))

def firstCommit (part : Part) : Commit :=
  ⟨Snapshot.empty, [.legacy part.manifest.partId], 2, some "g", SnapshotMeta.of Snapshot.empty, 1000⟩

def accesses (side : Side) (count : Nat) : List (Side × Fault) :=
  List.replicate count (side, .proceed)

set_option maxRecDepth 100000

/-- A collection removes what an earlier attempt has left, then the publication succeeds. -/
theorem collection_before_publication : ∃ part ∈ firstPart.toOption,
    let t := race 1 5000 [part] (firstCommit part) Store.fresh
      ((∅ : BTreeMap String (List String)).insert part.manifest.partId ["a"])
    let moves := accesses .collector 8 ++ accesses .publisher 40
    Separate (firstCommit part) t moves ∧ (t.run moves).state.store.current = some 1 ∧
      (t.run moves).state.NothingLost ∧ ∀ e, (t.run moves).prog .publisher = .raise e →
        OwnError ([part].map (·.manifest.partId)) (firstCommit part).entries e := by
  have concrete : ∃ part ∈ firstPart.toOption,
      let t := race 1 5000 [part] (firstCommit part) Store.fresh
        ((∅ : BTreeMap String (List String)).insert part.manifest.partId ["a"])
      let moves := accesses .collector 8 ++ accesses .publisher 40
      Separate (firstCommit part) t moves ∧ (t.run moves).state.store.current = some 1 := by
    decide +kernel
  obtain ⟨part, built, separate, named⟩ := concrete
  exact ⟨part, built, separate, named, collection_spares_publication 1 5000 [part] (by simp)
    (firstCommit part) Store.fresh _ _ separate⟩

/-- A collection comes in between: right after the new part has been opened for the commit,
`CURRENT` comes to name a part that it removed; after the rename, the commit is refused; after
the temporary directory was made, the next file cannot be written. -/
theorem collection_takes_new_part : ∃ part ∈ firstPart.toOption,
    let t := race 1 5000 [part] (firstCommit part) Store.fresh ∅
    let id := part.manifest.partId
    let opened := t.run (accesses .publisher (part.files.length + 7) ++
      accesses .collector 8 ++ accesses .publisher 2)
    let renamed := t.run (accesses .publisher (part.files.length + 6) ++
      accesses .collector 8 ++ accesses .publisher 1)
    let made := t.run (accesses .publisher 2 ++ accesses .collector 8 ++ accesses .publisher 1)
    (opened.state.store.current = some 1 ∧
      (opened.state.store.snapshots[1]?).map (·.partIds) = some [id] ∧
      id ∈ opened.state.removedParts ∧ id ∉ opened.state.store.parts) ∧
    ((renamed.prog .publisher).error? = some (refusal id (noManifest id)) ∧
      id ∈ renamed.state.removedParts) ∧
    ((made.prog .publisher).error? = some noSuchFile ∧ made.state.tmp.isEmpty) := by
  decide +kernel

end Disk

end Prism
