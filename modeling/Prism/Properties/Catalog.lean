import Prism.Part.Catalog

/-!
What writing a part and committing a snapshot do to the files of a store, however they end.
-/

namespace Prism

open CrashLogic Fallible Catalog

variable {part : Part} {start : Store} {store : Store}

/-! ### The writer -/

/-- The rows with the attribute keys that a section counts: those left in the map, and those
promoted out of it. -/
def rowKeys (rows : List RowIn) (promoted : List Promoted) (attrRows : List Attributes) :
    List (RowIn × List String) :=
  ((List.range rows.length).zip (rows.zip attrRows)).map fun (i, row, attrs) =>
    (row, attrs.keys ++
      (promoted.filter fun p => (p.values.getD i none).isSome).map (·.column.key))

def writtenS4 (spec : PartSpec) (rows : List RowIn) (promoted : List Promoted)
    (attrRows : List Attributes) : S4Ext :=
  ⟨spec.partition, (tenantStats (rowKeys rows promoted attrRows)).map fun s =>
    { s with tenant := spec.handle s.tenant }, promoted.map (·.column)⟩

/-- The intermediate values of a write, and the part it made of them. -/
structure Written (shape : PartShape) (spec : PartSpec) (batch : List RowIn) (nowMs : Int)
    (part : Part) (promoted : List Promoted) (attrRows : List Attributes)
    (attributes : Bytes × Bytes) (framed : List (ColumnMeta × Bytes)) : Prop where
  blockSize : isPowerOfTwo shape.blockSize = true
  nonempty : batch ≠ []
  checked : ∀ r ∈ batch, r.vector.length = shape.dim ∧ r.code.length = shape.pqM
  rows : part.rows = sortRows batch
  promotes : promoteKeys spec.promote (part.rows.map (·.event.attributes)) = .ok (promoted, attrRows)
  keyCount : (sortedSet (attrRows.flatMap (·.keys))).length ≤ maxAttributeKeyCardinality
  encodes : encodeAttributes (sortedSet (attrRows.flatMap (·.keys))) attrRows = .ok attributes
  frames : (logicalColumns part.rows attributes promoted).mapM
    (frameColumn shape spec part.manifest.partId) = .ok framed
  files : part.files = framed.map fun column => (column.1.file, column.2)
  valid : part.manifest.validateStructure = .ok ()
  manifest : ∃ partId, part.manifest =
    { formatVersion := formatVersion
      partId
      generationId := shape.generationId
      modelId := shape.modelId
      modelVersion := shape.modelVersion
      rowCount := part.rows.length
      dim := shape.dim
      pqM := shape.pqM
      rerank := RerankDescriptor.float32Exact
      timeMin := (part.rows.map (·.event.eventTime)).foldl min maxI64
      timeMax := (part.rows.map (·.event.eventTime)).foldl max minI64
      tenants := sortedSet (part.rows.map fun r => spec.handle r.event.tenantId)
      costMin := (part.rows.map (·.event.cost)).foldl F64.min F64.infinity
      costMax := (part.rows.map (·.event.cost)).foldl F64.max F64.negInfinity
      hasError := part.rows.any (·.event.error)
      hasSuccess := part.rows.any (!·.event.error)
      centroidRanges := centroidMarks shape.pqM (shape.dim * 4) part.rows
      columns := framed.map Prod.fst
      createdAtMs := nowMs
      featureFlags := partFeatures spec promoted
      attributeKeys := sortedSet (attrRows.flatMap (·.keys))
      extensions := partExtensions spec (writtenS4 spec part.rows promoted attrRows) }

theorem buildPart_written {shape : PartShape} {spec : PartSpec} {seq : Nat} {batch : List RowIn}
    {nowMs : Int} {part : Part} (built : buildPart shape spec seq batch nowMs = .ok part) :
    ∃ promoted attrRows attributes framed,
      Written shape spec batch nowMs part promoted attrRows attributes framed := by
  unfold buildPart at built
  obtain ⟨power, built⟩ := guard_eq_ok.mp built
  obtain ⟨some, built⟩ := guard_eq_ok.mp built
  obtain ⟨_, checks, built⟩ := bind_eq_ok.mp built
  obtain ⟨⟨promoted, attrRows⟩, promotes, built⟩ := bind_eq_ok.mp built
  obtain ⟨few, built⟩ := guard_eq_ok.mp built
  obtain ⟨attributes, encodes, built⟩ := bind_eq_ok.mp built
  obtain ⟨framed, frames, built⟩ := bind_eq_ok.mp built
  obtain ⟨_, valid, rfl⟩ := bind_pure_eq_ok.mp built
  refine ⟨promoted, attrRows, attributes, framed, by simpa using power, by simpa using some, ?_, rfl,
    promotes, by simpa using few, encodes, frames, rfl, valid, _, rfl⟩
  intro r mem
  have check := forM_eq_ok.mp checks r mem
  unfold checkRow at check
  split_ifs at check with vector code
  exact ⟨not_not.mp vector, not_not.mp code⟩

/-- A checked manifest has a vector for every row, and its marks are checked. -/
theorem validateStructure_inv {m : PartManifest} (valid : m.validateStructure = .ok ()) :
    m.expectBytes "rerank_vectors" (m.rowCount * m.bytesPerVector) = .ok () ∧
      m.validateMarks 0 0 none m.centroidRanges = .ok () := by
  unfold PartManifest.validateStructure at valid
  obtain ⟨_, valid⟩ := guard_eq_ok.mp valid
  obtain ⟨_, _, valid⟩ := bind_eq_ok.mp valid
  obtain ⟨_, _, valid⟩ := bind_eq_ok.mp valid
  obtain ⟨_, valid⟩ := guard_eq_ok.mp valid
  split_ifs at valid
  · iterate 2 obtain ⟨_, _, valid⟩ := bind_eq_ok.mp valid
    obtain ⟨_, rerank, valid⟩ := bind_eq_ok.mp valid
    iterate 4 obtain ⟨_, _, valid⟩ := bind_eq_ok.mp valid
    exact ⟨rerank, valid⟩
  · obtain ⟨_, _, valid⟩ := bind_eq_ok.mp valid
    obtain ⟨_, rerank, valid⟩ := bind_eq_ok.mp valid
    iterate 4 obtain ⟨_, _, valid⟩ := bind_eq_ok.mp valid
    exact ⟨rerank, valid⟩

/-! ### The head of a store -/

variable {snap : Snapshot}

namespace Store

def rowsOf (store : Store) (entries : List PartEntry) : List RowIn :=
  entries.flatMap fun entry => ((store.parts[entry.partId]?).map Part.rows).getD []

def headRows (store : Store) : List RowIn :=
  match currentIn store with
  | .ok snap => store.rowsOf snap.parts
  | .error _ => []

/-- The log marker of the snapshot that `CURRENT` names. -/
def marker (store : Store) : Option Nat :=
  match currentIn store with
  | .ok snap => snap.appliedWalRecord
  | .error _ => none

/-- The snapshot of an id and its ancestors, as far as their files are there. -/
def ancestors (store : Store) : Nat → SnapshotId → List Snapshot
  | 0, _ => []
  | fuel + 1, id =>
    match loadSnapshotIn store id with
    | .error _ => []
    | .ok snap => snap :: (snap.parent.map (store.ancestors fuel)).getD []

/-- The chain of snapshots that `CURRENT` heads. -/
def chain (store : Store) : List Snapshot :=
  match store.current with
  | none => []
  | some id => store.ancestors (id + 1) id

def PartsPresent (store : Store) (entries : List PartEntry) : Prop :=
  ∀ entry ∈ entries, ∃ part, store.parts[entry.partId]? = some part

def PartsReadable (store : Store) (entries : List PartEntry) : Prop :=
  ∀ entry ∈ entries, ∃ part, openPartIn store entry.partId = .ok part

/-- `CURRENT` names a snapshot that loads, and every part it names is on disk. -/
def Intact (store : Store) : Prop :=
  ∃ snap, currentIn store = .ok snap ∧ store.PartsPresent snap.parts

theorem intact_fresh : fresh.Intact :=
  ⟨Snapshot.empty, rfl, by simp [PartsPresent, Snapshot.empty]⟩

variable {store : Store}

theorem loadSnapshotIn_eq_ok {id : SnapshotId} : loadSnapshotIn store id = .ok snap ↔
      store.snapshots[id]? = some snap ∧ snap.snapshotId = id := by
  unfold loadSnapshotIn
  split
  next absent => simp [absent]
  next held found =>
    by_cases own : held.snapshotId = id
    · simp only [ne_eq, own, not_true_eq_false, if_false, Except.ok.injEq, found, Option.some_inj]
      exact ⟨fun same => ⟨same, same ▸ own⟩, fun both => both.1⟩
    · simp only [ne_eq, own, not_false_eq_true, if_true, reduceCtorEq, found, Option.some_inj,
        false_iff, not_and]
      exact fun same => same ▸ own

theorem currentIn_eq_ok : currentIn store = .ok snap ↔
      (store.current = none ∧ snap = Snapshot.empty) ∨
        (store.current = some snap.snapshotId ∧
          store.snapshots[snap.snapshotId]? = some snap) := by
  unfold currentIn
  cases named : store.current with
  | none => simp [eq_comm]
  | some id =>
    simp only [loadSnapshotIn_eq_ok, reduceCtorEq, false_and, Option.some_inj, false_or]
    constructor
    · rintro ⟨file, rfl⟩
      exact ⟨rfl, file⟩
    · rintro ⟨rfl, file⟩
      exact ⟨file, rfl⟩

theorem mem_chain_of_current (named : store.current ≠ none) (head : currentIn store = .ok snap) :
    snap ∈ store.chain := by
  obtain ⟨absent, _⟩ | ⟨current, file⟩ := currentIn_eq_ok.mp head
  · exact absurd absent named
  · have loaded := loadSnapshotIn_eq_ok.mpr ⟨file, rfl⟩
    simp [chain, current, ancestors, loaded]

/-! ### Growth -/

/-- Files were added; the head is the same and no part directory has changed. -/
structure Grown (store store' : Store) : Prop where
  head : currentIn store' = currentIn store
  parts : ∀ (id : String) (part : Part), store.parts[id]? = some part → store'.parts[id]? = some part
  clashed : store.clashed = true → store'.clashed = true

theorem Grown.refl (store : Store) : Grown store store := ⟨rfl, fun _ _ h => h, fun h => h⟩

theorem Grown.trans {a b c : Store} (first : Grown a b) (second : Grown b c) : Grown a c where
  head := second.head.trans first.head
  parts id part present := second.parts id part (first.parts id part present)
  clashed before := second.clashed (first.clashed before)

variable {store' : Store}

theorem Grown.not_clashed (grown : Grown store store') (clean : store'.clashed = false) :
    store.clashed = false := by
  cases before : store.clashed with
  | false => rfl
  | true => exact absurd (grown.clashed before) (by simp [clean])

theorem Grown.marker (grown : Grown store store') : store'.marker = store.marker := by
  simp only [Store.marker, grown.head]

theorem rowsOf_append (store : Store) (xs ys : List PartEntry) :
    store.rowsOf (xs ++ ys) = store.rowsOf xs ++ store.rowsOf ys := by
  simp [rowsOf]

theorem rowsOf_of_parts {entries : List PartEntry}
    (kept : ∀ (id : String) (part : Part), store.parts[id]? = some part → store'.parts[id]? = some part)
    (present : store.PartsPresent entries) : store'.rowsOf entries = store.rowsOf entries := by
  refine List.flatMap_congr fun entry mem => ?_
  obtain ⟨part, found⟩ := present entry mem
  rw [found, kept _ _ found]

theorem Grown.intact (grown : Grown store store') (intact : store.Intact) : store'.Intact := by
  obtain ⟨snap, head, present⟩ := intact
  refine ⟨snap, grown.head.trans head, fun entry mem => ?_⟩
  obtain ⟨part, found⟩ := present entry mem
  exact ⟨part, grown.parts _ _ found⟩

theorem Grown.headRows (grown : Grown store store') (intact : store.Intact) :
    store'.headRows = store.headRows := by
  obtain ⟨snap, head, present⟩ := intact
  simp only [Store.headRows, grown.head, head]
  exact rowsOf_of_parts grown.parts present

end Store

/-! ### Writing a part -/

open Store

theorem putPart_grown : Grown store (putPart part store) := by
  unfold putPart
  cases found : store.parts[part.manifest.partId]? with
  | some other =>
    refine ⟨rfl, fun _ _ h => h, fun before => ?_⟩
    simp [before]
  | none =>
    refine ⟨rfl, fun id old present => ?_, fun before => before⟩
    rw [Std.ExtTreeMap.getElem?_insert, if_neg, present]
    intro same
    rw [Std.LawfulEqCmp.compare_eq_iff_eq] at same
    simp [← same, found] at present

variable {store : Store}

/-- Unless the name was taken by other rows, the directory of a part holds its rows. -/
theorem rows_putPart (clean : (putPart part store).clashed = false) :
    ((putPart part store).parts[part.manifest.partId]?).map Part.rows = some part.rows := by
  unfold putPart at clean ⊢
  cases found : store.parts[part.manifest.partId]? with
  | some other =>
    simp only [found, Bool.or_eq_false_iff, decide_eq_false_iff_not, not_not] at clean
    simp [found, clean.2]
  | none => simp

theorem writePart_spec (shape : PartShape) (spec : PartSpec) (seq : Nat) (rows : List RowIn)
    (nowMs : Int) : Triple (· = start) (writePart shape spec seq rows nowMs)
      (fun manifest store => ∃ part, buildPart shape spec seq rows nowMs = .ok part ∧
        manifest = part.manifest ∧ store = putPart part start)
      (fun store => store = start ∨ ∃ part, buildPart shape spec seq rows nowMs = .ok part ∧
        store = putPart part start) := by
  refine Triple.bind (Q := fun part store =>
    buildPart shape spec seq rows nowMs = .ok part ∧ store = start) ?_ fun part => ?_
  · exact Triple.ofExcept (fun _ _ built same => ⟨built, same⟩) fun _ same => .inl same
  · refine Triple.bind (Q := fun _ store =>
      buildPart shape spec seq rows nowMs = .ok part ∧ store = putPart part start) ?_ fun _ => ?_
    · refine Triple.replace ?_ ?_ ?_
      · rintro store ⟨built, rfl⟩
        exact ⟨built, rfl⟩
      · rintro store ⟨_, rfl⟩
        exact .inl rfl
      · rintro store ⟨built, rfl⟩
        exact .inr ⟨part, built, rfl⟩
    · exact Triple.pure fun store ⟨built, same⟩ => ⟨part, built, rfl, same⟩

/-! ### Committing a snapshot -/

def install (snap : Snapshot) (store : Store) : Store :=
  putCurrent snap.snapshotId (putSnapshot snap store)

theorem currentIn_install (snap : Snapshot) (store : Store) :
    currentIn (install snap store) = .ok snap :=
  currentIn_eq_ok.mpr (.inr ⟨rfl, by simp [install, putSnapshot, putCurrent]⟩)

/-- A snapshot file beside the head's does not change the head. -/
theorem putSnapshot_grown {parent : Snapshot} (head : currentIn store = .ok parent)
    (newer : parent.snapshotId < snap.snapshotId) : Grown store (putSnapshot snap store) := by
  refine ⟨?_, fun _ _ h => h, fun h => h⟩
  rw [head]
  refine currentIn_eq_ok.mpr ?_
  obtain ⟨absent, empty⟩ | ⟨current, file⟩ := currentIn_eq_ok.mp head
  · exact .inl ⟨absent, empty⟩
  · refine .inr ⟨current, ?_⟩
    have other : compare snap.snapshotId parent.snapshotId ≠ .eq := by
      rw [ne_eq, Std.LawfulEqCmp.compare_eq_iff_eq]
      exact (Nat.ne_of_lt newer).symm
    simp only [putSnapshot]
    rw [Std.ExtTreeMap.getElem?_insert, if_neg other, file]

theorem openPartIn_present {id : String} (opened : openPartIn store id = .ok part) :
    store.parts[id]? = some part := by
  unfold openPartIn at opened
  cases found : store.parts[id]? with
  | none => simp [found] at opened
  | some held =>
    simp only [found] at opened
    cases checked : held.manifest.validateStructure with
    | error e => simp [checked, Except.map] at opened
    | ok _ => simpa [checked, Except.map] using opened

theorem Store.PartsReadable.present {entries : List PartEntry}
    (readable : store.PartsReadable entries) : store.PartsPresent entries :=
  fun entry mem => (readable entry mem).imp fun _ opened => openPartIn_present opened

theorem checkEntry_spec (entry : PartEntry) :
    Observes (checkEntry entry) fun store _ => ∃ part, openPartIn store entry.partId = .ok part := by
  refine Observes.bind Observes.ofExcept fun _ => Observes.read.weaken fun store _ returned _ => ?_
  cases opened : openPartIn store entry.partId with
  | ok part => exact ⟨part, rfl⟩
  | error e => simp [opened] at returned

theorem commitMeta_spec (parent : Snapshot) (parts : List PartEntry) (nextSeq : Nat)
    (activeGeneration : Option String) (carried : SnapshotMeta) (nowMs : Int) (start : Store) :
    let new := nextSnapshot parent parts nextSeq activeGeneration carried nowMs
    Triple (· = start) (commitMeta parent parts nextSeq activeGeneration carried nowMs)
      (fun snap store => snap = new ∧ store = install new start ∧ PartsReadable start parts)
      (fun store => store = start ∨ (store = putSnapshot new start ∧ PartsReadable start parts) ∨
        (store = install new start ∧ PartsReadable start parts)) := by
  intro new
  refine (Observes.each checkEntry_spec parts).bind_triple (.inl rfl) fun _ checked => ?_
  have present : PartsReadable start parts := by
    intro entry mem
    obtain ⟨_, _, opened⟩ := Fallible.exists_left_of_forall₂ checked.flip mem
    exact opened
  refine Triple.bind (Q := fun _ store => store = putSnapshot new start) ?_ fun _ => ?_
  · refine Triple.replace ?_ ?_ ?_
    · rintro store rfl
      rfl
    · exact fun store same => .inl same
    · rintro store rfl
      exact .inr (.inl ⟨rfl, present⟩)
  · refine Triple.bind (Q := fun _ store => store = install new start) ?_ fun _ => ?_
    · refine Triple.replace ?_ ?_ ?_
      · rintro store rfl
        rfl
      · exact fun store written => .inr (.inl ⟨written, present⟩)
      · rintro store rfl
        exact .inr (.inr ⟨rfl, present⟩)
    · exact Triple.pure fun store same => ⟨rfl, same, present⟩

end Prism
