import Prism.Properties.Migration

/-!
Which parts of the snapshots are on the object store. An ingest puts up the cold tier of every part
it writes before the commit that names it; the operations that rewrite parts put up nothing.
-/

namespace Prism

open CrashLogic Fallible Catalog Store Engine OrderedMap

variable {applied : Option Nat} {nowMs : Int} {snap : Snapshot}

/-! ### Parts whose cold tier is on the object store -/

/-- What cold reads depend on: part directories, the snapshots that name them, and objects. -/
structure Shelf where
  parts : BTreeMap String Part
  snapshots : BTreeMap SnapshotId Snapshot
  cold : BTreeMap String Bytes

def World.shelf (w : World) : Shelf := ⟨w.store.parts, w.store.snapshots, w.objects.cold⟩

theorem coldKey_injective : Function.Injective coldKey := by
  intro a b same
  have texts := congrArg String.toList same
  exact String.toList_inj.mp (by simpa [coldKey, toString] using texts)

namespace Shelf

/-- The part is on disk, and its cold tier, if it has one, is on the object store byte by byte. -/
def Durable (s : Shelf) (id : String) : Prop :=
  ∃ part, s.parts[id]? = some part ∧
    ∀ bytes, part.files.lookup "rerank.vec" = some bytes → s.cold[coldKey id]? = some bytes

/-- Every object is the cold tier of its part, and every part of a snapshot is durable. -/
structure Sound (s : Shelf) : Prop where
  uploaded : ∀ (id : String) (bytes : Bytes), s.cold[coldKey id]? = some bytes →
    ∃ part, s.parts[id]? = some part ∧ part.files.lookup "rerank.vec" = some bytes
  named : ∀ (n : SnapshotId) (snap : Snapshot), s.snapshots[n]? = some snap →
    ∀ entry ∈ snap.parts, s.Durable entry.partId

structure Grows (s s' : Shelf) : Prop where
  parts : ∀ (id : String) (part : Part), s.parts[id]? = some part → s'.parts[id]? = some part
  cold : ∀ (key : String) (bytes : Bytes), s.cold[key]? = some bytes → s'.cold[key]? = some bytes

theorem Grows.refl (s : Shelf) : Grows s s := ⟨fun _ _ h => h, fun _ _ h => h⟩

theorem Durable.grows {s s' : Shelf} {id : String} (durable : s.Durable id) (grows : Grows s s') :
    s'.Durable id := by
  obtain ⟨part, found, up⟩ := durable
  exact ⟨part, grows.parts id part found, fun bytes tier => grows.cold _ _ (up bytes tier)⟩

theorem sound_fresh : World.fresh.shelf.Sound where
  uploaded id bytes found := by simp [World.shelf, World.fresh] at found
  named n snap found := by simp [World.shelf, World.fresh, Store.fresh] at found

end Shelf

namespace World

structure Shelters (disk durable : List String) (w : World) : Prop where
  sound : w.shelf.Sound
  disk : ∀ id ∈ disk, (w.store.parts[id]?).isSome
  durable : ∀ id ∈ durable, w.shelf.Durable id

variable {disk durable : List String} {w w' : World}

theorem Shelters.mono (shelters : Shelters disk durable w) (grows : w.shelf.Grows w'.shelf)
    (sound : w'.shelf.Sound) : Shelters disk durable w' where
  sound := sound
  disk id inside := by
    obtain ⟨part, found⟩ := Option.isSome_iff_exists.mp (shelters.disk id inside)
    have kept := grows.parts id part found
    exact Option.isSome_iff_exists.mpr ⟨part, kept⟩
  durable id inside := (shelters.durable id inside).grows grows

end World

open World

variable {disk durable : List String} {α : Type}

/-- A program that leaves directories, snapshots and objects alone. -/
theorem shelters_of_leaves {p : Io α} (leaves : Leaves World.shelf p) :
    Triple (Shelters disk durable) p (fun _ => Shelters disk durable) (fun w => w.shelf.Sound) := by
  refine leaves.carry (fun s s' same held => ?_) fun _ held => held.sound
  exact held.mono (same ▸ Shelf.Grows.refl _) (same ▸ held.sound)

variable {snap : Snapshot}

/-- The parts of the head are durable. -/
theorem Shelf.Sound.shelters_head {w : World} (sound : w.shelf.Sound)
    (head : currentIn w.store = .ok snap) : Shelters [] snap.partIds w := by
  refine ⟨sound, by simp, fun id mem => ?_⟩
  obtain ⟨entry, inside, rfl⟩ := List.mem_map.mp mem
  obtain ⟨_, rfl⟩ | ⟨_, found⟩ := currentIn_eq_ok.mp head
  · cases inside
  · exact sound.named _ snap found entry inside

theorem snapshot_shelters :
    Triple (fun w => w.shelf.Sound) snapshot (fun snap => Shelters [] snap.partIds)
      (fun w => w.shelf.Sound) := by
  exact (snapshot_spec.triple fun _ sound => sound).weaken
    fun _ _ ⟨head, sound⟩ => sound.shelters_head head

/-- Writing a part adds a directory or leaves the one that is there. -/
theorem writePart_shelters {shape : PartShape} {spec : PartSpec} {seq : Nat} {rows : List RowIn}
    {nowMs : Int} :
    Triple (Shelters disk durable) (onStore (Catalog.writePart shape spec seq rows nowMs))
      (fun manifest => Shelters (disk ++ [manifest.partId]) durable) (fun w => w.shelf.Sound) := by
  refine Triple.fix fun w held => ?_
  have grows (part : Part) : w.shelf.Grows { w with store := putPart part w.store }.shelf :=
    ⟨putPart_grown.parts, fun _ _ h => h⟩
  have sound (part : Part) : { w with store := putPart part w.store }.shelf.Sound := by
    refine ⟨fun id bytes found => ?_, fun n snap found entry inside => ?_⟩
    · obtain ⟨old, there, tier⟩ := held.sound.uploaded id bytes found
      exact ⟨old, (grows part).parts id old there, tier⟩
    · have before : w.store.snapshots[n]? = some snap := by
        have same : (putPart part w.store).snapshots = w.store.snapshots := by
          unfold putPart
          split <;> rfl
        rw [← same]
        exact found
      exact (held.sound.named n snap before entry inside).grows (grows part)
  refine onStore_spec ((writePart_spec shape spec seq rows nowMs).conseq (fun _ h => h) ?_ ?_)
  · rintro manifest store ⟨part, _, rfl, rfl⟩
    obtain ⟨sound, disk, durable⟩ := held.mono (grows part) (sound part)
    refine ⟨sound, fun id inside => ?_, durable⟩
    rcases List.mem_append.mp inside with earlier | last
    · exact disk id earlier
    · rw [List.mem_singleton.mp last]
      unfold putPart
      split
      next other found => simp [found]
      next => simp
  · rintro store (rfl | ⟨part, _, rfl⟩)
    · exact held.sound
    · exact sound part

/-- What an upload of the cold tier of a part on disk does. -/
theorem upload_shelters {w : World} {id : String} {part : Part} {bytes : Bytes}
    (held : Shelters disk durable w) (found : w.store.parts[id]? = some part)
    (tier : part.files.lookup "rerank.vec" = some bytes) : Shelters disk durable
      { w with objects := { w.objects with cold := w.objects.cold.insert (coldKey id) bytes } } := by
  have grows : w.shelf.Grows
      { w with objects := { w.objects with cold := w.objects.cold.insert (coldKey id) bytes } }.shelf := by
    refine ⟨fun _ _ h => h, fun key old there => ?_⟩
    simp only [World.shelf, Std.ExtTreeMap.getElem?_insert, compare_eq_iff_eq]
    split
    next same =>
      -- What was there is the cold tier of the same part.
      subst same
      obtain ⟨part', found', tier'⟩ := held.sound.uploaded id old there
      obtain rfl := Option.mem_unique found found'
      exact tier.symm.trans tier'
    next => exact there
  refine held.mono grows ⟨fun other old there => ?_, fun n snap there entry inside =>
    (held.sound.named n snap there entry inside).grows grows⟩
  obtain ⟨same, rfl⟩ | there := of_getElem?_insert there
  · obtain rfl := coldKey_injective same
    exact ⟨part, found, tier⟩
  · exact held.sound.uploaded other old there

theorem publishPartCold_shelters {id : String} (onDisk : id ∈ disk) :
    Triple (Shelters disk durable) (publishPartCold id) (fun _ => Shelters disk (durable ++ [id]))
      (fun w => w.shelf.Sound) := by
  refine Triple.bind (Observes.read.triple fun _ held => held.sound) fun found => ?_
  split
  next absent =>
    -- The code looks for the file first; a part without a cold tier has nothing to put up.
    refine Triple.pure ?_
    rintro w ⟨read, held⟩
    cases read
    refine ⟨held.sound, held.disk, fun other inside => ?_⟩
    rcases List.mem_append.mp inside with earlier | last
    · exact held.durable other earlier
    · rw [List.mem_singleton.mp last]
      obtain ⟨part, there⟩ := Option.isSome_iff_exists.mp (held.disk id onDisk)
      refine ⟨part, there, fun bytes tier => ?_⟩
      simp [there, tier] at absent
  next _ _ present =>
    obtain ⟨part, rfl, mapped⟩ := Option.bind_eq_some_iff.mp present
    obtain ⟨bytes, tier, same⟩ := Option.map_eq_some_iff.mp mapped
    obtain ⟨rfl, rfl⟩ := Prod.mk.inj same
    refine Triple.bind (Q := fun head w => (w.objects.cold[coldKey id]?).map List.length = head ∧
      w.store.parts[id]? = some part ∧ Shelters disk durable w) (Triple.read ?_ ?_) fun head => ?_
    · rintro head w ⟨read, held⟩ size
      exact ⟨Except.ok.inj size, Except.ok.inj read, held⟩
    · rintro w ⟨_, held⟩
      exact held.sound
    -- Whatever the last look finds, the object has been put up.
    have verified {look : World → Result Unit} :
        Triple (fun w => w.objects.cold[coldKey id]? = some bytes ∧
          w.store.parts[id]? = some part ∧ Shelters disk durable w) (Prog.read deviceError look)
        (fun _ => Shelters disk (durable ++ [id])) (fun w => w.shelf.Sound) := by
      refine Triple.read ?_ fun _ held => held.2.2.sound
      rintro _ w ⟨up, there, held⟩ _
      refine ⟨held.sound, held.disk, fun other inside => ?_⟩
      rcases List.mem_append.mp inside with earlier | last
      · exact held.durable other earlier
      · rw [List.mem_singleton.mp last]
        refine ⟨part, there, fun bytes' tier' => ?_⟩
        obtain rfl := Option.mem_unique tier tier'
        exact up
    split
    next =>
      refine Triple.bind (Triple.replace ?_ (fun _ held => held.2.2.sound) ?_) fun _ => verified
      · rintro w ⟨_, there, held⟩
        exact ⟨by simp, there, upload_shelters held there tier⟩
      · rintro w ⟨_, there, held⟩
        exact (upload_shelters held there tier).sound
    next skipped =>
      -- An object of the right size is there, and every object is the cold tier of its part.
      refine verified.strengthen ?_
      rintro w ⟨size, there, held⟩
      refine ⟨?_, there, held⟩
      push Not at skipped
      rw [skipped.2, Option.map_eq_some_iff] at size
      obtain ⟨old, up, _⟩ := size
      obtain ⟨part', there', tier'⟩ := held.sound.uploaded id old up
      obtain rfl := Option.mem_unique there there'
      obtain rfl := Option.mem_unique tier tier'
      exact up

/-- A commit whose parts are durable. -/
theorem commitMeta_shelters (disk durable : List String) {parent : Snapshot} {parts : List PartEntry} {nextSeq : Nat}
    {active : Option String} {carried : SnapshotMeta} {nowMs : Int}
    (within : ∀ entry ∈ parts, entry.partId ∈ durable) : Triple (Shelters disk durable)
      (onStore (Catalog.commitMeta parent parts nextSeq active carried nowMs))
      (fun _ w => w.shelf.Sound) (fun w => w.shelf.Sound) := by
  refine Triple.fix fun w held => ?_
  have sound : ∀ store : Store, store.parts = w.store.parts →
      store.snapshots = w.store.snapshots.insert (parent.snapshotId + 1)
        (nextSnapshot parent parts nextSeq active carried nowMs) →
      { w with store }.shelf.Sound := by
    intro store same added
    have grows : w.shelf.Grows { w with store }.shelf :=
      ⟨fun id part found => by simpa [World.shelf, same] using found, fun _ _ h => h⟩
    refine ⟨fun id bytes found => ?_, fun n snap found entry inside => ?_⟩
    · obtain ⟨part, there, tier⟩ := held.sound.uploaded id bytes found
      exact ⟨part, grows.parts id part there, tier⟩
    · simp only [World.shelf, added] at found
      obtain ⟨-, rfl⟩ | found := of_getElem?_insert found
      · exact (held.durable _ (within entry inside)).grows grows
      · exact (held.sound.named n snap found entry inside).grows grows
  refine onStore_spec ((commitMeta_spec parent parts nextSeq active carried nowMs w.store).conseq
    (fun _ h => h) ?_ ?_)
  · rintro _ store ⟨_, rfl, _⟩
    exact sound _ rfl rfl
  · rintro store (rfl | ⟨rfl, _⟩ | ⟨rfl, _⟩)
    · exact held.sound
    · exact sound _ rfl rfl
    · exact sound _ rfl rfl

/-! ### What an ingest leaves -/

theorem mirrorSnapshot_shelf : Leaves World.shelf (mirrorSnapshot snap) := by
  unfold mirrorSnapshot
  split
  · exact Leaves.pure
  · refine Leaves.bind (Leaves.replace fun w => ?_) fun _ => Leaves.read
    unfold putMirror
    split <;> rfl

variable (engine : Engine) (g : Generation)

theorem writePartition_shelters (item : Nat × PartitionKey × List RowIn) :
    Triple (Shelters disk durable) (engine.writePartition g nowMs item)
      (fun ref => Shelters (disk ++ [ref.partId]) durable) (fun w => w.shelf.Sound) := by
  refine Triple.bind (shelters_of_leaves Leaves.ofExcept) fun tokenizer => ?_
  refine Triple.bind (shelters_of_leaves Leaves.ofExcept) fun encryption => ?_
  exact Triple.bind writePart_shelters fun _ => Triple.pure fun _ held => held

theorem writePartitions_shelters (items : List (Nat × PartitionKey × List RowIn)) :
    Triple (Shelters disk durable) (Prog.each (engine.writePartition g nowMs) items)
      (fun refs => Shelters (disk ++ refs.map (·.partId)) durable) (fun w => w.shelf.Sound) := by
  refine Triple.each (I := fun _ refs => Shelters (disk ++ refs.map PartRef.partId) durable) items
    (fun w held => by simpa using held) fun before item _ refs _ => ?_
  refine (writePartition_shelters engine g item).weaken fun ref w held => ?_
  simpa using held

variable {ids : List String}

theorem publishParts_shelters (onDisk : ∀ id ∈ ids, id ∈ disk) :
    Triple (Shelters disk durable) (Prog.each publishPartCold ids)
      (fun _ => Shelters disk (durable ++ ids)) (fun w => w.shelf.Sound) := by
  refine Triple.each (I := fun done _ => Shelters disk (durable ++ done)) ids
    (fun w held => by simpa using held) fun before id after _ split => ?_
  refine (publishPartCold_shelters (onDisk id (by simp [split]))).weaken fun _ w held => ?_
  simpa using held

theorem writeAndCommit_shelters (g : Generation)
    (embedded : List (Event × Vector32)) (dead : List DeadLetter) (trained : Bool) :
    Triple (Shelters [] snap.partIds)
      (engine.writeAndCommit snap g embedded dead trained nowMs applied)
      (fun _ w => w.shelf.Sound) (fun w => w.shelf.Sound) := by
  refine Triple.bind (shelters_of_leaves (writeDeadLetters_leaves (fun _ _ => rfl) dead)) fun _ => ?_
  split
  · exact Triple.pure fun _ held => held.sound
  · refine Triple.bind (shelters_of_leaves Leaves.ofExcept) fun rows => ?_
    refine Triple.bind (writePartitions_shelters engine g _) fun refs => ?_
    refine Triple.bind (publishParts_shelters fun id inside => by simpa using inside) fun _ => ?_
    refine Triple.bind (shelters_of_leaves ((assertWriteOwner_spec engine).leaves _)) fun _ => ?_
    refine Triple.bind (shelters_of_leaves mirrorSnapshot_shelf) fun _ => ?_
    refine Triple.bind (commitMeta_shelters _ _ fun entry inside => ?_) fun committed => ?_
    · rcases List.mem_append.mp inside with old | new
      · exact List.mem_append_left _ (List.mem_map_of_mem old)
      · obtain ⟨ref, mem, rfl⟩ := List.mem_map.mp new
        exact List.mem_append_right _ (List.mem_map_of_mem mem)
    · exact Triple.bind (mirrorSnapshot_shelf.keeps Shelf.Sound) fun _ =>
        Triple.pure fun _ sound => sound

/-- A program that leaves the shelf alone, as the last step. -/
theorem sound_of_leaves {p : Io α} (leaves : Leaves World.shelf p) :
    Triple (Shelters disk durable) p (fun _ w => w.shelf.Sound) (fun w => w.shelf.Sound) :=
  (shelters_of_leaves leaves).weaken fun _ _ held => held.sound

theorem ingestInner_sound (events : List Event) (preflightModel : Bool) :
    Keeps (fun w => w.shelf.Sound) (engine.ingestInner events nowMs applied preflightModel) :=
  engine.ingestInner_reads (R := fun snap p => Triple (Shelters [] snap.partIds) p
      (fun _ w => w.shelf.Sound) fun w => w.shelf.Sound) (Triple.bind snapshot_shelters)
    (fun leaves => Triple.bind (shelters_of_leaves leaves)) (writeDeadLetters_leaves fun _ _ => rfl)
    (Triple.bind (shelters_of_leaves (Phases.replaces (fun _ => rfl) (putGenerationIn_unrecorded _))))
    (Triple.pure fun _ held => held.sound)
    fun _ g _ _ trained => writeAndCommit_shelters engine g _ _ trained

/-! ### Operations that commit the parts they found -/

/-- Operations that write no part and commit the parts of the head once more. -/
def shelfPhases : Phases World.shelf (fun _ => False) (fun snap parts => parts = snap.parts) where
  Stages _ := Leaves World.shelf
  Finishes snap _ p := Triple (Shelters [] snap.partIds) p (fun _ w => w.shelf.Sound)
    (fun w => w.shelf.Sound)
  Publishes := Keeps fun w => w.shelf.Sound
  leaves leaves := leaves
  bind := Leaves.bind
  writePart := False.elim
  finishes := sound_of_leaves
  onward first := Triple.bind (shelters_of_leaves first)
  commit same _ := commitMeta_shelters _ _ fun _ inside => List.mem_map_of_mem (same ▸ inside)
  after first next := Triple.bind first fun a => (next a).keeps Shelf.Sound
  published keeps := keeps.strengthen fun _ held => held.sound
  snapshot := Triple.bind snapshot_shelters
  looking first := Triple.bind (first.keeps Shelf.Sound)

theorem rollback_sound (toId : SnapshotId) :
    Keeps (fun w => w.shelf.Sound) (Engine.rollback toId nowMs) := by
  refine Triple.bind (Q := fun target => Shelters [] target.partIds) ?_ fun target => ?_
  · refine ((onStore_observes Observes.read).triple fun _ sound => sound).weaken ?_
    rintro target w ⟨loaded, sound⟩
    refine ⟨sound, by simp, fun id mem => ?_⟩
    obtain ⟨entry, inside, rfl⟩ := List.mem_map.mp mem
    exact sound.named toId target (loadSnapshotIn_eq_ok.mp loaded).1 entry inside
  · refine Triple.bind (shelters_of_leaves (snapshot_spec.leaves _)) fun current => ?_
    exact Triple.bind (commitMeta_shelters _ _ fun _ inside => List.mem_map_of_mem inside) fun _ =>
      Triple.pure fun _ sound => sound

/-! ### Rewriting operations that write no part -/

namespace Engine

/-- A full merge of these parts returns before it reads their rows: there is nothing to merge and
nothing to move forward, or no space. -/
def mergeSkips (engine : Engine) (free : Option Nat) (snap : Snapshot) (parts : List Part) : Prop :=
  ∀ tokenizer, engine.tenantTokenizer = .ok tokenizer →
    (snap.parts.length < 2 ∧ ∀ part ∈ parts, needsMigration tokenizer.isSome ⟨part, none⟩ = false) ∨
      ∃ bytes, free = some bytes ∧
        bytes < (parts.map (·.manifest.logicalBytes)).sum + mergeSafetyMarginBytes

def MergeIdle (engine : Engine) (free : Option Nat) (store : Store) (snap : Snapshot) : Prop :=
  engine.mergeSkips free snap (store.partsAt snap.partIds) ∨
    (engine.fullRewrites store snap).rewrites = []

def TieredIdle (engine : Engine) (free : Option Nat) (store : Store) (snap : Snapshot) : Prop :=
  if (snap.parts.filterMap PartEntry.located?).length ≠ snap.parts.length then
    engine.MergeIdle free store snap
  else (engine.tieredRewrites store snap).rewrites = []

/-- No row of the partitions that a migration would re-embed is taken by the model. -/
def MigrationIdle (store : Store) (embed : Embedder) (g : Generation) (limit : Option Nat)
    (snap : Snapshot) : Prop :=
  ∀ p ∈ upTo limit (pendingPartitions store g snap), ∀ r ∈ store.rowsAt p.2, embeds embed r = false

end Engine

theorem partsAt_opened {store : Store} {readers : List PartReader}
    (opened : List.Forall₂ (fun id r => store.parts[id]? = some r.part) ids readers) :
    store.partsAt ids = readers.map (·.part) := by
  induction opened with
  | nil => rfl
  | cons found _ ih => rw [Store.partsAt, List.filterMap_cons_some found, List.map_cons, ← ih, Store.partsAt]

variable {start : World}

/-- A merge that leaves no row commits no part. -/
theorem mergeParts_idle {engine : Engine} {readers : List PartReader} (sound : start.shelf.Sound)
    (opened : start.store.layout snap.parts =
      readers.map fun r => (r.manifest.generationId, r.part.rows))
    (none : (engine.fullRewrites start.store snap).rewrites = []) (migrated : Nat) :
    Triple (· = start) (engine.mergeParts snap readers migrated nowMs)
      (fun _ w => w.shelf.Sound) (fun w => w.shelf.Sound) := by
  refine readParts_spec.bind_triple sound fun parts read => ?_
  rw [← opened] at read
  subst read
  have empty : (reconcileParts engine.config.partitions snap (start.store.layout snap.parts)).groups =
      [] := List.map_eq_nil_iff.mp none
  dsimp only
  rw [empty]
  refine Observes.bind_triple (Observes.pure (C := fun _ written => written = []) fun _ => rfl) sound
    fun written nothing => ?_
  subst nothing
  refine Triple.bind ((commitMeta_shelters [] [] (by simp)).strengthen ?_)
    fun _ => Triple.pure fun _ sound => sound
  rintro _ rfl
  exact ⟨sound, by simp, by simp⟩

theorem merge_idle {engine : Engine} {free : Option Nat} (sound : start.shelf.Sound)
    (idle : ∀ snap, currentIn start.store = .ok snap → engine.MergeIdle free start.store snap)
    (nowMs : Int) : Triple (· = start) (engine.merge free nowMs) (fun _ w => w.shelf.Sound)
      (fun w => w.shelf.Sound) := by
  have stays : ∀ w : World, w = start → w.shelf.Sound := fun w same => same ▸ sound
  refine snapshot_spec.bind_triple sound fun snap head => ?_
  refine openParts_spec.bind_triple sound fun readers opened => ?_
  refine Observes.ofExcept.bind_triple sound fun tokenizer resolved => ?_
  dsimp only
  split
  · exact Triple.pure stays
  next several =>
    split
    · exact Triple.pure stays
    next enough =>
      rcases idle snap head with skips | none
      · -- The guards of the merge say that it would not have come this far.
        rw [partsAt_opened opened] at skips
        rcases skips tokenizer resolved with ⟨few, current⟩ | ⟨bytes, given, short⟩
        · refine absurd ⟨few, ?_⟩ several
          rw [List.isEmpty_iff, List.filter_eq_nil_iff]
          intro r mem
          simpa [needsMigration, PartReader.manifest] using current r.part (List.mem_map_of_mem mem)
        · rw [given, Option.filter_eq_none_iff] at enough
          refine absurd (decide_eq_true ?_) (enough bytes rfl)
          simpa [PartReader.manifest, Function.comp_def] using short
      · exact mergeParts_idle sound (layout_of_opened opened) none _

/-- An operation of the scheduler whose rows are all deleted writes nothing. -/
theorem runOp_idle {engine : Engine} {op : MergeOp}
    (none : engine.opRewrite start.store snap op = none) (seq : Nat) :
    Triple (· = start) (engine.runOp snap nowMs seq op) (fun out w => out.ref = .none ∧ w = start)
      (· = start) := by
  refine (readOp_spec op.partIds).bind_triple rfl fun outs ⟨parts, rows⟩ => ?_
  dsimp only
  rw [reconciled_opened parts rows]
  split
  · exact Triple.pure fun _ same => ⟨rfl, same⟩
  next key found => simp [opRewrite, found] at none

theorem runOps_idle {engine : Engine} {ops : List MergeOp}
    (none : ∀ op ∈ ops, engine.opRewrite start.store snap op = none) (seq : Nat) :
    Triple (· = start) (engine.runOps snap nowMs seq ops)
      (fun outs w => outs.filterMap (·.ref) = [] ∧ w = start) (· = start) := by
  induction ops generalizing seq with
  | nil => exact Triple.pure fun _ same => ⟨rfl, same⟩
  | cons op ops ih =>
    refine Triple.bind (runOp_idle (none op List.mem_cons_self) seq) fun out => ?_
    refine Triple.assume fun first => ?_
    refine Triple.bind (ih (fun op mem => none op (List.mem_cons_of_mem _ mem)) _)
      fun outs => Triple.pure ?_
    rintro w ⟨others, same⟩
    exact ⟨by rw [List.filterMap_cons_none first, others], same⟩

theorem mergeTiered_idle {engine : Engine} {free : Option Nat} (sound : start.shelf.Sound)
    (idle : ∀ snap, currentIn start.store = .ok snap → engine.TieredIdle free start.store snap) :
    Triple (· = start) (engine.mergeTiered free nowMs) (fun _ w => w.shelf.Sound)
      (fun w => w.shelf.Sound) := by
  have stays : ∀ w : World, w = start → w.shelf.Sound := fun w same => same ▸ sound
  refine snapshot_spec.bind_triple sound fun snap head => ?_
  have condition := idle snap head
  unfold TieredIdle at condition
  dsimp only
  split
  next legacy =>
    rw [if_pos legacy] at condition
    refine merge_idle sound (fun snap' head' => ?_) nowMs
    obtain rfl := ok_unique head head'
    exact condition
  next located =>
    rw [if_neg located] at condition
    have none : ∀ op ∈ (planMerges (snap.parts.filterMap PartEntry.located?)).ops,
        engine.opRewrite start.store snap op = none := by
      rw [tieredRewrites, if_neg located] at condition
      exact List.filterMap_eq_nil_iff.mp condition
    split
    · exact Triple.pure stays
    · refine Triple.bind ((runOps_idle none _).stopping stays)
        fun outs => Triple.assume fun nothing => ?_
      rw [nothing]
      refine Triple.bind ((commitMeta_shelters [] snap.partIds ?_).strengthen
        ?_) fun _ => Triple.pure fun _ sound => sound
      · intro entry inside
        rw [List.map_nil, List.append_nil, List.mem_filter] at inside
        exact List.mem_map_of_mem inside.1
      · rintro _ rfl
        exact sound.shelters_head head

/-- A migration none of whose rows embed keeps the parts it found. -/
theorem migratePartition_idle {engine : Engine} {g : Generation} {embed : Embedder}
    (none : ∀ r ∈ start.store.rowsAt ids, embeds embed r = false) (s : Migrated)
    (key : PartitionKey) : Triple (· = start) (engine.migratePartition snap g embed nowMs s key ids)
      (fun done w => done.keep = s.keep ++ entriesOf snap ids ∧ w = start) (· = start) := by
  refine (migrateRowsOf_spec engine g embed ids).bind_triple rfl fun parts events => ?_
  have empty : parts.flatten = [] := by
    rw [List.filter_eq_nil_iff.mpr fun r mem => by simp [none r mem]] at events
    exact List.map_eq_nil_iff.mp events
  dsimp only
  rw [empty]
  exact Triple.pure fun _ same => ⟨rfl, same⟩

theorem migratePartitions_idle {engine : Engine} {g : Generation} {embed : Embedder}
    {limit : Option Nat} {partitions : List (PartitionKey × List String)}
    (none : ∀ p ∈ upTo limit partitions, ∀ r ∈ start.store.rowsAt p.2, embeds embed r = false) (s : Migrated) (within : ∀ entry ∈ s.keep, entry ∈ snap.parts) :
    Triple (· = start) (engine.migratePartitions snap g embed nowMs limit s partitions)
      (fun done w => (∀ entry ∈ done.keep, entry ∈ snap.parts) ∧ w = start) (· = start) := by
  have more : ∀ (keep : List PartEntry) (ids : List String),
      (∀ entry ∈ keep, entry ∈ snap.parts) →
      ∀ entry ∈ keep ++ entriesOf snap ids, entry ∈ snap.parts := by
    intro keep ids within entry inside
    rcases List.mem_append.mp inside with old | new
    · exact within entry old
    · obtain ⟨id, _, found⟩ := List.mem_filterMap.mp new
      exact List.mem_of_find?_eq_some found
  induction partitions generalizing limit s with
  | nil =>
    unfold migratePartitions
    exact Triple.pure fun _ same => ⟨within, same⟩
  | cons p rest ih =>
    obtain ⟨key, ids⟩ := p
    have step : ∀ remaining, (∀ p ∈ upTo remaining rest, ∀ r ∈ start.store.rowsAt p.2,
        embeds embed r = false) → (∀ r ∈ start.store.rowsAt ids, embeds embed r = false) →
        Triple (· = start) (engine.migratePartition snap g embed nowMs s key ids >>= fun s =>
          engine.migratePartitions snap g embed nowMs remaining s rest)
          (fun done w => (∀ entry ∈ done.keep, entry ∈ snap.parts) ∧ w = start) (· = start) := by
      intro remaining later here
      refine Triple.bind (migratePartition_idle here s key) fun s' => ?_
      exact Triple.assume fun kept => ih later s' (kept ▸ more s.keep ids within)
    rcases limit with _ | _ | n
    · simp only [upTo, List.forall_mem_cons] at none
      exact step .none none.2 none.1
    · exact ih (by simp [upTo]) _ (more s.keep ids within)
    · simp only [upTo, List.take_succ_cons, List.forall_mem_cons] at none
      exact step (some n) none.2 none.1

theorem reembedParts_idle {engine : Engine} {g : Generation} {limit : Option Nat}
    (sound : start.shelf.Sound) (head : currentIn start.store = .ok snap)
    (idle : ∀ embed, engine.plane.embedder g.modelId g.modelVersion = .ok embed →
      MigrationIdle start.store embed g limit snap) (state : GenerationState) (nowMs : Int) :
    Triple (· = start) (engine.reembedParts snap g limit state nowMs) (fun _ w => w.shelf.Sound)
      (fun w => w.shelf.Sound) := by
  have stays : ∀ w : World, w = start → w.shelf.Sound := fun w same => same ▸ sound
  refine Observes.ofExcept.bind_triple sound fun embed found => ?_
  refine (Observes.each (dispose_spec g) snap.parts).bind_triple sound fun ds disposed => ?_
  obtain ⟨kept, pending⟩ := disposed_split disposed
  dsimp only
  erw [kept, pending]
  have none : ∀ p ∈ upTo limit (pendingPartitions start.store g snap), ∀ r ∈ start.store.rowsAt p.2,
      embeds embed r = false := idle embed found
  refine Triple.bind ((migratePartitions_idle none _ ?_).stopping stays)
    fun done => Triple.assume fun within => ?_
  · exact fun entry inside => (List.mem_filter.mp inside).1
  · refine Triple.bind ((commitMeta_shelters [] snap.partIds ?_).strengthen
      ?_) fun _ => Triple.pure fun _ sound => sound
    · exact fun entry inside => List.mem_map_of_mem (within entry inside)
    · rintro _ rfl
      exact sound.shelters_head head

theorem migrationCall_idle (call : MigrationCall) {engine : Engine} {genId : String}
    (sound : start.shelf.Sound) (idle : ∀ snap g embed, currentIn start.store = .ok snap →
      start.store.generations[genId]? = some g →
      engine.plane.embedder g.modelId g.modelVersion = .ok embed →
        MigrationIdle start.store embed g call.limit snap) (nowMs : Int) :
    Triple (· = start) (call.run engine genId nowMs) (fun _ w => w.shelf.Sound)
      (fun w => w.shelf.Sound) := by
  have stays : ∀ w : World, w = start → w.shelf.Sound := fun w same => same ▸ sound
  have opened (next : Generation → Snapshot → Io MigrateReport)
      (after : ∀ snap g, currentIn start.store = .ok snap →
        start.store.generations[genId]? = some g →
        Triple (· = start) (next g snap) (fun _ w => w.shelf.Sound) (fun w => w.shelf.Sound)) :
      Triple (· = start) (onStore (Catalog.getGeneration genId) >>= fun g =>
        snapshot >>= fun snap => next g snap) (fun _ w => w.shelf.Sound)
        (fun w => w.shelf.Sound) :=
    getGeneration_spec.bind_triple sound fun g found =>
      snapshot_spec.bind_triple sound fun snap head => after snap g head found
  cases call with
  | canary maxPartitions =>
    refine opened _ fun snap g head found => ?_
    have rest := reembedParts_idle sound head (fun embed model => idle snap g embed head found model)
      .canary nowMs
    split
    · exact rest
    · exact rest
    · exact Triple.throw stays
    · exact Triple.throw stays
  | migrate maxPartitions =>
    exact opened _ fun snap g head found =>
      reembedParts_idle sound head (fun embed model => idle snap g embed head found model) .active nowMs

/-! ### Runs -/

/-- An operation that writes no part, or puts up every part it writes. -/
def Operation.Publishes (engine : Engine) (store : Store) : Operation → Prop
  | .merge free => ∀ snap, currentIn store = .ok snap → engine.MergeIdle free store snap
  | .mergeTiered free => ∀ snap, currentIn store = .ok snap → engine.TieredIdle free store snap
  | .canary genId maxPartitions => ∀ snap g embed, currentIn store = .ok snap →
      store.generations[genId]? = some g →
      engine.plane.embedder g.modelId g.modelVersion = .ok embed →
        MigrationIdle store embed g (some maxPartitions) snap
  | .migrate genId maxPartitions => ∀ snap g embed, currentIn store = .ok snap →
      store.generations[genId]? = some g →
      engine.plane.embedder g.modelId g.modelVersion = .ok embed →
        MigrationIdle store embed g maxPartitions snap
  | .reembed _ => False
  | .redact _ _ => False
  | _ => True

structure EngineStep where
  engine : Engine
  op : Operation
  nowMs : Int
  faults : List Fault

namespace EngineStep

def run (w : World) (s : EngineStep) : World := (s.op.prog s.engine s.nowMs s.faults w).2.2

/-- Every operation that publishes keeps every snapshot's parts on the object store, wherever it
stops. -/
theorem run_sound (w : World) (s : EngineStep) (publishes : s.op.Publishes s.engine w.store)
    (sound : w.shelf.Sound) : (s.run w).shelf.Sound := by
  have finished : ∀ {β : Type} {p : Io β},
      Triple (· = w) p (fun _ w => w.shelf.Sound) (fun w => w.shelf.Sound) →
      ((do let _ ← p : Io Unit) s.faults w).2.2.shelf.Sound := fun inner =>
    (Triple.bind inner fun _ => Triple.pure fun _ sound => sound).after
      (fun _ _ sound => sound) rfl s.faults
  have always : ∀ {β : Type} {p : Io β}, Keeps (fun w => w.shelf.Sound) p →
      ((do let _ ← p : Io Unit) s.faults w).2.2.shelf.Sound := fun inner =>
    finished (inner.strengthen fun _ same => same ▸ sound)
  obtain ⟨engine, op, nowMs, faults⟩ := s
  cases op with
  | ingest events applied preflight => exact always (ingestInner_sound engine events preflight)
  | delete eventIds => exact always (shelfPhases.delete (fun _ => rfl) eventIds nowMs)
  | merge free => exact finished (merge_idle sound publishes nowMs)
  | mergeTiered free => exact finished (mergeTiered_idle sound publishes)
  | rollback toId => exact always (rollback_sound toId)
  | reembed newVersion => exact publishes.elim
  | baselineBuild env tenant generationId =>
    exact always (shelfPhases.baselineBuild (fun _ => rfl) (fun _ => rfl) engine env tenant
      generationId nowMs)
  | create modelVersion => exact always (shelfPhases.generationCreate (fun _ => rfl) (fun _ => rfl)
      engine modelVersion nowMs)
  | promote genId => exact always (shelfPhases.generationPromote (fun _ => rfl) genId nowMs)
  | canary genId maxPartitions =>
    exact finished (migrationCall_idle (.canary maxPartitions) sound publishes nowMs)
  | migrate genId maxPartitions =>
    exact finished (migrationCall_idle (.migrate maxPartitions) sound publishes nowMs)
  | retire genId =>
    exact always (shelfPhases.generationRetire (fun _ => rfl) (fun _ => rfl) genId nowMs)
  | bridge fromSpace toSpace validation =>
    exact always (shelfPhases.bridgeDeclare (fun _ => rfl) fromSpace toSpace validation nowMs)
  | redact beforeMs reason => exact publishes.elim

end EngineStep

/-- **Every part of a snapshot is on the object store.** In every run from an empty store over an
empty backend whose operations publish what they write, with any crash and any failure, each
part that a snapshot file names is on disk and its cold tier is on the backend, byte by byte. -/
theorem named_parts_durable (steps : List EngineStep)
    (met : Meets EngineStep.run (fun w s => s.op.Publishes s.engine w.store) World.fresh steps) :
    ∀ (n : SnapshotId) (snap : Snapshot),
      (steps.foldl EngineStep.run World.fresh).store.snapshots[n]? = some snap →
      ∀ entry ∈ snap.parts, (steps.foldl EngineStep.run World.fresh).shelf.Durable entry.partId :=
  (invariant_run (I := fun w : World => w.shelf.Sound)
    (fun w s publishes sound => EngineStep.run_sound w s publishes sound) steps World.fresh
    Shelf.sound_fresh met).named

/-- Two batches, a crash of the third after its upload, and a rollback to the first. -/
def publishedRun : List EngineStep :=
  [⟨sampleEngine, .ingest [sampleEvent "e1"] none true, 1000, []⟩,
   ⟨sampleEngine, .ingest [sampleEvent "e2"] none true, 2000, []⟩,
   ⟨sampleEngine, .ingest [sampleEvent "e3"] none true, 3000, List.replicate 9 .proceed ++ [.crash 0]⟩,
   ⟨sampleEngine, .rollback 1, 4000, []⟩]

def headAndObjects (w : World) : Nat × Nat :=
  ((headPartIds w).length, w.objects.cold.size)

set_option maxRecDepth 100000

theorem named_parts_durable_published :
    headAndObjects (publishedRun.foldl EngineStep.run World.fresh) = (1, 3) ∧
    ∀ (n : SnapshotId) (snap : Snapshot),
      (publishedRun.foldl EngineStep.run World.fresh).store.snapshots[n]? = some snap →
      ∀ entry ∈ snap.parts,
        (publishedRun.foldl EngineStep.run World.fresh).shelf.Durable entry.partId :=
  ⟨by decide +kernel, named_parts_durable publishedRun ⟨trivial, trivial, trivial, trivial, trivial⟩⟩

/-- Two batches of a partition and a merge. -/
def mergedRun : List EngineStep :=
  [⟨sampleEngine, .ingest [sampleEvent "e1"] none true, 1000, []⟩,
   ⟨sampleEngine, .ingest [sampleEvent "e2"] none true, 2000, []⟩,
   ⟨sampleEngine, .merge none, 3000, []⟩]

/-- The part that the merge has committed has a cold tier, and no object. -/
theorem merged_part_not_durable :
    ∃ id ∈ headPartIds (mergedRun.foldl EngineStep.run World.fresh),
      (((mergedRun.foldl EngineStep.run World.fresh).store.parts[id]?).bind
        (·.files.lookup "rerank.vec")).isSome = true ∧
      (mergedRun.foldl EngineStep.run World.fresh).objects.cold[coldKey id]? = none := by
  decide +kernel

end Prism
