import Prism.Properties.MergeRows
import Prism.Properties.StoreAccess

/-!
The parts of a store whose engine has a key service: which of the operations seal what they write.
-/

namespace Prism

open CrashLogic Fallible Catalog Store

variable {maxPartitions : Option Nat} {nowMs : Int}

/-! ### Sealed parts -/

def ColumnMeta.SealedIn (c : ColumnMeta) (file : String × Bytes) : Prop :=
  file.1 = c.file ∧ ∃ logicalBytes blockSize blocks, c.storage = .framed logicalBytes blockSize blocks ∧
    ∀ block ∈ blocks, magicAt file.2 block = sealedBlockMagic

/-- The part says that it is encrypted, carries an envelope, and all its blocks are sealed. -/
structure Part.Sealed (part : Part) : Prop where
  feature : part.manifest.encrypted = true
  envelope : ∃ e ∈ part.manifest.extensions, e.id = extS14Encryption
  blocks : List.Forall₂ ColumnMeta.SealedIn part.manifest.columns part.files

theorem magicAt_append {file more : Bytes} {block : BlockRef}
    (inside : block.fileOffset + 4 ≤ file.length) :
    magicAt (file ++ more) block = magicAt file block := by
  unfold magicAt
  rw [List.drop_append_of_le_length (by omega), List.take_append_of_le_length]
  rw [List.length_drop]
  omega

/-- With a cipher every block that is framed gets the sealed magic. -/
theorem frameBlocks_sealed {blockSize : Nat} {c : BlockCipher} {partId column : String}
    {payloads : List Bytes} {index : Nat} {start framed : FramedColumn}
    (sealedSoFar : ∀ block ∈ start.blocks,
      block.fileOffset + 4 ≤ start.file.length ∧ magicAt start.file block = sealedBlockMagic)
    (ran : frameBlocks blockSize (some c) partId column index payloads start = .ok framed) :
    ∀ block ∈ framed.blocks, magicAt framed.file block = sealedBlockMagic := by
  induction payloads generalizing index start with
  | nil =>
    simp only [frameBlocks, Except.ok.injEq] at ran
    subst ran
    exact fun block mem => (sealedSoFar block mem).2
  | cons plain rest ih =>
    obtain ⟨stored, _, ran⟩ := bind_eq_ok.mp ran
    refine ih ?_ ran
    intro block mem
    rcases List.mem_append.mp mem with earlier | last
    · obtain ⟨inside, magic⟩ := sealedSoFar block earlier
      rw [List.append_assoc, magicAt_append inside]
      refine ⟨?_, magic⟩
      rw [List.length_append]
      omega
    · -- The header of the new block starts with the magic.
      rw [List.mem_singleton.mp last]
      constructor
      · simp [blockHeader]
      · simp only [magicAt, List.append_assoc, List.drop_left, blockHeader, Option.isSome_some,
          if_true]
        rw [List.take_append_of_le_length (by simp), List.take_of_length_le (by simp)]
        exact Bytes.ofLe_le_of_lt (by decide)

variable {shape : PartShape} {spec : PartSpec}

theorem frameColumn_sealed {partId : String} {c : Column} {framed : ColumnMeta × Bytes}
    (sealing : spec.encryption.isSome) (ran : frameColumn shape spec partId c = .ok framed) :
    framed.1.SealedIn (framed.1.file, framed.2) := by
  obtain ⟨column, inner, rfl⟩ := bind_pure_eq_ok.mp ran
  obtain ⟨encryption, given⟩ := Option.isSome_iff_exists.mp sealing
  rw [given] at inner
  exact ⟨rfl, _, _, _, rfl, frameBlocks_sealed (by simp) inner⟩

/-- Setting the encryption bit is not undone by the bits around it. -/
theorem partFeatures_encryption {promoted : List Promoted} (sealing : spec.encryption.isSome) :
    partFeatures spec promoted &&& featureEncryption ≠ 0 := by
  unfold partFeatures
  rw [sealing]
  cases spec.partition.isSome <;> cases promoted.isEmpty <;> cases spec.tenantTokenizer.isSome <;>
    decide

variable {part : Part}

/-- The writer seals when it is given an encryption. -/
theorem buildPart_sealed {seq : Nat} {rows : List RowIn} {nowMs : Int}
    (sealing : spec.encryption.isSome) (built : buildPart shape spec seq rows nowMs = .ok part) :
    part.Sealed := by
  obtain ⟨_, _, _, _, written⟩ := buildPart_written built
  obtain ⟨_, manifest⟩ := written.manifest
  refine ⟨?_, ?_, ?_⟩
  · simpa [PartManifest.encrypted, manifest] using partFeatures_encryption sealing
  · obtain ⟨encryption, given⟩ := Option.isSome_iff_exists.mp sealing
    refine ⟨⟨extS14Encryption, encryption.envelope.encode⟩, ?_, rfl⟩
    rw [manifest]
    simp [partExtensions, given]
  · rw [manifest, written.files, List.forall₂_map_left_iff, List.forall₂_map_right_iff, List.forall₂_same]
    intro column mem
    obtain ⟨c, _, ran⟩ := exists_of_mapM_eq_ok written.frames mem
    exact frameColumn_sealed sealing ran

theorem buildPart_columns_ne_nil {seq : Nat} {rows : List RowIn} {nowMs : Int}
    (built : buildPart shape spec seq rows nowMs = .ok part) : part.manifest.columns ≠ [] := by
  obtain ⟨_, _, _, _, written⟩ := buildPart_written built
  obtain ⟨_, manifest⟩ := written.manifest
  have lengths := (mapM_eq_ok.mp written.frames).length_eq
  rw [manifest, ← List.length_pos_iff, List.length_map, ← lengths]
  simp [logicalColumns]

/-- A sealed part gives no rows to a reader without its cipher. -/
theorem readAll_sealed (isSealed : part.Sealed) (some : part.manifest.columns ≠ []) :
    ∃ e, PartReader.readAll ⟨part, none⟩ = .error e := by
  obtain ⟨c, cs, columns⟩ := List.exists_cons_of_ne_nil some
  have first : c.storage matches .framed .. := by
    have each := isSealed.blocks
    rw [columns, List.forall₂_cons_left_iff] at each
    obtain ⟨_, _, ⟨_, _, _, _, storage, _⟩, _⟩ := each
    simp [storage]
  -- The first block of the first column is refused, if not something before it.
  have refused : ∃ e, PartReader.readColumnChecked ⟨part, none⟩ c = .error e := by
    unfold PartReader.readColumnChecked
    split
    · exact ⟨_, rfl⟩
    · split
      next storage => simp [storage] at first
      · dsimp only
        split
        · exact ⟨_, rfl⟩
        next blocks _ covered =>
          have positive : 0 < blocks.length := Nat.lt_of_le_of_lt (Nat.zero_le _) (not_le.mp covered)
          obtain ⟨block, rest, shape⟩ := List.exists_cons_of_length_pos positive
          rw [shape, List.take_succ_cons]
          simp only [PartReader.readBlocks, PartReader.manifest, isSealed.feature,
            Option.isNone_none, and_self, if_true]
          split <;> exact ⟨_, rfl⟩
  obtain ⟨e, refused⟩ := refused
  refine ⟨e, ?_⟩
  simp [PartReader.readAll, PartReader.manifest, columns, refused, bind, Except.bind]

/-! ### The parts that an ingest writes -/

namespace Engine

def Ingested (engine : Engine) (part : Part) : Prop :=
  ∃ shape key tokenizer encryption seq rows nowMs, engine.tenantTokenizer = .ok tokenizer ∧
    buildPart shape ⟨some key, engine.config.promote, {}, some encryption, tokenizer⟩ seq rows nowMs =
      .ok part

variable {engine : Engine}

theorem Ingested.isSealed (ingested : engine.Ingested part) : part.Sealed := by
  obtain ⟨_, _, _, _, _, _, _, _, built⟩ := ingested
  exact buildPart_sealed rfl built

theorem Ingested.unreadable (ingested : engine.Ingested part) :
    ∃ e, PartReader.readAll ⟨part, none⟩ = .error e := by
  obtain ⟨_, _, _, _, _, _, _, _, built⟩ := ingested
  exact readAll_sealed (buildPart_sealed rfl built) (buildPart_columns_ne_nil built)

theorem partFeatures_tokens {promoted : List Promoted} (tokens : spec.tenantTokenizer.isSome) :
    partFeatures spec promoted &&& featureTenantTokens ≠ 0 := by
  unfold partFeatures
  rw [tokens]
  cases spec.partition.isSome <;> cases promoted.isEmpty <;> cases spec.encryption.isSome <;> decide

/-- A merge has no reason to move such a part forward. -/
theorem Ingested.current (ingested : engine.Ingested part) {tokenizer : Option TenantTokenizer}
    (resolved : engine.tenantTokenizer = .ok tokenizer) (cipher : Option BlockCipher) :
    needsMigration tokenizer.isSome ⟨part, cipher⟩ = false := by
  obtain ⟨_, _, tokenizer', _, _, _, _, same, built⟩ := ingested
  obtain rfl := ok_unique same resolved
  obtain ⟨_, _, _, _, written⟩ := buildPart_written built
  obtain ⟨_, manifest⟩ := written.manifest
  have latest : part.manifest.isLegacy = false := by simp [PartManifest.isLegacy, manifest]
  cases tokenizer' with
  | none => simp [needsMigration, PartReader.manifest, latest]
  | some t =>
    have tokens : part.manifest.hasTenantTokens = true := by
      simpa [PartManifest.hasTenantTokens, manifest] using partFeatures_tokens rfl
    simp [needsMigration, PartReader.manifest, latest, tokens]

/-- An engine with a key service never ingests in the clear. -/
theorem makes_ingested (keyed : engine.keys.isSome) (draws : Draws) :
    ({ engine with draws } : Engine).Makes engine.Ingested := by
  intro tokenizer ordinal encryption resolved minted shape key seq rows nowMs part built
  obtain ⟨keys, given⟩ := Option.isSome_iff_exists.mp keyed
  obtain ⟨enc, rfl⟩ : ∃ enc, encryption = some enc := by
    simp only [partEncryptionFor, given] at minted
    obtain ⟨_, _, last⟩ := bind_eq_ok.mp minted
    exact ⟨_, (pure_eq_ok.mp last).symm⟩
  exact ⟨shape, key, tokenizer, enc, seq, rows, nowMs, resolved, built⟩

def AllIngested (engine : Engine) (w : World) : Prop :=
  ∀ (id : String) (part : Part), w.store.parts[id]? = some part → engine.Ingested part

theorem AllIngested.access {store store' : Store} (access : Access engine.Ingested store store')
    (all : ∀ (id : String) (part : Part), store.parts[id]? = some part → engine.Ingested part) :
    ∀ (id : String) (part : Part), store'.parts[id]? = some part → engine.Ingested part := by
  intro id found present
  rcases access.part_cases present with before | ingested
  · exact all id found before
  · exact ingested

/-! ### The operations that rewrite -/

section Rewrites

variable {engine : Engine}

/-- A program that leaves the parts alone keeps them ingested. -/
theorem AllIngested.of_leaves {α : Type} {p : Io α} (leaves : Leaves (fun w => w.store.parts) p) :
    Keeps engine.AllIngested p :=
  leaves.keeps fun parts => ∀ (id : String) (part : Part), parts[id]? = some part →
    engine.Ingested part

theorem onStore_parts {α : Type} {p : StoreProg α} (leaves : Leaves Store.parts p) :
    Leaves (fun w : World => w.store.parts) (onStore p) :=
  Leaves.inside leaves fun _ _ same => same

theorem commitMeta_parts {parent : Snapshot} {parts : List PartEntry} {nextSeq : Nat}
    {active : Option String} {carried : SnapshotMeta} {nowMs : Int} :
    Leaves Store.parts (commitMeta parent parts nextSeq active carried nowMs) := by
  refine Leaves.bind (Leaves.each fun entry => ?_) fun _ => ?_
  · exact Leaves.bind Leaves.ofExcept fun _ => Leaves.read
  · exact Leaves.bind (Leaves.replace fun _ => rfl) fun _ =>
      Leaves.bind (Leaves.replace fun _ => rfl) fun _ => Leaves.pure

/-- Operations that leave the parts as they are. -/
def partsPhases : Phases (fun w => w.store.parts) (fun _ => False) (fun _ _ => True) where
  Stages _ := Leaves fun w => w.store.parts
  Finishes _ := Leaves fun w => w.store.parts
  Publishes := Leaves fun w => w.store.parts
  leaves leaves := leaves
  bind := Leaves.bind
  writePart := False.elim
  finishes leaves := leaves
  onward := Leaves.bind
  commit _ _ := onStore_parts commitMeta_parts
  after := Leaves.bind
  published leaves := leaves
  snapshot := Leaves.bind (snapshot_spec.leaves _)
  looking := Leaves.bind

/-- Without the cipher no part can be read. -/
theorem openAndRead_fails (partId : String) :
    Triple engine.AllIngested (openAndRead partId) (fun _ _ => False) engine.AllIngested := by
  refine Triple.bind (Q := fun r w => engine.AllIngested w ∧ engine.Ingested r.part ∧
    r.cipher = none) ?_ fun r => ?_
  · refine Triple.bind (Q := fun part w => engine.AllIngested w ∧ engine.Ingested part) ?_
      fun part => Triple.pure fun w h => ⟨h.1, h.2, rfl⟩
    exact ((openStored_spec partId).triple fun _ all => all).weaken
      fun part _ ⟨found, all⟩ => ⟨all, all partId part found⟩
  · refine Triple.bind (Q := fun _ _ => False) ?_ fun _ => fun _ _ impossible => impossible.elim
    refine Triple.read ?_ fun _ h => h.1
    rintro rows w ⟨_, ingested, plain⟩ read
    obtain ⟨part, cipher⟩ := r
    obtain ⟨e, refused⟩ := ingested.unreadable
    simp only at plain
    subst plain
    simp [refused] at read

/-- A loop over parts without ciphers does not get past its first part. -/
theorem each_openAndRead_fails {β : Type} {f : String → Io β} {partIds : List String}
    (some : partIds ≠ [])
    (fails : ∀ id, Triple engine.AllIngested (f id) (fun _ _ => False) engine.AllIngested) :
    Triple engine.AllIngested (Prog.each f partIds) (fun _ _ => False) engine.AllIngested := by
  obtain ⟨id, rest, rfl⟩ := List.exists_cons_of_ne_nil some
  exact Triple.bind (fails id) fun _ _ _ impossible => impossible.elim

/-- What fails keeps, whatever was to come after it. -/
theorem keeps_of_fails {α β : Type} {p : Io α} {f : α → Io β} {P : World → Prop}
    (fails : Triple P p (fun _ _ => False) P) : Keeps P (p >>= f) :=
  Triple.bind fails fun _ _ _ impossible => impossible.elim

variable {start : World}

theorem merge_idle (free : Option Nat) (nowMs : Int) (all : engine.AllIngested start)
    (few : ∀ snap, currentIn start.store = .ok snap → snap.parts.length < 2) :
    Triple (· = start) (engine.merge free nowMs) (fun _ w => w = start) (· = start) := by
  refine snapshot_spec.bind_triple rfl fun snap head => ?_
  refine openParts_spec.bind_triple rfl fun readers opened => ?_
  refine Observes.ofExcept.bind_triple rfl fun tokenizer resolved => ?_
  -- No opened part is to be moved forward, so the merge stops here.
  have none : readers.filter (needsMigration tokenizer.isSome) = [] := by
    rw [List.filter_eq_nil_iff]
    intro r mem
    obtain ⟨id, _, found⟩ := exists_left_of_forall₂ opened mem
    simp [(all id r.part found).current resolved r.cipher]
  simp only [none, List.isEmpty_nil, and_true, if_pos (few snap head)]
  exact Triple.pure fun _ same => same

variable (snap : Snapshot)

theorem runOp_keeps (seq : Nat) (op : MergeOp) :
    Keeps engine.AllIngested (engine.runOp snap nowMs seq op) := by
  by_cases none : op.partIds = []
  · unfold runOp
    rw [none]
    exact Keeps.pure
  · exact keeps_of_fails (each_openAndRead_fails none openAndRead_fails)

theorem runOps_keeps (seq : Nat) (ops : List MergeOp) :
    Keeps engine.AllIngested (engine.runOps snap nowMs seq ops) := by
  induction ops generalizing seq with
  | nil => exact Keeps.pure
  | cons op ops ih =>
    exact Keeps.bind (runOp_keeps snap seq op) fun out =>
      Keeps.bind (ih _) fun _ => Keeps.pure

/-- A tiered merge cannot read what it would merge. -/
theorem mergeTiered_keeps (free : Option Nat) (all : engine.AllIngested start)
    (small : ∀ snap, currentIn start.store = .ok snap → (snap.parts.all fun entry =>
      entry.located?.isSome) = true ∨ snap.parts.length < 2) :
    Triple (· = start) (engine.mergeTiered free nowMs) (fun _ w => engine.AllIngested w)
      (fun w => engine.AllIngested w) := by
  refine snapshot_spec.bind_triple all fun snap head => ?_
  dsimp only
  split
  next old =>
    -- An entry of the old catalog sends the cycle to the full merge.
    have few : ∀ snap', currentIn start.store = .ok snap' → snap'.parts.length < 2 := by
      intro snap' head'
      obtain rfl := ok_unique head' head
      rcases small snap' head with located | few
      · refine absurd ?_ old
        rw [List.filterMap_length_eq_length]
        exact fun entry mem => List.all_eq_true.mp located entry mem
      · exact few
    exact (merge_idle free nowMs all few).conseq (fun _ h => h) (fun _ _ same => same ▸ all)
      fun _ same => same ▸ all
  · split
    · exact Triple.pure fun _ same => same ▸ all
    · refine (show Keeps engine.AllIngested _ from ?_).strengthen fun _ same => same ▸ all
      exact Keeps.bind (runOps_keeps snap _ _) fun outs =>
        Keeps.bind (AllIngested.of_leaves (onStore_parts commitMeta_parts)) fun _ => Keeps.pure

theorem reembed_idle (newVersion : String)
    (empty : ∀ snap, currentIn start.store = .ok snap → snap.activeGeneration = none ∨ snap.parts =
      []) :
    Triple (· = start) (engine.reembed newVersion nowMs) (fun _ w => w = start) (· = start) := by
  refine snapshot_spec.bind_triple rfl fun snap head => ?_
  split
  · exact Triple.throw fun _ same => same
  next oldId active =>
    have parts : snap.parts = [] := by simpa [active] using empty snap head
    refine getGeneration_spec.bind_triple rfl fun old _ => ?_
    refine Observes.ofExcept.bind_triple rfl fun embed _ => ?_
    refine openParts_spec.bind_triple rfl fun readers opened => ?_
    -- Without parts there is no row to re-embed.
    obtain rfl : readers = [] := by
      simpa [Snapshot.partIds, parts] using opened
    refine Observes.bind_triple (Observes.pure (C := fun _ rows => rows = []) fun _ => rfl) rfl
      fun rows nothing => ?_
    subst nothing
    exact Triple.throw fun _ same => same

theorem migratePartitions_keeps (g : Generation) (embed : Embedder)
    (limit : Option Nat) (s : Migrated) (todo : List (PartitionKey × List String))
    (some : ∀ item ∈ todo, item.2 ≠ []) :
    Keeps engine.AllIngested (engine.migratePartitions snap g embed nowMs limit s todo) := by
  have reads (partId : String) : Triple engine.AllIngested (engine.migrateRowsOf g embed partId)
      (fun _ _ => False) engine.AllIngested :=
    Triple.bind (openAndRead_fails partId) fun _ _ _ impossible => impossible.elim
  induction todo generalizing limit s with
  | nil => unfold migratePartitions; exact Keeps.pure
  | cons item todo ih =>
    have others := fun item' mem => some item' (List.mem_cons_of_mem _ mem)
    unfold migratePartitions
    split
    next same => exact absurd same (by simp)
    next same =>
      obtain ⟨rfl, rfl⟩ := List.cons.inj same
      exact ih (.some 0) _ others
    next same =>
      obtain ⟨rfl, rfl⟩ := List.cons.inj same
      refine keeps_of_fails ?_
      exact Triple.bind (each_openAndRead_fails (some _ List.mem_cons_self) reads)
        fun _ _ _ impossible => impossible.elim

theorem reembedParts_keeps (g : Generation) (state : GenerationState) :
    Keeps engine.AllIngested (engine.reembedParts snap g maxPartitions state nowMs) := by
  refine Keeps.bind Keeps.ofExcept fun embed => ?_
  refine Keeps.bind (Keeps.each fun entry _ => ?_) fun disposed => ?_
  · have leaves : partsPhases.Stages snap (dispose g entry) := partsPhases.dispose g entry
    exact AllIngested.of_leaves leaves
  refine Keeps.bind (migratePartitions_keeps snap g embed _ _ _ ?_) fun done =>
    Keeps.bind (AllIngested.of_leaves (onStore_parts commitMeta_parts)) fun _ => Keeps.pure
  -- Every partition that is left to migrate has a part.
  intro item mem
  obtain ⟨⟨key, pending⟩, grouped, rfl⟩ := List.mem_map.mp mem
  obtain ⟨⟨x, inside, own⟩, rfl⟩ := (OrderedMap.mem_groupBy_iff _ _ _ _).mp grouped
  refine List.ne_nil_of_mem (a := x.2) (List.mem_map_of_mem (List.mem_filter.mpr ⟨inside, ?_⟩))
  simpa using own

theorem generationCanary_keeps (genId : String) (maxPartitions : Nat) :
    Keeps engine.AllIngested (engine.generationCanary genId maxPartitions nowMs) := by
  refine Keeps.bind (AllIngested.of_leaves (onStore_parts Leaves.read)) fun g => ?_
  refine Keeps.bind (AllIngested.of_leaves (onStore_parts Leaves.read)) fun snap => ?_
  split
  · exact reembedParts_keeps snap g _
  · exact reembedParts_keeps snap g _
  · exact Keeps.throw
  · exact Keeps.throw

theorem generationMigrate_keeps (genId : String) :
    Keeps engine.AllIngested (engine.generationMigrate genId maxPartitions nowMs) :=
  Keeps.bind (AllIngested.of_leaves (onStore_parts Leaves.read)) fun g =>
    Keeps.bind (AllIngested.of_leaves (onStore_parts Leaves.read)) fun snap =>
      reembedParts_keeps snap g .active

end Rewrites

end Engine

/-! ### Runs -/

/-- The operations that write parts, and the creation of the generations to migrate to. -/
inductive StoreOp where
  | ingest (events : List Event) (applied : Option Nat) (preflightModel : Bool)
  | merge (free : Option Nat)
  | mergeTiered (free : Option Nat)
  | reembed (newVersion : String)
  | create (modelVersion : Option String)
  | canary (genId : String) (maxPartitions : Nat)
  | migrate (genId : String) (maxPartitions : Option Nat)

structure StoreCall where
  op : StoreOp
  draws : Draws
  nowMs : Int
  faults : List Fault

namespace StoreCall

def run (engine : Engine) (w : World) (call : StoreCall) : World :=
  let engine := { engine with draws := call.draws }
  match call.op with
  | .ingest events applied preflightModel =>
    (engine.ingestInner events call.nowMs applied preflightModel call.faults w).2.2
  | .merge free => (engine.merge free call.nowMs call.faults w).2.2
  | .mergeTiered free => (engine.mergeTiered free call.nowMs call.faults w).2.2
  | .reembed newVersion => (engine.reembed newVersion call.nowMs call.faults w).2.2
  | .create modelVersion => (engine.generationCreate modelVersion call.nowMs call.faults w).2.2
  | .canary genId maxPartitions =>
    (engine.generationCanary genId maxPartitions call.nowMs call.faults w).2.2
  | .migrate genId maxPartitions =>
    (engine.generationMigrate genId maxPartitions call.nowMs call.faults w).2.2

/-- A full merge finds fewer than two parts, a tiered one no entry of the old catalog (or fewer than
two parts), and re-embedding no active generation or no parts. Ingests and migrations are free. -/
def RewritesNone (w : World) (call : StoreCall) : Prop :=
  match call.op, currentIn w.store with
  | .merge _, .ok snap => snap.parts.length < 2
  | .mergeTiered _, .ok snap =>
    (snap.parts.all fun entry => entry.located?.isSome) = true ∨ snap.parts.length < 2
  | .reembed _, .ok snap => snap.activeGeneration = none ∨ snap.parts = []
  | _, _ => True

instance (w : World) (call : StoreCall) : Decidable (call.RewritesNone w) := by
  unfold RewritesNone
  split <;> infer_instance

theorem run_allIngested {engine : Engine} (keyed : engine.keys.isSome) (w : World) (call : StoreCall)
    (none : call.RewritesNone w) (all : engine.AllIngested w) :
    engine.AllIngested (call.run engine w) := by
  obtain ⟨op, draws, nowMs, faults⟩ := call
  let drawn : Engine := { engine with draws }
  cases op with
  | ingest events applied preflightModel =>
    have publishes := Engine.ingestInner_publishes (Engine.makes_ingested keyed draws) events nowMs
      applied preflightModel
    exact (publishes.keeps fun _ _ => Engine.AllIngested.access).after (fun _ _ h => h) all faults
  | merge free =>
    have idle : Triple (· = w) (drawn.merge free nowMs) (fun _ w' => w' = w) (· = w) :=
      Engine.merge_idle free nowMs all fun snap head => by
        simpa only [RewritesNone, head] using none
    have same : StoreCall.run engine w ⟨.merge free, draws, nowMs, faults⟩ = w :=
      idle.after (fun _ _ h => h) rfl faults
    rw [same]
    exact all
  | mergeTiered free =>
    have keeps : Triple (· = w) (drawn.mergeTiered free nowMs) (fun _ => engine.AllIngested)
        engine.AllIngested :=
      Engine.mergeTiered_keeps free all fun snap head => by
        simpa only [RewritesNone, head] using none
    exact keeps.after (fun _ _ h => h) rfl faults
  | reembed newVersion =>
    have idle : Triple (· = w) (drawn.reembed newVersion nowMs) (fun _ w' => w' = w) (· = w) :=
      Engine.reembed_idle newVersion fun snap head => by
        simpa only [RewritesNone, head] using none
    have same : StoreCall.run engine w ⟨.reembed newVersion, draws, nowMs, faults⟩ = w :=
      idle.after (fun _ _ h => h) rfl faults
    rw [same]
    exact all
  | create modelVersion =>
    have keeps : Keeps drawn.AllIngested (drawn.generationCreate modelVersion nowMs) :=
      Engine.AllIngested.of_leaves (Engine.partsPhases.generationCreate (fun _ => trivial)
        (fun _ => rfl) drawn modelVersion nowMs)
    exact keeps.after (fun _ _ h => h) all faults
  | canary genId maxPartitions =>
    have keeps : Keeps drawn.AllIngested (drawn.generationCanary genId maxPartitions nowMs) :=
      Engine.generationCanary_keeps genId maxPartitions
    exact keeps.after (fun _ _ h => h) all faults
  | migrate genId maxPartitions =>
    have keeps : Keeps drawn.AllIngested (drawn.generationMigrate genId maxPartitions nowMs) :=
      Engine.generationMigrate_keeps genId
    exact keeps.after (fun _ _ h => h) all faults

end StoreCall

/-- In every run of an engine with a key service in which no merge and no re-embedding rewrites
anything, all parts on disk are sealed. -/
theorem parts_stay_sealed (engine : Engine) (keyed : engine.keys.isSome) (calls : List StoreCall)
    (none : Meets (StoreCall.run engine) StoreCall.RewritesNone World.fresh calls) :
    ∀ (id : String) (part : Part), (calls.foldl (StoreCall.run engine) World.fresh).store.parts[id]? =
      some part → part.Sealed := by
  have fresh : engine.AllIngested World.fresh := by
    intro id part present
    simp [World.fresh, Store.fresh] at present
  have all := invariant_run (fun w call => StoreCall.run_allIngested keyed w call) calls World.fresh
    fresh none
  exact fun id part present => (all id part present).isSealed

/-- A cipher with a constant tag. -/
def sampleAead : Aead where
  encrypt _ _ _ message := some (message ++ List.replicate tagBytes 0)
  decrypt _ _ _ message := some (message.take (message.length - tagBytes))

def keyedEngine : Engine :=
  { sampleEngine with
    keys := some ⟨sampleAead, fun dek => .ok ("k1", dek), fun _ wrapped => .ok wrapped⟩
    tenantTokenizer := .ok (some ⟨List.replicate 32 7⟩) }

def sampleDraws : Draws := ⟨fun _ => List.replicate 32 1, fun _ _ _ => List.replicate nonceBytes 2⟩

def keyedIngest : StoreCall :=
  ⟨.ingest [sampleEvent "e1", { sampleEvent "e2" with eventTime := 86401000 }] none false,
    sampleDraws, 1000, []⟩

/-- An ingest, and the two ways to merge that find nothing to do. -/
def sealedRun : List StoreCall :=
  [⟨.ingest [sampleEvent "e1"] none false, sampleDraws, 1000, []⟩,
   ⟨.merge none, sampleDraws, 2000, []⟩,
   ⟨.mergeTiered none, sampleDraws, 3000, []⟩]

set_option maxRecDepth 100000

theorem parts_stay_sealed_sealedRun :
    (sealedRun.foldl (StoreCall.run keyedEngine) World.fresh).store.parts.size = 1 ∧
      ∀ (id : String) (part : Part),
        (sealedRun.foldl (StoreCall.run keyedEngine) World.fresh).store.parts[id]? = some part →
          part.Sealed := by
  refine ⟨by decide +kernel, parts_stay_sealed keyedEngine rfl sealedRun ?_⟩
  decide +kernel

def headEncrypted (w : World) : List Bool :=
  match currentIn w.store with
  | .error _ => []
  | .ok snap => snap.partIds.map fun id =>
    match w.store.parts[id]? with
    | some part => part.manifest.encrypted
    | none => false

/-- The merge writes in the clear what the ingest had sealed. -/
theorem merge_unseals :
    headEncrypted (keyedIngest.run keyedEngine World.fresh) = [true, true] ∧
      headEncrypted ([keyedIngest, ⟨.merge none, sampleDraws, 2000, []⟩].foldl
        (StoreCall.run keyedEngine) World.fresh) = [false, false] := by
  decide +kernel

end Prism
