import Prism.Properties.Receipts

/-!
Hydration of a replacement node: what a crash or a failure at any access leaves, what a second
attempt makes of it, and what becomes of the tenant key.
-/

namespace Prism

open CrashLogic Fallible OrderedMap

variable {vault : Vault}

/-! ### The places of a node -/

theorem rootFilesLens : Prog.Lens (fun n : Node => n.root.files)
    fun files n => { n with root := { n.root with files } } :=
  ⟨fun _ _ => rfl, fun _ => rfl, fun _ _ _ => rfl⟩

theorem snapshotsLens : Prog.Lens (fun n : Node => n.root.snapshots)
    fun snapshots n => { n with root := { n.root with snapshots } } :=
  ⟨fun _ _ => rfl, fun _ => rfl, fun _ _ _ => rfl⟩

theorem generationsLens : Prog.Lens (fun n : Node => n.root.generations)
    fun generations n => { n with root := { n.root with generations } } :=
  ⟨fun _ _ => rfl, fun _ => rfl, fun _ _ _ => rfl⟩

variable (engine : Engine) (serde : Serde)

section Leaves

variable {τ : Type} {view : Node → τ}

def Blind (view : Node → τ) (name : String) : Prop :=
  ∀ dir n, view { n with root := n.root.setPart name dir } = view n

theorem removeDir_leaves {name : String} (blind : Blind view name) :
    Leaves view (removeDir name) := by
  refine Leaves.bind Leaves.read fun there => ?_
  split
  · exact Leaves.zoom blind
  · exact Leaves.pure

theorem renameDir_leaves {source target : String} (blindSource : Blind view source)
    (blindTarget : Blind view target) : Leaves view (renameDir source target) := by
  refine Leaves.transact fun n a n' value => ?_
  split at value
  · cases value
  split at value
  · cases value
  · cases value
    exact (blindTarget _ { n with root := n.root.setPart source ∅ }).trans (blindSource _ n)

/-- Staging and installing a part concerns two directories. -/
theorem installPart_leaves (receipt : PartBackup)
    (blindStaging : Blind view (stagingDir receipt.partId)) (blind : Blind view receipt.partId) :
    Leaves view (engine.installPart serde receipt) := by
  refine Leaves.bind (removeDir_leaves blindStaging) fun _ => Leaves.bind Leaves.read fun _ => ?_
  refine Leaves.bind (Leaves.each fun f => ?_) fun _ => Leaves.bind Leaves.read fun _ =>
    Leaves.bind (removeDir_leaves blind) fun _ => renameDir_leaves blindStaging blind
  exact Leaves.bind (mapErr_leaves Leaves.read) fun _ => Leaves.bind Leaves.ofExcept fun _ =>
    Leaves.zoom blindStaging

theorem installGeneration_leaves (g : Generation)
    (kept : ∀ generations n, view { n with root := { n.root with generations } } = view n) :
    Leaves view (installGeneration serde g) := by
  refine Leaves.bind Leaves.ofExcept fun _ => Leaves.bind Leaves.read fun there => ?_
  split
  · exact Leaves.zoom kept
  · exact Leaves.pure

end Leaves

/-! ### One part -/

/-- The directory has exactly the recorded files, as the object store has them. -/
structure Restored (files : List BackedFile) (objects dir : Files) : Prop where
  exact : ∀ name : String, dir[name]? =
    if name ∈ files.map BackedFile.name then objects[name]? else none
  verified : ∀ f ∈ files, f.Matches dir

/-- No file is staged under the name of the temporary file of a later one. -/
def PartBackup.Orderly (receipt : PartBackup) : Prop :=
  ∀ before f after, receipt.files = before ++ f :: after →
    tmpPath f.name ∉ before.map BackedFile.name

namespace Restored

variable {files : List BackedFile} {objects dir : Files} {f : BackedFile} {bytes : Bytes}

theorem none : Restored [] objects ∅ := ⟨by simp, nofun⟩

/-- An atomic write into a directory that has no file of the temporary name adds one file. -/
theorem getElem?_written (restored : Restored files objects dir)
    (orderly : tmpPath f.name ∉ files.map BackedFile.name) (name : String) :
    (dir.written f.name bytes)[name]? = if name = f.name then some bytes else dir[name]? := by
  rw [Files.written]
  by_cases own : name = f.name
  · subst own
    rw [if_pos rfl, Std.ExtTreeMap.getElem?_insert_self]
  · rw [if_neg own, getElem?_insert_of_ne (Ne.symm own)]
    by_cases temporary : name = tmpPath f.name
    · subst temporary
      rw [Std.ExtTreeMap.getElem?_erase_self, restored.exact, if_neg orderly]
    · rw [getElem?_erase_of_ne (Ne.symm temporary)]

theorem add (restored : Restored files objects dir) (object : objects[f.name]? = some bytes)
    (len : bytes.length = f.len) (hash : hex (sha256 bytes) = f.sha256)
    (orderly : tmpPath f.name ∉ files.map BackedFile.name) :
    Restored (files ++ [f]) objects (dir.written f.name bytes) where
  exact := by
    intro name
    rw [restored.getElem?_written orderly]
    by_cases own : name = f.name
    · subst own
      simp [object]
    · rw [if_neg own, restored.exact]
      simp [own]
  verified := by
    intro g mem
    rcases List.mem_append.mp mem with old | new
    · obtain ⟨own, there, recorded⟩ := restored.verified g old
      refine ⟨own, ?_, recorded⟩
      rw [restored.getElem?_written orderly]
      split
      next same =>
        -- A name that is recorded twice is the same object twice.
        have listed : g.name ∈ files.map BackedFile.name := List.mem_map_of_mem old
        rw [restored.exact, if_pos listed, same, object] at there
        exact there
      next => exact there
    · rw [List.mem_singleton.mp new]
      exact ⟨bytes, by rw [restored.getElem?_written orderly, if_pos rfl], len, hash⟩

end Restored

variable {partId : String} {bytes : Bytes}

theorem BackedFile.check_eq_ok {f : BackedFile} :
    f.check partId bytes = .ok () ↔ bytes.length = f.len ∧ hex (Prism.sha256 bytes) = f.sha256 := by
  unfold BackedFile.check
  split
  next short => simp [short]
  next whole =>
    split
    next corrupt => simp [corrupt]
    next same => simp [not_not.mp whole, not_not.mp same]

variable (name : String)

theorem removeDir_empties :
    Triple (fun _ => True) (removeDir name) (fun _ n => n.root.parts name = ∅) fun _ => True := by
  refine Triple.fix fun n _ => Observes.read.bind_triple trivial fun there value => ?_
  split
  next =>
    refine Triple.zoom (partDirLens name) fun n _ => Triple.act ?_ fun _ _ _ => trivial
    rintro dir -
    simp [Root.setPart]
  next absent =>
    cases value
    refine Triple.pure fun _ same => ?_
    subst same
    exact Std.ExtTreeMap.isEmpty_iff.mp (by simpa using absent)

theorem stagingDir_ne (partId : String) : stagingDir partId ≠ partId := by
  intro same
  have lengths := congrArg String.length same
  simp [stagingDir, String.length_append, toString] at lengths

variable {receipt : PartBackup} {plan : HydrationPlan}

section Install

variable {vault : Vault} {partId : String} {f : BackedFile}

theorem getObject_spec (key : String) (find : Vault → Option Bytes) :
    Observes (getObject key find) fun n bytes => find n.vault = some bytes := by
  refine Observes.read.weaken fun n bytes value => ?_
  cases found : find n.vault with
  | none => simp [objectAt, found] at value
  | some own =>
    simp only [objectAt, found] at value
    rw [Except.ok.inj value]

theorem stageFile_spec (vault : Vault) (dir : Files) :
    Triple (fun n : Node => n.vault = vault ∧ n.root.parts (stagingDir partId) = dir)
      (stageFile partId f)
      (fun _ n => n.vault = vault ∧ ∃ bytes, (vault.parts partId)[f.name]? = some bytes ∧
        f.check partId bytes = .ok () ∧ n.root.parts (stagingDir partId) = dir.written f.name bytes)
      fun _ => True := by
  refine Triple.fix fun n ⟨same, held⟩ => ?_
  refine (mapErr_observes (getObject_spec _ _)).bind_triple trivial fun bytes object => ?_
  refine Observes.ofExcept.bind_triple trivial fun _ checked => ?_
  refine Triple.zoom (partDirLens _) ?_
  rintro _ rfl
  subst same held
  refine (writeAtomic_spec _ f.name bytes).conseq (fun _ h => h) ?_ fun _ _ => trivial
  rintro _ now rfl
  exact ⟨rfl, bytes, object, checked, by simp [Root.setPart]⟩

/-- Once the files of a receipt are staged, the staging directory is the part. -/
theorem stageFiles_spec (orderly : receipt.Orderly) :
    Triple (fun n : Node => n.vault = vault ∧ n.root.parts (stagingDir receipt.partId) = ∅)
      (Prog.each (stageFile receipt.partId) receipt.files)
      (fun _ n => n.vault = vault ∧ Restored receipt.files (vault.parts receipt.partId)
        (n.root.parts (stagingDir receipt.partId)))
      fun _ => True := by
  refine Triple.each (I := fun staged _ (n : Node) => n.vault = vault ∧ Restored staged
    (vault.parts receipt.partId) (n.root.parts (stagingDir receipt.partId))) receipt.files
    (fun n ⟨same, empty⟩ => ⟨same, empty ▸ Restored.none⟩) fun staged f after _ order => ?_
  refine Triple.fix fun n ⟨same, restored⟩ => ?_
  refine (stageFile_spec vault (n.root.parts (stagingDir receipt.partId))).conseq ?_ ?_ fun _ h => h
  · rintro n' rfl
    exact ⟨same, rfl⟩
  · rintro _ n' ⟨same', bytes, object, checked, written⟩
    obtain ⟨len, hash⟩ := BackedFile.check_eq_ok.mp checked
    exact ⟨same', written ▸ restored.add object len hash (orderly staged f after order)⟩

theorem blind_vault : Blind Node.vault name := fun _ _ => rfl

theorem blind_part {name other : String} (different : other ≠ name) :
    Blind (fun n => n.root.parts other) name := by
  intro dir n
  simp [Root.setPart, different]

/-- A part that has been installed is what its receipt records. -/
theorem installPart_spec (vault : Vault) (orderly : receipt.Orderly) :
    Triple (fun n : Node => n.vault = vault) (engine.installPart serde receipt)
      (fun _ n => Restored receipt.files (vault.parts receipt.partId) (n.root.parts receipt.partId))
      fun _ => True := by
  have staging := stagingDir_ne receipt.partId
  have emptied := (removeDir_leaves (blind_vault (stagingDir receipt.partId))).triple
    (P := (· = vault)) (E := fun _ => True) fun _ _ => trivial
  refine Triple.bind ((emptied.and (removeDir_empties (stagingDir receipt.partId))).conseq
    (fun _ start => ⟨start, trivial⟩) (fun _ _ h => h) fun _ _ => trivial) fun _ => ?_
  refine Triple.bind (Triple.read (fun _ _ start _ => start) fun _ _ => trivial) fun _ => ?_
  refine Triple.bind (stageFiles_spec orderly) fun _ => ?_
  refine Triple.bind (Triple.read (fun _ _ start _ => start.2) fun _ _ => trivial) fun _ => ?_
  -- Making room for the part does not touch the staging directory.
  refine Triple.bind ((removeDir_leaves (blind_part staging)).triple
    (P := Restored receipt.files (vault.parts receipt.partId)) fun _ _ => trivial) fun _ => ?_
  refine Triple.transact ?_ (fun _ _ => trivial) fun _ _ _ _ _ => trivial
  intro n _ n' staged value
  split at value
  · cases value
  split at value
  · cases value
  · cases value
    simpa [Root.setPart] using staged

/-- The plan's receipts: one for each part id, and no part is named like the staging directory of
another. -/
structure HydrationPlan.Plain (plan : HydrationPlan) : Prop where
  unique : ∀ r ∈ plan.parts, ∀ r' ∈ plan.parts, r.partId = r'.partId → r = r'
  apart : ∀ r ∈ plan.parts, ∀ r' ∈ plan.parts, r.partId ≠ stagingDir r'.partId
  orderly : ∀ r ∈ plan.parts, r.Orderly

theorem installParts_spec (plain : plan.Plain) :
    Triple (fun n : Node => n.vault = vault) (Prog.each (engine.installPart serde) plan.parts)
      (fun _ n => ∀ r ∈ plan.parts,
        Restored r.files (vault.parts r.partId) (n.root.parts r.partId)) fun _ => True := by
  refine (Triple.each (I := fun installed _ (n : Node) => n.vault = vault ∧ ∀ r ∈ installed,
    Restored r.files (vault.parts r.partId) (n.root.parts r.partId)) plan.parts
    (fun _ same => ⟨same, nofun⟩) fun installed receipt after _ parts => ?_).weaken
    fun _ _ installed => installed.2
  have mem : receipt ∈ plan.parts := by simp [parts]
  -- The other directories are left alone, the one of the receipt is new.
  have others : Leaves (fun n : Node => (n.vault,
      fun name : { name // name ≠ stagingDir receipt.partId ∧ name ≠ receipt.partId } =>
        n.root.parts name.1)) (engine.installPart serde receipt) := by
    refine installPart_leaves engine serde receipt (fun dir n => ?_) fun dir n => ?_
    · refine Prod.ext rfl (funext fun name => ?_)
      exact blind_part name.2.1 dir n
    · refine Prod.ext rfl (funext fun name => ?_)
      exact blind_part name.2.2 dir n
  refine Triple.fix fun n ⟨same, restored⟩ => ?_
  refine ((others.triple (P := (· = (n.vault, fun name => n.root.parts name.1)))
    (E := fun _ => True) fun _ _ => trivial).and
    (installPart_spec engine serde vault (plain.orderly receipt mem))).conseq ?_ ?_
    fun _ _ => trivial
  · rintro n' rfl
    exact ⟨rfl, same⟩
  · rintro _ n' ⟨kept, new⟩
    obtain ⟨sameVault, sameParts⟩ := Prod.mk.inj kept
    refine ⟨sameVault.trans same, fun r listed => ?_⟩
    rcases List.mem_append.mp listed with old | last
    · have inPlan : r ∈ plan.parts := by simp [parts, old]
      by_cases again : r.partId = receipt.partId
      · rw [plain.unique r inPlan receipt mem again]
        exact new
      · have unchanged := congrFun sameParts ⟨r.partId, plain.apart r inPlan receipt mem, again⟩
        exact unchanged ▸ restored r old
    · rw [List.mem_singleton.mp last]
      exact new

end Install

/-! ### The restore set -/

theorem json_ne_tmpPath (path : String) : s!"{name}.json" ≠ tmpPath path := by
  intro same
  have ends := congrArg (fun text : String => text.toList.getLast?) same
  simp [tmpPath, toString, String.toList_append] at ends

theorem contains_written {files : Files} {name path : String}
    (there : files.contains s!"{name}.json" = true) :
    (files.written path bytes).contains s!"{name}.json" = true := by
  rw [Std.ExtTreeMap.contains_eq_isSome_getElem?] at there ⊢
  by_cases own : path = s!"{name}.json"
  · rw [own, Files.written, Std.ExtTreeMap.getElem?_insert_self]
    rfl
  · rw [Files.written, getElem?_insert_of_ne own,
      getElem?_erase_of_ne (Ne.symm (json_ne_tmpPath name path)), there]

/-- A generation that has been installed is there, and so are those that were there before. -/
theorem installGeneration_spec (installed : List Generation) (g : Generation) : Triple
      (fun n : Node => ∀ h ∈ installed, n.root.generations.contains s!"{h.generationId}.json" = true)
      (installGeneration serde g)
      (fun _ n => ∀ h ∈ installed ++ [g],
        n.root.generations.contains s!"{h.generationId}.json" = true)
      fun _ => True := by
  refine Triple.fix fun n start => Observes.ofExcept.bind_triple trivial fun _ _ => ?_
  refine Observes.read.bind_triple trivial fun there found => ?_
  cases found
  split
  next =>
    refine Triple.zoom generationsLens ?_
    rintro _ rfl
    refine (writeAtomic_spec _ _ _).conseq (fun _ h => h) ?_ fun _ _ => trivial
    rintro _ now rfl h mem
    rcases List.mem_append.mp mem with old | new
    · exact contains_written (start h old)
    · rw [List.mem_singleton.mp new]
      simp [Files.written]
  next present =>
    refine Triple.pure fun _ same h mem => ?_
    subst same
    rcases List.mem_append.mp mem with old | new
    · exact start h old
    · rw [List.mem_singleton.mp new]
      simpa using present

structure Installed (vault : Vault) (plan : HydrationPlan) (n : Node) : Prop where
  parts : ∀ r ∈ plan.parts, Restored r.files (vault.parts r.partId) (n.root.parts r.partId)
  generations : ∀ g ∈ plan.generations,
    n.root.generations.contains s!"{g.generationId}.json" = true
  snapshot : n.root.snapshots[s!"{plan.snapshotId}.json"]? = some plan.snapshotBytes

theorem installSet_spec (plain : plan.Plain) :
    Triple (fun n : Node => n.vault = vault) (engine.installSet serde plan)
      (fun _ => Installed vault plan) fun _ => True := by
  refine Triple.bind (Triple.read (fun _ _ start _ => start) fun _ _ => trivial) fun _ => ?_
  refine Triple.bind (installParts_spec engine serde plain) fun _ => ?_
  -- The generations are beside the parts.
  have parts : Leaves (fun n : Node => n.root.parts)
      (Prog.each (installGeneration serde) plan.generations) :=
    Leaves.each fun g => installGeneration_leaves serde g fun _ _ => rfl
  have generations := Triple.each (f := installGeneration serde) (E := fun _ => True)
    (I := fun installed _ n => ∀ h ∈ installed,
      n.root.generations.contains s!"{h.generationId}.json" = true) plan.generations
    (fun _ (_ : True) => nofun) fun installed g _ _ _ => installGeneration_spec serde installed g
  refine Triple.bind (((parts.triple (P := fun dirs => ∀ r ∈ plan.parts,
      Restored r.files (vault.parts r.partId) (dirs r.partId)) (E := fun _ => True)
      fun _ _ => trivial).and generations).conseq
    (fun _ start => ⟨start, trivial⟩) (fun _ _ h => h) fun _ _ => trivial) fun _ => ?_
  refine Triple.bind (Triple.read (fun _ _ start _ => start) fun _ _ => trivial) fun _ => ?_
  refine Triple.zoom snapshotsLens fun n ⟨installed, there⟩ => ?_
  refine (writeAtomic_spec _ _ _).conseq (fun _ h => h) ?_ fun _ _ => trivial
  rintro _ now rfl
  exact ⟨installed, there, Std.ExtTreeMap.getElem?_insert_self⟩

theorem installSet_leaves (plan : HydrationPlan) :
    Leaves (fun n : Node => (n.vault, n.root.files)) (engine.installSet serde plan) := by
  refine Leaves.bind Leaves.read fun _ => Leaves.bind (Leaves.each fun receipt => ?_) fun _ =>
    Leaves.bind (Leaves.each fun g => installGeneration_leaves serde g fun _ _ => rfl) fun _ =>
      Leaves.bind Leaves.read fun _ => Leaves.zoom fun _ _ => rfl
  exact installPart_leaves engine serde receipt (fun _ _ => rfl) fun _ _ => rfl

/-! ### The plan -/

structure Planned (serde : Serde) (vault : Vault) (plan : HydrationPlan) : Prop where
  mirrored : vault.mirror[plan.snapshotId]? = some plan.snapshotBytes
  named : ∃ snap, serde.parseSnapshot plan.snapshotBytes = .ok snap ∧
    plan.parts.map PartBackup.partId = snap.partIds
  receipts : ∀ r ∈ plan.parts, ∃ bytes, (vault.parts r.partId)[backupManifestFile]? = some bytes ∧
    serde.parseReceipt bytes = .ok r
  generations : ∀ g ∈ plan.generations, serde.verifyContentAddress g = .ok ()

variable (placement : Option ShardPlacement)

theorem planPart_spec (snapshotId partId : String) :
    Observes (planPart serde placement snapshotId partId) fun n r => r.partId = partId ∧
      ∃ bytes, (n.vault.parts r.partId)[backupManifestFile]? = some bytes ∧
        serde.parseReceipt bytes = .ok r := by
  refine Observes.bind (mapErr_observes (getObject_spec _ _)) fun bytes => ?_
  refine Observes.bind Observes.ofExcept fun r => ?_
  dsimp only
  split
  next => exact Observes.throw
  next same =>
    obtain rfl := not_not.mp same
    split
    next => exact Observes.bind Observes.ofExcept fun _ => Observes.pure fun n _ parsed there =>
      ⟨rfl, bytes, there, mapError_eq_ok.mp parsed⟩
    next => exact Observes.pure fun n parsed there =>
      ⟨rfl, bytes, there, mapError_eq_ok.mp parsed⟩

theorem planGeneration_spec (snapshotId id : String) :
    Observes (planGeneration serde snapshotId id) fun _ g =>
      serde.verifyContentAddress g = .ok () := by
  refine Observes.bind (mapErr_observes (getObject_spec _ _)) fun bytes => ?_
  refine Observes.bind Observes.ofExcept fun g => ?_
  dsimp only
  split
  next => exact Observes.throw
  next =>
    exact Observes.bind Observes.ofExcept fun _ => Observes.pure fun _ verified _ _ =>
      mapError_eq_ok.mp verified

/-- A plan is about the objects it was made from. -/
theorem planHydration_spec : Observes (planHydration serde placement) fun n plan =>
    Planned serde n.vault plan := by
  refine Observes.bind Observes.read fun ids => ?_
  split
  next => exact Observes.throw
  next snapshotId _ =>
    refine Observes.bind (getObject_spec _ _) fun bytes => Observes.bind Observes.ofExcept fun snap => ?_
    split
    next => exact Observes.throw
    next =>
      refine Observes.bind (Observes.each (planPart_spec serde placement snapshotId) snap.partIds)
        fun parts => ?_
      refine Observes.bind (Observes.each (planGeneration_spec serde snapshotId) _) fun generations => ?_
      refine Observes.pure fun n verified receipts parsed mirrored _ =>
        ⟨mirrored, ⟨snap, mapError_eq_ok.mp parsed, ?_⟩, fun r mem => ?_, fun g mem => ?_⟩
      · have names := receipts.imp fun _ _ found => found.1.symm
        exact (List.forall₂_eq_eq_eq ▸ List.forall₂_map_right_iff.mpr names).symm
      · obtain ⟨id, _, found⟩ := exists_left_of_forall₂ receipts mem
        exact found.2
      · obtain ⟨id, _, valid⟩ := exists_left_of_forall₂ verified mem
        exact valid

variable {vault : Vault}

theorem Planned.unique {serde : Serde} (planned : Planned serde vault plan) :
    ∀ r ∈ plan.parts, ∀ r' ∈ plan.parts, r.partId = r'.partId → r = r' := by
  intro r mem r' mem' same
  obtain ⟨bytes, there, parsed⟩ := planned.receipts r mem
  obtain ⟨bytes', there', parsed'⟩ := planned.receipts r' mem'
  rw [same, there'] at there
  cases there
  exact ok_unique parsed parsed'

/-! ### All or nothing -/

/-- The store is restored: `CURRENT` names the planned snapshot, and the restore set is in place. -/
structure Hydrated (vault : Vault) (plan : HydrationPlan) (n : Node) : Prop where
  current : n.root.files[currentFile]? = some (utf8 plan.snapshotId)
  installed : Installed vault plan n

/-- The object store is as it was, and `CURRENT` is absent. -/
def Vacant (vault : Vault) (n : Node) : Prop :=
  n.vault = vault ∧ n.root.files[currentFile]? = none

theorem refuseLive_leaves : Leaves id refuseLive := by
  refine Leaves.bind Leaves.read fun there => ?_
  split
  · refine Leaves.bind Leaves.read fun current => ?_
    split
    · exact Leaves.throw
    · exact Leaves.pure
  · exact Leaves.pure

theorem getElem?_writing {files now : Files} {path asked : String}
    (writing : files.Writing path bytes now) (other : path ≠ asked)
    (temporary : tmpPath path ≠ asked) : now[asked]? = files[asked]? := by
  rcases writing with rfl | ⟨begun, rfl⟩ | rfl
  · rfl
  · exact getElem?_insert_of_ne temporary
  · rw [Files.written, getElem?_insert_of_ne other, getElem?_erase_of_ne temporary]

/-- The tenant key is a file of its own. -/
theorem restoreTenantKey_keeps : Keeps (Vacant vault) restoreTenantKey := by
  have untouched : Leaves id (getObject tenantKeyKey Vault.tenantKey).attempt :=
    Leaves.read.attempt
  refine Triple.bind (untouched.keeps (Vacant vault)) fun result => ?_
  cases result with
  | error e => exact Triple.pure fun _ start => start
  | ok bytes =>
    refine Triple.zoom rootFilesLens fun n start => ?_
    have after : ∀ now, n.root.files.Writing tenantKeyFile bytes now →
        Vacant vault { n with root := { n.root with files := now } } := by
      intro now writing
      exact ⟨start.1, (getElem?_writing writing (by decide) (by decide)).trans start.2⟩
    exact (writeAtomic_spec _ _ _).conseq (fun _ h => h)
      (fun _ now written => after now (.inr (.inr written))) after

/-- Whatever happens, the store is restored or `CURRENT` is absent. -/
theorem hydrate_spec (vault : Vault) (plain : plan.Plain) :
    Triple (Vacant vault) (engine.hydrate serde plan)
      (fun report n => report = plan.report ∧ n.vault = vault ∧ Hydrated vault plan n)
      fun n => n.vault = vault ∧ (n.root.files[currentFile]? = none ∨ Hydrated vault plan n) := by
  have stopped : ∀ n, Vacant vault n →
      n.vault = vault ∧ (n.root.files[currentFile]? = none ∨ Hydrated vault plan n) :=
    fun n start => ⟨start.1, .inl start.2⟩
  refine Triple.bind ((refuseLive_leaves.keeps (Vacant vault)).stopping stopped) fun _ => ?_
  refine Triple.bind (restoreTenantKey_keeps.stopping stopped) fun _ => ?_
  have kept := (installSet_leaves engine serde plan).triple
    (P := fun (v, files) => v = vault ∧ files[currentFile]? = none)
    (E := Vacant vault) fun _ start => start
  refine Triple.bind ((kept.and (installSet_spec engine serde plain)).conseq
    (fun n start => ⟨start, start.1⟩) (fun _ _ h => h) fun n start => stopped n start.1) fun _ => ?_
  -- The last write makes the store a restored one.
  refine Triple.bind (Q := fun _ n => n.vault = vault ∧ Hydrated vault plan n)
    (Triple.zoom rootFilesLens ?_) fun _ => Triple.pure fun n ends => ⟨rfl, ends⟩
  rintro n ⟨⟨same, absent⟩, installed⟩
  have done : Hydrated vault plan { n with root := { n.root with
      files := n.root.files.written currentFile (utf8 plan.snapshotId) } } :=
    ⟨Std.ExtTreeMap.getElem?_insert_self, ⟨installed.parts, installed.generations, installed.snapshot⟩⟩
  refine (writeAtomic_spec _ _ _).conseq (fun _ h => h) ?_ ?_
  · rintro _ now rfl
    exact ⟨same, done⟩
  · rintro now (rfl | ⟨begun, rfl⟩ | rfl)
    · exact ⟨same, .inl absent⟩
    · exact ⟨same, .inl ((getElem?_insert_of_ne (tmpPath_ne _)).trans absent)⟩
    · exact ⟨same, .inr done⟩

variable {n : Node}

/-- A store whose `CURRENT` names a snapshot is left alone. -/
theorem hydrate_live (plan : HydrationPlan) {id : String}
    (there : n.root.files[currentFile]? = some bytes) (named : namedBy bytes = .ok id)
    (live : id ≠ "") (faults : List Fault) : (engine.hydrate serde plan faults n).2.2 = n ∧
      (engine.hydrate serde plan faults n).1.isOk = false := by
  have refused : Triple (· = n) refuseLive (fun _ _ => False) (· = n) := by
    refine Observes.read.bind_triple rfl fun _ found => ?_
    cases found
    rw [if_pos (contains_of_getElem? there)]
    refine Observes.read.bind_triple rfl fun current read => ?_
    rw [Std.ExtTreeMap.getD_eq_getD_getElem?, there, Option.getD_some, named] at read
    cases read
    have full : (!id.isEmpty) = true := by simpa using live
    rw [if_pos full]
    exact Triple.throw fun _ same => same
  have whole : Triple (· = n) (engine.hydrate serde plan) (fun _ _ => False) (· = n) :=
    refused.bind fun _ _ _ impossible => impossible.elim
  have ends := whole faults n rfl
  generalize engine.hydrate serde plan faults n = run at ends
  obtain ⟨_ | _ | _, rest, n'⟩ := run
  · exact ends.elim
  · exact ⟨ends, rfl⟩
  · exact ⟨ends, rfl⟩

/-! ### A run without faults -/

def recordedFiles (files : List BackedFile) (objects : Files) : Files :=
  files.foldl (fun dir f =>
    match objects[f.name]? with
    | some bytes => dir.insert f.name bytes
    | none => dir) ∅

/-- The recorded files are on the object store, and they are a part that opens and decrypts. -/
structure PartBackup.Restorable (engine : Engine) (serde : Serde) (receipt : PartBackup)
    (objects : Files) : Prop where
  files : ∀ f ∈ receipt.files, f.Matches objects
  opens : engine.verifyStaged serde receipt.partId (recordedFiles receipt.files objects) = .ok ()

theorem getElem?_recordedFiles (files : List BackedFile) (objects : Files) (name : String) :
    (recordedFiles files objects)[name]? =
      if name ∈ files.map BackedFile.name then objects[name]? else none := by
  -- The fold over any directory, which it adds to.
  have fold : ∀ (files : List BackedFile) (dir : Files), (files.foldl (fun dir f =>
      match objects[f.name]? with
      | some bytes => dir.insert f.name bytes
      | none => dir) dir)[name]? =
        if name ∈ files.map BackedFile.name then objects[name]?.or dir[name]? else dir[name]? := by
    intro files
    induction files with
    | nil => simp
    | cons f files ih =>
      intro dir
      rw [List.foldl_cons, ih]
      by_cases own : name = f.name
      · subst own
        cases objects[f.name]? <;> simp
      · cases objects[f.name]? with
        | none => simp [own]
        | some bytes =>
          dsimp only
          rw [getElem?_insert_of_ne (Ne.symm own)]
          simp [own]
  rw [recordedFiles, fold]
  simp

theorem Restored.eq_recordedFiles {files : List BackedFile} {objects dir : Files}
    (restored : Restored files objects dir) : dir = recordedFiles files objects :=
  Std.ExtTreeMap.ext_getElem? fun {name} =>
    (restored.exact name).trans (getElem?_recordedFiles files objects name).symm

theorem verifyStaged_nonempty {engine : Engine} {serde : Serde} {dir : Files}
    (verified : engine.verifyStaged serde partId dir = .ok ()) : dir.isEmpty = false := by
  by_contra full
  have empty : dir = ∅ := Std.ExtTreeMap.isEmpty_iff.mp (by simpa using full)
  obtain ⟨m, opened, -⟩ := bind_eq_ok.mp verified
  have opened := mapError_eq_ok.mp opened
  simp [openDir, empty, bind, Except.bind] at opened

theorem writeAtomic_succeeds (files : Files) (path : String) (bytes : Bytes) :
    Succeeds (· = files) (writeAtomic path bytes) fun _ _ => True := by
  refine Succeeds.bind (Q := fun _ _ => True) (Succeeds.replace fun _ _ => trivial) fun _ => ?_
  refine Succeeds.bind (Q := fun _ now => now[tmpPath path]? = some bytes)
    (Succeeds.act fun _ _ => Std.ExtTreeMap.getElem?_insert_self) fun _ => ?_
  refine Succeeds.bind (Q := fun _ now => now[tmpPath path]? = some bytes)
    (Succeeds.read fun _ start => ⟨(), rfl, start⟩) fun _ => ?_
  refine Succeeds.bind (Q := fun _ _ => True) (Succeeds.transact fun now there => ?_) fun _ =>
    Succeeds.read fun _ _ => ⟨(), rfl, trivial⟩
  simp only [there]
  exact ⟨(), _, rfl, trivial⟩

theorem mapErr_succeeds {σ α : Type} {P : σ → Prop} {Q : α → σ → Prop} {p : Prog σ PrismError α}
    (f : PrismError → PrismError) (inner : Succeeds P p Q) : Succeeds P (mapErr f p) Q := by
  refine Succeeds.bind inner.attempt fun result => Succeeds.fix fun s ⟨a, answered, ends⟩ => ?_
  subst answered
  exact Succeeds.pure fun _ same => same ▸ ends

theorem ensureNodeDir_succeeds (P : Node → Prop) : Succeeds P ensureNodeDir fun _ => P :=
  Succeeds.read fun _ start => ⟨(), rfl, start⟩

theorem removeDir_succeeds (P : Node → Prop) (name : String) :
    Succeeds P (removeDir name) fun _ _ => True := by
  refine Succeeds.bind (Q := fun _ _ => True) (Succeeds.read fun _ _ => ⟨_, rfl, trivial⟩)
    fun there => ?_
  split
  · exact Succeeds.zoom (partDirLens name) fun _ _ => Succeeds.act fun _ _ => trivial
  · exact Succeeds.pure fun _ _ => trivial

theorem stageFile_succeeds {f : BackedFile} (matching : f.Matches (vault.parts partId)) :
    Succeeds (fun n : Node => n.vault = vault) (stageFile partId f) fun _ n => n.vault = vault := by
  obtain ⟨bytes, there, recorded⟩ := matching
  refine Succeeds.bind (Q := fun found n => found = bytes ∧ n.vault = vault)
    (mapErr_succeeds _ (Succeeds.read ?_)) fun found => ?_
  · rintro n rfl
    exact ⟨bytes, by simp [objectAt, there], rfl, rfl⟩
  refine Succeeds.fix fun n ⟨found, same⟩ => ?_
  subst found
  refine Succeeds.bind (Q := fun _ n' => n' = n) (Succeeds.ofExcept
    (BackedFile.check_eq_ok.mpr recorded) fun _ start => start) fun _ =>
      Succeeds.zoom (partDirLens _) ?_
  rintro n' rfl
  exact (writeAtomic_succeeds _ _ _).conseq (fun _ h => h) fun _ _ _ => same

theorem installPart_succeeds {engine : Engine} {serde : Serde} (orderly : receipt.Orderly)
    (restorable : receipt.Restorable engine serde (vault.parts receipt.partId)) :
    Succeeds (fun n : Node => n.vault = vault) (engine.installPart serde receipt)
      fun _ n => n.vault = vault := by
  have staging := stagingDir_ne receipt.partId
  have emptied := (removeDir_leaves (blind_vault (stagingDir receipt.partId))).triple
    (P := (· = vault)) (E := fun _ => True) fun _ _ => trivial
  refine Succeeds.bind ((removeDir_succeeds _ _).also ((emptied.and (removeDir_empties _)).conseq
    (fun _ start => ⟨start, trivial⟩) (fun _ _ h => h) fun _ _ => trivial)) fun _ => ?_
  refine Succeeds.bind (ensureNodeDir_succeeds _) fun _ => ?_
  have staged := Succeeds.each (f := stageFile receipt.partId) (I := fun _ n => n.vault = vault)
    receipt.files
    (fun n (start : n.vault = vault ∧ n.root.parts (stagingDir receipt.partId) = ∅) => start.1)
    fun before f after order => stageFile_succeeds (restorable.files f (by simp [order]))
  refine Succeeds.bind ((staged.also (stageFiles_spec orderly)).conseq (fun _ start => start.2)
    fun _ _ h => h) fun _ => ?_
  -- The staging directory is the recorded one, which opens.
  refine Succeeds.bind (Q := fun _ n => n.vault = vault ∧
    (n.root.parts (stagingDir receipt.partId)).isEmpty = false) (Succeeds.read ?_) fun _ => ?_
  · rintro n ⟨-, same, restored⟩
    have verified : engine.verifyStaged serde receipt.partId
        (n.root.parts (stagingDir receipt.partId)) = .ok () := by
      rw [restored.eq_recordedFiles]
      exact restorable.opens
    exact ⟨(), verified, same, verifyStaged_nonempty verified⟩
  have both : Blind (fun n : Node => (n.vault, n.root.parts (stagingDir receipt.partId)))
      receipt.partId := fun dir n => Prod.ext rfl (blind_part staging dir n)
  have kept := (removeDir_leaves both).triple
    (P := fun (v, dir) => v = vault ∧ dir.isEmpty = false) (E := fun _ => True) fun _ _ => trivial
  refine Succeeds.bind ((removeDir_succeeds _ _).also ((kept.and (removeDir_empties _)).conseq
    (fun _ start => ⟨start, trivial⟩) (fun _ _ h => h) fun _ _ => trivial)) fun _ => ?_
  refine Succeeds.transact ?_
  rintro n ⟨-, ⟨same, full⟩, room⟩
  refine ⟨(), ⟨(n.root.setPart (stagingDir receipt.partId) ∅).setPart receipt.partId
    (n.root.parts (stagingDir receipt.partId)), n.vault⟩, ?_, same⟩
  rw [if_neg (by simp [full]), if_neg (by simp [room])]

theorem installGeneration_succeeds {serde : Serde} {g : Generation}
    (verified : serde.verifyContentAddress g = .ok ()) :
    Succeeds (fun _ => True) (installGeneration serde g) fun _ _ => True := by
  refine Succeeds.bind (Q := fun _ _ => True) (Succeeds.ofExcept verified fun _ _ => trivial) fun _ => ?_
  refine Succeeds.bind (Q := fun _ _ => True) (Succeeds.read fun _ _ => ⟨_, rfl, trivial⟩)
    fun there => ?_
  split
  · exact Succeeds.zoom generationsLens fun n _ =>
      (writeAtomic_succeeds _ _ _).conseq (fun _ h => h) fun _ _ _ => trivial
  · exact Succeeds.pure fun _ _ => trivial

theorem hydrate_succeeds {engine : Engine} {serde : Serde} (plain : plan.Plain)
    (restorable : ∀ r ∈ plan.parts, r.Restorable engine serde (vault.parts r.partId))
    (verified : ∀ g ∈ plan.generations, serde.verifyContentAddress g = .ok ()) :
    Succeeds (Vacant vault) (engine.hydrate serde plan) fun report _ => report = plan.report := by
  refine Succeeds.bind (Q := fun _ n => Vacant vault n) ?_ fun _ => ?_
  · refine Succeeds.bind (Q := fun there n => there = false ∧ Vacant vault n) (Succeeds.read ?_)
      fun there => ?_
    · intro n start
      refine ⟨_, rfl, ?_, start⟩
      rw [Std.ExtTreeMap.contains_eq_isSome_getElem?, start.2]
      rfl
    · refine Succeeds.fix fun n ⟨absent, start⟩ => ?_
      rw [if_neg (by simp [absent])]
      exact Succeeds.pure fun _ same => same ▸ start
  have answered : Succeeds (Vacant vault) restoreTenantKey fun _ _ => True := by
    refine Succeeds.bind (Q := fun _ _ => True) (Succeeds.attempt_read fun _ _ => trivial)
      fun result => ?_
    cases result with
    | error e => exact Succeeds.pure fun _ _ => trivial
    | ok bytes => exact Succeeds.zoom rootFilesLens fun n _ =>
        (writeAtomic_succeeds _ _ _).conseq (fun _ h => h) fun _ _ _ => trivial
  refine Succeeds.bind (answered.also restoreTenantKey_keeps) fun _ => ?_
  refine Succeeds.bind (Q := fun _ _ => True) ?_ fun _ => ?_
  · refine Succeeds.bind (ensureNodeDir_succeeds _) fun _ => ?_
    refine Succeeds.bind (Succeeds.each (I := fun _ n => n.vault = vault) plan.parts
      (fun _ start => start.2.1) fun before r after order => ?_) fun _ => ?_
    · have mem : r ∈ plan.parts := by simp [order]
      exact installPart_succeeds (plain.orderly r mem) (restorable r mem)
    refine Succeeds.bind (Succeeds.each (I := fun _ _ => True) plan.generations
      (fun _ _ => trivial) fun before g after order =>
        installGeneration_succeeds (verified g (by simp [order]))) fun _ => ?_
    refine Succeeds.bind (Q := fun _ _ => True) (Succeeds.read fun _ _ => ⟨(), rfl, trivial⟩) fun _ => ?_
    exact Succeeds.zoom snapshotsLens fun n _ =>
      (writeAtomic_succeeds _ _ _).conseq (fun _ h => h) fun _ _ _ => trivial
  · refine Succeeds.bind (Q := fun _ _ => True) (Succeeds.zoom rootFilesLens fun n _ =>
      (writeAtomic_succeeds _ _ _).conseq (fun _ h => h) fun _ _ _ => trivial) fun _ => ?_
    exact Succeeds.pure fun _ _ => rfl

/-- Hydration from a plan over an object store that does not change. Under every pattern of crashes
and failures a store without `CURRENT` ends without one, or with the whole restore set in place
and `CURRENT` naming its snapshot; a run without faults from any such store succeeds if the
recorded files are on the object store and are parts that open and decrypt; and a store whose
`CURRENT` names a snapshot is left as it is. -/
theorem hydration_all_or_nothing (engine : Engine) (serde : Serde)
    (placement : Option ShardPlacement) (planner : Node) (planFaults : List Fault)
    (plan : HydrationPlan)
    (planned : (planHydration serde placement planFaults planner).1 = .ok plan)
    (apart : ∀ r ∈ plan.parts, ∀ r' ∈ plan.parts, r.partId ≠ stagingDir r'.partId)
    (orderly : ∀ r ∈ plan.parts, r.Orderly) :
    (∀ (n : Node) (faults : List Fault), n.vault = planner.vault →
      n.root.files[currentFile]? = none →
      (engine.hydrate serde plan faults n).2.2.root.files[currentFile]? = none ∨
      ((engine.hydrate serde plan faults n).2.2.root.files[currentFile]? =
          some (utf8 plan.snapshotId) ∧
        (∃ snap, serde.parseSnapshot plan.snapshotBytes = .ok snap ∧
          ∀ id ∈ snap.partIds, ∃ bytes receipt,
            (planner.vault.parts id)[backupManifestFile]? = some bytes ∧
            serde.parseReceipt bytes = .ok receipt ∧
            Restored receipt.files (planner.vault.parts id)
              ((engine.hydrate serde plan faults n).2.2.root.parts id)) ∧
        (∀ g ∈ plan.generations, (engine.hydrate serde plan faults n).2.2.root.generations.contains
          s!"{g.generationId}.json" = true) ∧
        planner.vault.mirror[plan.snapshotId]? = some plan.snapshotBytes ∧
        (engine.hydrate serde plan faults n).2.2.root.snapshots[s!"{plan.snapshotId}.json"]? =
          some plan.snapshotBytes)) ∧
    (∀ n : Node, n.vault = planner.vault → n.root.files[currentFile]? = none →
      (∀ r ∈ plan.parts, r.Restorable engine serde (planner.vault.parts r.partId)) →
      (engine.hydrate serde plan [] n).1 = .ok plan.report) ∧
    (∀ (n : Node) (faults : List Fault) (bytes : Bytes) (id : String),
      n.root.files[currentFile]? = some bytes → namedBy bytes = .ok id → id ≠ "" →
      (engine.hydrate serde plan faults n).2.2 = n) := by
  have facts : Planned serde planner.vault plan := by
    have ends := (planHydration_spec serde placement).returned planner planFaults planner rfl
    generalize planHydration serde placement planFaults planner = run at planned ends
    obtain ⟨outcome, rest, n'⟩ := run
    subst planned
    exact ends
  have plain : plan.Plain := ⟨facts.unique, apart, orderly⟩
  refine ⟨fun n faults same absent => ?_, fun n same absent restorable => ?_,
    fun n faults bytes id there named live => (hydrate_live engine serde plan there named live faults).1⟩
  · have ends := (hydrate_spec engine serde planner.vault plain).after
      (fun _ _ done => ⟨done.2.1, .inr done.2.2⟩) ⟨same, absent⟩ faults
    refine ends.2.imp_right fun done => ⟨done.current, ?_, done.installed.generations, facts.mirrored,
      done.installed.snapshot⟩
    obtain ⟨snap, parsed, names⟩ := facts.named
    refine ⟨snap, parsed, fun id listed => ?_⟩
    rw [← names] at listed
    obtain ⟨receipt, mem, rfl⟩ := List.mem_map.mp listed
    obtain ⟨bytes, there, read⟩ := facts.receipts receipt mem
    exact ⟨bytes, receipt, there, read, done.installed.parts receipt mem⟩
  · obtain ⟨report, n', ran, rfl⟩ :=
      hydrate_succeeds plain restorable facts.generations n ⟨same, absent⟩
    rw [ran]

def plainColumn (name file : String) (bytes : Nat) : ColumnMeta :=
  ⟨name, file, codecRaw, .framed bytes 16 [⟨0, bytes, 0⟩]⟩

def plainManifest : PartManifest :=
  { sealedManifest with
    columns := [plainColumn "pq_codes" "pq.codes" 1, plainColumn "rerank_vectors" "rerank.vec" 8,
      plainColumn "centroid" "centroid.u32" 4, plainColumn "event_time" "event_time.i64" 8,
      plainColumn "cost" "cost.f64" 8, plainColumn "error" "error.u8" 1]
    featureFlags := featureBlockFraming
    extensions := [] }

/-- Receipts by their position, and one snapshot that names their parts. -/
def drillSerde (receipts : List PartBackup) : Serde :=
  { receiptSerde with
    legacyManifest := fun _ => .ok plainManifest
    parseReceipt := fun bytes =>
      match receipts[bytes.length]? with
      | some receipt => .ok receipt
      | none => .error "expected value"
    parseSnapshot := fun _ => .ok
      { Snapshot.empty with snapshotId := 1, parts := receipts.map fun r => .legacy r.partId }
    parseGeneration := fun _ => .ok ⟨"g", "m", "v", []⟩ }

def drillNode (parts : List (String × Files)) : Node where
  root := .empty
  vault :=
    { parts := fun id => (parts.lookup id).getD ∅
      generations := (∅ : Files).insert "g" []
      mirror := (∅ : Files).insert "s00000001" []
      tenantKey := none }

def drillFiles (position : Nat) (files : List (String × Bytes)) : Files :=
  files.foldl (fun dir (name, bytes) => dir.insert name bytes)
    ((∅ : Files).insert backupManifestFile (List.replicate position 0))

def drillReceipt (id : String) : PartBackup := .plain id "g" [] [.of legacyManifestFile [123]]

set_option maxRecDepth 100000

theorem hydration_all_or_nothing_drill :
    ∃ plan, (planHydration (drillSerde [drillReceipt "p"]) none []
        (drillNode [("p", drillFiles 0 [(legacyManifestFile, [123])])])).1 = .ok plan ∧
      (sampleEngine.hydrate (drillSerde [drillReceipt "p"]) plan []
        (drillNode [("p", drillFiles 0 [(legacyManifestFile, [123])])])).1 = .ok plan.report := by
  have planned : (planHydration (drillSerde [drillReceipt "p"]) none []
      (drillNode [("p", drillFiles 0 [(legacyManifestFile, [123])])])).1 =
        .ok ⟨"s00000001", [], [drillReceipt "p"], [⟨"g", "m", "v", []⟩]⟩ := by
    decide +kernel
  refine ⟨_, planned, (hydration_all_or_nothing sampleEngine _ none _ [] _ planned ?_ ?_).2.1 _ rfl
    rfl ?_⟩
  · simp only [List.mem_singleton, forall_eq]
    exact (stagingDir_ne _).symm
  · simp only [List.mem_singleton, forall_eq]
    intro before f after files
    cases before with
    | nil => simp
    | cons g before => simp [drillReceipt, PartBackup.plain] at files
  · simp only [List.mem_singleton, forall_eq]
    refine ⟨?_, by decide +kernel⟩
    simp only [drillReceipt, PartBackup.plain, List.mem_singleton, forall_eq]
    exact ⟨[123], by decide +kernel, rfl, rfl⟩

/-- A receipt that records the temporary name of a file before the file. -/
def temporaryReceipt : PartBackup :=
  .plain "p" "g" [] [.of (tmpPath "x") [1], .of "x" [2], .of legacyManifestFile [123]]

/-- Plans that are made and cannot be carried out as they say: a damaged object is refused at every
attempt; a part named like the staging directory of another is gone when the other is
installed; a file named like the temporary file of a later one is gone when that is staged. -/
theorem hydration_does_not_converge :
    (∃ plan, (planHydration (drillSerde [drillReceipt "p"]) none []
          (drillNode [("p", drillFiles 0 [(legacyManifestFile, [124])])])).1 = .ok plan ∧
      (sampleEngine.hydrate (drillSerde [drillReceipt "p"]) plan []
          (drillNode [("p", drillFiles 0 [(legacyManifestFile, [124])])])).1.isOk = false) ∧
    (∃ plan, (planHydration (drillSerde [drillReceipt ".hydrate-p", drillReceipt "p"]) none []
          (drillNode [(".hydrate-p", drillFiles 0 [(legacyManifestFile, [123])]),
            ("p", drillFiles 1 [(legacyManifestFile, [123])])])).1 = .ok plan ∧
      (sampleEngine.hydrate (drillSerde [drillReceipt ".hydrate-p", drillReceipt "p"]) plan []
          (drillNode [(".hydrate-p", drillFiles 0 [(legacyManifestFile, [123])]),
            ("p", drillFiles 1 [(legacyManifestFile, [123])])])).1 = .ok plan.report ∧
      ((sampleEngine.hydrate (drillSerde [drillReceipt ".hydrate-p", drillReceipt "p"]) plan []
          (drillNode [(".hydrate-p", drillFiles 0 [(legacyManifestFile, [123])]),
            ("p", drillFiles 1 [(legacyManifestFile, [123])])])).2.2.root.parts
              ".hydrate-p").isEmpty = true) ∧
    (∃ plan, (planHydration (drillSerde [temporaryReceipt]) none []
          (drillNode [("p", drillFiles 0 [(tmpPath "x", [1]), ("x", [2]),
            (legacyManifestFile, [123])])])).1 = .ok plan ∧
      (sampleEngine.hydrate (drillSerde [temporaryReceipt]) plan []
          (drillNode [("p", drillFiles 0 [(tmpPath "x", [1]), ("x", [2]),
            (legacyManifestFile, [123])])])).1 = .ok plan.report ∧
      ((sampleEngine.hydrate (drillSerde [temporaryReceipt]) plan []
          (drillNode [("p", drillFiles 0 [(tmpPath "x", [1]), ("x", [2]),
            (legacyManifestFile, [123])])])).2.2.root.parts "p").contains (tmpPath "x") = false) := by
  refine ⟨⟨⟨"s00000001", [], [drillReceipt "p"], [⟨"g", "m", "v", []⟩]⟩, ?_⟩,
    ⟨⟨"s00000001", [], [drillReceipt ".hydrate-p", drillReceipt "p"], [⟨"g", "m", "v", []⟩]⟩, ?_⟩,
    ⟨⟨"s00000001", [], [temporaryReceipt], [⟨"g", "m", "v", []⟩]⟩, ?_⟩⟩
  all_goals decide +kernel

/-! ### The tenant key -/

/-- Whether the request for the tenant key fails: the second access of a hydration of an empty
store, after the look for `CURRENT`. -/
def keyRequestFails (faults : List Fault) : Bool := (faults.getD 1 .proceed).isFail

variable {faults : List Fault}

theorem refuseLive_empty {rest : List Fault} {n' : Node} {u : Unit}
    (absent : n.root.files[currentFile]? = none) (ran : refuseLive faults n = (.ok u, rest, n')) :
    rest = faults.tail ∧ n' = n := by
  have missing : n.root.files.contains currentFile = false := by
    rw [Std.ExtTreeMap.contains_eq_isSome_getElem?, absent]
    rfl
  simp only [refuseLive, Prog.run_bind, Prog.run_read, missing] at ran
  cases h : faults.headD .proceed with
  | proceed =>
    simp only [h, Bool.false_eq_true, if_false] at ran
    cases ran
    exact ⟨rfl, rfl⟩
  | fail progress | crash progress => simp only [h, Prod.mk.injEq, reduceCtorEq, false_and] at ran

variable {envelope : Bytes}

/-- Every error of the request reads as a store that never had a key. -/
theorem restoreTenantKey_file {n' : Node} {rest : List Fault} {u : Unit}
    (held : n.vault.tenantKey = some envelope) (ran : restoreTenantKey faults n = (.ok u, rest, n'))
    : n'.root.files[tenantKeyFile]? =
      if (faults.headD .proceed).isFail then n.root.files[tenantKeyFile]? else some envelope := by
  simp only [restoreTenantKey, getObject, Prog.run_bind, Prog.run_attempt, Prog.run_read, held,
    objectAt] at ran
  cases h : faults.headD .proceed with
  | proceed =>
    simp only [h] at ran
    have ends : Triple (· = n) (onRootFiles (writeAtomic tenantKeyFile envelope))
        (fun _ n' => n'.root.files[tenantKeyFile]? = some envelope) fun _ => True := by
      refine Triple.zoom rootFilesLens ?_
      rintro _ rfl
      refine (writeAtomic_spec _ _ _).conseq (fun _ h => h) ?_ fun _ _ => trivial
      rintro _ _ rfl
      exact Std.ExtTreeMap.getElem?_insert_self
    have after := ends faults.tail n rfl
    rw [ran] at after
    exact after
  | fail progress =>
    simp only [h] at ran
    cases ran
    rfl
  | crash progress => simp only [h, Prod.mk.injEq, reduceCtorEq, false_and] at ran

/-- What follows the tenant key leaves it alone. -/
theorem installed_keeps_tenantKey (plan : HydrationPlan) (key : Option Bytes) :
    Triple (fun n : Node => n.root.files[tenantKeyFile]? = key)
      (do
        engine.installSet serde plan
        onRootFiles (writeAtomic currentFile (utf8 plan.snapshotId))
        return plan.report)
      (fun _ n => n.root.files[tenantKeyFile]? = key) fun _ => True := by
  have set := (installSet_leaves engine serde plan).map
    (fun view : Vault × Files => view.2[tenantKeyFile]?)
  refine Triple.bind (set.triple (P := (· = key)) fun _ _ => trivial) fun _ => ?_
  refine Triple.bind (Q := fun _ n => n.root.files[tenantKeyFile]? = key)
    (Triple.zoom rootFilesLens fun n same => ?_) fun _ => Triple.pure fun _ same => same
  refine (writeAtomic_spec _ _ _).conseq (fun _ h => h) (fun _ now written => ?_) fun _ _ => trivial
  exact (getElem?_writing (.inr (.inr written)) (by decide) (by decide)).trans same

/-- The tenant key that a run of the service finds is loaded, and nothing is minted. -/
theorem loadOrMint_found {serde : Serde} (found : n.root.files[tenantKeyFile]? = some envelope)
    (keys : KeyProvider) (fresh : Bytes) : loadOrMint serde (some keys) fresh [] n =
      match openTenantKey serde keys envelope with
      | .ok tokenizer => (.ok (some tokenizer), [], n)
      | .error e => (.err e, [], n) := by
  have there := contains_of_getElem? found
  have bytes : n.root.files.getD tenantKeyFile [] = envelope := by
    rw [Std.ExtTreeMap.getD_eq_getD_getElem?, found]
    rfl
  simp only [loadOrMint, Prog.run_bind, Prog.run_read_nil, there, if_true, bytes]
  cases openTenantKey serde keys envelope <;> rfl

theorem hydrate_tenantKey_file {engine : Engine} {serde : Serde}
    (held : vault.tenantKey = some envelope) {report : HydrationReport}
    (ran : (engine.hydrate serde plan faults ⟨Root.empty, vault⟩).1 = .ok report) :
    (engine.hydrate serde plan faults ⟨Root.empty, vault⟩).2.2.root.files[tenantKeyFile]? =
      if keyRequestFails faults then none else some envelope := by
  rw [Engine.hydrate, Prog.run_bind] at ran ⊢
  rcases first : refuseLive faults ⟨Root.empty, vault⟩ with ⟨_ | _ | _, rest, n⟩
  case err | crashed => simp [first] at ran
  obtain ⟨rfl, rfl⟩ := refuseLive_empty Std.ExtTreeMap.getElem?_empty first
  simp only [first, Prog.run_bind restoreTenantKey] at ran ⊢
  rcases second : restoreTenantKey faults.tail ⟨Root.empty, vault⟩ with ⟨_ | _ | _, rest, n⟩
  case err | crashed => simp [second] at ran
  simp only [second] at ran ⊢
  have after := installed_keeps_tenantKey engine serde plan _ rest n rfl
  rcases third : (do
    engine.installSet serde plan
    onRootFiles (writeAtomic currentFile (utf8 plan.snapshotId))
    return plan.report : NodeProg HydrationReport) rest n with ⟨_ | _ | _, rest', n'⟩
  case err | crashed => simp only [third, reduceCtorEq] at ran
  rw [third] at after
  calc n'.root.files[tenantKeyFile]? = n.root.files[tenantKeyFile]? := after
    _ = if (faults.tail.headD .proceed).isFail then none else some envelope := by
      rw [restoreTenantKey_file held second]
      rfl
    _ = if keyRequestFails faults then none else some envelope := by
      rcases faults with _ | ⟨_, _ | ⟨_, _⟩⟩ <;> rfl

/-- A hydration of an empty store that succeeds leaves the tenant key of the object store in place,
so that the next start loads it, exactly if the request for it did not fail. -/
theorem tenant_key_restored_iff (engine : Engine) (serde : Serde) (plan : HydrationPlan)
    (vault : Vault) (envelope : Bytes) (held : vault.tenantKey = some envelope)
    (faults : List Fault) (report : HydrationReport)
    (ran : (engine.hydrate serde plan faults ⟨Root.empty, vault⟩).1 = .ok report) :
    ((engine.hydrate serde plan faults ⟨Root.empty, vault⟩).2.2.root.files[tenantKeyFile]? =
        some envelope ∧
      ∀ (keys : KeyProvider) (fresh : Bytes),
        loadOrMint serde (some keys) fresh []
            (engine.hydrate serde plan faults ⟨Root.empty, vault⟩).2.2 =
          match openTenantKey serde keys envelope with
          | .ok tokenizer =>
            (.ok (some tokenizer), [], (engine.hydrate serde plan faults ⟨Root.empty, vault⟩).2.2)
          | .error e =>
            (.err e, [], (engine.hydrate serde plan faults ⟨Root.empty, vault⟩).2.2)) ↔
      keyRequestFails faults = false := by
  have file := hydrate_tenantKey_file held ran
  rw [file]
  cases h : keyRequestFails faults with
  | true => simp
  | false =>
    refine ⟨fun _ => rfl, fun _ => ⟨rfl, fun keys fresh => loadOrMint_found ?_ keys fresh⟩⟩
    rw [file, h]
    rfl

def sampleKeys : KeyProvider := ⟨sampleAead, fun dek => .ok ("k1", dek), fun _ wrapped => .ok wrapped⟩

/-- The store's key, wrapped, and nothing else in the envelope file. -/
def keyedSerde : Serde :=
  { drillSerde [drillReceipt "p"] with
    envelopeJson := TenantKeyEnvelope.wrappedKey
    parseEnvelope := fun bytes => .ok ⟨aeadXchacha20Poly1305, "k1", bytes⟩ }

def keyedVault : Vault :=
  { (drillNode [("p", drillFiles 0 [(legacyManifestFile, [123])])]).vault with
    tenantKey := some (List.replicate 32 7) }

def keyedPlan : HydrationPlan := ⟨"s00000001", [], [drillReceipt "p"], [⟨"g", "m", "v", []⟩]⟩

theorem tenant_key_restored_iff_keyed :
    (sampleEngine.hydrate keyedSerde keyedPlan [] ⟨Root.empty, keyedVault⟩).1 =
        .ok keyedPlan.report ∧
      (sampleEngine.hydrate keyedSerde keyedPlan [] ⟨Root.empty, keyedVault⟩).2.2.root.files[
        tenantKeyFile]? = some (List.replicate 32 7) := by
  have ran : (sampleEngine.hydrate keyedSerde keyedPlan [] ⟨Root.empty, keyedVault⟩).1 =
      .ok keyedPlan.report := by
    decide +kernel
  exact ⟨ran, ((tenant_key_restored_iff sampleEngine keyedSerde keyedPlan keyedVault _ rfl [] _
    ran).mpr rfl).1⟩

/-- One request that fails: the hydration succeeds without the key, and the next start mints
another. -/
theorem tenant_key_lost_on_failed_request :
    (planHydration keyedSerde none [] ⟨Root.empty, keyedVault⟩).1 = .ok keyedPlan ∧
      (sampleEngine.hydrate keyedSerde keyedPlan [.proceed, .fail 0]
        ⟨Root.empty, keyedVault⟩).1 = .ok keyedPlan.report ∧
      (sampleEngine.hydrate keyedSerde keyedPlan [.proceed, .fail 0]
        ⟨Root.empty, keyedVault⟩).2.2.root.files[tenantKeyFile]? = none ∧
      (loadOrMint keyedSerde (some sampleKeys) (List.replicate 32 9) []
        (sampleEngine.hydrate keyedSerde keyedPlan [.proceed, .fail 0]
          ⟨Root.empty, keyedVault⟩).2.2).1 = .ok (some ⟨List.replicate 32 9⟩) ∧
      openTenantKey keyedSerde sampleKeys (List.replicate 32 7) = .ok ⟨List.replicate 32 7⟩ := by
  decide +kernel

end Prism
