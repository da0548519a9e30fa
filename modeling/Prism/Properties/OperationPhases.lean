import Prism.Engine.Operations
import Prism.Properties.Publication

/-!
The operations that commit on the head, read once for all: what they look at, what they add beside
the head, and their one commit. What is to be shown of them says what these steps do to it.
-/

namespace Prism

open CrashLogic Fallible Catalog

variable {engine : Engine} {snap : Snapshot}

/-! ### What the operations look at -/

theorem readAll_eq_rows {r : PartReader} {rows : List RowIn} (read : r.readAll = .ok rows) :
    rows = r.part.rows := by
  obtain ⟨_, _, last⟩ := bind_eq_ok.mp read
  exact (pure_eq_ok.mp last).symm

namespace Engine

variable (partId : String)

theorem openStored_spec :
    Observes (onStore (Catalog.openPart partId)) fun w part => w.store.parts[partId]? = some part :=
  onStore_observes (C := fun store part => store.parts[partId]? = some part)
    (Observes.read.weaken fun _ _ opened => openPartIn_present opened)

theorem openPart_spec (partId : String) :
    Observes (engine.openPart partId) fun w r => w.store.parts[partId]? = some r.part :=
  Observes.bind (openStored_spec partId) fun _ =>
    Observes.bind Observes.ofExcept fun _ => Observes.pure fun _ _ found => found

/-- The opened parts are those that the snapshot names, in order. -/
theorem openParts_spec : Observes (engine.openParts snap) fun w readers =>
      List.Forall₂ (fun id r => w.store.parts[id]? = some r.part) snap.partIds readers :=
  Observes.each openPart_spec snap.partIds

theorem readRows_spec (r : PartReader) : Observes (readRows r) fun _ rows => rows = r.part.rows :=
  Observes.read.weaken fun _ _ read => readAll_eq_rows read

theorem readPart_spec (r : PartReader) :
    Observes (readPart r) fun _ out => out = (r.manifest.generationId, r.part.rows) :=
  Observes.bind (readRows_spec r) fun _ => Observes.pure fun _ read => read ▸ rfl

theorem openPlain_spec :
    Observes (openPlain partId) fun w r => w.store.parts[partId]? = some r.part :=
  Observes.bind (openStored_spec partId) fun _ => Observes.pure fun _ found => found

theorem openAndRead_spec : Observes (openAndRead partId) fun w out =>
      w.store.parts[partId]? = some out.1.part ∧ out.2 = out.1.part.rows :=
  Observes.bind (openPlain_spec partId) fun r =>
    Observes.bind (readRows_spec r) fun _ => Observes.pure fun _ read found => ⟨found, read⟩

end Engine

/-! ### The phases of an operation -/

/-- A store without the files of its generations and baselines. -/
def Store.unrecorded (store : Store) : Store := { store with generations := ∅, baselines := ∅ }

def World.unrecorded (w : World) : World := { w with store := w.store.unrecorded }

/-- A reading of programs: `Stages` of those that run on the head `snap` and leave it the head,
`Finishes` of those that may commit on it, and `Publishes` of those that read it first. The parts
they write are built for a spec of `writes`, and they commit entries of `commits`. -/
structure Phases {τ : Type} (view : World → τ) (writes : PartSpec → Prop)
    (commits : Snapshot → List PartEntry → Prop) where
  Stages : Snapshot → {α : Type} → Io α → Prop
  Finishes : Snapshot → {α : Type} → Io α → Prop
  Publishes : {α : Type} → Io α → Prop
  leaves {snap : Snapshot} {α : Type} {p : Io α} : Leaves view p → Stages snap p
  bind {snap : Snapshot} {α β : Type} {p : Io α} {f : α → Io β} :
    Stages snap p → (∀ a, Stages snap (f a)) → Stages snap (p >>= f)
  writePart {snap : Snapshot} {shape : PartShape} {spec : PartSpec} {seq : Nat} {rows : List RowIn}
    {nowMs : Int} : writes spec → Stages snap (onStore (Catalog.writePart shape spec seq rows nowMs))
  finishes {snap : Snapshot} {α : Type} {p : Io α} : Stages snap p → Finishes snap p
  onward {snap : Snapshot} {α β : Type} {p : Io α} {f : α → Io β} :
    Stages snap p → (∀ a, Finishes snap (f a)) → Finishes snap (p >>= f)
  commit {snap : Snapshot} {parts : List PartEntry} {nextSeq : Nat} {active : Option String}
    {carried : SnapshotMeta} {nowMs : Int} :
    commits snap parts → carried.appliedWalRecord = snap.appliedWalRecord →
      Finishes snap (onStore (commitMeta snap parts nextSeq active carried nowMs))
  after {snap : Snapshot} {α β : Type} {p : Io α} {f : α → Io β} :
    Finishes snap p → (∀ a, Leaves view (f a)) → Finishes snap (p >>= f)
  published {snap : Snapshot} {α : Type} {p : Io α} : Publishes p → Finishes snap p
  snapshot {α : Type} {f : Snapshot → Io α} :
    (∀ snap, Finishes snap (f snap)) → Publishes (Engine.snapshot >>= f)
  looking {α β : Type} {p : Io α} {f : α → Io β} :
    Leaves view p → (∀ a, Publishes (f a)) → Publishes (p >>= f)

theorem putGenerationIn_unrecorded (g : Generation) (store : Store) :
    (putGenerationIn g store).unrecorded = store.unrecorded := by
  unfold putGenerationIn
  split <;> rfl

namespace Phases

open Engine

variable {τ : Type} {view : World → τ} {writes : PartSpec → Prop}
  {commits : Snapshot → List PartEntry → Prop} (P : Phases view writes commits)
  {snap : Snapshot} {α β : Type}

include P

theorem looks {p : Io α} {C : World → α → Prop} (observes : Observes p C) : P.Stages snap p :=
  P.leaves (observes.leaves view)

theorem pure {a : α} : P.Stages snap (pure a : Io α) := P.leaves Leaves.pure

theorem throw {e : PrismError} : P.Stages snap (Prog.throw e : Io α) := P.leaves Leaves.throw

theorem ofExcept {r : Result α} : P.Stages snap (Prog.ofExcept r : Io α) :=
  P.leaves Leaves.ofExcept

theorem each {f : α → Io β} (step : ∀ x, P.Stages snap (f x)) (xs : List α) :
    P.Stages snap (Prog.each f xs) := by
  induction xs with
  | nil => exact P.pure
  | cons x xs ih => exact P.bind (step x) fun _ => P.bind ih fun _ => P.pure

/-- The commit, and then the report. -/
theorem commits_last {parts : List PartEntry} {nextSeq : Nat} {active : Option String}
    {carried : SnapshotMeta} {nowMs : Int} {f : Snapshot → α} (named : commits snap parts)
    (marked : carried.appliedWalRecord = snap.appliedWalRecord) :
    P.Finishes snap (onStore (commitMeta snap parts nextSeq active carried nowMs) >>=
      fun committed => Pure.pure (f committed)) :=
  P.after (P.commit named marked) fun _ => Leaves.pure

variable (engine : Engine)

/-- A refusal is a look that never returns. -/
theorem refused {e : PrismError} : P.Publishes (Prog.throw e : Io α) :=
  P.looking (p := (Prog.throw e : Io Empty)) (f := Empty.rec) Leaves.throw nofun

/-! ### Operations that commit the entries they found -/

section Recommits

variable (own : ∀ snap : Snapshot, commits snap snap.parts)
include own

theorem delete (eventIds : List String) (nowMs : Int) :
    P.Publishes (Engine.delete eventIds nowMs) := by
  refine P.snapshot fun snap => ?_
  dsimp only
  split
  · exact P.finishes P.pure
  · exact P.commits_last (own snap) rfl

theorem generationPromote (genId : String) (nowMs : Int) :
    P.Publishes (Engine.generationPromote genId nowMs) := by
  refine P.looking (getGeneration_spec.leaves view) fun g => P.snapshot fun snap => ?_
  split
  · exact P.finishes P.throw
  · split
    · exact P.onward (P.looks getGeneration_spec) fun _ =>
        P.onward P.ofExcept fun _ => P.commits_last (own snap) rfl
    · exact P.commits_last (own snap) rfl

theorem bridgeDeclare (fromSpace toSpace validation : String) (nowMs : Int) :
    P.Publishes (Engine.bridgeDeclare fromSpace toSpace validation nowMs) := by
  unfold Engine.bridgeDeclare
  split
  · exact P.refused
  · exact P.snapshot fun snap => P.commits_last (own snap) rfl

variable (recorded : ∀ w : World, view w.unrecorded = view w)

omit P own in
/-- A file of a generation or a baseline is replaced. -/
theorem replaces {done : Store → Store} (recorded : ∀ w : World, view w.unrecorded = view w)
    (beside : ∀ store, (done store).unrecorded = store.unrecorded) :
    Leaves view (onStore (Prog.replace deviceError done)) := by
  refine Leaves.inside (Leaves.replace beside) fun store w same => ?_
  calc view { w with store }
    _ = view { w with store := store.unrecorded } := (recorded { w with store }).symm
    _ = view { w with store := w.store.unrecorded } := by rw [same]
    _ = view w := recorded w

include recorded

theorem baselineBuild (engine : Engine) (env : BaselineEnv) (tenant generationId : String)
    (nowMs : Int) : P.Publishes (engine.baselineBuild env tenant generationId nowMs) := by
  refine P.snapshot fun snap => P.onward (P.looks getGeneration_spec) fun g => ?_
  refine P.onward (P.each (fun entry => ?_) _) fun parts => ?_
  · unfold Engine.baselineRows
    split
    · exact P.pure
    · split
      · exact P.pure
      · split
        · exact P.pure
        · exact P.bind (P.looks (openAndRead_spec _)) fun _ => P.pure
  · dsimp only
    split
    · exact P.finishes P.throw
    · refine P.onward P.ofExcept fun b => P.onward (P.leaves (replaces recorded fun store => ?_))
        fun _ => P.commits_last (own snap) rfl
      unfold putBaselineIn
      split <;> rfl

theorem generationCreate (engine : Engine) (modelVersion : Option String) (nowMs : Int) :
    P.Publishes (engine.generationCreate modelVersion nowMs) := by
  refine P.snapshot fun snap => ?_
  extract_lets create
  have created : ∀ active, P.Finishes snap (create active) := by
    intro active
    refine P.onward P.ofExcept fun embed => P.onward (P.looks openParts_spec) fun readers => ?_
    refine P.onward (P.each (fun r => P.bind P.ofExcept fun lineage => ?_) _) fun parts => ?_
    · split
      · exact P.pure
      · exact P.looks (readRows_spec r)
    dsimp only
    split
    · exact P.finishes P.throw
    · refine P.onward P.ofExcept fun embedded => P.onward P.ofExcept fun g => ?_
      split
      · exact P.finishes P.throw
      · exact P.onward (P.leaves (replaces recorded (putGenerationIn_unrecorded g))) fun _ =>
          P.commits_last (own snap) rfl
  split
  · exact P.onward (P.bind (P.looks getGeneration_spec) fun _ => P.pure) created
  · exact P.onward P.pure created

theorem generationRetire (genId : String) (nowMs : Int) :
    P.Publishes (Engine.generationRetire genId nowMs) := by
  refine P.snapshot fun snap => ?_
  split
  · exact P.finishes P.throw
  · refine P.onward (P.looks (onStore_observes Observes.read)) fun ids => ?_
    refine P.onward (P.each (fun id => ?_) _) fun _ => ?_
    · refine P.bind (P.looks (onStore_observes Observes.read)) fun s => ?_
      split
      · exact P.throw
      · exact P.pure
    · exact P.after (P.commit (own snap) rfl) fun _ =>
        Leaves.bind (Leaves.attempt (replaces recorded
          fun store => show (removeGeneration genId store).unrecorded = _ from rfl)) fun _ => Leaves.pure

end Recommits

/-! ### Operations that rewrite parts -/

theorem dispose (g : Generation) (entry : PartEntry) : P.Stages snap (Engine.dispose g entry) := by
  unfold Engine.dispose
  split
  · exact P.pure
  · split
    · exact P.pure
    · exact P.bind (P.looks (openStored_spec _)) fun _ => P.bind P.ofExcept fun _ => P.pure

section Rewrites

variable {engine : Engine}

theorem rewritePartition (g : Generation) (lineage : S5Ext) (nowMs : Int)
    (item : Nat × PartitionKey × List RowIn)
    (made : ∀ tokenizer, writes ⟨some item.2.1, engine.config.promote, lineage, none, tokenizer⟩) :
    P.Stages snap (engine.rewritePartition g lineage nowMs item) :=
  P.bind P.ofExcept fun tokenizer => P.bind (P.writePart (made tokenizer)) fun _ => P.pure

section Merges

variable (made : ∀ key tokenizer, writes ⟨some key, engine.config.promote, {}, none, tokenizer⟩)
  (named : ∀ (snap : Snapshot) (parts : List PartEntry), commits snap parts)
include made

theorem mergePartition (nowMs : Int) (item : Nat × PartitionKey × List RowIn) :
    P.Stages snap (engine.mergePartition nowMs item) :=
  P.bind (P.looks getGeneration_spec) fun g =>
    P.rewritePartition g {} nowMs item (made item.2.1)

theorem runOps (nowMs : Int) (seq : Nat) (ops : List MergeOp) :
    P.Stages snap (engine.runOps snap nowMs seq ops) := by
  induction ops generalizing seq with
  | nil => exact P.pure
  | cons op ops ih =>
    refine P.bind (P.bind (P.looks (Observes.each openAndRead_spec _)) fun parts => ?_)
      fun out => P.bind (ih _) fun _ => P.pure
    dsimp only
    split
    · exact P.pure
    · exact P.bind (P.mergePartition made nowMs _) fun _ => P.pure

include named

theorem merge (free : Option Nat) (nowMs : Int) : P.Publishes (engine.merge free nowMs) := by
  refine P.snapshot fun snap => P.onward (P.looks openParts_spec) fun readers => ?_
  refine P.onward P.ofExcept fun tokenizer => ?_
  dsimp only
  split
  · exact P.finishes P.pure
  · split
    · exact P.finishes P.pure
    · refine P.onward (P.looks (Observes.each readPart_spec _)) fun parts => ?_
      exact P.onward (P.each (P.mergePartition made nowMs) _) fun written =>
        P.commits_last (named snap _) rfl

theorem mergeTiered (free : Option Nat) (nowMs : Int) :
    P.Publishes (engine.mergeTiered free nowMs) := by
  refine P.snapshot fun snap => ?_
  dsimp only
  split
  · exact P.published (P.merge made named free nowMs)
  · split
    · exact P.finishes P.pure
    · exact P.onward (P.runOps made nowMs _ _) fun outs => P.commits_last (named snap _) rfl

omit made in
theorem rollback (toId : SnapshotId) (nowMs : Int) : P.Publishes (Engine.rollback toId nowMs) :=
  P.looking ((onStore_observes Observes.read).leaves view) fun _ => P.snapshot fun snap =>
    P.commits_last (named snap _) rfl

theorem reembed (recorded : ∀ w : World, view w.unrecorded = view w)
    (newVersion : String) (nowMs : Int) : P.Publishes (engine.reembed newVersion nowMs) := by
  refine P.snapshot fun snap => ?_
  split
  · exact P.finishes P.throw
  · refine P.onward (P.looks getGeneration_spec) fun old => P.onward P.ofExcept fun embed => ?_
    refine P.onward (P.looks openParts_spec) fun readers => ?_
    refine P.onward (P.looks (Observes.each readRows_spec _)) fun parts => ?_
    dsimp only
    split
    · exact P.finishes P.throw
    · refine P.onward P.ofExcept fun embedded => P.onward P.ofExcept fun new => ?_
      split
      · exact P.finishes P.throw
      · refine P.onward (P.leaves (replaces recorded (putGenerationIn_unrecorded new))) fun _ => ?_
        refine P.onward P.ofExcept fun rows => P.onward (P.each (fun item => ?_) _) fun written =>
          P.commits_last (named snap _) rfl
        exact P.rewritePartition new {} nowMs item (made item.2.1)

end Merges

variable (made : ∀ key lineage tokenizer,
    writes ⟨some key, engine.config.promote, lineage, none, tokenizer⟩)
  (named : ∀ (snap : Snapshot) (parts : List PartEntry), commits snap parts)
include made

theorem migratePartitions (g : Generation) (embed : Embedder) (nowMs : Int) (limit : Option Nat)
    (s : Engine.Migrated) (todo : List (PartitionKey × List String)) :
    P.Stages snap (engine.migratePartitions snap g embed nowMs limit s todo) := by
  fun_induction Engine.migratePartitions engine snap g embed nowMs limit s todo with
  | case1 => exact P.pure
  | case2 s key partIds rest ih => exact ih
  | case3 limit s key partIds rest _ ih =>
    refine P.bind (P.bind (P.each (fun id => ?_) _) fun parts => ?_) ih
    · exact P.bind (P.looks (openAndRead_spec id)) fun _ => P.ofExcept
    · dsimp only
      split
      · exact P.pure
      · exact P.bind (P.rewritePartition g _ nowMs _ (made _ _)) fun _ => P.pure

theorem redactEntries (beforeMs : Int) (reason : String) (nowMs : Int) (seq : Nat)
    (entries : List PartEntry) :
    P.Stages snap (engine.redactEntries beforeMs reason nowMs seq entries) := by
  induction entries generalizing seq with
  | nil => exact P.pure
  | cons entry entries ih =>
    refine P.bind ?_ fun written => P.bind (ih _) fun _ => P.pure
    unfold Engine.redactEntry
    split
    · exact P.pure
    · refine P.bind (P.looks (openPlain_spec _)) fun reader => P.bind P.ofExcept fun lineage => ?_
      split
      · exact P.pure
      · exact P.bind (P.looks (readRows_spec reader)) fun rows =>
          P.bind (P.looks getGeneration_spec) fun g =>
            P.bind (P.rewritePartition g _ nowMs _ (made _ _)) fun _ => P.pure

include named

theorem reembedParts (g : Generation) (maxPartitions : Option Nat) (state : GenerationState)
    (nowMs : Int) : P.Finishes snap (engine.reembedParts snap g maxPartitions state nowMs) := by
  refine P.onward P.ofExcept fun embed => P.onward (P.each (P.dispose g) _) fun disposed => ?_
  exact P.onward (P.migratePartitions made g embed nowMs _ _ _) fun done =>
    P.commits_last (named snap _) (by cases snap.activeGeneration <;> rfl)

theorem generationCanary (genId : String) (maxPartitions : Nat) (nowMs : Int) :
    P.Publishes (engine.generationCanary genId maxPartitions nowMs) := by
  refine P.looking (getGeneration_spec.leaves view) fun g => P.snapshot fun snap => ?_
  split
  · exact P.reembedParts made named g _ _ nowMs
  · exact P.reembedParts made named g _ _ nowMs
  · exact P.finishes P.throw
  · exact P.finishes P.throw

theorem generationMigrate (genId : String) (maxPartitions : Option Nat) (nowMs : Int) :
    P.Publishes (engine.generationMigrate genId maxPartitions nowMs) :=
  P.looking (getGeneration_spec.leaves view) fun g => P.snapshot fun _ =>
    P.reembedParts made named g _ _ nowMs

theorem redactBodies (beforeMs : Int) (reason : String) (nowMs : Int) :
    P.Publishes (engine.redactBodies beforeMs reason nowMs) := by
  unfold Engine.redactBodies
  split
  · exact P.refused
  · exact P.snapshot fun snap => P.onward (P.redactEntries made beforeMs reason nowMs _ _)
      fun entries => P.commits_last (named snap _) rfl

end Rewrites

end Phases

end Prism
