import Mathlib.Logic.Relation
import Prism.Properties.OperationPhases

/-!
What the operations of an engine can do to the files of its store, access by access. Every
operation reads the head, adds files beside it and commits at most once on that head.
-/

namespace Prism

open CrashLogic Catalog Store

variable {free : Option Nat} {nowMs : Int}

/-- One access that changes the files of a store. `built` holds of the parts that are written. -/
inductive Access (built : Part → Prop) : Store → Store → Prop
  | part {store : Store} (part : Part) : built part → Access built store (putPart part store)
  | generation {store : Store} (g : Generation) : Access built store (putGenerationIn g store)
  | snapshot {store : Store} (parent snap : Snapshot) :
      currentIn store = .ok parent → snap.snapshotId = parent.snapshotId + 1 →
      Access built store (putSnapshot snap store)
  | commit {store : Store} (parent snap : Snapshot) :
      currentIn store = .ok parent → snap.snapshotId = parent.snapshotId + 1 →
      store.PartsPresent snap.parts → Access built store (install snap store)

/-- A directory that an access leaves was there before or is written with what was built. -/
theorem Access.part_cases {built : Part → Prop} {store store' : Store}
    (access : Access built store store') {id : String} {part : Part}
    (present : store'.parts[id]? = some part) : store.parts[id]? = some part ∨ built part := by
  cases access with
  | part new made =>
    unfold putPart at present
    split at present
    · exact .inl present
    · obtain ⟨-, rfl⟩ | present := OrderedMap.of_getElem?_insert present
      · exact .inr made
      · exact .inl present
  | generation g =>
    unfold putGenerationIn at present
    split at present
    · exact .inl present
    · exact .inl present
  | snapshot | commit => exact .inl present

def Writes (built : Part → Prop) : Store → Store → Prop := Relation.ReflTransGen (Access built)

namespace Writes

variable {built : Part → Prop} {a b c : Store}

theorem refl (store : Store) : Writes built store store := Relation.ReflTransGen.refl

theorem then_access (writes : Writes built a b) (access : Access built b c) : Writes built a c :=
  Relation.ReflTransGen.tail writes access

/-- What every access keeps, any number of them keep. -/
theorem invariant {Φ : Store → Prop} (kept : ∀ s s', Access built s s' → Φ s → Φ s')
    (writes : Writes built a b) (start : Φ a) : Φ b := by
  induction writes with
  | refl => exact start
  | tail _ access ih => exact kept _ _ access ih

end Writes

/-! ### Programs between the read of the head and the commit on it -/

section Phases

variable (built : Part → Prop)

/-- Only the files of `start` and what was written since are there, and `snap` is the head. -/
def Before (start : Store) (snap : Snapshot) (w : World) : Prop :=
  Writes built start w.store ∧ currentIn w.store = .ok snap

def Stages {α : Type} (snap : Snapshot) (p : Io α) : Prop :=
  ∀ start, Triple (Before built start snap) p (fun _ => Before built start snap)
    (fun w => Writes built start w.store)

def Finishes {α : Type} (snap : Snapshot) (p : Io α) : Prop :=
  ∀ start, Triple (Before built start snap) p (fun _ w => Writes built start w.store)
    (fun w => Writes built start w.store)

def Publishes {α : Type} (p : Io α) : Prop :=
  ∀ start, Keeps (fun w => Writes built start w.store) p

end Phases

variable {built : Part → Prop} {snap : Snapshot} {α β : Type} {p : Io α} {f : α → Io β}

namespace Stages

/-- A program that leaves the store alone. -/
theorem of_leaves (leaves : Leaves World.store p) : Stages built snap p := by
  intro start
  exact leaves.triple (P := fun store => Writes built start store ∧ currentIn store = .ok snap)
    fun _ before => before.1

theorem looks {C : World → α → Prop} (observes : Observes p C) : Stages built snap p :=
  of_leaves (observes.leaves World.store)

theorem bind (first : Stages built snap p) (next : ∀ a, Stages built snap (f a)) :
    Stages built snap (p >>= f) :=
  fun start => Triple.bind (first start) fun a => next a start

theorem each (step : ∀ x, Stages built snap (f x)) (xs : List α) :
    Stages built snap (Prog.each f xs) := by
  induction xs with
  | nil => exact of_leaves Leaves.pure
  | cons x xs ih => exact bind (step x) fun _ => bind ih fun _ => of_leaves Leaves.pure

theorem finishes (stages : Stages built snap p) : Finishes built snap p :=
  fun start => (stages start).weaken fun _ _ before => before.1

/-- An access that adds a file keeps the head. -/
theorem onStore_replace {done : Store → Store} (access : ∀ store, Access built store (done store))
    (grown : ∀ store, Grown store (done store)) :
    Stages built snap (onStore (Prog.replace deviceError done)) := by
  intro start
  refine Triple.fix fun w before => ?_
  have after : Writes built start (done w.store) := before.1.then_access (access w.store)
  refine Engine.onStore_spec (Triple.replace ?_ ?_ ?_)
  · rintro store rfl
    exact ⟨after, (grown w.store).head.trans before.2⟩
  · rintro store rfl
    exact before.1
  · rintro store rfl
    exact after

theorem writePart {shape : PartShape} {spec : PartSpec} {seq : Nat} {rows : List RowIn}
    {nowMs : Int} (made : ∀ part, buildPart shape spec seq rows nowMs = .ok part → built part) :
    Stages built snap (onStore (Catalog.writePart shape spec seq rows nowMs)) := by
  intro start
  refine Triple.fix fun w before => ?_
  have after (part : Part) (ok : buildPart shape spec seq rows nowMs = .ok part) :
      Writes built start (putPart part w.store) :=
    before.1.then_access (.part part (made part ok))
  refine Engine.onStore_spec ((writePart_spec shape spec seq rows nowMs).conseq
    (fun _ same => same) ?_ ?_)
  · rintro _ store ⟨part, ok, _, rfl⟩
    exact ⟨after part ok, putPart_grown.head.trans before.2⟩
  · rintro store (rfl | ⟨part, ok, rfl⟩)
    · exact before.1
    · exact after part ok

theorem putGeneration {g : Generation} : Stages built snap (onStore (Catalog.putGeneration g)) :=
  onStore_replace (fun _ => .generation g) fun store => Engine.putGenerationIn_grown g store

end Stages

namespace Finishes

theorem bind (first : Stages built snap p) (next : ∀ a, Finishes built snap (f a)) :
    Finishes built snap (p >>= f) :=
  fun start => Triple.bind (first start) fun a => next a start

theorem pure {a : α} : Finishes built snap (pure a : Io α) := (Stages.of_leaves Leaves.pure).finishes

/-- After the commit a program may only touch what is outside of the store. -/
theorem then_leaves (first : Finishes built snap p) (next : ∀ a, Leaves World.store (f a)) :
    Finishes built snap (p >>= f) :=
  fun start => Triple.bind (first start) fun a => ((next a).keeps (Writes built start))

theorem commitMeta {parts : List PartEntry} {nextSeq : Nat} {active : Option String}
    {carried : SnapshotMeta} {nowMs : Int} :
    Finishes built snap (onStore (commitMeta snap parts nextSeq active carried nowMs)) := by
  intro start
  refine Triple.fix fun w before => ?_
  refine Engine.onStore_spec ((commitMeta_spec snap parts nextSeq active carried nowMs w.store).conseq
    (fun _ same => same) ?_ ?_)
  · rintro _ store ⟨_, rfl, readable⟩
    exact before.1.then_access (.commit snap _ before.2 rfl readable.present)
  · rintro store (rfl | ⟨rfl, _⟩ | ⟨rfl, readable⟩)
    · exact before.1
    · exact before.1.then_access (.snapshot snap _ before.2 rfl)
    · exact before.1.then_access (.commit snap _ before.2 rfl readable.present)

end Finishes

namespace Publishes

theorem finishes (publishes : Publishes built p) : Finishes built snap p :=
  fun start => (publishes start).strengthen fun _ before => before.1

/-- An operation that reads the head and goes on from there. -/
theorem of_snapshot {f : Snapshot → Io α} (next : ∀ snap, Finishes built snap (f snap)) :
    Publishes built (Engine.snapshot >>= f) := by
  intro start
  refine Triple.bind (Engine.snapshot_spec.triple fun _ writes => writes) fun snap => ?_
  exact (next snap start).strengthen fun _ ⟨head, writes⟩ => ⟨writes, head⟩

/-- Something outside of the store before the head is read. -/
theorem of_leaves (leaves : Leaves World.store p) (next : ∀ a, Publishes built (f a)) :
    Publishes built (p >>= f) :=
  fun start => Triple.bind (leaves.keeps (Writes built start)) fun a => next a start

/-- What every access keeps, the operation keeps, however it ends. -/
theorem keeps (publishes : Publishes built p) {Φ : Store → Prop}
    (kept : ∀ s s', Access built s s' → Φ s → Φ s') : Keeps (fun w => Φ w.store) p := by
  refine Triple.fix fun start held => ?_
  refine (publishes start.store).conseq ?_ ?_ ?_
  · rintro w rfl
    exact Writes.refl _
  · exact fun _ w writes => writes.invariant kept held
  · exact fun w writes => writes.invariant kept held

end Publishes

def accessPhases (built : Part → Prop) : Phases World.store
    (fun spec => ∀ shape seq rows nowMs part, buildPart shape spec seq rows nowMs = .ok part →
      built part) (fun _ _ => True) where
  Stages snap := Stages built snap
  Finishes snap := Finishes built snap
  Publishes := Publishes built
  leaves := Stages.of_leaves
  bind := Stages.bind
  writePart made := Stages.writePart (made _ _ _ _)
  finishes := Stages.finishes
  onward := Finishes.bind
  commit _ _ := Finishes.commitMeta
  after := Finishes.then_leaves
  published := Publishes.finishes
  snapshot := Publishes.of_snapshot
  looking := Publishes.of_leaves

/-! ### The operations -/

namespace Engine

/-- A program that at most puts objects up leaves the store. -/
theorem store_of_besideCold (leaves : Leaves besideCold p) : Leaves World.store p :=
  leaves.map World.store

variable (engine : Engine)

/-- The parts that an ingest of this engine builds satisfy `built`. -/
def Makes (built : Part → Prop) : Prop :=
  ∀ tokenizer ordinal encryption, engine.tenantTokenizer = .ok tokenizer →
    engine.partEncryptionFor ordinal 1 = .ok encryption → ∀ shape key seq rows nowMs part,
      buildPart shape ⟨some key, engine.config.promote, {}, encryption, tokenizer⟩ seq rows nowMs =
        .ok part → built part

theorem Makes.any : engine.Makes fun _ => True :=
  fun _ _ _ _ _ _ _ _ _ _ _ _ => trivial

section Ingest

variable {engine : Engine} (made : engine.Makes built)
include made

theorem writePartition_stages (g : Generation) (item : Nat × PartitionKey × List RowIn) :
    Stages built snap (engine.writePartition g nowMs item) := by
  intro start
  obtain ⟨seq, key, rows⟩ := item
  refine Triple.bind (Observes.ofExcept.triple fun _ before => before.1) fun tokenizer =>
    Triple.assume fun resolved => ?_
  refine Triple.bind (Observes.ofExcept.triple fun _ before => before.1) fun encryption =>
    Triple.assume fun minted => ?_
  refine Triple.bind (Stages.writePart (fun part ok => ?_) start) fun _ =>
    Stages.of_leaves Leaves.pure start
  exact made tokenizer _ encryption resolved minted _ key seq rows nowMs part ok

theorem writeAndCommit_finishes (g : Generation) (embedded : List (Event × Vector32))
    (dead : List DeadLetter) (trained : Bool) (applied : Option Nat) :
    Finishes built snap (engine.writeAndCommit snap g embedded dead trained nowMs applied) := by
  refine Finishes.bind (Stages.of_leaves (writeDeadLetters_leaves (fun _ _ => rfl) dead)) fun _ => ?_
  split
  · exact Finishes.pure
  · refine Finishes.bind (Stages.looks Observes.ofExcept) fun rows => ?_
    refine Finishes.bind (Stages.each (writePartition_stages made g) _) fun refs => ?_
    refine Finishes.bind (Stages.of_leaves (store_of_besideCold
      (Leaves.each publishPartCold_leaves))) fun _ => ?_
    refine Finishes.bind (Stages.looks (assertWriteOwner_spec engine)) fun _ => ?_
    refine Finishes.bind (Stages.of_leaves (store_of_besideCold
      (mirrorSnapshot_leaves snap))) fun _ => ?_
    exact Finishes.then_leaves Finishes.commitMeta fun committed =>
      Leaves.bind (store_of_besideCold (mirrorSnapshot_leaves committed)) fun _ => Leaves.pure

theorem ingestInner_publishes (events : List Event) (nowMs : Int) (applied : Option Nat)
    (preflightModel : Bool) :
    Publishes built (engine.ingestInner events nowMs applied preflightModel) :=
  engine.ingestInner_reads Publishes.of_snapshot (fun leaves => Finishes.bind (Stages.of_leaves leaves))
    (writeDeadLetters_leaves fun _ _ => rfl) (Finishes.bind Stages.putGeneration) Finishes.pure
    fun _ g _ _ trained => writeAndCommit_finishes made g _ _ trained applied

end Ingest

def Remakes (built : Part → Prop) : Prop :=
  ∀ tokenizer shape key seq rows nowMs part,
    buildPart shape ⟨some key, engine.config.promote, {}, none, tokenizer⟩ seq rows nowMs =
      .ok part → built part

theorem Remakes.any : engine.Remakes fun _ => True :=
  fun _ _ _ _ _ _ _ _ => trivial

theorem merge_publishes (made : engine.Remakes built) : Publishes built (engine.merge free nowMs) :=
  (accessPhases built).merge (fun key tokenizer shape => made tokenizer shape key)
    (fun _ _ => trivial) free nowMs

theorem mergeTiered_publishes (made : engine.Remakes built) :
    Publishes built (engine.mergeTiered free nowMs) :=
  (accessPhases built).mergeTiered (fun key tokenizer shape => made tokenizer shape key)
    (fun _ _ => trivial) free nowMs

end Engine

end Prism
