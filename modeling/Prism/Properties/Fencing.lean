import Prism.Lib.Interleaving
import Prism.Properties.MarkerSoundness
import Prism.Properties.OperationPhases

/-!
The write fence against an owner that was overtaken: what a superseded engine can still do to
`CURRENT` while others work on the same store directory and object store.
-/

namespace Prism

open CrashLogic World

variable {engine : Engine} {nowMs : Int}

/-! ### No operation gives an epoch back -/

def asidePhases : Phases aside (fun _ => True) (fun _ _ => True) where
  Stages _ := Leaves aside
  Finishes _ := Leaves aside
  Publishes := Leaves aside
  leaves leaves := leaves
  bind := Leaves.bind
  writePart _ := Engine.onStore_aside _
  finishes leaves := leaves
  onward := Leaves.bind
  commit _ _ := Engine.onStore_aside _
  after := Leaves.bind
  published leaves := leaves
  snapshot := Leaves.bind (Engine.onStore_aside _)
  looking := Leaves.bind

theorem Operation.prog_aside (op : Operation) : Leaves aside (op.prog engine nowMs) := by
  have discard {α : Type} {p : Io α} (leaves : Leaves aside p) :
      Leaves aside (p >>= fun _ => pure ()) := Leaves.bind leaves fun _ => Leaves.pure
  have recorded (w : World) : w.unrecorded.aside = w.aside := rfl
  have own (_ : Snapshot) : True := trivial
  have named (_ : Snapshot) (_ : List PartEntry) : True := trivial
  have merged (_ : PartitionKey) (_ : Option TenantTokenizer) : True := trivial
  have made (_ : PartitionKey) (_ : S5Ext) (_ : Option TenantTokenizer) : True := trivial
  cases op with
  | ingest events applied preflight =>
    exact discard (engine.ingestInner_aside events nowMs applied preflight)
  | delete eventIds => exact discard (asidePhases.delete own eventIds nowMs)
  | merge free => exact discard (asidePhases.merge merged named free nowMs)
  | mergeTiered free => exact discard (asidePhases.mergeTiered merged named free nowMs)
  | rollback toId => exact discard (asidePhases.rollback named toId nowMs)
  | reembed newVersion => exact discard (asidePhases.reembed merged named recorded newVersion nowMs)
  | baselineBuild env tenant generationId =>
    exact discard (asidePhases.baselineBuild own recorded engine env tenant generationId nowMs)
  | create modelVersion =>
    exact discard (asidePhases.generationCreate own recorded engine modelVersion nowMs)
  | promote genId => exact discard (asidePhases.generationPromote own genId nowMs)
  | canary genId maxPartitions =>
    exact discard (asidePhases.generationCanary made named genId maxPartitions nowMs)
  | migrate genId maxPartitions =>
    exact discard (asidePhases.generationMigrate made named genId maxPartitions nowMs)
  | retire genId => exact discard (asidePhases.generationRetire own recorded genId nowMs)
  | bridge fromSpace toSpace validation =>
    exact discard (asidePhases.bridgeDeclare own fromSpace toSpace validation nowMs)
  | redact beforeMs reason =>
    exact discard (asidePhases.redactBodies made named beforeMs reason nowMs)

/-! ### The fence -/

def World.head (w : World) : Option SnapshotId × BTreeMap SnapshotId Snapshot × BTreeMap Nat String :=
  (w.store.current, w.store.snapshots, w.objects.owners)

namespace Engine

variable {α β : Type}

/-- The rest of what an engine is doing, paused somewhere, in which everything that touches
`CURRENT` comes after a check of the engine's ownership that has not been made yet. -/
inductive BeforeFence (engine : Engine) : Io α → Prop
  | ret (a : α) : BeforeFence engine (.ret a)
  | raise (e : PrismError) : BeforeFence engine (.raise e)
  | stop : BeforeFence engine .stop
  | fence (next : Unit → Io α) : BeforeFence engine (engine.assertWriteOwner >>= next)
  | access {effect : Fault → World → World} {next : Fault → World → Io α} :
      (∀ fault w, (effect fault w).head = w.head) →
      (∀ fault w, BeforeFence engine (next fault w)) → BeforeFence engine (.access effect next)
  | mark {f : World → World} {next : Io α} :
      (∀ w, (f w).head = w.head) → BeforeFence engine next → BeforeFence engine (.mark f next)

namespace BeforeFence

variable {engine : Engine}

theorem bind {p : Io α} {f : α → Io β} (first : Leaves World.head p)
    (next : ∀ a, BeforeFence engine (f a)) : BeforeFence engine (p >>= f) := by
  induction p with
  | ret a => exact next a
  | raise e => exact .raise e
  | stop => exact .stop
  | access effect rest ih =>
    exact .access (fun fault w => (first fault w trivial).1) fun fault w =>
      ih fault w (first fault w trivial).2
  | mark g rest ih => exact .mark (fun w => first.1 w trivial) (ih first.2)

/-- An operation whose report is dropped. -/
theorem discard {p : Io α} (before : BeforeFence engine p) :
    BeforeFence engine (p >>= fun _ => pure ()) := by
  induction before with
  | ret a => exact .ret ()
  | raise e => exact .raise e
  | stop => exact .stop
  | fence next =>
    rw [bind_assoc]
    exact .fence _
  | access quiet _ ih => exact .access quiet ih
  | mark quiet _ ih => exact .mark quiet ih

end BeforeFence

/-! ### Ingest checks its ownership before it commits -/

section Ingest

variable (engine : Engine)

theorem onStore_head {p : StoreProg α} (leaves : Leaves (fun s => (s.current, s.snapshots)) p) :
    Leaves World.head (onStore p) :=
  Leaves.inside leaves fun store w same => by
    simp only [World.head]
    rw [(Prod.mk.inj same).1, (Prod.mk.inj same).2]

theorem writePartition_head (g : Generation) (item : Nat × PartitionKey × List RowIn) :
    Leaves World.head (engine.writePartition g nowMs item) := by
  refine Leaves.bind Leaves.ofExcept fun _ => Leaves.bind Leaves.ofExcept fun _ => ?_
  refine Leaves.bind (onStore_head (Leaves.bind Leaves.ofExcept fun part => ?_)) fun _ =>
    Leaves.pure
  refine Leaves.bind (Leaves.replace fun store => ?_) fun _ => Leaves.pure
  unfold Catalog.putPart
  split <;> rfl

variable (snap : Snapshot)

theorem writeAndCommit_beforeFence (g : Generation) (embedded : List (Event × Vector32))
    (dead : List DeadLetter) (trained : Bool) (applied : Option Nat) :
    BeforeFence engine (engine.writeAndCommit snap g embedded dead trained nowMs applied) := by
  refine BeforeFence.bind (writeDeadLetters_leaves (fun _ _ => rfl) dead) fun _ => ?_
  split
  · exact .ret _
  · refine BeforeFence.bind Leaves.ofExcept fun rows => ?_
    refine BeforeFence.bind (Leaves.each (writePartition_head engine g)) fun refs => ?_
    refine BeforeFence.bind ((Leaves.each publishPartCold_leaves).map World.head) fun _ => ?_
    exact .fence _

/-- An ingest has its check ahead when it starts, and with every access until it makes it. -/
theorem ingestInner_beforeFence (events : List Event) (applied : Option Nat)
    (preflightModel : Bool) :
    BeforeFence engine (engine.ingestInner events nowMs applied preflightModel) :=
  engine.ingestInner_reads (BeforeFence.bind (snapshot_spec.leaves _)) BeforeFence.bind
    (writeDeadLetters_leaves fun _ _ => rfl)
    (BeforeFence.bind (Phases.replaces (fun _ => rfl) (putGenerationIn_unrecorded _))) (.ret _)
    fun snap g _ _ trained => writeAndCommit_beforeFence engine snap g _ _ trained applied

end Ingest

/-! ### A superseded engine -/

def Superseded (engine : Engine) (w : World) : Prop :=
  engine.ownerEpoch < highestEpoch w.objects.owners

/-- With its check ahead, a superseded engine leaves `CURRENT` alone from here on. -/
theorem BeforeFence.guarantees {engine : Engine} (owns : engine.ownerEpoch ≠ 0) {p : Io α}
    (before : BeforeFence engine p) :
    Guarantees engine.Superseded (fun w w' => w'.head = w.head) p := by
  induction before with
  | ret a | raise e | stop => trivial
  | fence next =>
    have check : engine.assertWriteOwner = Prog.read deviceError _ := if_neg owns
    rw [check]
    intro fault w superseded
    refine ⟨rfl, ?_⟩
    cases fault with
    | proceed =>
      -- The check reads the later epoch and refuses.
      have refused : highestEpoch w.objects.owners > engine.ownerEpoch := superseded
      simp only [if_pos refused]
      trivial
    | fail _ | crash _ => trivial
  | access quiet _ ih => exact fun fault w _ => ⟨quiet fault w, ih fault w⟩
  | mark quiet _ ih => exact ⟨fun w _ => quiet w, ih⟩

theorem le_highestEpoch {owners : BTreeMap Nat String} {epoch : Nat}
    (recorded : owners.contains epoch) : epoch ≤ highestEpoch owners := by
  have bound : ∀ (epochs : List Nat) (start : Nat),
      start ≤ epochs.foldl max start ∧ ∀ e ∈ epochs, e ≤ epochs.foldl max start := by
    intro epochs
    induction epochs with
    | nil => simp
    | cons first rest ih =>
      intro start
      obtain ⟨kept, below⟩ := ih (max start first)
      refine ⟨(le_max_left _ _).trans kept, fun e listed => ?_⟩
      rcases List.mem_cons.mp listed with rfl | later
      · exact (le_max_right _ _).trans kept
      · exact below e later
  refine (bound owners.keys 0).2 epoch ?_
  rw [Std.ExtTreeMap.mem_keys]
  exact recorded

end Engine

/-- An engine that was overtaken, and the one that overtook it. -/
inductive Writer where
  | old
  | new
  deriving DecidableEq, Repr

structure Call where
  engine : Engine
  nowMs : Int
  op : Operation

def Call.prog (c : Call) : Io Unit := c.op.prog c.engine c.nowMs

/-- **Operations keep out of admission.** However the calls of any number of engines on one store are
interleaved, under any faults, what admission decides by and the ownership records stay. -/
theorem operations_leave_admission {ι : Type} [DecidableEq ι] (calls : ι → List Call) (w : World)
    (moves : List (ι × Fault)) :
    (Threads.run ⟨fun i => Prog.session ((calls i).map Call.prog), w⟩ moves).state.aside = w.aside := by
  have agree : Threads.Agree (aside · = w.aside) fun (_ : ι) a b => aside b = a.aside :=
    ⟨fun _ _ => rfl, fun _ _ _ _ first second => second.trans first,
      fun _ _ _ same changes => changes.trans same⟩
  refine (agree.run rfl (fun i => Guarantees.session fun p listed => ?_) moves).1
  obtain ⟨call, _, rfl⟩ := List.mem_map.mp listed
  exact call.op.prog_aside.mono (fun _ _ => trivial) fun _ _ _ same => same

/-- The old engine finishes what it was doing and goes on with what it is called for, while the new
one works on the same store and object store. -/
def writers (running : List (Io Unit)) (calls : List Call) (w : World) :
    Threads Writer World PrismError (List (Result Unit)) where
  prog
    | .old => Prog.session running
    | .new => Prog.session (calls.map Call.prog)
  state := w

/-- What each of the two may change while the old one is superseded. -/
def WriterChanges : Writer → World → World → Prop
  | .old, w, w' => w'.head = w.head
  | .new, w, w' => w'.objects.owners = w.objects.owners

theorem writers_agree : Threads.Agree engine.Superseded WriterChanges where
  refl writer w := by cases writer <;> rfl
  trans writer a b c first second := by
    cases writer with
    | old | new => exact second.trans first
  stable writer w w' superseded changes := by
    have owners : w'.objects.owners = w.objects.owners := by
      cases writer with
      | old => exact congrArg (·.2.2) changes
      | new => exact changes
    unfold Engine.Superseded at *
    rwa [owners]

/-- Once a later epoch is recorded, no access of an engine whose checks are still ahead changes
what `CURRENT` names, however its accesses and those of the later owner are interleaved. -/
theorem superseded_writer_keeps_current (engine : Engine) (owns : engine.ownerEpoch ≠ 0)
    (running : List (Io Unit)) (before : ∀ p ∈ running, engine.BeforeFence p) (calls : List Call)
    (w : World) (epoch : Nat) (recorded : w.objects.owners.contains epoch)
    (later : engine.ownerEpoch < epoch) (moves : List (Writer × Fault)) (fault : Fault) :
    let paused := (writers running calls w).run moves
    let stepped := paused.step (.old, fault)
    stepped.state.store.current = paused.state.store.current ∧
      Catalog.currentIn stepped.state.store = Catalog.currentIn paused.state.store := by
  intro paused stepped
  have superseded : engine.Superseded w := later.trans_le (Engine.le_highestEpoch recorded)
  have start : ∀ writer, Guarantees engine.Superseded (WriterChanges writer)
      ((writers running calls w).prog writer) := by
    intro writer
    cases writer with
    | old => exact Guarantees.session fun p listed => (before p listed).guarantees owns
    | new =>
      refine Guarantees.session fun p listed => ?_
      obtain ⟨call, _, rfl⟩ := List.mem_map.mp listed
      exact call.op.prog_aside.mono (fun _ _ => trivial)
        fun _ _ _ same => congrArg Aside.owners same
  obtain ⟨holds, going⟩ := writers_agree.run superseded start moves
  have same : stepped.state.head = paused.state.head :=
    (writers_agree.step holds going (.old, fault)).1
  have current : stepped.state.store.current = paused.state.store.current := congrArg (·.1) same
  have snapshots : stepped.state.store.snapshots = paused.state.store.snapshots :=
    congrArg (·.2.1) same
  refine ⟨current, ?_⟩
  simp only [Catalog.currentIn, Catalog.loadSnapshotIn, current, snapshots]

def owner (epoch : Nat) : Engine := { sampleEngine with ownerEpoch := epoch }

def overtaken : World :=
  { World.fresh with objects := { World.fresh.objects with
      owners := (∅ : BTreeMap Nat String).insert 1 "4242-0" |>.insert 2 "4243-0" } }

def staleIngest : Io Unit := (Operation.ingest [sampleEvent "e1"] none false).prog (owner 1) 1000

/-- The new owner deletes while the old one is on its way to its check, and the old one goes on. -/
def overtakingMoves : List (Writer × Fault) :=
  List.replicate 4 (.old, .proceed) ++ List.replicate 3 (.new, .proceed) ++
    List.replicate 4 (.old, .proceed)

theorem superseded_ingest_keeps_current :
    (owner 1).BeforeFence staleIngest ∧
      let paused := (writers [staleIngest] [⟨owner 2, 1000, .delete ["e0"]⟩] overtaken).run
        overtakingMoves
      (paused.step (.old, .proceed)).state.store.current = paused.state.store.current := by
  have before : (owner 1).BeforeFence staleIngest :=
    ((owner 1).ingestInner_beforeFence _ _ _).discard
  refine ⟨before, ?_⟩
  exact (superseded_writer_keeps_current (owner 1) (by decide) [staleIngest]
    (fun p listed => List.mem_singleton.mp listed ▸ before) _ overtaken 2 (by decide +kernel)
    (by decide) overtakingMoves .proceed).1

def firstOwner : World :=
  { World.fresh with objects := { World.fresh.objects with
      owners := (∅ : BTreeMap Nat String).insert 1 "4242-0" } }

/-- The ingest of the first owner, paused behind its check. -/
def pastFence : Threads Writer World PrismError (List (Result Unit)) :=
  (writers [staleIngest] [] firstOwner).run (List.replicate 8 (.old, .proceed))

/-- The same ingest once the second owner has acquired its epoch. -/
def pausedIngest : Threads Writer World PrismError (List (Result Unit)) :=
  ⟨pastFence.prog, (Engine.acquire "4243-0" [] pastFence.state).2.2⟩

/-- A delete of the first owner, which is not fenced at all. -/
def staleDelete : Threads Writer World PrismError (List (Result Unit)) :=
  writers [(Operation.delete ["e0"]).prog (owner 1) 1000] [] overtaken

set_option maxRecDepth 100000 in
/-- Two ways in which an engine of the first epoch moves `CURRENT` after the second was acquired:
an ingest that was paused between its check and its commit, and a delete. -/
theorem superseded_writers_commit :
    (Engine.acquire "4243-0" [] pastFence.state).1 = .ok 2 ∧
      pausedIngest.state.store.current = none ∧
      (pausedIngest.run (List.replicate 3 (.old, .proceed))).state.store.current = some 1 ∧
      staleDelete.state.store.current = none ∧
      (staleDelete.run (List.replicate 3 (.old, .proceed))).state.store.current = some 1 := by
  decide +kernel

end Prism
