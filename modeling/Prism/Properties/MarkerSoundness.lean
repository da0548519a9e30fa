import Prism.Properties.Ingestion

/-!
The marker of the committed snapshot against the admission log: which durable records recovery may
skip and compaction may delete.
-/

namespace Prism

open CrashLogic Store World

namespace World

/-- A part of some snapshot on the chain of `CURRENT` holds the event, or the dead-letter log
does. -/
def Accounted (w : World) (e : Event) : Prop :=
  (∃ snap ∈ w.store.chain, ∃ row ∈ w.store.rowsOf snap.parts, row.event = e) ∨ w.DeadLettered e

instance (w : World) (e : Event) : Decidable (w.DeadLettered e) :=
  inferInstanceAs (Decidable (∃ letter ∈ w.deadLetters, letter.event = e))

instance (w : World) (e : Event) : Decidable (w.Accounted e) :=
  inferInstanceAs (Decidable ((∃ snap ∈ w.store.chain,
    ∃ row ∈ w.store.rowsOf snap.parts, row.event = e) ∨ w.DeadLettered e))

theorem Settled.accounted {w : World} {e : Event} (settled : w.Settled e) : w.Accounted e := by
  refine settled.imp_left ?_
  rintro ⟨row, mem, own⟩
  unfold headRows at mem
  split at mem
  next snap head =>
    refine ⟨snap, mem_chain_of_current (fun absent => ?_) head, row, mem, own⟩
    -- Without `CURRENT` the head is the empty snapshot, which has no rows.
    obtain rfl : snap = Snapshot.empty := by
      simpa [Catalog.currentIn, absent, eq_comm] using head
    simp [rowsOf, Snapshot.empty] at mem
  · simp at mem

def RecordSettled (w : World) (r : WalRecord) : Prop := ∀ e ∈ r.events, w.Settled e

theorem Settled.stopped {start w : World} {events : List Event} {applied : Option Nat} {e : Event}
    (settled : start.Settled e) (intact : start.store.Intact)
    (stopped : Stopped events applied start w) (clean : w.store.clashed = false) : w.Settled e := by
  rcases stopped with quiet | commits
  · rcases settled with ⟨row, mem, own⟩ | ⟨letter, mem, own⟩
    · exact .inl ⟨row, quiet.store.headRows intact ▸ mem, own⟩
    · exact .inr ⟨letter, quiet.letters.subset mem, own⟩
  · rcases settled with ⟨row, mem, own⟩ | ⟨letter, mem, own⟩
    · obtain ⟨new, rows, _⟩ := commits.rows clean
      exact .inl ⟨row, rows ▸ List.mem_append_left _ mem, own⟩
    · exact .inr ⟨letter, commits.letters.subset mem, own⟩

theorem Stopped.clean {start w : World} {events : List Event} {applied : Option Nat}
    (stopped : Stopped events applied start w) (clean : w.store.clashed = false) :
    start.store.clashed = false := by
  cases before : start.store.clashed with
  | false => rfl
  | true =>
    have after := stopped.elim (fun quiet => quiet.store.clashed before)
      (fun commits => commits.clashed before)
    simp [after] at clean

end World

/-! ### The invariant -/

/-- The record has not been reached by the marker, and no other durable record is above it. -/
structure Pending (w : World) (r : WalRecord) : Prop where
  unmarked : ∀ m, w.store.marker = some m → m < r.recordId
  last : ∀ x ∈ w.wal.durable, x = r ∨ x.recordId < r.recordId

/-- Every durable record is settled or pending, as long as no part was written over another. -/
structure MarkerSound (w : World) : Prop where
  intact : w.store.Intact
  records : w.store.clashed = false → ∀ r ∈ w.wal.durable, w.RecordSettled r ∨ Pending w r

namespace MarkerSound

theorem fresh : MarkerSound World.fresh := ⟨intact_fresh, by simp [World.fresh, WalState.fresh]⟩

/-- Changes beside the store, the letters and the durable records do not matter. -/
theorem congr {w w' : World} (sound : MarkerSound w) (ledger : w'.ledger = w.ledger)
    (durable : w'.wal.durable = w.wal.durable) : MarkerSound w' := by
  have store : w'.store = w.store := (Prod.mk.inj ledger).1
  refine ⟨store ▸ sound.intact, fun clean r mem => ?_⟩
  refine (sound.records (store ▸ clean) r (durable ▸ mem)).imp
    (fun settled e inside => (settled e inside).of_ledger ledger) fun pending => ?_
  exact ⟨store ▸ pending.unmarked, durable ▸ pending.last⟩

theorem prepared {start w : World} (sound : MarkerSound start)
    (prepared : Ingestor.Prepared start w) : MarkerSound w := by
  refine ⟨prepared.store ▸ sound.intact, fun clean r mem => ?_⟩
  refine (sound.records (prepared.store ▸ clean) r (prepared.wal ▸ mem)).imp
    (fun settled e inside => (settled e inside).stopped sound.intact
      (.inl prepared.quiet : Stopped [] none start w) clean)
    fun pending => ?_
  exact ⟨prepared.store ▸ pending.unmarked, prepared.wal ▸ pending.last⟩

/-- Publishing a durable record moves the marker to an id no pending record is below. -/
theorem publishing {start w : World} {r : WalRecord} (sound : MarkerSound start)
    (mem : r ∈ start.wal.durable) (publishing : Ingestor.Publishing r start w) : MarkerSound w := by
  have wal : w.wal = start.wal := congrArg Ingestor.Logs.wal publishing.logs
  refine ⟨?_, fun clean x inside => ?_⟩
  · exact publishing.stopped.elim (fun quiet => quiet.store.intact sound.intact) Commits.intact
  · rw [wal] at inside
    rcases sound.records (publishing.stopped.clean clean) x inside with settled | pending
    · exact .inl fun e own => (settled e own).stopped sound.intact publishing.stopped clean
    · rcases publishing.stopped with quiet | commits
      · exact .inr ⟨quiet.store.marker ▸ pending.unmarked, wal ▸ pending.last⟩
      · rcases pending.last r mem with rfl | below
        · exact .inl (commits.settled clean)
        · refine .inr ⟨fun m marked => ?_, wal ▸ pending.last⟩
          rw [commits.marker] at marked
          exact Option.some.inj marked ▸ below

/-- Appending a record above everything else, when all the others are settled. -/
theorem append {start w : World} {r : WalRecord} (sound : MarkerSound start)
    (settled : start.store.clashed = false → ∀ x ∈ start.wal.durable, start.RecordSettled x)
    (unmarked : ∀ m, start.store.marker = some m → m < r.recordId)
    (above : ∀ x ∈ start.wal.durable, x.recordId < r.recordId) (quiet : Quiet start w)
    (durable : w.wal.durable = start.wal.durable ++ [r]) : MarkerSound w := by
  have stopped : Stopped [] none start w := .inl quiet
  refine ⟨quiet.store.intact sound.intact, fun clean x inside => ?_⟩
  rcases List.mem_append.mp (durable ▸ inside) with earlier | last
  · exact .inl fun e own =>
      (settled (stopped.clean clean) x earlier e own).stopped sound.intact stopped clean
  · obtain rfl := List.mem_singleton.mp last
    refine .inr ⟨quiet.store.marker ▸ unmarked, fun y mem => ?_⟩
    rcases List.mem_append.mp (durable ▸ mem) with earlier | last
    · exact .inr (above y earlier)
    · exact .inl (List.mem_singleton.mp last)

end MarkerSound

/-! ### Runs of one store -/

/-- What can happen to a store; every call comes with the faults it meets. -/
inductive IngestorOp where
  | ingest (ing : Ingestor) (events : List Event) (source : Option String)
      (nextOffset : Option Nat) (nowMs : Int) (faults : List Fault)
  | recover (ing : Ingestor) (nowMs : Int) (faults : List Fault)
  | restart

namespace IngestorOp

def step (w : World) : IngestorOp → World
  | .ingest ing events source nextOffset nowMs faults =>
    (ing.ingest events source nextOffset nowMs faults w).2.2
  | .recover ing nowMs faults => (ing.recover nowMs faults w).2.2
  | .restart => { w with quotas := QuotaEnforcer.fresh }

/-- An ingest starts when every durable record above the marker is settled, and takes an id above
the marker and above them all. A recovery reads only records that were appended. -/
def Orderly (w : World) : IngestorOp → Prop
  | .ingest ing _ _ _ _ _ =>
    (∀ r ∈ w.wal.durable, (∀ m, w.store.marker = some m → m < r.recordId) → w.RecordSettled r) ∧
      ∀ id, ing.Chooses w id → (∀ m, w.store.marker = some m → m < id) ∧
        ∀ r ∈ w.wal.durable, r.recordId < id
  | .recover ing _ _ => ∀ r, ing.Reads w r → r ∈ w.wal.durable
  | .restart => True

end IngestorOp

theorem ingest_markerSound {start w : World} (sound : MarkerSound start) {ing : Ingestor}
    {events : List Event} {source : Option String} {nextOffset : Option Nat} {nowMs : Int}
    (settled : ∀ r ∈ start.wal.durable, (∀ m, start.store.marker = some m → m < r.recordId) →
      start.RecordSettled r)
    (newest : ∀ id, ing.Chooses start id → (∀ m, start.store.marker = some m → m < id) ∧
      ∀ r ∈ start.wal.durable, r.recordId < id)
    (reached : ing.Reaches events source nextOffset nowMs start w) : MarkerSound w := by
  have allSettled : start.store.clashed = false →
      ∀ r ∈ start.wal.durable, start.RecordSettled r := fun clean r mem =>
    (sound.records clean r mem).elim id fun pending => settled r mem pending.unmarked
  -- Once its record is durable, it is the one record that may be pending.
  have logged : ∀ {screened : Ingestor.Screened} {r : WalRecord} {w : World},
      ing.Logged events source nextOffset nowMs start screened r w →
        MarkerSound w ∧ r ∈ w.wal.durable := by
    intro screened r w logged
    obtain ⟨unmarked, above⟩ := newest r.recordId logged.chosen
    exact ⟨sound.append allSettled unmarked above logged.quiet logged.durable,
      by simp [logged.durable]⟩
  cases reached with
  | screening prepared same _ =>
    exact (sound.prepared prepared).congr (congrArg Ingestor.Essence.ledger same)
      (congrArg Ingestor.Essence.durable same)
  | moved screening _ _ _ => exact (sound.prepared screening.prepared).congr rfl rfl
  | logged here => exact (logged here).1
  | publishing here publishing same _ =>
    obtain ⟨soundHere, inside⟩ := logged here
    exact (soundHere.publishing inside publishing).congr (congrArg Ingestor.Essence.ledger same)
      (congrArg Ingestor.Essence.durable same)

theorem recover_markerSound {start : World} (sound : MarkerSound start) (ing : Ingestor)
    (appended : ∀ r, ing.Reads start r → r ∈ start.wal.durable) (nowMs : Int) :
    Triple (· = start) (ing.recover nowMs) (fun _ => MarkerSound) MarkerSound := by
  have kept := ing.recover_keeps nowMs
    (I := fun w => MarkerSound w ∧ w.wal.durable = start.wal.durable) ⟨sound, rfl⟩
    (fun _ h => h.1.intact) ?_ ?_ ?_
  · exact kept.conseq (fun _ h => h) (fun _ _ h => h.1) fun _ h => h.1
  · intro w w' ⟨here, durable⟩ ledger logs
    have same : w'.wal.durable = w.wal.durable := congrArg (·.wal.durable) logs
    exact ⟨here.congr ledger same, same.trans durable⟩
  · intro r w w' read ⟨here, durable⟩ publishing
    exact ⟨here.publishing (durable ▸ appended r read) publishing,
      (congrArg (·.wal.durable) publishing.logs).trans durable⟩
  · intro w wal ⟨here, durable⟩ same _
    exact ⟨here.congr rfl same, same.trans durable⟩

theorem IngestorOp.step_markerSound (w : World) (op : IngestorOp) (orderly : op.Orderly w)
    (sound : MarkerSound w) : MarkerSound (op.step w) := by
  cases op with
  | ingest ing events source nextOffset nowMs faults =>
    exact ingest_markerSound sound orderly.1 orderly.2
      ((ing.ingest_spec events source nextOffset nowMs sound.intact).after (fun _ _ h => h.1) rfl
        faults)
  | recover ing nowMs faults =>
    exact (recover_markerSound sound ing orderly nowMs).after (fun _ _ h => h) rfl faults
  | restart => exact sound.congr rfl rfl

/-- In every such run, every durable record that recovery would skip has all its events in a part
of the chain or in the dead-letter log. -/
theorem marker_sound (ops : List IngestorOp)
    (orderly : Meets IngestorOp.step IngestorOp.Orderly World.fresh ops)
    (clean : (ops.foldl IngestorOp.step World.fresh).store.clashed = false) :
    ∀ r ∈ (ops.foldl IngestorOp.step World.fresh).wal.durable,
      Ingestor.isApplied (ops.foldl IngestorOp.step World.fresh).store.marker r = true →
        ∀ e ∈ r.events, (ops.foldl IngestorOp.step World.fresh).Accounted e := by
  intro r mem applied e own
  have sound := invariant_run IngestorOp.step_markerSound ops World.fresh MarkerSound.fresh orderly
  rcases sound.records clean r mem with settled | pending
  · exact (settled e own).accounted
  · unfold Ingestor.isApplied at applied
    split at applied
    next m marked => exact absurd (pending.unmarked m marked) (by simpa using applied)
    · simp at applied

def sampleEmbedder (modelId modelVersion : String) : Embedder where
  modelId := modelId
  modelVersion := modelVersion
  embedBatchScoped inputs := inputs.map fun _ => .ok [0, 0]
  embedScoped _ := .ok [0, 0]

def samplePlane : ModelPlane where
  embedder modelId modelVersion := .ok (sampleEmbedder modelId modelVersion)
  candidateEmbedder modelId modelVersion := .ok (sampleEmbedder modelId modelVersion)
  defaultEmbedder := .ok (sampleEmbedder "m" "v")
  preflight _ _ inputs := inputs.map fun _ => .ok ()
  train _ _ := .ok ⟨"g", "m", "v", []⟩
  retrain model _ _ := .ok ⟨s!"g-{model.modelVersion}", model.modelId, model.modelVersion, []⟩
  assign _ _ := 0
  encode _ _ := .ok [0]

def sampleEngine : Engine where
  config := ⟨2, 1, 16384, ⟨1, 86400000, ∅⟩, []⟩
  plane := samplePlane
  keys := none
  tenantTokenizer := .ok none
  draws := ⟨fun _ => [], fun _ _ _ => []⟩
  ownerEpoch := 0

def sampleIngestor : Ingestor := ⟨sampleEngine, sampleCodec, false⟩

/-- The eleventh access of the first ingest of a store renames its part into place. -/
def partWriteFails : List Fault := List.replicate 10 .proceed ++ [.fail 0]

/-- A publication that fails, and a recovery after the restart. -/
def recoveredRun : List IngestorOp :=
  [.ingest sampleIngestor [sampleEvent "e1"] none none 1000 partWriteFails,
   .restart,
   .recover sampleIngestor 1000 []]

set_option maxRecDepth 100000

theorem marker_sound_recovered :
    (recoveredRun.foldl IngestorOp.step World.fresh).Accounted (sampleEvent "e1") := by
  have final : (recoveredRun.foldl IngestorOp.step World.fresh).store.clashed = false ∧
      (recoveredRun.foldl IngestorOp.step World.fresh).wal.durable = [sampleRecord 0 "e1"] ∧
      (recoveredRun.foldl IngestorOp.step World.fresh).store.marker = some 0 := by
    decide +kernel
  have logged : Wal.readAllIn sampleCodec
      ((recoveredRun.take 2).foldl IngestorOp.step World.fresh).wal.file =
        .ok [sampleRecord 0 "e1"] ∧
      ((recoveredRun.take 2).foldl IngestorOp.step World.fresh).wal.durable =
        [sampleRecord 0 "e1"] := by
    decide +kernel
  refine marker_sound recoveredRun ⟨⟨nofun, fun id _ => ⟨nofun, nofun⟩⟩, trivial, ?_, trivial⟩
    final.1 (sampleRecord 0 "e1") (by simp [final.2.1]) (by rw [final.2.2]; rfl) _
    (List.mem_singleton.mpr rfl)
  rintro r (⟨all, read, mem⟩ | ⟨replicated, _⟩)
  · obtain rfl := Fallible.ok_unique logged.1 read
    exact logged.2 ▸ mem
  · exact absurd replicated (by decide)

/-- A publication that fails, and the next ingest. -/
def skippedRun : List IngestorOp :=
  [.ingest sampleIngestor [sampleEvent "e1"] none none 1000 partWriteFails,
   .ingest sampleIngestor [sampleEvent "e2"] none none 1000 []]

/-- The marker of the second record covers the first one, whose event is nowhere. -/
theorem marker_skips_failed_record :
    sampleRecord 0 "e1" ∈ (skippedRun.foldl IngestorOp.step World.fresh).wal.durable ∧
      Ingestor.isApplied (skippedRun.foldl IngestorOp.step World.fresh).store.marker
        (sampleRecord 0 "e1") = true ∧
      ¬ (skippedRun.foldl IngestorOp.step World.fresh).Accounted (sampleEvent "e1") := by
  decide +kernel

end Prism
