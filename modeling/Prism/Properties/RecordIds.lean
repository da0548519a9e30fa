import Prism.Properties.Recovery

/-!
The three counters behind a record id: the ids in the log, the allocator file and the marker of
the committed snapshot, through appends, crashes, recoveries and compactions.
-/

namespace Prism

open CrashLogic Store World

variable {faults : List Fault}

/-! ### One append -/

/-- The faults do not stop an append between the last byte of its frame and the replacement of the
allocator file. Its accesses are: read the allocator, write the frame, replace the allocator. -/
def reachesAllocator (frameLength : Nat) (faults : List Fault) : Bool :=
  match faults.tail.headD .proceed with
  | .fail n => n < frameLength
  | .crash n => n < frameLength
  | .proceed =>
    match faults.tail.tail.headD .proceed with
    | .fail n => n ≠ 0
    | .crash n => n ≠ 0
    | .proceed => true

variable {codec : WalCodec} {faults : List Fault} {r : WalRecord}

/-- An append that is not stopped in that gap leaves the counters alone or moves them together. -/
theorem appendRecord_counters (wal : WalState) (bounded : r.recordId + 1 < 2 ^ 64)
    (reaches : ∀ json, codec.encode r = .ok json → reachesAllocator (FrameLog.frame crc32
      json).length faults = true) : let wal' := (Wal.appendRecord codec r faults wal).2.2
    (wal'.durable = wal.durable ∧ wal'.applied = wal.applied) ∨
      (wal.nextId ≤ r.recordId ∧ wal'.durable = wal.durable ++ [r] ∧
        wal'.applied = some (r.recordId + 1)) := by
  unfold Wal.appendRecord
  cases read : faults.headD .proceed with
  | fail n =>
    rw [Prog.bind_err (by simp only [Wal.allocator, Prog.run_read, read]; rfl)]
    exact .inl ⟨rfl, rfl⟩
  | crash n =>
    rw [Prog.bind_crashed (by simp only [Wal.allocator, Prog.run_read, read]; rfl)]
    exact .inl ⟨rfl, rfl⟩
  | proceed =>
    rw [Prog.bind_ok (by simp only [Wal.allocator, Prog.run_read, read]; rfl)]
    by_cases older : r.recordId < wal.nextId
    · rw [if_pos older]
      exact .inl ⟨rfl, rfl⟩
    · rw [if_neg older]
      cases encoded : codec.encode r with
      | error e =>
        rw [Prog.bind_err rfl]
        exact .inl ⟨rfl, rfl⟩
      | ok json =>
        rw [Prog.bind_ok rfl]
        have reached := reaches json encoded
        simp only [reachesAllocator] at reached
        -- How far the frame and the allocator got decides which of the two cases it is.
        cases frame : faults.tail.headD .proceed with
        | fail n =>
          rw [Prog.bind_err (by simp only [Prog.run_act, frame]; rfl)]
          simp only [frame, decide_eq_true_eq] at reached
          exact .inl ⟨if_pos reached, rfl⟩
        | crash n =>
          rw [Prog.bind_crashed (by simp only [Prog.run_act, frame]; rfl)]
          simp only [frame, decide_eq_true_eq] at reached
          exact .inl ⟨if_pos reached, rfl⟩
        | proceed =>
          rw [Prog.bind_ok (by simp only [Prog.run_act, frame]; rfl), if_pos bounded]
          have whole : ∀ w : WalState, (Wal.extend r (FrameLog.frame crc32 json)
              (FrameLog.frame crc32 json).length w).durable = w.durable ++ [r] :=
            fun w => if_neg (lt_irrefl _)
          refine .inr ⟨by omega, ?_⟩
          cases allocator : faults.tail.tail.headD .proceed with
          | fail n | crash n =>
            simp only [frame, allocator, decide_eq_true_eq] at reached
            simp only [Prog.replace, Prog.run_act, allocator, if_neg reached]
            exact ⟨whole wal, trivial⟩
          | proceed =>
            simp only [Prog.replace, Prog.run_act, allocator]
            exact ⟨whole wal, trivial⟩

/-! ### The counters over a run -/

/-- The ids of the durable records grow, and the allocator is past all of them and past the
marker. -/
structure IdsGrow (w : World) : Prop where
  intact : w.store.Intact
  ordered : (w.wal.durable.map (·.recordId)).Pairwise (· < ·)
  below : ∀ r ∈ w.wal.durable, r.recordId < w.wal.nextId
  marker : ∀ m, w.store.marker = some m → m < w.wal.nextId
  alone : w.objects.remoteWal = ∅

theorem IdsGrow.fresh : IdsGrow World.fresh where
  intact := intact_fresh
  ordered := by simp [World.fresh, WalState.fresh]
  below := by simp [World.fresh, WalState.fresh]
  marker := by simp [World.fresh, Store.marker, Store.fresh, Catalog.currentIn, Snapshot.empty]
  alone := rfl

variable {w : World}

theorem IdsGrow.congr {w' : World} (grow : IdsGrow w) (store : w'.store = w.store)
    (wal : w'.wal = w.wal) (remote : w'.objects.remoteWal = w.objects.remoteWal) : IdsGrow w' :=
  ⟨store ▸ grow.intact, wal ▸ grow.ordered, wal ▸ grow.below, store ▸ wal ▸ grow.marker,
    remote ▸ grow.alone⟩

variable {wal : WalState}

/-- The counters depend on the log only through the durable records and the allocator. -/
theorem IdsGrow.of_counters (grow : IdsGrow w) (durable : wal.durable = w.wal.durable)
    (applied : wal.applied = w.wal.applied) : IdsGrow { w with wal } := by
  have nextId : wal.nextId = w.wal.nextId := by simp only [WalState.nextId, applied]
  exact ⟨grow.intact, by simpa only [durable] using grow.ordered,
    by simpa only [durable, nextId] using grow.below, by simpa only [nextId] using grow.marker,
    grow.alone⟩

theorem IdsGrow.append (grow : IdsGrow w) (newer : w.wal.nextId ≤ r.recordId)
    (durable : wal.durable = w.wal.durable ++ [r]) (applied : wal.applied = some (r.recordId + 1)) :
    IdsGrow { w with wal } := by
  have nextId : wal.nextId = r.recordId + 1 := by simp only [WalState.nextId, applied]; rfl
  refine ⟨grow.intact, ?_, ?_, fun m marked => ?_, grow.alone⟩
  · simp only [durable, List.map_append, List.map_cons, List.map_nil]
    refine List.pairwise_append.mpr ⟨grow.ordered, List.pairwise_singleton _ _, ?_⟩
    intro id mem last isLast
    obtain ⟨x, inside, rfl⟩ := List.mem_map.mp mem
    rw [List.mem_singleton.mp isLast]
    exact lt_of_lt_of_le (grow.below x inside) newer
  · simp only [durable, nextId, List.mem_append, List.mem_singleton]
    rintro x (inside | rfl)
    · exact Nat.lt_succ_of_lt (lt_of_lt_of_le (grow.below x inside) newer)
    · exact Nat.lt_succ_self _
  · rw [show ({ w with wal } : World).wal.nextId = r.recordId + 1 from nextId]
    exact Nat.lt_succ_of_lt (lt_of_lt_of_le (grow.marker m marked) newer)

theorem appendRecord_grows (grow : IdsGrow w) (bounded : r.recordId + 1 < 2 ^ 64)
    (reaches : ∀ json, codec.encode r = .ok json → reachesAllocator (FrameLog.frame crc32
      json).length faults = true) :
    IdsGrow { w with wal := (Wal.appendRecord codec r faults w.wal).2.2 } := by
  rcases appendRecord_counters w.wal bounded reaches with ⟨durable, applied⟩ | ⟨newer, rest⟩
  · exact grow.of_counters durable applied
  · exact grow.append newer rest.1 rest.2

variable {sourceOffset : Option Nat}

theorem append_grows {events : List Event} {source : Option String} {nowMs : Int} (grow : IdsGrow w)
    (bounded : w.wal.nextId + 1 < 2 ^ 64)
    (reaches : ∀ json, codec.encode ⟨w.wal.nextId, events, source, sourceOffset, nowMs⟩ = .ok json
      → reachesAllocator (FrameLog.frame crc32 json).length faults.tail = true) :
    IdsGrow { w with wal :=
      (Wal.append codec events source sourceOffset nowMs faults w.wal).2.2 } := by
  unfold Wal.append
  cases read : faults.headD .proceed with
  | fail n =>
    rw [Prog.bind_err (by simp only [Wal.allocator, Prog.run_read, read]; rfl)]
    exact grow
  | crash n =>
    rw [Prog.bind_crashed (by simp only [Wal.allocator, Prog.run_read, read]; rfl)]
    exact grow
  | proceed =>
    rw [Prog.bind_ok (by simp only [Wal.allocator, Prog.run_read, read]; rfl), Prog.state_bind_pure]
    exact appendRecord_grows grow bounded reaches

theorem compactThrough_grows (grow : IdsGrow w) (codec : WalCodec) (floor : Option Nat) :
    IdsGrow { w with wal := (Wal.compactThrough codec floor faults w.wal).2.2 } := by
  obtain ⟨durable, applied⟩ := Prod.mk.inj ((compactThrough_counters codec floor).run faults w.wal)
  exact grow.of_counters durable applied

/-- A publication of a durable record moves the marker at most to its id. -/
theorem IdsGrow.publishing {start w : World} (grow : IdsGrow start) (mem : r ∈ start.wal.durable)
    (publishing : Ingestor.Publishing r start w) : IdsGrow w := by
  have wal : w.wal = start.wal := congrArg Ingestor.Logs.wal publishing.logs
  have remote : w.objects.remoteWal = start.objects.remoteWal :=
    congrArg Ingestor.Logs.remoteWal publishing.logs
  have store : w.store.Intact ∧ ∀ m, w.store.marker = some m → m < w.wal.nextId := by
    rw [wal]
    rcases publishing.stopped with quiet | commits
    · exact ⟨quiet.store.intact grow.intact, fun m marked =>
        grow.marker m (quiet.store.marker ▸ marked)⟩
    · refine ⟨commits.intact, fun m marked => ?_⟩
      rw [commits.marker] at marked
      rw [← Option.some.inj marked]
      exact grow.below r mem
  exact ⟨store.1, wal ▸ grow.ordered, wal ▸ grow.below, store.2, remote ▸ grow.alone⟩

theorem recover_grows (grow : IdsGrow w) (ing : Ingestor)
    (appended : ∀ r, ing.Reads w r → r ∈ w.wal.durable) (nowMs : Int) :
    IdsGrow (ing.recover nowMs faults w).2.2 := by
  have kept := ing.recover_keeps nowMs
    (I := fun w' => IdsGrow w' ∧ w'.wal.durable = w.wal.durable) ⟨grow, rfl⟩
    (fun _ h => h.1.intact) ?_ ?_ ?_
  · exact (kept.after (fun _ _ h => h) rfl faults).1
  · intro v v' ⟨here, durable⟩ ledger logs
    have wal : v'.wal = v.wal := congrArg Ingestor.Logs.wal logs
    exact ⟨here.congr (Prod.mk.inj ledger).1 wal (congrArg Ingestor.Logs.remoteWal logs),
      wal ▸ durable⟩
  · intro r v v' read ⟨here, durable⟩ publishing
    exact ⟨here.publishing (durable ▸ appended r read) publishing,
      (congrArg (·.wal.durable) publishing.logs).trans durable⟩
  · intro v wal ⟨here, durable⟩ same applied
    exact ⟨here.of_counters same applied, same.trans durable⟩

/-- No append stops between its frame and the allocator, the id space is not used up, and a recovery
reads only records that were appended. -/
def LogOp.Allocates (w : World) : LogOp → Prop
  | .append codec events source sourceOffset nowMs faults =>
    w.wal.nextId + 1 < 2 ^ 64 ∧
      ∀ json, codec.encode ⟨w.wal.nextId, events, source, sourceOffset, nowMs⟩ = .ok json →
        reachesAllocator (FrameLog.frame crc32 json).length faults.tail = true
  | .appendRecord codec record faults =>
    record.recordId + 1 < 2 ^ 64 ∧ ∀ json, codec.encode record = .ok json →
      reachesAllocator (FrameLog.frame crc32 json).length faults = true
  | .recover ing _ _ => ∀ r, ing.Reads w r → r ∈ w.wal.durable
  | .compactThrough _ _ _ => True
  | .restart => True

theorem LogOp.step_grows (w : World) (op : LogOp) (allocates : op.Allocates w)
    (grow : IdsGrow w) : IdsGrow (op.step w) := by
  cases op with
  | append codec events source sourceOffset nowMs faults =>
    simp only [step, run_onWal]
    exact append_grows grow allocates.1 allocates.2
  | appendRecord codec record faults =>
    simp only [step, run_onWal]
    exact appendRecord_grows grow allocates.1 allocates.2
  | recover ing nowMs faults => exact recover_grows grow ing allocates nowMs
  | compactThrough codec floor faults =>
    simp only [step, run_onWal]
    exact compactThrough_grows grow codec floor
  | restart => exact grow.congr rfl rfl rfl

theorem append_returns_nextId {events : List Event} {source : Option String} {nowMs : Int}
    {id : Nat}
    (returned : (Wal.append codec events source sourceOffset nowMs faults wal).1 = .ok id) :
    id = wal.nextId := by
  have triple : Triple (· = wal) (Wal.append codec events source sourceOffset nowMs)
      (fun id _ => id = wal.nextId) (fun _ => True) := by
    refine Triple.bind (Q := fun id w => id = wal.nextId) (Triple.read ?_ fun _ _ => trivial)
      fun id => ?_
    · rintro id w rfl read
      exact (Except.ok.inj read).symm
    · exact Triple.bind (Q := fun _ _ => id = wal.nextId) (fun faults w same => by
          generalize Wal.appendRecord codec _ faults w = r
          obtain ⟨_ | _ | _, rest, w'⟩ := r
          · exact same
          · trivial
          · trivial) fun _ => Triple.pure fun _ same => same
  have ends := triple faults wal rfl
  generalize Wal.append codec events source sourceOffset nowMs faults wal = r at ends returned
  obtain ⟨_ | _ | _, rest, w'⟩ := r
  · exact Outcome.ok.inj returned ▸ ends
  · cases returned
  · cases returned

/-- In every such run the ids of the durable records grow strictly in append order, and whatever
append comes next is acknowledged under an id above the marker. -/
theorem record_ids_grow (ops : List LogOp)
    (allocates : Meets LogOp.step LogOp.Allocates World.fresh ops) :
    ((ops.foldl LogOp.step World.fresh).wal.durable.map (·.recordId)).Pairwise (· < ·) ∧
      ∀ codec events source sourceOffset nowMs faults id,
        (onWal (Wal.append codec events source sourceOffset nowMs) faults
          (ops.foldl LogOp.step World.fresh)).1 = .ok id →
        ∀ m, (ops.foldl LogOp.step World.fresh).store.marker = some m → m < id := by
  have grow := invariant_run LogOp.step_grows ops World.fresh IdsGrow.fresh allocates
  refine ⟨grow.ordered, ?_⟩
  intro codec events source sourceOffset nowMs faults id returned m marked
  rw [run_onWal] at returned
  rw [append_returns_nextId returned]
  exact grow.marker m marked

/-- Two appends with a crash inside the frame of a third one between them. -/
def tornBetweenRun : List LogOp :=
  [.append sampleCodec [sampleEvent "e1"] none none 1000 [],
   .append sampleCodec [sampleEvent "e2"] none none 1000 [.proceed, .proceed, .crash 3],
   .restart,
   .append sampleCodec [sampleEvent "e2"] none none 1000 []]

set_option maxRecDepth 100000

theorem record_ids_grow_tornBetween :
    (tornBetweenRun.foldl LogOp.step World.fresh).wal.durable.map (·.recordId) = [0, 1] ∧
      ([0, 1] : List Nat).Pairwise (· < ·) := by
  have ids : (tornBetweenRun.foldl LogOp.step World.fresh).wal.durable.map (·.recordId) =
      [0, 1] := by
    decide +kernel
  have short : ∀ json : Bytes, 3 < (FrameLog.frame crc32 json).length := by
    intro json
    rw [FrameLog.length_frame, FrameLog.headerLength]
    omega
  have grow := record_ids_grow tornBetweenRun
    ⟨⟨by decide, fun json _ => rfl⟩, ⟨by decide +kernel, fun json _ => decide_eq_true (short json)⟩,
      trivial, ⟨by decide +kernel, fun json _ => rfl⟩, trivial⟩
  exact ⟨ids, ids ▸ grow.1⟩

/-- A crash between the frame and the allocator, and the next append after the restart. -/
def gapRun : List LogOp :=
  [.append sampleCodec [sampleEvent "e1"] none none 1000
      [.proceed, .proceed, .proceed, .crash 0],
   .restart,
   .append sampleCodec [sampleEvent "e2"] none none 1000 []]

/-- The allocator still names the id of the record that is already durable. -/
theorem gap_reuses_id :
    (gapRun.foldl LogOp.step World.fresh).wal.durable =
      [sampleRecord 0 "e1", sampleRecord 0 "e2"] := by
  decide +kernel

end Prism
