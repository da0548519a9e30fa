import Prism.Engine.Ingestor
import Prism.Properties.Publication

/-!
The admission log as a sequence of records: what the bytes of the file hold through appends,
torn appends, recoveries and compactions.
-/

namespace Prism

open CrashLogic Fallible

variable {floor : Option Nat} {nowMs : Int} {r : WalRecord}

/-! ### The log in its bytes -/

/-- Every encoding of the record by one of these codecs fits a frame and is read back by all of
them. -/
def ReadsBack (codecs : List WalCodec) (r : WalRecord) : Prop :=
  ∀ writer ∈ codecs, ∀ reader ∈ codecs, ∀ bytes, writer.encode r = .ok bytes →
    bytes.length < 2 ^ 32 ∧ reader.decode bytes = .ok r

/-- The file is the frames of the records kept, and behind them at most a cut frame. -/
structure LogHolds (codecs : List WalCodec) (w : WalState) : Prop where
  bytes : ∃ bodies torn, w.file = FrameLog.frames crc32 bodies ++ torn ∧
    FrameLog.split crc32 torn = none ∧ (∀ body ∈ bodies, body.length < 2 ^ 32) ∧
    List.Forall₂ (fun body r => ∀ codec ∈ codecs, codec.decode body = .ok r) bodies w.kept
  readsBack : ∀ r ∈ w.kept, ReadsBack codecs r

namespace LogHolds

variable {codecs : List WalCodec} {w : WalState}

theorem fresh : LogHolds codecs WalState.fresh where
  bytes := ⟨[], [], rfl, by decide, by simp, .nil⟩
  readsBack := by simp [WalState.fresh]

variable {codec : WalCodec}

theorem decodeFrame_ok {frame : Nat × Bytes} {r : WalRecord}
    (decoded : codec.decode frame.2 = .ok r) : Wal.decodeFrame codec frame = .ok r := by
  simp only [Wal.decodeFrame, decoded]

/-- What is read back is what was kept. -/
theorem readAll (holds : LogHolds codecs w) (used : codec ∈ codecs) :
    Wal.readAllIn codec w.file = .ok w.kept := by
  obtain ⟨bodies, torn, file, stops, small, decoded⟩ := holds.bytes
  simp only [Wal.readAllIn, file, FrameLog.scan_log bodies torn small stops]
  refine mapM_eq_ok.mpr ?_
  have snd : ((FrameLog.positions 0 bodies).zip bodies).map Prod.snd = bodies :=
    List.map_snd_zip (by simp [FrameLog.length_positions])
  rw [← snd, List.forall₂_map_left_iff] at decoded
  exact decoded.imp fun frame r each => decodeFrame_ok (each codec used)

/-- Any part of a frame written behind whole frames leaves a log that holds. -/
theorem extend (holds : LogHolds codecs w) (clean : FrameLog.unread crc32 w.file = [])
    (used : codec ∈ codecs) {r : WalRecord} (readsBack : ReadsBack codecs r) {json : Bytes}
    (encoded : codec.encode r = .ok json) (written : Nat) :
    LogHolds codecs (Wal.extend r (FrameLog.frame crc32 json) written w) := by
  obtain ⟨bodies, torn, file, stops, small, decoded⟩ := holds.bytes
  have untorn : torn = [] := by rwa [file, FrameLog.unread_log bodies torn small stops] at clean
  subst untorn
  rw [List.append_nil] at file
  have fits := (readsBack codec used codec used json encoded).1
  by_cases cut : written < (FrameLog.frame crc32 json).length
  · refine ⟨⟨bodies, (FrameLog.frame crc32 json).take written, ?_, ?_, small, ?_⟩, ?_⟩
    · simp [Wal.extend, file]
    · exact FrameLog.split_cut json _ fits (List.take_prefix _ _) (by simpa using cut)
    · simpa only [Wal.extend, cut, if_true] using decoded
    · simpa only [Wal.extend, cut, if_true] using holds.readsBack
  · have whole : (FrameLog.frame crc32 json).take written = FrameLog.frame crc32 json :=
      List.take_of_length_le (by omega)
    refine ⟨⟨bodies ++ [json], [], ?_, by decide, ?_, ?_⟩, ?_⟩
    · simp [Wal.extend, file, whole]
    · intro body mem
      rcases List.mem_append.mp mem with earlier | last
      · exact small body earlier
      · rw [List.mem_singleton.mp last]
        exact fits
    · simp only [Wal.extend, cut, if_false]
      exact List.rel_append decoded
        (.cons (fun reader known => (readsBack codec used reader known json encoded).2) .nil)
    · simp only [Wal.extend, cut, if_false, List.mem_append, List.mem_singleton]
      rintro x (earlier | rfl)
      · exact holds.readsBack x earlier
      · exact readsBack

/-- Writing kept records again gives a log that holds, with no cut frame. -/
theorem rewrite (keep : List WalRecord) (readsBack : ∀ r ∈ keep, ReadsBack codecs r)
    (used : codec ∈ codecs) {file : Bytes} (encoded : Wal.encodeLog codec keep = .ok file) :
    LogHolds codecs { w with file := file, kept := keep } := by
  obtain ⟨bodies, each, rfl⟩ := bind_pure_eq_ok.mp encoded
  have pairs := (List.forall₂_and_left _ _).mpr ⟨readsBack, mapM_eq_ok.mp each⟩
  have read : List.Forall₂ (fun body r => body.length < 2 ^ 32 ∧
      ∀ reader ∈ codecs, reader.decode body = .ok r) bodies keep := by
    refine List.Forall₂.flip (pairs.imp fun r body written => ⟨?_, fun reader known => ?_⟩)
    · exact (written.1 codec used codec used body written.2).1
    · exact (written.1 codec used reader known body written.2).2
  obtain ⟨small, decoded⟩ := (List.forall₂_and_left _ _).mp read
  exact ⟨⟨bodies, [], by simp, by decide, small, decoded⟩, readsBack⟩

end LogHolds

/-! ### The programs of the log -/

theorem appendRecord_holds {codecs : List WalCodec} {codec : WalCodec} (used : codec ∈ codecs)
    {r : WalRecord} (readsBack : ReadsBack codecs r) :
    Triple (fun w => LogHolds codecs w ∧ FrameLog.unread crc32 w.file = [])
      (Wal.appendRecord codec r) (fun _ => LogHolds codecs) (LogHolds codecs) := by
  refine Triple.bind (Triple.read (fun _ _ start _ => start) fun _ start => start.1) fun nextId => ?_
  split
  · exact Triple.throw fun _ start => start.1
  · refine Triple.bind (Q := fun json w => codec.encode r = .ok json ∧ LogHolds codecs w ∧
      FrameLog.unread crc32 w.file = [])
      (Triple.ofExcept (fun _ _ encoded start => ⟨encoded, start⟩) fun _ start => start.1)
      fun json => ?_
    refine Triple.bind (Q := fun _ => LogHolds codecs) (Triple.act ?_ ?_) fun _ => ?_
    · rintro w ⟨encoded, holds, clean⟩
      exact holds.extend clean used readsBack encoded _
    · rintro n w ⟨encoded, holds, clean⟩
      exact holds.extend clean used readsBack encoded n
    · split
      · exact Keeps.replace fun w holds => ⟨holds.bytes, holds.readsBack⟩
      · exact Keeps.throw

theorem compactThrough_holds {codecs : List WalCodec} {codec : WalCodec} (used : codec ∈ codecs) : Keeps (LogHolds codecs) (Wal.compactThrough codec floor) := by
  cases floor with
  | none => exact Keeps.pure
  | some floor =>
    refine Triple.bind (Q := fun all w => all = w.kept ∧ LogHolds codecs w)
      (Triple.read ?_ fun _ holds => holds) fun all => ?_
    · intro all w holds returned
      exact ⟨Except.ok.inj (returned.symm.trans (holds.readAll used)), holds⟩
    · dsimp only
      split
      · exact Triple.pure fun _ start => start.2
      · refine Triple.bind (Q := fun file w =>
          Wal.encodeLog codec (all.filter (floor < ·.recordId)) = .ok file ∧ all = w.kept ∧
            LogHolds codecs w)
          (Triple.ofExcept (fun _ _ encoded start => ⟨encoded, start⟩) fun _ start => start.2)
          fun file => ?_
        have rewritten : ∀ w : WalState,
            (Wal.encodeLog codec (all.filter (floor < ·.recordId)) = .ok file ∧ all = w.kept ∧
              LogHolds codecs w) →
            LogHolds codecs { w with
              file := file, kept := w.kept.filter (floor < ·.recordId) } := by
          rintro w ⟨encoded, rfl, holds⟩
          exact LogHolds.rewrite _ (fun r mem => holds.readsBack r (List.mem_of_mem_filter mem))
            used encoded
        exact Triple.bind (Triple.replace rewritten (fun _ start => start.2.2) rewritten)
          fun _ => Triple.pure fun _ holds => holds

/-- Compaction rewrites the file; the history of appends and the allocator stay. -/
theorem compactThrough_counters (codec : WalCodec) (floor : Option Nat) :
    Leaves (fun wal : WalState => (wal.durable, wal.applied)) (Wal.compactThrough codec floor) := by
  cases floor with
  | none => exact Leaves.pure
  | some floor =>
    refine Leaves.bind Leaves.read fun all => ?_
    dsimp only
    split
    · exact Leaves.pure
    · exact Leaves.bind Leaves.ofExcept fun _ =>
        Leaves.bind (Leaves.replace fun _ => rfl) fun _ => Leaves.pure

/-! ### What recovery does to the logs -/

namespace Ingestor

/-- The logs and the counters, which publication and reconciliation leave alone. -/
structure Logs where
  wal : WalState
  dictionary : KeyDictionary
  quotas : QuotaEnforcer
  suppressed : List Event
  remoteWal : RemoteLog
  owners : BTreeMap Nat String

def logs (w : World) : Logs :=
  ⟨w.wal, w.dictionary, w.quotas, w.suppressed, w.objects.remoteWal, w.objects.owners⟩

def Logs.of (a : Aside) : Logs :=
  ⟨a.wal, a.dictionary, a.quotas, a.suppressed, a.remoteWal, a.owners⟩

theorem recordKeys_logs (events : List Event) : Leaves logs (recordKeys events) :=
  Leaves.bind Leaves.read fun _ => Leaves.replace fun _ => rfl

theorem commitRecordOffset_logs : Leaves logs (commitRecordOffset r) := by
  unfold commitRecordOffset
  split
  · exact Leaves.bind (Leaves.replace fun _ => rfl) fun _ => Leaves.pure
  · exact Leaves.pure

variable (ing : Ingestor)

theorem publishWalRecord_logs : Leaves logs (ing.publishWalRecord r nowMs) :=
  Leaves.bind ((Engine.ingestInner_aside ing.engine r.events nowMs (some r.recordId) false).map
    Logs.of) fun _ =>
    Leaves.bind (recordKeys_logs r.events) fun _ =>
      Leaves.bind commitRecordOffset_logs fun _ => Leaves.pure

theorem reconcileApplied_logs : Leaves logs (reconcileApplied r) :=
  Leaves.bind (recordKeys_logs r.events) fun _ =>
    Leaves.bind commitRecordOffset_logs fun _ => Leaves.pure

theorem recoverRecord_logs (r : WalRecord) : Leaves logs (ing.recoverRecord floor nowMs r) := by
  unfold recoverRecord
  split
  · exact Leaves.bind reconcileApplied_logs fun _ => Leaves.pure
  · exact Leaves.bind (publishWalRecord_logs ing) fun _ => Leaves.pure

theorem onWal_read_leaves {τ : Type} {view : World → τ} (codec : WalCodec) :
    Leaves view (onWal (Wal.readAll codec)) := by
  have untouched : Leaves (fun wal : WalState => wal) (Wal.readAll codec) := Leaves.read
  exact Leaves.inside untouched fun wal w same => by rw [same]

theorem admissionRecords_leaves {τ : Type} {view : World → τ} :
    Leaves view ing.admissionRecords := by
  refine Leaves.bind (onWal_read_leaves ing.codec) fun records => ?_
  split
  · exact Leaves.bind Leaves.read fun _ => Leaves.bind Leaves.ofExcept fun _ => Leaves.pure
  · exact Leaves.pure

/-- Recovery changes the log only by compacting it. -/
theorem recover_holds {codecs : List WalCodec} (used : ing.codec ∈ codecs) :
    Keeps (fun w : World => LogHolds codecs w.wal) (ing.recover nowMs) := by
  have aside {α : Type} {p : Io α} (leaves : Leaves logs p) :
      Keeps (fun w : World => LogHolds codecs w.wal) p :=
    leaves.keeps fun seen => LogHolds codecs seen.wal
  have snapshot : Leaves logs Engine.snapshot :=
    (Engine.onStore_aside Catalog.current).map Logs.of
  refine Keeps.bind (aside snapshot) fun snap => ?_
  refine Keeps.bind (aside (admissionRecords_leaves ing)) fun records => ?_
  refine Keeps.bind (aside (Leaves.each (recoverRecord_logs ing))) fun reports => ?_
  refine Keeps.bind (aside snapshot) fun after => ?_
  refine Keeps.bind (Triple.zoom World.walLens fun w holds => ?_) fun _ => Keeps.pure
  exact (compactThrough_holds used).strengthen fun _ same => same ▸ holds

end Ingestor

/-! ### Runs of the log -/

/-- What can happen to the log of a store; every call comes with the faults it meets. -/
inductive LogOp where
  | append (codec : WalCodec) (events : List Event) (source : Option String)
      (sourceOffset : Option Nat) (nowMs : Int) (faults : List Fault)
  | appendRecord (codec : WalCodec) (record : WalRecord) (faults : List Fault)
  | recover (ing : Ingestor) (nowMs : Int) (faults : List Fault)
  | compactThrough (codec : WalCodec) (floor : Option Nat) (faults : List Fault)
  | restart

namespace LogOp

def step (w : World) : LogOp → World
  | .append codec events source sourceOffset nowMs faults =>
    (onWal (Wal.append codec events source sourceOffset nowMs) faults w).2.2
  | .appendRecord codec record faults => (onWal (Wal.appendRecord codec record) faults w).2.2
  | .recover ing nowMs faults => (ing.recover nowMs faults w).2.2
  | .compactThrough codec floor faults => (onWal (Wal.compactThrough codec floor) faults w).2.2
  | .restart => { w with quotas := QuotaEnforcer.fresh }

/-- An append starts at the end of a whole frame and writes a record that reads back. -/
def Clean (codecs : List WalCodec) (w : World) : LogOp → Prop
  | .append codec events source sourceOffset nowMs _ =>
    codec ∈ codecs ∧ ReadsBack codecs ⟨w.wal.nextId, events, source, sourceOffset, nowMs⟩ ∧
      FrameLog.unread crc32 w.wal.file = []
  | .appendRecord codec record _ =>
    codec ∈ codecs ∧ ReadsBack codecs record ∧ FrameLog.unread crc32 w.wal.file = []
  | .recover ing _ _ => ing.codec ∈ codecs
  | .compactThrough codec _ _ => codec ∈ codecs
  | .restart => True

end LogOp

theorem LogOp.step_holds {codecs : List WalCodec} (w : World) (op : LogOp)
    (clean : op.Clean codecs w) (holds : LogHolds codecs w.wal) :
    LogHolds codecs (op.step w).wal := by
  cases op with
  | append codec events source sourceOffset nowMs faults =>
    obtain ⟨used, readsBack, untorn⟩ := clean
    have triple : Triple (fun wal => wal = w.wal)
        (Wal.append codec events source sourceOffset nowMs) (fun _ => LogHolds codecs)
        (LogHolds codecs) := by
      refine Triple.bind (Q := fun id wal => id = w.wal.nextId ∧ wal = w.wal)
        (Triple.read ?_ ?_) fun id => ?_
      · rintro id wal rfl returned
        exact ⟨(Except.ok.inj returned).symm, rfl⟩
      · rintro wal rfl
        exact holds
      · refine Triple.fix fun wal ⟨same, here⟩ => ?_
        subst same here
        refine Triple.bind ((appendRecord_holds used readsBack).strengthen ?_) fun _ =>
          Triple.pure fun _ h => h
        rintro wal rfl
        exact ⟨holds, untorn⟩
    simp only [step, run_onWal]
    exact triple.after (fun _ _ h => h) rfl faults
  | appendRecord codec record faults =>
    obtain ⟨used, readsBack, untorn⟩ := clean
    simp only [step, run_onWal]
    exact (appendRecord_holds used readsBack).after (fun _ _ h => h) ⟨holds, untorn⟩ faults
  | recover ing nowMs faults =>
    exact (ing.recover_holds clean).after (fun _ _ h => h) holds faults
  | compactThrough codec floor faults =>
    simp only [step, run_onWal]
    exact (compactThrough_holds clean).after (fun _ _ h => h) holds faults
  | restart => exact holds

/-- In every run whose appends start behind whole frames, the log returns exactly the records
whose frames are complete and that no compaction removed, in order. -/
theorem readAll_returns_kept (codecs : List WalCodec) (ops : List LogOp)
    (clean : Meets LogOp.step (LogOp.Clean codecs) World.fresh ops) :
    ∀ codec ∈ codecs, Wal.readAllIn codec (ops.foldl LogOp.step World.fresh).wal.file =
      .ok (ops.foldl LogOp.step World.fresh).wal.kept := by
  intro codec used
  have holds := invariant_run (I := fun w : World => LogHolds codecs w.wal)
    LogOp.step_holds ops World.fresh LogHolds.fresh clean
  exact holds.readAll used

def tableSerde (records : List WalRecord) : SerdeJson where
  sealedRecord _ := .error "missing field `sealed_wal`"
  record bytes :=
    match records.find? (·.toJson.bytes = bytes) with
    | some r => .ok r
    | none => .error "expected value"

def sampleEvent (eventId : String) : Event :=
  ⟨eventId, "t1", 1000, 1000, "llm.call", ⟨0⟩, false, "hello", "", "", ∅, none⟩

def sampleRecord (id : Nat) (eventId : String) : WalRecord :=
  ⟨id, [sampleEvent eventId], none, none, 1000⟩

def sampleCodec : WalCodec :=
  ⟨tableSerde [sampleRecord 0 "e1", sampleRecord 0 "e2", sampleRecord 1 "e2"], none⟩

/-- A complete append, and an append torn inside its frame. -/
def tornTailRun : List LogOp :=
  [.append sampleCodec [sampleEvent "e1"] none none 1000 [],
   .append sampleCodec [sampleEvent "e2"] none none 1000 [.proceed, .proceed, .crash 3]]

theorem readsBack_sample {id : Nat} {eventId : String}
    (small : (sampleRecord id eventId).toJson.bytes.length < 2 ^ 32)
    (read : sampleCodec.decode (sampleRecord id eventId).toJson.bytes =
      .ok (sampleRecord id eventId)) : ReadsBack [sampleCodec] (sampleRecord id eventId) := by
  intro writer isWriter reader isReader bytes encoded
  rw [List.mem_singleton.mp isWriter] at encoded
  cases encoded
  rw [List.mem_singleton.mp isReader]
  exact ⟨small, read⟩

set_option maxRecDepth 100000

theorem readAll_returns_kept_tornTail :
    Wal.readAllIn sampleCodec (tornTailRun.foldl LogOp.step World.fresh).wal.file =
      .ok [sampleRecord 0 "e1"] := by
  have kept : (tornTailRun.foldl LogOp.step World.fresh).wal.kept = [sampleRecord 0 "e1"] := by
    decide +kernel
  have first : ReadsBack [sampleCodec] (sampleRecord 0 "e1") :=
    readsBack_sample (by decide +kernel) (by decide +kernel)
  have second : ReadsBack [sampleCodec] (sampleRecord 1 "e2") :=
    readsBack_sample (by decide +kernel) (by decide +kernel)
  have here : sampleCodec ∈ [sampleCodec] := List.mem_singleton.mpr rfl
  rw [← kept]
  exact readAll_returns_kept [sampleCodec] tornTailRun
    ⟨⟨here, first, by decide⟩, ⟨here, second, by decide +kernel⟩, trivial⟩ sampleCodec here

/-- An append torn inside its frame, and a complete append behind it. -/
def tornRun : List LogOp :=
  [.append sampleCodec [sampleEvent "e1"] none none 1000 [.proceed, .proceed, .crash 3],
   .append sampleCodec [sampleEvent "e2"] none none 1000 []]

/-- The three bytes left of the first frame are read as a length that overruns the file, so the
record acknowledged behind them is not returned. -/
theorem torn_frame_hides_record :
    (tornRun.foldl LogOp.step World.fresh).wal.kept = [sampleRecord 0 "e2"] ∧
      Wal.readAllIn sampleCodec (tornRun.foldl LogOp.step World.fresh).wal.file = .ok [] := by
  decide +kernel

end Prism
