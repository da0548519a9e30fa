import Prism.Properties.Recovery

/-!
The stages of one ingest call, however they end: screening, the choice of a record id, the local
append, the replicated log, publication and compaction.
-/

namespace Prism

open CrashLogic Fallible Store World

variable {nextOffset : Option Nat} {nowMs : Int} {r : WalRecord} {report : IngestorReport}
   {start : World}

namespace Ingestor

/-! ### Screening -/

structure Prepared (start w : World) : Prop where
  store : w.store = start.store
  letters : start.deadLetters <+: w.deadLetters
  suppressed : start.suppressed <+: w.suppressed
  wal : w.wal = start.wal
  idempotency : w.idempotency = start.idempotency
  offsets : w.offsets = start.offsets
  objects : w.objects = start.objects
  dictionary : w.dictionary = start.dictionary

theorem Prepared.refl (w : World) : Prepared w w :=
  ⟨rfl, List.prefix_refl _, List.prefix_refl _, rfl, rfl, rfl, rfl, rfl⟩

theorem Prepared.quiet {start w : World} (prepared : Prepared start w) : Quiet start w :=
  ⟨prepared.store ▸ Grown.refl _, prepared.letters⟩

/-- The decisions of screening: admission, then the index as it was loaded, then the model. -/
def Screens (events : List Event) (nowMs : Int) (start : World) (screened : Screened) : Prop :=
  ∃ admitted denied,
    admitEvents events start.dictionary start.quotas nowMs = some admitted ∧
    screened.suppressed = (dedup start.idempotency admitted.accepted).suppressed ∧
    Sorts (dedup start.idempotency admitted.accepted).accepted screened.accepted denied ∧
    screened.dead = admitted.rejected ++ (dedup start.idempotency admitted.accepted).conflicts ++
      denied

def Widens (events : List Event) (nowMs : Int) (start : World) (dict : KeyDictionary) : Prop :=
  ∃ admitted, admitEvents events start.dictionary start.quotas nowMs = some admitted ∧
    dict = admitted.dict

variable (ing : Ingestor) (events : List Event)

theorem screen_spec : Triple (· = start) (ing.screen events nowMs)
      (fun screened w => Prepared start w ∧ w.deadLetters = start.deadLetters ∧
        w.suppressed = start.suppressed ++ screened.suppressed ∧
        Screens events nowMs start screened ∧ Widens events nowMs start screened.dict)
      (fun w => Prepared start w) := by
  have stays := Prepared.refl start
  refine Observes.read.bind_triple stays fun dict known => ?_
  refine Observes.read.bind_triple stays fun quotas counted => ?_
  cases known
  cases counted
  refine (Engine.orHalt_spec _).bind_triple stays fun admitted done => ?_
  refine Triple.note_bind ?_
  have noted : Prepared start { start with quotas := admitted.quotas } :=
    ⟨rfl, List.prefix_refl _, List.prefix_refl _, rfl, rfl, rfl, rfl, rfl⟩
  refine Observes.read.bind_triple noted fun ix loaded => ?_
  cases loaded
  refine Triple.note_bind ?_
  have prepared : Prepared start { start with
      quotas := admitted.quotas
      suppressed := start.suppressed ++
        (dedup start.idempotency admitted.accepted).suppressed } :=
    ⟨rfl, List.prefix_refl _, List.prefix_append _ _, rfl, rfl, rfl, rfl, rfl⟩
  refine Observes.bind_triple (Observes.bind Engine.snapshot_spec fun snap =>
    (Engine.modelPreflightForSnapshot_spec ing.engine snap).weaken fun _ _ sorts _ => sorts) prepared
    fun decided sorts => Triple.pure ?_
  rintro w rfl
  exact ⟨prepared, rfl, rfl, ⟨admitted, decided.2, done, rfl, sorts, rfl⟩, admitted, done, rfl⟩

theorem writeDeadLetters_state (dead : List DeadLetter) :
    Triple (· = start) (Engine.writeDeadLetters dead)
      (fun _ w => w = { start with deadLetters := start.deadLetters ++ dead })
      (fun w => ∃ n, w = { start with deadLetters := start.deadLetters ++ dead.take n }) := by
  unfold Engine.writeDeadLetters
  split
  next none =>
    refine Triple.pure ?_
    rintro w rfl
    simp [List.isEmpty_iff.mp none]
  · refine Triple.act ?_ ?_
    · rintro w rfl
      rfl
    · rintro n w rfl
      exact ⟨n, rfl⟩

structure Screening (events : List Event) (nowMs : Int) (start : World) (screened : Screened)
    (w : World) : Prop where
  prepared : Prepared start w
  letters : w.deadLetters = start.deadLetters ++ screened.dead
  suppressed : w.suppressed = start.suppressed ++ screened.suppressed
  screens : Screens events nowMs start screened
  widens : Widens events nowMs start screened.dict

variable (source : Option String)

theorem prepare_spec : Triple (· = start) (ing.prepare events source nowMs)
      (fun prepared w => Screening events nowMs start prepared.2 w ∧
        prepared.1.duplicatesSuppressed = prepared.2.suppressed.length ∧
        prepared.1.walRecord = none)
      (fun w => Prepared start w) := by
  refine Triple.bind (Q := fun _ w => w = start) ?_ fun before => ?_
  · cases source with
    | none => exact Triple.pure fun _ same => same
    | some name => exact Observes.read.bind_triple (Prepared.refl start) fun _ _ =>
        Triple.pure fun _ same => same
  refine Triple.bind (screen_spec ing events) fun screened => ?_
  refine Triple.fix fun w ⟨prepared, letters, suppressed, screens, widens⟩ => ?_
  have lettered : ∀ added : List DeadLetter,
      Prepared start { w with deadLetters := w.deadLetters ++ added } := fun added =>
    { prepared with letters := prepared.letters.trans (List.prefix_append _ _) }
  refine Triple.bind ((writeDeadLetters_state screened.dead).stopping ?_) fun _ => Triple.pure ?_
  · rintro w' ⟨n, rfl⟩
    exact lettered _
  · rintro w' rfl
    exact ⟨⟨lettered _, by rw [letters], suppressed, screens, widens⟩, rfl, rfl⟩

/-! ### The record and its append -/

def Chooses (ing : Ingestor) (w : World) (id : Nat) : Prop :=
  if ing.replicated then
    ∃ localRecords, Wal.readAllIn ing.codec w.wal.file = .ok localRecords ∧
      RemoteWal.nextRecordIdIn ing.codec w.objects.remoteWal ing.engine.ownerEpoch localRecords =
        .ok id
  else id = w.wal.nextId

theorem chooseRecord_spec : Observes (ing.chooseRecord events source nextOffset nowMs) fun w r =>
      ing.Chooses w r.recordId ∧ r = ⟨r.recordId, events, source, nextOffset, nowMs⟩ := by
  unfold chooseRecord
  split
  next replicated =>
    refine Observes.bind (Engine.assertWriteOwner_spec _) fun _ =>
      Observes.bind (readAll_spec ing.codec) fun localRecords =>
        Observes.bind Observes.read fun id => Observes.pure fun w chosen read _ => ⟨?_, rfl⟩
    simpa [Chooses, replicated] using ⟨localRecords, read, chosen⟩
  next single =>
    refine Observes.bind (Observes.zoom World.walLens Observes.read) fun id =>
      Observes.pure fun w returned => ⟨?_, rfl⟩
    simpa [Chooses, single] using (Except.ok.inj returned).symm

theorem appendRecord_durable (codec : WalCodec) (start : WalState) :
    Triple (· = start) (Wal.appendRecord codec r)
      (fun _ wal => wal.durable = start.durable ++ [r])
      (fun wal => wal.durable = start.durable ∨ wal.durable = start.durable ++ [r]) := by
  have stays : ∀ wal, wal = start → wal.durable = start.durable ∨
      wal.durable = start.durable ++ [r] := fun _ same => .inl (same ▸ rfl)
  refine Triple.bind (Triple.read (fun _ _ same _ => same) stays) fun nextId => ?_
  split
  · exact Triple.throw stays
  · refine Triple.bind (Triple.ofExcept (fun _ _ _ same => same) stays) fun json => ?_
    refine Triple.bind (Q := fun _ wal => wal.durable = start.durable ++ [r]) (Triple.act ?_ ?_)
      fun _ => ?_
    · rintro wal rfl
      exact if_neg (lt_irrefl _)
    · rintro n wal rfl
      by_cases cut : n < (FrameLog.frame crc32 json).length
      · exact .inl (if_pos cut)
      · exact .inr (if_neg cut)
    · split
      · exact Triple.replace (fun _ h => h) (fun _ h => .inr h) fun _ h => .inr h
      · exact Triple.throw fun _ h => .inr h

theorem appendLocal_spec : Triple (· = start) (ing.appendLocal r)
      (fun _ w => ∃ wal, w = { start with wal } ∧ wal.durable = start.wal.durable ++ [r])
      (fun w => ∃ wal, w = { start with wal } ∧
        (wal.durable = start.wal.durable ∨ wal.durable = start.wal.durable ++ [r])) := by
  unfold appendLocal onWal
  refine Triple.zoom World.walLens fun w same => ?_
  subst same
  exact (appendRecord_durable ing.codec w.wal).conseq (fun _ h => h)
    (fun _ wal h => ⟨wal, rfl, h⟩) fun wal h => ⟨wal, rfl, h⟩

def shipped (r : WalRecord) (bytes : Bytes) (w : World) : World :=
  { w with objects := { w.objects with
      remoteWal := RemoteWal.putIn r.recordId bytes w.objects.remoteWal } }

theorem shipRemote_spec (ing : Ingestor) :
    let landed := fun w => w = start ∨ (ing.replicated = true ∧
      ∃ bytes, ing.codec.encode r = .ok bytes ∧ w = shipped r bytes start)
    Triple (· = start) (ing.shipRemote r) (fun _ => landed) landed := by
  intro landed
  unfold shipRemote
  split
  next replicated =>
    refine Observes.ofExcept.bind_triple (.inl rfl) fun bytes encoded => ?_
    have reached : landed (shipped r bytes start) := .inr ⟨replicated, bytes, encoded, rfl⟩
    refine Triple.replace_bind (.inl rfl) reached ?_
    refine Observes.read.bind_triple reached fun _ _ => ?_
    exact ((Engine.assertWriteOwner_spec _).triple fun _ same => same ▸ reached).weaken
      fun _ _ same => same.2 ▸ reached
  · exact Triple.pure fun _ same => .inl same

/-! ### A whole call -/

/-- What the properties of runs are about; the log file, the dictionary, the counters, the mirror
and the cold tier are left out. -/
structure Essence where
  store : Store
  deadLetters : List DeadLetter
  durable : List WalRecord
  idempotency : IdempotencyIndex
  offsets : BTreeMap String Nat
  suppressed : List Event
  remoteWal : RemoteLog

def Essence.ledger (x : Essence) : Store × List DeadLetter := (x.store, x.deadLetters)

def essence (w : World) : Essence :=
  ⟨w.store, w.deadLetters, w.wal.durable, w.idempotency, w.offsets, w.suppressed,
    w.objects.remoteWal⟩

/-- The record of the screened batch is durable in the local log and may be in the replicated
one. -/
structure Logged (ing : Ingestor) (events : List Event) (source : Option String)
    (nextOffset : Option Nat) (nowMs : Int) (start : World) (screened : Screened) (r : WalRecord)
    (w : World) : Prop where
  screens : Screens events nowMs start screened
  widens : Widens events nowMs start screened.dict
  chosen : ing.Chooses start r.recordId
  record : r = ⟨r.recordId, screened.accepted, source, nextOffset, nowMs⟩
  store : w.store = start.store
  letters : w.deadLetters = start.deadLetters ++ screened.dead
  suppressed : w.suppressed = start.suppressed ++ screened.suppressed
  durable : w.wal.durable = start.wal.durable ++ [r]
  idempotency : w.idempotency = start.idempotency
  offsets : w.offsets = start.offsets
  dictionary : w.dictionary = start.dictionary
  remoteWal : w.objects.remoteWal = start.objects.remoteWal ∨
    (ing.replicated = true ∧ ∃ bytes, ing.codec.encode r = .ok bytes ∧
      w.objects.remoteWal = RemoteWal.putIn r.recordId bytes start.objects.remoteWal)

theorem Logged.quiet {ing : Ingestor} {events : List Event} {source : Option String}
    {nextOffset : Option Nat} {nowMs : Int} {start w : World} {screened : Screened} {r : WalRecord}
    (logged : Logged ing events source nextOffset nowMs start screened r w) : Quiet start w :=
  ⟨logged.store ▸ Grown.refl _, logged.letters ▸ List.prefix_append _ _⟩

/-- The worlds that an ingest call can leave behind. -/
inductive Reaches (ing : Ingestor) (events : List Event) (source : Option String)
    (nextOffset : Option Nat) (nowMs : Int) (start : World) : World → Prop
  | screening {w w' : World} (prepared : Prepared start w) (same : essence w' = essence w)
    (kept : w'.dictionary = w.dictionary) : Reaches ing events source nextOffset nowMs start w'
  | moved {screened : Screened} {w : World} {name : String} {offset : Nat}
    (screening : Screening events nowMs start screened w) (empty : screened.accepted = [])
    (named : source = some name) (next : nextOffset = some offset) :
    Reaches ing events source nextOffset nowMs start
      { w with offsets := w.offsets.insert name offset }
  | logged {screened : Screened} {r : WalRecord} {w : World}
    (logged : Logged ing events source nextOffset nowMs start screened r w) :
    Reaches ing events source nextOffset nowMs start w
  | publishing {screened : Screened} {r : WalRecord} {w w' w'' : World}
    (logged : Logged ing events source nextOffset nowMs start screened r w)
    (publishing : Publishing r w w') (same : essence w'' = essence w')
    (written : w''.dictionary = w.dictionary ∨
      w''.dictionary = screened.dict ∧ Finished r.events (some r.recordId) w w') :
    Reaches ing events source nextOffset nowMs start w''

structure Reported (events : List Event) (nowMs : Int) (start : World) (report : IngestorReport)
    (w : World) (screened : Screened) : Prop where
  screens : Screens events nowMs start screened
  suppressed : report.duplicatesSuppressed = screened.suppressed.length
  letters : (start.deadLetters ++ screened.dead) <+: w.deadLetters
  written : report.walRecord = none ∨ Widens events nowMs start w.dictionary

theorem finishIngest_spec (dict : KeyDictionary) {start : World} (intact : start.store.Intact) :
    Triple (· = start) (ing.finishIngest report r dict nowMs)
      (fun report' w => report'.duplicatesSuppressed = report.duplicatesSuppressed ∧
        w.dictionary = dict ∧ ∃ w', Published r start w' ∧ essence w = essence w')
      (fun w => ∃ w', Publishing r start w' ∧ essence w = essence w' ∧
        (w.dictionary = start.dictionary ∨
          w.dictionary = dict ∧ Finished r.events (some r.recordId) start w')) := by
  refine Triple.bind ((ing.publishWalRecord_spec intact).stopping fun w publishing =>
    ⟨w, publishing, rfl, .inl (congrArg Logs.dictionary publishing.logs)⟩) fun published => ?_
  refine Triple.fix fun w' done => ?_
  -- From here on only the dictionary and the log file change.
  have reached : ∀ w, essence w = essence w' ∧ w.dictionary = dict →
      ∃ w', Publishing r start w' ∧ essence w = essence w' ∧
        (w.dictionary = start.dictionary ∨
          w.dictionary = dict ∧ Finished r.events (some r.recordId) start w') :=
    fun w same => ⟨w', done.publishing, same.1, .inr ⟨same.2, done.finished⟩⟩
  refine Triple.bind (Q := fun _ w => essence w = essence w' ∧ w.dictionary = dict)
    (Triple.replace ?_ ?_ ?_) fun _ => ?_
  · rintro w rfl
    exact ⟨rfl, rfl⟩
  · rintro w rfl
    exact ⟨w, done.publishing, rfl, .inl (congrArg Logs.dictionary done.logs)⟩
  · rintro w rfl
    exact reached _ ⟨rfl, rfl⟩
  refine Triple.bind ((Engine.snapshot_spec.triple reached).weaken fun _ _ held => held.2)
    fun snap => ?_
  refine Triple.bind (Q := fun _ w => essence w = essence w' ∧ w.dictionary = dict) ?_
    fun _ => Triple.pure ?_
  · refine Triple.zoom World.walLens fun w same => ?_
    have counters := (compactThrough_counters ing.codec snap.appliedWalRecord).keeps
      (· = (w.wal.durable, w.wal.applied))
    have kept : ∀ wal : WalState, (wal.durable, wal.applied) = (w.wal.durable, w.wal.applied) →
        essence { w with wal } = essence w' ∧ w.dictionary = dict := by
      intro wal counted
      rw [← same.1]
      simp [essence, (Prod.mk.inj counted).1, same.2]
    exact counters.conseq (fun wal here => here ▸ rfl) (fun _ => kept)
      fun wal counted => reached _ (kept wal counted)
  · exact fun w same => ⟨rfl, same.2, w', done, same.1⟩

theorem finishSuppressed_spec (source : Option String) :
    let moved := fun w => w = start ∨ ∃ name offset, source = some name ∧
      nextOffset = some offset ∧ w = { start with offsets := start.offsets.insert name offset }
    Triple (· = start) (finishSuppressed report source nextOffset)
      (fun report' w => report'.duplicatesSuppressed = report.duplicatesSuppressed ∧
        report'.walRecord = report.walRecord ∧ moved w)
      moved := by
  intro moved
  refine Engine.snapshot_spec.bind_triple (.inl rfl) fun snap _ => ?_
  split
  next name offset =>
    have reached : moved { start with offsets := start.offsets.insert name offset } :=
      .inr ⟨name, offset, rfl, rfl, rfl⟩
    exact Triple.replace_bind (.inl rfl) reached (Triple.pure fun _ same => ⟨rfl, rfl, same ▸ reached⟩)
  · exact Triple.pure fun _ same => ⟨rfl, rfl, .inl same⟩

/-- Every way an ingest call can end. -/
theorem ingest_spec (nextOffset : Option Nat) (nowMs : Int) {start : World}
    (intact : start.store.Intact) : Triple (· = start) (ing.ingest events source nextOffset nowMs)
      (fun report w => Reaches ing events source nextOffset nowMs start w ∧
        ∃ screened, Reported events nowMs start report w screened)
      (Reaches ing events source nextOffset nowMs start) := by
  refine Triple.bind ((ing.prepare_spec events source).stopping fun _ prepared => .screening prepared rfl rfl) fun prepared => ?_
  obtain ⟨report, screened⟩ := prepared
  refine Triple.fix fun w ⟨screening, counted, unlogged⟩ => ?_
  have here : Reaches ing events source nextOffset nowMs start w :=
    .screening screening.prepared rfl rfl
  have reported : ∀ (report' : IngestorReport) (w' : World), w.deadLetters <+: w'.deadLetters →
      report'.duplicatesSuppressed = report.duplicatesSuppressed →
      (report'.walRecord = none ∨ Widens events nowMs start w'.dictionary) →
      ∃ screened, Reported events nowMs start report' w' screened :=
    fun report' w' grown same written =>
      ⟨screened, screening.screens, same.trans counted, screening.letters ▸ grown, written⟩
  dsimp only
  split
  next empty =>
    -- Nothing to append: at most the source offset moves.
    have moved : ∀ w', (w' = w ∨ ∃ name offset, source = some name ∧ nextOffset = some offset ∧
        w' = { w with offsets := w.offsets.insert name offset }) →
        Reaches ing events source nextOffset nowMs start w' ∧ w.deadLetters <+: w'.deadLetters := by
      rintro w' (rfl | ⟨name, offset, named, next, rfl⟩)
      · exact ⟨here, List.prefix_refl _⟩
      · exact ⟨.moved screening (List.isEmpty_iff.mp empty) named next, List.prefix_refl _⟩
    exact (finishSuppressed_spec source).conseq (fun _ h => h)
      (fun report' w' ⟨same, record, reached⟩ => ⟨(moved w' reached).1,
        reported report' w' (moved w' reached).2 same (.inl (record.trans unlogged))⟩)
      fun w' reached => (moved w' reached).1
  · refine (ing.chooseRecord_spec screened.accepted source).bind_triple here
      fun r ⟨chosen, record⟩ => ?_
    have prepared := screening.prepared
    have chosenAtStart : ing.Chooses start r.recordId := by
      simpa only [Chooses, prepared.wal, prepared.objects] using chosen
    have appended : ∀ wal : WalState, wal.durable = w.wal.durable ++ [r] →
        Logged ing events source nextOffset nowMs start screened r { w with wal } :=
      fun wal durable =>
        { screens := screening.screens
          widens := screening.widens
          chosen := chosenAtStart
          record := record
          store := prepared.store
          letters := screening.letters
          suppressed := screening.suppressed
          durable := prepared.wal ▸ durable
          idempotency := prepared.idempotency
          offsets := prepared.offsets
          dictionary := prepared.dictionary
          remoteWal := .inl (congrArg Objects.remoteWal prepared.objects) }
    refine Triple.bind (ing.appendLocal_spec.stopping ?_) fun _ => ?_
    · rintro w'' ⟨wal, rfl, kept | durable⟩
      · exact .screening prepared (by simp only [essence, kept]) rfl
      · exact .logged (appended wal durable)
    · refine Triple.fix fun w'' ⟨wal, same, durable⟩ => ?_
      have logged := same ▸ appended wal durable
      have shipped : ∀ v, (v = w'' ∨ (ing.replicated = true ∧
          ∃ bytes, ing.codec.encode r = .ok bytes ∧ v = shipped r bytes w'')) →
          Logged ing events source nextOffset nowMs start screened r v := by
        rintro v (rfl | ⟨replicated, bytes, encoded, rfl⟩)
        · exact logged
        · have remote : w''.objects.remoteWal = start.objects.remoteWal := by
            rw [same]
            exact congrArg Objects.remoteWal prepared.objects
          exact { logged with
            remoteWal := .inr ⟨replicated, bytes, encoded,
              congrArg (RemoteWal.putIn r.recordId bytes) remote⟩ }
      refine Triple.bind (ing.shipRemote_spec.conseq (fun _ h => h)
        (fun _ v landed => shipped v landed) fun v landed => .logged (shipped v landed))
        fun _ => ?_
      refine Triple.fix fun v loggedHere => ?_
      have letters : w.deadLetters = v.deadLetters := by
        rw [loggedHere.letters, screening.letters]
      have lettered : w.deadLetters <+: v.deadLetters := letters ▸ List.prefix_refl _
      refine (ing.finishIngest_spec screened.dict
        (loggedHere.store ▸ intact)).conseq (fun _ h => h) ?_ ?_
      · rintro report' v' ⟨counted', widened, v'', done, unchanged⟩
        refine ⟨.publishing loggedHere done.publishing unchanged (.inr ⟨widened, done.finished⟩),
          reported report' v' ?_ counted' (.inr (widened ▸ screening.widens))⟩
        have letters : v'.deadLetters = v''.deadLetters := congrArg Essence.deadLetters unchanged
        rw [letters]
        exact lettered.trans (done.finished.stopped.elim Quiet.letters Commits.letters)
      · rintro v' ⟨v'', publishing, unchanged, written⟩
        exact .publishing loggedHere publishing unchanged written

/-- A poll ends where the ingest of its batch can end, or where it began. -/
theorem pollAndIngest_spec (ing : Ingestor) (source : Source) (max : Nat) (nowMs : Int)
    {start : World} (intact : start.store.Intact) :
    let polled := poll source max ((start.offsets[source.name]?).getD 0)
    let ends := fun w => w = start ∨
      ing.Reaches polled.1 (some source.name) (some polled.2) nowMs start w
    Triple (· = start) (ing.pollAndIngest source max nowMs) (fun _ => ends) ends := by
  intro polled ends
  refine Observes.read.bind_triple (.inl rfl) fun offset own => ?_
  cases own
  dsimp only
  split
  · exact Engine.snapshot_spec.bind_triple (.inl rfl) fun _ _ => Triple.pure fun _ same => .inl same
  · exact (ing.ingest_spec _ _ _ nowMs intact).conseq (fun _ h => h) (fun _ _ h => .inr h.1)
      fun _ h => .inr h

end Ingestor

end Prism
