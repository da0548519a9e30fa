import Prism.Engine.Mirror
import Prism.Properties.MarkerSoundness
import Prism.Properties.OperationPhases

/-!
The catalog mirror and the two admission logs: which durable records could be lost if the catalog
were restored from the mirror.
-/

namespace Prism

open CrashLogic Fallible Catalog Store Engine OrderedMap

variable {codec : WalCodec} {events : List Event} {nowMs : Int} {r : WalRecord}

/-! ### The mirror behind the catalog -/

def MarkerLE (a b : Option Nat) : Prop := ∀ m, a = some m → ∃ n, b = some n ∧ m ≤ n

theorem MarkerLE.refl (a : Option Nat) : MarkerLE a a := fun m same => ⟨m, same, le_refl m⟩

theorem MarkerLE.trans {a b c : Option Nat} (first : MarkerLE a b) (second : MarkerLE b c) :
    MarkerLE a c := by
  intro m marked
  obtain ⟨n, marked, below⟩ := first m marked
  obtain ⟨k, marked, above⟩ := second n marked
  exact ⟨k, marked, below.trans above⟩

structure Highest (mirror : BTreeMap SnapshotId Snapshot) (top : Snapshot) : Prop where
  held : mirror[top.snapshotId]? = some top
  above : ∀ (id : SnapshotId) (snap : Snapshot), mirror[id]? = some snap → id ≤ top.snapshotId

/-- The mirror is at or behind this head: numbers and markers are not above the head's, and under
the head's number there is nothing but the head. -/
structure Follows (mirror : BTreeMap SnapshotId Snapshot) (head : Snapshot) : Prop where
  own : ∀ (id : SnapshotId) (snap : Snapshot), mirror[id]? = some snap → snap.snapshotId = id
  number : ∀ (id : SnapshotId) (snap : Snapshot), mirror[id]? = some snap → id ≤ head.snapshotId
  marker : ∀ (id : SnapshotId) (snap : Snapshot), mirror[id]? = some snap →
    MarkerLE snap.appliedWalRecord head.appliedWalRecord
  same : ∀ snap, mirror[head.snapshotId]? = some snap → snap = head

namespace Follows

variable {mirror : BTreeMap SnapshotId Snapshot} {head : Snapshot}

theorem empty (head : Snapshot) : Follows ∅ head :=
  ⟨by simp, by simp, by simp, by simp⟩

/-- A commit on the head leaves the mirror one snapshot behind. -/
theorem commit (follows : Follows mirror head) {new : Snapshot}
    (next : new.snapshotId = head.snapshotId + 1)
    (marked : MarkerLE head.appliedWalRecord new.appliedWalRecord) : Follows mirror new where
  own := follows.own
  number id snap held := by
    rw [next]
    exact Nat.le_succ_of_le (follows.number id snap held)
  marker id snap held := (follows.marker id snap held).trans marked
  same snap held := by
    have := follows.number _ _ held
    rw [next] at this
    exact absurd this (Nat.not_succ_le_self _)

theorem insert_head (follows : Follows mirror head) :
    Follows (mirror.insert head.snapshotId head) head ∧
      Highest (mirror.insert head.snapshotId head) head := by
  have cases : ∀ (id : SnapshotId) (snap : Snapshot),
      (mirror.insert head.snapshotId head)[id]? = some snap →
        (id = head.snapshotId ∧ snap = head) ∨ mirror[id]? = some snap := by
    intro id snap held
    exact of_getElem?_insert held
  refine ⟨⟨?_, ?_, ?_, ?_⟩, ⟨by simp, ?_⟩⟩
  · intro id snap held
    rcases cases id snap held with ⟨rfl, rfl⟩ | before
    · rfl
    · exact follows.own id snap before
  · intro id snap held
    rcases cases id snap held with ⟨rfl, rfl⟩ | before
    · exact le_refl _
    · exact follows.number id snap before
  · intro id snap held
    rcases cases id snap held with ⟨rfl, rfl⟩ | before
    · exact MarkerLE.refl _
    · exact follows.marker id snap before
  · intro snap held
    simpa [eq_comm] using held
  · intro id snap held
    rcases cases id snap held with ⟨rfl, rfl⟩ | before
    · exact le_refl _
    · exact follows.number id snap before

end Follows

namespace World

/-- The highest mirrored snapshot has applied the record of this id. -/
def MirrorCovers (w : World) (recordId : Nat) : Prop :=
  ∃ top, Highest w.objects.mirror top ∧ MarkerLE (some recordId) top.appliedWalRecord

def RemoteHolds (codecs : List WalCodec) (w : World) (r : WalRecord) : Prop :=
  ∃ bytes, w.objects.remoteWal[r.recordId]? = some bytes ∧
    ∀ codec ∈ codecs, codec.decode bytes = .ok r

def LocalHolds (codecs : List WalCodec) (w : World) (r : WalRecord) : Prop :=
  ∀ codec ∈ codecs, ∃ all, Wal.readAllIn codec w.wal.file = .ok all ∧ r ∈ all

/-- What the mirror and the logs have to do with: the head, the mirror and both logs. -/
def tip (w : World) :
    Result Snapshot × BTreeMap SnapshotId Snapshot × WalState × RemoteLog :=
  (currentIn w.store, w.objects.mirror, w.wal, w.objects.remoteWal)

end World

open World

variable {w w' : World}

theorem World.MirrorCovers.of_mirror {n : Nat} (covers : w.MirrorCovers n)
    (same : w'.objects.mirror = w.objects.mirror) : w'.MirrorCovers n := by
  obtain ⟨top, highest, marked⟩ := covers
  exact ⟨top, same ▸ highest, marked⟩

/-- The head is `head`, the mirror is behind it and covers no less than in `start`, and the logs are
those of `start`. -/
structure Trails (start : World) (head : Snapshot) (w : World) : Prop where
  current : currentIn w.store = .ok head
  follows : Follows w.objects.mirror head
  covers : ∀ n, start.MirrorCovers n → w.MirrorCovers n
  wal : w.wal = start.wal
  remote : w.objects.remoteWal = start.objects.remoteWal

namespace Trails

variable {start w w' : World} {head : Snapshot}

theorem of_tip (trails : Trails start head w) (same : w'.tip = w.tip) : Trails start head w' := by
  obtain ⟨current, rest⟩ := Prod.mk.inj same
  obtain ⟨mirror, rest⟩ := Prod.mk.inj rest
  obtain ⟨wal, remote⟩ := Prod.mk.inj rest
  exact ⟨current.trans trails.current, mirror ▸ trails.follows,
    fun n covers => (trails.covers n covers).of_mirror mirror, wal.trans trails.wal,
    remote.trans trails.remote⟩

theorem trans {head' : Snapshot} (first : Trails start head w) (second : Trails w head' w') :
    Trails start head' w' :=
  ⟨second.current, second.follows, fun n covers => second.covers n (first.covers n covers),
    second.wal.trans first.wal, second.remote.trans first.remote⟩

/-- The head on the mirror. -/
theorem mirrored (trails : Trails start head w)
    (same : w'.store = w.store ∧ w'.wal = w.wal ∧ w'.objects.remoteWal = w.objects.remoteWal)
    (put : w'.objects.mirror = w.objects.mirror.insert head.snapshotId head) :
    Trails start head w' ∧ Highest w'.objects.mirror head := by
  obtain ⟨follows, highest⟩ := trails.follows.insert_head
  rw [← put] at follows highest
  refine ⟨⟨same.1 ▸ trails.current, follows, fun n covers => ?_, same.2.1.trans trails.wal,
    same.2.2.trans trails.remote⟩, highest⟩
  obtain ⟨top, above, marked⟩ := trails.covers n covers
  exact ⟨head, highest, marked.trans (trails.follows.marker _ top above.held)⟩

end Trails

/-! ### Programs that do not commit -/

variable {start : World} {head : Snapshot} {α : Type}

theorem trails_of_leaves {p : Io α} (leaves : Leaves World.tip p) {E : World → Prop}
    (stopped : ∀ w, Trails start head w → E w) :
    Triple (Trails start head) p (fun _ => Trails start head) E :=
  leaves.carry (fun _ _ same trails => trails.of_tip same) stopped

/-- A program of the store that does not touch the head. -/
theorem onStore_tip {p : StoreProg α} (leaves : Leaves currentIn p) :
    Leaves World.tip (onStore p) :=
  Leaves.inside leaves fun store w same => by simp only [World.tip, same]

variable {nowMs : Int}

theorem writePart_tip {shape : PartShape} {spec : PartSpec} {seq : Nat} {rows : List RowIn} :
    Leaves World.tip (onStore (Catalog.writePart shape spec seq rows nowMs)) :=
  onStore_tip <| Leaves.bind Leaves.ofExcept fun _ =>
    Leaves.bind (Leaves.replace fun _ => putPart_grown.head) fun _ => Leaves.pure

theorem writePartition_tip (engine : Engine) (g : Generation)
    (item : Nat × PartitionKey × List RowIn) :
    Leaves World.tip (engine.writePartition g nowMs item) :=
  Leaves.bind Leaves.ofExcept fun _ => Leaves.bind Leaves.ofExcept fun _ =>
    Leaves.bind writePart_tip fun _ => Leaves.pure

theorem publishPartCold_tip (partId : String) : Leaves World.tip (publishPartCold partId) := by
  refine Leaves.bind Leaves.read fun found => ?_
  split
  · exact Leaves.pure
  · refine Leaves.bind Leaves.read fun size => ?_
    dsimp only
    split
    · exact Leaves.bind (Leaves.replace fun _ => rfl) fun _ => Leaves.read
    · exact Leaves.read

theorem snapshot_trails :
    Triple (Trails start head) snapshot (fun snap w => snap = head ∧ Trails start head w)
      (Trails start head) := by
  exact (snapshot_spec.triple fun _ trails => trails).weaken
    fun _ _ ⟨read, trails⟩ => ⟨ok_unique read trails.current, trails⟩

/-! ### Mirroring the head and committing on it -/

theorem mirrorSnapshot_trails : Triple (Trails start head) (mirrorSnapshot head)
      (fun _ w => Trails start head w ∧
        (head.snapshotId = Snapshot.empty.snapshotId ∨ Highest w.objects.mirror head))
      (Trails start head) := by
  unfold mirrorSnapshot
  split
  next empty => exact Triple.pure fun _ trails => ⟨trails, .inl empty⟩
  · have put : ∀ w, Trails start head w → Trails start head (putMirror head w) ∧
        Highest (putMirror head w).objects.mirror head := by
      intro w trails
      unfold putMirror
      split
      next there =>
        -- Under the number of the head there is nothing but the head.
        obtain ⟨snap, held⟩ := Option.isSome_iff_exists.mp
          (Std.ExtTreeMap.contains_eq_isSome_getElem?.symm.trans there)
        obtain rfl := trails.follows.same snap held
        exact ⟨trails, held, trails.follows.number⟩
      next => exact trails.mirrored ⟨rfl, rfl, rfl⟩ rfl
    refine Triple.bind (Q := fun _ w => Trails start head w ∧ Highest w.objects.mirror head)
      (Triple.replace put (fun _ trails => trails) fun w trails =>
        (put w trails).1) fun _ => ?_
    exact Triple.read (fun _ _ mirrored _ => ⟨mirrored.1, .inr mirrored.2⟩) fun _ mirrored => mirrored.1

def HeadMoves (start : World) (head : Snapshot) (applied : Option Nat) (w : World) : Prop :=
  Trails start head w ∨ ∃ new, new.snapshotId = head.snapshotId + 1 ∧
    new.appliedWalRecord = applied ∧ Trails start new w

variable {applied : Option Nat}

theorem HeadMoves.of_tip (moves : HeadMoves start head applied w) (same : w'.tip = w.tip) :
    HeadMoves start head applied w' := by
  rcases moves with trails | ⟨new, next, own, trails⟩
  · exact .inl (trails.of_tip same)
  · exact .inr ⟨new, next, own, trails.of_tip same⟩

variable {parts : List PartEntry} {active : Option String} {carried : SnapshotMeta}

theorem commitMeta_trails {nextSeq : Nat}
    (marked : MarkerLE head.appliedWalRecord carried.appliedWalRecord) :
    Triple (Trails start head) (onStore (Catalog.commitMeta head parts nextSeq active carried nowMs))
      (fun new w => new.snapshotId = head.snapshotId + 1 ∧
        new.appliedWalRecord = carried.appliedWalRecord ∧ Trails start new w)
      (HeadMoves start head carried.appliedWalRecord) := by
  refine Triple.fix fun w trails => ?_
  have committed : Trails start (nextSnapshot head parts nextSeq active carried nowMs)
      { w with store := install (nextSnapshot head parts nextSeq active carried nowMs) w.store } :=
    ⟨currentIn_install _ _, trails.follows.commit rfl marked, trails.covers, trails.wal,
      trails.remote⟩
  refine onStore_spec ((commitMeta_spec head parts nextSeq active carried nowMs w.store).conseq
    (fun _ h => h) ?_ ?_)
  · rintro _ store ⟨rfl, rfl, _⟩
    exact ⟨rfl, rfl, committed⟩
  · rintro store (rfl | ⟨rfl, _⟩ | ⟨rfl, _⟩)
    · exact .inl trails
    · refine .inl (trails.of_tip ?_)
      have same : currentIn (putSnapshot (nextSnapshot head parts nextSeq active carried nowMs)
          w.store) = currentIn w.store :=
        (putSnapshot_grown trails.current (Nat.lt_succ_self head.snapshotId)).head
      simp only [World.tip, same]
    · exact .inr ⟨_, rfl, rfl, committed⟩

/-! ### The operations -/

theorem markedMeta_applied (snap : Snapshot) (applied : Option Nat) :
    (markedMeta snap applied).appliedWalRecord = applied.or snap.appliedWalRecord := by
  cases applied <;> rfl

def HeadMirrored (start : World) (head : Snapshot) (applied : Option Nat) (w : World) : Prop :=
  Trails start head w ∨ ∃ new, new.appliedWalRecord = applied ∧ Trails start new w ∧
    Highest w.objects.mirror new

section Ingest

variable {applied : Option Nat}
  (marked : MarkerLE head.appliedWalRecord (applied.or head.appliedWalRecord))

theorem stays (w : World) (trails : Trails start head w) :
    HeadMoves start head (applied.or head.appliedWalRecord) w := .inl trails

include marked

variable (engine : Engine)

theorem writeAndCommit_trails (g : Generation) (embedded : List (Event × Vector32))
    (dead : List DeadLetter) (trained : Bool) : Triple (Trails start head)
      (engine.writeAndCommit head g embedded dead trained nowMs applied)
      (fun _ => HeadMirrored start head (applied.or head.appliedWalRecord))
      (HeadMoves start head (applied.or head.appliedWalRecord)) := by
  refine Triple.bind (trails_of_leaves (writeDeadLetters_leaves (fun _ _ => rfl) dead) stays) fun _ => ?_
  split
  · exact Triple.pure fun _ trails => .inl trails
  · refine Triple.bind (trails_of_leaves Leaves.ofExcept stays) fun rows => ?_
    refine Triple.bind (trails_of_leaves (Leaves.each (writePartition_tip engine g)) stays)
      fun refs => ?_
    refine Triple.bind (trails_of_leaves (Leaves.each publishPartCold_tip) stays) fun _ => ?_
    refine Triple.bind (trails_of_leaves ((assertWriteOwner_spec engine).leaves _) stays) fun _ => ?_
    refine Triple.bind (mirrorSnapshot_trails.conseq (fun _ h => h) (fun _ _ h => h.1) stays)
      fun _ => ?_
    refine Triple.bind ((commitMeta_trails ?_).stopping ?_) fun new => ?_
    · rwa [markedMeta_applied]
    · rw [markedMeta_applied]
      exact fun _ h => h
    · rw [markedMeta_applied]
      refine Triple.fix fun w ⟨next, own, trails⟩ => ?_
      refine Triple.bind ((mirrorSnapshot_trails.conseq (fun _ same => same ▸ trails)
        (fun _ _ h => h) fun w' trails' => .inr ⟨new, next, own, trails'⟩)) fun _ => Triple.pure ?_
      rintro w' ⟨trails', empty | highest⟩
      · rw [next] at empty
        cases empty
      · exact .inr ⟨new, own, trails', highest⟩

theorem ingestInner_trails (preflightModel : Bool) :
    Triple (Trails start head) (engine.ingestInner events nowMs applied preflightModel)
      (fun _ => HeadMirrored start head (applied.or head.appliedWalRecord))
      (HeadMoves start head (applied.or head.appliedWalRecord)) := by
  let S (p : Io IngestReport) : Prop := Triple (Trails start head) p
    (fun _ => HeadMirrored start head (applied.or head.appliedWalRecord))
    (HeadMoves start head (applied.or head.appliedWalRecord))
  refine engine.ingestInner_reads (S := S) (R := fun snap p => snap = head → S p) ?_
    (fun leaves next own => Triple.bind (trails_of_leaves leaves stays) fun a => next a own)
    (writeDeadLetters_leaves fun _ _ => rfl)
    (fun next own => Triple.bind (trails_of_leaves (Phases.replaces (fun _ => rfl)
      (putGenerationIn_unrecorded _)) stays) fun a => next a own)
    (fun _ => Triple.pure fun _ trails => .inl trails) ?_
  · exact fun next => Triple.bind (snapshot_trails.stopping stays) fun snap => Triple.assume (next snap)
  · rintro snap g embedded dead trained rfl
    exact writeAndCommit_trails marked engine g embedded dead trained

end Ingest

def Carries (start : World) (head : Snapshot) (w : World) : Prop :=
  HeadMoves start head head.appliedWalRecord w

theorem Carries.of_trails (w : World) (trails : Trails start head w) : Carries start head w :=
  .inl trails

/-- A commit that carries the marker of the head over. -/
theorem commitCarried_trails {nextSeq : Nat}
    (marked : carried.appliedWalRecord = head.appliedWalRecord) :
    Triple (Trails start head) (onStore (Catalog.commitMeta head parts nextSeq active carried nowMs))
      (fun _ => Carries start head) (Carries start head) := by
  refine (commitMeta_trails ?_).conseq (fun _ h => h) ?_ ?_
  · rw [marked]
    exact MarkerLE.refl _
  · rintro new w ⟨next, own, trails⟩
    exact .inr ⟨new, next, own.trans marked, trails⟩
  · intro w moved
    rwa [marked] at moved

/-- Operations that carry the marker over, whatever they write and commit. -/
def tipPhases : Phases World.tip (fun _ => True) (fun _ _ => True) where
  Stages _ := Leaves World.tip
  Finishes snap _ p := ∀ start, Triple (Trails start snap) p (fun _ => Carries start snap)
    (Carries start snap)
  Publishes p := ∀ start head, Triple (Trails start head) p (fun _ => Carries start head)
    (Carries start head)
  leaves leaves := leaves
  bind := Leaves.bind
  writePart _ := writePart_tip
  finishes leaves _ := (trails_of_leaves leaves Carries.of_trails).weaken fun _ => Carries.of_trails
  onward first next start := Triple.bind (trails_of_leaves first Carries.of_trails) (next · start)
  commit _ marked _ := commitCarried_trails marked
  after first next start := Triple.bind (first start) fun a =>
    (next a).carry (fun _ _ same moved => moved.of_tip same) fun _ moved => moved
  published publishes start := publishes start _
  snapshot finishes start _ := Triple.bind (snapshot_trails.stopping Carries.of_trails)
    fun snap => Triple.assume fun same => same ▸ finishes snap start
  looking first next start head := Triple.bind (trails_of_leaves first Carries.of_trails)
    (next · start head)

/-! ### The logs beside the mirror -/

/-- The log file holds the records kept, and every durable record is kept, covered by the mirror or
on the replicated log. -/
structure Backed (codecs : List WalCodec) (w : World) : Prop where
  follows : ∃ head, currentIn w.store = .ok head ∧ Follows w.objects.mirror head
  log : LogHolds codecs w.wal
  covered : ∀ r ∈ w.wal.durable,
    r ∈ w.wal.kept ∨ w.MirrorCovers r.recordId ∨ w.RemoteHolds codecs r

namespace Backed

variable {codecs : List WalCodec} {w w' : World}

theorem fresh : Backed codecs World.fresh where
  follows := ⟨Snapshot.empty, rfl, Follows.empty _⟩
  log := LogHolds.fresh
  covered := by simp [World.fresh, WalState.fresh]

variable (backed : Backed codecs w)
include backed

/-- Where publication may have gone while the logs stayed as they are. -/
theorem trails (trails : Trails w head w') : Backed codecs w' where
  follows := ⟨head, trails.current, trails.follows⟩
  log := trails.wal ▸ backed.log
  covered r mem := by
    rw [trails.wal] at mem ⊢
    rcases backed.covered r mem with kept | covers | ⟨bytes, held, decoded⟩
    · exact .inl kept
    · exact .inr (.inl (trails.covers _ covers))
    · exact .inr (.inr ⟨bytes, trails.remote ▸ held, decoded⟩)

theorem start_trails : ∃ head, Trails w head w := by
  obtain ⟨head, current, follows⟩ := backed.follows
  exact ⟨head, current, follows, fun _ covers => covers, rfl, rfl⟩

theorem of_tip (same : w'.tip = w.tip) : Backed codecs w' := by
  obtain ⟨head, trails⟩ := backed.start_trails
  exact backed.trails (trails.of_tip same)

/-- Another log file: it holds what it keeps, and what it no longer keeps is covered. -/
theorem of_wal {wal : WalState} (log : LogHolds codecs wal)
    (covered : ∀ r ∈ wal.durable, r ∈ wal.kept ∨ w.MirrorCovers r.recordId ∨ w.RemoteHolds codecs r)
    : Backed codecs { w with wal } :=
  ⟨backed.follows, log, covered⟩

/-- What is still to read in the local log. -/
theorem holds {r : WalRecord} (kept : r ∈ w.wal.kept) : w.LocalHolds codecs r :=
  fun _ used => ⟨w.wal.kept, backed.log.readAll used, kept⟩

end Backed

/-- An append adds the record to both histories or to none of them. -/
theorem appendRecord_histories (start : WalState) : let both := fun wal : WalState =>
      wal.durable = start.durable ++ [r] ∧ wal.kept = start.kept ++ [r]
    let neither := fun wal : WalState => wal.durable = start.durable ∧ wal.kept = start.kept
    Triple (· = start) (Wal.appendRecord codec r) (fun _ => both)
      (fun wal => neither wal ∨ both wal) := by
  intro both neither
  have stays : ∀ wal, wal = start → neither wal ∨ both wal :=
    fun _ same => .inl (same ▸ ⟨rfl, rfl⟩)
  refine Triple.bind (Triple.read (fun _ _ same _ => same) stays) fun nextId => ?_
  split
  · exact Triple.throw stays
  · refine Triple.bind (Triple.ofExcept (fun _ _ _ same => same) stays) fun json => ?_
    refine Triple.bind (Q := fun _ => both) (Triple.act ?_ ?_) fun _ => ?_
    · rintro wal rfl
      exact ⟨if_neg (lt_irrefl _), if_neg (lt_irrefl _)⟩
    · rintro n wal rfl
      by_cases cut : n < (FrameLog.frame crc32 json).length
      · exact .inl ⟨if_pos cut, if_pos cut⟩
      · exact .inr ⟨if_neg cut, if_neg cut⟩
    · split
      · exact Triple.replace (fun _ h => h) (fun _ h => .inr h) fun _ h => .inr h
      · exact Triple.throw fun _ h => .inr h

variable {codecs : List WalCodec} {r : WalRecord} (ing : Ingestor)

theorem appendLocal_backed (used : ing.codec ∈ codecs) (readsBack : ReadsBack codecs r)
    (backed : Backed codecs start) (clean : FrameLog.unread crc32 start.wal.file = []) :
    Triple (· = start) (ing.appendLocal r)
      (fun _ w => Backed codecs w ∧ ∃ wal, w = { start with wal } ∧ wal.kept = start.wal.kept ++ [r])
      (Backed codecs) := by
  unfold Ingestor.appendLocal onWal
  refine Triple.zoom World.walLens fun w same => ?_
  subst same
  have appended := (appendRecord_histories w.wal).and (appendRecord_holds used readsBack)
  have added : ∀ wal : WalState, LogHolds codecs wal → wal.durable = w.wal.durable ++ [r] →
      wal.kept = w.wal.kept ++ [r] → Backed codecs { w with wal } := by
    intro wal log durable kept
    refine backed.of_wal log fun x mem => ?_
    rw [durable] at mem
    rw [kept]
    rcases List.mem_append.mp mem with earlier | last
    · exact (backed.covered x earlier).imp_left (List.mem_append_left _)
    · exact .inl (List.mem_append_right _ last)
  refine appended.conseq (fun wal same => ⟨same, same ▸ ⟨backed.log, clean⟩⟩) ?_ ?_
  · rintro _ wal ⟨⟨durable, kept⟩, log⟩
    exact ⟨added wal log durable kept, wal, rfl, kept⟩
  · rintro wal ⟨⟨durable, kept⟩ | ⟨durable, kept⟩, log⟩
    · exact backed.of_wal log (by rw [durable, kept]; exact backed.covered)
    · exact added wal log durable kept

/-- Compaction drops at most the records at or below its floor. -/
theorem compactThrough_histories (floor : Option Nat) (start : WalState) :
    let compacted := fun wal : WalState => wal.durable = start.durable ∧
      (wal.kept = start.kept ∨ wal.kept = start.kept.filter (floor.getD 0 < ·.recordId) ∧
        floor.isSome)
    Triple (· = start) (Wal.compactThrough codec floor) (fun _ => compacted) compacted := by
  intro compacted
  have stays : ∀ wal, wal = start → compacted wal := fun _ same => same ▸ ⟨rfl, .inl rfl⟩
  cases floor with
  | none => exact Triple.pure stays
  | some floor =>
    refine Triple.bind (Triple.read (fun _ _ same _ => same) stays) fun all => ?_
    dsimp only
    split
    · exact Triple.pure stays
    · refine Triple.bind (Triple.ofExcept (fun _ _ _ same => same) stays) fun file => ?_
      have dropped : ∀ wal, wal = start → compacted { wal with
          file := file, kept := wal.kept.filter (floor < ·.recordId) } :=
        fun _ same => same ▸ ⟨rfl, .inr ⟨rfl, rfl⟩⟩
      exact Triple.bind (Triple.replace dropped stays dropped) fun _ => Triple.pure fun _ h => h

def Droppable (codecs : List WalCodec) (floor : Option Nat) (w : World) : Prop :=
  ∀ r ∈ w.wal.kept, MarkerLE (some r.recordId) floor →
    w.MirrorCovers r.recordId ∨ w.RemoteHolds codecs r

variable {floor : Option Nat}

theorem compactThrough_backed {codec : WalCodec} (used : codec ∈ codecs)
    (backed : Backed codecs start) (droppable : Droppable codecs floor start) :
    Triple (· = start) (onWal (Wal.compactThrough codec floor)) (fun _ => Backed codecs)
      (Backed codecs) := by
  unfold onWal
  refine Triple.zoom World.walLens fun w same => ?_
  subst same
  have compacted := (compactThrough_histories floor w.wal).and (compactThrough_holds used)
  have done : ∀ wal : WalState, (wal.durable = w.wal.durable ∧ (wal.kept = w.wal.kept ∨
      wal.kept = w.wal.kept.filter (floor.getD 0 < ·.recordId) ∧ floor.isSome)) ∧
      LogHolds codecs wal → Backed codecs { w with wal } := by
    rintro wal ⟨⟨durable, kept | ⟨kept, given⟩⟩, log⟩
    · exact backed.of_wal log (by rw [durable, kept]; exact backed.covered)
    · obtain ⟨f, rfl⟩ := Option.isSome_iff_exists.mp given
      refine backed.of_wal log fun r mem => ?_
      rw [durable] at mem
      rw [kept, List.mem_filter]
      rcases backed.covered r mem with inside | elsewhere
      · by_cases above : f < r.recordId
        · exact .inl ⟨inside, by simpa using above⟩
        · refine .inr (droppable r inside fun m same => ⟨f, rfl, ?_⟩)
          cases same
          exact Nat.not_lt.mp above
      · exact .inr elsewhere
  exact compacted.conseq (fun wal same => ⟨same, same ▸ backed.log⟩) (fun _ => done) done

structure Ships (codecs : List WalCodec) (start w : World) : Prop where
  store : w.store = start.store
  wal : w.wal = start.wal
  mirror : w.objects.mirror = start.objects.mirror
  remote : ∀ r, start.RemoteHolds codecs r → w.RemoteHolds codecs r

theorem Ships.backed (ships : Ships codecs start w) (backed : Backed codecs start) :
    Backed codecs w where
  follows := by
    rw [ships.store, ships.mirror]
    exact backed.follows
  log := ships.wal ▸ backed.log
  covered r mem := by
    rw [ships.wal] at mem ⊢
    rcases backed.covered r mem with kept | covers | held
    · exact .inl kept
    · exact .inr (.inl (covers.of_mirror ships.mirror))
    · exact .inr (.inr (ships.remote r held))

theorem ships_put (codecs : List WalCodec) (bytes : Bytes) (w : World) :
    Ships codecs w (Ingestor.shipped r bytes w) := by
  refine ⟨rfl, rfl, rfl, fun x ⟨held, found, decoded⟩ => ⟨held, ?_, decoded⟩⟩
  unfold Ingestor.shipped RemoteWal.putIn
  dsimp only
  split
  · exact found
  next absent =>
    rw [Std.ExtTreeMap.getElem?_insert, if_neg, found]
    exact fun same => absent (compare_eq_iff_eq.mp same ▸ contains_of_getElem? found)

theorem shipRemote_backed (used : ing.codec ∈ codecs) (readsBack : ReadsBack codecs r)
    (backed : Backed codecs start) : Triple (· = start) (ing.shipRemote r)
      (fun _ w => Ships codecs start w ∧ (ing.replicated = true → w.RemoteHolds codecs r))
      (Backed codecs) := by
  have stays : ∀ w, w = start → Backed codecs w := fun w same => same ▸ backed
  unfold Ingestor.shipRemote
  split
  next replicated =>
    refine Triple.bind (Q := fun bytes w => ing.codec.encode r = .ok bytes ∧ w = start)
      (Triple.ofExcept (fun _ _ encoded same => ⟨encoded, same⟩) stays) fun bytes => ?_
    refine Triple.assume fun encoded => ?_
    have reached : ∀ w, w = Ingestor.shipped r bytes start → Backed codecs w :=
      fun w same => same ▸ (ships_put codecs bytes start).backed backed
    refine Triple.bind (Q := fun _ w => w = Ingestor.shipped r bytes start)
      (Triple.replace (fun w same => same ▸ rfl) stays fun w same => reached _ (same ▸ rfl))
      fun _ => ?_
    have confirmed : ∀ (w : World) (u : Unit), w = Ingestor.shipped r bytes start →
        RemoteWal.confirmIn r.recordId bytes w.objects.remoteWal = .ok u →
        Ships codecs start w ∧ (ing.replicated = true → w.RemoteHolds codecs r) := by
      rintro w u rfl returned
      refine ⟨ships_put codecs bytes start, fun _ => ⟨bytes, ?_, fun reader known =>
        (readsBack ing.codec used reader known bytes encoded).2⟩⟩
      unfold RemoteWal.confirmIn at returned
      split at returned
      next found there =>
        split at returned
        next same => exact same ▸ there
        · cases returned
      · cases returned
    refine Triple.bind (Q := fun _ w => w = Ingestor.shipped r bytes start ∧
      (Ships codecs start w ∧ (ing.replicated = true → w.RemoteHolds codecs r)))
      (Triple.read (fun u w same returned => ⟨same, confirmed w u same returned⟩) reached) fun _ => ?_
    have checked : Leaves (fun w : World => w) ing.engine.assertWriteOwner :=
      (assertWriteOwner_spec ing.engine).unchanged
    exact (checked.carry (fun _ _ same held => same ▸ held) fun w held => reached w held.1).weaken
      fun _ _ held => held.2
  next single =>
    refine Triple.pure ?_
    rintro w rfl
    exact ⟨⟨rfl, rfl, rfl, fun _ h => h⟩, fun replicated => absurd replicated single⟩

/-! ### Publication, ingest and recovery -/

theorem HeadMirrored.of_tip (mirrored : HeadMirrored start head applied w) (same : w'.tip = w.tip) :
    HeadMirrored start head applied w' := by
  have mirror : w'.objects.mirror = w.objects.mirror := congrArg (·.2.1) same
  rcases mirrored with trails | ⟨new, own, trails, highest⟩
  · exact .inl (trails.of_tip same)
  · exact .inr ⟨new, own, trails.of_tip same, mirror ▸ highest⟩

theorem HeadMirrored.backed (mirrored : HeadMirrored start head applied w)
    (backed : Backed codecs start) : Backed codecs w := by
  rcases mirrored with trails | ⟨_, _, trails, _⟩
  · exact backed.trails trails
  · exact backed.trails trails

theorem HeadMoves.backed (moves : HeadMoves start head applied w) (backed : Backed codecs start) :
    Backed codecs w := by
  rcases moves with trails | ⟨_, _, _, trails⟩
  · exact backed.trails trails
  · exact backed.trails trails

theorem recordKeys_tip : Leaves World.tip (recordKeys events) :=
  Leaves.bind Leaves.read fun _ => Leaves.replace fun _ => rfl

theorem commitRecordOffset_tip : Leaves World.tip (commitRecordOffset r) := by
  unfold commitRecordOffset
  split
  · exact Leaves.bind (Leaves.replace fun _ => rfl) fun _ => Leaves.pure
  · exact Leaves.pure

theorem publishWalRecord_trails (backed : Backed codecs start)
    (marked : MarkerLE head.appliedWalRecord (some r.recordId)) :
    Triple (Trails start head) (ing.publishWalRecord r nowMs)
      (fun _ => HeadMirrored start head (some r.recordId)) (Backed codecs) := by
  refine Triple.bind ((ingestInner_trails marked ing.engine false).stopping fun _ moves => moves.backed backed) fun inner => ?_
  refine Leaves.carry (Leaves.bind recordKeys_tip fun _ =>
    Leaves.bind commitRecordOffset_tip fun _ => Leaves.pure) ?_ ?_
  · exact fun _ _ same mirrored => mirrored.of_tip same
  · exact fun _ mirrored => mirrored.backed backed

/-- Once the head is on the mirror, what is at or below its marker may be dropped. -/
theorem Highest.droppable {top : Snapshot} (highest : Highest w.objects.mirror top) :
    Droppable codecs top.appliedWalRecord w :=
  fun _ _ below => .inl ⟨top, highest, below⟩

theorem Droppable.trails (droppable : Droppable codecs floor start) (trails : Trails start head w) :
    Droppable codecs floor w := by
  intro r kept below
  rw [trails.wal] at kept
  rcases droppable r kept below with covers | ⟨bytes, held, decoded⟩
  · exact .inl (trails.covers _ covers)
  · exact .inr ⟨bytes, trails.remote ▸ held, decoded⟩

/-- Publish a record that is in the log, then compact. -/
theorem finishIngest_backed (used : ing.codec ∈ codecs) (report : IngestorReport)
    (dict : KeyDictionary) (backed : Backed codecs start)
    (marked : MarkerLE start.store.marker (some r.recordId))
    (droppable : Droppable codecs start.store.marker start) :
    Triple (· = start) (ing.finishIngest report r dict nowMs) (fun _ => Backed codecs)
      (Backed codecs) := by
  obtain ⟨head, trails⟩ := backed.start_trails
  have floor : start.store.marker = head.appliedWalRecord := by
    simp only [Store.marker, trails.current]
  rw [floor] at marked droppable
  refine Triple.bind ((publishWalRecord_trails ing backed marked).strengthen
    fun _ same => same ▸ trails) fun published => ?_
  have dictionary : Leaves World.tip
      (Prog.replace deviceError fun w : World => { w with dictionary := dict }) :=
    Leaves.replace fun _ => rfl
  refine Triple.bind (dictionary.carry (fun _ _ same mirrored => mirrored.of_tip same)
    fun _ mirrored => mirrored.backed backed) fun _ => ?_
  refine Triple.fix fun w mirrored => ?_
  have here : Backed codecs w := mirrored.backed backed
  refine snapshot_spec.bind_triple here fun snap read => ?_
  refine Triple.bind (compactThrough_backed used here ?_) fun _ => Triple.pure fun _ h => h
  rcases mirrored with trails' | ⟨new, _, trails', highest⟩
  · obtain rfl := ok_unique read trails'.current
    exact droppable.trails trails'
  · obtain rfl := ok_unique read trails'.current
    exact highest.droppable

/-- The mirror has applied what the catalog has. -/
def World.MirrorCurrent (w : World) : Prop := ∀ m, w.store.marker = some m → w.MirrorCovers m

theorem World.MirrorCovers.mono {m n : Nat} (covers : w.MirrorCovers m) (below : n ≤ m) :
    w.MirrorCovers n := by
  obtain ⟨top, highest, marked⟩ := covers
  refine ⟨top, highest, fun k same => ?_⟩
  cases same
  obtain ⟨l, applied, above⟩ := marked m rfl
  exact ⟨l, applied, below.trans above⟩

theorem World.MirrorCurrent.droppable (current : w.MirrorCurrent) :
    Droppable codecs w.store.marker w := by
  intro r _ below
  obtain ⟨m, marker, le⟩ := below r.recordId rfl
  exact .inl ((current m marker).mono le)

def Legible (codecs : List WalCodec) (ing : Ingestor) (events : List Event) (source : Option String)
    (nextOffset : Option Nat) (nowMs : Int) (w : World) : Prop :=
  ing.codec ∈ codecs ∧ ∀ screened id, Ingestor.Screens events nowMs w screened →
    screened.accepted ≠ [] → ing.Chooses w id →
      ReadsBack codecs ⟨id, screened.accepted, source, nextOffset, nowMs⟩

/-- What an ingest may drop when it ends: all that the marker covers is on the mirror, or all of it
and what it appends is on the replicated log. -/
def Restorable (codecs : List WalCodec) (ing : Ingestor) (w : World) : Prop :=
  w.MirrorCurrent ∨ ing.replicated = true ∧ Droppable codecs w.store.marker w

theorem prepared_tip (prepared : Ingestor.Prepared w w') : w'.tip = w.tip := by
  simp only [World.tip, prepared.store, prepared.objects, prepared.wal]

theorem ingest_backed (source : Option String) (nextOffset : Option Nat) (backed : Backed codecs start)
    (legible : Legible codecs ing events source nextOffset nowMs start)
    (clean : FrameLog.unread crc32 start.wal.file = [])
    (newest : ∀ id, ing.Chooses start id → MarkerLE start.store.marker (some id))
    (restorable : Restorable codecs ing start) :
    Triple (· = start) (ing.ingest events source nextOffset nowMs) (fun _ => Backed codecs)
      (Backed codecs) := by
  obtain ⟨used, readsBack⟩ := legible
  refine Triple.bind ((ing.prepare_spec events source).stopping fun _ prepared => backed.of_tip (prepared_tip prepared)) fun prepared => ?_
  obtain ⟨report, screened⟩ := prepared
  refine Triple.fix ?_
  rintro w ⟨screening, -⟩
  have same := screening.prepared
  have here : Backed codecs w := backed.of_tip (prepared_tip same)
  dsimp only
  split
  · refine (Ingestor.finishSuppressed_spec source).conseq (fun _ h => h) ?_ ?_
    · rintro _ w' ⟨_, _, rfl | ⟨_, _, _, _, rfl⟩⟩
      · exact here
      · exact here.of_tip rfl
    · rintro w' (rfl | ⟨_, _, _, _, rfl⟩)
      · exact here
      · exact here.of_tip rfl
  next some =>
    refine (ing.chooseRecord_spec screened.accepted source).bind_triple here ?_
    rintro r ⟨chosen, record⟩
    have chosenAtStart : ing.Chooses start r.recordId := by
      simpa only [Ingestor.Chooses, same.wal, same.objects] using chosen
    have reads : ReadsBack codecs r := record ▸ readsBack screened r.recordId screening.screens
      (fun empty => some (by rw [empty]; rfl)) chosenAtStart
    refine Triple.bind (appendLocal_backed ing used reads here (by rw [same.wal]; exact clean))
      fun _ => ?_
    refine Triple.fix ?_
    rintro w'' ⟨appended, wal, added, kept⟩
    refine Triple.bind (shipRemote_backed ing used reads appended) fun _ => ?_
    refine Triple.fix ?_
    rintro v ⟨ships, shipped⟩
    have marker : v.store.marker = start.store.marker := by
      rw [ships.store, added]
      exact congrArg Store.marker same.store
    have mirror : v.objects.mirror = start.objects.mirror := by
      rw [ships.mirror, added]
      exact congrArg Objects.mirror same.objects
    have keeps : v.wal.kept = start.wal.kept ++ [r] := by
      rw [ships.wal, added, kept, same.wal]
    have older : ∀ x, start.RemoteHolds codecs x → v.RemoteHolds codecs x := by
      intro x held
      refine ships.remote x ?_
      rw [added]
      simpa only [World.RemoteHolds, same.objects] using held
    refine finishIngest_backed ing used report screened.dict (ships.backed appended)
      (marker ▸ newest r.recordId chosenAtStart) ?_
    rcases restorable with current | ⟨replicated, droppable⟩
    · refine World.MirrorCurrent.droppable fun m marked => ?_
      exact (current m (marker ▸ marked)).of_mirror mirror
    · intro x inside below
      rw [keeps] at inside
      rw [marker] at below
      rcases List.mem_append.mp inside with before | last
      · rcases droppable x before below with covers | held
        · exact .inl (covers.of_mirror mirror)
        · exact .inr (older x held)
      · rw [List.mem_singleton.mp last]
        exact .inr (shipped replicated)

theorem reconcileApplied_tip (r : WalRecord) : Leaves World.tip (Ingestor.reconcileApplied r) :=
  Leaves.bind recordKeys_tip fun _ =>
    Leaves.bind commitRecordOffset_tip fun _ => Leaves.pure

/-- Where recovery is after some of the records: the head is the one it began with, or the one it
has published last, and the mirror covers that record. -/
def Recovering (start : World) (floor : Option Nat) (done : List WalRecord) (w : World) : Prop :=
  ∃ head, Trails start head w ∧ (head.appliedWalRecord = floor ∨
    ∃ x ∈ done, head.appliedWalRecord = some x.recordId ∧ w.MirrorCovers x.recordId)

namespace Recovering

variable {codecs : List WalCodec} {floor : Option Nat} {done : List WalRecord} {w w' : World}

variable (recovering : Recovering start floor done w)
include recovering

theorem backed (backed : Backed codecs start) : Backed codecs w := by
  obtain ⟨head, trails, _⟩ := recovering
  exact backed.trails trails

theorem of_tip (same : w'.tip = w.tip) : Recovering start floor done w' := by
  obtain ⟨head, trails, moved⟩ := recovering
  have mirror : w'.objects.mirror = w.objects.mirror := congrArg (·.2.1) same
  refine ⟨head, trails.of_tip same, moved.imp_right ?_⟩
  rintro ⟨x, inside, own, covers⟩
  exact ⟨x, inside, own, covers.of_mirror mirror⟩

theorem more (r : WalRecord) : Recovering start floor (done ++ [r]) w := by
  obtain ⟨head, trails, moved⟩ := recovering
  refine ⟨head, trails, moved.imp_right ?_⟩
  rintro ⟨x, inside, covers⟩
  exact ⟨x, List.mem_append_left _ inside, covers⟩

/-- A recovery that has gone through its records may compact. -/
theorem droppable {snap : Snapshot} (current : currentIn w.store = .ok snap)
    (droppable : Droppable codecs floor start) : Droppable codecs snap.appliedWalRecord w := by
  obtain ⟨head, trails, moved⟩ := recovering
  obtain rfl := ok_unique current trails.current
  rcases moved with first | ⟨x, _, own, covers⟩
  · rw [first]
    exact droppable.trails trails
  · intro r _ below
    obtain ⟨m, applied, le⟩ := below r.recordId rfl
    rw [own] at applied
    cases applied
    exact .inl (covers.mono le)

end Recovering

theorem recoverRecord_backed (backed : Backed codecs start) {done : List WalRecord}
    (ascending : ∀ x ∈ done, x.recordId < r.recordId) :
    Triple (Recovering start floor done) (ing.recoverRecord floor nowMs r)
      (fun _ => Recovering start floor (done ++ [r])) (Backed codecs) := by
  unfold Ingestor.recoverRecord
  split
  · have reconciled := (reconcileApplied_tip r).carry
      (fun _ _ same (recovering : Recovering start floor (done ++ [r]) _) => recovering.of_tip same)
      fun _ recovering => recovering.backed backed
    exact Triple.bind (reconciled.strengthen fun _ recovering => recovering.more r) fun _ =>
      Triple.pure fun _ h => h
  next above =>
    refine Triple.bind (Q := fun _ => Recovering start floor (done ++ [r])) ?_ fun _ =>
      Triple.pure fun _ h => h
    refine Triple.fix fun w ⟨head, trails, moved⟩ => ?_
    have marked : MarkerLE head.appliedWalRecord (some r.recordId) := by
      intro m applied
      refine ⟨r.recordId, rfl, ?_⟩
      rcases moved with first | ⟨x, inside, own, _⟩
      · rw [first] at applied
        simp only [Ingestor.isApplied, applied, decide_eq_true_eq] at above
        exact (Nat.not_le.mp above).le
      · rw [own] at applied
        exact Option.some.inj applied ▸ (ascending x inside).le
    have here : Trails w head w :=
      ⟨trails.current, trails.follows, fun _ covers => covers, rfl, rfl⟩
    refine (publishWalRecord_trails ing (backed.trails trails) marked).conseq
      (fun _ same => same ▸ here) ?_ fun _ h => h
    rintro _ w' (trails' | ⟨new, own, trails', highest⟩)
    · refine ⟨head, trails.trans trails', moved.imp_right ?_⟩
      rintro ⟨x, inside, own, covers⟩
      exact ⟨x, List.mem_append_left _ inside, own, trails'.covers _ covers⟩
    · exact ⟨new, trails.trans trails', .inr ⟨r, by simp, own, new, highest, own ▸ MarkerLE.refl _⟩⟩

theorem recover_backed (used : ing.codec ∈ codecs) (backed : Backed codecs start)
    (droppable : Droppable codecs start.store.marker start) :
    Triple (· = start) (ing.recover nowMs) (fun _ => Backed codecs) (Backed codecs) := by
  refine snapshot_spec.bind_triple backed fun snap read => ?_
  have floor : start.store.marker = snap.appliedWalRecord := by simp only [Store.marker, read]
  rw [floor] at droppable
  refine ing.admissionRecords_spec.bind_triple backed fun records listed => ?_
  have ascending := Ingestor.admissionRecordsIn_ascending listed
  refine Triple.bind (Triple.each (I := fun done _ => Recovering start snap.appliedWalRecord done)
    records ?_ fun done r rest _ split => ?_) fun reports => ?_
  · rintro _ rfl
    obtain ⟨head, trails⟩ := backed.start_trails
    obtain rfl := ok_unique read trails.current
    exact ⟨snap, trails, .inl rfl⟩
  · refine recoverRecord_backed ing backed fun x inside => ?_
    rw [split, List.pairwise_append] at ascending
    exact ascending.2.2 x inside r List.mem_cons_self
  · refine Triple.fix fun v recovering => ?_
    have here : Backed codecs v := recovering.backed backed
    refine snapshot_spec.bind_triple here fun after head => ?_
    exact Triple.bind (compactThrough_backed used here (recovering.droppable head droppable))
      fun _ => Triple.pure fun _ h => h

theorem remirrorCurrent_backed : Keeps (Backed codecs) remirrorCurrent := by
  refine Triple.fix fun w backed => ?_
  obtain ⟨head, trails⟩ := backed.start_trails
  have atStart : ∀ w', w' = w → Trails w head w' := by
    rintro w' rfl
    exact trails
  refine Triple.bind (snapshot_trails.conseq atStart (fun _ _ h => h)
    fun _ trails => backed.trails trails) fun snap => Triple.assume fun same => ?_
  subst same
  exact mirrorSnapshot_trails.conseq (fun _ h => h) (fun _ _ h => backed.trails h.1)
    fun _ trails => backed.trails trails

/-! ### Runs -/

/-- What can happen to a store and its mirror; every call comes with the faults it meets. -/
inductive MirrorOp where
  | ingest (ing : Ingestor) (events : List Event) (source : Option String)
      (nextOffset : Option Nat) (nowMs : Int) (faults : List Fault)
  | direct (engine : Engine) (events : List Event) (nowMs : Int) (faults : List Fault)
  | merge (engine : Engine) (free : Option Nat) (nowMs : Int) (faults : List Fault)
  | mergeTiered (engine : Engine) (free : Option Nat) (nowMs : Int) (faults : List Fault)
  | delete (eventIds : List String) (nowMs : Int) (faults : List Fault)
  | recover (ing : Ingestor) (nowMs : Int) (faults : List Fault)
  | remirror (faults : List Fault)
  | restart

namespace MirrorOp

def step (w : World) : MirrorOp → World
  | .ingest ing events source nextOffset nowMs faults =>
    (ing.ingest events source nextOffset nowMs faults w).2.2
  | .direct engine events nowMs faults => (engine.ingest events nowMs faults w).2.2
  | .merge engine free nowMs faults => (engine.merge free nowMs faults w).2.2
  | .mergeTiered engine free nowMs faults => (engine.mergeTiered free nowMs faults w).2.2
  | .delete eventIds nowMs faults => (Engine.delete eventIds nowMs faults w).2.2
  | .recover ing nowMs faults => (ing.recover nowMs faults w).2.2
  | .remirror faults => (remirrorCurrent faults w).2.2
  | .restart => { w with quotas := QuotaEnforcer.fresh }

/-- An ingest appends a record that reads back behind a whole frame, under an id not below the
marker; and what an ingest or a recovery may compact is on the mirror or replicated. -/
def Orderly (codecs : List WalCodec) (w : World) : MirrorOp → Prop
  | .ingest ing events source nextOffset nowMs _ =>
    Legible codecs ing events source nextOffset nowMs w ∧
      FrameLog.unread crc32 w.wal.file = [] ∧
      (∀ id, ing.Chooses w id → MarkerLE w.store.marker (some id)) ∧ Restorable codecs ing w
  | .recover ing _ _ => ing.codec ∈ codecs ∧ Droppable codecs w.store.marker w
  | _ => True

theorem step_backed {codecs : List WalCodec} (w : World) (op : MirrorOp)
    (orderly : op.Orderly codecs w) (backed : Backed codecs w) : Backed codecs (op.step w) := by
  obtain ⟨head, trails⟩ := backed.start_trails
  have carried : ∀ {β : Type} {p : Io β} (faults : List Fault),
      Triple (Trails w head) p (fun _ => Carries w head) (Carries w head) →
        Backed codecs (p faults w).2.2 := fun faults triple =>
    HeadMoves.backed (triple.after (fun _ _ h => h) trails faults) backed
  cases op with
  | ingest ing events source nextOffset nowMs faults =>
    obtain ⟨legible, clean, newest, restorable⟩ := orderly
    exact (ingest_backed ing source nextOffset backed legible clean newest
      restorable).after (fun _ _ h => h) rfl faults
  | direct engine events nowMs faults =>
    -- A direct ingest names no record, so it carries the marker of the head on.
    have marked : MarkerLE head.appliedWalRecord ((none : Option Nat).or head.appliedWalRecord) :=
      MarkerLE.refl _
    have triple : Triple (Trails w head) (engine.ingest events nowMs) (fun _ => Backed codecs)
        (Backed codecs) :=
      (ingestInner_trails marked engine true).conseq (fun _ h => h)
        (fun _ _ mirrored => mirrored.backed backed) fun _ moves => moves.backed backed
    exact triple.after (fun _ _ h => h) trails faults
  | merge engine free nowMs faults =>
    exact carried faults (tipPhases.merge (fun _ _ => trivial) (fun _ _ => trivial) free nowMs w head)
  | mergeTiered engine free nowMs faults =>
    exact carried faults
      (tipPhases.mergeTiered (fun _ _ => trivial) (fun _ _ => trivial) free nowMs w head)
  | delete eventIds nowMs faults =>
    exact carried faults (tipPhases.delete (fun _ => trivial) eventIds nowMs w head)
  | recover ing nowMs faults =>
    exact (recover_backed ing orderly.1 backed orderly.2).after (fun _ _ h => h) rfl faults
  | remirror faults => exact remirrorCurrent_backed.after (fun _ _ h => h) backed faults
  | restart => exact backed.of_tip rfl

end MirrorOp

/-- **The mirror and the logs cover every durable record.** In every run from an empty store whose
ingests and recoveries are orderly, with crashes anywhere, each record that was ever made
durable has been applied by the highest mirrored snapshot, or is in the local or in the
replicated log. -/
theorem durable_records_restorable (codecs : List WalCodec) (ops : List MirrorOp)
    (orderly : Meets MirrorOp.step (MirrorOp.Orderly codecs) World.fresh ops) :
    ∀ r ∈ (ops.foldl MirrorOp.step World.fresh).wal.durable,
      (ops.foldl MirrorOp.step World.fresh).MirrorCovers r.recordId ∨
        (ops.foldl MirrorOp.step World.fresh).LocalHolds codecs r ∨
        (ops.foldl MirrorOp.step World.fresh).RemoteHolds codecs r := by
  intro r mem
  have backed := invariant_run MirrorOp.step_backed ops World.fresh Backed.fresh orderly
  rcases backed.covered r mem with kept | covers | held
  · exact .inr (.inl (backed.holds kept))
  · exact .inl covers
  · exact .inr (.inr held)

/-- The nineteenth access of the first ingest of a store puts its snapshot on the mirror. -/
def mirrorWriteCrashes : List Fault := List.replicate 18 .proceed ++ [.crash 0]

/-- A crash before the mirror write, and a recovery once the mirror has caught up. -/
def remirroredRun : List MirrorOp :=
  [.ingest sampleIngestor [sampleEvent "e1"] none none 1000 mirrorWriteCrashes,
   .restart,
   .remirror [],
   .recover sampleIngestor 1000 []]

set_option maxRecDepth 100000 in
private theorem legible_first :
    Legible [sampleCodec] sampleIngestor [sampleEvent "e1"] none none 1000 World.fresh := by
  refine ⟨List.mem_singleton.mpr rfl, fun screened id screens some chosen => ?_⟩
  obtain ⟨admitted, denied, decided, _, sorts, _⟩ := screens
  have all : (dedup World.fresh.idempotency admitted.accepted).accepted = [sampleEvent "e1"] := by
    have value : (admitEvents [sampleEvent "e1"] World.fresh.dictionary World.fresh.quotas 1000).map
        (fun admitted => (dedup World.fresh.idempotency admitted.accepted).accepted) =
          Option.some [sampleEvent "e1"] := by
      decide +kernel
    rw [decided] at value
    exact Option.some.inj value
  have accepted : screened.accepted = [sampleEvent "e1"] := by
    rw [all] at sorts
    have few : screened.accepted.length ≤ 1 := sorts.passed.length_le
    have among : ∀ e ∈ screened.accepted, e = sampleEvent "e1" := fun e mem =>
      List.mem_singleton.mp (sorts.passed.subset mem)
    match h : screened.accepted with
    | [] => exact absurd h some
    | [e] => rw [among e (by simp [h])]
    | _ :: _ :: _ => simp [h] at few
  obtain rfl : id = 0 := chosen
  rw [accepted]
  exact readsBack_sample (by decide +kernel) (by decide +kernel)

set_option maxRecDepth 100000 in
private theorem remirrored_covers :
    ((remirroredRun.take 3).foldl MirrorOp.step World.fresh).MirrorCovers 0 := by
  have one : ((remirroredRun.take 3).foldl MirrorOp.step World.fresh).objects.mirror.toList.map
      (fun held => (held.1, held.2.snapshotId, held.2.appliedWalRecord)) = [(1, 1, some 0)] := by
    decide +kernel
  obtain ⟨⟨id, top⟩, single, fields⟩ := List.map_eq_singleton_iff.mp one
  obtain ⟨rfl, own, marked⟩ : id = 1 ∧ top.snapshotId = 1 ∧ top.appliedWalRecord = some 0 := by
    simpa using fields
  have only : ∀ (id : SnapshotId) (snap : Snapshot),
      ((remirroredRun.take 3).foldl MirrorOp.step World.fresh).objects.mirror[id]? = some snap ↔
        id = 1 ∧ snap = top := by
    intro id snap
    rw [← Std.ExtTreeMap.mem_toList_iff_getElem?_eq_some, single]
    simp
  refine ⟨top, ⟨?_, fun id snap held => ?_⟩, marked ▸ MarkerLE.refl _⟩
  · rw [own]
    exact (only 1 top).mpr ⟨rfl, rfl⟩
  · rw [own, ((only id snap).mp held).1]

set_option maxRecDepth 100000 in
theorem durable_records_restorable_remirrored :
    (remirroredRun.foldl MirrorOp.step World.fresh).wal.file = [] ∧
      (remirroredRun.foldl MirrorOp.step World.fresh).MirrorCovers 0 := by
  have final : sampleRecord 0 "e1" ∈ (remirroredRun.foldl MirrorOp.step World.fresh).wal.durable ∧
      (remirroredRun.foldl MirrorOp.step World.fresh).wal.file = [] ∧
      (remirroredRun.foldl MirrorOp.step World.fresh).objects.remoteWal.toList = [] := by
    decide +kernel
  have kept : ((remirroredRun.take 3).foldl MirrorOp.step World.fresh).wal.kept =
      [sampleRecord 0 "e1"] := by
    decide +kernel
  have droppable : Droppable [sampleCodec]
      ((remirroredRun.take 3).foldl MirrorOp.step World.fresh).store.marker
      ((remirroredRun.take 3).foldl MirrorOp.step World.fresh) := by
    intro r inside _
    rw [kept, List.mem_singleton] at inside
    exact .inl (inside ▸ remirrored_covers)
  have used : sampleCodec ∈ [sampleCodec] := List.mem_singleton.mpr rfl
  have covered := durable_records_restorable [sampleCodec] remirroredRun
    ⟨⟨legible_first, rfl, fun _ _ => nofun, .inl nofun⟩, trivial, trivial, ⟨used, droppable⟩,
      trivial⟩ (sampleRecord 0 "e1") final.1
  refine ⟨final.2.1, ?_⟩
  rcases covered with covers | held | ⟨bytes, held, _⟩
  · exact covers
  · obtain ⟨all, read, mem⟩ := held sampleCodec used
    rw [final.2.1] at read
    cases read
    exact (List.not_mem_nil mem).elim
  · rw [← Std.ExtTreeMap.mem_toList_iff_getElem?_eq_some, final.2.2] at held
    exact (List.not_mem_nil held).elim

/-- A crash between the rename of `CURRENT` and the mirror write, and a recovery. -/
def unmirroredRun : List MirrorOp :=
  [.ingest sampleIngestor [sampleEvent "e1"] none none 1000 mirrorWriteCrashes,
   .restart,
   .recover sampleIngestor 1000 []]

set_option maxRecDepth 100000 in
/-- The record is durable and published, and neither on the mirror nor in a log. -/
theorem recovery_drops_unmirrored_record :
    sampleRecord 0 "e1" ∈ (unmirroredRun.foldl MirrorOp.step World.fresh).wal.durable ∧
      (unmirroredRun.foldl MirrorOp.step World.fresh).store.marker = some 0 ∧
      (unmirroredRun.foldl MirrorOp.step World.fresh).objects.mirror.toList = [] ∧
      (unmirroredRun.foldl MirrorOp.step World.fresh).wal.file = [] ∧
      (unmirroredRun.foldl MirrorOp.step World.fresh).objects.remoteWal.toList = [] := by
  decide +kernel

end Prism
