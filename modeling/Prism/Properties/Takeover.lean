import Prism.Properties.MarkerSoundness
import Prism.Properties.Screening

/-!
Several roots on one object store, as when a replacement takes over from a writer whose last append
to the replicated log is still in flight: the idempotency index and the committed source offsets
against what was published, dead-lettered or suppressed.
-/

namespace Prism

open CrashLogic Store World OrderedMap

/-! ### Roots that share an object store -/

/-- The local files of every root beside the object store; the `objects` of a root are not read. -/
structure Cluster where
  roots : Nat → World
  objects : Objects

namespace Cluster

def fresh : Cluster := ⟨fun _ => World.fresh, World.fresh.objects⟩

variable (c : Cluster) (i : Nat)

def world : World := { c.roots i with objects := c.objects }

def put (w : World) : Cluster := ⟨Function.update c.roots i w, w.objects⟩

@[simp] theorem roots_put_self (w : World) : (c.put i w).roots i = w :=
  Function.update_self ..

theorem roots_put_of_ne {i j : Nat} (w : World) (other : j ≠ i) :
    (c.put i w).roots j = c.roots j := Function.update_of_ne other ..

@[simp] theorem world_put_self (w : World) : (c.put i w).world i = w := by
  simp [world, put]

@[simp] theorem put_put (w w' : World) : (c.put i w).put i w' = c.put i w' := by
  simp [put]

/-- The record is in the local log of the root, or one of its id is in the replicated log. -/
def Visible (r : WalRecord) : Prop :=
  r ∈ (c.roots i).wal.durable ∨
    (r.recordId ∈ c.objects.remoteWal ∧ ∃ k, r ∈ (c.roots k).wal.durable)

/-- Some root has the event in its committed snapshot or in its dead-letter log, or has answered it
as a replay. -/
def Handled (e : Event) : Prop :=
  ∃ i nowMs, (c.roots i).Settled (e.stamp nowMs) ∨ e.stamp nowMs ∈ (c.roots i).suppressed

def Clean : Prop := ∀ i, (c.roots i).store.clashed = false

end Cluster

/-- Every entry of the index is of a settled event with that key and that content. -/
def IndexSound (w : World) : Prop :=
  ∀ (key : String) (entry : IdemEntry), w.idempotency[key]? = some entry →
    ∃ e : Event, e.ck = key ∧ e.contentHash = entry.contentHash ∧ w.Settled e

/-! ### The invariant -/

section Sources

variable (sources : String → List Event)

/-- Every event of the source before the offset is handled or among `own`. -/
def Passed (c : Cluster) (own : List Event) (name : String) (offset : Nat) : Prop :=
  ∀ e ∈ (sources name).take offset, c.Handled e ∨ ∃ nowMs, e.stamp nowMs ∈ own

/-- Once the events of the record are handled, so is every event before the offset it carries. -/
def OffsetSafe (c : Cluster) (r : WalRecord) : Prop :=
  ∀ name offset, r.source = some name → r.sourceOffset = some offset →
    Passed sources c r.events name offset

structure Cluster.Sound (c : Cluster) : Prop where
  intact : ∀ i, (c.roots i).store.Intact
  marked : c.Clean → ∀ i r, c.Visible i r →
    Ingestor.isApplied (c.roots i).store.marker r = true → (c.roots i).RecordSettled r
  indexed : c.Clean → ∀ i, IndexSound (c.roots i)
  carried : c.Clean → ∀ i, ∀ r ∈ (c.roots i).wal.durable, OffsetSafe sources c r
  committed : c.Clean → ∀ (i : Nat) (name : String) (offset : Nat),
    (c.roots i).offsets[name]? = some offset → Passed sources c [] name offset

end Sources

/-! ### What one root's progress does for the others -/

structure Advances (w w' : World) : Prop where
  intact : w'.store.Intact
  clean : w'.store.clashed = false → w.store.clashed = false
  settled : w'.store.clashed = false → ∀ e, w.Settled e → w'.Settled e
  suppressed : w.suppressed ⊆ w'.suppressed

variable {w' : World} {applied : Option Nat}

namespace Advances

theorem of_stopped {w : World} {events : List Event} (intact : w.store.Intact)
    (stopped : Stopped events applied w w') (suppressed : w.suppressed ⊆ w'.suppressed) :
    Advances w w' where
  intact := stopped.elim (fun quiet => quiet.store.intact intact) Commits.intact
  clean := stopped.clean
  settled clean _ settled := settled.stopped intact stopped clean
  suppressed := suppressed

/-- The objects do not matter for what a root advanced from. -/
theorem of_stopped_world {c : Cluster} {i : Nat} {w : World} {events : List Event}
    (intact : (c.roots i).store.Intact) (stopped : Stopped events applied (c.world i) w)
    (suppressed : w.suppressed = (c.roots i).suppressed) : Advances (c.roots i) w :=
  let advances : Advances (c.world i) w := of_stopped intact stopped (by simp [suppressed, Cluster.world])
  ⟨advances.intact, advances.clean, advances.settled, advances.suppressed⟩

theorem of_quiet_world {c : Cluster} {i : Nat} {w : World} (intact : (c.roots i).store.Intact)
    (quiet : Quiet (c.world i) w) (suppressed : (c.roots i).suppressed ⊆ w.suppressed) :
    Advances (c.roots i) w :=
  let advances : Advances (c.world i) w :=
    of_stopped intact (.inl quiet : Stopped [] none (c.world i) w) suppressed
  ⟨advances.intact, advances.clean, advances.settled, advances.suppressed⟩

theorem of_ledger {w : World} (intact : w.store.Intact) (same : w'.ledger = w.ledger)
    (suppressed : w.suppressed ⊆ w'.suppressed) : Advances w w' :=
  of_stopped intact (.inl ((Quiet.refl w).of_ledger same) : Stopped [] none w w') suppressed

theorem trans {a b c : World} (first : Advances a b) (second : Advances b c) : Advances a c where
  intact := second.intact
  clean h := first.clean (second.clean h)
  settled clean e h := second.settled clean e (first.settled (second.clean clean) e h)
  suppressed := List.Subset.trans first.suppressed second.suppressed

end Advances

namespace Cluster

variable {sources : String → List Event} {c : Cluster} {i : Nat} {w : World}

theorem Clean.self (clean : (c.put i w).Clean) : w.store.clashed = false := by
  simpa using clean i

theorem Clean.before (clean : (c.put i w).Clean) (advances : Advances (c.roots i) w) : c.Clean := by
  intro j
  by_cases own : j = i
  · exact own ▸ advances.clean clean.self
  · simpa [c.roots_put_of_ne w own] using clean j

theorem Handled.put {e : Event} (handled : c.Handled e) (clean : (c.put i w).Clean)
    (advances : Advances (c.roots i) w) : (c.put i w).Handled e := by
  obtain ⟨j, nowMs, how⟩ := handled
  refine ⟨j, nowMs, ?_⟩
  by_cases own : j = i
  · subst own
    rw [roots_put_self]
    exact how.imp (advances.settled clean.self _) fun mem => advances.suppressed mem
  · rwa [c.roots_put_of_ne w own]

theorem handled_of_settled {e : Event} {nowMs : Int} (settled : w.Settled (e.stamp nowMs)) :
    (c.put i w).Handled e :=
  ⟨i, nowMs, .inl (by rwa [roots_put_self])⟩

end Cluster

variable {name : String} {offset : Nat} {sources : String → List Event}

theorem Passed.put {c : Cluster} {i : Nat} {w : World} {own : List Event}
    (passed : Passed sources c own name offset) (clean : (c.put i w).Clean)
    (advances : Advances (c.roots i) w) : Passed sources (c.put i w) own name offset := fun e mem =>
  (passed e mem).imp_left fun handled => handled.put clean advances

/-- A record whose events are settled leaves nothing of its source behind. -/
theorem Passed.settle {c : Cluster} {i : Nat} {own : List Event}
    (passed : Passed sources c own name offset) (settled : ∀ e ∈ own, (c.roots i).Settled e) :
    Passed sources c [] name offset := by
  intro e mem
  rcases passed e mem with handled | ⟨nowMs, inside⟩
  · exact .inl handled
  · exact .inl ⟨i, nowMs, .inl (settled _ inside)⟩

theorem offsetsAfter_cases {r : WalRecord} {offsets : BTreeMap String Nat}
    (found : (offsetsAfter r offsets)[name]? = some offset) :
    offsets[name]? = some offset ∨ (r.source = some name ∧ r.sourceOffset = some offset) := by
  unfold offsetsAfter at found
  split at found
  next own carried named carries =>
    obtain ⟨rfl, rfl⟩ | found := of_getElem?_insert found
    · exact .inr ⟨named, carries⟩
    · exact .inl found
  · exact .inl found

/-- After a publication that returned, all events of the batch are settled. -/
theorem World.Finished.settled {events : List Event} {w : World}
    (finished : Finished events applied w w') (clean : w'.store.clashed = false) :
    ∀ e ∈ events, w'.Settled e := by
  rcases finished with ⟨_, lettered⟩ | commits
  · exact fun e mem => .inr (lettered e mem)
  · exact commits.settled clean

namespace Cluster

variable {sources : String → List Event} {c : Cluster} {i : Nat} {w : World}

/-! ### One root goes on -/

theorem Sound.index (sound : c.Sound sources) (clean : (c.put i w).Clean)
    (advances : Advances (c.roots i) w) {key : String} {entry : IdemEntry}
    (found : (c.roots i).idempotency[key]? = some entry) :
    ∃ e : Event, e.ck = key ∧ e.contentHash = entry.contentHash ∧ w.Settled e := by
  obtain ⟨e, own, content, settled⟩ := sound.indexed (clean.before advances) i key entry found
  exact ⟨e, own, content, advances.settled clean.self e settled⟩

/-- The obligations of a root that went on, as far as they do not follow from the others'. -/
theorem Sound.put (sound : c.Sound sources) (advances : Advances (c.roots i) w)
    (marked : (c.put i w).Clean → ∀ r, (c.put i w).Visible i r →
      Ingestor.isApplied w.store.marker r = true → w.RecordSettled r)
    (others : (c.put i w).Clean → ∀ j, j ≠ i → ∀ r, (c.put i w).Visible j r →
      c.Visible j r ∨ (Ingestor.isApplied (c.roots j).store.marker r = true →
        (c.roots j).RecordSettled r)) (indexed : (c.put i w).Clean → IndexSound w)
    (carried : (c.put i w).Clean → ∀ r ∈ w.wal.durable, OffsetSafe sources (c.put i w) r)
    (committed : (c.put i w).Clean → ∀ (name : String) (offset : Nat),
      w.offsets[name]? = some offset → Passed sources (c.put i w) [] name offset) :
    (c.put i w).Sound sources where
  intact j := by
    by_cases own : j = i
    · subst own
      simpa using advances.intact
    · simpa [c.roots_put_of_ne w own] using sound.intact j
  marked clean j r visible := by
    by_cases own : j = i
    · subst own
      simpa using marked clean r visible
    · rw [c.roots_put_of_ne w own]
      intro applied
      rcases others clean j own r visible with before | settled
      · exact sound.marked (clean.before advances) j r before applied
      · exact settled applied
  indexed clean j := by
    by_cases own : j = i
    · subst own
      simpa using indexed clean
    · simpa [c.roots_put_of_ne w own] using sound.indexed (clean.before advances) j
  carried clean j r mem := by
    by_cases own : j = i
    · subst own
      exact carried clean r (by simpa using mem)
    · rw [c.roots_put_of_ne w own] at mem
      intro name offset named carries
      exact (sound.carried (clean.before advances) j r mem name offset named carries).put clean
        advances
  committed clean j name offset found := by
    by_cases own : j = i
    · subst own
      exact committed clean name offset (by simpa using found)
    · rw [c.roots_put_of_ne w own] at found
      exact (sound.committed (clean.before advances) j name offset found).put clean advances

structure SameLogs (c : Cluster) (i : Nat) (w : World) : Prop where
  durable : w.wal.durable = (c.roots i).wal.durable
  remoteWal : w.objects.remoteWal = c.objects.remoteWal

theorem SameLogs.durable_put (same : c.SameLogs i w) (j : Nat) :
    ((c.put i w).roots j).wal.durable = (c.roots j).wal.durable := by
  by_cases own : j = i
  · subst own
    simpa using same.durable
  · rw [c.roots_put_of_ne w own]

variable {r : WalRecord}

theorem SameLogs.visible (same : c.SameLogs i w) {j : Nat} :
    (c.put i w).Visible j r ↔ c.Visible j r := by
  have remote : (c.put i w).objects.remoteWal = c.objects.remoteWal := same.remoteWal
  simp only [Visible, same.durable_put, remote]

section Put

variable (sound : c.Sound sources)
include sound

/-- A step that appends no record. -/
theorem Sound.put_sameLogs (advances : Advances (c.roots i) w) (same : c.SameLogs i w)
    (marked : (c.put i w).Clean → ∀ r, c.Visible i r → Ingestor.isApplied w.store.marker r = true →
      w.RecordSettled r) (indexed : (c.put i w).Clean → IndexSound w)
    (committed : (c.put i w).Clean → ∀ (name : String) (offset : Nat), w.offsets[name]? = some
      offset → Passed sources (c.put i w) [] name offset) : (c.put i w).Sound sources := by
  refine sound.put advances (fun clean r visible => marked clean r (same.visible.mp visible))
    (fun _ j _ r visible => .inl (same.visible.mp visible)) indexed ?_ committed
  intro clean r mem name offset named carries
  rw [same.durable] at mem
  exact (sound.carried (clean.before advances) i r mem name offset named carries).put clean advances

/-- A step that appends no record and writes no key; offsets may be written that leave nothing
behind. -/
theorem Sound.put_keeping (advances : Advances (c.roots i) w) (same : c.SameLogs i w)
    (idempotency : w.idempotency = (c.roots i).idempotency)
    (marked : (c.put i w).Clean → ∀ r, c.Visible i r → Ingestor.isApplied w.store.marker r = true →
      w.RecordSettled r)
    (committed : (c.put i w).Clean → ∀ (name : String) (offset : Nat), w.offsets[name]? = some
      offset → (c.roots i).offsets[name]? = some offset ∨ Passed sources (c.put i w) [] name offset)
    : (c.put i w).Sound sources := by
  refine sound.put_sameLogs advances same marked ?_ ?_
  · exact fun clean key entry found => sound.index clean advances (idempotency ▸ found)
  · intro clean name offset found
    rcases committed clean name offset found with before | passed
    · exact (sound.committed (clean.before advances) i name offset before).put clean advances
    · exact passed

/-- The same when the marker stays where it is. -/
theorem Sound.put_quiet (advances : Advances (c.roots i) w) (same : c.SameLogs i w)
    (idempotency : w.idempotency = (c.roots i).idempotency)
    (marker : w.store.marker = (c.roots i).store.marker)
    (committed : (c.put i w).Clean → ∀ (name : String) (offset : Nat), w.offsets[name]? = some
      offset → (c.roots i).offsets[name]? = some offset ∨ Passed sources (c.put i w) [] name offset)
    : (c.put i w).Sound sources := by
  refine sound.put_keeping advances same idempotency ?_ committed
  intro clean r visible applied e mem
  rw [marker] at applied
  exact advances.settled clean.self e
    (sound.marked (clean.before advances) i r visible applied e mem)

/-- Nothing that the invariant is about has changed. -/
theorem Sound.put_essence (same : Ingestor.essence w = Ingestor.essence (c.world i)) :
    (c.put i w).Sound sources := by
  have suppressed : w.suppressed = (c.roots i).suppressed :=
    congrArg Ingestor.Essence.suppressed same
  refine sound.put_quiet
    (.of_ledger (sound.intact i) (congrArg Ingestor.Essence.ledger same) (by simp [suppressed]))
    ⟨congrArg Ingestor.Essence.durable same, congrArg Ingestor.Essence.remoteWal same⟩
    (congrArg Ingestor.Essence.idempotency same) (congrArg (fun x => x.store.marker) same) ?_
  intro _ name offset found
  have offsets : w.offsets = (c.roots i).offsets := congrArg Ingestor.Essence.offsets same
  exact .inl (offsets ▸ found)

/-- The commit of a record may move the marker over the records at or below it, when they are
settled. -/
theorem Sound.put_stopped
    (below : c.Clean → ∀ x, c.Visible i x → x.recordId ≤ r.recordId → x = r ∨ (c.roots
      i).RecordSettled x) (stopped : Stopped r.events (some r.recordId) (c.world i) w)
    (same : c.SameLogs i w) (suppressed : w.suppressed = (c.roots i).suppressed)
    (idempotency : w.idempotency = (c.roots i).idempotency)
    (offsets : w.offsets = (c.roots i).offsets) : (c.put i w).Sound sources := by
  have advances := Advances.of_stopped_world (sound.intact i) stopped suppressed
  have committed : (c.put i w).Clean → ∀ (name : String) (offset : Nat),
      w.offsets[name]? = some offset → (c.roots i).offsets[name]? = some offset ∨
        Passed sources (c.put i w) [] name offset := fun _ _ _ found => .inl (offsets ▸ found)
  rcases stopped with quiet | commits
  · exact sound.put_quiet advances same idempotency quiet.store.marker committed
  · refine sound.put_keeping advances same idempotency ?_ committed
    intro clean x visible applied
    have reached : x.recordId ≤ r.recordId := by
      rw [commits.marker] at applied
      simpa [Ingestor.isApplied] using applied
    rcases below (clean.before advances) x visible reached with rfl | settled
    · exact commits.settled clean.self
    · exact fun e mem => advances.settled clean.self e (settled e mem)

/-- The keys of a settled record may be written, and the offset it carries. -/
theorem Sound.put_keys (settled : c.Clean → (c.roots i).RecordSettled r)
    (safe : c.Clean → OffsetSafe sources c r) (ledger : w.ledger = (c.roots i).ledger)
    (same : c.SameLogs i w) (suppressed : w.suppressed = (c.roots i).suppressed)
    (keys : w.idempotency = (c.roots i).idempotency ∨ w.idempotency = (c.roots
      i).idempotency.recordAll r.events)
    (offsets : w.offsets = (c.roots i).offsets ∨ w.offsets = offsetsAfter r (c.roots i).offsets) :
    (c.put i w).Sound sources := by
  have advances : Advances (c.roots i) w :=
    .of_ledger (sound.intact i) ledger (by simp [suppressed])
  have marker : w.store.marker = (c.roots i).store.marker :=
    congrArg Store.marker (Prod.mk.inj ledger).1
  have before : ∀ e, (c.roots i).Settled e → w.Settled e := fun e h => h.of_ledger ledger
  refine sound.put_sameLogs advances same ?_ ?_ ?_
  · intro clean x visible applied e mem
    rw [marker] at applied
    exact before e (sound.marked (clean.before advances) i x visible applied e mem)
  · intro clean key entry found
    have known : (c.roots i).idempotency[key]? = some entry ∨
        ∃ e ∈ r.events, e.ck = key ∧ entry.contentHash = e.contentHash := by
      rcases keys with unchanged | recorded
      · exact .inl (unchanged ▸ found)
      · exact IdempotencyIndex.getElem?_recordAll (recorded ▸ found)
    rcases known with old | ⟨e, mem, own, content⟩
    · exact sound.index clean advances old
    · exact ⟨e, own, content.symm, before e (settled (clean.before advances) e mem)⟩
  · intro clean name offset found
    have old : (c.roots i).offsets[name]? = some offset ∨
        (r.source = some name ∧ r.sourceOffset = some offset) := by
      rcases offsets with unchanged | moved
      · exact .inl (unchanged ▸ found)
      · exact offsetsAfter_cases (moved ▸ found)
    rcases old with kept | ⟨named, carries⟩
    · exact (sound.committed (clean.before advances) i name offset kept).put clean advances
    · exact ((safe (clean.before advances) name offset named carries).settle
        (settled (clean.before advances))).put clean advances

/-- Publishing a record, however far it got. -/
theorem Sound.put_publishing
    (below : c.Clean → ∀ x, c.Visible i x → x.recordId ≤ r.recordId → x = r ∨ (c.roots
      i).RecordSettled x) (safe : c.Clean → OffsetSafe sources c r)
    (publishing : Ingestor.Publishing r (c.world i) w) : (c.put i w).Sound sources := by
  have logs : c.SameLogs i w := ⟨congrArg (·.wal.durable) publishing.logs,
    congrArg Ingestor.Logs.remoteWal publishing.logs⟩
  have suppressed : w.suppressed = (c.roots i).suppressed :=
    congrArg Ingestor.Logs.suppressed publishing.logs
  rcases publishing.progress with ⟨keys, offsets⟩ | ⟨finished, keys, offsets⟩
  · exact sound.put_stopped below publishing.stopped logs suppressed keys offsets
  · -- The world at the moment of the commit, before the keys were written.
    let v : World := { w with
      idempotency := (c.roots i).idempotency
      offsets := (c.roots i).offsets }
    have stopped : Stopped r.events (some r.recordId) (c.world i) v :=
      publishing.stopped.of_ledger rfl
    have atCommit : (c.put i v).Sound sources :=
      sound.put_stopped below stopped ⟨logs.durable, logs.remoteWal⟩ suppressed rfl rfl
    have advances : Advances (c.roots i) v :=
      .of_stopped_world (sound.intact i) stopped suppressed
    have settled : (c.put i v).Clean → v.RecordSettled r := fun clean e mem =>
      (finished.settled clean.self e mem).of_ledger rfl
    have result := atCommit.put_keys (i := i) (w := w) (r := r)
      (fun clean => by simpa using settled clean)
      (fun clean name offset named carries =>
        (safe (clean.before advances) name offset named carries).put clean advances)
      (by simp [v, World.ledger]) ⟨by simp [v], rfl⟩ (by simp [v]) (.inr (by simpa [v, world] using keys))
      (by simpa [v, world] using offsets)
    simpa using result

end Put

/-! ### Ingest -/

/-- Every record that the root can see above its marker is settled. -/
def Quiescent (c : Cluster) (i : Nat) : Prop :=
  ∀ r, c.Visible i r → Ingestor.isApplied (c.roots i).store.marker r = false →
    (c.roots i).RecordSettled r

/-- The next record takes an id above the marker of every root, which no record has taken. -/
def TakesNewId (c : Cluster) (i : Nat) (ing : Ingestor) : Prop :=
  ∀ id, ing.Chooses (c.world i) id → ∀ j,
    (∀ m, (c.roots j).store.marker = some m → m < id) ∧
      ∀ r ∈ (c.roots j).wal.durable, r.recordId ≠ id

/-- The batch is what the source has between the committed offset and the next one. -/
def FromSource (sources : String → List Event) (c : Cluster) (i : Nat) (events : List Event)
    (source : Option String) (nextOffset : Option Nat) : Prop :=
  ∀ (name : String) (offset : Nat), source = some name → nextOffset = some offset →
    events = ((sources name).take offset).drop (((c.roots i).offsets[name]?).getD 0)

theorem Quiescent.settled (quiescent : c.Quiescent i) (sound : c.Sound sources) (clean : c.Clean)
    (visible : c.Visible i r) : (c.roots i).RecordSettled r := by
  cases applied : Ingestor.isApplied (c.roots i).store.marker r with
  | true => exact sound.marked clean i r visible applied
  | false => exact quiescent r visible applied

/-- What comes before the batch was passed when the offset was committed. -/
theorem FromSource.passed {events own : List Event} {source : Option String}
    {nextOffset : Option Nat} (fromSource : FromSource sources c i events source nextOffset)
    (sound : c.Sound sources) (clean : (c.put i w).Clean) (advances : Advances (c.roots i) w)
    (answered : ∀ e ∈ events, (c.put i w).Handled e ∨ ∃ nowMs, e.stamp nowMs ∈ own)
    (named : source = some name) (next : nextOffset = some offset) :
    Passed sources (c.put i w) own name offset := by
  intro e mem
  rw [← List.take_append_drop (((c.roots i).offsets[name]?).getD 0) ((sources name).take offset),
    ← fromSource name offset named next, List.mem_append] at mem
  rcases mem with earlier | inside
  · rw [List.take_take] at earlier
    cases found : (c.roots i).offsets[name]? with
    | none => simp [found] at earlier
    | some o =>
      have before : e ∈ (sources name).take o := by
        simp only [found, Option.getD_some] at earlier
        exact (List.take_subset_take_left _ (Nat.min_le_left _ _)) earlier
      rcases sound.committed (clean.before advances) i name o found e before with handled | none
      · exact .inl (handled.put clean advances)
      · simp at none
  · exact answered e inside

end Cluster

/-- Screening loses no event: it is accepted, lettered or suppressed. -/
theorem Ingestor.Screens.accounts {events : List Event} {nowMs : Int} {start : World}
    {screened : Ingestor.Screened} (screens : Ingestor.Screens events nowMs start screened)
    {e : Event} (mem : e ∈ events) : e.stamp nowMs ∈ screened.accepted ∨
      (∃ letter ∈ screened.dead, letter.event = e.stamp nowMs) ∨
      e.stamp nowMs ∈ screened.suppressed := by
  obtain ⟨admitted, denied, done, suppressed, sorts, dead⟩ := screens
  rw [dead, suppressed]
  rcases (admitEvents_sorts done).accounted _ (List.mem_map_of_mem mem) with accepted | rejected
  · rcases dedup_accounts start.idempotency accepted with fresh | replay | ⟨letter, conflict, own⟩
    · rcases sorts.accounted _ fresh with allowed | ⟨letter, refused, own⟩
      · exact .inl allowed
      · exact .inr (.inl ⟨letter, by simp [refused], own⟩)
    · exact .inr (.inr replay)
    · exact .inr (.inl ⟨letter, by simp [conflict], own⟩)
  · obtain ⟨letter, refused, own⟩ := rejected
    exact .inr (.inl ⟨letter, by simp [refused], own⟩)

namespace Cluster

variable {sources : String → List Event} {c : Cluster} {i : Nat} {w : World}

/-- After screening, an event of the batch that was not accepted is handled. -/
theorem handled_of_screens {events : List Event} {nowMs : Int} {start : World}
    {screened : Ingestor.Screened} (screens : Ingestor.Screens events nowMs start screened)
    (letters : screened.dead ⊆ w.deadLetters) (suppressed : screened.suppressed ⊆ w.suppressed) :
    ∀ e ∈ events, (c.put i w).Handled e ∨ ∃ nowMs, e.stamp nowMs ∈ screened.accepted := by
  intro e mem
  rcases screens.accounts mem with accepted | ⟨letter, inside, own⟩ | replay
  · exact .inr ⟨nowMs, accepted⟩
  · exact .inl (handled_of_settled (.inr ⟨letter, letters inside, own⟩))
  · exact .inl ⟨i, nowMs, .inr (by simpa using suppressed replay)⟩

theorem TakesNewId.unapplied {ing : Ingestor} (newId : c.TakesNewId i ing) {r : WalRecord}
    (chosen : ing.Chooses (c.world i) r.recordId) (j : Nat) :
    Ingestor.isApplied (c.roots j).store.marker r = false := by
  cases marked : (c.roots j).store.marker with
  | none => rfl
  | some m =>
    have below := (newId r.recordId chosen j).1 m marked
    simpa [Ingestor.isApplied] using below

theorem mem_putIn {id other : Nat} {bytes : Bytes} {log : RemoteLog}
    (mem : id ∈ RemoteWal.putIn other bytes log) : id ∈ log ∨ id = other := by
  unfold RemoteWal.putIn at mem
  split at mem
  · exact .inl mem
  · rcases Std.ExtTreeMap.mem_insert.mp mem with same | old
    · exact .inr (Std.LawfulEqCmp.compare_eq_iff_eq.mp same).symm
    · exact .inl old

section Logged

variable {ing : Ingestor} {events : List Event} {source : Option String} {nextOffset : Option Nat}
  {nowMs : Int} {screened : Ingestor.Screened} {r : WalRecord}

/-- The one record that became visible is the one appended. -/
theorem visible_logged (newId : c.TakesNewId i ing)
    (logged : ing.Logged events source nextOffset nowMs (c.world i) screened r w) {j : Nat}
    {x : WalRecord} (visible : (c.put i w).Visible j x) : x = r ∨ c.Visible j x := by
  have appended : ∀ k, x ∈ ((c.put i w).roots k).wal.durable →
      x = r ∨ x ∈ (c.roots k).wal.durable := by
    intro k mem
    by_cases own : k = i
    · subst own
      rw [roots_put_self, logged.durable] at mem
      rcases List.mem_append.mp mem with earlier | last
      · exact .inr earlier
      · exact .inl (List.mem_singleton.mp last)
    · exact .inr (by rwa [c.roots_put_of_ne w own] at mem)
  rcases visible with here | ⟨landed, k, there⟩
  · exact (appended j here).imp_right .inl
  · rcases appended k there with new | old
    · exact .inl new
    · -- The object put up has the id of the new record, which the old one has not.
      refine .inr (.inr ⟨?_, k, old⟩)
      have remote : x.recordId ∈ w.objects.remoteWal := landed
      rcases logged.remoteWal with same | ⟨_, bytes, _, put⟩
      · rwa [same] at remote
      · rw [put] at remote
        exact (mem_putIn remote).resolve_right ((newId r.recordId logged.chosen k).2 x old)

theorem Sound.put_logged (sound : c.Sound sources) (newId : c.TakesNewId i ing)
    (fromSource : FromSource sources c i events source nextOffset)
    (logged : ing.Logged events source nextOffset nowMs (c.world i) screened r w) :
    (c.put i w).Sound sources := by
  have advances : Advances (c.roots i) w :=
    .of_quiet_world (sound.intact i) logged.quiet (by simp [logged.suppressed, world])
  have store : w.store = (c.roots i).store := logged.store
  refine sound.put advances ?_ ?_ ?_ ?_ ?_
  · intro clean x visible applied
    rw [store] at applied
    rcases visible_logged newId logged visible with rfl | before
    · simp [newId.unapplied logged.chosen i] at applied
    · exact fun e mem => advances.settled clean.self e
        (sound.marked (clean.before advances) i x before applied e mem)
  · intro _ j _ x visible
    rcases visible_logged newId logged visible with rfl | before
    · exact .inr fun applied => by simp [newId.unapplied logged.chosen j] at applied
    · exact .inl before
  · exact fun clean key entry found => sound.index clean advances (logged.idempotency ▸ found)
  · intro clean x mem name offset named carries
    rw [logged.durable] at mem
    rcases List.mem_append.mp mem with earlier | last
    · exact (sound.carried (clean.before advances) i x earlier name offset named carries).put clean
        advances
    · obtain rfl := List.mem_singleton.mp last
      have accepted : x.events = screened.accepted := congrArg WalRecord.events logged.record
      have itsSource : source = some name := by rw [← named, logged.record]
      have itsOffset : nextOffset = some offset := by rw [← carries, logged.record]
      rw [accepted]
      exact fromSource.passed sound clean advances
        (handled_of_screens logged.screens (by simp [logged.letters]) (by simp [logged.suppressed]))
        itsSource itsOffset
  · intro clean name offset found
    rw [logged.offsets] at found
    exact (sound.committed (clean.before advances) i name offset found).put clean advances

end Logged

/-- Whatever an ingest call leaves behind. -/
theorem Sound.put_reaches {ing : Ingestor} {events : List Event} {source : Option String}
    {nextOffset : Option Nat} {nowMs : Int} (sound : c.Sound sources) (quiescent : c.Quiescent i)
    (newId : c.TakesNewId i ing) (fromSource : FromSource sources c i events source nextOffset)
    (reached : ing.Reaches events source nextOffset nowMs (c.world i) w) :
    (c.put i w).Sound sources := by
  have screened {v : World} (prepared : Ingestor.Prepared (c.world i) v) : Advances (c.roots i) v :=
    .of_quiet_world (sound.intact i) prepared.quiet prepared.suppressed.subset
  have logs : ∀ {v : World}, Ingestor.Prepared (c.world i) v → c.SameLogs i v := fun prepared =>
    ⟨congrArg WalState.durable prepared.wal, congrArg Objects.remoteWal prepared.objects⟩
  cases reached with
  | @screening v _ prepared same _ =>
    have before : (c.put i v).Sound sources :=
      sound.put_quiet (screened prepared) (logs prepared) prepared.idempotency
        (congrArg Store.marker prepared.store) fun _ _ _ found => .inl (prepared.offsets ▸ found)
    simpa using before.put_essence (i := i) (w := w) (by simpa using same)
  | @moved screened' v name offset screening empty named next =>
    have prepared := screening.prepared
    have advances := screened prepared
    let moved : World := { v with offsets := v.offsets.insert name offset }
    have further : Advances (c.roots i) moved :=
      advances.trans (.of_ledger advances.intact rfl (List.Subset.refl _))
    refine sound.put_quiet further ⟨(logs prepared).durable, (logs prepared).remoteWal⟩
      prepared.idempotency (congrArg Store.marker prepared.store) ?_
    intro clean other o found
    obtain ⟨rfl, rfl⟩ | found := of_getElem?_insert found
    · -- The offset moved over a batch of which nothing was accepted.
      have answered := handled_of_screens (c := c) (i := i) (w := moved) screening.screens
        (by simp [moved, screening.letters]) (by simp [moved, screening.suppressed])
      rw [empty] at answered
      exact .inr (fromSource.passed sound clean further answered named next)
    · exact .inl (prepared.offsets ▸ found)
  | logged logged => exact sound.put_logged newId fromSource logged
  | @publishing screened' r v v' _ logged publishing same _ =>
    have here := sound.put_logged newId fromSource logged
    have advances : Advances (c.roots i) v :=
      .of_quiet_world (sound.intact i) logged.quiet (by simp [logged.suppressed, world])
    have below : (c.put i v).Clean → ∀ x, (c.put i v).Visible i x → x.recordId ≤ r.recordId →
        x = r ∨ ((c.put i v).roots i).RecordSettled x := by
      intro clean x visible _
      refine (visible_logged newId logged visible).imp_right fun before e mem => ?_
      rw [roots_put_self]
      exact advances.settled clean.self e
        (quiescent.settled sound (clean.before advances) before e mem)
    have safe : (c.put i v).Clean → OffsetSafe sources (c.put i v) r := fun clean =>
      here.carried clean i r (by simp [logged.durable])
    have published := here.put_publishing (i := i) below safe (by simpa using publishing)
    simpa using published.put_essence (i := i) (w := w) (by simpa using same)

end Cluster

/-! ### Recovery -/

namespace Cluster

variable {sources : String → List Event} {c : Cluster} {i : Nat}

/-- Recovery reads only records that are visible to the root, and every one that is not settled. -/
def ReadsAll (c : Cluster) (i : Nat) (ing : Ingestor) : Prop :=
  ∀ records, ing.admissionRecordsIn (c.world i) = .ok records →
    (∀ r ∈ records, c.Visible i r) ∧
      ∀ r, c.Visible i r → ¬ (c.roots i).RecordSettled r → r ∈ records

structure Recovering (sources : String → List Event) (c : Cluster) (i : Nat)
    (done : List WalRecord) (w : World) : Prop where
  sound : (c.put i w).Sound sources
  logs : c.SameLogs i w
  advances : Advances (c.roots i) w
  settled : (c.put i w).Clean → ∀ r ∈ done, w.RecordSettled r

variable {done : List WalRecord} {r : WalRecord}

theorem Recovering.safe {w : World} (here : Recovering sources c i done w) (visible : c.Visible i r)
    (clean : (c.put i w).Clean) : OffsetSafe sources (c.put i w) r := by
  rcases visible with own | ⟨_, k, there⟩
  · exact here.sound.carried clean i r (by rwa [here.logs.durable_put])
  · exact here.sound.carried clean k r (by rwa [here.logs.durable_put])

/-- One more record is settled. -/
theorem Recovering.snoc {w : World} (here : Recovering sources c i done w)
    (result : (c.put i w').Sound sources) (durable : w'.wal.durable = w.wal.durable)
    (remoteWal : w'.objects.remoteWal = w.objects.remoteWal) (onward : Advances w w')
    (last : (c.put i w).Clean → (c.put i w').Clean → w'.RecordSettled r) :
    Recovering sources c i (done ++ [r]) w' := by
  refine ⟨result, ⟨durable.trans here.logs.durable, remoteWal.trans here.logs.remoteWal⟩,
    here.advances.trans onward, fun clean x mem => ?_⟩
  have before : (c.put i w).Clean := by
    have again : ((c.put i w).put i w').Clean := by simpa using clean
    exact again.before (by simpa using onward)
  rcases List.mem_append.mp mem with earlier | own
  · exact fun e inside => onward.settled clean.self e (here.settled before x earlier e inside)
  · exact List.mem_singleton.mp own ▸ last before clean

/-- The keys of a record that the marker covered when recovery began. -/
theorem Recovering.reconcile {w : World} (here : Recovering sources c i done w)
    (sound : c.Sound sources) (visible : c.Visible i r)
    (applied : Ingestor.isApplied (c.roots i).store.marker r = true) (ledger : w'.ledger = w.ledger)
    (durable : w'.wal.durable = w.wal.durable)
    (remoteWal : w'.objects.remoteWal = w.objects.remoteWal)
    (suppressed : w'.suppressed = w.suppressed)
    (keys : w'.idempotency = w.idempotency ∨ w'.idempotency = w.idempotency.recordAll r.events)
    (offsets : w'.offsets = w.offsets ∨ w'.offsets = offsetsAfter r w.offsets) :
    Recovering sources c i (done ++ [r]) w' := by
  have covered : (c.put i w).Clean → w.RecordSettled r := fun clean e mem =>
    here.advances.settled clean.self e
      (sound.marked (clean.before here.advances) i r visible applied e mem)
  have onward : Advances w w' := .of_ledger here.advances.intact ledger (by simp [suppressed])
  have result := here.sound.put_keys (i := i) (w := w') (by simpa using covered)
    (here.safe visible) (by simpa using ledger) ⟨by simpa using durable, remoteWal⟩
    (by simpa using suppressed) (by simpa using keys) (by simpa using offsets)
  exact here.snoc (by simpa using result) durable remoteWal onward fun before clean e own =>
    onward.settled clean.self e (covered before e own)

/-- Publishing the next record in the order of the ids. -/
theorem Recovering.publish {records rest : List WalRecord} {w : World} {ing : Ingestor}
    (here : Recovering sources c i done w) (readsAll : c.ReadsAll i ing)
    (read : ing.admissionRecordsIn (c.world i) = .ok records) (split : records = done ++ r :: rest)
    (publishing : Ingestor.Publishing r w w') : (c.put i w').Sound sources := by
  obtain ⟨visible, complete⟩ := readsAll records read
  have ascending := Ingestor.admissionRecordsIn_ascending read
  have below : (c.put i w).Clean → ∀ x, (c.put i w).Visible i x → x.recordId ≤ r.recordId →
      x = r ∨ ((c.put i w).roots i).RecordSettled x := by
    intro clean x seen notAbove
    rw [here.logs.visible] at seen
    rw [roots_put_self]
    by_cases before : (c.roots i).RecordSettled x
    · exact .inr fun e mem => here.advances.settled clean.self e (before e mem)
    · -- An unsettled record is read, and those read before this one are settled by now.
      have mem := complete x seen before
      rw [split, List.mem_append, List.mem_cons] at mem
      rcases mem with earlier | same | later
      · exact .inr (here.settled clean x earlier)
      · exact .inl same
      · rw [split] at ascending
        have above : r.recordId < x.recordId :=
          (List.pairwise_cons.mp (List.pairwise_append.mp ascending).2.1).1 x later
        omega
  have result := here.sound.put_publishing (i := i) below
    (here.safe (visible r (by simp [split]))) (by simpa using publishing)
  simpa using result

theorem recover_sound (sound : c.Sound sources) (ing : Ingestor) (readsAll : c.ReadsAll i ing)
    (nowMs : Int) :
    Triple (· = c.world i) (ing.recover nowMs) (fun _ w => (c.put i w).Sound sources)
      (fun w => (c.put i w).Sound sources) := by
  have initially : Recovering sources c i [] (c.world i) :=
    ⟨sound.put_essence rfl, ⟨rfl, rfl⟩, .of_ledger (sound.intact i) rfl (List.Subset.refl _),
      fun _ => by simp⟩
  refine ing.recover_rule (I := Recovering sources c i)
    (E := fun w => (c.put i w).Sound sources) initially (fun _ _ h => h.sound) ?_ ?_
  · intro records done r rest read split
    have visible := (readsAll records read).1 r (by simp [split])
    refine Triple.fix fun w here => ?_
    unfold Ingestor.recoverRecord
    split
    next applied =>
      have reconciled : ∀ w', (w' = w ∨
          w' = { w with idempotency := w.idempotency.recordAll r.events } ∨
          w' = { w with
            idempotency := w.idempotency.recordAll r.events
            offsets := offsetsAfter r w.offsets }) →
          Recovering sources c i (done ++ [r]) w' := by
        rintro w' (rfl | rfl | rfl)
        · exact here.reconcile sound visible applied rfl rfl rfl rfl (.inl rfl) (.inl rfl)
        · exact here.reconcile sound visible applied rfl rfl rfl rfl (.inr rfl) (.inl rfl)
        · exact here.reconcile sound visible applied rfl rfl rfl rfl (.inr rfl) (.inr rfl)
      exact Triple.bind (Ingestor.reconcileApplied_spec.conseq (fun _ h => h)
        (fun _ w' same => reconciled w' (.inr (.inr same))) fun w' h => (reconciled w' h).sound)
        fun _ => Triple.pure fun _ h => h
    · refine Triple.bind (Q := fun _ w' => Recovering sources c i (done ++ [r]) w')
        ((ing.publishWalRecord_spec here.advances.intact).conseq (fun _ h => h) ?_
          fun w' publishing => here.publish readsAll read split publishing) fun _ =>
          Triple.pure fun _ h => h
      intro _ w' published
      have onward : Advances w w' := .of_stopped here.advances.intact published.finished.stopped
        (by simp [show w'.suppressed = w.suppressed from
          congrArg Ingestor.Logs.suppressed published.logs])
      exact here.snoc (here.publish readsAll read split published.publishing)
        (congrArg (·.wal.durable) published.logs)
        (congrArg Ingestor.Logs.remoteWal published.logs) onward fun _ clean =>
          published.finished.settled clean.self
  · intro w wal here durable _
    have result := here.put_essence (i := i) (w := { w with wal })
      (by simp [Ingestor.essence, durable])
    simpa using result

end Cluster

/-! ### Runs -/

/-- What can happen on the roots of an object store; every call comes with the faults it meets. A
put to the replicated log that its writer gave up on may still land at any later time. -/
inductive ClusterOp where
  | ingest (root : Nat) (ing : Ingestor) (events : List Event) (source : Option String)
      (nextOffset : Option Nat) (nowMs : Int) (faults : List Fault)
  | pollAndIngest (root : Nat) (ing : Ingestor) (source : Source) (max : Nat) (nowMs : Int)
      (faults : List Fault)
  | recover (root : Nat) (ing : Ingestor) (nowMs : Int) (faults : List Fault)
  | acquire (root : Nat) (writerId : String) (faults : List Fault)
  | restart (root : Nat)
  | land (root : Nat) (codec : WalCodec) (r : WalRecord)

namespace ClusterOp

def landIn (c : Cluster) (root : Nat) (codec : WalCodec) (r : WalRecord) : Cluster :=
  if r ∈ (c.roots root).wal.durable then
    match codec.encode r with
    | .ok bytes =>
      { c with objects := { c.objects with
          remoteWal := RemoteWal.putIn r.recordId bytes c.objects.remoteWal } }
    | .error _ => c
  else c

def step (c : Cluster) : ClusterOp → Cluster
  | .ingest root ing events source nextOffset nowMs faults =>
    c.put root (ing.ingest events source nextOffset nowMs faults (c.world root)).2.2
  | .pollAndIngest root ing source max nowMs faults =>
    c.put root (ing.pollAndIngest source max nowMs faults (c.world root)).2.2
  | .recover root ing nowMs faults => c.put root (ing.recover nowMs faults (c.world root)).2.2
  | .acquire root writerId faults =>
    c.put root (Engine.acquire writerId faults (c.world root)).2.2
  | .restart root => c.put root { c.world root with quotas := QuotaEnforcer.fresh }
  | .land root codec r => landIn c root codec r

/-- A late append lands only where it is settled or ahead of the marker. -/
def LandsInTime (c : Cluster) (r : WalRecord) : Prop :=
  ∀ k, ∀ x ∈ (c.roots k).wal.durable, x.recordId = r.recordId →
    ∀ j, Ingestor.isApplied (c.roots j).store.marker x = true → (c.roots j).RecordSettled x

def Orderly (sources : String → List Event) (c : Cluster) : ClusterOp → Prop
  | .ingest root ing events source nextOffset _ _ =>
    c.Quiescent root ∧ c.TakesNewId root ing ∧
      Cluster.FromSource sources c root events source nextOffset
  | .pollAndIngest root ing source _ _ _ =>
    c.Quiescent root ∧ c.TakesNewId root ing ∧ source.events = sources source.name
  | .recover root ing _ _ => c.ReadsAll root ing
  | .land _ _ r => LandsInTime c r
  | .acquire _ _ _ => True
  | .restart _ => True

end ClusterOp

namespace Cluster

variable {sources : String → List Event} {c : Cluster}

theorem fresh_sound : fresh.Sound sources where
  intact _ := intact_fresh
  marked _ i r visible := by
    rcases visible with own | ⟨_, _, there⟩
    · simp [fresh, World.fresh, WalState.fresh] at own
    · simp [fresh, World.fresh, WalState.fresh] at there
  indexed _ i key entry found := by simp [fresh, World.fresh] at found
  carried _ i r mem := by simp [fresh, World.fresh, WalState.fresh] at mem
  committed _ i name offset found := by simp [fresh, World.fresh] at found

theorem land_sound (sound : c.Sound sources) {r : WalRecord} (inTime : ClusterOp.LandsInTime c r)
    (root : Nat) (codec : WalCodec) : (ClusterOp.landIn c root codec r).Sound sources := by
  unfold ClusterOp.landIn
  split
  · split
    next bytes _ =>
      refine ⟨sound.intact, fun clean j x visible applied => ?_, sound.indexed, sound.carried,
        sound.committed⟩
      rcases visible with own | ⟨landed, k, there⟩
      · exact sound.marked clean j x (.inl own) applied
      · rcases mem_putIn landed with before | own
        · exact sound.marked clean j x (.inr ⟨before, k, there⟩) applied
        · exact inTime k x there own j applied
    · exact sound
  · exact sound

theorem acquire_essence (writerId : String) : Leaves Ingestor.essence (Engine.acquire writerId) :=
  Leaves.bind Leaves.read fun _ => Leaves.bind (Leaves.replace fun _ => rfl) fun _ => Leaves.pure

end Cluster

theorem ClusterOp.step_sound (sources : String → List Event) (c : Cluster) (op : ClusterOp)
    (orderly : op.Orderly sources c) (sound : c.Sound sources) : (op.step c).Sound sources := by
  cases op with
  | ingest root ing events source nextOffset nowMs faults =>
    obtain ⟨quiescent, newId, fromSource⟩ := orderly
    have intact : (c.world root).store.Intact := sound.intact root
    have reached := (ing.ingest_spec events source nextOffset nowMs intact).after
      (fun _ _ h => h.1) rfl faults
    exact sound.put_reaches quiescent newId fromSource reached
  | pollAndIngest root ing source max nowMs faults =>
    obtain ⟨quiescent, newId, own⟩ := orderly
    have intact : (c.world root).store.Intact := sound.intact root
    have reached := (ing.pollAndIngest_spec source max nowMs intact).after (fun _ _ h => h) rfl
      faults
    rcases reached with same | reached
    · exact sound.put_essence (congrArg Ingestor.essence same)
    · refine sound.put_reaches quiescent newId ?_ reached
      rintro name offset ⟨⟩ ⟨⟩
      rw [← own]
      rfl
  | recover root ing nowMs faults =>
    exact (Cluster.recover_sound sound ing orderly nowMs).after (fun _ _ h => h) rfl faults
  | acquire root writerId faults =>
    exact sound.put_essence ((Cluster.acquire_essence writerId).run faults (c.world root))
  | restart root => exact sound.put_essence rfl
  | land root codec r => exact Cluster.land_sound sound orderly root codec

def ClusterOp.after (ops : List ClusterOp) : Cluster := ops.foldl ClusterOp.step Cluster.fresh

/-- In every such run, at every root: an entry of the index is of an event in a snapshot of the
chain or in the dead-letter log, so a replay is answered only for such an event; and every event
of a source before a committed offset was published, dead-lettered or answered as a replay. -/
theorem index_and_offsets_sound (sources : String → List Event) (ops : List ClusterOp)
    (orderly : Meets ClusterOp.step (fun c op => op.Orderly sources c) Cluster.fresh ops)
    (clean : (ClusterOp.after ops).Clean) (i : Nat) :
    (∀ (key : String) (entry : IdemEntry),
      ((ClusterOp.after ops).roots i).idempotency[key]? = some entry →
        ∃ e : Event, e.ck = key ∧ e.contentHash = entry.contentHash ∧
          ((ClusterOp.after ops).roots i).Accounted e) ∧
      (∀ offered : Event,
        ((ClusterOp.after ops).roots i).idempotency.verdict offered = .replay →
          ∃ e : Event, e.ck = offered.ck ∧ e.contentHash = offered.contentHash ∧
            ((ClusterOp.after ops).roots i).Accounted e) ∧
      ∀ (name : String) (offset : Nat),
        ((ClusterOp.after ops).roots i).offsets[name]? = some offset →
          ∀ e ∈ (sources name).take offset, (ClusterOp.after ops).Handled e := by
  have sound : (ClusterOp.after ops).Sound sources :=
    invariant_run (ClusterOp.step_sound sources) ops Cluster.fresh Cluster.fresh_sound orderly
  generalize ClusterOp.after ops = c at sound clean ⊢
  have entries : ∀ (key : String) (entry : IdemEntry), (c.roots i).idempotency[key]? = some entry →
      ∃ e : Event, e.ck = key ∧ e.contentHash = entry.contentHash ∧ (c.roots i).Accounted e := by
    intro key entry found
    obtain ⟨e, own, content, settled⟩ := sound.indexed clean i key entry found
    exact ⟨e, own, content, settled.accounted⟩
  refine ⟨entries, fun offered replay => ?_, fun name offset found e mem => ?_⟩
  · obtain ⟨entry, found, content⟩ := IdempotencyIndex.verdict_eq_replay.mp replay
    obtain ⟨e, own, same, accounted⟩ := entries offered.ck entry found
    exact ⟨e, own, same.trans content, accounted⟩
  · rcases sound.committed clean i name offset found e mem with handled | none
    · exact handled
    · simp at none

def polledRecord : WalRecord := ⟨2 ^ 32, [sampleEvent "e1"], some "s", some 1, 1000⟩

def replicatedIngestor (epoch : Nat) : Ingestor :=
  ⟨{ sampleEngine with ownerEpoch := epoch },
    ⟨tableSerde [polledRecord, sampleRecord (2 ^ 32) "e1", sampleRecord (2 * 2 ^ 32) "e2"],
      none⟩, true⟩

/-- A writer that crashes once its record is in the replicated log, and its replacement. -/
def takeoverRun : List ClusterOp :=
  [.pollAndIngest 0 (replicatedIngestor 1) ⟨"s", [sampleEvent "e1"]⟩ 10 1000
    (List.replicate 14 .proceed ++ [.crash 0]),
   .recover 1 (replicatedIngestor 2) 1000 []]

set_option maxRecDepth 100000

theorem index_and_offsets_sound_takeover :
    (∃ e : Event, e.ck = (sampleEvent "e1").ck ∧
      e.contentHash = (sampleEvent "e1").contentHash ∧
        ((ClusterOp.after takeoverRun).roots 1).Accounted e) ∧
      (ClusterOp.after takeoverRun).Handled (sampleEvent "e1") := by
  -- The two roots that the run touches; the others are as they began.
  have untouched : ∀ i, i ≠ 0 → i ≠ 1 → (ClusterOp.after takeoverRun).roots i = World.fresh ∧
      (ClusterOp.after (takeoverRun.take 1)).roots i = World.fresh := by
    intro i notFirst notSecond
    exact ⟨(Cluster.roots_put_of_ne _ _ notSecond).trans (Cluster.roots_put_of_ne _ _ notFirst),
      Cluster.roots_put_of_ne _ _ notFirst⟩
  have first : ((ClusterOp.after (takeoverRun.take 1)).roots 0).wal.durable =
        [polledRecord] ∧
      ((ClusterOp.after (takeoverRun.take 1)).roots 1).wal.durable = [] ∧
      polledRecord.recordId ∈
        (ClusterOp.after (takeoverRun.take 1)).objects.remoteWal ∧
      (replicatedIngestor 2).admissionRecordsIn ((ClusterOp.after (takeoverRun.take 1)).world 1) =
        .ok [polledRecord] := by
    decide +kernel
  have last : ((ClusterOp.after takeoverRun).roots 0).store.clashed = false ∧
      ((ClusterOp.after takeoverRun).roots 1).store.clashed = false ∧
      ((ClusterOp.after takeoverRun).roots 1).idempotency.verdict (sampleEvent "e1") = .replay ∧
      ((ClusterOp.after takeoverRun).roots 1).offsets["s"]? = some 1 := by
    decide +kernel
  obtain ⟨durable, none, landed, reads⟩ := first
  obtain ⟨cleanFirst, cleanSecond, replay, offset⟩ := last
  have onlyOne : ∀ k, ∀ r ∈ ((ClusterOp.after (takeoverRun.take 1)).roots k).wal.durable,
      r = polledRecord := by
    intro k r mem
    by_cases isFirst : k = 0
    · subst isFirst
      simpa [durable] using mem
    by_cases isSecond : k = 1
    · subst isSecond
      simp [none] at mem
    · rw [(untouched k isFirst isSecond).2] at mem
      simp [World.fresh, WalState.fresh] at mem
  have readsAll : (ClusterOp.after (takeoverRun.take 1)).ReadsAll 1 (replicatedIngestor 2) := by
    intro records read
    obtain rfl := Fallible.ok_unique reads read
    refine ⟨fun r mem => ?_, fun r visible _ => ?_⟩
    · obtain rfl := List.mem_singleton.mp mem
      exact .inr ⟨landed, 0, by simp [durable]⟩
    · rcases visible with own | ⟨_, k, there⟩
      · simp [onlyOne 1 r own]
      · simp [onlyOne k r there]
  have clean : (ClusterOp.after takeoverRun).Clean := by
    intro i
    by_cases isFirst : i = 0
    · exact isFirst ▸ cleanFirst
    by_cases isSecond : i = 1
    · exact isSecond ▸ cleanSecond
    · rw [(untouched i isFirst isSecond).1]
      rfl
  have nothing : ∀ k, (Cluster.fresh.roots k).wal.durable = [] := fun _ => rfl
  have quiescent : Cluster.fresh.Quiescent 0 := by
    rintro r (own | ⟨_, k, there⟩)
    · simp [nothing] at own
    · simp [nothing] at there
  have newId : Cluster.fresh.TakesNewId 0 (replicatedIngestor 1) := by
    intro id _ j
    refine ⟨fun m marked => ?_, by simp [nothing]⟩
    cases marked
  obtain ⟨_, replays, offsets⟩ := index_and_offsets_sound (fun _ => [sampleEvent "e1"]) takeoverRun
    ⟨⟨quiescent, newId, rfl⟩, readsAll, trivial⟩ clean 1
  exact ⟨replays _ replay, offsets "s" 1 offset _ (by simp)⟩

/-- A writer whose put to the replicated log is still in flight when its replacement has taken over
and published; the put then lands, and the replacement recovers. -/
def zombieRun : List ClusterOp :=
  [.acquire 0 "a" [],
   .ingest 0 (replicatedIngestor 1) [sampleEvent "e1"] none none 1000
    (List.replicate 10 .proceed ++ [.crash 0]),
   .acquire 1 "b" [],
   .ingest 1 (replicatedIngestor 2) [sampleEvent "e2"] none none 1000 [],
   .land 0 (replicatedIngestor 1).codec (sampleRecord (2 ^ 32) "e1"),
   .recover 1 (replicatedIngestor 2) 1000 []]

/-- The late record is below the marker of the replacement, so its key is recorded; its event is in
no snapshot and in no dead-letter log. -/
theorem late_append_records_unpublished_key :
    ((ClusterOp.after zombieRun).roots 1).idempotency.verdict (sampleEvent "e1") = .replay ∧
      ¬ ((ClusterOp.after zombieRun).roots 0).Accounted (sampleEvent "e1") ∧
      ¬ ((ClusterOp.after zombieRun).roots 1).Accounted (sampleEvent "e1") := by
  decide +kernel

end Prism
