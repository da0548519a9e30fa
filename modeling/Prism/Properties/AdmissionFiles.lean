import Prism.Properties.ExactlyOnce

/-!
The two files that admission decides by, over whole runs of one store. Publication writes the
idempotency index, and the last step of an ingest call the key dictionary; recovery writes the
index only, and no step ever takes an entry out of either.
-/

namespace Prism

open CrashLogic Store World

/-! ### Reachable stores -/

theorem Ingestor.Publishing.intact {r : WalRecord} {start w : World}
    (publishing : Ingestor.Publishing r start w) (intact : start.store.Intact) : w.store.Intact :=
  publishing.stopped.elim (fun quiet => quiet.store.intact intact) Commits.intact

/-- The head still has its rows and the dead-letter log its letters, unless a part was written over
another. -/
structure World.Extends (start w : World) : Prop where
  intact : w.store.Intact
  letters : start.deadLetters <+: w.deadLetters
  rows : w.store.clashed = false → start.store.headRows <+: w.store.headRows

namespace World.Extends

variable {start w w' : World}

theorem refl (intact : start.store.Intact) : Extends start start :=
  ⟨intact, List.prefix_refl _, fun _ => List.prefix_refl _⟩

theorem of_ledger (stays : Extends start w) (same : w'.ledger = w.ledger) : Extends start w' := by
  obtain ⟨store, letters⟩ := Prod.mk.inj same
  exact ⟨store ▸ stays.intact, letters ▸ stays.letters, store ▸ stays.rows⟩

theorem stopped {events : List Event} {applied : Option Nat} (stays : Extends start w)
    (stopped : Stopped events applied w w') : Extends start w' := by
  have rows (clean : w'.store.clashed = false) := stays.rows (stopped.clean clean)
  rcases stopped with quiet | commits
  · refine ⟨quiet.store.intact stays.intact, stays.letters.trans quiet.letters, fun clean => ?_⟩
    rw [quiet.store.headRows stays.intact]
    exact rows clean
  · refine ⟨commits.intact, stays.letters.trans commits.letters, fun clean => ?_⟩
    obtain ⟨new, appended, -⟩ := commits.rows clean
    exact (rows clean).trans ⟨new, appended.symm⟩

end World.Extends

namespace IngestorOp

def reached (ops : List IngestorOp) : World := ops.foldl step World.fresh

theorem step_extends {start : World} (w : World) (op : IngestorOp) (stays : start.Extends w) :
    start.Extends (op.step w) := by
  have silent {v : World} (quiet : Quiet w v) : start.Extends v :=
    stays.stopped (.inl quiet : Stopped [] none w v)
  cases op with
  | ingest ing events source nextOffset nowMs faults =>
    have ends := (ing.ingest_spec events source nextOffset nowMs stays.intact).after
      (fun _ _ h => h.1) rfl faults
    change start.Extends (ing.ingest events source nextOffset nowMs faults w).2.2
    generalize (ing.ingest events source nextOffset nowMs faults w).2.2 = w' at ends
    -- Only publication may commit; what comes before it is quiet.
    cases ends with
    | screening prepared same _ =>
      exact (silent prepared.quiet).of_ledger (congrArg Ingestor.Essence.ledger same)
    | moved screening _ _ _ => exact (silent screening.prepared.quiet).of_ledger rfl
    | logged logged => exact silent logged.quiet
    | publishing logged publishing same _ =>
      exact ((silent logged.quiet).stopped publishing.stopped).of_ledger
        (congrArg Ingestor.Essence.ledger same)
  | recover ing nowMs faults =>
    exact (ing.recover_keeps nowMs stays (fun _ h => h.intact) (fun _ _ h same _ => h.of_ledger same)
      (fun _ _ _ _ h publishing => h.stopped publishing.stopped)
      fun _ _ h _ _ => h.of_ledger rfl).after (fun _ _ h => h) rfl faults
  | restart => exact stays.of_ledger rfl

theorem reached_intact (ops : List IngestorOp) : (reached ops).store.Intact :=
  List.foldlRecOn ops step intact_fresh fun w intact op _ => (step_extends w op (.refl intact)).intact

end IngestorOp

open IngestorOp (reached reached_intact)

/-- **Nothing that is stored is lost.** Whatever ingest calls, recoveries and restarts follow, and
wherever they crash or fail, no dead letter goes, and as long as no two parts get one name, the rows
of the head stay in front of those of every later head. -/
theorem stored_stays (ops more : List IngestorOp) :
    (reached ops).deadLetters <+: (reached (ops ++ more)).deadLetters ∧
      ((reached (ops ++ more)).store.clashed = false →
        (reached ops).store.headRows <+: (reached (ops ++ more)).store.headRows) := by
  have stays : (reached ops).Extends (reached (ops ++ more)) := by
    rw [reached, reached, List.foldl_append]
    exact List.foldlRecOn more IngestorOp.step (.refl (reached_intact ops)) fun w stays op _ =>
      op.step_extends w stays
  exact ⟨stays.letters, stays.rows⟩

/-! ### The idempotency index -/

def idempotencyWindowMs : Int := 7 * 24 * 60 * 60 * 1000

def idempotencyMaxEntries : Nat := 1000000

variable {events : List Event} {key : String}

namespace IdempotencyIndex

variable {ix : IdempotencyIndex}

/-- What `prune` is there for: not too many entries, and none older than the window. -/
def Bounded (ix : IdempotencyIndex) (nowMs : Int) : Prop :=
  ix.size ≤ idempotencyMaxEntries ∧
    ∀ (key : String) (entry : IdemEntry), ix[key]? = some entry →
      nowMs - idempotencyWindowMs ≤ entry.eventTime

def staying (ix earlier : IdempotencyIndex) : IdempotencyIndex :=
  ix.filter fun key _ => earlier.contains key

theorem getElem?_recordAll_other (other : ∀ e ∈ events, e.ck ≠ key) :
    (ix.recordAll events)[key]? = ix[key]? := by
  induction events generalizing ix with
  | nil => rfl
  | cons e rest ih =>
    have tail : (ix.recordAll (e :: rest))[key]? = (ix.record e)[key]? :=
      ih fun e' mem => other e' (List.mem_cons_of_mem _ mem)
    rw [tail, getElem?_record, if_neg (other e List.mem_cons_self)]

end IdempotencyIndex

variable {source : Option String} {nextOffset : Option Nat} {nowMs : Int}

/-- An ingest call leaves every entry of the stored index as it is: it only records keys that the
index did not have. -/
theorem Ingestor.Reaches.entries {ing : Ingestor} {start w : World}
    (reached : ing.Reaches events source nextOffset nowMs start w) (known : key ∈ start.idempotency) : w.idempotency[key]? = start.idempotency[key]? := by
  cases reached with
  | screening prepared same _ =>
    exact congrArg (·[key]?) ((congrArg Essence.idempotency same).trans prepared.idempotency)
  | moved screening _ _ _ => exact congrArg (·[key]?) screening.prepared.idempotency
  | logged logged => exact congrArg (·[key]?) logged.idempotency
  | @publishing screened r _ v' _ logged publishing same _ =>
    have written : w.idempotency = v'.idempotency := congrArg Essence.idempotency same
    rcases publishing.progress with ⟨kept, _⟩ | ⟨_, recorded, _⟩
    · exact congrArg (·[key]?) (written.trans (kept.trans logged.idempotency))
    · rw [written, recorded, logged.idempotency]
      apply IdempotencyIndex.getElem?_recordAll_other
      -- The keys of the record were new to the index, so none of them is this one.
      rintro e mem rfl
      have accepted : r.events = screened.accepted := congrArg WalRecord.events logged.record
      have new := logged.screens.newKeys.subset (List.mem_map_of_mem (accepted ▸ mem))
      obtain ⟨e', fresh, own⟩ := List.mem_map.mp new
      have absent : start.idempotency[e'.ck]? = none := by
        rw [← IdempotencyIndex.verdict_eq_new]
        simpa using (List.mem_filter.mp fresh).2
      rw [own] at absent
      simp [known] at absent

/-- After an ingest call in any run, the stored entries other than those of the batch it published
are within the bounds exactly if the stored index was within them before the call. -/
theorem index_bounded_iff (ops : List IngestorOp) (b : Batch) :
    ((b.step (reached ops)).idempotency.staying (reached ops).idempotency).Bounded b.nowMs ↔
      (reached ops).idempotency.Bounded b.nowMs := by
  have ends := (b.ing.ingest_spec b.events b.source b.nextOffset b.nowMs
    (reached_intact ops)).after (fun _ _ h => h.1) rfl b.faults
  have same : (b.step (reached ops)).idempotency.staying (reached ops).idempotency =
      (reached ops).idempotency := by
    apply Std.ExtTreeMap.ext_getElem?
    intro key
    unfold IdempotencyIndex.staying
    rw [Std.ExtTreeMap.getElem?_filter']
    by_cases known : key ∈ (reached ops).idempotency
    · have kept : (b.step (reached ops)).idempotency[key]? = _ := ends.entries known
      rw [kept]
      cases (reached ops).idempotency[key]? <;> simp [Std.ExtTreeMap.mem_iff_contains.mp known]
    · simp [known]
  rw [same]

def keyedEvent (eventId : String) : Event :=
  { sampleEvent eventId with attributes := (∅ : Attributes).insert "k" (.bool true) }

def firstRun : List IngestorOp := [.ingest sampleIngestor [sampleEvent "e1"] none none 1000 []]

def lateBatch : Batch :=
  let event : Event := { sampleEvent "e2" with eventTime := 691201000, observedTime := 691201000 }
  ⟨{ sampleIngestor with
      codec := ⟨tableSerde [sampleRecord 0 "e1", ⟨1, [event], none, none, 691201000⟩], none⟩ },
    [{ keyedEvent "e1" with eventTime := 691201000 }, event], none, none, 691201000, []⟩

set_option maxRecDepth 100000

theorem lateBatch_facts : ((lateBatch.run (reached firstRun)).1.isOk ∧
        (lateBatch.step (reached firstRun)).idempotency[ck "t1" "e1"]?.map (·.eventTime) =
          some 1000) ∧
      "k" ∈ (lateBatch.step (reached firstRun)).dictionary ∧
      ∀ row ∈ (lateBatch.step (reached firstRun)).store.headRows, "k" ∉ row.event.attributes := by
  decide +kernel

/-- The late call returns and the entry of the first event is still stored. -/
theorem index_keeps_expired_entry :
    ((lateBatch.run (reached firstRun)).1.isOk ∧
        (lateBatch.step (reached firstRun)).idempotency[ck "t1" "e1"]?.map (·.eventTime) =
          some 1000) ∧
      (1000 : Int) < lateBatch.nowMs - idempotencyWindowMs :=
  ⟨lateBatch_facts.1, by decide⟩

/-! ### The key dictionary -/

variable {dict : KeyDictionary}

namespace KeyDictionary

theorem mem_foldl_insert (dict : KeyDictionary) (keys : List String) (key : String) :
    key ∈ keys.foldl (fun dict key => dict.insert key ()) dict ↔ key ∈ dict ∨ key ∈ keys := by
  induction keys generalizing dict with
  | nil => simp
  | cons first rest ih =>
    rw [List.foldl_cons, ih, Std.ExtTreeMap.mem_insert, Std.LawfulEqCmp.compare_eq_iff_eq,
      List.mem_cons, eq_comm]
    tauto

/-- Only keys that are not there yet make the dictionary larger. -/
theorem size_foldl_insert (dict : KeyDictionary) (keys : List String) :
    (keys.foldl (fun dict key => dict.insert key ()) dict).size ≤
      dict.size + (keys.filter (!dict.contains ·)).length := by
  induction keys generalizing dict with
  | nil => simp
  | cons first rest ih =>
    have fewer : (rest.filter (!(dict.insert first ()).contains ·)).length ≤
        (rest.filter (!dict.contains ·)).length := by
      apply List.Sublist.length_le
      apply List.monotone_filter_right
      intro key
      simp only [Std.ExtTreeMap.contains_insert]
      grind
    have step := ih (dict.insert first ())
    rw [Std.ExtTreeMap.size_insert] at step
    rw [List.foldl_cons, List.filter_cons]
    cases known : dict.contains first with
    | true =>
      rw [if_pos known] at step
      simpa using step.trans (Nat.add_le_add_left fewer _)
    | false =>
      rw [if_neg (by simp [known])] at step
      simp only [Bool.not_false, if_true, List.length_cons]
      omega

theorem mem_insertAll {attrs : Attributes} :
    key ∈ dict.insertAll attrs ↔ key ∈ dict ∨ key ∈ attrs := by
  unfold insertAll
  rw [mem_foldl_insert, Std.ExtTreeMap.mem_keys]

/-- Keys that pass the check fit in. -/
theorem size_insertAll {attrs : Attributes} (passed : dict.check attrs = .ok ())
    (fits : dict.size ≤ maxAttributeKeyCardinality) :
    (dict.insertAll attrs).size ≤ maxAttributeKeyCardinality := by
  have bound := size_foldl_insert dict attrs.keys
  unfold check at passed
  split at passed
  next none =>
    rw [none] at bound
    exact bound.trans fits
  next first others novel =>
    rw [novel, List.length_cons] at bound
    simp only at passed
    split at passed
    · simp at passed
    · exact bound.trans (by omega)

end KeyDictionary

/-- Admission widens the dictionary by the keys of what it accepts, as far as they fit. -/
theorem admitAll_dict {a a' : Admitting} (admitted : admitAll nowMs a events = some a') :
    ∃ kept, a'.accepted = a.accepted ++ kept ∧
      (∀ key, key ∈ a'.dict ↔ key ∈ a.dict ∨ ∃ e ∈ kept, key ∈ e.attributes) ∧
      (a.dict.size ≤ maxAttributeKeyCardinality → a'.dict.size ≤ maxAttributeKeyCardinality) := by
  induction events generalizing a with
  | nil =>
    cases admitted
    exact ⟨[], by simp⟩
  | cons e rest ih =>
    obtain ⟨next, first, others⟩ := Option.bind_eq_some_iff.mp admitted
    obtain ⟨kept, accepted, keys, fits⟩ := ih others
    rcases admitEvent_cases first with ⟨taken, _, passed, widened⟩ | ⟨same, kept', _⟩
    · refine ⟨e.stamp nowMs :: kept, by rw [accepted, taken]; simp, fun key => ?_, fun small => ?_⟩
      · rw [keys, widened, KeyDictionary.mem_insertAll, List.exists_mem_cons_iff, or_assoc]
        rfl
      · exact fits (widened ▸ KeyDictionary.size_insertAll passed small)
    · exact ⟨kept, by rw [accepted, same], kept' ▸ keys, kept' ▸ fits⟩

namespace IngestorOp

variable (w : World)

/-- An event of the call that admission accepts has the key. -/
def Brings (key : String) : IngestorOp → Prop
  | .ingest _ events _ _ nowMs _ =>
    ∃ admitted, admitEvents events w.dictionary w.quotas nowMs = some admitted ∧
      ∃ e ∈ admitted.accepted, key ∈ e.attributes
  | _ => False

variable (op : IngestorOp)

/-- The operation logged a record of its own and left every event of it in a committed row or in the
dead-letter log. -/
def Publishes : Prop :=
  ∃ r, (op.step w).wal.durable = w.wal.durable ++ [r] ∧
    ((op.step w).store.clashed = false → (op.step w).RecordSettled r)

/-- The operation is an ingest call that published a record and returned. -/
def Completes : IngestorOp → Prop
  | .ingest ing events source nextOffset nowMs faults =>
    ∃ report, (ing.ingest events source nextOffset nowMs faults w).1 = .ok report ∧
      report.walRecord ≠ none
  | _ => False

/-- The dictionary holds what it held and the keys that the operation brings, if they fit. -/
def Widens (dict : KeyDictionary) : Prop :=
  (∀ key, key ∈ dict ↔ key ∈ w.dictionary ∨ op.Brings w key) ∧
    (w.dictionary.size ≤ maxAttributeKeyCardinality → dict.size ≤ maxAttributeKeyCardinality)

variable {w : World}

theorem widens_of_admitted {ing : Ingestor} {faults : List Fault}
    (widens : Ingestor.Widens events nowMs w dict) :
    (IngestorOp.ingest ing events source nextOffset nowMs faults).Widens w dict := by
  obtain ⟨admitted, done, rfl⟩ := widens
  obtain ⟨kept, accepted, keys, fits⟩ := admitAll_dict done
  obtain rfl : admitted.accepted = kept := by simpa using accepted
  refine ⟨fun key => (keys key).trans (or_congr_right ⟨?_, ?_⟩), fits⟩
  · exact fun brought => ⟨admitted, done, brought⟩
  · rintro ⟨admitted', done', brought⟩
    obtain rfl := Option.mem_unique done done'
    exact brought

theorem Completes.dictionary {op : IngestorOp} (intact : w.store.Intact) (done : op.Completes w)
    (brings : op.Brings w key) : key ∈ (op.step w).dictionary := by
  cases op with
  | ingest ing events source nextOffset nowMs faults =>
    obtain ⟨report, returned, published⟩ := done
    have ends := ing.ingest_spec events source nextOffset nowMs intact faults w rfl
    generalize stopped : ing.ingest events source nextOffset nowMs faults w = ran at ends returned
    obtain ⟨outcome, rest, w'⟩ := ran
    subst returned
    obtain ⟨_, _, reported⟩ := ends
    have widens := reported.written.resolve_left published
    change key ∈ (ing.ingest events source nextOffset nowMs faults w).2.2.dictionary
    rw [stopped]
    exact ((widens_of_admitted widens).1 key).mpr (.inr brings)
  | recover ing nowMs faults | restart => exact done.elim

end IngestorOp

end Prism
