import Prism.Engine.Ingest
import Prism.Properties.Catalog

/-!
What publishing a batch does, however it ends: either the head of the store stays and only files
and dead letters are added, or one commit appends the rows of the batch and moves the marker.
-/

namespace Prism

open CrashLogic Fallible Store

variable {id : String} {applied : Option Nat} {dead : List DeadLetter} {events : List Event}
  {nowMs : Int} {start : World} {trained : Bool}

/-! ### Stages that account for every event -/

structure Sorts (events kept : List Event) (dead : List DeadLetter) : Prop where
  passed : kept.Subperm events
  accounted : ∀ e ∈ events, e ∈ kept ∨ ∃ letter ∈ dead, letter.event = e

namespace Sorts

variable {events kept kept' : List Event} {dead dead' : List DeadLetter}

theorem nil : Sorts [] [] [] := ⟨List.Subperm.refl _, by simp⟩

theorem pass {e : Event} (sorts : Sorts events kept dead) : Sorts (e :: events) (e :: kept) dead where
  passed := (List.subperm_cons e).mpr sorts.passed
  accounted := by
    rintro x (_ | ⟨_, mem⟩)
    · exact .inl (by simp)
    · exact (sorts.accounted x mem).imp (fun inside => by simp [inside]) id

theorem refuse {e : Event} {letter : DeadLetter} (own : letter.event = e)
    (sorts : Sorts events kept dead) : Sorts (e :: events) kept (letter :: dead) where
  passed := sorts.passed.trans (List.sublist_cons_self e events).subperm
  accounted := by
    rintro x (_ | ⟨_, mem⟩)
    · exact .inr ⟨letter, by simp, own⟩
    · rcases sorts.accounted x mem with inside | ⟨l, inside, own⟩
      · exact .inl inside
      · exact .inr ⟨l, by simp [inside], own⟩

theorem trans (first : Sorts events kept dead) (second : Sorts kept kept' dead') :
    Sorts events kept' (dead ++ dead') where
  passed := second.passed.trans first.passed
  accounted e mem := by
    rcases first.accounted e mem with inside | ⟨l, inside, own⟩
    · rcases second.accounted e inside with last | ⟨l, inside, own⟩
      · exact .inl last
      · exact .inr ⟨l, by simp [inside], own⟩
    · exact .inr ⟨l, by simp [inside], own⟩

end Sorts

namespace Engine

theorem admitValid_sorts {events kept : List Event} {dead : List DeadLetter}
    (admitted : admitValid events = some (kept, dead)) : Sorts events kept dead := by
  induction events generalizing kept dead with
  | nil =>
    simp only [admitValid, Option.some_inj, Prod.mk.injEq] at admitted
    obtain ⟨rfl, rfl⟩ := admitted
    exact Sorts.nil
  | cons e rest ih =>
    simp only [admitValid, Option.bind_eq_bind, Option.bind_eq_some_iff] at admitted
    obtain ⟨⟨kept', dead'⟩, inner, verdict, _, last⟩ := admitted
    cases verdict with
    | ok _ =>
      simp only [Option.some_inj, Prod.mk.injEq] at last
      obtain ⟨rfl, rfl⟩ := last
      exact (ih inner).pass
    | error r =>
      simp only [Option.some_inj, Prod.mk.injEq] at last
      obtain ⟨rfl, rfl⟩ := last
      exact (ih inner).refuse rfl

theorem sortEmbedded_sorts (pairs : List (Event × Result Vector32)) :
    Sorts (pairs.map Prod.fst) ((sortEmbedded pairs).1.map Prod.fst) (sortEmbedded pairs).2 := by
  induction pairs with
  | nil => exact Sorts.nil
  | cons pair rest ih =>
    obtain ⟨e, result⟩ := pair
    cases result with
    | ok v => exact ih.pass
    | error err => exact ih.refuse rfl

theorem embedAll_sorts (embed : Embedder) :
    Sorts events ((embedAll embed events).1.map Prod.fst) (embedAll embed events).2 := by
  unfold embedAll
  by_cases mismatched : (embed.embedBatchScoped (embeddingInputs events)).length ≠ events.length
  · rw [if_pos mismatched]
    refine ⟨List.nil_subperm, fun e mem => .inr ?_⟩
    exact ⟨_, List.mem_map_of_mem mem, rfl⟩
  · rw [if_neg mismatched]
    have sorted := sortEmbedded_sorts (events.zip (embed.embedBatchScoped (embeddingInputs events)))
    rwa [List.map_fst_zip (by omega)] at sorted

theorem sortDecided_sorts {pairs : List (Event × Result Unit)} {allowed : List Event}
    {denied : List DeadLetter} (decided : sortDecided pairs = .ok (allowed, denied)) :
    Sorts (pairs.map Prod.fst) allowed denied := by
  induction pairs generalizing allowed denied with
  | nil =>
    simp only [sortDecided, Except.ok.injEq, Prod.mk.injEq] at decided
    obtain ⟨rfl, rfl⟩ := decided
    exact Sorts.nil
  | cons pair rest ih =>
    obtain ⟨e, decision⟩ := pair
    unfold sortDecided at decided
    split at decided
    · obtain ⟨⟨allowed', denied'⟩, inner, last⟩ := bind_eq_ok.mp decided
      obtain ⟨rfl, rfl⟩ := Prod.mk.inj (pure_eq_ok.mp last)
      exact (ih inner).pass
    · obtain ⟨⟨allowed', denied'⟩, inner, last⟩ := bind_eq_ok.mp decided
      obtain ⟨rfl, rfl⟩ := Prod.mk.inj (pure_eq_ok.mp last)
      exact (ih inner).refuse rfl
    · simp at decided

theorem encodeRows_events {engine : Engine} {g : Generation} {embedded : List (Event × Vector32)}
    {rows : List RowIn} (encoded : engine.encodeRows g embedded = .ok rows) :
    rows.map (·.event) = embedded.map Prod.fst := by
  have each := mapM_eq_ok.mp encoded
  clear encoded
  induction each with
  | nil => rfl
  | cons row _ ih =>
    obtain ⟨code, _, rfl⟩ := bind_pure_eq_ok.mp row
    simp [ih]

theorem numbered_groups (nextSeq : Nat) (groups : List (PartitionKey × List RowIn)) :
    (numbered nextSeq groups).map Prod.snd = groups :=
  List.map_snd_zip (by simp)

end Engine

/-! ### What publication can have done -/

namespace World

def DeadLettered (w : World) (e : Event) : Prop := ∃ letter ∈ w.deadLetters, letter.event = e

/-- The head of the store holds the event, or the dead-letter log does. -/
def Settled (w : World) (e : Event) : Prop :=
  (∃ row ∈ w.store.headRows, row.event = e) ∨ w.DeadLettered e

/-- Nothing was committed; files and letters may have been added. -/
structure Quiet (w w' : World) : Prop where
  store : Grown w.store w'.store
  letters : w.deadLetters <+: w'.deadLetters

/-- One commit appended rows of `events` to the head, set the marker, and left no event of the batch
without a row or a letter. -/
structure Commits (events : List Event) (applied : Option Nat) (w w' : World) : Prop where
  letters : w.deadLetters <+: w'.deadLetters
  clashed : w.store.clashed = true → w'.store.clashed = true
  intact : w'.store.Intact
  marker : w'.store.marker = applied.or w.store.marker
  rows : w'.store.clashed = false → ∃ new, w'.store.headRows = w.store.headRows ++ new ∧
    (new.map (·.event)).Subperm events
  settled : w'.store.clashed = false → ∀ e ∈ events, w'.Settled e

theorem Quiet.refl (w : World) : Quiet w w := ⟨Grown.refl _, List.prefix_refl _⟩

variable {a b c : World}

theorem Quiet.trans (first : Quiet a b) (second : Quiet b c) : Quiet a c :=
  ⟨first.store.trans second.store, first.letters.trans second.letters⟩

/-- How a publication that failed or crashed can have left the world. -/
def Stopped (events : List Event) (applied : Option Nat) (w w' : World) : Prop :=
  Quiet w w' ∨ Commits events applied w w'

/-- How a publication that returned has left the world. -/
def Finished (events : List Event) (applied : Option Nat) (w w' : World) : Prop :=
  (Quiet w w' ∧ ∀ e ∈ events, w'.DeadLettered e) ∨ Commits events applied w w'

variable {applied : Option Nat} {w w' : World} {events : List Event}

theorem Finished.stopped (finished : Finished events applied w w') : Stopped events applied w w' :=
  finished.imp And.left id

theorem Quiet.commits (quiet : Quiet a b) (intact : a.store.Intact)
    (commits : Commits events applied b c) : Commits events applied a c where
  letters := quiet.letters.trans commits.letters
  clashed before := commits.clashed (quiet.store.clashed before)
  intact := commits.intact
  marker := by rw [commits.marker, quiet.store.marker]
  rows clean := by
    obtain ⟨new, rows, among⟩ := commits.rows clean
    exact ⟨new, by rw [rows, quiet.store.headRows intact], among⟩
  settled := commits.settled

theorem Quiet.stopped (quiet : Quiet a b) (intact : a.store.Intact)
    (stopped : Stopped events applied b c) : Stopped events applied a c :=
  stopped.imp quiet.trans (quiet.commits intact)

theorem Quiet.finished (quiet : Quiet a b) (intact : a.store.Intact)
    (finished : Finished events applied b c) : Finished events applied a c :=
  finished.imp (fun h => ⟨quiet.trans h.1, h.2⟩) (quiet.commits intact)

def ledger (w : World) : Store × List DeadLetter := (w.store, w.deadLetters)

theorem Settled.of_ledger {e : Event} (settled : w.Settled e) (same : w'.ledger = w.ledger) :
    w'.Settled e := by
  obtain ⟨store, letters⟩ := Prod.mk.inj same
  simpa only [Settled, DeadLettered, store, letters] using settled

variable {start : World}

theorem Commits.of_ledger (commits : Commits events applied start w) (same : w'.ledger = w.ledger) :
    Commits events applied start w' := by
  obtain ⟨store, letters⟩ := Prod.mk.inj same
  exact
    { letters := letters ▸ commits.letters
      clashed := store ▸ commits.clashed
      intact := store ▸ commits.intact
      marker := store ▸ commits.marker
      rows := store ▸ commits.rows
      settled := fun clean e mem => (commits.settled (store ▸ clean) e mem).of_ledger same }

theorem Quiet.of_ledger (quiet : Quiet start w) (same : w'.ledger = w.ledger) : Quiet start w' := by
  obtain ⟨store, letters⟩ := Prod.mk.inj same
  exact ⟨store ▸ quiet.store, letters ▸ quiet.letters⟩

theorem Stopped.of_ledger (stopped : Stopped events applied start w) (same : w'.ledger = w.ledger) :
    Stopped events applied start w' :=
  stopped.imp (·.of_ledger same) (·.of_ledger same)

theorem Finished.of_ledger (finished : Finished events applied start w)
    (same : w'.ledger = w.ledger) : Finished events applied start w' := by
  refine finished.imp (fun ⟨quiet, lettered⟩ => ⟨quiet.of_ledger same, fun e mem => ?_⟩)
    (·.of_ledger same)
  obtain ⟨letter, inside, own⟩ := lettered e mem
  have letters : w'.deadLetters = w.deadLetters := (Prod.mk.inj same).2
  exact ⟨letter, letters ▸ inside, own⟩

end World

namespace Engine

open World

variable {start : World}

theorem onStore_spec {α : Type} {p : StoreProg α} {Q : α → World → Prop} {E : World → Prop}
    (inner : Triple (· = start.store) p (fun a store => Q a { start with store }) (fun store => E {
      start with store })) : Triple (· = start) (onStore p) Q E :=
  Triple.zoom World.storeLens fun _ same => same ▸ inner

theorem onStore_observes {α : Type} {p : StoreProg α} {C : Store → α → Prop} (looks : Observes p C) :
    Observes (onStore p) fun w => C w.store := looks.zoom World.storeLens

theorem snapshot_spec : Observes snapshot fun w snap => Catalog.currentIn w.store = .ok snap :=
  onStore_observes Observes.read

theorem orHalt_spec {α : Type} (r : Panics α) : Observes (orHalt r) fun _ a => r = some a := by
  cases r with
  | some a => exact Observes.pure fun _ => rfl
  | none => exact Observes.halt

theorem writeDeadLetters_spec : Triple (· = start) (writeDeadLetters dead)
      (fun _ w => w.ledger = (start.store, start.deadLetters ++ dead)) (fun w => Quiet start w) := by
  unfold writeDeadLetters
  by_cases none : dead.isEmpty
  · rw [if_pos none]
    refine Triple.pure ?_
    rintro w rfl
    simp [List.isEmpty_iff.mp none, ledger]
  · rw [if_neg none]
    refine Triple.act ?_ ?_
    · rintro w rfl
      rfl
    · rintro n w rfl
      exact ⟨Grown.refl _, List.prefix_append _ _⟩

/-- The world without the objects that publication puts up and never reads rows back from. -/
def besideCold (w : World) : World := { w with objects := { w.objects with mirror := ∅, cold := ∅ } }

variable (engine : Engine)

theorem assertWriteOwner_spec : Observes engine.assertWriteOwner fun _ _ => True := by
  unfold assertWriteOwner
  split
  · exact Observes.pure fun _ => trivial
  · exact Observes.read.weaken fun _ _ _ => trivial

variable (snap : Snapshot)

theorem mirrorSnapshot_leaves : Leaves besideCold (mirrorSnapshot snap) := by
  unfold mirrorSnapshot
  split
  · exact Leaves.pure
  · refine Leaves.bind (Leaves.replace fun w => ?_) fun _ => Leaves.read
    unfold putMirror
    split <;> rfl

theorem publishPartCold_leaves (partId : String) : Leaves besideCold (publishPartCold partId) := by
  refine Leaves.bind Leaves.read fun found => ?_
  split
  · exact Leaves.pure
  · refine Leaves.bind Leaves.read fun head => ?_
    dsimp only
    split
    · exact Leaves.bind (Leaves.replace fun _ => rfl) fun _ => Leaves.read
    · exact Leaves.read

def Holds (store : Store) (item : Nat × PartitionKey × List RowIn) (ref : PartRef) : Prop :=
  (store.parts[ref.partId]?).map Part.rows = some (sortRows item.2.2) ∧ ref.partition = item.2.1

theorem Holds.grown {store store' : Store} {item : Nat × PartitionKey × List RowIn} {ref : PartRef}
    (holds : Holds store item ref) (grown : Grown store store') : Holds store' item ref := by
  obtain ⟨part, found, rows⟩ := Option.map_eq_some_iff.mp holds.1
  refine ⟨?_, holds.2⟩
  simp [grown.parts _ _ found, rows]

/-- Write a part; under its name are its rows, unless another part has the name. -/
theorem storePart_spec (shape : PartShape) (spec : PartSpec)
    (item : Nat × PartitionKey × List RowIn) :
    Triple (· = start) (onStore (Catalog.writePart shape spec item.1 item.2.2 nowMs))
      (fun manifest w => Grown start.store w.store ∧ w.deadLetters = start.deadLetters ∧
        (w.store.clashed = false → Holds w.store item (partRef manifest item.2.1)))
      (fun w => Quiet start w) := by
  refine onStore_spec ((writePart_spec shape spec item.1 item.2.2 nowMs).conseq
    (fun _ h => h) ?_ ?_)
  · rintro manifest store ⟨part, built, rfl, rfl⟩
    refine ⟨putPart_grown, rfl, fun clean => ⟨?_, rfl⟩⟩
    obtain ⟨_, _, _, _, written⟩ := buildPart_written built
    simpa [partRef, written.rows] using rows_putPart clean
  · rintro store (rfl | ⟨part, _, rfl⟩)
    · exact Quiet.refl start
    · exact ⟨putPart_grown, List.prefix_refl _⟩

variable (g : Generation)

theorem writePartition_spec (item : Nat × PartitionKey × List RowIn) (start : World) :
    Triple (· = start) (engine.writePartition g nowMs item)
      (fun ref w => Grown start.store w.store ∧ w.deadLetters = start.deadLetters ∧
        (w.store.clashed = false → Holds w.store item ref))
      (fun w => Quiet start w) := by
  refine Observes.ofExcept.bind_triple (Quiet.refl start) fun tokenizer _ => ?_
  refine Observes.ofExcept.bind_triple (Quiet.refl start) fun encryption _ => ?_
  exact Triple.bind (storePart_spec _ _ item) fun _ => Triple.pure fun _ held => held

/-- A loop that writes one part per partition. -/
theorem eachPart_spec {β : Type} {write : Nat × PartitionKey × List RowIn → Io β}
    (refOf : β → PartRef) (step : ∀ item start, Triple (· = start) (write item)
      (fun out w => Grown start.store w.store ∧ w.deadLetters = start.deadLetters ∧
        (w.store.clashed = false → Holds w.store item (refOf out)))
      (fun w => Quiet start w)) (items : List (Nat × PartitionKey × List RowIn)) :
    Triple (· = start) (Prog.each write items)
      (fun outs w => Grown start.store w.store ∧ w.deadLetters = start.deadLetters ∧
        (w.store.clashed = false → List.Forall₂ (Holds w.store) items (outs.map refOf)))
      (fun w => Quiet start w) := by
  refine Triple.each (I := fun done outs (w : World) => Grown start.store w.store ∧
    w.deadLetters = start.deadLetters ∧
      (w.store.clashed = false → List.Forall₂ (Holds w.store) done (outs.map refOf))) items ?_
    fun before item _ outs _ => ?_
  · rintro w rfl
    exact ⟨Grown.refl _, rfl, fun _ => .nil⟩
  · refine Triple.fix fun w ⟨grown, letters, held⟩ => ?_
    refine (step item w).conseq (fun _ h => h) ?_ ?_
    · rintro out w' ⟨grown', letters', held'⟩
      refine ⟨grown.trans grown', letters'.trans letters, fun clean => ?_⟩
      rw [List.map_append]
      exact List.rel_append ((held (grown'.not_clashed clean)).imp fun _ _ h => h.grown grown')
        (.cons (held' clean) .nil)
    · intro w' quiet
      exact ⟨grown.trans quiet.store, letters ▸ quiet.letters⟩

variable {refs : List PartRef}

theorem rowsOf_held {store : Store} {items : List (Nat × PartitionKey × List RowIn)}
    (held : List.Forall₂ (Holds store) items refs) :
    store.rowsOf (refs.map .located) = items.flatMap fun item => sortRows item.2.2 := by
  induction held with
  | nil => rfl
  | cons first _ ih =>
    simp only [rowsOf, List.map_cons, List.flatMap_cons, PartEntry.partId] at ih ⊢
    rw [ih, first.1]
    rfl

/-- The parts of a batch hold its rows, each once. -/
theorem partitions_perm (nextSeq : Nat) (rows : List RowIn) :
    ((numbered nextSeq (engine.partitionRows g rows)).flatMap fun item => sortRows item.2.2).Perm
      rows := by
  have groups : ((numbered nextSeq (engine.partitionRows g rows)).map Prod.snd).flatMap
      (fun group => sortRows group.2) = (numbered nextSeq (engine.partitionRows g rows)).flatMap
        fun item => sortRows item.2.2 := List.flatMap_map ..
  rw [← groups, numbered_groups]
  refine List.Perm.trans ?_ (OrderedMap.groupBy_perm
    (fun r : RowIn => engine.config.partitions.keyOf g.generationId r.event) rows)
  exact List.Perm.flatMap_left _ fun group _ => sortRows_perm group.2

/-- What is known once the parts of a batch are written: the head is still the one of `start`. -/
structure Written (start : World) (dead : List DeadLetter) (embedded : List Event)
    (refs : List PartRef) (ledger : Store × List DeadLetter) : Prop where
  grown : Grown start.store ledger.1
  letters : ledger.2 = start.deadLetters ++ dead
  rows : ledger.1.clashed = false →
    ((ledger.1.rowsOf (refs.map .located)).map (·.event)).Perm embedded

variable {dead : List DeadLetter} {embedded : List Event}

theorem Written.quiet {w : World} (written : Written start dead embedded refs w.ledger) :
    Quiet start w :=
  ⟨written.grown, ⟨dead, written.letters.symm⟩⟩

def batchSnapshot (snap : Snapshot) (refs : List PartRef) (nextSeq : Nat) (active : Option String)
    (applied : Option Nat) (nowMs : Int) : Snapshot :=
  Catalog.nextSnapshot snap (snap.parts ++ refs.map .located) nextSeq active
    (markedMeta snap applied) nowMs

variable {events : List Event} {applied : Option Nat}

/-- The commit of the parts written for a batch. -/
theorem Written.commits {w : World} {snap : Snapshot} {nextSeq : Nat} {active : Option String}
    {nowMs : Int} (written : Written start dead embedded refs w.ledger)
    (sorts : Sorts events embedded dead) (head : Catalog.currentIn start.store = .ok snap)
    (present : start.store.PartsPresent snap.parts)
    (found : w.store.PartsPresent (snap.parts ++ refs.map .located)) : Commits events applied start
      { w with store := install (batchSnapshot snap refs nextSeq active applied nowMs) w.store } := by
  have rows : (install (batchSnapshot snap refs nextSeq active applied nowMs) w.store).headRows =
      start.store.headRows ++ w.store.rowsOf (refs.map .located) := by
    simp only [headRows, currentIn_install, head]
    change w.store.rowsOf (snap.parts ++ refs.map .located) = _
    have earlier : w.store.rowsOf snap.parts = start.store.rowsOf snap.parts :=
      rowsOf_of_parts written.grown.parts present
    rw [rowsOf_append, earlier]
  refine ⟨⟨dead, written.letters.symm⟩, written.grown.clashed,
    ⟨_, currentIn_install _ _, found⟩, ?_, fun clean => ?_, fun clean e mem => ?_⟩
  · simp only [Store.marker, currentIn_install, head]
    cases applied <;> rfl
  · exact ⟨_, rows, (written.rows clean).subperm.trans sorts.passed⟩
  · rcases sorts.accounted e mem with kept | ⟨letter, inside, own⟩
    · obtain ⟨row, inside, own⟩ := List.mem_map.mp ((written.rows clean).mem_iff.mpr kept)
      exact .inl ⟨row, rows ▸ List.mem_append_right _ inside, own⟩
    · refine .inr ⟨letter, ?_, own⟩
      have letters : w.deadLetters = start.deadLetters ++ dead := written.letters
      simp [letters, inside]

theorem writeAndCommit_spec (embedded : List (Event × Vector32))
    (sorts : Sorts events (embedded.map Prod.fst) dead)
    (head : Catalog.currentIn start.store = .ok snap)
    (present : start.store.PartsPresent snap.parts) :
    Triple (· = start) (engine.writeAndCommit snap g embedded dead trained nowMs applied)
      (fun _ w => Finished events applied start w) (fun w => Stopped events applied start w) := by
  refine Triple.bind (Q := fun _ w => w.ledger = (start.store, start.deadLetters ++ dead))
    (writeDeadLetters_spec.stopping fun _ h => .inl h) fun _ => ?_
  by_cases none : embedded.isEmpty
  · -- Nothing to commit: every event has its letter.
    rw [if_pos none]
    refine Triple.pure fun w lettered => .inl ⟨?_, fun e mem => ?_⟩
    · obtain ⟨store, letters⟩ := Prod.mk.inj lettered
      exact ⟨store ▸ Grown.refl _, ⟨dead, letters.symm⟩⟩
    · rcases sorts.accounted e mem with kept | ⟨letter, inside, own⟩
      · simp [List.isEmpty_iff.mp none] at kept
      · have letters : w.deadLetters = start.deadLetters ++ dead := (Prod.mk.inj lettered).2
        exact ⟨letter, by simp [letters, inside], own⟩
  · rw [if_neg none]
    have lettered : ∀ w : World, w.ledger = (start.store, start.deadLetters ++ dead) →
        Stopped events applied start w := fun w same =>
      .inl ⟨(Prod.mk.inj same).1 ▸ Grown.refl _, ⟨dead, (Prod.mk.inj same).2.symm⟩⟩
    refine Triple.bind (Q := fun rows w => engine.encodeRows g embedded = .ok rows ∧
      w.ledger = (start.store, start.deadLetters ++ dead))
      (Triple.ofExcept (fun _ _ encoded same => ⟨encoded, same⟩) lettered) fun rows => ?_
    refine Triple.assume fun encoded => ?_
    refine Triple.bind (Q := fun refs w => Written start dead (embedded.map Prod.fst) refs w.ledger)
      ?_ fun refs => ?_
    · -- The parts of the batch.
      refine Triple.fix fun w same => ?_
      obtain ⟨store, letters⟩ := Prod.mk.inj same
      refine (eachPart_spec id (writePartition_spec engine g) _).conseq (fun _ h => h) ?_ ?_
      · rintro refs w' ⟨grown, letters', held⟩
        refine ⟨store ▸ grown, letters'.trans letters, fun clean => ?_⟩
        have rowsHeld : w'.store.rowsOf (refs.map .located) = _ := rowsOf_held (by simpa using held clean)
        rw [show w'.ledger.1 = w'.store from rfl, rowsHeld, ← encodeRows_events encoded]
        exact (partitions_perm engine g snap.nextSeq rows).map _
      · intro w' quiet
        exact .inl ⟨store ▸ quiet.store, (List.prefix_append _ dead).trans (letters ▸ quiet.letters)⟩
    · have stops : ∀ w : World, Written start dead (embedded.map Prod.fst) refs w.ledger →
          Stopped events applied start w := fun w written => .inl written.quiet
      have cold : Leaves ledger (Prog.each publishPartCold (refs.map (·.partId))) :=
        (Leaves.each publishPartCold_leaves).map ledger
      have owner : Leaves ledger engine.assertWriteOwner := (assertWriteOwner_spec engine).leaves ledger
      have mirror (snap : Snapshot) : Leaves ledger (mirrorSnapshot snap) :=
        (mirrorSnapshot_leaves snap).map ledger
      refine Triple.bind (cold.triple stops) fun _ => ?_
      refine Triple.bind (owner.triple stops) fun _ => ?_
      refine Triple.bind ((mirror snap).triple stops) fun _ => ?_
      refine Triple.bind (Q := fun _ w => Commits events applied start w) ?_ fun committed => ?_
      · refine Triple.fix fun w written => onStore_spec ?_
        refine (commitMeta_spec snap _ _ _ _ nowMs w.store).conseq (fun _ h => h) ?_ ?_
        · rintro _ store ⟨rfl, rfl, found⟩
          exact written.commits sorts head present found.present
        · rintro store (rfl | ⟨rfl, _⟩ | ⟨rfl, found⟩)
          · exact .inl written.quiet
          · refine .inl ⟨written.grown.trans ?_, written.quiet.letters⟩
            exact putSnapshot_grown (written.grown.head.trans head) (Nat.lt_succ_self _)
          · exact .inr (written.commits sorts head present found.present)
      · refine Triple.bind ((mirror committed).carry
          (fun _ _ same commits => commits.of_ledger same) fun _ commits => .inr commits)
          fun _ => Triple.pure fun _ commits => .inr commits

theorem finishEmpty_spec (sorts : Sorts events [] dead) : Triple (· = start) (finishEmpty snap dead)
      (fun _ w => Finished events applied start w) (fun w => Stopped events applied start w) := by
  refine Triple.bind (Q := fun _ w => w.ledger = (start.store, start.deadLetters ++ dead))
    (writeDeadLetters_spec.stopping fun _ h => .inl h)
    fun _ => Triple.pure fun w lettered => .inl ⟨?_, fun e mem => ?_⟩
  · obtain ⟨store, letters⟩ := Prod.mk.inj lettered
    exact ⟨store ▸ Grown.refl _, ⟨dead, letters.symm⟩⟩
  · rcases sorts.accounted e mem with kept | ⟨letter, inside, own⟩
    · simp at kept
    · have letters : w.deadLetters = start.deadLetters ++ dead := (Prod.mk.inj lettered).2
      exact ⟨letter, by simp [letters, inside], own⟩

theorem getGeneration_spec :
    Observes (onStore (Catalog.getGeneration id)) fun w g => w.store.generations[id]? = some g := by
  refine onStore_observes (C := fun store g => store.generations[id]? = some g)
    (Observes.read.weaken fun store g returned => ?_)
  split at returned
  next held found => exact Except.ok.inj returned ▸ found
  · cases returned

theorem putGenerationIn_grown (store : Store) : Grown store (Catalog.putGenerationIn g store) := by
  unfold Catalog.putGenerationIn
  split
  · exact Grown.refl _
  · exact ⟨rfl, fun _ _ h => h, fun h => h⟩

theorem publishBatch_spec (admitted : List Event) (sorts : Sorts events admitted dead)
    (head : Catalog.currentIn start.store = .ok snap)
    (present : start.store.PartsPresent snap.parts) :
    Triple (· = start) (engine.publishBatch snap admitted dead nowMs applied)
      (fun _ w => Finished events applied start w) (fun w => Stopped events applied start w) := by
  have stays : Stopped events applied start start := .inl (Quiet.refl start)
  unfold publishBatch
  split
  · refine getGeneration_spec.bind_triple stays fun g _ => ?_
    refine Observes.ofExcept.bind_triple stays fun embed _ => ?_
    exact writeAndCommit_spec engine snap g _ (sorts.trans (embedAll_sorts embed)) head present
  · refine Observes.ofExcept.bind_triple stays fun embed _ => ?_
    have sorted := sorts.trans (embedAll_sorts embed)
    dsimp only
    split
    next none =>
      rw [List.isEmpty_iff.mp none] at sorted
      exact finishEmpty_spec snap sorted
    · refine Observes.ofExcept.bind_triple stays fun g _ => ?_
      refine Triple.bind (Q := fun _ w => w = { start with
        store := Catalog.putGenerationIn g start.store }) (onStore_spec (Triple.replace ?_ ?_ ?_))
        fun _ => ?_
      · rintro store rfl
        rfl
      · rintro store rfl
        exact .inl (Quiet.refl start)
      · rintro store rfl
        exact .inl ⟨putGenerationIn_grown g start.store, List.prefix_refl _⟩
      · refine Triple.fix fun w same => ?_
        have grown := putGenerationIn_grown g start.store
        have quiet : Quiet start w := same ▸ ⟨grown, List.prefix_refl _⟩
        have intact : start.store.Intact := ⟨snap, head, present⟩
        have here : Catalog.currentIn w.store = .ok snap := quiet.store.head.trans head
        refine (writeAndCommit_spec engine snap g _ sorted here ?_).conseq
          (fun _ h => h) (fun _ _ h => quiet.finished intact h) fun _ h => quiet.stopped intact h
        intro entry mem
        obtain ⟨part, found⟩ := present entry mem
        exact ⟨part, quiet.store.parts _ _ found⟩

theorem modelPreflightForSnapshot_spec : Observes (engine.modelPreflightForSnapshot snap events)
      fun _ decided => Sorts events decided.1 decided.2 := by
  have model : Observes (engine.modelFor snap) fun _ _ => True := by
    unfold modelFor
    split
    · exact Observes.bind getGeneration_spec fun _ => Observes.pure fun _ _ => trivial
    · exact Observes.bind Observes.ofExcept fun _ => Observes.pure fun _ _ => trivial
  unfold modelPreflightForSnapshot
  split
  next none =>
    rw [List.isEmpty_iff.mp none]
    exact Observes.pure fun _ => Sorts.nil
  · refine Observes.bind model fun model => ?_
    dsimp only
    split
    · exact Observes.throw
    next matched =>
      refine Observes.ofExcept.weaken fun _ decided returned _ => ?_
      have sorts : Sorts _ decided.1 decided.2 := sortDecided_sorts returned
      rwa [List.map_fst_zip (by omega)] at sorts

/-- Publication of a batch, from any intact store and under any faults. -/
theorem ingestInner_spec (events : List Event) (nowMs : Int) (applied : Option Nat)
    (preflightModel : Bool) (intact : start.store.Intact) :
    Triple (· = start) (engine.ingestInner events nowMs applied preflightModel)
      (fun _ w => Finished events applied start w) (fun w => Stopped events applied start w) := by
  have stays : Stopped events applied start start := .inl (Quiet.refl start)
  obtain ⟨snap, head, present⟩ := intact
  refine snapshot_spec.bind_triple stays fun read here => ?_
  obtain rfl := ok_unique here head
  refine (orHalt_spec _).bind_triple stays fun sorted validated => ?_
  have sorts := admitValid_sorts validated
  obtain ⟨admitted, dead⟩ := sorted
  dsimp only
  split
  · refine (modelPreflightForSnapshot_spec engine read).bind_triple stays
      fun decided decidedSorts => ?_
    have sorted := sorts.trans decidedSorts
    split
    next none =>
      rw [List.isEmpty_iff.mp none] at sorted
      exact finishEmpty_spec read sorted
    · exact publishBatch_spec engine read _ sorted head present
  · exact publishBatch_spec engine read _ sorts head present

end Engine

/-! ### What publication leaves alone -/

/-- The logs, the index, the offsets and the counters, which only the ingestor writes. -/
structure Aside where
  wal : WalState
  idempotency : IdempotencyIndex
  dictionary : KeyDictionary
  offsets : BTreeMap String Nat
  quotas : QuotaEnforcer
  suppressed : List Event
  remoteWal : RemoteLog
  owners : BTreeMap Nat String

def World.aside (w : World) : Aside :=
  ⟨w.wal, w.idempotency, w.dictionary, w.offsets, w.quotas, w.suppressed, w.objects.remoteWal,
    w.objects.owners⟩

namespace Engine

open World

theorem onStore_aside {α : Type} (p : StoreProg α) : Leaves aside (onStore p) :=
  Leaves.zoom fun _ _ => rfl

theorem writeDeadLetters_leaves {τ : Type} {view : World → τ}
    (beside : ∀ w letters, view { w with deadLetters := letters } = view w) (dead : List DeadLetter) :
    Leaves view (writeDeadLetters dead) := by
  unfold writeDeadLetters
  split
  · exact Leaves.pure
  · exact Leaves.act (fun _ => beside _ _) fun _ _ => beside _ _

variable (engine : Engine)

theorem writePartition_aside (g : Generation) (item : Nat × PartitionKey × List RowIn) :
    Leaves aside (engine.writePartition g nowMs item) :=
  Leaves.bind Leaves.ofExcept fun _ => Leaves.bind Leaves.ofExcept fun _ =>
    Leaves.bind (onStore_aside _) fun _ => Leaves.pure

variable (snap : Snapshot)

theorem writeAndCommit_aside (g : Generation) (embedded : List (Event × Vector32)) :
    Leaves aside (engine.writeAndCommit snap g embedded dead trained nowMs applied) := by
  refine Leaves.bind (writeDeadLetters_leaves (fun _ _ => rfl) dead) fun _ => ?_
  split
  · exact Leaves.pure
  · refine Leaves.bind Leaves.ofExcept fun rows => ?_
    refine Leaves.bind (Leaves.each (writePartition_aside engine g)) fun refs => ?_
    refine Leaves.bind ((Leaves.each publishPartCold_leaves).map aside) fun _ => ?_
    refine Leaves.bind ((assertWriteOwner_spec engine).leaves aside) fun _ => ?_
    refine Leaves.bind ((mirrorSnapshot_leaves snap).map aside) fun _ => ?_
    exact Leaves.bind (onStore_aside _) fun committed =>
      Leaves.bind ((mirrorSnapshot_leaves committed).map aside) fun _ => Leaves.pure

/-- A batch is published by looks, dead letters and perhaps the file of a generation; it ends with a
report or with `write_and_commit`. What holds of these steps holds of the whole. -/
theorem ingestInner_reads {τ : Type} {view : World → τ} {R : Snapshot → Io IngestReport → Prop}
    {S : Io IngestReport → Prop} {events : List Event} {nowMs : Int} {applied : Option Nat}
    {preflightModel : Bool}
    (start : ∀ {f : Snapshot → Io IngestReport}, (∀ snap, R snap (f snap)) → S (snapshot >>= f))
    (onward : ∀ {snap : Snapshot} {α : Type} {p : Io α} {f : α → Io IngestReport},
      Leaves view p → (∀ a, R snap (f a)) → R snap (p >>= f))
    (letters : ∀ dead, Leaves view (writeDeadLetters dead))
    (files : ∀ {snap : Snapshot} {g : Generation} {f : Unit → Io IngestReport},
      (∀ a, R snap (f a)) → R snap (onStore (Catalog.putGeneration g) >>= f))
    (reports : ∀ {snap : Snapshot} {report : IngestReport}, R snap (pure report))
    (writes : ∀ snap g embedded dead trained,
      R snap (engine.writeAndCommit snap g embedded dead trained nowMs applied)) :
    S (engine.ingestInner events nowMs applied preflightModel) := by
  have empty (snap : Snapshot) (dead : List DeadLetter) : R snap (finishEmpty snap dead) :=
    onward (letters dead) fun _ => reports
  have batch (snap : Snapshot) (admitted : List Event) (dead : List DeadLetter) :
      R snap (engine.publishBatch snap admitted dead nowMs applied) := by
    unfold publishBatch
    split
    · exact onward (getGeneration_spec.leaves view) fun g => onward Leaves.ofExcept fun _ =>
        writes snap g _ _ false
    · refine onward Leaves.ofExcept fun embed => ?_
      dsimp only
      split
      · exact empty snap _
      · exact onward Leaves.ofExcept fun g => files fun _ => writes snap g _ _ true
  refine start fun snap => onward ((orHalt_spec _).leaves view) fun sorted => ?_
  dsimp only
  split
  · refine onward ((modelPreflightForSnapshot_spec engine snap).leaves view) fun decided => ?_
    split
    · exact empty snap _
    · exact batch snap _ _
  · exact batch snap _ _

theorem ingestInner_aside (events : List Event) (nowMs : Int) (applied : Option Nat)
    (preflightModel : Bool) :
    Leaves aside (engine.ingestInner events nowMs applied preflightModel) :=
  engine.ingestInner_reads (Leaves.bind (onStore_aside _)) Leaves.bind
    (writeDeadLetters_leaves fun _ _ => rfl) (Leaves.bind (onStore_aside _)) Leaves.pure
    fun snap g _ _ _ => writeAndCommit_aside engine snap g _

end Engine

end Prism
