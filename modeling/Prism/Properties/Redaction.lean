import Prism.Properties.MergePlan
import Prism.Properties.MergeRows
import Prism.Properties.ReaderLease

/-!
What the two merges do with the redaction that a part records in its lineage.
-/

namespace Prism

open CrashLogic Fallible Catalog Store Engine

/-! ### What a merge rewrites -/

structure Rewrite where
  inputs : List String
  rows : List RowIn

/-- The entries a merge leaves in the snapshot, and the parts it writes behind them. -/
structure RewritePlan where
  kept : List PartEntry
  rewrites : List Rewrite

def Store.partsAt (store : Store) (ids : List String) : List Part :=
  ids.filterMap (store.parts[·]?)

def reconcileOp (scheme : PartitionScheme) (snap : Snapshot) (parts : List Part) : OpReconciled :=
  parts.foldl (fun s part =>
    part.rows.foldl (OpReconciled.take scheme snap part.manifest.generationId) s) ⟨∅, none, 0⟩

namespace Engine

variable (engine : Engine) (store : Store)

/-- The full merge reads every part and writes the reconciled rows of each partition. -/
def fullRewrites (snap : Snapshot) : RewritePlan :=
  ⟨[], (reconcileParts engine.config.partitions snap (store.layout snap.parts)).groups.map
    fun group => ⟨snap.partIds, group.2⟩⟩

/-- The part of one operation, unless every row of its parts is deleted. -/
def opRewrite (snap : Snapshot) (op : MergeOp) : Option Rewrite :=
  let s := reconcileOp engine.config.partitions snap (store.partsAt op.partIds)
  s.key.map fun _ => ⟨op.partIds, s.merged.toList.map Prod.snd⟩

/-- The tiered merge rewrites the parts of its operations and keeps the others. -/
def tieredRewrites (snap : Snapshot) : RewritePlan :=
  let refs := snap.parts.filterMap PartEntry.located?
  if refs.length ≠ snap.parts.length then engine.fullRewrites store snap
  else
    let ops := (planMerges refs).ops
    ⟨snap.parts.filter fun e => !(ops.flatMap (·.partIds)).contains e.partId,
      ops.filterMap (engine.opRewrite store snap)⟩

end Engine

inductive MergePath
  | full
  | tiered
  deriving DecidableEq, Repr

namespace MergePath

def run (path : MergePath) (engine : Engine) (free : Option Nat) (nowMs : Int) : Io MergeReport :=
  match path with
  | full => engine.merge free nowMs
  | tiered => engine.mergeTiered free nowMs

def plan (path : MergePath) (engine : Engine) (store : Store) (snap : Snapshot) : RewritePlan :=
  match path with
  | full => engine.fullRewrites store snap
  | tiered => engine.tieredRewrites store snap

end MergePath

/-! ### The lineage of the parts that a merge writes -/

def Part.Redacted (part : Part) : Prop :=
  ∃ lineage, part.manifest.s5 = .ok lineage ∧ lineage.bodiesRedacted = true

def Part.RedactedWithReason (part : Part) : Prop :=
  ∃ lineage, part.manifest.s5 = .ok lineage ∧ lineage.bodiesRedacted = true ∧
    lineage.redactionReason ≠ ""

def Part.ClaimsIntact (part : Part) : Prop := part.manifest.s5 = .ok {}

theorem Part.ClaimsIntact.not_redacted {part : Part} (intact : part.ClaimsIntact) : ¬part.RedactedWithReason := by
  rintro ⟨lineage, read, redacted, _⟩
  rw [intact] at read
  cases read
  cases redacted

/-- A part written with the default lineage has no lineage extension. -/
theorem buildPart_claimsIntact {shape : PartShape} {key : Option PartitionKey} {promote : List String}
    {tokenizer : Option TenantTokenizer} {seq : Nat} {rows : List RowIn} {nowMs : Int} {part : Part}
    (built : buildPart shape ⟨key, promote, {}, none, tokenizer⟩ seq rows nowMs = .ok part) :
    part.ClaimsIntact := by
  obtain ⟨_, _, _, _, written⟩ := buildPart_written built
  obtain ⟨_, manifest⟩ := written.manifest
  have absent : part.manifest.extensions.find? (·.id = extS5Lineage) = none := by
    rw [manifest, List.find?_eq_none]
    intro e mem
    simp only [partExtensions, S5Ext.isDefault, decide_true, if_true, List.append_nil] at mem
    split at mem
    · rw [List.mem_singleton.mp mem]
      simp only [decide_eq_true_eq]
      decide
    · cases mem
  rw [Part.ClaimsIntact, PartManifest.s5, absent]

variable (engine : Engine)

namespace Engine

theorem remakes_claimsIntact : engine.Remakes Part.ClaimsIntact :=
  fun _ _ _ _ _ _ _ built => buildPart_claimsIntact built

/-- The parts of one operation, opened and read. -/
theorem readOp_spec (ids : List String) : Observes (Prog.each openAndRead ids) fun w outs =>
      outs.map (·.1.part) = w.store.partsAt ids ∧ ∀ out ∈ outs, out.2 = out.1.part.rows := by
  refine (Observes.each openAndRead_spec ids).weaken fun w outs read => ?_
  induction read with
  | nil => exact ⟨rfl, by simp⟩
  | cons here _ ih =>
    obtain ⟨found, rows⟩ := here
    refine ⟨?_, List.forall_mem_cons.mpr ⟨rows, ih.2⟩⟩
    rw [List.map_cons, ih.1, Store.partsAt, Store.partsAt, List.filterMap_cons_some found]

def Done (store : Store) (rewrite : Rewrite) (ref : PartRef) : Prop :=
  (store.parts[ref.partId]?).map Part.rows = some (sortRows rewrite.rows)

theorem Done.grown {store store' : Store} {rewrite : Rewrite} {ref : PartRef}
    (done : Done store rewrite ref) (grown : Grown store store') : Done store' rewrite ref := by
  obtain ⟨part, found, rows⟩ := Option.map_eq_some_iff.mp done
  rw [Done, grown.parts _ _ found, Option.map_some, rows]

theorem partsAt_grown {store store' : Store} {ids : List String} (grown : Grown store store')
    (present : ∀ id ∈ ids, (store.parts[id]?).isSome) : store'.partsAt ids = store.partsAt ids := by
  refine List.filterMap_congr fun id mem => ?_
  obtain ⟨part, found⟩ := Option.isSome_iff_exists.mp (present id mem)
  rw [found, grown.parts id part found]

/-- The rows of the opened parts of an operation are reconciled like the parts themselves. -/
theorem reconciled_opened {engine : Engine} {snap : Snapshot} {parts : List Part}
    {outs : List (PartReader × List RowIn)} (opened : outs.map (·.1.part) = parts)
    (rows : ∀ out ∈ outs, out.2 = out.1.part.rows) : outs.foldl (fun s (r, rows) => rows.foldl
      (OpReconciled.take engine.config.partitions snap r.manifest.generationId) s) ⟨∅, none, 0⟩ =
      reconcileOp engine.config.partitions snap parts := by
  rw [reconcileOp, ← opened, List.foldl_map]
  refine List.foldl_ext _ _ _ fun s out mem => ?_
  rw [← rows out mem]
  rfl

/-- One operation writes the part of its rewrite, or none if it has none. -/
theorem runOp_spec (snap : Snapshot) (nowMs : Int) (seq : Nat) (op : MergeOp) (start : World) :
    Triple (· = start) (engine.runOp snap nowMs seq op)
      (fun out w => Grown start.store w.store ∧ (w.store.clashed = false →
        List.Forall₂ (Done w.store) (engine.opRewrite start.store snap op).toList out.ref.toList))
      (fun _ => True) := by
  refine (readOp_spec op.partIds).bind_triple trivial fun outs ⟨parts, rows⟩ => ?_
  dsimp only
  rw [reconciled_opened parts rows]
  split
  next none_left =>
    refine Triple.pure ?_
    rintro _ rfl
    refine ⟨Grown.refl _, fun _ => ?_⟩
    rw [opRewrite, none_left]
    exact .nil
  next key found =>
    refine Triple.bind ((mergePartition_spec engine nowMs _ start).stopping
      fun _ _ => trivial) fun written => Triple.pure ?_
    rintro w' ⟨grown, _, held⟩
    refine ⟨grown, fun clean => ?_⟩
    rw [opRewrite, found]
    exact .cons (held clean).1 .nil

/-- The operations of a plan write the parts of their rewrites, in order. -/
theorem runOps_spec (snap : Snapshot) (nowMs : Int) (first : Store) (seq : Nat) (ops : List MergeOp)
    (start : World) (before : Grown first start.store)
    (present : ∀ op ∈ ops, ∀ id ∈ op.partIds, (first.parts[id]?).isSome) :
    Triple (· = start) (engine.runOps snap nowMs seq ops)
      (fun outs w => Grown start.store w.store ∧ (w.store.clashed = false →
        List.Forall₂ (Done w.store) (ops.filterMap (engine.opRewrite first snap))
          (outs.filterMap (·.ref))))
      (fun _ => True) := by
  induction ops generalizing seq start with
  | nil =>
    refine Triple.pure ?_
    rintro _ rfl
    exact ⟨Grown.refl _, fun _ => .nil⟩
  | cons op ops ih =>
    refine Triple.bind (runOp_spec engine snap nowMs seq op start) fun out => ?_
    refine Triple.fix fun w ⟨grown, done⟩ => ?_
    refine Triple.bind (ih _ w (before.trans grown)
      fun op mem => present op (List.mem_cons_of_mem _ mem)) fun outs => ?_
    refine Triple.pure ?_
    rintro w' ⟨grown', done'⟩
    refine ⟨grown.trans grown', fun clean => ?_⟩
    -- What the operation read is still what the store held when the merge began.
    have same : engine.opRewrite start.store snap op = engine.opRewrite first snap op := by
      rw [opRewrite, partsAt_grown before (present op List.mem_cons_self), opRewrite]
    have now : List.Forall₂ (Done w'.store) (engine.opRewrite first snap op).toList
        out.ref.toList := by
      rw [← same]
      exact (done (grown'.not_clashed clean)).imp fun _ _ held => held.grown grown'
    have rest := done' clean
    rw [List.filterMap_cons, List.filterMap_cons]
    generalize engine.opRewrite first snap op = rewrite at now ⊢
    generalize out.ref = ref at now ⊢
    cases rewrite with
    | none =>
      cases ref with
      | none => exact rest
      | some ref => cases now
    | some rewrite =>
      cases ref with
      | none => cases now
      | some ref =>
        cases now with
        | cons held _ => exact .cons held rest

end Engine

/-- What a merge leaves: its head keeps the entries of the plan and names a part per rewrite. -/
structure Rewritten (plan : RewritePlan) (store : Store) : Prop where
  head : ∃ (new : Snapshot) (refs : List PartRef), currentIn store = .ok new ∧
    new.parts = plan.kept ++ refs.map .located ∧
    (store.clashed = false → List.Forall₂ (Done store) plan.rewrites refs)

theorem Merged.rewritten {engine : Engine} {snap : Snapshot} {store store' : Store}
    (merged : Merged engine snap store store') :
    Rewritten (engine.fullRewrites store snap) store' := by
  obtain ⟨new, refs, head, parts, held⟩ := merged.head
  refine ⟨new, refs, head, parts, fun clean => ?_⟩
  have items := held clean
  rw [fullRewrites, ← numbered_groups snap.nextSeq (reconcileParts _ _ _).groups, List.map_map,
    List.forall₂_map_left_iff]
  exact items.imp fun _ _ held => held.1

namespace MergePath

/-- A merge that returns has left the store alone or done what its plan says. -/
theorem run_spec (path : MergePath) (engine : Engine) (free : Option Nat) (nowMs : Int)
    (start : World) (snap : Snapshot) (head : currentIn start.store = .ok snap)
    (present : start.store.PartsPresent snap.parts) :
    Triple (· = start) (path.run engine free nowMs)
      (fun _ w => w = start ∨ Rewritten (path.plan engine start.store snap) w.store)
      (fun _ => True) := by
  have full : Triple (· = start) (engine.merge free nowMs) (fun _ w => w = start ∨
      Rewritten (engine.fullRewrites start.store snap) w.store) (fun _ => True) := by
    refine (merge_spec engine free nowMs start).weaken ?_
    rintro _ w (same | ⟨snap', head', merged⟩)
    · exact .inl same
    · rw [head] at head'
      cases head'
      exact .inr merged.rewritten
  cases path with
  | full => exact full
  | tiered =>
    refine snapshot_spec.bind_triple trivial fun snap' head' => ?_
    rw [head] at head'
    cases head'
    simp only [plan, tieredRewrites]
    split
    · exact full
    · split
      · exact Triple.pure fun _ same => .inl same
      · -- The parts of the operations are live, so they are on disk.
        have known : ∀ op ∈ (planMerges (snap.parts.filterMap PartEntry.located?)).ops,
            ∀ id ∈ op.partIds, (start.store.parts[id]?).isSome := by
          intro op planned id read
          obtain ⟨ref, live, rfl⟩ := planMerges_reads_live planned id read
          obtain ⟨entry, mem, located⟩ := List.mem_filterMap.mp live
          obtain ⟨part, found⟩ := present entry mem
          cases entry with
          | legacy _ => cases located
          | located _ =>
            cases located
            exact Option.isSome_iff_exists.mpr ⟨part, found⟩
        refine Triple.bind (runOps_spec engine snap nowMs start.store _ _ start (Grown.refl _) known)
          fun outs => ?_
        refine Triple.fix fun w ⟨_, done⟩ => ?_
        refine Triple.bind (Q := fun _ w' => w' = start ∨ Rewritten _ w'.store)
          (onStore_spec ?_) fun _ => Triple.pure fun _ rewritten => rewritten
        refine (commitMeta_spec snap _ _ _ _ nowMs w.store).conseq (fun _ h => h) ?_
          fun _ _ => trivial
        rintro _ store ⟨rfl, rfl, _⟩
        exact .inr ⟨_, outs.filterMap OpOutput.ref, currentIn_install _ _, rfl, done⟩

theorem run_publishes (path : MergePath) (engine : Engine) (free : Option Nat) (nowMs : Int) :
    Publishes Part.ClaimsIntact (path.run engine free nowMs) := by
  cases path with
  | full => exact merge_publishes engine engine.remakes_claimsIntact
  | tiered => exact mergeTiered_publishes engine engine.remakes_claimsIntact

/-- A part that was not there before a merge claims that its bodies are intact. -/
theorem new_claimsIntact {path : MergePath} {engine : Engine} {free : Option Nat} {nowMs : Int}
    {faults rest : List Fault} {start w : World} {report : MergeReport}
    (ran : path.run engine free nowMs faults start = (.ok report, rest, w)) {id : String}
    {part : Part} (found : w.store.parts[id]? = some part) :
    start.store.parts[id]? = some part ∨ part.ClaimsIntact := by
  let Φ (store : Store) : Prop := ∀ (id : String) (part : Part), store.parts[id]? = some part →
    start.store.parts[id]? = some part ∨ part.ClaimsIntact
  have kept : Keeps (fun w : World => Φ w.store) (path.run engine free nowMs) := by
    refine (run_publishes path engine free nowMs).keeps ?_
    intro s s' access before id part here
    rcases access.part_cases here with known | intact
    · exact before id part known
    · exact .inr intact
  have after := kept.after (fun _ _ held => held) (s := start) (fun _ _ here => .inl here) faults
  rw [ran] at after
  exact after id part found

end MergePath

/-- The part of a redacted input, with the row that it gives to the rewrite. -/
def Rewrite.TakesRedacted (rewrite : Rewrite) (store : Store) : Prop :=
  ∃ id ∈ rewrite.inputs, ∃ part, store.parts[id]? = some part ∧ part.Redacted ∧
    ∃ row ∈ part.rows, row ∈ rewrite.rows

/-- The parts that a head names behind the entries that its merge kept. -/
def Snapshot.writtenBy (new : Snapshot) (plan : RewritePlan) : List String :=
  new.partIds.drop plan.kept.length

/-- **Redaction survives a merge exactly if no redacted row does.** The new parts of a merge that
commits hold the rows of its rewrites. Where no directory of their names was there before, or
one that claims intact bodies, every new part with a row of a redacted part says so and why
exactly if there is no such row: a merge writes the default lineage. -/
theorem redaction_survives_iff (path : MergePath) (engine : Engine) (free : Option Nat)
    (nowMs : Int) (faults rest : List Fault) (start w : World) (report : MergeReport)
    (intact : start.store.Intact)
    (ran : path.run engine free nowMs faults start = (.ok report, rest, w))
    (committed : w.store.current ≠ start.store.current) (clean : w.store.clashed = false) :
    ∃ snap new, currentIn start.store = .ok snap ∧ currentIn w.store = .ok new ∧
      List.Forall₂ (fun rewrite id =>
          (w.store.parts[id]?).map Part.rows = some (sortRows rewrite.rows))
        (path.plan engine start.store snap).rewrites
        (new.writtenBy (path.plan engine start.store snap)) ∧
      ((∀ id ∈ new.writtenBy (path.plan engine start.store snap), ∀ part,
          start.store.parts[id]? = some part → part.ClaimsIntact) →
        (List.Forall₂ (fun rewrite id => rewrite.TakesRedacted start.store →
            ∃ part, w.store.parts[id]? = some part ∧ part.RedactedWithReason)
          (path.plan engine start.store snap).rewrites
          (new.writtenBy (path.plan engine start.store snap)) ↔
        ∀ rewrite ∈ (path.plan engine start.store snap).rewrites,
          ¬rewrite.TakesRedacted start.store)) := by
  obtain ⟨snap, head, present⟩ := intact
  have ends := path.run_spec engine free nowMs start snap head present faults start rfl
  rw [ran] at ends
  rcases ends with same | ⟨new, refs, head', parts, done⟩
  · exact absurd (same ▸ rfl) committed
  · have written : new.writtenBy (path.plan engine start.store snap) =
        refs.map fun ref => ref.partId := by
      simp only [Snapshot.writtenBy, Snapshot.partIds, parts, List.map_append, List.map_map]
      rw [← List.length_map PartEntry.partId, List.drop_left]
      rfl
    have rows : List.Forall₂ (fun rewrite id =>
        (w.store.parts[id]?).map Part.rows = some (sortRows rewrite.rows))
        (path.plan engine start.store snap).rewrites
        (new.writtenBy (path.plan engine start.store snap)) := by
      rw [written, List.forall₂_map_right_iff]
      exact done clean
    refine ⟨snap, new, head, head', rows, fun unused => ?_⟩
    have claims : ∀ id ∈ new.writtenBy (path.plan engine start.store snap), ∀ part,
        w.store.parts[id]? = some part → part.ClaimsIntact := by
      intro id mem part found
      rcases MergePath.new_claimsIntact ran found with before | intact
      · exact unused id mem part before
      · exact intact
    constructor
    · intro survives rewrite mem takes
      obtain ⟨id, inside, marked⟩ := exists_left_of_forall₂ survives.flip mem
      obtain ⟨part, found, redacted⟩ := marked takes
      exact (claims id inside part found).not_redacted redacted
    · intro none_taken
      obtain ⟨lengths, _⟩ := List.forall₂_iff_zip.mp rows
      refine List.forall₂_iff_zip.mpr ⟨lengths, fun paired takes => ?_⟩
      exact absurd takes (none_taken _ (List.of_mem_zip paired).1)

theorem ingested_intact (batches : List (List Event)) : (ingested batches).store.Intact := by
  have step (events : List Event) : Keeps (fun w : World => w.store.Intact)
      (sampleEngine.ingest events 1000) :=
    (ingestInner_publishes (Makes.any sampleEngine) events 1000 none true).keeps
      fun _ _ => Store.Intact.access
  suffices ∀ w : World, w.store.Intact →
      (batches.foldl (fun w events => (sampleEngine.ingest events 1000 [] w).2.2) w).store.Intact from
    this World.fresh intact_fresh
  induction batches with
  | nil => exact fun w intact => intact
  | cons events batches ih =>
    intro w intact
    exact ih _ ((step events).after (fun _ _ h => h) intact [])

theorem redaction_survives_iff_twoVersions :
    ∃ (snap new : Snapshot) (w : World), currentIn twoVersions.store = .ok snap ∧
      currentIn w.store = .ok new ∧
      (List.Forall₂ (fun rewrite id => rewrite.TakesRedacted twoVersions.store →
            ∃ part, w.store.parts[id]? = some part ∧ part.RedactedWithReason)
          (sampleEngine.fullRewrites twoVersions.store snap).rewrites new.partIds ↔
        ∀ rewrite ∈ (sampleEngine.fullRewrites twoVersions.store snap).rewrites,
          ¬rewrite.TakesRedacted twoVersions.store) := by
  obtain ⟨report, rest, w, ran, moved, clean, unused⟩ := twoVersions_merge
  obtain ⟨snap, new, head, head', _, survives⟩ := redaction_survives_iff .full sampleEngine none
    3000 [] rest twoVersions w report (ingested_intact _) ran moved clean
  refine ⟨snap, new, w, head, head', survives fun id mem part found => ?_⟩
  have absent := unused id (by simp only [headPartIds, head']; exact mem)
  rw [absent] at found
  cases found

/-- An event whose body is redacted, and a later event of the partition. -/
def redactedThenIngested : World :=
  let redacted := (sampleEngine.redactBodies 2000 "expired" 2000 [] (ingested [[sampleEvent "e1"]])).2.2
  (sampleEngine.ingest [sampleEvent "e2"] 3000 [] redacted).2.2

/-- The parts of a head: whether they say that their bodies are gone, and their bodies. -/
def bodiesOf (w : World) : List (Option Bool × List String) :=
  match currentIn w.store with
  | .ok snap => (w.store.partsAt snap.partIds).map fun part =>
      (part.manifest.s5.toOption.map (·.bodiesRedacted), part.rows.map (·.event.body))
  | .error _ => []

set_option maxRecDepth 100000 in
/-- The merge writes a part that claims its empty body is intact. -/
theorem merge_forgets_redaction :
    bodiesOf redactedThenIngested = [(some true, [""]), (some false, ["hello"])] ∧
      bodiesOf (sampleEngine.merge none 4000 [] redactedThenIngested).2.2 =
        [(some false, ["", "hello"])] := by
  decide +kernel

end Prism
