import Prism.Engine.Sql
import Prism.Properties.DeletedRows

/-!
What the scalar path of SQL answers with: the rows of the parts it opens that pass its test, whether
they are deleted or not.
-/

namespace Prism

open Sql Fallible Ranking

namespace Engine

/-! ### What a pass finds -/

/-- The parts a scalar pass opens: those that neither the catalog nor their own statistics rule
out. -/
def openedParts (engine : Engine) (store : Store) (plan : Plan) (snap : Snapshot) :
    Result (List PartReader) := do
  let tokenizer ← engine.tenantTokenizer
  let (readers, _) ←
    engine.openCandidates store snap (some plan.tenant) plan.bounds.lo plan.bounds.hi
  keepM (mayHold tokenizer (some plan.tenant) plan.bounds.lo plan.bounds.hi) readers

variable {engine : Engine} {store : Store} {plan : Plan} {snap : Snapshot}

/-- A pass that reads the parts it opens one after the other. -/
theorem scalarPass_found {σ β : Type} {start : σ}
    {step : Option TenantTokenizer → Pass σ → PartReader → Result (Pass σ)}
    {read : PartReader → Result β} {join : σ → β → σ} (size : β → Nat)
    (shape : ∀ tokenizer pass r, step tokenizer pass r = do
      if ← mayHold tokenizer (some plan.tenant) plan.bounds.lo plan.bounds.hi r then
        let y ← read r
        return pass.opened r (join pass.found y) (size y)
      else return pass.pruned) {found : σ} :
    (∃ pass, engine.scalarPass store plan snap start step = .ok pass ∧ pass.found = found) ↔
      ∃ parts ys, engine.openedParts store plan snap = .ok parts ∧ parts.mapM read = .ok ys ∧
        ys.foldl join start = found := by
  have loop (tokenizer : Option TenantTokenizer) (readers : List PartReader) (pass : Pass σ) :
      (∃ pass', readers.foldlM (step tokenizer) pass = .ok pass' ∧ pass'.found = found) ↔
        ∃ kept ys, keepM
            (mayHold tokenizer (some plan.tenant) plan.bounds.lo plan.bounds.hi) readers =
              .ok kept ∧
          kept.mapM read = .ok ys ∧ ys.foldl join pass.found = found :=
    foldlM_kept (shape tokenizer) (fun _ => rfl) (fun _ _ _ => rfl)
  simp only [scalarPass, openedParts, bind_eq_ok, Prod.exists]
  constructor
  · rintro ⟨pass, ⟨tokenizer, keyed, readers, pruned, opened, ran⟩, same⟩
    obtain ⟨parts, ys, kept, reads, joined⟩ := (loop tokenizer readers _).mp ⟨pass, ran, same⟩
    exact ⟨parts, ys, ⟨tokenizer, keyed, readers, pruned, opened, kept⟩, reads, joined⟩
  · rintro ⟨parts, ys, ⟨tokenizer, keyed, readers, pruned, opened, kept⟩, reads, joined⟩
    obtain ⟨pass, ran, same⟩ := (loop tokenizer readers
      ⟨start, { partsTotal := snap.parts.length, partsPruned := pruned }⟩).mpr
        ⟨parts, ys, kept, reads, joined⟩
    exact ⟨pass, ⟨tokenizer, keyed, readers, pruned, opened, ran⟩, same⟩

def matchingOf (engine : Engine) (store : Store) (plan : Plan) (snap : Snapshot) :
    Result (List Event) := do
  let parts ← engine.openedParts store plan snap
  return (← parts.mapM (matchingEvents plan)).flatten

def countOf (engine : Engine) (store : Store) (plan : Plan) (snap : Snapshot) :
    Result Nat := do
  let parts ← engine.openedParts store plan snap
  return (← parts.mapM (matchingRows plan)).flatten.length

private theorem foldl_append_map (lists : List (List Event)) (start : List ScoredRow) :
    lists.foldl (fun found kept => found ++ kept.map (·, F32.zero)) start =
      start ++ lists.flatten.map (·, F32.zero) := by
  induction lists generalizing start with
  | nil => simp
  | cons kept lists ih => simp [ih]

private theorem foldl_add_length (lists : List (List Nat)) (start : Nat) :
    lists.foldl (fun n kept => n + kept.length) start = start + lists.flatten.length := by
  induction lists generalizing start with
  | nil => simp
  | cons kept lists ih =>
    rw [List.foldl_cons, ih, List.flatten_cons, List.length_append]
    omega

/-- A scan gives exactly the matching rows, each with the score zero. -/
theorem scalarScan_eq_ok {rows : List ScoredRow} :
    (∃ c, engine.scalarScan store plan snap = .ok (rows, c)) ↔
      ∃ es, engine.matchingOf store plan snap = .ok es ∧ es.map (·, F32.zero) = rows := by
  have found : (∃ pass, engine.scalarPass store plan snap [] (scalarScanPart · plan) = .ok pass ∧
      pass.found = rows) ↔ ∃ parts ys, engine.openedParts store plan snap = .ok parts ∧
        parts.mapM (matchingEvents plan) = .ok ys ∧
        ys.foldl (fun found kept => found ++ kept.map (·, F32.zero)) [] = rows := by
    apply scalarPass_found List.length
    intro tokenizer pass r
    rfl
  simp only [foldl_append_map, List.nil_append] at found
  simp only [scalarScan, matchingOf, bind_eq_ok, pure_eq_ok, Prod.mk.injEq]
  constructor
  · rintro ⟨_, pass, ran, same, -⟩
    obtain ⟨parts, lists, opened, read, rfl⟩ := found.mp ⟨pass, ran, same⟩
    exact ⟨lists.flatten, ⟨parts, opened, lists, read, rfl⟩, rfl⟩
  · rintro ⟨_, ⟨parts, opened, lists, read, rfl⟩, same⟩
    obtain ⟨pass, ran, same⟩ := found.mpr ⟨parts, lists, opened, read, same⟩
    exact ⟨pass.counters, pass, ran, same, rfl⟩

theorem scalarCount_eq_ok {n : Nat} : (∃ c, engine.scalarCount store plan snap = .ok (n, c)) ↔
      engine.countOf store plan snap = .ok n := by
  have found : (∃ pass, engine.scalarPass store plan snap 0 (scalarCountPart · plan) = .ok pass ∧
      pass.found = n) ↔ ∃ parts ys, engine.openedParts store plan snap = .ok parts ∧
        parts.mapM (matchingRows plan) = .ok ys ∧
        ys.foldl (fun n kept => n + kept.length) 0 = n := by
    apply scalarPass_found List.length
    intro tokenizer pass r
    rfl
  simp only [foldl_add_length, Nat.zero_add] at found
  simp only [scalarCount, countOf, bind_eq_ok, pure_eq_ok, Prod.mk.injEq]
  constructor
  · rintro ⟨_, pass, ran, same, -⟩
    obtain ⟨parts, lists, opened, read, rfl⟩ := found.mp ⟨pass, ran, same⟩
    exact ⟨parts, opened, lists, read, rfl⟩
  · rintro ⟨parts, opened, lists, read, same⟩
    obtain ⟨pass, ran, same⟩ := found.mpr ⟨parts, lists, opened, read, same⟩
    exact ⟨pass.counters, pass, ran, same, rfl⟩

/-! ### Pages -/

def pageRows (engine : Engine) (env : Env) (store : Store) (plan : Plan) (cursor : Option String) :
    Result (List ScoredRow) := do
  let (snap, cur) ← resolveSnapshot env store plan cursor
  let (scored, _) ← engine.resultSet env store plan snap (cur.map (·.route))
  return (pageOf resultKey (cur.map (·.position)) plan.limit (rank resultOrder scored)).1

/-- What the answer of `runRows` is made of. -/
theorem runRows_eq_ok {env : Env} {cursor : Option String} {res : SqlResult}
    (returned : engine.runRows env store plan cursor = .ok res) :
    ∃ snap cur scored counters, resolveSnapshot env store plan cursor = .ok (snap, cur) ∧
      engine.resultSet env store plan snap (cur.map (·.route)) = .ok (scored, counters) ∧
      let page := pageOf resultKey (cur.map (·.position)) plan.limit (rank resultOrder scored)
      page.1.mapM (project plan) = .ok res.rows ∧
        (match page.2 with
          | some row => ∃ token, res.nextCursor = some token ∧ encodeCursor env.cursors
              ⟨snap.snapshotId, env.planFingerprint plan, resultKey row, pinnedRoute counters⟩ =
                .ok token
          | none => res.nextCursor = none) := by
  simp only [runRows, bind_eq_ok, Prod.exists] at returned
  obtain ⟨snap, cur, resolved, scored, counters, ran, rest⟩ := returned
  refine ⟨snap, cur, scored, counters, resolved, ran, ?_⟩
  intro page
  cases last : page.2 with
  | none =>
    simp only [page] at last
    simp only [last, bind_eq_ok, pure_eq_ok, Except.ok.injEq] at rest
    obtain ⟨_, rfl, rows, projected, rfl⟩ := rest
    exact ⟨projected, rfl⟩
  | some row =>
    simp only [page] at last
    simp only [last, bind_eq_ok, map_eq_ok, pure_eq_ok] at rest
    obtain ⟨_, ⟨token, encoded, rfl⟩, rows, projected, rfl⟩ := rest
    exact ⟨projected, token, rfl, encoded⟩

/-! ### Deleted rows -/

def onward (cur : Option CursorBody) (rows : List ScoredRow) : List ScoredRow :=
  Paging.rest Keyset.order resultKey (cur.map (·.position)) rows

/-- A deleted row is left off a page only where the rows before it fill the page. -/
theorem page_live_iff (tombstones : List String) (cur : Option CursorBody) (limit : Nat)
    (scored : List ScoredRow) :
    (∀ r ∈ (pageOf resultKey (cur.map (·.position)) limit (rank resultOrder scored)).1,
        r.1.Live tombstones) ↔
      ∀ r ∈ onward cur scored, r.1.eventId ∈ tombstones →
        limit ≤ ((onward cur scored).filter fun b => resultOrder b r = .lt).length := by
  have ranked : (rank resultOrder scored).Pairwise fun a b => (resultOrder a b).isLE :=
    rank_pairwise scored
  have same : (onward cur (rank resultOrder scored)).Perm (onward cur scored) :=
    (rank_perm resultOrder scored).filter _
  have respects : ∀ a ∈ onward cur (rank resultOrder scored),
      ∀ b ∈ onward cur (rank resultOrder scored), resultOrder a b = .eq →
        a.1.Live tombstones → b.1.Live tombstones := by
    intro a _ b _ tied live
    have ids : a.1.eventId = b.1.eventId :=
      Std.LawfulEqOrd.eq_of_compare (Ordering.then_eq_eq.mp tied).2
    simpa only [Event.Live, ids] using live
  have ordered : (onward cur (rank resultOrder scored)).Pairwise fun a b =>
      (resultOrder a b).isLE := ranked.filter _
  have count (r : ScoredRow) := (same.filter fun b => resultOrder b r = .lt).length_eq
  rw [pageOf_eq resultKey ranked]
  show (∀ r ∈ (onward cur (rank resultOrder scored)).take limit, _) ↔ _
  rw [forall_take_iff_of_pairwise ordered respects]
  simp only [same.mem_iff, count, Event.Live, not_not]

/-- No deleted row that is still in a part the plan opens matches it. -/
def NoDeletedMatch (engine : Engine) (store : Store) (plan : Plan) (snap : Snapshot) : Prop :=
  ∀ parts, engine.openedParts store plan snap = .ok parts → ∀ r ∈ parts,
    ∀ rows, r.readPartRows = .ok rows → ∀ e ∈ rows.events, e.eventId ∈ snap.tombstones →
      scalarMatches plan e ≠ .ok true

/-- The same on the columns a count reads. -/
def NoDeletedRow (engine : Engine) (store : Store) (plan : Plan) (snap : Snapshot) : Prop :=
  ∀ parts, engine.openedParts store plan snap = .ok parts → ∀ r ∈ parts,
    ∀ view tenants, Rowsource.PartRows.new r plan.filter = .ok view → r.readScalars = .ok tenants →
      ∀ row < r.manifest.rowCount, tenants.eventIdAt row ∈ snap.tombstones →
        countMatches plan tenants view row ≠ .ok true

theorem mem_matchingEvents {r : PartReader} {kept : List Event}
    (read : matchingEvents plan r = .ok kept) {e : Event} :
    e ∈ kept ↔ ∃ rows, r.readPartRows = .ok rows ∧ e ∈ rows.events ∧
      scalarMatches plan e = .ok true := by
  simp only [matchingEvents, bind_eq_ok, keepM_eq_ok] at read
  obtain ⟨rows, decoded, tests, rfl⟩ := read
  rw [List.mem_filter, accepts_eq_true]
  constructor
  · rintro ⟨mem, accepted⟩
    exact ⟨rows, decoded, mem, accepted⟩
  · rintro ⟨rows', decoded', mem, accepted⟩
    obtain rfl := ok_unique decoded decoded'
    exact ⟨mem, accepted⟩

theorem matchingOf_live_iff {es : List Event}
    (matching : engine.matchingOf store plan snap = .ok es) :
    (∀ e ∈ es, e.Live snap.tombstones) ↔ engine.NoDeletedMatch store plan snap := by
  simp only [matchingOf, bind_eq_ok, pure_eq_ok] at matching
  obtain ⟨parts, opened, lists, read, rfl⟩ := matching
  constructor
  · intro live parts' opened' r mem rows decoded e inside deleted accepted
    obtain rfl := ok_unique opened opened'
    obtain ⟨kept, listed, found⟩ := exists_of_mem_of_mapM_eq_ok read mem
    have here : e ∈ kept := (mem_matchingEvents found).mpr ⟨rows, decoded, inside, accepted⟩
    exact live e (List.mem_flatten.mpr ⟨kept, listed, here⟩) deleted
  · intro none e mem deleted
    obtain ⟨kept, listed, here⟩ := List.mem_flatten.mp mem
    obtain ⟨r, inside, found⟩ := exists_of_mapM_eq_ok read listed
    obtain ⟨rows, decoded, row, accepted⟩ := (mem_matchingEvents found).mp here
    exact none parts opened r inside rows decoded e row deleted accepted

def countedIds (plan : Plan) (r : PartReader) : Result (List String) := do
  let view ← Rowsource.PartRows.new r plan.filter
  let tenants ← r.readScalars
  let rows ← keepM (countMatches plan tenants view) (List.range r.manifest.rowCount)
  return rows.map tenants.eventIdAt

def countedIdsOf (engine : Engine) (store : Store) (plan : Plan) (snap : Snapshot) :
    Result (List String) := do
  let parts ← engine.openedParts store plan snap
  return (← parts.mapM (countedIds plan)).flatten

theorem countedIds_of_matchingRows {parts : List PartReader} {lists : List (List Nat)}
    (read : parts.mapM (matchingRows plan) = .ok lists) :
    ∃ ids, parts.mapM (countedIds plan) = .ok ids ∧ ids.flatten.length = lists.flatten.length := by
  induction parts generalizing lists with
  | nil =>
    obtain rfl := pure_eq_ok.mp read
    exact ⟨[], rfl, rfl⟩
  | cons r parts ih =>
    simp only [List.mapM_cons, bind_eq_ok, pure_eq_ok] at read ⊢
    obtain ⟨rows, first, others, later, rfl⟩ := read
    obtain ⟨ids, again, same⟩ := ih later
    simp only [matchingRows, bind_eq_ok] at first
    obtain ⟨view, viewed, tenants, scalars, kept⟩ := first
    refine ⟨rows.map tenants.eventIdAt :: ids, ⟨_, ?_, ids, again, rfl⟩, ?_⟩
    · simp only [countedIds, bind_eq_ok, pure_eq_ok]
      exact ⟨view, viewed, tenants, scalars, rows, kept, rfl⟩
    · simp [same]

theorem countOf_live_iff {n : Nat} (counted : engine.countOf store plan snap = .ok n) :
    ∃ ids, engine.countedIdsOf store plan snap = .ok ids ∧
      (n = (ids.filter (· ∉ snap.tombstones)).length ↔ engine.NoDeletedRow store plan snap) := by
  simp only [countOf, bind_eq_ok, pure_eq_ok] at counted
  obtain ⟨parts, opened, lists, read, rfl⟩ := counted
  obtain ⟨ids, again, same⟩ := countedIds_of_matchingRows read
  refine ⟨ids.flatten, ?_, ?_⟩
  · simp only [countedIdsOf, bind_eq_ok, pure_eq_ok]
    exact ⟨parts, opened, ids, again, rfl⟩
  rw [← same, eq_comm, List.length_filter_eq_length_iff]
  constructor
  · intro live parts' opened' r mem view tenants viewed scalars row inside deleted accepted
    obtain rfl := ok_unique opened opened'
    obtain ⟨own, listed, found⟩ := exists_of_mem_of_mapM_eq_ok again mem
    simp only [countedIds, bind_eq_ok, pure_eq_ok, keepM_eq_ok] at found
    obtain ⟨view', viewed', tenants', scalars', _, ⟨-, rfl⟩, rfl⟩ := found
    obtain rfl := ok_unique viewed viewed'
    obtain rfl := ok_unique scalars scalars'
    have here : tenants.eventIdAt row ∈ ids.flatten := by
      apply List.mem_flatten.mpr ⟨_, listed, List.mem_map.mpr ⟨row, ?_, rfl⟩⟩
      rw [List.mem_filter, accepts_eq_true, List.mem_range]
      exact ⟨inside, accepted⟩
    simpa [deleted] using live _ here
  · intro none id mem
    obtain ⟨own, listed, here⟩ := List.mem_flatten.mp mem
    obtain ⟨r, inside, found⟩ := exists_of_mapM_eq_ok again listed
    simp only [countedIds, bind_eq_ok, pure_eq_ok, keepM_eq_ok] at found
    obtain ⟨view, viewed, tenants, scalars, _, ⟨-, rfl⟩, rfl⟩ := found
    obtain ⟨row, kept, rfl⟩ := List.mem_map.mp here
    rw [List.mem_filter, accepts_eq_true, List.mem_range] at kept
    simpa using fun deleted =>
      none parts opened r inside view tenants viewed scalars row kept.1 deleted kept.2

end Engine

/-- Where SQL without a semantic predicate answers from live rows only. A page shows a deleted row
exactly when one matches, lies after the cursor, and fewer than `limit` of the matching rows
after the cursor are before it; the rows an aggregate is computed over, and those a count counts,
are the live ones exactly when no deleted row that is still in an opened part matches. -/
theorem sql_answers_live_iff (engine : Engine) (env : Env) (store : Store) (plan : Plan)
    (scalar : plan.semantic = none) :
    (∀ cursor res, engine.runRows env store plan cursor = .ok res →
      ∃ snap cur es page, Engine.resolveSnapshot env store plan cursor = .ok (snap, cur) ∧
        engine.matchingOf store plan snap = .ok es ∧
        engine.pageRows env store plan cursor = .ok page ∧
        page.mapM (project plan) = .ok res.rows ∧
        ((∀ r ∈ page, r.1.Live snap.tombstones) ↔
          let after := Engine.onward cur (es.map (·, F32.zero))
          ∀ r ∈ after, r.1.eventId ∈ snap.tombstones →
            plan.limit ≤ (after.filter fun b => resultOrder b r = .lt).length)) ∧
    ∀ snap, Catalog.currentIn store = .ok snap →
      (isPureCount plan = false → ∀ rows c, engine.scalarScan store plan snap = .ok (rows, c) →
        engine.runAggregate env store plan =
          (Engine.aggregateRows env plan rows).map (·.map fun out =>
            ⟨projectionNames plan, out, c, snap.snapshotId, none⟩) ∧
        (rows = rows.filter (·.1.eventId ∉ snap.tombstones) ↔
          engine.NoDeletedMatch store plan snap)) ∧
      (isPureCount plan = true → ∀ n c, engine.scalarCount store plan snap = .ok (n, c) →
        engine.runAggregate env store plan = some (.ok ⟨projectionNames plan,
          [plan.projections.map fun _ => ("count(*)", .int n)], c, snap.snapshotId, none⟩) ∧
        ∃ ids, engine.countedIdsOf store plan snap = .ok ids ∧
          (n = (ids.filter (· ∉ snap.tombstones)).length ↔
            engine.NoDeletedRow store plan snap)) := by
  refine ⟨?_, ?_⟩
  · intro cursor res returned
    obtain ⟨snap, cur, scored, c, resolved, ran, projected, -⟩ := Engine.runRows_eq_ok returned
    have scanned : engine.scalarScan store plan snap = .ok (scored, c) := by
      simpa only [Engine.resultSet, scalar] using ran
    obtain ⟨es, matching, rfl⟩ := Engine.scalarScan_eq_ok.mp ⟨c, scanned⟩
    refine ⟨snap, cur, es, _, resolved, matching, ?_, projected, ?_⟩
    · simp only [Engine.pageRows, bind_eq_ok, pure_eq_ok]
      exact ⟨_, resolved, _, ran, rfl⟩
    · exact Engine.page_live_iff snap.tombstones cur plan.limit _
  · intro snap current
    constructor
    · intro rowsAsked rows c scanned
      constructor
      · have ran : engine.resultSet env store plan snap none = .ok (rows, c) := by
          simpa only [Engine.resultSet, scalar] using scanned
        simp [Engine.runAggregate, current, rowsAsked, ran]
      · obtain ⟨es, matching, rfl⟩ := Engine.scalarScan_eq_ok.mp ⟨c, scanned⟩
        rw [← Engine.matchingOf_live_iff matching, eq_comm, List.filter_eq_self]
        simp [Event.Live]
    · intro countAsked n c counted
      refine ⟨?_, Engine.countOf_live_iff (Engine.scalarCount_eq_ok.mp ⟨c, counted⟩)⟩
      simp [Engine.runAggregate, current, scalar, countAsked, counted, Bind.bind, Except.bind,
        Pure.pure, Except.pure]

/-- The cursors of a client that never asks for a second page. -/
def sampleSqlEnv : Env where
  query := sampleEnv
  cursors := ⟨fun _ => .ok [], fun _ => .error "EOF while parsing a value"⟩
  planToVec _ := some []
  min64 a _ := a
  max64 a _ := a

def sampleRow (e : Event) : RowIn := ⟨e, 0, [0], [F32.one.bits, 0]⟩

def onePartSnapshot (tombstones : List String) : Snapshot :=
  { Snapshot.empty with snapshotId := 1, parts := [.legacy "p1"], tombstones }

/-- A store whose head has one part, as the part writer leaves it. -/
def onePart (promote : List String) (rows : List RowIn) (tombstones : List String) : Store :=
  match buildPart ⟨"g", "m", "v", 2, 1, 64⟩ ⟨none, promote, {}, none, none⟩ 1 rows 1000 with
  | .ok part => ⟨some 1, (∅ : BTreeMap SnapshotId Snapshot).insert 1 (onePartSnapshot tombstones), ∅,
      (∅ : BTreeMap String Part).insert "p1" part, ∅, false⟩
  | .error _ => Store.fresh

def selecting (items : List Item) (groupBy : List String) : Plan :=
  ⟨"t1", none, none, items, groupBy, 10, defaultNprobe, defaultCandidates, defaultRerank⟩

set_option maxRecDepth 100000

/-- The head deletes `e1`; SQL returns its row and counts it. -/
theorem sql_shows_deleted_row :
    let store := onePart [] [sampleRow (sampleEvent "e1")] ["e1"]
    Catalog.currentIn store = .ok (onePartSnapshot ["e1"]) ∧
    (sampleEngine.runRows sampleSqlEnv store (selecting [.column "event_id"] []) none).map
      (·.rows) = .ok [[("event_id", .string "e1")]] ∧
    (sampleEngine.runAggregate sampleSqlEnv store (selecting [.agg .countStar] [])).map
      (·.map (·.rows)) = some (.ok [[("count(*)", .int 1)]]) := by
  decide +kernel

/-- With nothing deleted the count is that of the live rows. -/
theorem sql_answers_live_iff_nothingDeleted :
    let store := onePart [] [sampleRow (sampleEvent "e1")] []
    ∃ n c ids, sampleEngine.scalarCount store (selecting [.agg .countStar] []) (onePartSnapshot []) =
        .ok (n, c) ∧
      sampleEngine.countedIdsOf store (selecting [.agg .countStar] []) (onePartSnapshot []) =
        .ok ids ∧
      n = (ids.filter (· ∉ (onePartSnapshot []).tombstones)).length := by
  intro store
  have current : Catalog.currentIn store = .ok (onePartSnapshot []) := by decide +kernel
  have counts : (sampleEngine.scalarCount store (selecting [.agg .countStar] [])
      (onePartSnapshot [])).isOk := by decide +kernel
  obtain ⟨⟨n, c⟩, counted⟩ : ∃ answer, sampleEngine.scalarCount store
      (selecting [.agg .countStar] []) (onePartSnapshot []) = .ok answer := by
    cases found : sampleEngine.scalarCount store (selecting [.agg .countStar] [])
        (onePartSnapshot []) with
    | error e => rw [found] at counts; cases counts
    | ok answer => exact ⟨answer, rfl⟩
  obtain ⟨-, ids, listed, live⟩ := ((sql_answers_live_iff sampleEngine sampleSqlEnv store
    (selecting [.agg .countStar] []) rfl).2 _ current).2 (by decide) n c counted
  refine ⟨n, c, ids, counted, listed, live.mpr ?_⟩
  intro parts _ r _ view tenants _ _ row _ deleted
  exact absurd deleted List.not_mem_nil

end Prism
