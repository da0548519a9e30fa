import Prism.Engine.Search

/-!
Rows one by one. The query path reads rows in bulk: the columns of an event once for all rows asked
for, candidates grouped by their part. What it gets is what a read of each row on its own gives.
-/

namespace Prism

open OrderedMap Fallible

namespace PartReader

/-- The id of one row. -/
def idAt (r : PartReader) (row : Nat) : Result String :=
  r.readStrings "event_id" >>= fun ids => stringAt ids row r.manifest.rowCount

/-- The event of one row. -/
def eventAt (r : PartReader) (row : Nat) : Result Event :=
  r.eventColumns >>= fun columns => columns.eventAt row

/-- The exact vector of one row. -/
def vectorAt (r : PartReader) (row : Nat) : Result Vector32 := do
  let m := r.manifest
  if row ≥ m.rowCount then
    .error (.corrupt s!"row {row} is out of range for part {m.partId} ({m.rowCount} rows)")
  let bytes ← r.readRange "rerank_vectors" (row * m.bytesPerVector) m.bytesPerVector
  m.rerank.decodeVector bytes m.dim

variable {r : PartReader} {rows : List Nat}

theorem readVectorsForRows_eq : r.readVectorsForRows rows = rows.mapM r.vectorAt := rfl

theorem readEventIdsForRows_eq_ok {ids : List String} (some : rows ≠ []) :
    r.readEventIdsForRows rows = .ok ids ↔ rows.mapM r.idAt = .ok ids :=
  load_mapM_eq_ok some

theorem readEventsForRows_eq_ok {es : List Event} (some : rows ≠ []) :
    r.readEventsForRows rows = .ok es ↔ rows.mapM r.eventAt = .ok es :=
  load_mapM_eq_ok some

/-- The columns an event is made of hold what single columns are read for. -/
theorem eventColumns_eq_ok {c : EventColumns} (loaded : r.eventColumns = .ok c) :
    c.rowCount = r.manifest.rowCount ∧ r.readStrings "event_id" = .ok c.eventIds ∧
      r.readStrings "tenant_id" = .ok c.tenantIds ∧
      ∃ times, r.readColumn "event_time" = .ok times ∧ c.times = decodeI64s times := by
  simp only [eventColumns, bind_eq_ok, pure_eq_ok] at loaded
  obtain ⟨times, ht, costs, -, errors, -, ids, hi, tenants, hn, names, -, bodies, -, observed, -,
    trace, -, keys, -, attributes, -, s4, -, promoted, -, rfl⟩ := loaded
  exact ⟨rfl, hi, hn, times, ht, rfl⟩

/-- An event carries the id of its row. -/
theorem idAt_of_eventAt {row : Nat} {e : Event} (read : r.eventAt row = .ok e) :
    r.idAt row = .ok e.eventId := by
  obtain ⟨c, loaded, at'⟩ := bind_eq_ok.mp read
  obtain ⟨rows, ids, -⟩ := eventColumns_eq_ok loaded
  simp only [EventColumns.eventAt, guard_eq_ok, bind_eq_ok, pure_eq_ok] at at'
  obtain ⟨-, _, -, _, -, _, -, _, -, id, found, _, -, _, -, _, -, rfl⟩ := at'
  rw [idAt, ids, ← rows]
  exact found

end PartReader

section Eligible

variable {eligible : List PartReader}

/-- The event of a row of the eligible parts, with its centroid. -/
def rowAt (eligible : List PartReader) (pos : RowPos) : Result (Event × Nat) := do
  let r ← partAt eligible pos.part
  let event ← r.eventAt pos.row
  let centroid ← centroidAt r.manifest pos.row
  return (event, centroid)

/-- The id of a row of the eligible parts. -/
def idOfRow (eligible : List PartReader) (pos : RowPos) : Result String := do
  (← partAt eligible pos.part).idAt pos.row

theorem idOfRow_of_rowAt {pos : RowPos} {v : Event × Nat} (read : rowAt eligible pos = .ok v) :
    idOfRow eligible pos = .ok v.1.eventId := by
  simp only [rowAt, bind_eq_ok, pure_eq_ok] at read
  obtain ⟨r, part, event, at', _, -, rfl⟩ := read
  simp only [idOfRow, bind_eq_ok]
  exact ⟨r, part, PartReader.idAt_of_eventAt at'⟩

/-! ### Materialization -/

private theorem materializePart_eq_ok (eligible : List PartReader) (needed : List RowPos)
    (part : Nat) (group : List RowPos) (mem : (part, group) ∈ (groupBy RowPos.part needed).toList)
    (ys : List (RowPos × Event × Nat)) :
    materializePart eligible (part, group) = .ok ys ↔
      group.mapM (fun pos => rowAt eligible pos >>= fun v => pure (pos, v)) = .ok ys := by
  obtain ⟨some, own⟩ := of_mem_groupBy mem
  have steps : group.mapM (fun pos => rowAt eligible pos >>= fun v => pure (pos, v)) =
      group.mapM fun pos => partAt eligible part >>= fun r => r.eventAt pos.row >>= fun event =>
        centroidAt r.manifest pos.row >>= fun centroid => pure (pos, event, centroid) := by
    apply mapM_congr
    intro pos inGroup
    rw [rowAt, (own pos inGroup).2]
    simp
  rw [steps, ← load_mapM_eq_ok some]
  simp only [materializePart, bind_eq_ok]
  refine exists_congr fun r => and_congr_right fun _ => ?_
  have rows : group.map RowPos.row ≠ [] := by simpa using some
  simp only [PartReader.readEventsForRows_eq_ok rows, List.mapM_map]
  exact zip_mapM_eq_ok (f := r.eventAt ∘ RowPos.row)
    (g := fun pos event => centroidAt r.manifest pos.row >>= fun c => pure (pos, event, c))

/-- What was materialized is what single rows hold, of exactly the rows asked for. -/
theorem materialize_eq_ok {needed : List RowPos} {m : Materialized}
    (ran : materialize eligible needed = .ok m) :
    (∀ pos v, m[pos]? = some v → pos ∈ needed ∧ rowAt eligible pos = .ok v) ∧
      ∀ pos ∈ needed, ∃ v, m[pos]? = some v := by
  simp only [materialize, bind_eq_ok, pure_eq_ok] at ran
  obtain ⟨yss, looped, rfl⟩ := ran
  obtain ⟨ys, each, same⟩ :=
    mapM_groupBy_eq_ok (materializePart_eq_ok eligible needed) looped
  constructor
  · intro pos v found
    rcases mem_of_getElem?_foldl_insert found with listed | nothing
    · obtain ⟨pos', inside, step⟩ := exists_of_mapM_eq_ok each (same.mem_iff.mp listed)
      simp only [bind_eq_ok, pure_eq_ok, Prod.mk.injEq] at step
      obtain ⟨v', read, rfl, rfl⟩ := step
      exact ⟨inside, read⟩
    · simp at nothing
  · intro pos inside
    obtain ⟨y, listed, step⟩ := exists_of_mem_of_mapM_eq_ok each inside
    simp only [bind_eq_ok, pure_eq_ok] at step
    obtain ⟨v, -, rfl⟩ := step
    apply Option.isSome_iff_exists.mp
    apply getElem?_foldl_insert_isSome
    exact .inl (List.mem_map_of_mem (f := Prod.fst) (same.mem_iff.mpr listed))

/-! ### The fetch of candidates -/

/-- One candidate. -/
def fetchRow (eligible : List PartReader) (ctxs : SpaceContexts) (c : Candidate) :
    Result Fetched := do
  let r ← partAt eligible c.part
  let vector ← r.vectorAt c.row
  let id ← r.idAt c.row
  return ⟨⟨c.part, c.row⟩, vector, id,
    ((ctxs.lookup r.manifest.generationId).map (·.queryVector)).getD []⟩

private theorem fetchPart_eq_ok (eligible : List PartReader) (ctxs : SpaceContexts)
    (candidates : List Candidate) (part : Nat) (group : List Candidate)
    (mem : (part, group) ∈ (groupBy Candidate.part candidates).toList)
    (ys : List Fetched) :
    fetchPart eligible ctxs (part, group) = .ok ys ↔
      group.mapM (fetchRow eligible ctxs) = .ok ys := by
  obtain ⟨some, own⟩ := of_mem_groupBy mem
  have rows : group.map Candidate.row ≠ [] := by simpa using some
  let query (r : PartReader) := ((ctxs.lookup r.manifest.generationId).map (·.queryVector)).getD []
  have steps : group.mapM (fetchRow eligible ctxs) =
      group.mapM fun c => partAt eligible part >>= fun r => r.vectorAt c.row >>= fun v =>
        r.idAt c.row >>= fun id => pure ⟨⟨part, c.row⟩, v, id, query r⟩ := by
    apply mapM_congr
    intro c inGroup
    rw [fetchRow, (own c inGroup).2]
  rw [steps, ← load_mapM_eq_ok some]
  simp only [fetchPart, bind_eq_ok]
  refine exists_congr fun r => and_congr_right fun _ => ?_
  simp only [PartReader.readEventIdsForRows_eq_ok rows, PartReader.readVectorsForRows_eq,
    pure_eq_ok]
  refine (both_mapM_eq_ok (f := r.vectorAt) (g := r.idAt)
    (h := fun row v id => (⟨⟨part, row⟩, v, id, query r⟩ : Fetched))).trans ?_
  rw [List.mapM_map]
  exact Iff.rfl

/-- One candidate with its exact score. -/
def scoreRow (env : QueryEnv) (route : Route) (eligible : List PartReader) (ctxs : SpaceContexts)
    (c : Candidate) : Result Scored := do
  let f ← fetchRow eligible ctxs c
  return ⟨rerankScore env.floats route f.queryVector f.vector, f.pos, f.vector, f.eventId⟩

variable {env : QueryEnv} {dim : Nat} {q : Query} {ctxs : SpaceContexts}
  {candidates : List Candidate} {c : Counters}

/-- The rerank scores each candidate on its own. -/
theorem rerankScores_eq_ok {c' : Counters} {scored : List Scored}
    (ran : rerankScores env dim q eligible ctxs candidates c = .ok (scored, c')) :
    ∃ out, candidates.mapM
        (scoreRow env (rerankRoute env dim q candidates.length) eligible ctxs) = .ok out ∧
      scored.Perm out := by
  simp only [rerankScores, bind_eq_ok, pure_eq_ok, Prod.mk.injEq] at ran
  obtain ⟨yss, looped, rfl, -⟩ := ran
  obtain ⟨ys, each, same⟩ :=
    mapM_groupBy_eq_ok (fetchPart_eq_ok eligible ctxs candidates) looped
  have width : yss.flatten.length = candidates.length :=
    same.length_eq.trans (length_of_mapM_eq_ok each)
  rw [width]
  refine ⟨_, ?_, same.map _⟩
  rw [mapM_eq_ok] at each ⊢
  rw [List.forall₂_map_right_iff]
  refine each.imp fun c f fetched => ?_
  simp only [scoreRow, bind_eq_ok, pure_eq_ok]
  exact ⟨f, fetched, rfl⟩

end Eligible

end Prism
