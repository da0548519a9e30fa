import Prism.Properties.Coordinator

/-!
The hits of an answer as rows of the shards. A shard serves rows: what it scores and materializes of
a row is the row's own, whatever else is asked for beside it. The hits of the coordinator are then
the best rows of the global candidate set, and no number of a handle or a shard is left in them.
-/

namespace Prism

open OrderedMap Ranking

open Engine (hitOrder)
open Fallible
open Sharded.Cluster (hitKey)

/-! ### The order of an answer -/

def atThreshold (q : Query) (rows : List Hit) : List Hit :=
  match q.threshold with
  | some tau => rows.filter (·.score.atLeast tau)
  | none => rows

def topHits (q : Query) (rows : List Hit) : List Hit :=
  (atThreshold q (rank hitOrder rows)).take q.k

/-- The rows an answer shows: those of the first `k` that are not deleted. -/
def shownHits (q : Query) (tombstones : List String) (rows : List Hit) : List Hit :=
  (topHits q rows).filter (!tombstones.contains ·.event.eventId)

section Finalize

variable {env : QueryEnv} {tombstones : List String} {snapshotId : String} {q : Query}
  {scored : List Scored} {genIds : List String} {c : Counters}
  {materialize : List RowPos → Result Materialized} {r : SearchResult}

def Scored.key (s : Scored) : Keyset := ⟨s.score, s.eventId⟩

theorem survivors_map {view : Scored → Hit} (own : ∀ s ∈ scored, hitKey (view s) = s.key) :
    ((survivors q scored).take q.k).map view = topHits q (scored.map view) := by
  have order : ∀ a ∈ scored, ∀ b ∈ scored, Scored.order a b = hitOrder (view a) (view b) := by
    intro a ha b hb
    show Scored.order a b = Keyset.order (hitKey (view a)) (hitKey (view b))
    rw [own a ha, own b hb]
    rfl
  have ranked : (rank Scored.order scored).map view =
      rank hitOrder (scored.map view) := by
    rw [rank_map, rank_congr order]
  have scores : ∀ s ∈ rank Scored.order scored, (view s).score = s.score := by
    intro s mem
    exact congrArg Keyset.lastScore (own s ((mem_rank _).mp mem))
  rw [List.map_take, topHits, atThreshold, survivors, ← ranked]
  cases q.threshold with
  | none => rfl
  | some tau =>
    simp only [List.filter_map]
    congr 2
    apply List.filter_congr
    intro s mem
    rw [Function.comp_apply, scores s mem]

/-- The hits of an answer, if every scored row is seen as the row that is materialized for it. -/
theorem finalize_hits {view : Scored → Hit}
    (returned : finalize env tombstones snapshotId q scored genIds c materialize = .ok r)
    (own : ∀ s ∈ scored, hitKey (view s) = s.key)
    (agrees : ∀ needed m, materialize needed = .ok m → ∀ s ∈ scored, ∀ v, m[s.pos]? = some v →
      view s = ⟨v.1, s.score, v.2⟩) : r.hits = shownHits q tombstones (scored.map view) := by
  obtain ⟨m, hits, materialized, read, shown, -⟩ := finalize_eq_ok returned
  have viewed : List.Forall₂ (fun s h => view s = h) ((survivors q scored).take q.k) hits := by
    apply forall₂_of_mapM_eq_ok read
    intro s taken h made
    obtain ⟨v, found, rfl⟩ := hitOf_eq_ok.mp made
    exact agrees _ m materialized s (mem_of_mem_survivors (List.mem_of_mem_take taken)) v found
  rw [shown, shownHits, ← survivors_map own]
  congr 1
  symm
  rw [← List.forall₂_eq_eq_eq, List.forall₂_map_left_iff]
  exact viewed

/-- The hits are in order, if every scored row has the id of the row that is materialized for it. -/
theorem finalize_hits_sorted
    (returned : finalize env tombstones snapshotId q scored genIds c materialize = .ok r)
    (agrees : ∀ needed m, materialize needed = .ok m → ∀ s ∈ scored, ∀ v, m[s.pos]? = some v →
      v.1.eventId = s.eventId) : r.hits.Pairwise fun a b => (hitOrder a b).isLE := by
  obtain ⟨m, hits, materialized, read, shown, -⟩ := finalize_eq_ok returned
  have keys : ((survivors q scored).take q.k).map Scored.key = hits.map hitKey := by
    rw [← List.forall₂_eq_eq_eq, List.forall₂_map_left_iff, List.forall₂_map_right_iff]
    apply forall₂_of_mapM_eq_ok read
    intro s taken h made
    obtain ⟨v, found, rfl⟩ := hitOf_eq_ok.mp made
    have id := agrees _ m materialized s (mem_of_mem_survivors (List.mem_of_mem_take taken)) v found
    simp [Scored.key, hitKey, id]
  have sorted : (survivors q scored).Pairwise fun a b => (Scored.order a b).isLE := by
    unfold survivors
    split
    · exact (rank_pairwise scored).filter _
    · exact rank_pairwise scored
  have ordered : (hits.map hitKey).Pairwise fun a b => (Keyset.order a b).isLE := by
    rw [← keys, List.pairwise_map]
    exact sorted.take
  rw [shown]
  exact (List.pairwise_map.mp ordered).filter _

end Finalize

/-! ### A search of one store -/

variable {eligible : List PartReader} {q : Query}

/-- A scored row has the id of its row. -/
theorem idOfRow_of_rerankScores {env : QueryEnv} {dim : Nat} {ctxs : SpaceContexts}
    {candidates : List Candidate} {c c' : Counters} {scored : List Scored}
    (ran : rerankScores env dim q eligible ctxs candidates c = .ok (scored, c')) :
    ∀ s ∈ scored, idOfRow eligible s.pos = .ok s.eventId := by
  obtain ⟨out, each, same⟩ := rerankScores_eq_ok ran
  intro s mem
  obtain ⟨cand, -, step⟩ := exists_of_mapM_eq_ok each (same.mem_iff.mp mem)
  simp only [scoreRow, fetchRow, bind_eq_ok, pure_eq_ok] at step
  obtain ⟨f, ⟨r, part, vector, -, id, read, rfl⟩, rfl⟩ := step
  simp only [idOfRow, bind_eq_ok]
  exact ⟨r, part, read⟩

variable {snap : Snapshot}

namespace Engine

theorem idOfRow_of_reranked {engine : Engine} {env : QueryEnv} {store : Store} {q : Query}
    {scored : List Scored} (ran : engine.reranked env store snap q = .ok (eligible, scored)) :
    ∀ s ∈ scored, idOfRow eligible s.pos = .ok s.eventId := by
  simp only [reranked, bind_eq_ok] at ran
  obtain ⟨phase, -, rest⟩ := ran
  cases phase with
  | done r =>
    obtain ⟨rfl, rfl⟩ := Prod.mk.inj (pure_eq_ok.mp rest)
    intro s mem
    cases mem
  | rerank set =>
    simp only [bind_eq_ok, pure_eq_ok, Prod.mk.injEq] at rest
    obtain ⟨⟨scored', c⟩, ran, rfl, rfl⟩ := rest
    exact idOfRow_of_rerankScores ran

instance : Std.TransCmp fusedOrder :=
  inferInstanceAs (Std.TransCmp
    (descendingThen F32.totalCmp compare Prod.fst fun row : F32 × Hit => row.2.event.eventId))

theorem searchBridged_sorted {fu : FloatUnit} {search : Snapshot → Query → Result SearchResult}
    {q : Query} {spaces : List String} {bridge : Bridge} {r : SearchResult}
    (returned : searchBridged fu search snap q spaces bridge = .ok r) :
    r.hits.Pairwise fun a b => (hitOrder a b).isLE := by
  simp only [searchBridged, bind_eq_ok, pure_eq_ok] at returned
  obtain ⟨fused, -, rfl⟩ := returned
  rw [List.pairwise_map]
  have sorted : (rank fusedOrder (fused.rows.toList.map Prod.snd)).Pairwise fun a b =>
      (fusedOrder a b).isLE := rank_pairwise _
  exact sorted.take

/-- The hits of a search are in order. -/
theorem searchAt_sorted {engine : Engine} {env : QueryEnv} {store : Store} {q : Query}
    {r : SearchResult} (returned : engine.searchAt env store snap q = .ok r) :
    r.hits.Pairwise fun a b => (hitOrder a b).isLE := by
  rcases searchWith_eq_ok returned with ⟨-, ⟨_, _, bridged⟩ | ⟨none, -⟩⟩ |
    ⟨eligible, scored, _, _, ran, final⟩
  · exact searchBridged_sorted bridged
  · simp [none]
  · apply finalize_hits_sorted final
    intro needed m materialized s mem v found
    have read := ((materialize_eq_ok materialized).1 s.pos v found).2
    have id := idOfRow_of_reranked ran s mem
    rw [idOfRow_of_rowAt read] at id
    exact Except.ok.inj id

end Engine

/-! ### Rows of a shard -/

/-- The shard reports the id of the row it is asked for, in both rounds. -/
structure ReadShard.Names (shard : ReadShard) (snap : Snapshot) (q : Query)
    (idAt : String × Nat → String) : Prop where
  rerank : ∀ selected rows, shard.rerank snap q selected = .ok rows →
    ∀ row ∈ rows, row.eventId = idAt (row.partId, row.row)
  materialize : ∀ attempt selected rows, shard.materialize attempt snap selected = .ok rows →
    ∀ p ∈ selected.zip rows, p.2.1.eventId = idAt p.1

/-- The shard scores and materializes each row on its own, and `hit` is the row. -/
structure ReadShard.Serves (shard : ReadShard) (snap : Snapshot) (q : Query)
    (hit : String × Nat → Hit) : Prop where
  rerank : ∀ selected rows, shard.rerank snap q selected = .ok rows →
    (rows.map fun row => ((row.partId, row.row), row.score, row.eventId)).Perm
      (selected.map fun p => (p, (hit p).score, (hit p).event.eventId))
  materialize : ∀ attempt selected rows, shard.materialize attempt snap selected = .ok rows →
    rows = selected.map fun p => ((hit p).event, (hit p).centroid)

variable {hit : String × Nat → Hit} {selected : Selection}

theorem ReadShard.Serves.of_mem {shard : ReadShard} (serves : shard.Serves snap q hit)
    {rows : List ShardScored} (scored : shard.rerank snap q selected = .ok rows) {row : ShardScored}
    (mem : row ∈ rows) : hitKey (hit (row.partId, row.row)) = ⟨row.score, row.eventId⟩ := by
  have listed := (serves.rerank selected rows scored).mem_iff.mp
    (List.mem_map_of_mem (f := fun row => ((row.partId, row.row), row.score, row.eventId)) mem)
  obtain ⟨p, -, same⟩ := List.mem_map.mp listed
  simp only [Prod.mk.injEq] at same
  obtain ⟨rfl, score, id⟩ := same
  simp [hitKey, score, id]

variable {p : String × Nat}

theorem ReadShard.Serves.of_mem_zip {shard : ReadShard} (serves : shard.Serves snap q hit)
    {attempt : Nat} {events : List (Event × Nat)}
    (read : shard.materialize attempt snap selected = .ok events) {v : Event × Nat}
    (mem : (p, v) ∈ selected.zip events) : v = ((hit p).event, (hit p).centroid) := by
  rw [serves.materialize attempt selected events read, ← List.map_prod_left_eq_zip] at mem
  obtain ⟨p', -, same⟩ := List.mem_map.mp mem
  rw [Prod.mk.injEq] at same
  obtain ⟨rfl, rfl⟩ := same
  rfl

/-! ### An engine as a shard -/

/-- A part directory is named by the id in the manifest it holds. -/
def Store.Filed (store : Store) : Prop :=
  ∀ (id : String) (part : Part), store.parts[id]? = some part → part.manifest.partId = id

namespace Engine

def storedId (store : Store) (p : String × Nat) : Result String := do
  (PartReader.mk (← Catalog.openPartIn store p.1) none).idAt p.2

variable {store : Store}

theorem openPartIn_filed (filed : store.Filed) {id : String} {part : Part}
    (opened : Catalog.openPartIn store id = .ok part) : part.manifest.partId = id := by
  unfold Catalog.openPartIn at opened
  split at opened
  · cases opened
  next part' found =>
    obtain ⟨_, -, rfl⟩ := map_eq_ok.mp opened
    exact filed id part' found

theorem partAt_eq_ok {i : Nat} {r : PartReader} :
    partAt eligible i = .ok r ↔ eligible[i]? = some r := by
  unfold partAt
  split
  next r' found => simp [found]
  next missing => simp [missing]

variable {selected : Selection} {readers : List PartReader}

/-- An opened part is one of those selected. -/
theorem openSelected_eq_ok (opened : openSelected store selected = .ok readers) {i : Nat}
    {id : String} :
    (selectedParts selected)[i]? = some id → ∃ part, Catalog.openPartIn store id = .ok part ∧
      partAt readers i = .ok ⟨part, none⟩ := by
  intro there
  obtain ⟨r, found, step⟩ := getElem?_of_mapM_eq_ok opened there
  simp only [bind_eq_ok, pure_eq_ok] at step
  obtain ⟨part, read, rfl⟩ := step
  exact ⟨part, read, partAt_eq_ok.mpr found⟩

theorem exists_name_of_partAt (opened : openSelected store selected = .ok readers) {i : Nat}
    {r : PartReader} (there : partAt readers i = .ok r) :
    ∃ id part, (selectedParts selected)[i]? = some id ∧ Catalog.openPartIn store id = .ok part ∧
      r = ⟨part, none⟩ := by
  have bound := (List.getElem?_eq_some_iff.mp (partAt_eq_ok.mp there)).1
  rw [length_of_mapM_eq_ok opened] at bound
  have named := List.getElem?_eq_getElem bound
  obtain ⟨part, read, found⟩ := openSelected_eq_ok opened named
  exact ⟨_, part, named, read, ok_unique there found⟩

theorem searchRerankSelected_names {engine : Engine} {env : QueryEnv} {q : Query}
    {rows : List ShardScored} (filed : store.Filed)
    (ran : engine.searchRerankSelected env store q selected = .ok rows) :
    ∀ row ∈ rows, storedId store (row.partId, row.row) = .ok row.eventId := by
  unfold searchRerankSelected at ran
  split at ran
  · obtain rfl := pure_eq_ok.mp ran
    intro row mem
    cases mem
  · simp only [bind_eq_ok] at ran
    obtain ⟨readers, opened, ctxs, -, ⟨scored, c⟩, reranked, mapped⟩ := ran
    intro row mem
    obtain ⟨s, inside, step⟩ := exists_of_mapM_eq_ok mapped mem
    simp only [bind_eq_ok, pure_eq_ok] at step
    obtain ⟨r, there, rfl⟩ := step
    have id := idOfRow_of_rerankScores reranked s inside
    obtain ⟨name, part, -, read, rfl⟩ := exists_name_of_partAt opened there
    simp only [idOfRow, there, bind_eq_ok, Except.ok.injEq, exists_eq_left'] at id
    simp only [storedId, bind_eq_ok]
    refine ⟨part, ?_, id⟩
    rw [show (PartReader.mk part none).manifest.partId = name from openPartIn_filed filed read]
    exact read

theorem getElem?_idxOf_selectedParts (mem : p ∈ selected) :
    (selectedParts selected)[(selectedParts selected).idxOf p.1]? = some p.1 := by
  apply List.getElem?_idxOf
  rw [selectedParts, List.mem_eraseDups]
  exact List.mem_map_of_mem mem

def storedRow (store : Store) (p : String × Nat) : Result (Event × Nat) := do
  let r : PartReader := ⟨← Catalog.openPartIn store p.1, none⟩
  let event ← r.eventAt p.2
  let centroid ← centroidAt r.manifest p.2
  return (event, centroid)

theorem searchMaterialize_eq_ok {rows : List (Event × Nat)}
    (ran : searchMaterialize store selected = .ok rows) :
    selected.mapM (storedRow store) = .ok rows := by
  unfold searchMaterialize at ran
  split at ran
  next empty =>
    rw [List.isEmpty_iff] at empty
    rw [empty]
    exact ran
  next some =>
    simp only [bind_eq_ok] at ran
    obtain ⟨readers, opened, mapped⟩ := ran
    rw [mapM_eq_ok]
    apply forall₂_of_mapM_eq_ok mapped
    rintro ⟨id, row⟩ mem v step
    obtain ⟨part, read, there⟩ := openSelected_eq_ok opened (getElem?_idxOf_selectedParts mem)
    simp only [materializeRow, there, bind_eq_ok, Except.ok.injEq, exists_eq_left'] at step
    obtain ⟨events, got, rest⟩ := step
    rw [PartReader.readEventsForRows_eq_ok (by simp), mapM_eq_ok, List.forall₂_cons_left_iff] at got
    obtain ⟨event, _, got, others, rfl⟩ := got
    obtain rfl := List.forall₂_nil_left_iff.mp others
    simp only [storedRow, read, bind_eq_ok, Except.ok.injEq, exists_eq_left', got, centroidAt]
    simp only [List.getLast?_singleton] at rest
    split at rest
    next cr found =>
      rw [found]
      exact ⟨_, rfl, rest⟩
    next => cases rest

theorem storedId_of_storedRow {v : Event × Nat} (read : storedRow store p = .ok v) :
    storedId store p = .ok v.1.eventId := by
  simp only [storedRow, bind_eq_ok, pure_eq_ok] at read
  obtain ⟨part, opened, event, at', _, -, rfl⟩ := read
  simp only [storedId, bind_eq_ok]
  exact ⟨part, opened, PartReader.idAt_of_eventAt at'⟩

theorem readShard_names (engine : Engine) (env : QueryEnv) (filed : store.Filed) (snap : Snapshot)
    (q : Query) :
    (engine.readShard env store).Names snap q fun p => (storedId store p).toOption.getD "" := by
  constructor
  · intro selected rows ran row mem
    obtain ⟨_, -, scored⟩ := bind_eq_ok.mp ran
    rw [searchRerankSelected_names filed scored row mem]
    rfl
  · rintro attempt selected rows ran ⟨p, v⟩ mem
    obtain ⟨_, -, read⟩ := bind_eq_ok.mp ran
    have each := mapM_eq_ok.mp (searchMaterialize_eq_ok read)
    have stored : storedRow store p = .ok v := by
      rw [List.forall₂_iff_zip] at each
      exact each.2 mem
    rw [storedId_of_storedRow stored]
    rfl

end Engine

namespace Coordinator

variable {env : QueryEnv} {dim : Nat} {shards : List ReadShard} {vector : List Snapshot} {q : Query}
  {start : List MissingShard} {f : Final} {second : Round2} {before : Ledger} {first : Round1}
  {r : SearchResult} {l : Ledger}

/-- The hits of a run are in order. -/
theorem Ended.hits_sorted (idAt : Nat → String × Nat → String)
    (staged : Staged env dim shards vector q start f second before first)
    (once : (start.map (·.shard)).Nodup)
    (ended : Ended f start (rowsOf dim shards vector q first) second.ledger r l)
    (names : ∀ (si : Nat) (shard : ReadShard) (snap : Snapshot), (shards.zip vector)[si]? = some (shard, snap) →
      shard.Names snap q (idAt si)) : r.hits.Pairwise fun a b => (hitOrder a b).isLE := by
  obtain ⟨attempt, r', rfl, finalized⟩ := ended.answer
  show r'.hits.Pairwise _
  apply finalize_hits_sorted finalized
  intro needed m materialized s mem v found
  rw [mapError_eq_ok] at materialized
  obtain ⟨row, -, -, -, -, id, -, shard, snap, selected, rows, selected', events, there, answered,
      scored, answered', zipped⟩ := staged.row_of_materialized once materialized mem found
  have own := names _ _ _ there
  rw [id, own.rerank _ _ answered _ scored]
  exact own.materialize _ _ _ answered' _ zipped

def candidateHit (hit : Nat → String × Nat → Hit) (p : Nat × ShardCandidate) : Hit :=
  hit p.1 (p.2.partId, p.2.row)

def rowHit (hit : Nat → String × Nat → Hit) (row : Nat × ShardScored) : Hit :=
  hit row.1 (row.2.partId, row.2.row)

/-- The hit a numbered row becomes. A row that no handle is for is none of them. -/
def numberedHit (hit : Nat → String × Nat → Hit) (rows : List (Nat × ShardScored)) (s : Scored) :
    Hit :=
  match (handlesOf rows)[s.pos.part]? with
  | some h => hit h.shard (h.partId, s.pos.row)
  | none => hit 0 ("", 0)

theorem left_map (hit : Nat → String × Nat → Hit) (rows : List (Nat × ShardScored))
    (gone : List Nat) : (left rows gone).map (numberedHit hit rows) =
      (rows.filter (·.1 ∉ gone)).map (rowHit hit) := by
  have numbered : numberedFrom 0 rows = rows.zipIdx.map fun p =>
      ⟨p.1.2.score, ⟨p.2, p.1.2.row⟩, p.1.2.vector, p.1.2.eventId⟩ := by
    simp [numberedFrom, List.mapIdx_eq_zipIdx_map]
  have plain : rows = rows.zipIdx.map Prod.fst := (List.zipIdx_map_fst 0 rows).symm
  have handle : ∀ p ∈ rows.zipIdx, (handlesOf rows)[p.2]? =
      some ⟨p.1.1, p.1.2.partId, p.1.2.row⟩ := by
    intro p mem
    simp [handlesOf, List.mem_zipIdx_iff_getElem?.mp mem]
  rw [left, numbered, List.filter_map, List.map_map]
  conv_rhs => rw [plain, List.filter_map, List.map_map]
  have kept : rows.zipIdx.filter ((fun s : Scored =>
      ((handlesOf rows)[s.pos.part]?).all (·.shard ∉ gone)) ∘ fun p =>
        ⟨p.1.2.score, ⟨p.2, p.1.2.row⟩, p.1.2.vector, p.1.2.eventId⟩) =
      rows.zipIdx.filter ((fun row : Nat × ShardScored => decide (row.1 ∉ gone)) ∘ Prod.fst) := by
    apply List.filter_congr
    intro p mem
    simp [handle p mem]
  rw [kept]
  apply List.map_congr_left
  intro p mem
  simp [numberedHit, rowHit, handle p (List.mem_of_mem_filter mem)]

variable {hit : Nat → String × Nat → Hit} {gone : List Nat}

/-- The rows that were scored and are left are the candidates that are left. -/
theorem Staged.rows_perm (staged : Staged env dim shards vector q start f second before first)
    (once : (start.map (·.shard)).Nodup) (base : ∀ si ∈ second.ledger.shards, si ∈ gone)
    (serves : ∀ (si : Nat) (shard : ReadShard) (snap : Snapshot), si ∉ gone → (shards.zip
      vector)[si]? = some (shard, snap) → shard.Serves snap q (hit si)) :
    (((rowsOf dim shards vector q first).filter (·.1 ∉ gone)).map (rowHit hit)).Perm
      (((boundGlobal dim q first.merged).1.filter (·.1 ∉ gone)).map (candidateHit hit)) := by
  obtain ⟨-, -, sound⟩ := staged.sound once
  have whole := ((groupBy_perm Prod.fst (boundGlobal dim q first.merged).1).filter
    (·.1 ∉ gone)).map (candidateHit hit)
  refine List.Perm.trans ?_ whole
  rw [rowsOf, List.filter_flatMap, List.filter_flatMap, List.map_flatMap, List.map_flatMap]
  apply List.Perm.flatMap_left
  rintro ⟨si, group⟩ mem
  have keyed := (of_mem_groupBy mem).2
  by_cases lost : si ∈ gone
  · -- Neither side has a row of a shard that is gone.
    have nothing : (rescored (shards.zip vector) q (si, group)).filter (·.1 ∉ gone) = [] := by
      apply List.filter_eq_nil_iff.mpr
      intro row inside
      simp [(fst_of_mem_rescored inside).1, lost]
    have nothing' : group.filter (·.1 ∉ gone) = [] := by
      apply List.filter_eq_nil_iff.mpr
      intro p inside
      simp [(keyed p inside).2, lost]
    rw [nothing, nothing']
    exact List.Perm.nil
  · obtain ⟨shard, snap, rows, there, answered⟩ := sound.failed _ mem fun named =>
      lost (base si named)
    have all : (rescored (shards.zip vector) q (si, group)).filter (·.1 ∉ gone) =
        rows.map (si, ·) := by
      rw [List.filter_eq_self.mpr]
      · simp [rescored, there, answered]
      · intro row inside
        simp [(fst_of_mem_rescored inside).1, lost]
    have all' : group.filter (·.1 ∉ gone) = group := by
      apply List.filter_eq_self.mpr
      intro p inside
      simp [(keyed p inside).2, lost]
    have scored := ((serves si shard snap lost there).rerank _ rows answered).map
      fun t => hit si t.1
    rw [all, all']
    have own : group.map (candidateHit hit) = group.map fun p => hit si (p.2.partId, p.2.row) := by
      apply List.map_congr_left
      intro p inside
      rw [candidateHit, (keyed p inside).2]
    rw [own]
    simpa [selectionOf, rowHit, Function.comp_def] using scored

/-- The ids of rows whose hits are in order are told apart by the order. -/
theorem separates_hitOrder {rows : List Hit} (distinct : (rows.map (·.event.eventId)).Nodup) :
    Separates hitOrder rows := by
  intro a ha b hb tied
  apply List.inj_on_of_nodup_map distinct ha hb
  have tied : Keyset.order (hitKey a) (hitKey b) = .eq := tied
  exact congrArg Keyset.lastEventId (Std.LawfulEqCmp.eq_of_compare tied)

theorem topHits_perm {rows rows' : List Hit} (same : rows.Perm rows')
    (distinct : (rows'.map (·.event.eventId)).Nodup) : topHits q rows = topHits q rows' := by
  rw [topHits, topHits, rank_eq_of_perm ((separates_hitOrder distinct).perm same.symm) same]

theorem left_congr {rows : List (Nat × ShardScored)} {gone' : List Nat}
    (same : ∀ si, si ∈ gone ↔ si ∈ gone') : left rows gone = left rows gone' := by
  unfold left
  simp only [same]

/-- The hits of a run are the best of the candidates that are left, without the deleted ones. -/
theorem Ended.hits_eq (staged : Staged env dim shards vector q start f second before first)
    (once : (start.map (·.shard)).Nodup)
    (ended : Ended f start (rowsOf dim shards vector q first) second.ledger r l)
    (named : ∀ si, si ∈ gone ↔ si ∈ l.shards)
    (serves : ∀ (si : Nat) (shard : ReadShard) (snap : Snapshot), si ∉ gone → (shards.zip
      vector)[si]? = some (shard, snap) → shard.Serves snap q (hit si))
    (distinct : (((boundGlobal dim q first.merged).1.filter (·.1 ∉ gone)).map fun p =>
      (candidateHit hit p).event.eventId).Nodup) :
    r.hits = shownHits q (sortedSet (vector.flatMap (·.tombstones)))
      (((boundGlobal dim q first.merged).1.filter (·.1 ∉ gone)).map (candidateHit hit)) := by
  obtain ⟨-, -, -, query, tombstones⟩ := staged.final
  obtain ⟨attempt, r', rfl, finalized⟩ := ended.answer
  rw [← left_congr named] at finalized
  have seen {s : Scored} (mem : s ∈ left (rowsOf dim shards vector q first) gone) :
      hitKey (numberedHit hit (rowsOf dim shards vector q first) s) = s.key := by
    obtain ⟨row, inside, alive, handle, score, place, -, id⟩ := exists_row_of_mem_left mem
    obtain ⟨item, -, own⟩ := List.mem_flatMap.mp inside
    obtain ⟨same, shard, snap, rows, there, answered, scored⟩ := fst_of_mem_rescored own
    have keyed := (serves _ shard snap alive (same ▸ there)).of_mem answered scored
    rw [numberedHit, handle, Scored.key, score, id, place]
    exact keyed
  have shown : r'.hits = shownHits f.query f.tombstones
      ((left (rowsOf dim shards vector q first) gone).map
        (numberedHit hit (rowsOf dim shards vector q first))) := by
    apply finalize_hits finalized fun s mem => seen mem
    intro needed m materialized s mem v found
    rw [mapError_eq_ok] at materialized
    obtain ⟨row, -, alive, handle, score, -, place, shard, snap, selected, rows, selected', events,
        there, answered, scored, answered', zipped⟩ :=
      staged.row_of_materialized once materialized mem found
    have served := serves _ shard snap alive there
    have key := served.of_mem answered scored
    rw [numberedHit, handle, served.of_mem_zip answered' zipped, score, place]
    have own : (hit row.1 (row.2.partId, row.2.row)).score = row.2.score :=
      congrArg Keyset.lastScore key
    rw [← own]
  have base : ∀ si ∈ second.ledger.shards, si ∈ gone := fun si there =>
    (named si).mpr (ended.base si there)
  show r'.hits = _
  rw [shown, query, tombstones, left_map, shownHits, shownHits,
    topHits_perm (staged.rows_perm once base serves) (by rw [List.map_map]; exact distinct)]

end Coordinator

/-- The hits of a cluster are in order. -/
theorem Sharded.Cluster.searchAtVector_sorted {cluster : Sharded.Cluster} {env : QueryEnv}
    {vector : List Snapshot} {r : SearchResult}
    (filed : ∀ shard ∈ cluster.shards, shard.store.Filed)
    (returned : cluster.searchAtVector env vector q = .ok r) :
    r.hits.Pairwise fun a b => (hitOrder a b).isLE := by
  unfold searchAtVector at returned
  split at returned
  · obtain ⟨⟨shard, snap⟩, -, searched⟩ := bind_eq_ok.mp returned
    exact Engine.searchAt_sorted searched
  · split at returned
    · cases returned
    next first others members =>
      have nothing : (([] : List MissingShard).map (·.shard)).Nodup := List.nodup_nil
      obtain ⟨answer, ran, ends⟩ := Coordinator.run_ends env first.engine.config.dim
        (cluster.shards.map fun shard => shard.engine.readShard env shard.store) vector q nothing
      rw [coordinateCrossShard, ran] at returned
      obtain ⟨⟨r', l⟩, rfl, rfl⟩ := map_eq_ok.mp returned
      obtain ⟨f, second, before, first', staged, ended⟩ := ends r' l rfl
      let idAt (si : Nat) (p : String × Nat) : String :=
        match cluster.shards[si]? with
        | some shard => (Engine.storedId shard.store p).toOption.getD ""
        | none => ""
      apply ended.hits_sorted idAt staged nothing
      intro si shard snap there
      obtain ⟨found, -⟩ := List.getElem?_zip_eq_some.mp there
      rw [List.getElem?_map, Option.map_eq_some_iff] at found
      obtain ⟨owner, at', rfl⟩ := found
      have names := Engine.readShard_names owner.engine env
        (filed owner (List.mem_of_getElem? at')) snap q
      simpa only [idAt, at'] using names

end Prism
