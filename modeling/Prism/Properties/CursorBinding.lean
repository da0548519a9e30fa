import Prism.Properties.Pagination

/-!
What a cursor is bound to. The cursor of a plan carries the fingerprint of the plan and is refused by
another one; the cursor of a cluster carries the snapshots and the position only, and any query that
runs on those snapshots takes it.
-/

namespace Prism

open Sql Engine Fallible Ranking

/-! ### The cursor of a cluster -/

variable {page : SearchResult} {token : String}

namespace Sharded

open Sharded.Cluster

def wholeAnswer (q : Query) : Query := { q with k := max q.rerank q.k }

variable {cluster : Cluster} {serde : CursorSerde ClusterCursor} {cursor : Option String}

/-- What a page is made of. -/
theorem searchPage_eq_ok {env : QueryEnv} {q : Query} {next : Option String} :
    cluster.searchPage env serde q cursor = .ok (page, next) ↔
      ∃ vector cur result, cluster.resolveVector serde cursor = .ok (vector, cur) ∧
        cluster.searchAtVector env vector (wholeAnswer q) = .ok result ∧
        { result with hits := (pageOf hitKey cur q.k result.hits).1 } = page ∧
        match (pageOf hitKey cur q.k result.hits).2 with
        | some h => ∃ t, encodeCursor serde ⟨vector.map (·.snapshotId), hitKey h⟩ = .ok t ∧
            some t = next
        | none => none = next := by
  simp only [searchPage, wholeAnswer, bind_eq_ok, Prod.exists]
  refine exists_congr fun vector => exists_congr fun cur => ?_
  rw [← exists_and_left]
  refine exists_congr fun result => and_congr_right fun _ => and_congr_right fun _ => ?_
  cases (pageOf hitKey cur q.k result.hits).2 with
  | none => simp
  | some h =>
    simp only [bind_eq_ok, map_eq_ok, pure_eq_ok, Prod.mk.injEq]
    constructor
    · rintro ⟨_, ⟨t, encoded, rfl⟩, made, ends⟩
      exact ⟨made, t, encoded, ends⟩
    · rintro ⟨made, t, encoded, ends⟩
      exact ⟨_, ⟨t, encoded, rfl⟩, made, ends⟩

/-- The token behind a page is of the vector it was read from and of its last hit. -/
theorem searchPage_token {env : QueryEnv} {q : Query} {vector : List Snapshot} {cur : Option Keyset}
    (resolved : cluster.resolveVector serde cursor = .ok (vector, cur))
    (made : cluster.searchPage env serde q cursor = .ok (page, some token)) :
    ∃ h, encodeCursor serde ⟨vector.map (·.snapshotId), hitKey h⟩ = .ok token := by
  obtain ⟨vector', cur', result, resolved', -, -, last⟩ := searchPage_eq_ok.mp made
  obtain ⟨rfl, rfl⟩ := Prod.mk.inj (ok_unique resolved resolved')
  split at last
  next h _ =>
    obtain ⟨t, encoded, same⟩ := last
    exact ⟨h, Option.some.inj same ▸ encoded⟩
  next => cases last

theorem exists_encodeCursor {β : Type} {serde : CursorSerde β}
    (writes : ∀ body, ∃ json, serde.toVec body = .ok json) (body : β) :
    ∃ token, encodeCursor serde body = .ok token := by
  obtain ⟨json, written⟩ := writes body
  refine ⟨hexU32 (crc32 json) ++ hex json, ?_⟩
  simp [encodeCursor, written, Except.mapError]

/-- A page fails only where its vector or its search does. -/
theorem searchPage_fails_iff {env : QueryEnv} {q : Query}
    (writes : ∀ body, ∃ json, serde.toVec body = .ok json) :
    (∃ e, cluster.searchPage env serde q cursor = .error e) ↔
      ∀ vector cur, cluster.resolveVector serde cursor = .ok (vector, cur) →
        ∃ e, cluster.searchAtVector env vector (wholeAnswer q) = .error e := by
  simp only [exists_eq_error]
  constructor
  · rintro fails vector cur resolved ⟨result, searched⟩
    apply fails
    cases last : (pageOf hitKey cur q.k result.hits).2 with
    | none =>
      refine ⟨(_, none), searchPage_eq_ok.mpr ⟨vector, cur, result, resolved, searched, rfl, ?_⟩⟩
      rw [last]
    | some h =>
      obtain ⟨t, encoded⟩ := exists_encodeCursor writes ⟨vector.map (·.snapshotId), hitKey h⟩
      refine ⟨(_, some t), searchPage_eq_ok.mpr ⟨vector, cur, result, resolved, searched, rfl, ?_⟩⟩
      rw [last]
      exact ⟨t, encoded, rfl⟩
  · rintro fails ⟨⟨page, next⟩, returned⟩
    obtain ⟨vector, cur, result, resolved, searched, -⟩ := searchPage_eq_ok.mp returned
    exact fails vector cur resolved ⟨result, searched⟩

end Sharded

/-! ### The cursor of a plan -/

def planText (env : Env) (plan : Plan) : Bytes := (env.planToVec plan).getD []

variable {engine : Engine} {env : Env} {store : Store} {plan : Plan} {cursor : Option String}
  {res : SqlResult}

/-- The token behind a page of rows is of the plan, of the snapshot and of the route of the page. -/
theorem runRows_token (made : engine.runRows env store plan cursor = .ok res)
    (ends : res.nextCursor = some token) : ∃ k, encodeCursor env.cursors
      ⟨res.snapshotId, env.planFingerprint plan, k, pinnedRoute res.counters⟩ = .ok token := by
  simp only [Engine.runRows, bind_eq_ok] at made
  obtain ⟨⟨snap, cur⟩, -, ⟨scored, counters⟩, -, rest⟩ := made
  cases last : (pageOf resultKey (cur.map (·.position)) plan.limit
      (rank resultOrder scored)).2 with
  | none =>
    simp only [last, bind_eq_ok, pure_eq_ok, Except.ok.injEq, exists_eq_left'] at rest
    obtain ⟨rows, -, rfl⟩ := rest
    cases ends
  | some row =>
    simp only [last, bind_eq_ok, map_eq_ok, pure_eq_ok] at rest
    obtain ⟨_, ⟨t, encoded, rfl⟩, rows, -, rfl⟩ := rest
    exact ⟨resultKey row, Option.some.inj ends ▸ encoded⟩

/-- A page of rows fails only where its snapshot or its rows do. -/
theorem runRows_fails_iff (bound : plan.Bound) (plain : plan.isAggregate = false)
    (writes : ∀ body, ∃ json, env.cursors.toVec body = .ok json) :
    (∃ e, engine.runRows env store plan cursor = .error e) ↔
      ∀ snap cur, resolveSnapshot env store plan cursor = .ok (snap, cur) →
        ∃ e, engine.resultSet env store plan snap (cur.map (·.route)) = .error e := by
  simp only [exists_eq_error]
  constructor
  · rintro fails snap cur resolved ⟨⟨scored, counters⟩, ran⟩
    apply fails
    choose out projected using project_known bound plain
    let page := pageOf resultKey (cur.map (·.position)) plan.limit (rank resultOrder scored)
    have rows : page.1.mapM (project plan) = .ok (page.1.map out) :=
      mapM_eq_ok_map fun r _ => projected r
    simp only [page] at rows
    cases last : page.2 with
    | none =>
      simp only [page] at last
      exact ⟨_, by simp [Engine.runRows, resolved, ran, last, rows, Bind.bind, Except.bind]; rfl⟩
    | some row =>
      obtain ⟨t, encoded⟩ := Sharded.exists_encodeCursor writes
        ⟨snap.snapshotId, env.planFingerprint plan, resultKey row, pinnedRoute counters⟩
      simp only [page] at last
      exact ⟨_, by simp [Engine.runRows, resolved, ran, last, rows, encoded, Bind.bind, Except.bind,
        Functor.map, Except.map]; rfl⟩
  · rintro fails ⟨res, returned⟩
    simp only [Engine.runRows, bind_eq_ok] at returned
    obtain ⟨⟨snap, cur⟩, resolved, answer, ran, -⟩ := returned
    exact fails snap cur resolved ⟨answer, ran⟩

theorem resultSet_of_scalar {snap : Snapshot} {route : Option String}
    (scalar : plan.semantic = none) :
    engine.resultSet env store plan snap route = engine.scalarScan store plan snap := by
  simp [Engine.resultSet, scalar]

/-- A cursor finds its snapshot if it is of the plan. -/
theorem resolveSnapshot_eq_ok {body : CursorBody}
    (decoded : decodeCursor env.cursors token = .ok body) {snap : Snapshot}
    {cur : Option CursorBody} : resolveSnapshot env store plan (some token) = .ok (snap, cur) ↔
      body.plan = env.planFingerprint plan ∧ Catalog.loadSnapshotIn store body.snapshot = .ok snap ∧
        some body = cur := by
  simp only [resolveSnapshot, decoded, bind_eq_ok, Except.ok.injEq, exists_eq_left',
    guard_eq_ok, not_not]
  refine and_congr_right fun _ => ?_
  cases Catalog.loadSnapshotIn store body.snapshot with
  | error e | ok snap' => simp

/-- An aggregate has no further page. -/
theorem runAggregate_nextCursor (made : engine.runAggregate env store plan = some (.ok res)) :
    res.nextCursor = none := by
  unfold Engine.runAggregate at made
  split at made
  · cases made
  · split at made
    · obtain ⟨⟨n, counters⟩, -, rfl⟩ := bind_pure_eq_ok.mp (Option.some.inj made)
      rfl
    · split at made
      · cases made
      · obtain ⟨answer, -, mapped⟩ := Option.map_eq_some_iff.mp made
        obtain ⟨rows, -, rfl⟩ := map_eq_ok.mp mapped
        rfl

/-- A page with a token behind it is a page of rows. -/
theorem runSql_eq_runRows (made : engine.runSql env store plan cursor = some (.ok res))
    (ends : res.nextCursor = some token) : engine.runRows env store plan cursor = .ok res := by
  unfold Engine.runSql at made
  split at made
  · split at made
    · cases made
    · rw [runAggregate_nextCursor made] at ends
      cases ends
  · exact Option.some.inj made

theorem decodeCursor_of_encodeCursor {β : Type} {serde : CursorSerde β} {body : β}
    (encoded : encodeCursor serde body = .ok token) (json : serde.RoundTrips body) :
    decodeCursor serde token = .ok body := by
  obtain ⟨token', encoded', decoded⟩ := decodeCursor_encodeCursor json
  rw [ok_unique encoded encoded']
  exact decoded

theorem planFingerprint_eq_iff {p₁ p₂ : Plan}
    (digest : contentId (planText env p₁) = contentId (planText env p₂) →
      planText env p₁ = planText env p₂) :
    env.planFingerprint p₁ = env.planFingerprint p₂ ↔ planText env p₁ = planText env p₂ := by
  have of (p : Plan) : env.planFingerprint p = contentId (planText env p) := by
    rw [Env.planFingerprint, planText]
  rw [of, of]
  constructor
  · exact digest
  · intro same
    rw [same]

/-- When a cluster refuses the cursor of another query. -/
theorem searchPage_replay_iff {cluster : Sharded.Cluster} {env : QueryEnv}
    {serde : CursorSerde Sharded.ClusterCursor} {q₁ q₂ : Query} {vector : List Snapshot}
    {cur : Option Keyset} (resolved : cluster.resolveVector serde cursor = .ok (vector, cur))
    (made : cluster.searchPage env serde q₁ cursor = .ok (page, some token))
    (writes : ∀ body, ∃ json, serde.toVec body = .ok json)
    (json : ∀ body, encodeCursor serde body = .ok token → serde.RoundTrips body) :
    (∃ e, cluster.searchPage env serde q₂ (some token) = .error e) ↔
      ∀ pinned, cluster.loadVector (vector.map (·.snapshotId)) = .ok pinned →
        ∃ e, cluster.searchAtVector env pinned (Sharded.wholeAnswer q₂) = .error e := by
  obtain ⟨h, encoded⟩ := Sharded.searchPage_token resolved made
  have decoded := decodeCursor_of_encodeCursor encoded (json _ encoded)
  rw [Sharded.searchPage_fails_iff writes]
  simp only [Sharded.Cluster.resolveVector, decoded, bind_eq_ok, Except.ok.injEq,
    exists_eq_left', pure_eq_ok, Prod.mk.injEq]
  constructor
  · intro fails pinned loaded
    exact fails pinned _ ⟨pinned, loaded, rfl, rfl⟩
  · rintro fails _ _ ⟨pinned, loaded, rfl, rfl⟩
    exact fails pinned loaded

/-- When a plan refuses the cursor of another plan. -/
theorem runSql_replay_iff {p₁ p₂ : Plan} (bound : p₂.Bound)
    (made : engine.runSql env store p₁ cursor = some (.ok res)) (ends : res.nextCursor = some token)
    (writes : ∀ body, ∃ json, env.cursors.toVec body = .ok json)
    (json : ∀ body, encodeCursor env.cursors body = .ok token → env.cursors.RoundTrips body)
    (digest : contentId (planText env p₁) = contentId (planText env p₂) →
      planText env p₁ = planText env p₂) :
    (∃ e, engine.runSql env store p₂ (some token) = some (.error e)) ↔
      p₂.isAggregate = true ∨ planText env p₁ ≠ planText env p₂ ∨
        ∀ snap, Catalog.loadSnapshotIn store res.snapshotId = .ok snap →
          ∃ e, engine.resultSet env store p₂ snap (some (pinnedRoute res.counters)) = .error e := by
  obtain ⟨k, encoded⟩ := runRows_token (runSql_eq_runRows made ends) ends
  let body : CursorBody :=
    ⟨res.snapshotId, env.planFingerprint p₁, k, pinnedRoute res.counters⟩
  have decoded : decodeCursor env.cursors token = .ok body :=
    decodeCursor_of_encodeCursor encoded (json _ encoded)
  cases plain : p₂.isAggregate with
  | true => simp [Engine.runSql, plain]
  | false =>
    have rows : engine.runSql env store p₂ (some token) =
        some (engine.runRows env store p₂ (some token)) := by simp [Engine.runSql, plain]
    have resolves (snap : Snapshot) (cur : Option CursorBody) :
        resolveSnapshot env store p₂ (some token) = .ok (snap, cur) ↔
          planText env p₁ = planText env p₂ ∧
            Catalog.loadSnapshotIn store res.snapshotId = .ok snap ∧
            some body = cur :=
      (resolveSnapshot_eq_ok decoded).trans (and_congr_left' (planFingerprint_eq_iff digest))
    simp only [rows, Option.some.injEq, runRows_fails_iff bound plain writes, resolves]
    constructor
    · intro fails
      by_cases equal : planText env p₁ = planText env p₂
      · exact .inr (.inr fun snap loaded => fails snap (some body) ⟨equal, loaded, rfl⟩)
      · exact .inr (.inl equal)
    · rintro (aggregate | differ | fails) snap cur ⟨equal, loaded, rfl⟩
      · cases aggregate
      · exact absurd equal differ
      · exact fails snap loaded

/-- When a cursor is refused by another query. A cluster refuses it only if the snapshots are gone or
the other query fails on them by itself; a plan refuses it if it is written in another way. -/
theorem cursor_replay_iff (cluster : Sharded.Cluster) (engine : Engine) :
    (∀ (env : QueryEnv) (serde : CursorSerde Sharded.ClusterCursor) (q₁ q₂ : Query)
      (cursor : Option String) (vector : List Snapshot) (cur : Option Keyset)
      (page : SearchResult) (token : String),
      cluster.resolveVector serde cursor = .ok (vector, cur) →
      cluster.searchPage env serde q₁ cursor = .ok (page, some token) →
      (∀ body, ∃ json, serde.toVec body = .ok json) →
      (∀ body, encodeCursor serde body = .ok token → serde.RoundTrips body) →
      ((∃ e, cluster.searchPage env serde q₂ (some token) = .error e) ↔
        ∀ pinned, cluster.loadVector (vector.map (·.snapshotId)) = .ok pinned →
          ∃ e, cluster.searchAtVector env pinned (Sharded.wholeAnswer q₂) = .error e)) ∧
    ∀ (env : Env) (store : Store) (p₁ p₂ : Plan) (cursor : Option String) (res : SqlResult)
      (token : String), p₂.Bound →
      engine.runSql env store p₁ cursor = some (.ok res) → res.nextCursor = some token →
      (∀ body, ∃ json, env.cursors.toVec body = .ok json) →
      (∀ body, encodeCursor env.cursors body = .ok token → env.cursors.RoundTrips body) →
      (contentId (planText env p₁) = contentId (planText env p₂) →
        planText env p₁ = planText env p₂) →
      ((∃ e, engine.runSql env store p₂ (some token) = some (.error e)) ↔
        p₂.isAggregate = true ∨ planText env p₁ ≠ planText env p₂ ∨
          ∀ snap, Catalog.loadSnapshotIn store res.snapshotId = .ok snap →
            ∃ e, engine.resultSet env store p₂ snap (some (pinnedRoute res.counters)) =
              .error e) := by
  constructor
  · intro env serde q₁ q₂ cursor vector cur page token resolved made writes json
    exact searchPage_replay_iff resolved made writes json
  · intro env store p₁ p₂ cursor res token bound made ends writes json digest
    exact runSql_replay_iff bound made ends writes json digest

section Witness

/-- Cursors as the library writes them, with one text for those that are not in the list. -/
def someCursors {β : Type} [DecidableEq β] (bodies : List β) : CursorSerde β where
  toVec body := .ok [if body ∈ bodies then UInt8.ofNat (bodies.idxOf body) else 255]
  fromSlice := (tableCursors bodies).fromSlice

theorem someCursors_roundTrips {β : Type} [DecidableEq β] {bodies : List β}
    (short : bodies.length ≤ 255) : ∀ body ∈ bodies, (someCursors bodies).RoundTrips body := by
  intro body mem
  obtain ⟨json, written, read⟩ := tableCursors_roundTrips (by omega) body mem
  refine ⟨json, ?_, read⟩
  simpa [someCursors, tableCursors, mem] using written

/-- The token of a listed cursor is of no other one. -/
theorem mem_of_encodeCursor {β : Type} [DecidableEq β] {bodies : List β} {body other : β}
    (short : bodies.length ≤ 255) (mem : body ∈ bodies)
    (encoded : encodeCursor (someCursors bodies) body = .ok token)
    (same : encodeCursor (someCursors bodies) other = .ok token) : other ∈ bodies := by
  by_contra outside
  have decoded := decodeCursor_of_encodeCursor encoded (someCursors_roundTrips short body mem)
  have text : hexU32 (crc32 [255]) ++ hex [255] = token := by
    simpa [encodeCursor, someCursors, outside, Except.mapError] using same
  have nothing : bodies[255]? = none := by
    rw [List.getElem?_eq_none_iff]
    exact short
  rw [← text, decodeCursor_hex] at decoded
  simp [someCursors, tableCursors, nothing, Except.mapError] at decoded

def clusterSerde : CursorSerde Sharded.ClusterCursor := someCursors [⟨[1, 1], ⟨F32.one, "e1"⟩⟩]

/-- Plans whose texts tell their limits. -/
def limitEnv : Env :=
  { sampleSqlEnv with
    cursors := someCursors [⟨1, contentId [1], ⟨F32.zero, "e1"⟩, "cpu"⟩]
    planToVec := fun plan => some [UInt8.ofNat plan.limit] }

def widerPlan : Plan := { pagedPlan with limit := 2 }

set_option maxRecDepth 100000

theorem cursor_replay_iff_twoRows :
    (∃ page token, twoShards.searchPage sampleEnv clusterSerde pagedQuery none =
        .ok (page, some token) ∧
      ¬ ∃ e, twoShards.searchPage sampleEnv clusterSerde { pagedQuery with k := 2 } (some token) =
        .error e) ∧
    ∃ res token, sampleEngine.runSql limitEnv twoRows pagedPlan none = some (.ok res) ∧
      res.nextCursor = some token ∧
      ∃ e, sampleEngine.runSql limitEnv twoRows widerPlan (some token) = some (.error e) := by
  constructor
  · obtain ⟨current, kept, searched⟩ := twoShards_runs
    obtain ⟨r, ran, shown⟩ := map_eq_ok.mp searched
    have ids : twoShardsVector.map (·.snapshotId) = [1, 1] := by decide +kernel
    have resolved : twoShards.resolveVector clusterSerde none = .ok (twoShardsVector, none) := by
      simp [Sharded.Cluster.resolveVector, current, Bind.bind, Except.bind, Pure.pure, Except.pure]
    obtain ⟨token, encoded⟩ : ∃ token, encodeCursor clusterSerde
        ⟨[1, 1], ⟨F32.one, "e1"⟩⟩ = .ok token := ⟨_, rfl⟩
    have made : ∃ page, twoShards.searchPage sampleEnv clusterSerde pagedQuery none =
        .ok (page, some token) := by
      refine ⟨_, Sharded.searchPage_eq_ok.mpr ⟨twoShardsVector, none, r, resolved, ran, rfl, ?_⟩⟩
      have last : (pageOf Sharded.Cluster.hitKey none pagedQuery.k r.hits).2 =
          some ⟨sampleEvent "e1", F32.one, 0⟩ := by
        rw [shown]
        decide +kernel
      rw [last, ids]
      exact ⟨token, encoded, rfl⟩
    obtain ⟨page, made⟩ := made
    refine ⟨page, token, made, ?_⟩
    rw [(cursor_replay_iff twoShards sampleEngine).1 sampleEnv clusterSerde pagedQuery
      { pagedQuery with k := 2 } none twoShardsVector none page token resolved made (fun body => ⟨_, rfl⟩) ?_]
    · intro fails
      obtain ⟨e, failed⟩ := fails twoShardsVector kept
      rw [show Sharded.wholeAnswer { pagedQuery with k := 2 } = Sharded.wholeAnswer pagedQuery from rfl]
        at failed
      cases ran.symm.trans failed
    · intro body same
      exact someCursors_roundTrips (by decide) body
        (mem_of_encodeCursor (by decide) List.mem_cons_self encoded same)
  · have items : ∀ item ∈ pagedPlan.projections, checkItem item = .ok () := by decide
    have bound₁ : pagedPlan.Bound := ⟨by simp [pagedPlan, selecting], items, by simp [pagedPlan, selecting]⟩
    have bound₂ : widerPlan.Bound := ⟨bound₁.filter, items, bound₁.groups⟩
    choose out projected using project_known bound₁ rfl
    have resolved : resolveSnapshot limitEnv twoRows pagedPlan none = .ok (twoRowsSnapshot, none) := by
      simp [resolveSnapshot, twoRows_runs.1, Bind.bind, Except.bind, Pure.pure, Except.pure]
    have ran : sampleEngine.resultSet limitEnv twoRows pagedPlan twoRowsSnapshot none =
        .ok (pagedRows, pagedCounters) := by
      have scanned := twoRows_runs.2.2.1
      rw [resultSet_of_scalar rfl] at scanned ⊢
      exact scanned
    obtain ⟨token, encoded⟩ : ∃ token, encodeCursor limitEnv.cursors
        ⟨1, contentId [1], ⟨F32.zero, "e1"⟩, "cpu"⟩ = .ok token := ⟨_, rfl⟩
    have last : (pageOf resultKey none pagedPlan.limit (rank resultOrder pagedRows)).2 =
        some (sampleEvent "e1", F32.zero) := by decide +kernel
    have page : ∃ rows, sampleEngine.rowsPage limitEnv pagedPlan (fun _ => twoRows) 0 none =
        .ok (rows, some token) := by
      refine ⟨_, @rowsPage_eq sampleEngine limitEnv pagedPlan (fun _ => twoRows) 0 none
        twoRowsSnapshot none pagedRows pagedCounters out projected resolved ran (some token) ?_⟩
      rw [Option.map_none, last]
      exact ⟨token, rfl, encoded⟩
    obtain ⟨rows, page⟩ := page
    obtain ⟨res, made, same⟩ := map_eq_ok.mp page
    have ends : res.nextCursor = some token := (Prod.mk.inj same).2
    refine ⟨res, token, by rw [Engine.runSql, if_neg (by decide), made], ends, ?_⟩
    have differ : contentId [1] ≠ contentId [2] := by decide +kernel
    apply ((cursor_replay_iff twoShards sampleEngine).2 limitEnv twoRows pagedPlan widerPlan none res
      token bound₂ (by rw [Engine.runSql, if_neg (by decide), made]) ends (fun body => ⟨_, rfl⟩)
      ?_ fun same => absurd same differ).mpr
    · exact .inr (.inl (by decide))
    · intro body same
      exact someCursors_roundTrips (by decide) body
        (mem_of_encodeCursor (by decide) List.mem_cons_self encoded same)

def oneShard : Sharded.Cluster := ⟨[⟨sampleEngine, twoRows⟩], sampleEngine.config.partitions⟩

def presented (cluster : Sharded.Cluster) (serde : CursorSerde Sharded.ClusterCursor)
    (q₁ q₂ : Query) : Result (List String) := do
  match ← cluster.searchPage sampleEnv serde q₁ none with
  | (_, some token) => do
    let (page, _) ← cluster.searchPage sampleEnv serde q₂ (some token)
    return page.hits.map (·.event.eventId)
  | (_, none) => .error (.invariant "one page")

/-- The cursor of one text is taken by the search for another. -/
theorem cursor_replayed :
    let serde := someCursors [⟨[1], ⟨F32.one, "e1"⟩⟩]
    let q₁ : Query := { text := "refunds", tenant := some "t1", k := 1 }
    let q₂ : Query := { text := "passwords", tenant := some "t1", k := 1 }
    ∃ page token page' next, oneShard.searchPage sampleEnv serde q₁ none = .ok (page, some token) ∧
      oneShard.searchPage sampleEnv serde q₂ (some token) = .ok (page', next) ∧
      page'.hits.map (·.event.eventId) = ["e2"] := by
  intro serde q₁ q₂
  have taken : presented oneShard serde q₁ q₂ = .ok ["e2"] := by decide +kernel
  obtain ⟨⟨page, token⟩, made, rest⟩ := bind_eq_ok.mp taken
  cases token with
  | none => cases rest
  | some token =>
    obtain ⟨⟨page', next⟩, again, shown⟩ := bind_eq_ok.mp rest
    exact ⟨page, token, page', next, made, again, pure_eq_ok.mp shown⟩

end Witness

/-! ### Tokens of any text -/

/-- What the source does instead of returning, where the first eight bytes end in a character. -/
def sliceStops : PrismError := .invariant "byte index 8 is not a char boundary"

theorem decodeCursor_stops_iff {β : Type} {serde : CursorSerde β} :
    decodeCursor serde token = .error sliceStops ↔
      8 ≤ (utf8 token).length ∧ (utf8 token).length % 2 = 0 ∧
        charBoundary (utf8 token) 8 = false := by
  unfold decodeCursor
  by_cases size : (utf8 token).length < 8 ∨ (utf8 token).length % 2 ≠ 0
  · rw [if_pos size]
    refine iff_of_false (by rintro ⟨⟩) ?_
    omega
  · rw [if_neg size]
    cases boundary : charBoundary (utf8 token) 8 with
    | false =>
      refine iff_of_true rfl ⟨?_, ?_, rfl⟩ <;> omega
    | true =>
      -- Past the slice every error has another name.
      refine iff_of_false ?_ (by simp)
      simp only [Bool.not_true, Bool.false_eq_true, if_false]
      split
      next want bytes _ _ =>
        split
        · rintro ⟨⟩
        · cases serde.fromSlice bytes <;> rintro ⟨⟩
      next => rintro ⟨⟩

/-- Decoding returns on a text unless its length is right and its eighth byte is followed by the
rest of a character; what was encoded is always read back. -/
theorem cursor_decoding_iff (single : CursorSerde CursorBody)
    (sharded : CursorSerde Sharded.ClusterCursor) (token : String) :
    (decodeCursor single token ≠ .error sliceStops ∧
      decodeCursor sharded token ≠ .error sliceStops ∧
      (∀ body, single.RoundTrips body →
        ∃ text, encodeCursor single body = .ok text ∧ decodeCursor single text = .ok body) ∧
      (∀ body, sharded.RoundTrips body →
        ∃ text, encodeCursor sharded body = .ok text ∧ decodeCursor sharded text = .ok body)) ↔
    (8 ≤ (utf8 token).length → (utf8 token).length % 2 = 0 → charBoundary (utf8 token) 8 = true) := by
  simp only [ne_eq, decodeCursor_stops_iff]
  constructor
  · rintro ⟨returns, -⟩ long even
    rw [← Bool.not_eq_false]
    exact fun cut => returns ⟨long, even, cut⟩
  · intro whole
    have returns : ¬ (8 ≤ (utf8 token).length ∧ (utf8 token).length % 2 = 0 ∧
        charBoundary (utf8 token) 8 = false) := by
      rintro ⟨long, even, cut⟩
      rw [whole long even] at cut
      cases cut
    exact ⟨returns, returns, fun _ => decodeCursor_encodeCursor, fun _ => decodeCursor_encodeCursor⟩

/-- Seven digits, a character of two bytes and one more: ten bytes. -/
theorem decodeCursor_stops :
    decodeCursor limitEnv.cursors "0000000é0" = .error sliceStops ∧
      decodeCursor clusterSerde "0000000é0" = .error sliceStops := by
  simp only [decodeCursor_stops_iff]
  decide +kernel

end Prism
