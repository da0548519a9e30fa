import Prism.Properties.GroupBy
import Prism.Properties.ShardRows

/-!
Pages tile an answer. A token reads back as the cursor it was made from; the rows of an answer are
in the order of its cursors; so the pages, one after another, are the answer, for the rows of a plan
and for the hits of a cluster.
-/

namespace Prism

open Fallible Ranking

/-! ### The token of a cursor -/

/-- What the JSON library writes for a cursor, it reads back. It does so where the score is
finite. -/
def CursorSerde.RoundTrips {β : Type} (serde : CursorSerde β) (body : β) : Prop :=
  ∃ json, serde.toVec body = .ok json ∧ serde.fromSlice json = .ok body

def hexByte (n : Nat) : UInt8 := UInt8.ofNat (if n < 10 then 48 + n else 87 + n)

/-- A digit is one byte, which reads as its value, is no sign, and starts a character. -/
theorem hexDigit_byte {n : Nat} (digit : n < 16) :
    String.utf8EncodeChar (hexDigit n) = [hexByte n] ∧ hexValue (hexByte n) = some n ∧
      hexByte n ≠ 43 ∧ hexByte n &&& 0xC0 ≠ 0x80 := by
  have all : ∀ n : Fin 16, String.utf8EncodeChar (hexDigit n) = [hexByte n] ∧
      hexValue (hexByte n) = some n.val ∧ hexByte n ≠ 43 ∧ hexByte n &&& 0xC0 ≠ 0x80 := by
    decide
  exact all ⟨n, digit⟩

theorem utf8_digits {digits : List Nat} (each : ∀ d ∈ digits, d < 16) :
    utf8 (String.ofList (digits.map hexDigit)) = digits.map hexByte := by
  rw [utf8, String.toList_ofList, List.flatMap_map, List.map_eq_flatMap]
  apply List.flatMap_congr
  intro d mem
  exact (hexDigit_byte (each d mem)).1

theorem utf8_append (a b : String) : utf8 (a ++ b) = utf8 a ++ utf8 b := by
  simp [utf8]

/-- Digits read as the number they write. -/
theorem fromStrRadix16_digits {digits : List Nat} (nonempty : digits ≠ [])
    (each : ∀ d ∈ digits, d < 16) :
    fromStrRadix16 (digits.map hexByte) = some (digits.foldl (fun n d => n * 16 + d) 0) := by
  have folded (acc : Nat) : (digits.map hexByte).foldlM
      (fun n b => (hexValue b).map (n * 16 + ·)) acc =
        some (digits.foldl (fun n d => n * 16 + d) acc) := by
    clear nonempty
    induction digits generalizing acc with
    | nil => rfl
    | cons d digits ih =>
      obtain ⟨first, later⟩ := List.forall_mem_cons.mp each
      simp only [List.map_cons, List.foldlM_cons, (hexDigit_byte first).2.1, Option.map_some]
      exact ih later _
  unfold fromStrRadix16
  split
  · -- The first byte is a digit, so there is no sign to skip.
    rename_i rest signed
    cases digits with
    | nil => exact absurd rfl nonempty
    | cons d digits =>
      have digit := (hexDigit_byte (each d List.mem_cons_self)).2.2.1
      exact absurd (List.cons.inj signed).1 digit
  · simp [nonempty, folded]

def byteDigits (b : UInt8) : List Nat := [b.toNat / 16, b.toNat % 16]

theorem byteDigits_lt (b : UInt8) : ∀ d ∈ byteDigits b, d < 16 := by
  have := b.toNat_lt
  simp only [byteDigits, List.mem_cons, List.not_mem_nil, or_false, forall_eq_or_imp, forall_eq]
  omega

theorem utf8_hex (bytes : Bytes) : utf8 (hex bytes) = (bytes.flatMap byteDigits).map hexByte := by
  rw [hex, ← utf8_digits]
  · rw [List.map_flatMap]
    rfl
  · intro d mem
    obtain ⟨b, -, inside⟩ := List.mem_flatMap.mp mem
    exact byteDigits_lt b d inside

theorem unhex_hex (bytes : Bytes) : unhex (utf8 (hex bytes)) = some bytes := by
  rw [utf8_hex]
  induction bytes with
  | nil => rfl
  | cons b bytes ih =>
    have some : byteDigits b ≠ [] := by simp [byteDigits]
    have byte := fromStrRadix16_digits some (byteDigits_lt b)
    have value : 0 * 16 + b.toNat / 16 = b.toNat / 16 ∧
        b.toNat / 16 * 16 + b.toNat % 16 = b.toNat := by omega
    simp only [byteDigits, List.map_cons, List.map_nil, List.foldl_cons, List.foldl_nil, value]
      at byte
    simp only [List.flatMap_cons, byteDigits, List.map_cons, List.cons_append, List.nil_append,
      unhex, byte] at ih ⊢
    simp [ih]

variable (n : UInt32)

def wordDigits : List Nat :=
  (List.range 8).map fun i => n.toNat / 16 ^ (7 - i) % 16

theorem wordDigits_lt : ∀ d ∈ wordDigits n, d < 16 := by
  intro d mem
  obtain ⟨i, -, rfl⟩ := List.mem_map.mp mem
  exact Nat.mod_lt _ (by decide)

theorem utf8_hexU32 : utf8 (hexU32 n) = (wordDigits n).map hexByte := by
  rw [← utf8_digits (wordDigits_lt n), hexU32, wordDigits, List.map_map]
  rfl

theorem fromStrRadix16_hexU32 : fromStrRadix16 (utf8 (hexU32 n)) = some n.toNat := by
  rw [utf8_hexU32, fromStrRadix16_digits (by simp [wordDigits]) (wordDigits_lt n)]
  have := n.toNat_lt
  simp only [wordDigits, List.range, List.range.loop, List.map_cons, List.map_nil,
    List.foldl_cons, List.foldl_nil, Option.some.injEq]
  omega

/-- A token is read as the text it was made from. -/
theorem decodeCursor_hex {β : Type} (serde : CursorSerde β) (bytes : Bytes) :
    decodeCursor serde (hexU32 (crc32 bytes) ++ hex bytes) =
      (serde.fromSlice bytes).mapError PrismError.decode := by
  have check : (utf8 (hexU32 (crc32 bytes))).length = 8 := by simp [utf8_hexU32, wordDigits]
  have pairs : (utf8 (hex bytes)).length = 2 * bytes.length := by
    simp [utf8_hex, byteDigits, List.length_flatMap, Nat.mul_comm]
  have boundary : charBoundary (utf8 (hexU32 (crc32 bytes)) ++ utf8 (hex bytes)) 8 = true := by
    rw [charBoundary, List.getElem?_append_right check.le, check, utf8_hex]
    cases bytes with
    | nil => rfl
    | cons b bytes =>
      have digit := (hexDigit_byte (byteDigits_lt b _ List.mem_cons_self)).2.2.2
      exact decide_eq_true digit
  simp only [decodeCursor, utf8_append, List.length_append, check, pairs, boundary]
  rw [List.take_left' check, List.drop_left' check, fromStrRadix16_hexU32, unhex_hex]
  simp

/-- A token reads back as the cursor it was made from. -/
theorem decodeCursor_encodeCursor {β : Type} {serde : CursorSerde β} {body : β}
    (json : serde.RoundTrips body) :
    ∃ token, encodeCursor serde body = .ok token ∧ decodeCursor serde token = .ok body := by
  obtain ⟨bytes, written, read⟩ := json
  refine ⟨hexU32 (crc32 bytes) ++ hex bytes, by simp [encodeCursor, written, Except.mapError], ?_⟩
  rw [decodeCursor_hex, read]
  rfl

/-! ### Walking the pages -/

/-- Calls whose tokens lead back to the same sorted rows walk through them. `Token i k t` is of a
token `t` that asks for page `i`, after the position `k`. -/
theorem pages_tile {α β : Type} (key : α → Keyset) {l : List α} {n : Nat} {view : α → β}
    {call : Nat → Option String → Result (List β × Option String)}
    (sorted : l.Pairwise fun a b => (Keyset.order (key a) (key b)).isLE)
    (distinct : (l.map key).Nodup) (positive : 0 < n) (Token : Nat → Keyset → String → Prop)
    (page : ∀ i token cur, (token = none ∧ cur = none ∧ i = 0) ∨
        (∃ k t, token = some t ∧ cur = some k ∧ Token i k t ∧ i * n < l.length) →
      ∃ next, call i token = .ok ((pageOf key cur n l).1.map view, next) ∧
        match (pageOf key cur n l).2 with
        | none => next = none
        | some last => ∃ t, next = some t ∧ Token (i + 1) (key last) t) :
    ∃ pages, Paging.Walk call 0 none pages ∧ pages.flatten = l.map view := by
  have strict := pairwise_lt_of_nodup sorted distinct
  let Reads (i : Nat) (token : Option String) (cur : Option Keyset) : Prop :=
    (token = none ∧ cur = none ∧ i = 0) ∨ ∃ k t, token = some t ∧ cur = some k ∧ Token i k t ∧ 0 < i
  refine Paging.exists_walk (n := n) Keyset.order key strict Reads ?_ (.inl ⟨rfl, rfl, rfl⟩)
  intro i token cur reads asked
  have given : (token = none ∧ cur = none ∧ i = 0) ∨
      ∃ k t, token = some t ∧ cur = some k ∧ Token i k t ∧ i * n < l.length := by
    refine reads.imp_right ?_
    rintro ⟨k, t, hasToken, position, made, later⟩
    exact ⟨k, t, hasToken, position, made, asked.resolve_left (by omega)⟩
  obtain ⟨next, got, onward⟩ := page i token cur given
  rw [pageOf_eq key sorted] at got onward
  refine ⟨next, got, ?_⟩
  split at onward
  next last =>
    -- There is no further row: a page with rows behind it has a last one.
    subst onward
    by_contra more
    rw [if_pos (not_le.mp more), List.getLast?_eq_none_iff, List.take_eq_nil_iff] at last
    rcases last with none | none
    · omega
    · simp [none] at more
  next row last =>
    have more : n < (Paging.rest Keyset.order key cur l).length := by
      by_contra none
      rw [if_neg none] at last
      cases last
    rw [if_pos more] at last
    obtain ⟨t, rfl, made⟩ := onward
    exact ⟨more, row, last, .inr ⟨_, t, rfl, rfl, made, Nat.succ_pos i⟩⟩

/-! ### The rows of a plan -/

namespace Sql

/-- A row of a bound plan without aggregates has an output row. -/
theorem project_known {plan : Plan} (bound : plan.Bound) (plain : plan.isAggregate = false)
    (r : ScoredRow) : ∃ out, project plan r = .ok out := by
  have known {c : String} (mem : c ∈ columns) : ∃ cell, projectColumn r c = .ok cell := by
    obtain ⟨v, value, -⟩ := cellOf_known mem r
    refine ⟨(c, toJson v), ?_⟩
    simp only [projectColumn, bind_eq_ok, pure_eq_ok]
    exact ⟨v, value, rfl⟩
  have item : ∀ i ∈ plan.projections, ∃ out, projectItem r i = .ok out := by
    intro i mem
    rcases i with _ | c | k | a
    · have each : ∀ c ∈ starColumns, ∃ cell, projectColumn r c = .ok cell := by
        intro c listed
        exact known (List.mem_of_mem_filter listed)
      exact exists_mapM_eq_ok.mpr each
    · obtain ⟨cell, made⟩ := known (checkColumn_eq_ok.mp (bound.items _ mem))
      refine ⟨[cell], ?_⟩
      simp only [projectItem, bind_eq_ok, pure_eq_ok]
      exact ⟨cell, made, rfl⟩
    · exact ⟨_, rfl⟩
    · have aggregates : plan.isAggregate = true := by
        simp only [Plan.isAggregate, Bool.or_eq_true, List.any_eq_true]
        exact .inr ⟨_, mem, rfl⟩
      rw [plain] at aggregates
      cases aggregates
  obtain ⟨rows, made⟩ := exists_mapM_eq_ok.mpr item
  refine ⟨rows.flatten, ?_⟩
  simp only [project, bind_eq_ok, pure_eq_ok]
  exact ⟨rows, made, rfl⟩

end Sql

open Sql Engine

/-- What `run_rows` gives a client: the rows of a page and the token of the next. -/
def Engine.rowsPage (engine : Engine) (env : Env) (plan : Plan) (stores : Nat → Store) (i : Nat)
    (token : Option String) : Result (List Row × Option String) :=
  (engine.runRows env (stores i) plan token).map fun res => (res.rows, res.nextCursor)

/-- The same result set at every page that is asked for. The snapshot is the head at the first page
and still there at the others, and each page scores the rows on the route of the page before. -/
structure PinnedRows (engine : Engine) (env : Env) (plan : Plan) (stores : Nat → Store)
    (scored : List ScoredRow) where
  snap : Snapshot
  set : Nat → List ScoredRow
  counters : Nat → Counters
  current : Catalog.currentIn (stores 0) = .ok snap
  kept : ∀ i, 0 < i → i * plan.limit < scored.length →
    Catalog.loadSnapshotIn (stores i) snap.snapshotId = .ok snap
  first : engine.resultSet env (stores 0) plan snap none = .ok (set 0, counters 0)
  later : ∀ i, (i + 1) * plan.limit < scored.length →
    engine.resultSet env (stores (i + 1)) plan snap (some (pinnedRoute (counters i))) =
      .ok (set (i + 1), counters (i + 1))
  same : ∀ i, (set i).Perm scored
  json : ∀ i, ∀ r ∈ scored, env.cursors.RoundTrips
    ⟨snap.snapshotId, env.planFingerprint plan, resultKey r, pinnedRoute (counters i)⟩

/-- A page that resolves its snapshot and scores its rows is returned, with a token where the page
is not the last. -/
theorem rowsPage_eq {engine : Engine} {env : Env} {plan : Plan} {stores : Nat → Store} {i : Nat}
    {token : Option String} {snap : Snapshot} {cur : Option CursorBody} {set : List ScoredRow}
    {c : Counters} {out : ScoredRow → Row} (projected : ∀ r, project plan r = .ok (out r))
    (resolved : resolveSnapshot env (stores i) plan token = .ok (snap, cur))
    (ran : engine.resultSet env (stores i) plan snap (cur.map (·.route)) = .ok (set, c)) :
    let page := pageOf resultKey (cur.map (·.position)) plan.limit (rank resultOrder set)
    ∀ next, (match page.2 with
        | none => next = none
        | some last => ∃ t, next = some t ∧ encodeCursor env.cursors ⟨snap.snapshotId,
            env.planFingerprint plan, resultKey last, pinnedRoute c⟩ = .ok t) →
      engine.rowsPage env plan stores i token = .ok (page.1.map out, next) := by
  intro page next ends
  have rows : page.1.mapM (project plan) = .ok (page.1.map out) :=
    mapM_eq_ok_map fun r _ => projected r
  cases last : page.2 with
  | none =>
    rw [last] at ends
    subst ends
    simp only [page] at last rows
    simp [Engine.rowsPage, Engine.runRows, resolved, ran, last, rows, page, Bind.bind, Except.bind,
      Pure.pure, Except.pure, Except.map]
  | some row =>
    rw [last] at ends
    obtain ⟨t, rfl, encoded⟩ := ends
    simp only [page] at last rows
    simp [Engine.rowsPage, Engine.runRows, resolved, ran, last, rows, encoded, page, Bind.bind,
      Except.bind, Pure.pure, Except.pure, Except.map, Functor.map]

namespace PinnedRows

variable {engine : Engine} {env : Env} {plan : Plan} {stores : Nat → Store}
  {scored : List ScoredRow} (pinned : PinnedRows engine env plan stores scored)

def body (j : Nat) (k : Keyset) : CursorBody :=
  ⟨pinned.snap.snapshotId, env.planFingerprint plan, k, pinnedRoute (pinned.counters j)⟩

/-- A later page finds the snapshot of the first and runs on the route of the one before. -/
theorem resolves {j : Nat} {k : Keyset} {t : String}
    (made : decodeCursor env.cursors t = .ok (pinned.body j k))
    (asked : (j + 1) * plan.limit < scored.length) :
    resolveSnapshot env (stores (j + 1)) plan (some t) =
      .ok (pinned.snap, some (pinned.body j k)) := by
  have kept := pinned.kept (j + 1) (Nat.succ_pos j) asked
  simp [resolveSnapshot, made, body, kept, Bind.bind, Except.bind, Pure.pure, Except.pure]

end PinnedRows

/-- The pages of a plan tile its result set. -/
theorem rows_tile {engine : Engine} {env : Env} {plan : Plan} {stores : Nat → Store}
    {scored : List ScoredRow} (bound : plan.Bound) (plain : plan.isAggregate = false)
    (positive : 0 < plan.limit) (pinned : PinnedRows engine env plan stores scored)
    (distinct : (scored.map resultKey).Nodup) :
    ∃ (out : ScoredRow → Row) (pages : List (List Row)), (∀ r, project plan r = .ok (out r)) ∧
      Paging.Walk (engine.rowsPage env plan stores) 0 none pages ∧
      pages.flatten = (rank resultOrder scored).map out := by
  choose out projected using project_known bound plain
  have separates : Separates resultOrder scored := by
    show Separates (fun a b => Keyset.order (resultKey a) (resultKey b)) scored
    exact separates_of_nodup distinct
  have ranked : (rank resultOrder scored).Pairwise fun a b => (resultOrder a b).isLE :=
    rank_pairwise scored
  have sorted : (rank resultOrder scored).Pairwise fun a b =>
      (Keyset.order (resultKey a) (resultKey b)).isLE := ranked
  have distinct' : ((rank resultOrder scored).map resultKey).Nodup :=
    ((rank_perm resultOrder scored).map resultKey).nodup_iff.mpr distinct
  let Token (i : Nat) (k : Keyset) (t : String) : Prop :=
    ∃ j, i = j + 1 ∧ decodeCursor env.cursors t = .ok (pinned.body j k)
  have tiles : ∃ pages, Paging.Walk (engine.rowsPage env plan stores) 0 none pages ∧
      pages.flatten = (rank resultOrder scored).map out := by
    apply pages_tile resultKey sorted distinct' positive Token
    intro i token cur given
    -- Every page resolves to the pinned snapshot and the same rows.
    have page : ∃ cur' : Option CursorBody, cur'.map (·.position) = cur ∧
        resolveSnapshot env (stores i) plan token = .ok (pinned.snap, cur') ∧
        engine.resultSet env (stores i) plan pinned.snap (cur'.map (·.route)) =
          .ok (pinned.set i, pinned.counters i) := by
      rcases given with ⟨rfl, rfl, rfl⟩ | ⟨k, t, rfl, rfl, ⟨j, rfl, made⟩, asked⟩
      · refine ⟨none, rfl, ?_, pinned.first⟩
        simp [resolveSnapshot, pinned.current, Bind.bind, Except.bind, Pure.pure, Except.pure]
      · rw [length_rank] at asked
        exact ⟨some (pinned.body j k), rfl, pinned.resolves made asked, pinned.later j asked⟩
    obtain ⟨cur', rfl, resolved, ran⟩ := page
    have ranks : rank resultOrder (pinned.set i) = rank resultOrder scored :=
      (rank_eq_of_perm separates (pinned.same i).symm).symm
    have answer := rowsPage_eq projected resolved ran
    rw [ranks] at answer
    cases last : (pageOf resultKey (cur'.map (·.position)) plan.limit
        (rank resultOrder scored)).2 with
    | none =>
      simp only [last] at answer
      exact ⟨none, answer none rfl, rfl⟩
    | some row =>
      have mem : row ∈ scored := (mem_rank resultOrder).mp (mem_of_pageOf _ last)
      obtain ⟨t, encoded, decoded⟩ := decodeCursor_encodeCursor (pinned.json i row mem)
      simp only [last] at answer
      exact ⟨some t, answer (some t) ⟨t, rfl, encoded⟩, t, rfl, i, rfl, decoded⟩
  obtain ⟨pages, walked, tiled⟩ := tiles
  exact ⟨out, pages, projected, walked, tiled⟩

/-! ### The hits of a cluster -/

namespace Sharded

open Sharded.Cluster

/-- What `search_page` gives a client: the hits of a page and the token of the next. -/
def hitsPage (env : QueryEnv) (serde : CursorSerde ClusterCursor) (q : Query)
    (clusters : Nat → Cluster) (i : Nat) (token : Option String) :
    Result (List Hit × Option String) :=
  ((clusters i).searchPage env serde q token).map fun page => (page.1.hits, page.2)

/-- The same result set at every page that is asked for. The vector is pinned at the first page, and
its snapshots are still there at the others. -/
structure PinnedHits (env : QueryEnv) (serde : CursorSerde ClusterCursor) (q : Query)
    (clusters : Nat → Cluster) (hits : List Hit) where
  vector : List Snapshot
  result : Nat → SearchResult
  current : (clusters 0).pinVector = .ok vector
  kept : ∀ i, 0 < i → i * q.k < hits.length →
    (clusters i).loadVector (vector.map (·.snapshotId)) = .ok vector
  ran : ∀ i, i = 0 ∨ i * q.k < hits.length →
    (clusters i).searchAtVector env vector { q with k := max q.rerank q.k } = .ok (result i)
  same : ∀ i, (result i).hits.Perm hits
  filed : ∀ i, ∀ shard ∈ (clusters i).shards, shard.store.Filed
  json : ∀ h ∈ hits, serde.RoundTrips ⟨vector.map (·.snapshotId), hitKey h⟩

/-- The pages of a cluster tile the hits of its search. -/
theorem hits_tile {env : QueryEnv} {serde : CursorSerde ClusterCursor} {q : Query}
    {clusters : Nat → Cluster} {hits : List Hit} (positive : 0 < q.k)
    (pinned : PinnedHits env serde q clusters hits) (distinct : (hits.map hitKey).Nodup) :
    ∃ pages, Paging.Walk (hitsPage env serde q clusters) 0 none pages ∧
      pages.flatten = rank Engine.hitOrder hits := by
  have separates : Separates Engine.hitOrder hits := by
    show Separates (fun a b => Keyset.order (hitKey a) (hitKey b)) hits
    exact separates_of_nodup distinct
  have ranked : (rank Engine.hitOrder hits).Pairwise fun a b =>
      (Engine.hitOrder a b).isLE := rank_pairwise hits
  have sorted : (rank Engine.hitOrder hits).Pairwise fun a b =>
      (Keyset.order (hitKey a) (hitKey b)).isLE := ranked
  have distinct' : ((rank Engine.hitOrder hits).map hitKey).Nodup :=
    ((rank_perm Engine.hitOrder hits).map hitKey).nodup_iff.mpr distinct
  -- A search gives its hits in order, so every page cuts the same list.
  have same {i : Nat} (asked : i = 0 ∨ i * q.k < hits.length) :
      (pinned.result i).hits = rank Engine.hitOrder hits :=
    eq_rank_of_pairwise separates (pinned.same i)
      (searchAtVector_sorted (pinned.filed i) (pinned.ran i asked))
  let Token (i : Nat) (k : Keyset) (t : String) : Prop :=
    decodeCursor serde t = .ok ⟨pinned.vector.map (·.snapshotId), k⟩ ∧ 0 < i
  have tiles : ∃ pages, Paging.Walk (hitsPage env serde q clusters) 0 none pages ∧
      pages.flatten = (rank Engine.hitOrder hits).map id := by
    apply pages_tile hitKey sorted distinct' positive Token
    intro i token cur given
    have page : (i = 0 ∨ i * q.k < hits.length) ∧
        (clusters i).resolveVector serde token = .ok (pinned.vector, cur) := by
      rcases given with ⟨rfl, rfl, rfl⟩ | ⟨k, t, rfl, rfl, ⟨made, later⟩, asked⟩
      · refine ⟨.inl rfl, ?_⟩
        simp [resolveVector, pinned.current, Bind.bind, Except.bind, Pure.pure, Except.pure]
      · rw [length_rank] at asked
        refine ⟨.inr asked, ?_⟩
        simp [resolveVector, made, pinned.kept i later asked, Bind.bind, Except.bind, Pure.pure,
          Except.pure]
    obtain ⟨asked, resolved⟩ := page
    have ran := pinned.ran i asked
    cases last : (pageOf hitKey cur q.k (rank Engine.hitOrder hits)).2 with
    | none =>
      refine ⟨none, ?_, rfl⟩
      simp [hitsPage, searchPage, resolved, ran, same asked, last, Bind.bind, Except.bind, Pure.pure,
        Except.pure, Except.map]
    | some h =>
      have mem : h ∈ hits := (mem_rank Engine.hitOrder).mp (mem_of_pageOf _ last)
      obtain ⟨t, encoded, decoded⟩ := decodeCursor_encodeCursor (pinned.json h mem)
      refine ⟨some t, ?_, t, rfl, decoded, Nat.succ_pos i⟩
      simp [hitsPage, searchPage, resolved, ran, same asked, last, encoded, Bind.bind, Except.bind,
        Pure.pure, Except.pure, Except.map, Functor.map]
  simpa using tiles

end Sharded

/-! ### Both interfaces -/

/-- The pages tile the answer, for the rows of a plan and for the hits of a cluster. -/
theorem pagination_tiles :
    (∀ (engine : Engine) (env : Env) (plan : Plan) (stores : Nat → Store) (scored : List ScoredRow),
      plan.Bound → plan.isAggregate = false → 0 < plan.limit →
      PinnedRows engine env plan stores scored → (scored.map resultKey).Nodup →
      ∃ (out : ScoredRow → Row) (pages : List (List Row)), (∀ r, project plan r = .ok (out r)) ∧
        Paging.Walk (engine.rowsPage env plan stores) 0 none pages ∧
        pages.flatten = (Ranking.rank resultOrder scored).map out) ∧
    ∀ (env : QueryEnv) (serde : CursorSerde Sharded.ClusterCursor) (q : Query)
      (clusters : Nat → Sharded.Cluster) (hits : List Hit), 0 < q.k →
      Sharded.PinnedHits env serde q clusters hits → (hits.map Sharded.Cluster.hitKey).Nodup →
      ∃ pages, Paging.Walk (Sharded.hitsPage env serde q clusters) 0 none pages ∧
        pages.flatten = Ranking.rank Engine.hitOrder hits :=
  ⟨fun _ _ _ _ _ bound plain positive pinned distinct =>
      rows_tile bound plain positive pinned distinct,
    fun _ _ _ _ _ positive pinned distinct => Sharded.hits_tile positive pinned distinct⟩

section Witness

def tableCursors {β : Type} [DecidableEq β] (bodies : List β) : CursorSerde β where
  toVec body := if body ∈ bodies then .ok [UInt8.ofNat (bodies.idxOf body)] else .error "no JSON"
  fromSlice bytes :=
    match bytes with
    | [i] => (bodies[i.toNat]?).elim (.error "invalid value") .ok
    | _ => .error "trailing characters"

theorem tableCursors_roundTrips {β : Type} [DecidableEq β] {bodies : List β}
    (short : bodies.length ≤ 256) : ∀ body ∈ bodies, (tableCursors bodies).RoundTrips body := by
  intro body mem
  have bound := List.idxOf_lt_length_of_mem mem
  refine ⟨_, if_pos mem, ?_⟩
  have index : (UInt8.ofNat (bodies.idxOf body)).toNat = bodies.idxOf body := by
    simp
    omega
  simp [tableCursors, index, List.getElem?_idxOf mem]

def filedStore (rows : List RowIn) : Store :=
  match buildPart ⟨"g", "m", "v", 2, 1, 64⟩ ⟨none, [], {}, none, none⟩ 1 rows 1000 with
  | .ok part =>
    let id := part.manifest.partId
    let snap := { Snapshot.empty with snapshotId := 1, parts := [.legacy id] }
    ⟨some 1, (∅ : BTreeMap SnapshotId Snapshot).insert 1 snap,
      (∅ : BTreeMap String Generation).insert "g" ⟨"g", "m", "v", []⟩,
      (∅ : BTreeMap String Part).insert id part, ∅, false⟩
  | .error _ => Store.fresh

theorem filedStore_filed (rows : List RowIn) : (filedStore rows).Filed := by
  intro id part found
  unfold filedStore at found
  split at found
  · obtain ⟨rfl, rfl⟩ | found := OrderedMap.of_getElem?_insert found
    · rfl
    · simp at found
  · simp [Store.fresh] at found

def twoRows : Store := filedStore [sampleRow (sampleEvent "e1"), sampleRow (sampleEvent "e2")]

def twoRowsSnapshot : Snapshot :=
  { Snapshot.empty with snapshotId := 1, parts := [.legacy "p00000001-5a50dc97ae792ed6"] }

def pagedPlan : Plan := { selecting [.column "event_id"] [] with limit := 1 }

def pagedRows : List ScoredRow := [(sampleEvent "e1", F32.zero), (sampleEvent "e2", F32.zero)]

def pagedCounters : Counters :=
  { partsTotal := 1, partsOpened := 1, rowsPassingFilter := 2, rowsEligible := 2 }

def pagedEnv : Env :=
  { sampleSqlEnv with
    cursors := tableCursors (pagedRows.map fun r =>
      ⟨1, sampleSqlEnv.planFingerprint pagedPlan, resultKey r, pinnedRoute pagedCounters⟩) }

set_option maxRecDepth 100000

theorem twoRows_runs : Catalog.currentIn twoRows = .ok twoRowsSnapshot ∧
      Catalog.loadSnapshotIn twoRows 1 = .ok twoRowsSnapshot ∧
      sampleEngine.resultSet pagedEnv twoRows pagedPlan twoRowsSnapshot none =
        .ok (pagedRows, pagedCounters) ∧
      sampleEngine.resultSet pagedEnv twoRows pagedPlan twoRowsSnapshot
        (some (pinnedRoute pagedCounters)) = .ok (pagedRows, pagedCounters) := by
  decide +kernel

def pinnedRows : PinnedRows sampleEngine pagedEnv pagedPlan (fun _ => twoRows) pagedRows where
  snap := twoRowsSnapshot
  set _ := pagedRows
  counters _ := pagedCounters
  current := twoRows_runs.1
  kept _ _ _ := twoRows_runs.2.1
  first := twoRows_runs.2.2.1
  later _ _ := twoRows_runs.2.2.2
  same _ := List.Perm.refl _
  json _ r mem := by
    apply tableCursors_roundTrips (by decide)
    exact List.mem_map_of_mem (f := fun r : ScoredRow => (⟨1, sampleSqlEnv.planFingerprint pagedPlan,
      resultKey r, pinnedRoute pagedCounters⟩ : CursorBody)) mem

def twoShards : Sharded.Cluster where
  shards := [⟨sampleEngine, filedStore [sampleRow (sampleEvent "e1")]⟩,
    ⟨sampleEngine, filedStore [sampleRow (sampleEvent "e2")]⟩]
  scheme := sampleEngine.config.partitions

def twoShardsVector : List Snapshot := twoShards.pinVector.toOption.getD []

def pagedQuery : Query := { text := "q", k := 1 }

def pagedHits : List Hit := [⟨sampleEvent "e1", F32.one, 0⟩, ⟨sampleEvent "e2", F32.one, 0⟩]

def pagedSerde : CursorSerde Sharded.ClusterCursor :=
  tableCursors (pagedHits.map fun h =>
    ⟨twoShardsVector.map (·.snapshotId), Sharded.Cluster.hitKey h⟩)

theorem twoShards_runs : twoShards.pinVector = .ok twoShardsVector ∧
      twoShards.loadVector (twoShardsVector.map (·.snapshotId)) = .ok twoShardsVector ∧
      (twoShards.searchAtVector sampleEnv twoShardsVector
        { pagedQuery with k := max pagedQuery.rerank pagedQuery.k }).map (·.hits) = .ok pagedHits := by
  decide +kernel

theorem exists_pinnedHits :
    Nonempty (Sharded.PinnedHits sampleEnv pagedSerde pagedQuery (fun _ => twoShards) pagedHits) := by
  obtain ⟨current, kept, searched⟩ := twoShards_runs
  obtain ⟨r, ran, shown⟩ := map_eq_ok.mp searched
  refine ⟨twoShardsVector, fun _ => r, current, fun _ _ _ => kept, fun _ _ => ran,
    fun _ => .of_eq shown, ?_, ?_⟩
  · intro _ shard mem
    simp only [twoShards, List.mem_cons, List.not_mem_nil, or_false] at mem
    rcases mem with rfl | rfl
    · exact filedStore_filed _
    · exact filedStore_filed _
  · intro h mem
    apply tableCursors_roundTrips (by decide)
    exact List.mem_map_of_mem (f := fun h : Hit => (⟨twoShardsVector.map (·.snapshotId),
      Sharded.Cluster.hitKey h⟩ : Sharded.ClusterCursor)) mem

theorem pagination_tiles_twoRows :
    (∃ pages, Paging.Walk (sampleEngine.rowsPage pagedEnv pagedPlan fun _ => twoRows) 0 none pages ∧
      pages.flatten = [[("event_id", .string "e1")], [("event_id", .string "e2")]]) ∧
    ∃ pages, Paging.Walk (Sharded.hitsPage sampleEnv pagedSerde pagedQuery fun _ => twoShards) 0 none
        pages ∧
      pages.flatten = pagedHits := by
  constructor
  · have bound : pagedPlan.Bound := ⟨nofun, by decide, nofun⟩
    obtain ⟨out, pages, projected, walked, tiled⟩ := pagination_tiles.1 sampleEngine pagedEnv pagedPlan
      (fun _ => twoRows) pagedRows bound rfl (by decide) pinnedRows (by decide +kernel)
    refine ⟨pages, walked, tiled.trans ?_⟩
    have ranked : rank resultOrder pagedRows = pagedRows := by decide +kernel
    have first := projected (sampleEvent "e1", F32.zero)
    have second := projected (sampleEvent "e2", F32.zero)
    rw [show project pagedPlan (sampleEvent "e1", F32.zero) = .ok [("event_id", .string "e1")] by
      decide +kernel] at first
    rw [show project pagedPlan (sampleEvent "e2", F32.zero) = .ok [("event_id", .string "e2")] by
      decide +kernel] at second
    rw [ranked, pagedRows, List.map_cons, List.map_cons, List.map_nil, ← Except.ok.inj first,
      ← Except.ok.inj second]
  · obtain ⟨pinned⟩ := exists_pinnedHits
    obtain ⟨pages, walked, tiled⟩ := pagination_tiles.2 sampleEnv pagedSerde pagedQuery
      (fun _ => twoShards) pagedHits (by decide) pinned (by decide +kernel)
    exact ⟨pages, walked, tiled.trans (by decide +kernel)⟩

end Witness

end Prism
