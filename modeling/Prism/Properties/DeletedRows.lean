import Prism.Engine.Search
import Prism.Properties.MarkerSoundness

/-!
Which answers of a search show deleted rows. The tombstones of the snapshot are applied to the hits,
after the cut at `k`; the clusters are made of every survivor of the rerank, and the exact oracle
never looks at them.
-/

namespace Prism

open Fallible Ranking

def Event.Live (tombstones : List String) (e : Event) : Prop := e.eventId ∉ tombstones

/-- A summary over events that are not deleted, represented by one that is not. -/
def ClusterSummary.Live (fu : FloatUnit) (tombstones : List String) (c : ClusterSummary) : Prop :=
  c.exemplar.Live tombstones ∧
    ∃ members, c = .of fu c.clusterId members c.exemplar ∧ ∀ e ∈ members, e.Live tombstones

/-- No deleted row is in the answer. -/
structure SearchResult.Live (fu : FloatUnit) (tombstones : List String) (r : SearchResult) :
    Prop where
  hits : ∀ h ∈ r.hits, h.event.Live tombstones
  clusters : ∀ cs, r.clusters = some cs → ∀ c ∈ cs, c.Live fu tombstones

variable {c : ClusterSummary} {fu : FloatUnit} {tombstones : List String}

theorem ClusterSummary.Live.memberIds (live : c.Live fu tombstones) :
    ∀ id ∈ c.memberIds, id ∉ tombstones := by
  obtain ⟨-, members, eq, each⟩ := live
  intro id mem
  rw [eq] at mem
  simp only [ClusterSummary.of, mem_rank, List.mem_map] at mem
  obtain ⟨e, he, rfl⟩ := mem
  exact each e he

/-! ### Clusters -/

variable {m : Materialized} {members : List Scored}

theorem summarize_eq_none {cid : Nat} {centroid : Vector32}
    (ran : summarize fu m cid centroid members = .ok none) : members = [] := by
  cases members with
  | nil => rfl
  | cons first rest =>
    simp only [summarize, bind_eq_ok, pure_eq_ok] at ran
    obtain ⟨_, _, _, _, absurd⟩ := ran
    cases absurd

theorem summarize_eq_some {cid : Nat} {centroid : Vector32}
    (ran : summarize fu m cid centroid members = .ok (some c)) :
    ∃ events exemplar, members.mapM (survivorEvent m) = .ok events ∧
      (∃ s ∈ members, survivorEvent m s = .ok exemplar) ∧ c = .of fu cid events exemplar := by
  cases members with
  | nil => simp [summarize] at ran
  | cons first rest =>
    simp only [summarize, bind_eq_ok, pure_eq_ok, Option.some.injEq] at ran
    obtain ⟨events, read, exemplar, found, rfl⟩ := ran
    refine ⟨events, exemplar, read, ⟨_, ?_, found⟩, rfl⟩
    rw [List.getD_eq_getElem?_getD]
    cases at? : (first :: rest)[nearest (fun s => fu.l2Sq s.vector centroid) (first :: rest)]? with
    | none => exact List.mem_cons_self
    | some s => exact List.mem_of_getElem? at?

variable {scored : List Scored} {cs : List ClusterSummary}

/-- Every cluster is made of survivors. -/
theorem group_members {cb : Codebooks} {groupK : Nat} (ran : group fu cb scored m groupK = .ok cs)
    (mem : c ∈ cs) : ∃ (members : List Scored) (events : List Event) (exemplar : Event),
      (∀ s ∈ members, s ∈ scored) ∧ members.mapM (survivorEvent m) = .ok events ∧
      (∃ s ∈ members, survivorEvent m s = .ok exemplar) ∧
      c = .of fu c.clusterId events exemplar := by
  simp only [group, bind_eq_ok, pure_eq_ok] at ran
  obtain ⟨found, -, summaries, each, rfl⟩ := ran
  simp only [mem_rank, List.mem_filterMap, id_eq, exists_eq_right] at mem
  obtain ⟨⟨cid, centroid⟩, -, summarized⟩ := exists_of_mapM_eq_ok each mem
  obtain ⟨events, exemplar, read, chosen, rfl⟩ := summarize_eq_some summarized
  exact ⟨_, events, exemplar, fun s hs => List.mem_of_mem_filter hs, read, chosen, rfl⟩

variable {s : Scored}

/-- Every survivor is a member of a cluster. -/
theorem group_covers {cb : Codebooks} {groupK : Nat} (ran : group fu cb scored m groupK = .ok cs)
    (positive : 0 < groupK) (mem : s ∈ scored) :
    ∃ c ∈ cs, ∃ e, survivorEvent m s = .ok e ∧ e.eventId ∈ c.memberIds := by
  simp only [group, bind_eq_ok, pure_eq_ok] at ran
  obtain ⟨found, -, summaries, each, rfl⟩ := ran
  let k := min groupK scored.length
  let centroids := (List.range k).map (found.getD · [])
  let cid := nearest (fu.l2Sq s.vector) centroids
  have some : 0 < k := lt_min positive (List.length_pos_of_mem mem)
  have inside : cid < k := by
    have length : centroids.length = k := by simp [centroids]
    exact length ▸ nearest_lt (fu.l2Sq s.vector) (length ▸ some)
  -- The cluster of `s` has a member, so it is not left out.
  have paired : (cid, found.getD cid []) ∈ (List.range k).zip centroids := by
    apply List.mem_iff_getElem.mpr
    refine ⟨cid, by simpa [centroids] using inside, ?_⟩
    simp [centroids]
  obtain ⟨summary, listed, summarized⟩ :=
    exists_of_mem_of_mapM_eq_ok each paired
  have own : s ∈ scored.filter fun t => nearest (fu.l2Sq t.vector) centroids = cid := by
    simp [mem, cid]
  cases summary with
  | none =>
    rw [summarize_eq_none summarized] at own
    cases own
  | some c =>
    obtain ⟨events, exemplar, read, -, rfl⟩ := summarize_eq_some summarized
    obtain ⟨e, he, found⟩ := exists_of_mem_of_mapM_eq_ok read own
    refine ⟨.of fu cid events exemplar, ?_, e, found, ?_⟩
    · simpa using listed
    · simp only [ClusterSummary.of, mem_rank, List.mem_map]
      exact ⟨e, he, rfl⟩

/-! ### The end of a search -/

def SurvivorsLive (tombstones : List String) (q : Query) (scored : List Scored)
    (materialize : List RowPos → Result Materialized) : Prop :=
  ∀ m, materialize (rowSet ((survivors q scored).map (·.pos))) = .ok m →
    ∀ s ∈ survivors q scored, ∀ e, survivorEvent m s = .ok e → e.Live tombstones

theorem hitOf_eq_ok {h : Hit} :
    hitOf m s = .ok h ↔ ∃ v, m[s.pos]? = some v ∧ h = ⟨v.1, s.score, v.2⟩ := by
  unfold hitOf
  split
  next event centroid found => simp [found, eq_comm]
  next missing => simp [missing]

theorem mem_of_mem_survivors {q : Query} (mem : s ∈ survivors q scored) : s ∈ scored := by
  unfold survivors at mem
  split at mem
  · exact (mem_rank _).mp (List.mem_filter.mp mem).1
  · exact (mem_rank _).mp mem

section Finalize

variable {materialize : List RowPos → Result Materialized} {genIds : List String}
  {env : QueryEnv} {r : SearchResult} {snapshotId : String} {q : Query} {c : Counters}

variable (returned : finalize env tombstones snapshotId q scored genIds c materialize = .ok r)
include returned

/-- What an answer of `finalize` is made of. -/
theorem finalize_eq_ok : ∃ m hits, materialize (rowSet (((survivors q scored).take
        (if q.groupK.isSome then (survivors q scored).length else q.k)).map (·.pos))) = .ok m ∧
      ((survivors q scored).take q.k).mapM (hitOf m) = .ok hits ∧
      r.hits = hits.filter (!tombstones.contains ·.event.eventId) ∧
      ((r.clusters = none ∧ (q.groupK.getD 0 = 0 ∨ survivors q scored = [])) ∨
        ∃ groupK cs, q.groupK = some groupK ∧ 0 < groupK ∧ r.clusters = some cs ∧
          group env.floats env.codebooks (survivors q scored) m groupK = .ok cs) := by
  simp only [finalize, bind_eq_ok] at returned
  obtain ⟨m, materialized, hits, read, rest⟩ := returned
  refine ⟨m, hits, materialized, read, ?_⟩
  cases asked : q.groupK with
  | none =>
    simp only [asked, bind_eq_ok, pure_eq_ok, Except.ok.injEq] at rest
    obtain ⟨_, rfl, rfl⟩ := rest
    exact ⟨rfl, .inl ⟨rfl, .inl rfl⟩⟩
  | some groupK =>
    simp only [asked] at rest
    split at rest
    · rename_i some
      simp only [bind_eq_ok, map_eq_ok, pure_eq_ok] at rest
      obtain ⟨_, ⟨cs, made, rfl⟩, rfl⟩ := rest
      exact ⟨rfl, .inr ⟨groupK, cs, rfl, some.1, rfl, made⟩⟩
    · rename_i none
      simp only [bind_eq_ok, pure_eq_ok, Except.ok.injEq] at rest
      obtain ⟨_, rfl, rfl⟩ := rest
      rw [not_and_or, not_not, gt_iff_lt, Nat.pos_iff_ne_zero, not_not] at none
      exact ⟨rfl, .inl ⟨rfl, none⟩⟩

theorem finalize_hits_live : ∀ h ∈ r.hits, h.event.Live tombstones := by
  obtain ⟨_, hits, -, -, shown, -⟩ := finalize_eq_ok returned
  intro h mem
  rw [shown, List.mem_filter] at mem
  simpa [Event.Live] using mem.2

/-- A plain answer shows no deleted row; a grouped one does unless no survivor is deleted. -/
theorem finalize_live : r.Live env.floats tombstones ↔
      q.groupK.getD 0 = 0 ∨ SurvivorsLive tombstones q scored materialize := by
  have hits := finalize_hits_live returned
  obtain ⟨m, _, materialized, -, -, grouped⟩ := finalize_eq_ok returned
  cases grouped with
  | inl plain =>
    obtain ⟨none, reason⟩ := plain
    constructor
    · intro _
      cases reason with
      | inl ungrouped => exact .inl ungrouped
      | inr empty => exact .inr fun m _ s mem => absurd (empty ▸ mem) List.not_mem_nil
    · intro _
      exact ⟨hits, fun cs some => absurd (none ▸ some) nofun⟩
  | inr grouped =>
    obtain ⟨groupK, cs, asked, positive, shown, made⟩ := grouped
    -- A grouped query materializes all its survivors.
    simp only [asked, Option.isSome_some, if_true, List.take_length] at materialized
    constructor
    · intro live
      apply Or.inr
      intro m' again s mem e read
      obtain rfl := ok_unique materialized again
      obtain ⟨cluster, inside, e', read', counted⟩ := group_covers made positive mem
      obtain rfl := ok_unique read read'
      exact (live.clusters cs shown cluster inside).memberIds _ counted
    · intro condition
      have all : SurvivorsLive tombstones q scored materialize := by
        apply condition.resolve_left
        rw [asked, Option.getD_some]
        exact positive.ne'
      constructor
      · exact hits
      · intro cs' shown' cluster inside
        obtain rfl := Option.mem_unique shown shown'
        obtain ⟨members, events, exemplar, from', read, ⟨s, hs, chosen⟩, eq⟩ :=
          group_members made inside
        have represented : cluster.exemplar = exemplar := by rw [eq]; rfl
        rw [ClusterSummary.Live, represented]
        refine ⟨all m materialized s (from' s hs) exemplar chosen, events, eq, ?_⟩
        intro e he
        obtain ⟨t, ht, found⟩ := exists_of_mapM_eq_ok read he
        exact all m materialized t (from' t ht) e found

end Finalize

/-! ### A search of a snapshot -/

namespace Engine

/-- The rows a search reranks, with their exact scores, and the parts they are in. A query that no
part matches has none, and neither has one across two spaces: it is answered by other searches. -/
def reranked (engine : Engine) (env : QueryEnv) (store : Store) (snap : Snapshot) (q : Query) :
    Result (List PartReader × List Scored) := do
  let dim := engine.config.dim
  match ← engine.candidatePhase env store (fun _ _ => .ok ⟨[], none, {}, [], none, [], ""⟩) snap q with
  | .done _ => return ([], [])
  | .rerank set =>
    let (scored, _) ← rerankScores env dim q set.eligible set.ctxs
      (boundCandidates dim q set.candidates).1 set.counters
    return (set.eligible, scored)

def countersBefore (snap : Snapshot) (inTime eligible : List PartReader) (pruned : Nat) :
    Counters := {
  partsTotal := snap.parts.length
  partsPruned := pruned + (inTime.length - eligible.length)
  rowsEligible := (eligible.map (·.manifest.rowCount)).sum }

variable {engine : Engine} {q : Query} {env : QueryEnv} {snap : Snapshot} {store : Store}

/-- The candidate phase answers itself, through the bridge or with nothing, or hands over. -/
theorem candidatePhase_eq_ok {bridged : List String → Bridge → Result SearchResult}
    {phase : CandidatePhase} : engine.candidatePhase env store bridged snap q = .ok phase ↔
      ∃ inTime pruned, engine.eligibleParts store snap q = .ok (inTime, pruned) ∧
        ((∃ spaces bridge r, chooseSpace snap q inTime = .ok (.bridged spaces bridge) ∧
            bridged spaces bridge = .ok r ∧ .done r = phase) ∨
          (chooseSpace snap q inTime = .ok (.within []) ∧
            .done ⟨[], none, countersBefore snap inTime [] pruned, [], none, [],
                snapshotName snap.snapshotId⟩ =
              phase) ∨
          ∃ eligible set, chooseSpace snap q inTime = .ok (.within eligible) ∧ eligible ≠ [] ∧
            engine.scanEligible env store q eligible
              (countersBefore snap inTime eligible pruned) = .ok set ∧ .rerank set = phase) := by
  simp only [candidatePhase, bind_eq_ok, Prod.exists]
  refine exists_congr fun inTime => exists_congr fun pruned => and_congr_right fun _ => ?_
  cases chooseSpace snap q inTime with
  | error e => simp
  | ok choice =>
    cases choice with
    | bridged spaces bridge => simp [map_eq_ok]
    | within eligible =>
      cases eligible with
      | nil => simp [countersBefore]
      | cons r rest => simp [map_eq_ok, countersBefore]

/-- The counters do not steer the rerank. -/
theorem rerankScores_counters {dim : Nat} {eligible : List PartReader} {ctxs : SpaceContexts}
    {candidates : List Candidate} {c c' : Counters}
    (returned : rerankScores env dim q eligible ctxs candidates c = .ok (scored, c'))
    (other : Counters) :
    ∃ c'', rerankScores env dim q eligible ctxs candidates other = .ok (scored, c'') := by
  simp only [rerankScores, bind_eq_ok, pure_eq_ok, Prod.mk.injEq] at returned ⊢
  obtain ⟨fetched, read, eq, -⟩ := returned
  exact ⟨_, fetched, read, eq, rfl⟩

variable {r : SearchResult}

/-- A search answers through the bridge, with nothing, or with what `finalize` makes of the rows it
reranked. -/
theorem searchWith_eq_ok {bridged : Snapshot → Query → List String → Bridge → Result SearchResult}
    (returned : engine.searchWith env store bridged snap q = .ok r) :
    (engine.reranked env store snap q = .ok ([], []) ∧
      ((∃ spaces bridge, bridged snap q spaces bridge = .ok r) ∨
        (r.hits = [] ∧ r.clusters = none))) ∨
    ∃ eligible scored genIds c, engine.reranked env store snap q = .ok (eligible, scored) ∧
      finalize env snap.tombstones (snapshotName snap.snapshotId) q scored genIds c
        (materialize eligible) = .ok r := by
  simp only [searchWith, bind_eq_ok, candidatePhase_eq_ok] at returned
  obtain ⟨phase, ⟨inTime, pruned, opened, answer⟩, rest⟩ := returned
  simp only [reranked, bind_eq_ok, candidatePhase_eq_ok]
  rcases answer with ⟨spaces, bridge, r', chosen, answered, rfl⟩ | ⟨chosen, rfl⟩ |
    ⟨eligible, set, chosen, some, scanned, rfl⟩
  · obtain rfl := pure_eq_ok.mp rest
    exact .inl ⟨⟨_, ⟨inTime, pruned, opened, .inl ⟨spaces, bridge, _, chosen, rfl, rfl⟩⟩, rfl⟩,
      .inl ⟨spaces, bridge, answered⟩⟩
  · obtain rfl := pure_eq_ok.mp rest
    exact .inl ⟨⟨_, ⟨inTime, pruned, opened, .inr (.inl ⟨chosen, rfl⟩)⟩, rfl⟩, .inr ⟨rfl, rfl⟩⟩
  · simp only [rerankPhase, bind_eq_ok] at rest
    obtain ⟨⟨scored, c⟩, reranked, final⟩ := rest
    obtain ⟨c', again⟩ := rerankScores_counters reranked set.counters
    refine .inr ⟨set.eligible, scored, set.genIds, c, ⟨_, ⟨inTime, pruned, opened,
      .inr (.inr ⟨eligible, set, chosen, some, scanned, rfl⟩)⟩, ?_⟩, final⟩
    simp only [bind_eq_ok]
    exact ⟨_, again, rfl⟩

/-! ### Fusion -/

def FusedRows (P : Event → Prop) (rows : BTreeMap String (F32 × Hit)) : Prop :=
  ∀ (id : String) (row : F32 × Hit), rows[id]? = some row → P row.2.event

variable {P : Event → Prop}

theorem fuseHit_keeps {rows : BTreeMap String (F32 × Hit)} {item : Nat × Hit}
    (before : FusedRows P rows) (hit : P item.2.event) : FusedRows P (fuseHit fu rows item) := by
  intro id row found
  obtain ⟨-, rfl⟩ | found := OrderedMap.of_getElem?_insert found
  · -- The hit of an event is the first one found of it.
    cases first : rows[item.2.event.eventId]? with
    | none => simpa [first] using hit
    | some row => simpa [first] using before _ row first
  · exact before id row found

theorem add_keeps {f : Fused} (before : FusedRows P f.rows) (hits : ∀ h ∈ r.hits, P h.event) :
    FusedRows P (Fused.add fu f r).rows := by
  have each : ∀ item ∈ (List.range r.hits.length).zip r.hits, P item.2.event := by
    intro item mem
    exact hits item.2 (List.of_mem_zip mem).2
  simp only [Fused.add]
  generalize f.rows = rows at before
  generalize (List.range r.hits.length).zip r.hits = items at each
  induction items generalizing rows with
  | nil => exact before
  | cons item items ih =>
    obtain ⟨first, later⟩ := List.forall_mem_cons.mp each
    exact ih _ (fuseHit_keeps before first) later

/-- A fused hit is a hit of one of the answers. -/
theorem searchBridged_hits {search : Snapshot → Query → Result SearchResult} {spaces : List String}
    {bridge : Bridge} (within : ∀ q' r', search snap q' = .ok r' → ∀ h ∈ r'.hits, P h.event)
    (returned : searchBridged fu search snap q spaces bridge = .ok r) :
    (∀ h ∈ r.hits, P h.event) ∧ r.clusters = none := by
  simp only [searchBridged, bind_eq_ok, pure_eq_ok] at returned
  obtain ⟨fused, looped, rfl⟩ := returned
  have held : FusedRows P fused.rows := by
    apply foldlM_keeps (I := fun f : Fused => FusedRows P f.rows) _ _ looped
    · intro f space _ f' before step
      obtain ⟨r', answered, rfl⟩ := bind_pure_eq_ok.mp step
      exact add_keeps before (within _ r' answered)
    · intro id row found
      simp at found
  refine ⟨?_, rfl⟩
  intro h mem
  simp only [List.mem_map] at mem
  obtain ⟨row, kept, rfl⟩ := mem
  have ranked := (mem_rank fusedOrder).mp (List.mem_of_mem_take kept)
  obtain ⟨⟨id, row⟩, listed, rfl⟩ := List.mem_map.mp ranked
  exact held id row (Std.ExtTreeMap.mem_toList_iff_getElem?_eq_some.mp listed)

/-- The hits of a search are never deleted rows. -/
theorem searchAt_hits_live (returned : engine.searchAt env store snap q = .ok r) :
    ∀ h ∈ r.hits, h.event.Live snap.tombstones := by
  -- In a space no query is bridged, so its hits are those of `finalize`.
  have within (q' : Query) (r' : SearchResult)
      (answered : engine.searchInSpace env store snap q' = .ok r') :
      ∀ h ∈ r'.hits, h.event.Live snap.tombstones := by
    rcases searchWith_eq_ok answered with ⟨-, ⟨_, _, bridged⟩ | ⟨none, -⟩⟩ | ⟨_, _, _, _, -, final⟩
    · cases bridged
    · simp [none]
    · exact finalize_hits_live final
  rcases searchWith_eq_ok returned with ⟨-, ⟨_, _, bridged⟩ | ⟨none, -⟩⟩ | ⟨_, _, _, _, -, final⟩
  · exact (searchBridged_hits within bridged).1
  · simp [none]
  · exact finalize_hits_live final

/-- A search shows no deleted row exactly when it does not group, or reranks none of them. -/
theorem searchAt_live (returned : engine.searchAt env store snap q = .ok r) :
    r.Live env.floats snap.tombstones ↔
      q.groupK.getD 0 = 0 ∨ ∀ eligible scored,
        engine.reranked env store snap q = .ok (eligible, scored) →
          SurvivorsLive snap.tombstones q scored (materialize eligible) := by
  have hits := searchAt_hits_live returned
  have plain (none : r.clusters = none)
      (nothing : engine.reranked env store snap q = .ok ([], [])) :
      r.Live env.floats snap.tombstones ↔
        q.groupK.getD 0 = 0 ∨ ∀ eligible scored,
          engine.reranked env store snap q = .ok (eligible, scored) →
            SurvivorsLive snap.tombstones q scored (materialize eligible) := by
    have nobody : survivors q [] = [] := by
      unfold survivors
      cases q.threshold <;> rfl
    constructor
    · intro _
      apply Or.inr
      intro eligible scored same
      obtain ⟨rfl, rfl⟩ := Prod.mk.inj (ok_unique nothing same)
      intro m _ s mem
      exact absurd (nobody ▸ mem) List.not_mem_nil
    · intro _
      exact ⟨hits, fun cs some => absurd (none ▸ some) nofun⟩
  rcases searchWith_eq_ok returned with ⟨nothing, ⟨_, _, bridged⟩ | ⟨-, none⟩⟩ |
    ⟨eligible, scored, genIds, c, same, final⟩
  · exact plain (searchBridged_hits (P := fun _ => True) (fun _ _ _ _ _ => trivial) bridged).2
      nothing
  · exact plain none nothing
  · rw [finalize_live final]
    apply or_congr_right
    constructor
    · intro live eligible' scored' same'
      obtain ⟨rfl, rfl⟩ := Prod.mk.inj (ok_unique same same')
      exact live
    · intro live
      exact live eligible scored same

/-! ### The exact oracle -/

/-- The rows of a snapshot that match a query, as the oracle scores them. -/
def exactRows (engine : Engine) (env : QueryEnv) (store : Store) (snap : Snapshot) (q : Query) :
    Result (List Hit) := do
  let tokenizer ← engine.tenantTokenizer
  let readers ← snap.partIds.mapM (engine.openReader store)
  let all ← readers.mapM (engine.exactPart env store tokenizer q)
  return all.flatten

theorem exactSearchAt_eq_ok {hits : List Hit} : engine.exactSearchAt env store snap q = .ok hits ↔
      ∃ rows, engine.exactRows env store snap q = .ok rows ∧
        (rank hitOrder rows).take q.k = hits := by
  simp only [exactSearchAt, exactRows, bind_eq_ok, pure_eq_ok]
  constructor
  · rintro ⟨tokenizer, keyed, readers, opened, all, read, rfl⟩
    exact ⟨_, ⟨tokenizer, keyed, readers, opened, all, read, rfl⟩, rfl⟩
  · rintro ⟨_, ⟨tokenizer, keyed, readers, opened, all, read, rfl⟩, rfl⟩
    exact ⟨tokenizer, keyed, readers, opened, all, read, rfl⟩

/-- How many of the rows are strictly ahead of one in the order of the answer. -/
def ahead (rows : List Hit) (h : Hit) : Nat := (rows.filter fun b => hitOrder b h = .lt).length

/-- The oracle leaves a deleted row out only where `k` matching rows are ahead of it. -/
theorem exactSearchAt_live {rows : List Hit}
    (matching : engine.exactRows env store snap q = .ok rows) {hits : List Hit}
    (returned : engine.exactSearchAt env store snap q = .ok hits) :
    (∀ h ∈ hits, h.event.Live snap.tombstones) ↔
      ∀ h ∈ rows, h.event.eventId ∈ snap.tombstones → q.k ≤ ahead rows h := by
  obtain ⟨rows', matching', rfl⟩ := exactSearchAt_eq_ok.mp returned
  obtain rfl := ok_unique matching matching'
  have respects : ∀ a ∈ rows, ∀ b ∈ rows, hitOrder a b = .eq →
      a.event.Live snap.tombstones → b.event.Live snap.tombstones := by
    intro a _ b _ tied live
    have same : a.event.eventId = b.event.eventId :=
      Std.LawfulEqOrd.eq_of_compare (Ordering.then_eq_eq.mp tied).2
    simpa only [Event.Live, same] using live
  rw [forall_take_rank_iff respects]
  simp only [Event.Live, not_not, ahead]

end Engine

/-- Where the answers over a snapshot show no deleted row. The end of a search and the whole search
show one exactly when they group and one of the survivors is deleted; the oracle shows one
exactly when fewer than `k` matching rows are ahead of it. -/
theorem answers_live_iff (engine : Engine) (env : QueryEnv) (store : Store) (snap : Snapshot)
    (q : Query) :
    (∀ scored genIds c materialize r,
      finalize env snap.tombstones (snapshotName snap.snapshotId) q scored genIds c materialize =
        .ok r →
      (r.Live env.floats snap.tombstones ↔
        q.groupK.getD 0 = 0 ∨ SurvivorsLive snap.tombstones q scored materialize)) ∧
    (∀ r, engine.searchAt env store snap q = .ok r →
      (r.Live env.floats snap.tombstones ↔
        q.groupK.getD 0 = 0 ∨ ∀ eligible scored,
          engine.reranked env store snap q = .ok (eligible, scored) →
            SurvivorsLive snap.tombstones q scored (materialize eligible))) ∧
    ∀ rows hits, engine.exactRows env store snap q = .ok rows →
      engine.exactSearchAt env store snap q = .ok hits →
      ((∀ h ∈ hits, h.event.Live snap.tombstones) ↔
        ∀ h ∈ rows, h.event.eventId ∈ snap.tombstones → q.k ≤ Engine.ahead rows h) := by
  refine ⟨?_, ?_, ?_⟩
  · intro scored genIds c materialize r returned
    exact finalize_live returned
  · intro r returned
    exact Engine.searchAt_live returned
  · intro rows hits matching returned
    exact Engine.exactSearchAt_live matching returned

/-- The operations on the numbers `0` and `1`, as far as the sample queries need them. -/
def sampleFloats : FloatUnit where
  add32 a b := if a = F32.zero then b else if b = F32.zero then a else F32.two
  sub32 a b := if a = b then F32.zero else a
  mul32 a b := if a = F32.one then b else if b = F32.one then a else F32.zero
  div32 a _ := a
  ofNat32 n := if n = 0 then F32.zero else F32.one
  div64 a _ := a
  sum64 _ := ⟨0⟩
  display32 _ := "1"

def sampleCodebooks : Codebooks where
  centroids _ := [[0, 0]]
  pqDim _ := 2
  pqM _ := 1
  codeword _ _ _ := [0, 0]
  kmeans points _ := .ok points

def sampleEnv : QueryEnv where
  floats := sampleFloats
  codebooks := sampleCodebooks
  costs := ⟨fun _ _ => ⟨0⟩, fun _ _ _ => .interleaved⟩
  embedQuery _ _ _ := .ok [F32.one.bits, 0]
  deviceAdmits _ _ := true

/-- A grouped query with one survivor, the row of `e1`. -/
def groupOne (tombstones : List String) : Result SearchResult :=
  finalize sampleEnv tombstones (snapshotName 1) { text := "q", groupK := some 1 }
    [⟨F32.one, ⟨0, 0⟩, [F32.one.bits, 0], "e1"⟩] ["g"] {}
    fun _ => .ok ((∅ : Materialized).insert ⟨0, 0⟩ (sampleEvent "e1", 0))

private theorem groupOne_members (tombstones : List String) :
    ∃ r cluster, groupOne tombstones = .ok r ∧ r.clusters = some [cluster] ∧
      cluster.memberIds = ["e1"] := by
  refine ⟨_, _, rfl, rfl, ?_⟩
  decide +kernel

/-- The row of `e1` is deleted, and the answer counts it in a cluster. -/
theorem finalize_shows_deleted_row :
    ∃ r cluster, groupOne ["e1"] = .ok r ∧ r.clusters = some [cluster] ∧ "e1" ∈ cluster.memberIds ∧
      ¬ r.Live sampleEnv.floats ["e1"] := by
  obtain ⟨r, cluster, returned, shown, members⟩ := groupOne_members ["e1"]
  have counted : "e1" ∈ cluster.memberIds := members ▸ List.mem_cons_self
  refine ⟨r, cluster, returned, shown, counted, ?_⟩
  intro live
  exact (live.clusters _ shown cluster List.mem_cons_self).memberIds "e1" counted
    List.mem_cons_self

/-- With another row deleted, the same answer is one without deleted rows. -/
theorem answers_live_iff_groupOne :
    ∃ r, groupOne ["e2"] = .ok r ∧ r.Live sampleEnv.floats ["e2"] := by
  obtain ⟨r, _, returned, -, -⟩ := groupOne_members ["e2"]
  refine ⟨r, returned, ?_⟩
  apply ((answers_live_iff sampleEngine sampleEnv Store.fresh
    { Snapshot.empty with snapshotId := 1, tombstones := ["e2"] }
    { text := "q", groupK := some 1 }).1 _ _ _ _ r returned).mpr
  apply Or.inr
  intro m materialized s mem e read
  cases materialized
  obtain rfl := List.mem_singleton.mp mem
  obtain rfl : sampleEvent "e1" = e := Except.ok.inj read
  show "e1" ∉ ["e2"]
  decide

end Prism
