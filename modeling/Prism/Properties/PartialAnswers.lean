import Prism.Properties.ShardRows

/-!
A best-effort answer against the answer of the reachable shards alone. A shard that fails after the
first round has taken places in the bounded global set, and its snapshot has brought tombstones; the
two answers agree exactly when neither shows among the first `k` rows.
-/

namespace Prism

open Ranking

open Engine (hitOrder)

/-! ### The first rows with and without some of them -/

section Backfill

variable {q : Query} {kept cut : List Hit}

theorem topHits_sublist (rows : List Hit) : (topHits q rows).Sublist (rank hitOrder rows) := by
  apply (List.take_sublist _ _).trans
  unfold atThreshold
  split
  · exact List.filter_sublist
  · exact List.Sublist.refl _

theorem mem_of_mem_topHits {rows : List Hit} {h : Hit} (mem : h ∈ topHits q rows) : h ∈ rows :=
  (mem_rank _).mp ((topHits_sublist rows).subset mem)

theorem mem_take_filter {l : List α} {p : α → Bool} {x : α} {k : Nat} (mem : x ∈ l.take k)
    (holds : p x) : x ∈ (l.filter p).take k := by
  have split : l.filter p = (l.take k).filter p ++ (l.drop k).filter p := by
    rw [← List.filter_append, List.take_append_drop]
  have short : ((l.take k).filter p).length ≤ k :=
    (List.length_filter_le _ _).trans (List.length_take_le _ _)
  rw [split, List.take_append, List.take_of_length_le short]
  exact List.mem_append_left _ (List.mem_filter.mpr ⟨mem, holds⟩)

theorem atThreshold_filter (rows : List Hit) (p : Hit → Bool) :
    atThreshold q (rows.filter p) = (atThreshold q rows).filter p := by
  unfold atThreshold
  split
  · exact List.filter_comm _ _ _
  · rfl

/-- A row among the first `k` is among the first `k` of fewer rows. -/
theorem mem_topHits_of_append [DecidableEq Hit] {h : Hit}
    (distinct : ((kept ++ cut).map (·.event.eventId)).Nodup)
    (mem : h ∈ topHits q (kept ++ cut)) (own : h ∈ kept) : h ∈ topHits q kept := by
  have only : (kept ++ cut).filter (· ∈ kept) = kept := by
    have apart : cut.filter (· ∈ kept) = [] := by
      apply List.filter_eq_nil_iff.mpr
      intro x inside
      rw [List.map_append, List.nodup_append] at distinct
      rw [decide_eq_true_eq]
      intro both
      exact distinct.2.2 _ (List.mem_map_of_mem both) _ (List.mem_map_of_mem inside) rfl
    rw [List.filter_append, apart, List.append_nil, List.filter_eq_self.mpr (by simp)]
  have fewer : atThreshold q (rank hitOrder kept) =
      (atThreshold q (rank hitOrder (kept ++ cut))).filter (· ∈ kept) := by
    rw [← atThreshold_filter, ← rank_filter, only]
  rw [topHits, fewer]
  exact mem_take_filter mem (decide_eq_true own)

/-- Parts of two ranked lists are equal if they have the same rows. -/
theorem filter_topHits_eq_iff {rows rows' : List Hit} {p p' : Hit → Bool}
    (distinct : (rows.map (·.event.eventId)).Nodup) (sub : ∀ h ∈ rows', h ∈ rows)
    (nodup : rows'.Nodup) : (topHits q rows').filter p' = (topHits q rows).filter p ↔
      ∀ h, h ∈ topHits q rows' ∧ p' h ↔ h ∈ topHits q rows ∧ p h := by
  have ranked (l : List Hit) : (topHits q l).Pairwise fun a b => (hitOrder a b).isLE :=
    (rank_pairwise l).sublist (topHits_sublist l)
  have once {l : List Hit} (nodup : l.Nodup) : (topHits q l).Nodup :=
    ((rank_perm hitOrder l).nodup_iff.mpr nodup).sublist (topHits_sublist l)
  have separates := Coordinator.separates_hitOrder distinct
  constructor
  · intro same h
    rw [← List.mem_filter, ← List.mem_filter, same]
  · intro members
    have perm : ((topHits q rows').filter p').Perm ((topHits q rows).filter p) := by
      apply (List.perm_ext_iff_of_nodup ((once nodup).filter _)
        ((once distinct.of_map).filter _)).mpr
      intro h
      rw [List.mem_filter, List.mem_filter]
      exact members h
    apply List.Perm.eq_of_pairwise _ ((ranked rows').filter _) ((ranked rows).filter _) perm
    intro a b ha hb le ge
    apply separates a _ b _ (eq_of_isLE_of_isLE le ge)
    · exact sub a (mem_of_mem_topHits (List.mem_of_mem_filter ha))
    · exact mem_of_mem_topHits (List.mem_of_mem_filter hb)

def deletedBy (tombstones : List String) (h : Hit) : Prop := h.event.eventId ∈ tombstones

/-- Rows that were cut, and deletions that are not seen without the missing shards, do not show: of
the first `k` rows, each one that was cut is deleted anyway and none is deleted by `all` only; and a
row that moves up for a deleted one is itself deleted. -/
structure Backfills (q : Query) (all reachable : List String) (kept cut : List Hit) : Prop where
  cutDeleted : ∀ h ∈ topHits q (kept ++ cut), h ∈ cut → deletedBy reachable h
  seenDeleted : ∀ h ∈ topHits q (kept ++ cut), deletedBy all h → deletedBy reachable h
  movedDeleted : ∀ h ∈ topHits q kept, h ∉ topHits q (kept ++ cut) → deletedBy all h

/-- No reachable row was cut, and the missing shards delete none of the rows. -/
theorem Backfills.of_nothing_cut {all reachable : List String}
    (seen : ∀ h ∈ kept, deletedBy all h → deletedBy reachable h) :
    Backfills q all reachable kept [] := by
  rw [← List.append_nil kept] at seen
  constructor
  · intro h _ inside
    cases inside
  · intro h top
    exact seen h (mem_of_mem_topHits top)
  · intro h top moved
    rw [List.append_nil] at moved
    exact absurd top moved

theorem shownHits_eq_iff {all reachable : List String}
    (distinct : ((kept ++ cut).map (·.event.eventId)).Nodup) (sub : ∀ t ∈ reachable, t ∈ all) :
    shownHits q all kept = shownHits q reachable (kept ++ cut) ↔
      Backfills q all reachable kept cut := by
  have apart : ∀ h ∈ cut, h ∉ kept := by
    intro h inside both
    rw [List.map_append, List.nodup_append] at distinct
    exact distinct.2.2 _ (List.mem_map_of_mem both) _ (List.mem_map_of_mem inside) rfl
  have nodup : kept.Nodup := by
    rw [List.map_append, List.nodup_append] at distinct
    exact distinct.1.of_map
  have live (tombstones : List String) (h : Hit) :
      (!tombstones.contains h.event.eventId) = true ↔ ¬ deletedBy tombstones h := by
    simp [deletedBy]
  unfold shownHits
  rw [filter_topHits_eq_iff distinct (fun h => List.mem_append_left cut) nodup]
  simp only [live]
  constructor
  · intro members
    refine ⟨?_, ?_, ?_⟩
    · intro h top inside
      by_contra alive
      exact apart h inside (mem_of_mem_topHits ((members h).mpr ⟨top, alive⟩).1)
    · intro h top deleted
      by_contra alive
      exact ((members h).mpr ⟨top, alive⟩).2 deleted
    · intro h top moved
      by_contra alive
      exact moved ((members h).mp ⟨top, alive⟩).1
  · intro fills h
    constructor
    · rintro ⟨top, alive⟩
      refine ⟨?_, fun deleted => alive (sub _ deleted)⟩
      by_contra moved
      exact alive (fills.movedDeleted h top moved)
    · rintro ⟨top, alive⟩
      have own : h ∈ kept := by
        rcases List.mem_append.mp (mem_of_mem_topHits top) with own | cut
        · exact own
        · exact absurd (fills.cutDeleted h top cut) alive
      exact ⟨mem_topHits_of_append distinct top own, fun deleted => alive (fills.seenDeleted h top deleted)⟩

end Backfill

/-! ### The reachable shards -/

namespace Coordinator

def reachable (gone : List Nat) (xs : List α) : List α :=
  (((List.range xs.length).zip xs).filter (·.1 ∉ gone)).map Prod.snd

def indexAmong (gone : List Nat) (n j : Nat) : Nat := ((List.range n).filter (· ∉ gone)).getD j 0

variable (gone : List Nat)

private theorem reachable_zip_from {xs : List α} {ys : List β} (same : xs.length = ys.length)
    (k : Nat) :
    ((((List.range' k xs.length).zip xs).filter (·.1 ∉ gone)).map Prod.snd).zip
        ((((List.range' k ys.length).zip ys).filter (·.1 ∉ gone)).map Prod.snd) =
      (((List.range' k (xs.zip ys).length).zip (xs.zip ys)).filter (·.1 ∉ gone)).map Prod.snd := by
  induction xs generalizing ys k with
  | nil => simp
  | cons x xs ih =>
    cases ys with
    | nil => cases same
    | cons y ys =>
      have rest := ih (Nat.succ.inj same) (k + 1)
      simp only [List.length_cons, List.zip_cons_cons, List.range'_succ, List.filter_cons]
      by_cases lost : k ∈ gone
      · simpa [lost] using rest
      · simpa [lost] using rest

theorem reachable_zip {xs : List α} {ys : List β} (same : xs.length = ys.length) :
    (reachable gone xs).zip (reachable gone ys) = reachable gone (xs.zip ys) := by
  simpa only [reachable, List.range_eq_range'] using reachable_zip_from gone same 0

/-- The reachable shards alone, under the indices they had. -/
theorem numbered_reachable (pinned : List (ReadShard × Snapshot)) :
    (numbered (reachable gone pinned)).map (Prod.map (indexAmong gone pinned.length) id) =
      (numbered pinned).filter (·.1 ∉ gone) := by
  let kept := (numbered pinned).filter (·.1 ∉ gone)
  have indices : kept.map Prod.fst = (List.range pinned.length).filter (· ∉ gone) := by
    have all : (numbered pinned).map Prod.fst = List.range pinned.length := by
      rw [numbered, List.map_fst_zip (by simp)]
    rw [← all, List.filter_map]
    rfl
  have renamed : (List.range kept.length).map (indexAmong gone pinned.length) = kept.map Prod.fst := by
    unfold indexAmong
    rw [← indices]
    apply List.ext_getElem
    · simp
    · intro i h h'
      simp at h'
      simp [h']
  show (((List.range (kept.map Prod.snd).length).zip (kept.map Prod.snd)).map
    (Prod.map (indexAmong gone pinned.length) id)) = kept
  rw [← List.zip_map, List.length_map, renamed, List.map_id]
  exact (List.zip_of_prod rfl rfl).symm

variable {env : QueryEnv} {dim : Nat} {shards : List ReadShard} {vector : List Snapshot} {q : Query}
  {missing : List MissingShard}

private theorem flatMap_filter_key {f : α → List β} {p : α → Bool} {p' : β → Bool} {l : List α}
    (own : ∀ x ∈ l, ∀ y ∈ f x, p' y = p x) :
    (l.flatMap f).filter p' = (l.filter p).flatMap f := by
  induction l with
  | nil => rfl
  | cons x l ih =>
    obtain ⟨first, others⟩ := List.forall_mem_cons.mp own
    rw [List.flatMap_cons, List.filter_append, ih others, List.filter_cons]
    cases kept : p x with
    | false =>
      rw [List.filter_eq_nil_iff.mpr fun y inside => by simp [first y inside, kept]]
      rfl
    | true =>
      rw [List.filter_eq_self.mpr fun y inside => by simp [first y inside, kept]]
      rfl

/-- The candidates of the reachable shards alone are those of all the shards without the others. -/
theorem merged_reachable {gone : List Nat} {before before' : Ledger}
    (absent : ∀ si ∈ before.shards, si ∈ gone) (nobody : before'.shards = [])
    (pinned : List (ReadShard × Snapshot)) :
    ((numbered (reachable gone pinned)).flatMap (answered q before')).map
        (Prod.map (indexAmong gone pinned.length) id) =
      ((numbered pinned).flatMap (answered q before)).filter (·.1 ∉ gone) := by
  rw [flatMap_filter_key (p := fun item : Nat × ReadShard × Snapshot => decide (item.1 ∉ gone))]
  · rw [← numbered_reachable, List.map_flatMap, List.flatMap_map]
    apply List.flatMap_congr
    intro item mem
    have alive : indexAmong gone pinned.length item.1 ∉ gone := by
      have kept := List.mem_map_of_mem (f := Prod.map (indexAmong gone pinned.length) id) mem
      rw [numbered_reachable] at kept
      simpa using (List.mem_filter.mp kept).2
    have asked : indexAmong gone pinned.length item.1 ∉ before.shards := fun there =>
      alive (absent _ there)
    simp only [answered, nobody, List.not_mem_nil, if_false, Prod.map_fst, Prod.map_snd, asked, id_eq]
    split
    · simp [Function.comp_def]
    · rfl
  · intro item _ p inside
    rw [fst_of_mem_answered inside]

theorem atMost_map {width : Option Nat} (f : α → β) (l : List α) :
    (atMost width l).map f = atMost width (l.map f) := by
  cases width with
  | none => rfl
  | some n => exact List.map_take

/-- The bound does not look at the number of a shard. -/
theorem boundGlobal_map (rename : Nat → Nat) (merged : List (Nat × ShardCandidate)) :
    (boundGlobal dim q merged).1.map (Prod.map rename id) =
      (boundGlobal dim q (merged.map (Prod.map rename id))).1 := by
  rw [boundGlobal_fst, boundGlobal_fst, atMost_map, rank_map]
  rfl

/-- What is left of the global set begins the global set of what is left. -/
theorem boundGlobal_filter (p : Nat × ShardCandidate → Bool) (merged : List (Nat × ShardCandidate)) :
    (boundGlobal dim q merged).1.filter p <+: (boundGlobal dim q (merged.filter p)).1 := by
  rw [boundGlobal_fst, boundGlobal_fst, rank_filter]
  cases globalWidth dim q with
  | none => exact List.prefix_refl _
  | some n =>
    have split := List.take_append_drop n (rank candidateOrder merged)
    have short : (((rank candidateOrder merged).take n).filter p).length ≤ n :=
      (List.length_filter_le _ _).trans (List.length_take_le _ _)
    simp only [atMost]
    conv_rhs => rw [← split, List.filter_append, List.take_append, List.take_of_length_le short]
    exact List.prefix_append _ _

def mergedOf (shards : List ReadShard) (vector : List Snapshot) (q : Query)
    (missing : List MissingShard) : List (Nat × ShardCandidate) :=
  let pinned := numbered (shards.zip vector)
  let first : Result Round1 := do
    let before ← pinned.foldlM (validateVector q) ⟨missing, []⟩
    pinned.foldlM (round1Shard q before) ⟨[], 0, before⟩
  match first with
  | .ok first => first.merged
  | .error _ => []

theorem Staged.mergedOf_eq {f : Final} {second : Round2} {before : Ledger} {first : Round1}
    (staged : Staged env dim shards vector q missing f second before first) :
    mergedOf shards vector q missing = first.merged := by
  simp only [mergedOf, staged.validated]
  show (match (numbered (shards.zip vector)).foldlM (round1Shard q before) ⟨[], 0, before⟩ with
    | .ok first => first.merged
    | .error _ => []) = first.merged
  rw [staged.round1]

/-- The candidates that were reranked and are not of a missing shard. -/
def keptRows (dim : Nat) (q : Query) (gone : List Nat) (merged : List (Nat × ShardCandidate)) :
    List (Nat × ShardCandidate) :=
  (boundGlobal dim q merged).1.filter (·.1 ∉ gone)

/-- The candidates that the reachable shards alone rerank. -/
def aloneRows (dim : Nat) (q : Query) (gone : List Nat) (merged : List (Nat × ShardCandidate)) :
    List (Nat × ShardCandidate) :=
  (boundGlobal dim q (merged.filter (·.1 ∉ gone))).1

/-- The candidates of reachable shards that were cut for those of the missing ones. -/
def cutRows (dim : Nat) (q : Query) (gone : List Nat) (merged : List (Nat × ShardCandidate)) :
    List (Nat × ShardCandidate) :=
  (aloneRows dim q gone merged).drop (keptRows dim q gone merged).length

theorem keptRows_append_cutRows (merged : List (Nat × ShardCandidate)) :
    keptRows dim q gone merged ++ cutRows dim q gone merged = aloneRows dim q gone merged := by
  obtain ⟨rest, split⟩ : keptRows dim q gone merged <+: aloneRows dim q gone merged :=
    boundGlobal_filter _ merged
  rw [cutRows, ← split, List.drop_left]

def tombstonesOf (vector : List Snapshot) : List String := sortedSet (vector.flatMap (·.tombstones))

theorem mem_tombstonesOf {t : String} :
    t ∈ tombstonesOf vector ↔ ∃ snap ∈ vector, t ∈ snap.tombstones := by
  simp [tombstonesOf, sortedSet, Std.ExtTreeMap.mem_keys, OrderedMap.mem_foldl_insert]

theorem tombstonesOf_reachable {gone : List Nat} {t : String}
    (mem : t ∈ tombstonesOf (reachable gone vector)) : t ∈ tombstonesOf vector := by
  rw [mem_tombstonesOf] at mem ⊢
  obtain ⟨snap, inside, named⟩ := mem
  obtain ⟨item, kept, rfl⟩ := List.mem_map.mp inside
  exact ⟨item.2, (List.of_mem_zip (List.mem_of_mem_filter kept)).2, named⟩

theorem getElem?_reachable {gone : List Nat} {pinned : List (ReadShard × Snapshot)} {j : Nat}
    {p : ReadShard × Snapshot} (there : (reachable gone pinned)[j]? = some p) :
    indexAmong gone pinned.length j ∉ gone ∧ pinned[indexAmong gone pinned.length j]? = some p := by
  have item : (j, p) ∈ numbered (reachable gone pinned) := by
    apply List.mem_of_getElem? (i := j)
    rw [numbered, List.getElem?_zip_eq_some]
    exact ⟨List.getElem?_range (List.getElem?_eq_some_iff.mp there).1, there⟩
  have kept := List.mem_map_of_mem (f := Prod.map (indexAmong gone pinned.length) id) item
  rw [numbered_reachable] at kept
  obtain ⟨inside, alive⟩ := List.mem_filter.mp kept
  refine ⟨by simpa using alive, ?_⟩
  obtain ⟨i, at'⟩ := List.getElem?_of_mem inside
  rw [numbered, List.getElem?_zip_eq_some] at at'
  obtain ⟨index, found⟩ := at'
  obtain rfl : i = indexAmong gone pinned.length j := by
    rw [List.getElem?_eq_some_iff] at index
    obtain ⟨bound, same⟩ := index
    simpa using same
  exact found

/-- The shards a run calls missing are those of its ledger. -/
theorem Ended.missing_iff {f : Final} {rows : List (Nat × ShardScored)} {before : Ledger}
    {r : SearchResult} {l : Ledger} (ended : Ended f missing rows before r l) (si : Nat) :
    si ∈ r.missingShards.map (·.shard) ↔ si ∈ l.shards := by
  obtain ⟨attempt, r', rfl, -⟩ := ended.answer
  exact (labelled_missing ended.exact'.once).2.1 si

theorem partial_answer_iff {r r' : SearchResult} {l l' : Ledger} (hit : Nat → String × Nat → Hit)
    (listed : Listed vector.length missing)
    (ran : run env dim shards vector q missing = some (.ok (r, l)))
    (alone : run env dim (reachable (r.missingShards.map (·.shard)) shards)
      (reachable (r.missingShards.map (·.shard)) vector) q [] = some (.ok (r', l')))
    (complete : r'.missingShards = [])
    (serves : ∀ (si : Nat) (shard : ReadShard) (snap : Snapshot),
      si ∉ r.missingShards.map (·.shard) → (shards.zip vector)[si]? = some (shard, snap) →
      shard.Serves snap q (hit si))
    (distinct : ((aloneRows dim q (r.missingShards.map (·.shard))
      (mergedOf shards vector q missing)).map fun p => (candidateHit hit p).event.eventId).Nodup) :
    r.hits = r'.hits ↔
      Backfills q (tombstonesOf vector)
        (tombstonesOf (reachable (r.missingShards.map (·.shard)) vector))
        ((keptRows dim q (r.missingShards.map (·.shard)) (mergedOf shards vector q missing)).map
          (candidateHit hit))
        ((cutRows dim q (r.missingShards.map (·.shard)) (mergedOf shards vector q missing)).map
          (candidateHit hit)) := by
  obtain ⟨answer, ran₁, ends⟩ := run_ends env dim shards vector q listed.once
  obtain rfl := Option.mem_unique ran₁ ran
  obtain ⟨f, second, before, first, staged, ended⟩ := ends r l rfl
  have named := ended.missing_iff
  generalize r.missingShards.map (·.shard) = gone at *
  have nothing : (([] : List MissingShard).map (·.shard)).Nodup := List.nodup_nil
  obtain ⟨answer, ran₂, ends'⟩ :=
    run_ends env dim (reachable gone shards) (reachable gone vector) q nothing
  obtain rfl := Option.mem_unique ran₂ alone
  obtain ⟨f', second', before', first', staged', ended'⟩ := ends' r' l' rfl
  have zipped := reachable_zip gone staged.length.symm
  -- No shard is missing in the run on the reachable ones.
  have nobody (si : Nat) : si ∈ [] ↔ si ∈ l'.shards := by
    rw [← ended'.missing_iff, complete]
    rfl
  obtain ⟨-, sound, sound₂⟩ := staged.sound listed.once
  obtain ⟨-, sound', sound₂'⟩ := staged'.sound nothing
  have absent : ∀ si ∈ before.shards, si ∈ gone := fun si there =>
    (named si).mpr (ended.base si (sound₂.base si (sound.base si there)))
  have nobody' : before'.shards = [] := by
    apply List.eq_nil_iff_forall_not_mem.mpr
    intro si there
    cases (nobody si).mpr (ended'.base si (sound₂'.base si (sound'.base si there)))
  have candidates : first'.merged.map (Prod.map (indexAmong gone (shards.zip vector).length) id) =
      first.merged.filter (·.1 ∉ gone) := by
    rw [sound.merged, sound'.merged, zipped]
    exact merged_reachable absent nobody' _
  rw [staged.mergedOf_eq] at distinct ⊢
  -- Both answers in terms of the rows.
  have split : (keptRows dim q gone first.merged).map (candidateHit hit) ++
      (cutRows dim q gone first.merged).map (candidateHit hit) =
        (aloneRows dim q gone first.merged).map (candidateHit hit) := by
    rw [← List.map_append, keptRows_append_cutRows]
  have ids : (((keptRows dim q gone first.merged).map (candidateHit hit) ++
      (cutRows dim q gone first.merged).map (candidateHit hit)).map (·.event.eventId)).Nodup := by
    rw [split, List.map_map]
    exact distinct
  have here : r.hits = shownHits q (tombstonesOf vector)
      ((keptRows dim q gone first.merged).map (candidateHit hit)) := by
    apply ended.hits_eq staged listed.once named serves
    rw [List.map_append, List.nodup_append, List.map_map] at ids
    exact ids.1
  have rows : ((boundGlobal dim q first'.merged).1.filter (·.1 ∉ ([] : List Nat))).map
        (candidateHit fun j => hit (indexAmong gone (shards.zip vector).length j)) =
      (aloneRows dim q gone first.merged).map (candidateHit hit) := by
    rw [aloneRows, ← candidates, ← boundGlobal_map, List.map_map, List.filter_eq_self.mpr (by simp)]
    rfl
  have there : r'.hits = shownHits q (tombstonesOf (reachable gone vector))
      ((aloneRows dim q gone first.merged).map (candidateHit hit)) := by
    rw [← rows]
    apply ended'.hits_eq staged' nothing nobody
    · intro j shard snap _ found
      rw [zipped] at found
      obtain ⟨alive, found⟩ := getElem?_reachable found
      exact serves _ shard snap alive found
    · rw [split, ← rows, List.map_map] at ids
      exact ids
  rw [here, there, ← split]
  exact shownHits_eq_iff ids fun t => tombstonesOf_reachable

def oneRowHit (id : String) : Hit := ⟨sampleEvent id, F32.one, 0⟩

theorem oneRowShard_serves (id : String) (dist : F32) (scores : Bool) (snap : Snapshot) (q : Query) :
    (oneRowShard id dist scores).Serves snap q fun _ => oneRowHit id := by
  constructor
  · intro selected rows scored
    cases scores with
    | false => cases scored
    | true =>
      cases scored
      rw [List.map_map]
      exact List.Perm.refl _
  · intro attempt selected rows read
    exact (Except.ok.inj read).symm

set_option maxRecDepth 100000

/-- The first shard fails in the second round, and both rows have been in the global set. -/
theorem partial_answer_iff_bothReranked :
    let shards := [oneRowShard "e1" F32.zero false, oneRowShard "e2" F32.one true]
    let vector := [Snapshot.empty, Snapshot.empty]
    let q : Query := { text := "q", bestEffort := true }
    ∃ r l r' l', run sampleEnv 2 shards vector q [] = some (.ok (r, l)) ∧
      run sampleEnv 2 (reachable [0] shards) (reachable [0] vector) q [] = some (.ok (r', l')) ∧
      r.missingShards.map (·.shard) = [0] ∧ r.hits = r'.hits := by
  intro shards vector q
  obtain ⟨r, l, ran, hits, missing, failed⟩ : ∃ r l,
      run sampleEnv 2 shards vector q [] = some (.ok (r, l)) ∧
      r.hits.map (·.event.eventId) = ["e2"] ∧ r.missingShards.map (·.shard) = [0] ∧
      l.failed = [0] := summary_eq_some (by decide +kernel)
  obtain ⟨r', l', alone, -, complete, -⟩ : ∃ r' l',
      run sampleEnv 2 (reachable [0] shards) (reachable [0] vector) q [] = some (.ok (r', l')) ∧
      r'.hits.map (·.event.eventId) = ["e2"] ∧ r'.missingShards.map (·.shard) = [] ∧
      l'.failed = [] := summary_eq_some (by decide +kernel)
  refine ⟨r, l, r', l', ran, alone, missing, ?_⟩
  rw [← missing] at alone
  have listed : Listed vector.length [] := ⟨List.nodup_nil, nofun⟩
  refine (partial_answer_iff (fun si _ => oneRowHit (if si = 0 then "e1" else "e2")) listed ran alone
    (List.map_eq_nil_iff.mp complete) ?_ ?_).mpr ?_
  · intro si shard snap _ there
    match si with
    | 0 | 1 =>
      obtain ⟨rfl, rfl⟩ := Prod.mk.inj (Option.some.inj there.symm)
      exact oneRowShard_serves _ _ _ _ _
  · rw [missing]
    decide +kernel
  · have uncut : cutRows 2 q [0] (mergedOf shards vector q []) = [] := by decide +kernel
    have nothing : tombstonesOf vector = [] := by decide +kernel
    rw [missing, uncut, nothing]
    exact Backfills.of_nothing_cut fun h _ deleted => by cases deleted

/-- The first shard takes the one place of the global set and fails in the second round: the answer
is empty, and the other shard alone would have given its row. -/
theorem failed_shard_takes_place :
    let shards := [oneRowShard "e1" F32.zero false, oneRowShard "e2" F32.one true]
    let vector := [Snapshot.empty, Snapshot.empty]
    let q : Query := { text := "q", rerank := 1, bestEffort := true }
    ∃ r l r' l', run sampleEnv 2 shards vector q [] = some (.ok (r, l)) ∧
      r.missingShards.map (·.shard) = [0] ∧ r.hits.map (·.event.eventId) = [] ∧
      run sampleEnv 2 (reachable (r.missingShards.map (·.shard)) shards)
        (reachable (r.missingShards.map (·.shard)) vector) q [] = some (.ok (r', l')) ∧
      r'.missingShards.map (·.shard) = [] ∧ r'.hits.map (·.event.eventId) = ["e2"] := by
  intro shards vector q
  obtain ⟨r, l, ran, hits, missing, -⟩ : ∃ r l,
      run sampleEnv 2 shards vector q [] = some (.ok (r, l)) ∧
      r.hits.map (·.event.eventId) = [] ∧ r.missingShards.map (·.shard) = [0] ∧
      l.failed = [0] := summary_eq_some (by decide +kernel)
  obtain ⟨r', l', alone, hits', complete, -⟩ : ∃ r' l',
      run sampleEnv 2 (reachable [0] shards) (reachable [0] vector) q [] = some (.ok (r', l')) ∧
      r'.hits.map (·.event.eventId) = ["e2"] ∧ r'.missingShards.map (·.shard) = [] ∧
      l'.failed = [] := summary_eq_some (by decide +kernel)
  refine ⟨r, l, r', l', ran, missing, hits, ?_, complete, hits'⟩
  rw [missing]
  exact alone

end Coordinator

end Prism
