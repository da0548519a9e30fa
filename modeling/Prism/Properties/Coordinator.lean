import Prism.Engine.Sharded
import Prism.Properties.DeletedRows
import Prism.Properties.RowReads

/-!
The bookkeeping of the coordinator. The ledger of missing shards is exact at every stage, whatever
calls fail: it names the shards that were missing at the start and those with a failing call, each
once. A missing shard has no row among the scored ones, and the last loop ends because every round
drops one.
-/

namespace Prism

open OrderedMap Fallible Ranking

namespace Coordinator

/-! ### The ledger -/

def Ledger.shards (l : Ledger) : List Nat := l.missing.map (·.shard)

variable {l : Ledger} {si : Nat}

theorem Ledger.lacks_iff : l.lacks si = true ↔ si ∈ l.shards := by
  simp [Ledger.lacks, Ledger.shards]

variable {reason : String} {missing : List MissingShard}

theorem resolveUnreachable_eq_ok {bestEffort : Bool} {missing' : List MissingShard} :
    resolveUnreachable si reason bestEffort missing = .ok missing' ↔
      bestEffort = true ∧ missing' =
        if si ∈ missing.map (·.shard) then missing else missing ++ [⟨si, reason⟩] := by
  have known : missing.any (·.shard = si) = true ↔ si ∈ missing.map (·.shard) := by simp
  unfold resolveUnreachable
  cases bestEffort with
  | false => simp
  | true =>
    by_cases there : si ∈ missing.map (·.shard)
    · rw [if_pos rfl, if_pos (known.mpr there), if_pos there]
      simp [eq_comm]
    · rw [if_pos rfl, if_neg (mt known.mp there), if_neg there]
      simp [eq_comm]

variable {l' : Ledger}

/-- A failing call: the query has to be one that goes on, and the shard is missing from then on. -/
theorem Ledger.fail_eq_ok {q : Query} (failed : l.fail q si reason = .ok l') :
    q.bestEffort = true ∧ l'.failed = l.failed ++ [si] ∧
      l'.shards = if si ∈ l.shards then l.shards else l.shards ++ [si] := by
  simp only [Ledger.fail, bind_eq_ok, pure_eq_ok, resolveUnreachable_eq_ok] at failed
  obtain ⟨missing, ⟨goesOn, rfl⟩, rfl⟩ := failed
  refine ⟨goesOn, rfl, ?_⟩
  unfold Ledger.shards
  split <;> simp_all

theorem Ledger.mem_fail {q : Query} (failed : l.fail q si reason = .ok l') {sj : Nat} :
    sj ∈ l'.shards ↔ sj = si ∨ sj ∈ l.shards := by
  rw [(Ledger.fail_eq_ok failed).2.2]
  split
  next there =>
    constructor
    · exact .inr
    · rintro (rfl | there')
      · exact there
      · exact there'
  next absent => simp [or_comm]

/-- The ledger names the shards missing at the start and those with a failing call, each once; a
query that does not go on has seen no call fail. -/
structure Ledger.Exact (q : Query) (start : List MissingShard) (l : Ledger) : Prop where
  once : l.shards.Nodup
  named : ∀ si, si ∈ l.shards ↔ si ∈ start.map (·.shard) ∨ si ∈ l.failed
  stops : q.bestEffort = false → l.missing = start ∧ l.failed = []

theorem Ledger.Exact.fail {q : Query} {start : List MissingShard} (exact' : l.Exact q start)
    (failed : l.fail q si reason = .ok l') : l'.Exact q start := by
  obtain ⟨goesOn, history, shards⟩ := Ledger.fail_eq_ok failed
  constructor
  · rw [shards]
    split
    next there => exact exact'.once
    next absent =>
      apply List.Nodup.append exact'.once (List.nodup_singleton si)
      simpa using absent
  · intro sj
    rw [Ledger.mem_fail failed, exact'.named sj, history, List.mem_append, List.mem_singleton]
    tauto
  · intro stops
    rw [goesOn] at stops
    cases stops

/-! ### The stages -/

variable {q : Query} {start : List MissingShard} {item : Nat × ReadShard × Snapshot}

/-- A snapshot is of a missing shard, is valid, or is expired. -/
theorem validateVector_cases (ran : validateVector q l item = .ok l') :
    (l' = l ∧ (item.1 ∈ l.shards ∨ item.2.1.validateSnapshot item.2.2 = .ok ())) ∨
      ∃ reason, l.fail q item.1 reason = .ok l' := by
  obtain ⟨si, shard, snap⟩ := item
  simp only [validateVector] at ran
  split at ran
  next lacks => exact .inl ⟨(Except.ok.inj ran).symm, .inl (Ledger.lacks_iff.mp lacks)⟩
  next present =>
    split at ran
    next valid => exact .inl ⟨(Except.ok.inj ran).symm, .inr valid⟩
    next expired => exact .inr ⟨_, ran⟩

variable {before : Ledger} {st : Round1}

/-- A shard of the first round was missing before, has answered, or has failed. -/
theorem round1Shard_cases {st' : Round1} (ran : round1Shard q before st item = .ok st') :
    (item.1 ∈ before.shards ∧ ∃ reason missing,
        resolveUnreachable item.1 reason q.bestEffort st.ledger.missing = .ok missing ∧
        st' = { st with ledger := { st.ledger with missing } }) ∨
      (item.1 ∉ before.shards ∧ ∃ c, item.2.1.candidates item.2.2 q = .ok c ∧
        st' = ⟨st.merged ++ c.candidates.map (item.1, ·), st.overfetch + c.thresholdOverfetch,
          st.ledger⟩) ∨
      (item.1 ∉ before.shards ∧ ∃ e l, item.2.1.candidates item.2.2 q = .error e ∧
        st.ledger.fail q item.1 e.display = .ok l ∧ st' = { st with ledger := l }) := by
  obtain ⟨si, shard, snap⟩ := item
  simp only [round1Shard] at ran
  split at ran
  next lacks =>
    simp only [bind_eq_ok, pure_eq_ok] at ran
    obtain ⟨missing, resolved, rfl⟩ := ran
    exact .inl ⟨Ledger.lacks_iff.mp lacks, _, missing, resolved, rfl⟩
  next asked =>
    have asked' : si ∉ before.shards := fun there => asked (Ledger.lacks_iff.mpr there)
    split at ran
    next c answered =>
      rw [pure_eq_ok] at ran
      exact .inr (.inl ⟨asked', c, answered, ran.symm⟩)
    next e failed =>
      simp only [bind_eq_ok, pure_eq_ok] at ran
      obtain ⟨l, noted, rfl⟩ := ran
      exact .inr (.inr ⟨asked', e, l, failed, noted, rfl⟩)

variable {pinned : List (ReadShard × Snapshot)}

/-- A shard of the second round has scored its rows, or has failed. -/
theorem round2Shard_cases {st st' : Round2} {item : Nat × List (Nat × ShardCandidate)}
    (ran : round2Shard pinned q st item = .ok st') :
    ∃ shard snap, pinned[item.1]? = some (shard, snap) ∧
      ((∃ scored, shard.rerank snap q (selectionOf item.2) = .ok scored ∧
          st' = { scored.foldl (Round2.add item.1) st with
            requests := (scored.foldl (Round2.add item.1) st).requests + 1 }) ∨
        ∃ e l, shard.rerank snap q (selectionOf item.2) = .error e ∧
          st.ledger.fail q item.1 e.display = .ok l ∧ st' = { st with ledger := l }) := by
  obtain ⟨si, group⟩ := item
  simp only [round2Shard, bind_eq_ok] at ran
  obtain ⟨⟨shard, snap⟩, found, rest⟩ := ran
  have at' : pinned[si]? = some (shard, snap) := by
    unfold shardAt at found
    split at found
    next pair there => rw [there, Except.ok.inj found]
    next => cases found
  refine ⟨shard, snap, at', ?_⟩
  simp only at rest
  split at rest
  next scored answered =>
    rw [pure_eq_ok] at rest
    exact .inl ⟨scored, answered, rest.symm⟩
  next e failed =>
    simp only [bind_eq_ok, pure_eq_ok] at rest
    obtain ⟨l, noted, rfl⟩ := rest
    exact .inr ⟨e, l, failed, noted, rfl⟩

/-! ### The ledger over the stages -/

structure Ledger.Validated (q : Query) (start : List MissingShard)
    (done : List (Nat × ReadShard × Snapshot)) (l : Ledger) : Prop where
  exact' : l.Exact q start
  valid : ∀ item ∈ done, item.1 ∉ l.shards → item.2.1.validateSnapshot item.2.2 = .ok ()

variable {items : List (Nat × ReadShard × Snapshot)}

theorem validate_sound (exact' : l.Exact q start)
    (ran : items.foldlM (validateVector q) l = .ok l') : l'.Validated q start items := by
  apply foldlM_induction _ _ ran
  · exact ⟨exact', nofun⟩
  · intro done item after l l' _ held step
    rcases validateVector_cases step with ⟨rfl, known⟩ | ⟨reason, failed⟩
    · refine ⟨held.exact', fun x mem alive => ?_⟩
      rcases List.mem_append.mp mem with old | new
      · exact held.valid x old alive
      · obtain rfl := List.mem_singleton.mp new
        exact known.resolve_left alive
    · refine ⟨held.exact'.fail failed, fun x mem alive => ?_⟩
      rw [Ledger.mem_fail failed, not_or] at alive
      rcases List.mem_append.mp mem with old | new
      · exact held.valid x old alive.2
      · exact absurd (congrArg Prod.fst (List.mem_singleton.mp new)) alive.1

def answered (q : Query) (before : Ledger) (item : Nat × ReadShard × Snapshot) :
    List (Nat × ShardCandidate) :=
  if item.1 ∈ before.shards then []
  else
    match item.2.1.candidates item.2.2 q with
    | .ok c => c.candidates.map (item.1, ·)
    | .error _ => []

variable {p : Nat × ShardCandidate}

theorem fst_of_mem_answered (mem : p ∈ answered q before item) : p.1 = item.1 := by
  unfold answered at mem
  split at mem
  · cases mem
  · split at mem
    · obtain ⟨c, -, rfl⟩ := List.mem_map.mp mem
      rfl
    · cases mem

structure Round1.Sound (q : Query) (start : List MissingShard) (before : Ledger)
    (done : List (Nat × ReadShard × Snapshot)) (st : Round1) : Prop where
  exact' : st.ledger.Exact q start
  merged : st.merged = done.flatMap (answered q before)
  base : ∀ si ∈ before.shards, si ∈ st.ledger.shards
  grown : ∀ si ∈ st.ledger.shards, si ∈ before.shards ∨ si ∈ done.map Prod.fst
  apart : ∀ p ∈ st.merged, p.1 ∉ st.ledger.shards
  failed : ∀ item ∈ done, item.1 ∉ st.ledger.shards → ∃ c, item.2.1.candidates item.2.2 q = .ok c
  stops : q.bestEffort = false → ∀ item ∈ done, item.1 ∉ before.shards

variable {done : List (Nat × ReadShard × Snapshot)}

private theorem Round1.Sound.fst_mem
    (sound : st.Sound q start before done) (mem : p ∈ st.merged) : p.1 ∈ done.map Prod.fst := by
  rw [sound.merged, List.mem_flatMap] at mem
  obtain ⟨item, inside, own⟩ := mem
  rw [fst_of_mem_answered own]
  exact List.mem_map_of_mem inside

theorem Round1.Sound.step {st' : Round1} (sound : st.Sound q start before done)
    (fresh : item.1 ∉ done.map Prod.fst) (ran : round1Shard q before st item = .ok st') :
    st'.Sound q start before (done ++ [item]) := by
  have earlier : ∀ p ∈ st.merged, p.1 ≠ item.1 := fun p mem same =>
    fresh (same ▸ sound.fst_mem mem)
  have widen {si : Nat} (known : si ∈ before.shards ∨ si ∈ done.map Prod.fst) :
      si ∈ before.shards ∨ si ∈ (done ++ [item]).map Prod.fst := by
    rw [List.map_append]
    exact known.imp_right (List.mem_append_left _)
  rcases round1Shard_cases ran with ⟨there, reason, missing, resolved, rfl⟩ |
    ⟨absent, c, got, rfl⟩ | ⟨absent, e, l, failed, noted, rfl⟩
  · -- The shard is named already, so nothing changes.
    obtain ⟨goesOn, unchanged⟩ := resolveUnreachable_eq_ok.mp resolved
    have named : item.1 ∈ st.ledger.missing.map (·.shard) := sound.base _ there
    rw [if_pos named] at unchanged
    subst unchanged
    refine ⟨sound.exact', ?_, sound.base, fun si named => widen (sound.grown si named),
      sound.apart, ?_, ?_⟩
    · simp [sound.merged, answered, there]
    · intro x mem
      rcases List.mem_append.mp mem with old | new
      · exact sound.failed x old
      · obtain rfl := List.mem_singleton.mp new
        intro absent
        exact absurd (sound.base _ there) absent
    · intro stops
      rw [goesOn] at stops
      cases stops
  · -- The shard has answered, and it is not one of the missing.
    have present : item.1 ∉ st.ledger.shards := fun named =>
      (sound.grown _ named).elim absent fresh
    refine ⟨sound.exact', ?_, sound.base, fun si named => widen (sound.grown si named), ?_, ?_, ?_⟩
    · simp [sound.merged, answered, absent, got]
    · intro p mem
      rcases List.mem_append.mp mem with old | new
      · exact sound.apart p old
      · obtain ⟨_, -, rfl⟩ := List.mem_map.mp new
        exact present
    · intro x mem
      rcases List.mem_append.mp mem with old | new
      · exact sound.failed x old
      · obtain rfl := List.mem_singleton.mp new
        exact fun _ => ⟨c, got⟩
    · intro stops x mem
      rcases List.mem_append.mp mem with old | new
      · exact sound.stops stops x old
      · exact List.mem_singleton.mp new ▸ absent
  · -- The shard has failed, and none of its candidates is there.
    have named {sj : Nat} : sj ∈ l.shards ↔ sj = item.1 ∨ sj ∈ st.ledger.shards :=
      Ledger.mem_fail noted
    refine ⟨sound.exact'.fail noted, ?_, ?_, ?_, ?_, ?_, ?_⟩
    · simp [sound.merged, answered, absent, failed]
    · intro si there
      exact named.mpr (.inr (sound.base si there))
    · intro si there
      rcases named.mp there with rfl | old
      · exact .inr (by simp)
      · exact widen (sound.grown si old)
    · intro p mem there
      rcases named.mp there with same | old
      · exact earlier p mem same
      · exact sound.apart p mem old
    · intro x mem alive
      rcases List.mem_append.mp mem with old | new
      · exact sound.failed x old fun there => alive (named.mpr (.inr there))
      · obtain rfl := List.mem_singleton.mp new
        exact absurd (named.mpr (.inl rfl)) alive
    · intro stops
      rw [(Ledger.fail_eq_ok noted).1] at stops
      cases stops

theorem round1_sound (exact' : before.Exact q start) (distinct : (items.map Prod.fst).Nodup)
    (ran : items.foldlM (round1Shard q before) ⟨[], 0, before⟩ = .ok st) :
    st.Sound q start before items := by
  apply foldlM_induction _ _ ran
  · exact ⟨exact', rfl, fun _ h => h, fun _ h => .inl h, nofun, nofun, nofun⟩
  · intro done item after st st' split sound step
    apply sound.step _ step
    rw [split, List.map_append, List.nodup_append] at distinct
    intro there
    exact distinct.2.2 _ there _ List.mem_cons_self rfl

/-! ### The scored rows -/

def rescored (pinned : List (ReadShard × Snapshot)) (q : Query)
    (item : Nat × List (Nat × ShardCandidate)) : List (Nat × ShardScored) :=
  match pinned[item.1]? with
  | some (shard, snap) =>
    match shard.rerank snap q (selectionOf item.2) with
    | .ok rows => rows.map (item.1, ·)
    | .error _ => []
  | none => []

def numberedFrom (n : Nat) (rows : List (Nat × ShardScored)) : List Scored :=
  rows.mapIdx fun i row => ⟨row.2.score, ⟨n + i, row.2.row⟩, row.2.vector, row.2.eventId⟩

variable (rows : List (Nat × ShardScored))

def handlesOf : List Handle :=
  rows.map fun row => ⟨row.1, row.2.partId, row.2.row⟩

theorem numberedFrom_append (n : Nat) (rows more : List (Nat × ShardScored)) :
    numberedFrom n (rows ++ more) = numberedFrom n rows ++ numberedFrom (n + rows.length) more := by
  simp [numberedFrom, List.mapIdx_append, Nat.add_assoc, Nat.add_comm rows.length]

/-- What adding the rows of a shard one by one gives. -/
theorem foldl_add (si : Nat) (rows : List ShardScored) (st : Round2) :
    (rows.foldl (Round2.add si) st).ledger = st.ledger ∧
      (rows.foldl (Round2.add si) st).handles = st.handles ++ handlesOf (rows.map (si, ·)) ∧
      (rows.foldl (Round2.add si) st).scored =
        st.scored ++ numberedFrom st.handles.length (rows.map (si, ·)) := by
  induction rows generalizing st with
  | nil => simp [handlesOf, numberedFrom]
  | cons row rows ih =>
    obtain ⟨ledger, handles, scored⟩ := ih (Round2.add si st row)
    rw [List.foldl_cons]
    refine ⟨ledger, ?_, ?_⟩
    · rw [handles]
      simp [Round2.add, handlesOf]
    · rw [scored]
      simp [Round2.add, numberedFrom, Nat.add_assoc, Nat.add_comm 1]

structure Round2.Sound (q : Query) (start : List MissingShard) (before : Ledger)
    (pinned : List (ReadShard × Snapshot)) (done : List (Nat × List (Nat × ShardCandidate)))
    (st : Round2) : Prop where
  exact' : st.ledger.Exact q start
  handles : st.handles = handlesOf (done.flatMap (rescored pinned q))
  scored : st.scored = numberedFrom 0 (done.flatMap (rescored pinned q))
  base : ∀ si ∈ before.shards, si ∈ st.ledger.shards
  grown : ∀ si ∈ st.ledger.shards, si ∈ before.shards ∨ si ∈ done.map Prod.fst
  apart : ∀ row ∈ done.flatMap (rescored pinned q), row.1 ∉ st.ledger.shards
  failed : ∀ item ∈ done, item.1 ∉ st.ledger.shards → ∃ shard snap rows,
    pinned[item.1]? = some (shard, snap) ∧ shard.rerank snap q (selectionOf item.2) = .ok rows

variable {row : Nat × ShardScored}

theorem fst_of_mem_rescored {item : Nat × List (Nat × ShardCandidate)}
    (mem : row ∈ rescored pinned q item) :
    row.1 = item.1 ∧ ∃ shard snap rows, pinned[item.1]? = some (shard, snap) ∧
      shard.rerank snap q (selectionOf item.2) = .ok rows ∧ row.2 ∈ rows := by
  unfold rescored at mem
  split at mem
  · split at mem
    · obtain ⟨x, inside, rfl⟩ := List.mem_map.mp mem
      exact ⟨rfl, _, _, _, ‹_›, ‹_›, inside⟩
    · cases mem
  · cases mem

variable {done : List (Nat × List (Nat × ShardCandidate))}

private theorem fst_mem_of_mem_flatMap (mem : row ∈ done.flatMap (rescored pinned q)) :
    row.1 ∈ done.map Prod.fst := by
  obtain ⟨item, inside, own⟩ := List.mem_flatMap.mp mem
  rw [(fst_of_mem_rescored own).1]
  exact List.mem_map_of_mem inside

theorem Round2.Sound.step {st st' : Round2} {item : Nat × List (Nat × ShardCandidate)}
    (sound : st.Sound q start before pinned done) (fresh : item.1 ∉ done.map Prod.fst)
    (absent : item.1 ∉ before.shards) (ran : round2Shard pinned q st item = .ok st') :
    st'.Sound q start before pinned (done ++ [item]) := by
  have widen {si : Nat} (known : si ∈ before.shards ∨ si ∈ done.map Prod.fst) :
      si ∈ before.shards ∨ si ∈ (done ++ [item]).map Prod.fst := by
    rw [List.map_append]
    exact known.imp_right (List.mem_append_left _)
  obtain ⟨shard, snap, found, outcome⟩ := round2Shard_cases ran
  rcases outcome with ⟨rows, answered, rfl⟩ | ⟨e, l, failed, noted, rfl⟩
  · obtain ⟨ledger, handles, scored⟩ := foldl_add item.1 rows st
    have present : item.1 ∉ st.ledger.shards := fun named =>
      (sound.grown _ named).elim absent fresh
    have more : (done ++ [item]).flatMap (rescored pinned q) =
        done.flatMap (rescored pinned q) ++ rows.map (item.1, ·) := by
      simp [rescored, found, answered]
    have width : st.handles.length = 0 + (done.flatMap (rescored pinned q)).length := by
      simp [sound.handles, handlesOf]
    refine ⟨?_, ?_, ?_, ?_, ?_, ?_, ?_⟩
    · simpa only [ledger] using sound.exact'
    · simp [handles, more, sound.handles, handlesOf]
    · simp only [scored, more, sound.scored, numberedFrom_append, width]
    · simpa only [ledger] using sound.base
    · intro si named
      simp only [ledger] at named
      exact widen (sound.grown si named)
    · intro row mem
      simp only [ledger, more, List.mem_append, List.mem_map] at mem ⊢
      rcases mem with old | ⟨x, -, rfl⟩
      · exact sound.apart row old
      · exact present
    · intro x mem alive
      simp only [ledger] at alive
      rcases List.mem_append.mp mem with old | new
      · exact sound.failed x old alive
      · obtain rfl := List.mem_singleton.mp new
        exact ⟨shard, snap, rows, found, answered⟩
  · have named {sj : Nat} : sj ∈ l.shards ↔ sj = item.1 ∨ sj ∈ st.ledger.shards :=
      Ledger.mem_fail noted
    have same : (done ++ [item]).flatMap (rescored pinned q) =
        done.flatMap (rescored pinned q) := by
      simp [rescored, found, failed]
    refine ⟨sound.exact'.fail noted, same ▸ sound.handles, same ▸ sound.scored,
      fun si there => named.mpr (.inr (sound.base si there)), ?_, ?_, ?_⟩
    · intro si there
      rcases named.mp there with rfl | old
      · exact .inr (by simp)
      · exact widen (sound.grown si old)
    · intro row mem there
      rw [same] at mem
      rcases named.mp there with same | old
      · exact fresh (same ▸ fst_mem_of_mem_flatMap mem)
      · exact sound.apart row mem old
    · intro x mem alive
      rcases List.mem_append.mp mem with old | new
      · exact sound.failed x old fun there => alive (named.mpr (.inr there))
      · obtain rfl := List.mem_singleton.mp new
        exact absurd (named.mpr (.inl rfl)) alive

theorem round2_sound {groups : List (Nat × List (Nat × ShardCandidate))} {st : Round2}
    (exact' : before.Exact q start) (distinct : (groups.map Prod.fst).Nodup)
    (absent : ∀ g ∈ groups, g.1 ∉ before.shards)
    (ran : groups.foldlM (round2Shard pinned q) ⟨[], [], 0, 0, before⟩ = .ok st) :
    st.Sound q start before pinned groups := by
  apply foldlM_induction _ _ ran
  · exact ⟨exact', rfl, rfl, fun _ h => h, fun _ h => .inl h, nofun, nofun⟩
  · intro done item after st st' split sound step
    apply sound.step _ (absent item (by simp [split])) step
    rw [split, List.map_append, List.nodup_append] at distinct
    intro there
    exact distinct.2.2 _ there _ List.mem_cons_self rfl

/-! ### The events of the answer -/

/-- The row at `pos` was materialized as `v`, by the shard of its handle. -/
def MaterializedBy (pinned : List (ReadShard × Snapshot)) (handles : List Handle) (attempt : Nat)
    (pos : RowPos) (v : Event × Nat) : Prop :=
  ∃ h shard snap selected rows, handles[pos.part]? = some h ∧
    pinned[h.shard]? = some (shard, snap) ∧ shard.materialize attempt snap selected = .ok rows ∧
    ((h.partId, pos.row), v) ∈ selected.zip rows

variable {handles : List Handle} {pos : RowPos}

theorem handleOf_eq_ok {h : Handle} :
    handleOf handles pos = .ok h ↔ handles[pos.part]? = some h := by
  unfold handleOf
  split
  next h' found => simp [found]
  next missing => simp [missing]

theorem shardAt_eq_ok {p : ReadShard × Snapshot} :
    shardAt pinned si = .ok p ↔ pinned[si]? = some p := by
  unfold shardAt
  split
  next p' found => simp [found]
  next missing => simp [missing]

variable {needed : List RowPos} {attempt : Nat}

theorem materializeOn_eq_ok {m : Materialized} {v : Event × Nat}
    (ran : materializeOn pinned handles attempt needed = .ok m) (found : m[pos]? = some v) :
    MaterializedBy pinned handles attempt pos v := by
  simp only [materializeOn, bind_eq_ok, pure_eq_ok] at ran
  obtain ⟨requests, asked, yss, looped, rfl⟩ := ran
  rcases mem_of_getElem?_foldl_insert found with listed | nothing
  swap
  · simp at nothing
  obtain ⟨ys, inside, own⟩ := List.mem_flatten.mp listed
  obtain ⟨⟨si, group⟩, mem, step⟩ := exists_of_mapM_eq_ok looped inside
  simp only [materializeShard, bind_eq_ok, pure_eq_ok, mapError_eq_ok] at step
  obtain ⟨⟨shard, snap⟩, there, rows, answered, rfl⟩ := step
  obtain ⟨⟨⟨pos', h⟩, v'⟩, zipped, same⟩ := List.mem_map.mp own
  obtain ⟨rfl, rfl⟩ := Prod.mk.inj same
  obtain ⟨request, shardOf⟩ := (of_mem_groupBy mem).2 _ (List.of_mem_zip zipped).1
  obtain ⟨pos'', -, got⟩ := exists_of_mapM_eq_ok asked request
  simp only [bind_eq_ok, pure_eq_ok, Prod.mk.injEq, handleOf_eq_ok] at got
  obtain ⟨h', known, rfl, rfl⟩ := got
  refine ⟨h', shard, snap, _, rows, known, ?_, answered, ?_⟩
  · subst shardOf
    exact shardAt_eq_ok.mp there
  · rw [List.zip_map_left]
    exact List.mem_map.mpr ⟨_, zipped, rfl⟩

/-- A materialization that fails names the shard of a row it was asked for. -/
theorem materializeOn_eq_error {e : PrismError}
    (known : ∀ pos ∈ needed, ∃ h, handles[pos.part]? = some h ∧ h.shard < pinned.length)
    (ran : materializeOn pinned handles attempt needed = .error (si, e)) :
    ∃ pos ∈ needed, ∃ h shard snap selected, handles[pos.part]? = some h ∧ h.shard = si ∧
      pinned[si]? = some (shard, snap) ∧ shard.materialize attempt snap selected = .error e := by
  have handle {pos : RowPos} (mem : pos ∈ needed) : ∃ h, handleOf handles pos = .ok h := by
    obtain ⟨h, there, -⟩ := known pos mem
    exact ⟨h, handleOf_eq_ok.mpr there⟩
  simp only [materializeOn, bind_eq_error, pure_ne_error, and_false, exists_false, or_false] at ran
  rcases ran with unknown | ⟨requests, asked, failed⟩
  · obtain ⟨pos, mem, lost⟩ := exists_of_mapM_eq_error unknown
    obtain ⟨h, there⟩ := handle mem
    simp [there, bind, Except.bind] at lost
  obtain ⟨⟨sj, group⟩, mem, step⟩ := exists_of_mapM_eq_error failed
  clear failed
  obtain ⟨nonempty, own⟩ := of_mem_groupBy mem
  obtain ⟨⟨pos, h⟩, inside⟩ := List.exists_mem_of_ne_nil group nonempty
  obtain ⟨request, shardOf⟩ := own _ inside
  obtain ⟨pos', needs, got⟩ := exists_of_mapM_eq_ok asked request
  simp only [bind_eq_ok, pure_eq_ok, Prod.mk.injEq, handleOf_eq_ok] at got
  obtain ⟨h', there, rfl, rfl⟩ := got
  obtain ⟨h'', there', bound⟩ := known pos' needs
  obtain rfl := Option.mem_unique there' there
  subst shardOf
  -- The shard is there, so what failed is its own call.
  have found := List.getElem?_eq_getElem bound
  simp only [materializeShard, shardAt_eq_ok.mpr found, bind_eq_error, pure_ne_error,
    and_false, exists_false, or_false, mapError_eq_error, mapError_eq_ok,
    reduceCtorEq, false_and, false_or, Except.ok.injEq, exists_eq_left', Prod.mk.injEq] at step
  obtain ⟨e', failed, rfl, rfl⟩ := step
  exact ⟨pos', needs, h'', _, _, _, there, rfl, found, failed⟩

/-! ### The last loop -/

def left (gone : List Nat) : List Scored :=
  (numberedFrom 0 rows).filter fun s => ((handlesOf rows)[s.pos.part]?).all (·.shard ∉ gone)

variable {rows : List (Nat × ShardScored)} {s : Scored}

theorem exists_row_of_mem_numberedFrom {n : Nat} (mem : s ∈ numberedFrom n rows) :
    ∃ i row, rows[i]? = some row ∧
      s = ⟨row.2.score, ⟨n + i, row.2.row⟩, row.2.vector, row.2.eventId⟩ := by
  obtain ⟨i, inside, rfl⟩ := List.mem_mapIdx.mp mem
  exact ⟨i, rows[i], List.getElem?_eq_getElem inside, rfl⟩

variable {gone : List Nat}

/-- A row that is left is scored by a shard that is not gone. -/
theorem exists_row_of_mem_left (mem : s ∈ left rows gone) : ∃ row ∈ rows, row.1 ∉ gone ∧
      (handlesOf rows)[s.pos.part]? = some ⟨row.1, row.2.partId, row.2.row⟩ ∧
      s.score = row.2.score ∧ s.pos.row = row.2.row ∧ s.vector = row.2.vector ∧
      s.eventId = row.2.eventId := by
  obtain ⟨numbered, kept⟩ := List.mem_filter.mp mem
  obtain ⟨i, row, there, rfl⟩ := exists_row_of_mem_numberedFrom numbered
  have handle : (handlesOf rows)[i]? = some ⟨row.1, row.2.partId, row.2.row⟩ := by
    simp [handlesOf, there]
  refine ⟨row, List.mem_of_getElem? there, ?_, ?_, rfl, rfl, rfl, rfl⟩
  · simpa [handle] using kept
  · simpa using handle

theorem left_eq_numberedFrom (apart : ∀ row ∈ rows, row.1 ∉ gone) :
    left rows gone = numberedFrom 0 rows := by
  apply List.filter_eq_self.mpr
  intro s mem
  obtain ⟨i, row, there, rfl⟩ := exists_row_of_mem_numberedFrom mem
  simp [handlesOf, there, apart row (List.mem_of_getElem? there)]

/-- Dropping the rows of one more shard. -/
theorem left_filter {gone' : List Nat} (more : ∀ sj, sj ∈ gone' ↔ sj = si ∨ sj ∈ gone) :
    (left rows gone).filter (fun s => ((handlesOf rows)[s.pos.part]?).all (·.shard ≠ si)) =
      left rows gone' := by
  unfold left
  rw [List.filter_filter]
  apply List.filter_congr
  intro s _
  cases (handlesOf rows)[s.pos.part]? with
  | none => rfl
  | some h => simp [more]

theorem mem_neededRows {scored : List Scored} (mem : pos ∈ neededRows q scored) :
    ∃ s ∈ scored, s.pos = pos := by
  simp only [neededRows, rowSet, Std.ExtTreeMap.mem_keys, mem_foldl_insert] at mem
  obtain ⟨s, taken, rfl⟩ := List.mem_map.mp (mem.resolve_right (by simp))
  exact ⟨s, mem_of_mem_survivors (List.mem_of_mem_take taken), rfl⟩

structure Ended (f : Final) (start : List MissingShard) (rows : List (Nat × ShardScored))
    (before : Ledger) (r : SearchResult) (l : Ledger) : Prop where
  exact' : l.Exact f.query start
  base : ∀ si ∈ before.shards, si ∈ l.shards
  whole : refusePartialGroup f.query l.missing = .ok ()
  answer : ∃ attempt r', r = labelled l.missing r' ∧
    finalize f.env f.tombstones f.snapshotId f.query (left rows l.shards) f.genIds f.counters
      (fun needed => (materializeOn f.shards f.handles attempt needed).mapError materializeError) =
      .ok r'

variable {f : Final}

/-- The last loop ends: a round that fails drops a row. -/
theorem finalizeLoop_ends (handles : f.handles = handlesOf rows)
    (known : ∀ row ∈ rows, row.1 < f.shards.length) (fuel attempt : Nat) (ledger : Ledger)
    (exact' : ledger.Exact f.query start)
    (whole : refusePartialGroup f.query ledger.missing = .ok ())
    (enough : (left rows ledger.shards).length < fuel) :
    ∃ answer, finalizeLoop f fuel attempt (left rows ledger.shards) ledger = some answer ∧
      ∀ r l, answer = .ok (r, l) → Ended f start rows ledger r l := by
  induction fuel generalizing attempt ledger with
  | zero => omega
  | succ fuel ih =>
    unfold finalizeLoop
    split
    next m materialized =>
      refine ⟨_, rfl, fun r l returned => ?_⟩
      simp only [bind_eq_ok, pure_eq_ok, Prod.mk.injEq] at returned
      obtain ⟨r', finalized, rfl, rfl⟩ := returned
      exact ⟨exact', fun _ h => h, whole, attempt, r', rfl, finalized⟩
    next si e failed =>
      simp only
      split
      next e' refused =>
        refine ⟨_, rfl, fun r l returned => ?_⟩
        cases returned
      next ledger' noted =>
        simp only [bind_eq_ok, pure_eq_ok] at noted
        obtain ⟨ledger', noted, ⟨⟩, whole', rfl⟩ := noted
        have named (sj : Nat) : sj ∈ ledger'.shards ↔ sj = si ∨ sj ∈ ledger.shards :=
          Ledger.mem_fail noted
        -- The failing shard has a row among those that were left.
        have fewer : (left rows ledger'.shards).length < (left rows ledger.shards).length := by
          rw [handles] at failed
          obtain ⟨pos, needs, h, -, -, -, there, rfl, -⟩ := materializeOn_eq_error (fun pos needs => by
            obtain ⟨s, mem, rfl⟩ := mem_neededRows needs
            obtain ⟨row, inside, -, handle, -⟩ := exists_row_of_mem_left mem
            exact ⟨_, handle, known row inside⟩) failed
          obtain ⟨s, mem, rfl⟩ := mem_neededRows needs
          rw [← left_filter named]
          apply List.length_filter_lt_length_iff_exists.mpr
          exact ⟨s, mem, by simp [there]⟩
        rw [handles, left_filter named]
        obtain ⟨answer, ran, ends⟩ := ih (attempt + 1) ledger' (exact'.fail noted) whole' (by omega)
        refine ⟨answer, ran, fun r l returned => ?_⟩
        have ended := ends r l returned
        exact ⟨ended.exact', fun si' there => ended.base si' ((named si').mpr (.inr there)),
          ended.whole, ended.answer⟩

/-! ### A whole run -/

def numbered (pinned : List (ReadShard × Snapshot)) : List (Nat × ReadShard × Snapshot) :=
  (List.range pinned.length).zip pinned

def groupsOf (dim : Nat) (q : Query) (merged : List (Nat × ShardCandidate)) :
    List (Nat × List (Nat × ShardCandidate)) :=
  (groupBy Prod.fst (boundGlobal dim q merged).1).toList

structure Staged (env : QueryEnv) (dim : Nat) (shards : List ReadShard) (vector : List Snapshot)
    (q : Query) (start : List MissingShard) (f : Final) (second : Round2) (before : Ledger)
    (first : Round1) : Prop where
  nonempty : shards ≠ []
  length : vector.length = shards.length
  validated : (numbered (shards.zip vector)).foldlM (validateVector q) ⟨start, []⟩ = .ok before
  round1 : (numbered (shards.zip vector)).foldlM (round1Shard q before) ⟨[], 0, before⟩ = .ok first
  round2 : (groupsOf dim q first.merged).foldlM (round2Shard (shards.zip vector) q)
    ⟨[], [], 0, 0, first.ledger⟩ = .ok second
  whole : refusePartialGroup q second.ledger.missing = .ok ()
  single : (sortedSet (vector.filterMap (·.activeGeneration))).length ≤ 1
  final : f.env = env ∧ f.shards = shards.zip vector ∧ f.handles = second.handles ∧ f.query = q ∧
    f.tombstones = sortedSet (vector.flatMap (·.tombstones))

variable {env : QueryEnv} {dim : Nat} {shards : List ReadShard} {vector : List Snapshot}
  {second : Round2}

theorem rounds_eq_ok (ran : rounds env dim shards vector q start = .ok (f, second)) :
    ∃ before first, Staged env dim shards vector q start f second before first := by
  simp only [rounds, bind_eq_ok, guard_eq_ok, pure_eq_ok, Prod.mk.injEq] at ran
  obtain ⟨shape, before, validated, first, round1, second', round2, _, whole, single, rfl, rfl⟩ := ran
  rw [not_or, not_not, List.isEmpty_iff] at shape
  exact ⟨before, first, shape.1, shape.2, validated, round1, round2, whole, by omega, rfl, rfl, rfl,
    rfl, rfl⟩

instance : Std.TransCmp candidateOrder :=
  have : Std.TransCmp fun a b : Nat × ShardCandidate => a.2.dist.totalCmp b.2.dist :=
    { eq_swap := Std.OrientedCmp.eq_swap
      isLE_trans := Std.TransCmp.isLE_trans }
  inferInstanceAs (Std.TransCmp
    (compareLex (fun a b : Nat × ShardCandidate => a.2.dist.totalCmp b.2.dist)
      (compareOn fun a => a.2.eventId)))

/-- How many rows the global set may hold, if that is bounded. -/
def globalWidth (dim : Nat) (q : Query) : Option Nat :=
  let budget := q.fetchBudgetBytes.map (· / max (dim * 4) 1)
  if q.threshold.isNone then some ((budget.map (min · q.rerank)).getD q.rerank) else budget

def atMost (width : Option Nat) (l : List α) : List α :=
  match width with
  | some n => l.take n
  | none => l

theorem mem_of_mem_atMost {width : Option Nat} {l : List α} {x : α} (mem : x ∈ atMost width l) :
    x ∈ l := by
  cases width with
  | none => exact mem
  | some n => exact List.mem_of_mem_take mem

theorem boundGlobal_fst (dim : Nat) (q : Query) (merged : List (Nat × ShardCandidate)) :
    (boundGlobal dim q merged).1 = atMost (globalWidth dim q) (rank candidateOrder merged) := by
  unfold boundGlobal globalWidth
  cases q.fetchBudgetBytes with
  | none => cases q.threshold <;> rfl
  | some budget =>
    cases q.threshold with
    | none => simp [atMost, List.take_take]
    | some tau => rfl

theorem mem_of_mem_boundGlobal {merged : List (Nat × ShardCandidate)}
    (mem : p ∈ (boundGlobal dim q merged).1) : p ∈ merged := by
  rw [boundGlobal_fst] at mem
  exact (mem_rank _).mp (mem_of_mem_atMost mem)

theorem nodup_numbered (pinned : List (ReadShard × Snapshot)) :
    ((numbered pinned).map Prod.fst).Nodup := by
  rw [numbered, List.map_fst_zip (by simp)]
  exact List.nodup_range

variable {first : Round1}

theorem Staged.sound (staged : Staged env dim shards vector q start f second before first)
    (once : (start.map (·.shard)).Nodup) : before.Validated q start (numbered (shards.zip vector)) ∧
      first.Sound q start before (numbered (shards.zip vector)) ∧
      second.Sound q start first.ledger (shards.zip vector) (groupsOf dim q first.merged) := by
  have exact' : Ledger.Exact q start ⟨start, []⟩ :=
    ⟨once, by simp [Ledger.shards], fun _ => ⟨rfl, rfl⟩⟩
  have validated := validate_sound exact' staged.validated
  have sound1 := round1_sound validated.exact' (nodup_numbered _) staged.round1
  refine ⟨validated, sound1, round2_sound sound1.exact' (nodup_keys _) ?_ staged.round2⟩
  rintro ⟨si, group⟩ mem
  obtain ⟨nonempty, own⟩ := of_mem_groupBy mem
  obtain ⟨p, inside⟩ := List.exists_mem_of_ne_nil group nonempty
  obtain ⟨bounded, rfl⟩ := own p inside
  exact sound1.apart p (mem_of_mem_boundGlobal bounded)

def rowsOf (dim : Nat) (shards : List ReadShard) (vector : List Snapshot) (q : Query)
    (first : Round1) : List (Nat × ShardScored) :=
  (groupsOf dim q first.merged).flatMap (rescored (shards.zip vector) q)

/-- A run ends, with an error or with what is left of the rows that were scored. -/
theorem run_ends (env : QueryEnv) (dim : Nat) (shards : List ReadShard) (vector : List Snapshot)
    (q : Query) (once : (start.map (·.shard)).Nodup) :
    ∃ answer, run env dim shards vector q start = some answer ∧ ∀ r l, answer = .ok (r, l) →
      ∃ f second before first, Staged env dim shards vector q start f second before first ∧
        Ended f start (rowsOf dim shards vector q first) second.ledger r l := by
  unfold run
  split
  next e failed => exact ⟨_, rfl, nofun⟩
  next f second ran =>
    obtain ⟨before, first, staged⟩ := rounds_eq_ok ran
    obtain ⟨-, -, sound⟩ := staged.sound once
    obtain ⟨-, pinned, handles, query, -⟩ := staged.final
    have all : second.scored = left (rowsOf dim shards vector q first) second.ledger.shards := by
      rw [sound.scored]
      exact (left_eq_numberedFrom sound.apart).symm
    have known : ∀ row ∈ rowsOf dim shards vector q first, row.1 < f.shards.length := by
      intro row mem
      obtain ⟨item, -, own⟩ := List.mem_flatMap.mp mem
      obtain ⟨same, shard, snap, -, there, -⟩ := fst_of_mem_rescored own
      rw [pinned, same]
      exact (List.getElem?_eq_some_iff.mp there).1
    rw [all]
    obtain ⟨answer, looped, ends⟩ := finalizeLoop_ends (handles.trans sound.handles) known
      ((left (rowsOf dim shards vector q first) second.ledger.shards).length + 1) 0 second.ledger
      (query ▸ sound.exact') (query ▸ staged.whole) (Nat.lt_succ_self _)
    exact ⟨answer, looped, fun r l returned =>
      ⟨f, second, before, first, staged, ends r l returned⟩⟩

/-! ### What a partial answer says -/

/-- A shard that is missing before a query starts is one of its shards, and named once. -/
structure Listed (n : Nat) (missing : List MissingShard) : Prop where
  once : (missing.map (·.shard)).Nodup
  inRange : ∀ m ∈ missing, m.shard < n

/-- A row that is left was scored by a shard that is not gone, and what is materialized for it is
from the same shard. -/
theorem Staged.row_of_materialized
    (staged : Staged env dim shards vector q start f second before first)
    (once : (start.map (·.shard)).Nodup) {m : Materialized}
    (materialized : materializeOn f.shards f.handles attempt needed = .ok m)
    (mem : s ∈ left (rowsOf dim shards vector q first) gone) {v : Event × Nat}
    (found : m[s.pos]? = some v) : ∃ row ∈ rowsOf dim shards vector q first, row.1 ∉ gone ∧
      (handlesOf (rowsOf dim shards vector q first))[s.pos.part]? =
        some ⟨row.1, row.2.partId, row.2.row⟩ ∧
      s.score = row.2.score ∧ s.eventId = row.2.eventId ∧ s.pos.row = row.2.row ∧
      ∃ shard snap selected rows selected' events,
        (shards.zip vector)[row.1]? = some (shard, snap) ∧
        shard.rerank snap q selected = .ok rows ∧ row.2 ∈ rows ∧
        shard.materialize attempt snap selected' = .ok events ∧
        ((row.2.partId, row.2.row), v) ∈ selected'.zip events := by
  obtain ⟨-, -, sound⟩ := staged.sound once
  obtain ⟨-, pinned, handles, -⟩ := staged.final
  obtain ⟨row, inside, alive, handle, score, place, -, id⟩ := exists_row_of_mem_left mem
  obtain ⟨item, -, own⟩ := List.mem_flatMap.mp inside
  obtain ⟨same, shard, snap, rows, there, answered, scored⟩ := fst_of_mem_rescored own
  rw [pinned, handles, sound.handles] at materialized
  obtain ⟨h', shard', snap', selected, events, handle', there', answered', zipped⟩ :=
    materializeOn_eq_ok materialized found
  obtain rfl := Option.mem_unique handle handle'
  rw [same] at there'
  obtain ⟨rfl, rfl⟩ := Prod.mk.inj (Option.mem_unique there there')
  refine ⟨row, inside, alive, handle, score, id, place, shard, snap, _, rows, selected, events,
    same ▸ there, answered, scored, answered', ?_⟩
  rw [← place]
  exact zipped

/-- The shards a labelled answer names are those of the ledger, in order. -/
theorem labelled_missing {r : SearchResult} (once : l.shards.Nodup) :
    ((labelled l.missing r).missingShards.map (·.shard)).Pairwise (· < ·) ∧
      (∀ si, si ∈ (labelled l.missing r).missingShards.map (·.shard) ↔ si ∈ l.shards) ∧
      (labelled l.missing r).counters.shardsMissing = (labelled l.missing r).missingShards.length ∧
      ((labelled l.missing r).missingShards = [] ↔ l.missing = []) := by
  have perm := rank_perm (compareOn MissingShard.shard) l.missing
  have shards : ((labelled l.missing r).missingShards.map (·.shard)).Perm l.shards := perm.map _
  refine ⟨?_, fun si => shards.mem_iff, perm.length_eq.symm, ?_⟩
  · have sorted : (rank (compareOn MissingShard.shard) l.missing).Pairwise fun a b =>
        (compareOn MissingShard.shard a b).isLE := rank_pairwise l.missing
    have strict : (rank (compareOn MissingShard.shard) l.missing).Pairwise fun a b =>
        compare a.shard b.shard = .lt :=
      pairwise_lt_of_nodup sorted (shards.nodup_iff.mpr once)
    rw [List.pairwise_map]
    exact strict.imp Nat.compare_eq_lt.mp
  · rw [← List.length_eq_zero_iff, ← List.length_eq_zero_iff]
    exact Iff.of_eq (congrArg (· = 0) perm.length_eq)

/-- A shard with one row. It fails in the second round unless `scores`. -/
def oneRowShard (id : String) (dist : F32) (scores : Bool) : ReadShard where
  validateSnapshot _ := .ok ()
  candidates _ _ := .ok ⟨[⟨dist, id, "p1", 0⟩], 0⟩
  rerank _ _ selected :=
    if scores then .ok (selected.map fun (part, row) => ⟨F32.one, id, part, row, [F32.one.bits, 0]⟩)
    else .error (.io "connection reset")
  materialize _ _ selected := .ok (selected.map fun _ => (sampleEvent id, 0))

def summary (answer : Option (Result (SearchResult × Ledger))) :
    Option (List String × List Nat × List Nat) :=
  match answer with
  | some (.ok (r, l)) =>
    some (r.hits.map (·.event.eventId), r.missingShards.map (·.shard), l.failed)
  | _ => none

theorem summary_eq_some {answer : Option (Result (SearchResult × Ledger))} {ids : List String}
    {missing failed : List Nat} (shown : summary answer = some (ids, missing, failed)) :
    ∃ r l, answer = some (.ok (r, l)) ∧ r.hits.map (·.event.eventId) = ids ∧
      r.missingShards.map (·.shard) = missing ∧ l.failed = failed := by
  unfold summary at shown
  split at shown
  next r l =>
    simp only [Option.some.injEq, Prod.mk.injEq] at shown
    exact ⟨r, l, rfl, shown⟩
  next => cases shown

end Coordinator

end Prism
