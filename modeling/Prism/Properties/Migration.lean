import Prism.Properties.Redaction

/-!
The events of a store before and after some of its partitions are re-embedded into another
generation.
-/

namespace Prism

open CrashLogic Fallible Catalog Store Engine OrderedMap

/-! ### What a migration has to do -/

variable {ids : List String}

namespace Store

variable (store : Store)

def rowsAt (ids : List String) : List RowIn :=
  ids.flatMap fun id => ((store.parts[id]?).map Part.rows).getD []

theorem rowsAt_append (xs ys : List String) :
    store.rowsAt (xs ++ ys) = store.rowsAt xs ++ store.rowsAt ys := by
  simp [rowsAt]

theorem rowsAt_perm {xs ys : List String} (same : xs.Perm ys) :
    (store.rowsAt xs).Perm (store.rowsAt ys) := same.flatMap_right _

theorem rowsOf_eq_rowsAt (entries : List PartEntry) :
    store.rowsOf entries = store.rowsAt (entries.map PartEntry.partId) := by
  simp only [rowsOf, rowsAt, List.flatMap_map]

theorem rowsAt_grown {store store' : Store} (grown : Grown store store')
    (present : ∀ id ∈ ids, (store.parts[id]?).isSome) : store'.rowsAt ids = store.rowsAt ids := by
  refine List.flatMap_congr fun id mem => ?_
  obtain ⟨part, found⟩ := Option.isSome_iff_exists.mp (present id mem)
  rw [found, grown.parts id part found]

def headEvents : List Event := store.headRows.map (·.event)

end Store

namespace Engine

variable (embed : Embedder)

def embeds (r : RowIn) : Bool :=
  match embed.embedScoped (r.event.tenantId, r.event.body) with
  | .ok _ => true
  | .error _ => false

/-- The partition and the part of an entry that is not yet in `g` and still has its bodies. -/
def pendingEntry (store : Store) (g : Generation) : PartEntry → Option (PartitionKey × String)
  | .legacy _ => none
  | .located r =>
    if r.partition.generation = g.generationId then none
    else
      match store.parts[r.partId]? with
      | some part =>
        match part.manifest.s5 with
        | .ok lineage => if lineage.bodiesRedacted then none else some (r.partition, r.partId)
        | .error _ => none
      | none => none

/-- The partitions to re-embed, in the order of their keys, each with its parts. -/
def pendingPartitions (store : Store) (g : Generation) (snap : Snapshot) :
    List (PartitionKey × List String) :=
  (groupBy Prod.fst (snap.parts.filterMap (pendingEntry store g))).toList.map
    fun (key, parts) => (key, parts.map Prod.snd)

def upTo {α : Type} : Option Nat → List α → List α
  | none, xs => xs
  | some n, xs => xs.take n

def leftOf (rows : List RowIn) : List RowIn :=
  if (rows.filter (embeds embed)).isEmpty then rows else rows.filter (embeds embed)

/-- What is left of the partitions, the first ones up to the limit re-embedded. -/
def leftAfter (store : Store) (embed : Embedder) :
    Option Nat → List (PartitionKey × List String) → List RowIn
  | _, [] => []
  | some 0, (_, ids) :: rest => store.rowsAt ids ++ leftAfter store embed (some 0) rest
  | limit, (_, ids) :: rest =>
    leftOf embed (store.rowsAt ids) ++ leftAfter store embed (limit.map (· - 1)) rest

/-- In every partition that is re-embedded, every row embeds or none does. -/
def EmbedsWhole (store : Store) (embed : Embedder) (partitions : List (PartitionKey × List String)) :
    Prop :=
  ∀ partition ∈ partitions, (∃ r ∈ store.rowsAt partition.2, embeds embed r = true) →
    ∀ r ∈ store.rowsAt partition.2, embeds embed r = true

instance (store : Store) (embed : Embedder) (partitions : List (PartitionKey × List String)) :
    Decidable (EmbedsWhole store embed partitions) :=
  inferInstanceAs (Decidable (∀ partition ∈ partitions,
    (∃ r ∈ store.rowsAt partition.2, embeds embed r = true) →
      ∀ r ∈ store.rowsAt partition.2, embeds embed r = true))

/-! ### What is left, counted -/

theorem leftOf_sublist (rows : List RowIn) : (leftOf embed rows).Sublist rows := by
  unfold leftOf
  split
  · exact List.Sublist.refl rows
  · exact List.filter_sublist

theorem leftOf_eq_self {embed : Embedder} {rows : List RowIn} : leftOf embed rows = rows ↔
      ((∃ r ∈ rows, embeds embed r = true) → ∀ r ∈ rows, embeds embed r = true) := by
  unfold leftOf
  split
  next none =>
    rw [List.isEmpty_iff, List.filter_eq_nil_iff] at none
    refine ⟨fun _ ⟨r, mem, accepted⟩ => absurd accepted (none r mem), fun _ => rfl⟩
  next some =>
    rw [List.filter_eq_self]
    refine ⟨fun all _ => all, fun whole => whole ?_⟩
    rw [List.isEmpty_iff] at some
    obtain ⟨r, mem⟩ := List.exists_mem_of_ne_nil _ some
    exact ⟨r, List.mem_filter.mp mem⟩

variable {store : Store} {embed : Embedder}

theorem leftAfter_zero (partitions : List (PartitionKey × List String)) :
    leftAfter store embed (some 0) partitions = partitions.flatMap fun p => store.rowsAt p.2 := by
  induction partitions with
  | nil => rfl
  | cons p rest ih => rw [leftAfter, ih, List.flatMap_cons]

theorem leftAfter_sublist (limit : Option Nat) (partitions : List (PartitionKey × List String)) :
    (leftAfter store embed limit partitions).Sublist
      (partitions.flatMap fun p => store.rowsAt p.2) := by
  induction partitions generalizing limit with
  | nil => exact .slnil
  | cons p rest ih =>
    rw [List.flatMap_cons]
    match limit with
    | some 0 => exact List.Sublist.append (.refl _) (ih _)
    | some (n + 1) => exact List.Sublist.append (leftOf_sublist _ _) (ih _)
    | none => exact List.Sublist.append (leftOf_sublist _ _) (ih _)

/-- Two sublists side by side are whole exactly if each is. -/
theorem append_eq_iff {α : Type} {xs xs' ys ys' : List α} (left : xs.Sublist xs')
    (right : ys.Sublist ys') : xs ++ ys = xs' ++ ys' ↔ xs = xs' ∧ ys = ys' := by
  refine ⟨fun same => ?_, fun ⟨first, second⟩ => first ▸ second ▸ rfl⟩
  have lengths := congrArg List.length same
  simp only [List.length_append] at lengths
  have := left.length_le
  have := right.length_le
  exact ⟨left.eq_of_length (by omega), right.eq_of_length (by omega)⟩

theorem leftAfter_eq_iff (limit : Option Nat) (partitions : List (PartitionKey × List String)) :
    leftAfter store embed limit partitions = partitions.flatMap (fun p => store.rowsAt p.2) ↔
      EmbedsWhole store embed (upTo limit partitions) := by
  induction partitions generalizing limit with
  | nil =>
    have none : upTo limit ([] : List (PartitionKey × List String)) = [] := by
      cases limit <;> simp [upTo]
    simp [leftAfter, none, EmbedsWhole]
  | cons p rest ih =>
    match limit with
    | some 0 => simp [leftAfter_zero, upTo, EmbedsWhole]
    | some (n + 1) =>
      rw [leftAfter, List.flatMap_cons, append_eq_iff (leftOf_sublist _ _) (leftAfter_sublist _ _),
        leftOf_eq_self]
      · have := ih (some n)
        simp only [Option.map_some, Nat.add_sub_cancel] at this ⊢
        rw [this]
        simp [upTo, EmbedsWhole]
      · simp
    | none =>
      rw [leftAfter, List.flatMap_cons, append_eq_iff (leftOf_sublist _ _) (leftAfter_sublist _ _),
        leftOf_eq_self]
      · rw [Option.map_none, ih none]
        simp [upTo, EmbedsWhole]
      · simp

/-! ### The entries of a snapshot, kept or pending -/

theorem pendingEntry_some {g : Generation} {entry : PartEntry} {key : PartitionKey} {id : String}
    (pending : pendingEntry store g entry = some (key, id)) :
    id = entry.partId ∧ (store.parts[id]?).isSome := by
  cases entry with
  | legacy _ => simp [pendingEntry] at pending
  | located r =>
    simp only [pendingEntry] at pending
    split at pending
    · cases pending
    · split at pending
      next part found =>
        split at pending
        · split at pending
          · cases pending
          · obtain ⟨_, rfl⟩ := Prod.mk.inj (Option.some.inj pending)
            exact ⟨rfl, by simp [found]⟩
        · cases pending
      · cases pending

variable (g : Generation) (entries : List PartEntry)

/-- The rows of a snapshot are those of the entries that stay and of the parts to re-embed. -/
theorem rowsOf_split : (store.rowsOf (entries.filter fun e => (pendingEntry store g e).isNone) ++
      store.rowsAt ((entries.filterMap (pendingEntry store g)).map Prod.snd)).Perm
      (store.rowsOf entries) := by
  induction entries with
  | nil => exact .refl _
  | cons entry rest ih =>
    have first : store.rowsOf (entry :: rest) = store.rowsAt [entry.partId] ++ store.rowsOf rest := by
      simp [rowsOf, rowsAt]
    rw [first]
    cases pending : pendingEntry store g entry with
    | none =>
      rw [List.filter_cons_of_pos (by simp [pending]), List.filterMap_cons_none pending]
      have kept : store.rowsOf (entry :: rest.filter fun e => (pendingEntry store g e).isNone) =
          store.rowsAt [entry.partId] ++
            store.rowsOf (rest.filter fun e => (pendingEntry store g e).isNone) := by
        simp [rowsOf, rowsAt]
      rw [kept, List.append_assoc]
      exact ih.append_left _
    | some part =>
      obtain ⟨key, id⟩ := part
      obtain ⟨rfl, _⟩ := pendingEntry_some pending
      rw [List.filter_cons_of_neg (by simp [pending]), List.filterMap_cons_some pending,
        List.map_cons, ← List.singleton_append, rowsAt_append]
      exact (List.perm_append_comm_assoc ..).trans (ih.append_left _)

/-- The partitions to re-embed hold the rows of the parts to re-embed. -/
theorem pendingPartitions_perm (snap : Snapshot) :
    ((pendingPartitions store g snap).flatMap fun p => store.rowsAt p.2).Perm
      (store.rowsAt ((snap.parts.filterMap (pendingEntry store g)).map Prod.snd)) := by
  have grouped := (groupBy_perm Prod.fst
    (snap.parts.filterMap (pendingEntry store g))).map Prod.snd
  refine List.Perm.trans (.of_eq ?_) (store.rowsAt_perm grouped)
  rw [pendingPartitions, List.flatMap_map, List.map_flatMap, rowsAt, List.flatMap_assoc]
  rfl

/-- A part to re-embed is on disk and an entry of the snapshot. -/
theorem of_mem_pendingPartitions {g : Generation} {snap : Snapshot}
    {p : PartitionKey × List String} (mem : p ∈ pendingPartitions store g snap) {id : String}
    (inside : id ∈ p.2) : (store.parts[id]?).isSome ∧ id ∈ snap.partIds := by
  obtain ⟨⟨key, parts⟩, grouped, rfl⟩ := List.mem_map.mp mem
  obtain ⟨⟨key', id⟩, own, rfl⟩ := List.mem_map.mp inside
  obtain ⟨entry, named, pending⟩ := List.mem_filterMap.mp
    ((of_mem_groupBy grouped).2 (key', id) own).1
  obtain ⟨same, present⟩ := pendingEntry_some pending
  exact ⟨present, same ▸ List.mem_map_of_mem named⟩

/-! ### The migration as a program -/

def Disposes (store : Store) (g : Generation) (entry : PartEntry) : Disposition → Prop
  | .keep e => e = entry ∧ pendingEntry store g entry = none
  | .unmigratable e _ => e = entry ∧ pendingEntry store g entry = none
  | .migrate key id => pendingEntry store g entry = some (key, id)

theorem dispose_spec (entry : PartEntry) :
    Observes (dispose g entry) fun w d => Disposes w.store g entry d := by
  cases entry with
  | legacy _ => exact Observes.pure fun _ => ⟨rfl, rfl⟩
  | located r =>
    unfold dispose
    simp only
    split
    next same => exact Observes.pure fun _ => ⟨rfl, by simp [pendingEntry, same]⟩
    next other =>
      refine Observes.bind (openStored_spec r.partId) fun part =>
        Observes.bind Observes.ofExcept fun lineage => Observes.pure fun w read found => ?_
      split
      next gone => exact ⟨rfl, by simp [pendingEntry, other, found, read, gone]⟩
      next there => simp [Disposes, pendingEntry, other, found, read, there]

/-- The rows that are returned carry the events of the rows that embed. -/
theorem migratedRows_events {engine : Engine} {g : Generation} {rows new : List RowIn}
    (ran : engine.migratedRows g embed rows = .ok new) :
    new.map (·.event) = (rows.filter (embeds embed)).map (·.event) := by
  induction rows generalizing new with
  | nil =>
    cases ran
    rfl
  | cons r rest ih =>
    unfold migratedRows at ran
    cases result : embed.embedScoped (r.event.tenantId, r.event.body) with
    | error e =>
      simp only [result] at ran
      rw [ih ran, List.filter_cons_of_neg (by simp [embeds, result])]
    | ok v =>
      simp only [result] at ran
      obtain ⟨code, _, ran⟩ := bind_eq_ok.mp ran
      obtain ⟨others, later, rfl⟩ := bind_pure_eq_ok.mp ran
      rw [List.filter_cons_of_pos (by simp [embeds, result]), List.map_cons, List.map_cons, ih later]

variable (engine : Engine)

theorem migrateRowsOf_spec (g : Generation) (embed : Embedder) (ids : List String) :
    Observes (Prog.each (engine.migrateRowsOf g embed) ids) fun w parts =>
      parts.flatten.map (·.event) =
        ((w.store.rowsAt ids).filter (embeds embed)).map (·.event) := by
  have one (id : String) : Observes (engine.migrateRowsOf g embed id) fun w new =>
      new.map (·.event) = ((w.store.rowsAt [id]).filter (embeds embed)).map (·.event) := by
    refine Observes.bind (openAndRead_spec id) fun out =>
      Observes.ofExcept.weaken fun w new ran ⟨found, rows⟩ => ?_
    have own : w.store.rowsAt [id] = out.2 := by simp [rowsAt, found, rows]
    rw [own, migratedRows_events ran]
  refine (Observes.each one ids).weaken fun w parts read => ?_
  induction read with
  | nil => rfl
  | @cons id _ ids _ here _ ih =>
    rw [List.flatten_cons, List.map_append, here, ih, ← List.map_append, ← List.filter_append,
      ← rowsAt_append, List.singleton_append]

theorem rewritePartition_spec (g : Generation) (lineage : S5Ext) (nowMs : Int)
    (item : Nat × PartitionKey × List RowIn) (start : World) :
    Triple (· = start) (engine.rewritePartition g lineage nowMs item)
      (fun out w => Grown start.store w.store ∧
        (w.store.clashed = false → Holds w.store item out.1)) (fun _ => True) := by
  refine Observes.ofExcept.bind_triple trivial fun tokenizer _ => ?_
  exact Triple.bind ((storePart_spec _ _ item).stopping
    fun _ _ => trivial) fun _ => Triple.pure fun _ held => ⟨held.1, held.2.2⟩

theorem entriesOf_ids {snap : Snapshot} (named : ∀ id ∈ ids, id ∈ snap.partIds) :
    (entriesOf snap ids).map PartEntry.partId = ids := by
  induction ids with
  | nil => rfl
  | cons id rest ih =>
    obtain ⟨entry, mem, own⟩ := List.mem_map.mp (named id List.mem_cons_self)
    have found : (snap.parts.find? (·.partId = id)).isSome := by
      rw [List.find?_isSome]
      exact ⟨entry, mem, by simpa using own⟩
    obtain ⟨first, here⟩ := Option.isSome_iff_exists.mp found
    have same : first.partId = id := by simpa using List.find?_some here
    rw [entriesOf, List.filterMap_cons, here, List.map_cons, same]
    exact congrArg (id :: ·) (ih fun other inside => named other (List.mem_cons_of_mem _ inside))

def Adds (store : Store) (before after : List PartEntry) (rows : List RowIn) : Prop :=
  ∃ new, after = before ++ new ∧ store.PartsPresent new ∧
    ((store.rowsOf new).map (·.event)).Perm (rows.map (·.event))

namespace Adds

variable {before middle after : List PartEntry} {rows more : List RowIn}

theorem nil (store : Store) (entries : List PartEntry) : Adds store entries entries [] :=
  ⟨[], (List.append_nil _).symm, by simp [PartsPresent], by simp [rowsOf]⟩

theorem grown {store' : Store} (adds : Adds store before after rows) (grown : Grown store store') :
    Adds store' before after rows := by
  obtain ⟨new, added, present, held⟩ := adds
  refine ⟨new, added, fun entry mem => ?_, ?_⟩
  · obtain ⟨part, found⟩ := present entry mem
    exact ⟨part, grown.parts _ _ found⟩
  · rwa [rowsOf_of_parts grown.parts present]

theorem append (first : Adds store before middle rows) (second : Adds store middle after more) :
    Adds store before after (rows ++ more) := by
  obtain ⟨new, rfl, present, held⟩ := first
  obtain ⟨new', rfl, present', held'⟩ := second
  refine ⟨new ++ new', List.append_assoc .., fun entry mem => ?_, ?_⟩
  · rcases List.mem_append.mp mem with inside | inside
    · exact present entry inside
    · exact present' entry inside
  · rw [rowsOf_append, List.map_append, List.map_append]
    exact held.append held'

end Adds

/-- Parts that are kept as they are keep their rows. -/
theorem entriesOf_adds {snap : Snapshot}
    (known : ∀ id ∈ ids, (store.parts[id]?).isSome ∧ id ∈ snap.partIds) :
    Adds store entries (entries ++ entriesOf snap ids) (store.rowsAt ids) := by
  have named := entriesOf_ids fun id inside => (known id inside).2
  refine ⟨entriesOf snap ids, rfl, fun entry mem => ?_, ?_⟩
  · have inside : entry.partId ∈ ids := named ▸ List.mem_map_of_mem mem
    exact Option.isSome_iff_exists.mp (known _ inside).1
  · rw [rowsOf_eq_rowsAt, named]

theorem migratePartition_spec (snap : Snapshot) (g : Generation) (embed : Embedder) (nowMs : Int)
    (s : Migrated) (key : PartitionKey) (ids : List String) (start : World)
    (known : ∀ id ∈ ids, (start.store.parts[id]?).isSome ∧ id ∈ snap.partIds) :
    Triple (· = start) (engine.migratePartition snap g embed nowMs s key ids)
      (fun done w => Grown start.store w.store ∧ (w.store.clashed = false →
        Adds w.store s.keep done.keep (leftOf embed (start.store.rowsAt ids))))
      (fun _ => True) := by
  refine (migrateRowsOf_spec engine g embed ids).bind_triple trivial fun parts events => ?_
  -- No row embeds exactly if no row is rewritten.
  have lengths := congrArg List.length events
  simp only [List.length_map] at lengths
  dsimp only
  split
  next none =>
    refine Triple.pure ?_
    rintro _ rfl
    rw [List.isEmpty_iff_length_eq_zero, lengths, ← List.isEmpty_iff_length_eq_zero] at none
    rw [leftOf, if_pos none]
    exact ⟨Grown.refl _, fun _ => entriesOf_adds s.keep known⟩
  next some =>
    rw [List.isEmpty_iff_length_eq_zero, lengths, ← List.isEmpty_iff_length_eq_zero] at some
    refine Triple.bind (rewritePartition_spec engine g _ nowMs _ start) fun out => Triple.pure ?_
    rintro w ⟨grown, held⟩
    refine ⟨grown, fun clean => ?_⟩
    rw [leftOf, if_neg some]
    have holds := (held clean).1
    obtain ⟨part, found, rows⟩ := Option.map_eq_some_iff.mp holds
    refine ⟨[.located out.1], rfl, fun entry mem => ?_, ?_⟩
    · rw [List.mem_singleton.mp mem]
      exact ⟨part, found⟩
    · have own : w.store.rowsOf [.located out.1] = sortRows parts.flatten := by
        simp [rowsOf, PartEntry.partId, found, rows]
      rw [own, ← events]
      exact (sortRows_perm _).map _

theorem migratePartitions_spec (snap : Snapshot) (g : Generation) (embed : Embedder) (nowMs : Int)
    (first : Store) (limit : Option Nat) (s : Migrated)
    (partitions : List (PartitionKey × List String)) (start : World)
    (before : Grown first start.store)
    (known : ∀ p ∈ partitions, ∀ id ∈ p.2, (first.parts[id]?).isSome ∧ id ∈ snap.partIds) :
    Triple (· = start) (engine.migratePartitions snap g embed nowMs limit s partitions)
      (fun done w => Grown start.store w.store ∧ (w.store.clashed = false →
        Adds w.store s.keep done.keep (leftAfter first embed limit partitions)))
      (fun _ => True) := by
  -- Along the list; the store only grows, so every partition is read as it was at first.
  induction partitions generalizing limit s start with
  | nil =>
    unfold migratePartitions
    refine Triple.pure ?_
    rintro _ rfl
    exact ⟨Grown.refl _, fun _ => Adds.nil _ _⟩
  | cons p rest ih =>
    obtain ⟨key, ids⟩ := p
    have later := fun p mem => known p (List.mem_cons_of_mem _ mem)
    have here := known (key, ids) List.mem_cons_self
    have still : ∀ id ∈ ids, (start.store.parts[id]?).isSome ∧ id ∈ snap.partIds := by
      intro id inside
      obtain ⟨part, found⟩ := Option.isSome_iff_exists.mp (here id inside).1
      exact ⟨by simp [before.parts _ _ found], (here id inside).2⟩
    have read := rowsAt_grown before fun id inside => (here id inside).1
    have step : ∀ remaining, Triple (· = start)
        (engine.migratePartition snap g embed nowMs s key ids >>= fun s =>
          engine.migratePartitions snap g embed nowMs remaining s rest)
        (fun done w => Grown start.store w.store ∧ (w.store.clashed = false →
          Adds w.store s.keep done.keep
            (leftOf embed (first.rowsAt ids) ++ leftAfter first embed remaining rest)))
        (fun _ => True) := by
      intro remaining
      refine Triple.bind (migratePartition_spec engine snap g embed nowMs s key ids start still)
        fun s' => ?_
      refine Triple.fix ?_
      rintro w ⟨grown, adds⟩
      refine (ih remaining s' w (before.trans grown) later).weaken ?_
      rintro done w' ⟨grown', adds'⟩
      refine ⟨grown.trans grown', fun clean => ?_⟩
      rw [← read]
      exact ((adds (grown'.not_clashed clean)).grown grown').append (adds' clean)
    rcases limit with _ | _ | n
    · exact step none
    · refine (ih (some 0) _ start before later).weaken ?_
      rintro done w ⟨grown, adds⟩
      refine ⟨grown, fun clean => ?_⟩
      rw [leftAfter, ← read]
      exact ((entriesOf_adds s.keep still).grown grown).append (adds clean)
    · exact step (some n)

/-- The dispositions of the entries keep those that are not pending, and list the others. -/
theorem disposed_split {g : Generation} {entries : List PartEntry} {ds : List Disposition}
    (disposed : List.Forall₂ (Disposes store g) entries ds) : (ds.filterMap fun
      | .keep e => some e
      | .unmigratable e _ => some e
      | .migrate _ _ => none) = entries.filter (fun e => (pendingEntry store g e).isNone) ∧
    (ds.filterMap fun
      | .migrate key id => some (key, id)
      | _ => none) = entries.filterMap (pendingEntry store g) := by
  induction disposed with
  | nil => exact ⟨rfl, rfl⟩
  | @cons entry d entries ds here _ ih =>
    obtain ⟨kept, pending⟩ := ih
    cases d with
    | keep e | unmigratable e _ =>
      obtain ⟨rfl, stays⟩ := here
      simp [stays, kept, pending]
    | migrate key id =>
      have moves : pendingEntry store g entry = some (key, id) := here
      simp [moves, kept, pending]

/-- After a migration the head has the entries that stay, and parts with what is left of the
others. -/
def Migrates (start : Store) (snap : Snapshot) (g : Generation) (embed : Embedder)
    (limit : Option Nat) (store : Store) : Prop :=
  ∃ entries, store.headRows = store.rowsOf entries ∧
    (∀ (id : String) (part : Part), start.parts[id]? = some part → store.parts[id]? = some part) ∧
    Adds store (snap.parts.filter fun e => (pendingEntry start g e).isNone) entries
      (leftAfter start embed limit (pendingPartitions start g snap))

theorem reembedParts_spec (snap : Snapshot) (g : Generation) (limit : Option Nat)
    (state : GenerationState) (nowMs : Int) (start : World) :
    Triple (· = start) (engine.reembedParts snap g limit state nowMs)
      (fun _ w => ∃ embed, engine.plane.embedder g.modelId g.modelVersion = .ok embed ∧
        (w.store.clashed = false → Migrates start.store snap g embed limit w.store))
      (fun _ => True) := by
  refine Observes.ofExcept.bind_triple trivial fun embed found => ?_
  refine (Observes.each (dispose_spec g) snap.parts).bind_triple trivial fun ds disposed => ?_
  obtain ⟨kept, pending⟩ := disposed_split disposed
  dsimp only
  erw [kept, pending]
  have known : ∀ p ∈ pendingPartitions start.store g snap, ∀ id ∈ p.2,
      (start.store.parts[id]?).isSome ∧ id ∈ snap.partIds :=
    fun p mem id inside => of_mem_pendingPartitions mem inside
  refine Triple.bind (migratePartitions_spec engine snap g embed nowMs start.store limit _
    (pendingPartitions start.store g snap) start (Grown.refl _) known) fun done => ?_
  refine Triple.fix fun w ⟨grown, adds⟩ => ?_
  refine Triple.bind (onStore_spec ((commitMeta_spec snap done.keep done.nextSeq _
    (migrationMeta snap g state) nowMs w.store).conseq (fun _ h => h) ?_ fun _ _ => trivial))
    fun committed => Triple.pure fun _ held => held
  rintro _ store ⟨rfl, rfl, _⟩
  refine ⟨embed, found, fun clean => ⟨done.keep, ?_, grown.parts, ?_⟩⟩
  · rw [Store.headRows, currentIn_install]
    rfl
  · exact adds clean

/-! ### The two calls -/

inductive MigrationCall
  | canary (maxPartitions : Nat)
  | migrate (maxPartitions : Option Nat)
  deriving DecidableEq, Repr

namespace MigrationCall

def run (call : MigrationCall) (engine : Engine) (genId : String) (nowMs : Int) : Io MigrateReport :=
  match call with
  | canary maxPartitions => engine.generationCanary genId maxPartitions nowMs
  | migrate maxPartitions => engine.generationMigrate genId maxPartitions nowMs

def limit : MigrationCall → Option Nat
  | canary maxPartitions => some maxPartitions
  | migrate maxPartitions => maxPartitions

end MigrationCall

theorem migrationCall_spec (call : MigrationCall) (engine : Engine) (genId : String) (nowMs : Int)
    (start : World) : Triple (· = start) (call.run engine genId nowMs)
      (fun _ w => ∃ snap g embed, currentIn start.store = .ok snap ∧
        start.store.generations[genId]? = some g ∧
        engine.plane.embedder g.modelId g.modelVersion = .ok embed ∧
        (w.store.clashed = false → Migrates start.store snap g embed call.limit w.store))
      (fun _ => True) := by
  -- Both calls read the generation and the snapshot, and differ in what they do with them.
  have opened (next : Generation → Snapshot → Io MigrateReport)
      (after : ∀ snap g, Triple (· = start) (next g snap) (fun _ w => ∃ embed,
        engine.plane.embedder g.modelId g.modelVersion = .ok embed ∧
        (w.store.clashed = false → Migrates start.store snap g embed call.limit w.store))
        (fun _ => True)) :
      Triple (· = start) (onStore (Catalog.getGeneration genId) >>= fun g =>
        snapshot >>= fun snap => next g snap)
        (fun _ w => ∃ snap g embed, currentIn start.store = .ok snap ∧
          start.store.generations[genId]? = some g ∧
          engine.plane.embedder g.modelId g.modelVersion = .ok embed ∧
          (w.store.clashed = false → Migrates start.store snap g embed call.limit w.store))
        (fun _ => True) := by
    refine getGeneration_spec.bind_triple trivial fun g found => ?_
    refine snapshot_spec.bind_triple trivial fun snap head => ?_
    exact (after snap g).weaken fun _ _ ⟨embed, left⟩ => ⟨snap, g, embed, head, found, left⟩
  cases call with
  | canary maxPartitions =>
    refine opened _ fun snap g => ?_
    split
    · exact reembedParts_spec engine snap g (some maxPartitions) .canary nowMs start
    · exact reembedParts_spec engine snap g (some maxPartitions) .canary nowMs start
    · exact Triple.throw fun _ _ => trivial
    · exact Triple.throw fun _ _ => trivial
  | migrate maxPartitions =>
    exact opened _ fun snap g => reembedParts_spec engine snap g maxPartitions .active nowMs start

end Engine

/-- The events of the head are the same after a migration exactly if, in every partition it
re-embeds, the model takes every row or none. -/
theorem migration_keeps_events_iff (call : MigrationCall) (engine : Engine) (genId : String)
    (nowMs : Int) (faults rest : List Fault) (start w : World) (report : MigrateReport)
    (intact : start.store.Intact)
    (ran : call.run engine genId nowMs faults start = (.ok report, rest, w))
    (clean : w.store.clashed = false) :
    ∃ snap g embed, currentIn start.store = .ok snap ∧ start.store.generations[genId]? = some g ∧
      engine.plane.embedder g.modelId g.modelVersion = .ok embed ∧
      (w.store.headEvents.Perm start.store.headEvents ↔
        EmbedsWhole start.store embed (upTo call.limit (pendingPartitions start.store g snap))) := by
  have ended := migrationCall_spec call engine genId nowMs start faults start rfl
  rw [ran] at ended
  obtain ⟨snap, g, embed, head, found, model, left⟩ := ended
  refine ⟨snap, g, embed, head, found, model, ?_⟩
  obtain ⟨entries, after, kept, new, rfl, _, held⟩ := left clean
  obtain ⟨snap', head', present⟩ := intact
  obtain rfl := ok_unique head head'
  -- Before: the entries that stay and all rows that are pending. After: what is left of those.
  have before : start.store.headEvents.Perm
      ((start.store.rowsOf (snap.parts.filter fun e => (pendingEntry start.store g e).isNone)).map
        (·.event) ++ ((pendingPartitions start.store g snap).flatMap
          fun p => start.store.rowsAt p.2).map (·.event)) := by
    rw [Store.headEvents, Store.headRows, head, ← List.map_append]
    exact ((((pendingPartitions_perm g snap).append_left _).trans
      (rowsOf_split g snap.parts)).map _).symm
  have stays : w.store.rowsOf (snap.parts.filter fun e => (pendingEntry start.store g e).isNone) =
      start.store.rowsOf (snap.parts.filter fun e => (pendingEntry start.store g e).isNone) :=
    rowsOf_of_parts kept fun entry mem => present entry (List.mem_filter.mp mem).1
  have now : w.store.headEvents.Perm
      ((start.store.rowsOf (snap.parts.filter fun e => (pendingEntry start.store g e).isNone)).map
        (·.event) ++ (leftAfter start.store embed call.limit
          (pendingPartitions start.store g snap)).map (·.event)) := by
    rw [Store.headEvents, after, rowsOf_append, stays, List.map_append]
    exact held.append_left _
  rw [now.congr_left, before.congr_right, List.perm_append_left_iff, ← leftAfter_eq_iff]
  refine ⟨fun same => (leftAfter_sublist _ _).eq_of_length ?_, fun same => same ▸ .refl _⟩
  simpa using same.length_eq

/-! ### A model that refuses a body -/

/-- The new version of the model takes no body that is a secret. -/
def carefulEmbedder (modelId modelVersion : String) : Embedder :=
  { sampleEmbedder modelId modelVersion with
    embedScoped := fun (_, body) =>
      if modelVersion = "v2" ∧ body = "secret" then .error (.invalid "refused") else .ok [0, 0] }

def carefulEngine : Engine :=
  { sampleEngine with
    plane := { samplePlane with
      embedder := fun modelId modelVersion => .ok (carefulEmbedder modelId modelVersion)
      candidateEmbedder := fun modelId modelVersion => .ok (carefulEmbedder modelId modelVersion) } }

/-- A generation of the new version is created between two events of a partition. -/
def beforeMigration (body : String) : World :=
  let first := (carefulEngine.ingest [sampleEvent "e1"] 1000 [] World.fresh).2.2
  let created := (carefulEngine.generationCreate (some "v2") 2000 [] first).2.2
  (carefulEngine.ingest [{ sampleEvent "e2" with body }] 3000 [] created).2.2

instance (store : Store) : Decidable store.Intact :=
  match head : currentIn store with
  | .ok snap => decidable_of_iff (∀ entry ∈ snap.parts, (store.parts[entry.partId]?).isSome) <| by
      simp only [Store.Intact, head, Except.ok.injEq, exists_eq_left', PartsPresent,
        Option.isSome_iff_exists]
  | .error _ => isFalse fun ⟨_, head', _⟩ => by rw [head] at head'; cases head'

def eventsAfter : Outcome PrismError MigrateReport × List Fault × World → Option (List Event)
  | (.ok _, _, w) => if w.store.clashed then none else some w.store.headEvents
  | _ => none

set_option maxRecDepth 100000

theorem migration_keeps_events_plain :
    ∃ (report : MigrateReport) (rest : List Fault) (w : World),
      carefulEngine.generationMigrate "g-v2" none 4000 [] (beforeMigration "hello") =
        (.ok report, rest, w) ∧
      w.store.headEvents.Perm (beforeMigration "hello").store.headEvents := by
  have facts : (beforeMigration "hello").store.Intact ∧
      (eventsAfter (carefulEngine.generationMigrate "g-v2" none 4000 []
        (beforeMigration "hello"))).isSome = true ∧
      (currentIn (beforeMigration "hello").store).toOption.all (fun snap =>
        ((beforeMigration "hello").store.generations["g-v2"]?).all fun g =>
          EmbedsWhole (beforeMigration "hello").store (carefulEmbedder g.modelId g.modelVersion)
            (pendingPartitions (beforeMigration "hello").store g snap)) = true := by
    decide +kernel
  obtain ⟨intact, ran, whole⟩ := facts
  cases outcome : carefulEngine.generationMigrate "g-v2" none 4000 [] (beforeMigration "hello") with
  | mk result state =>
    obtain ⟨rest, w⟩ := state
    rw [outcome] at ran
    cases result with
    | ok report =>
      have clean : w.store.clashed = false := by
        cases clashed : w.store.clashed <;> simp [eventsAfter, clashed] at ran ⊢
      obtain ⟨snap, g, embed, head, found, model, same⟩ := migration_keeps_events_iff (.migrate none)
        carefulEngine "g-v2" 4000 [] rest (beforeMigration "hello") w report intact outcome clean
      cases model
      rw [head, found] at whole
      exact ⟨report, rest, w, rfl, same.mpr (of_decide_eq_true whole)⟩
    | err _ | crashed => cases ran

/-- The event that does not embed is in no part of the new snapshot. -/
theorem migration_drops_refused_event :
    (beforeMigration "secret").store.headEvents =
      [sampleEvent "e1", { sampleEvent "e2" with body := "secret" }] ∧
    eventsAfter (carefulEngine.generationMigrate "g-v2" none 4000 [] (beforeMigration "secret")) =
      some [sampleEvent "e1"] := by
  decide +kernel

end Prism
