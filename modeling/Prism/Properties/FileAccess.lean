import Prism.Lib.Interleaving
import Prism.Part.Files
import Prism.Properties.Catalog

/-!
What the accesses to the files of a store add up to for a process that reads the live set while
others write: a set that covers every file that was there all along.
-/

namespace Prism

open CrashLogic Catalog Fallible

variable {current : SnapshotId}

theorem mem_listSnapshots {store : Store} {id : SnapshotId} :
    id ∈ listSnapshots store ↔ id ∈ store.snapshots := by
  rw [listSnapshots, List.mem_insertionSort, Std.ExtTreeMap.mem_keys]

theorem nodup_listSnapshots (store : Store) : (listSnapshots store).Nodup :=
  (List.perm_insertionSort _ _).nodup_iff.mpr Std.ExtTreeMap.nodup_keys

/-! ### Reading the live set -/

section Retained

variable {σ : Type} {store : σ → Store} {c : Contract σ} {P : σ → Prop}
  {E : PrismError → σ → Prop} {K : SnapshotId → Snapshot → Prop}

/-- While `P` holds the files of `K` are there, and no read of them fails. -/
structure Readable (store : σ → Store) (c : Contract σ) (P : σ → Prop)
    (K : SnapshotId → Snapshot → Prop) : Prop where
  stable : c.Stable P
  stays : ∀ s, P s → c.guar s s
  answers : ∀ n s, ¬ c.allows (.fail n) s
  known : ∀ s, P s → ∀ id snap, K id snap → loadSnapshotIn (store s) id = .ok snap

variable (readable : Readable store c P K)
include readable

theorem Readable.stable_and (C : Prop) : c.Stable fun s => P s ∧ C :=
  fun _ _ ⟨start, fact⟩ moved => ⟨readable.stable _ _ start moved, fact⟩

theorem Readable.and (C : Prop) : Readable store c (fun s => P s ∧ C) K where
  stable := readable.stable_and C
  stays s start := readable.stays s start.1
  answers := readable.answers
  known s start := readable.known s start.1

/-- A loop of reads: what each of them shows of its result, whatever else holds, all of them show
together. -/
theorem readEach_secures {α β : Type} {f : α → Prog σ PrismError β} {R : α → β → Prop}
    (step : ∀ {P : σ → Prop}, Readable store c P K → ∀ x,
      Secures c (fun y s => P s ∧ R x y) E (f x) P) (xs : List α) :
    Secures c (fun ys s => P s ∧ List.Forall₂ R xs ys) E (Prog.each f xs) P := by
  refine Secures.each (I := fun done ys s => P s ∧ List.Forall₂ R done ys) xs
    (fun s start => ⟨start, .nil⟩) fun before x _ ys _ => ?_
  refine (step (readable.and (List.Forall₂ R before ys)) x).weaken ?_ fun _ _ h => h
  intro y s ⟨⟨start, related⟩, shown⟩
  exact ⟨start, List.rel_append related (.cons shown .nil)⟩

theorem readSnapshot_secures (id : SnapshotId) :
    Secures c (fun loaded s => P s ∧ ∀ snap, K id snap → loaded = .ok snap) E
      (readSnapshot store id).attempt P := by
  have read : Secures c (fun loaded s => P s ∧ ∀ snap, K id snap → loaded = snap)
      (fun _ s => P s ∧ ∀ snap, ¬ K id snap) (readSnapshot store id) P := by
    refine Secures.read (fun _ => readable.stable_and _) (fun _ => readable.stable_and _)
      readable.stays ?_ ?_ fun n s allowed _ => absurd allowed (readable.answers n s)
    · intro loaded s start found
      refine ⟨start, fun snap known => ?_⟩
      rw [readable.known s start id snap known] at found
      exact (Except.ok.inj found).symm
    · intro e s start failed
      refine ⟨start, fun snap known => ?_⟩
      rw [readable.known s start id snap known] at failed
      cases failed
  refine read.attempt.weaken (fun loaded s held => ?_) fun _ _ h => h
  cases loaded with
  | ok snap => exact ⟨held.1, fun snap' known => congrArg Except.ok (held.2 snap' known)⟩
  | error e => exact ⟨held.1, fun snap' known => absurd known (held.2 snap')⟩

theorem readYoung_secures (nowMs : Int) (pinned : List SnapshotId) (id : SnapshotId) :
    Secures c (fun young s => P s ∧ ∀ snap, K id snap → id ∉ pinned →
        saturatingSub nowMs gcHorizonMs < snap.createdAtMs → id ∈ young) E
      (readYoung store nowMs pinned id) P := by
  unfold readYoung
  split
  next mem =>
    exact Secures.pure fun s start =>
      ⟨start, fun _ _ apart => absurd (List.contains_iff_mem.mp mem) apart⟩
  next =>
    refine Secures.bind (readSnapshot_secures readable id) fun loaded => ?_
    cases loaded with
    | ok snap =>
      refine Secures.pure fun s ⟨start, same⟩ => ⟨start, fun snap' known _ young => ?_⟩
      obtain rfl := Except.ok.inj (same snap' known)
      simp [young]
    | error e =>
      exact Secures.pure fun s ⟨start, same⟩ => ⟨start, fun snap known => nomatch same snap known⟩

theorem readParts_secures (id : SnapshotId) :
    Secures c (fun parts s => P s ∧ ∀ snap, K id snap → ∀ part ∈ snap.partIds, part ∈ parts) E
      (readParts store id) P := by
  refine Secures.bind (readSnapshot_secures readable id) fun loaded => ?_
  cases loaded with
  | ok snap =>
    refine Secures.pure fun s ⟨start, same⟩ => ⟨start, fun snap' known part named => ?_⟩
    obtain rfl := Except.ok.inj (same snap' known)
    exact named
  | error e =>
    exact Secures.pure fun s ⟨start, same⟩ => ⟨start, fun snap known => nomatch same snap known⟩

/-- The live set pins the newest of the listed snapshots and `current`, holds the young ones among
the known, and the parts of every known one it holds. -/
structure Covers (K : SnapshotId → Snapshot → Prop) (retainSnapshots : Nat) (nowMs : Int)
    (current : SnapshotId) (all : List SnapshotId) (retained : Retained) : Prop where
  pinned : ∀ id ∈ all.reverse.take (max retainSnapshots 1) ++ [current], id ∈ retained.snapshots
  young : ∀ id ∈ all, ∀ snap, K id snap →
    saturatingSub nowMs gcHorizonMs < snap.createdAtMs → id ∈ retained.snapshots
  parts : ∀ id ∈ retained.snapshots, ∀ snap, K id snap →
    ∀ part ∈ snap.partIds, part ∈ retained.parts

theorem retainFrom_secures (retain : Nat) (nowMs : Int) (all : List SnapshotId) :
    Secures c (fun retained s => P s ∧ Covers K retain nowMs current all retained) E
      (retainFrom store retain nowMs current all) P := by
  unfold retainFrom
  extract_lets pinned
  refine Secures.bind (readEach_secures readable
    (fun readable id => readYoung_secures readable nowMs pinned id) all) fun young => ?_
  refine Secures.bind (readEach_secures (readable.and _) readParts_secures
    (pinned ++ young.flatten)) fun parts => Secures.pure fun s ⟨⟨start, youngs⟩, named⟩ =>
      ⟨start, ?_, ?_, ?_⟩
  · exact fun id mem => List.mem_append_left _ mem
  · intro id listed snap known young
    by_cases mem : id ∈ pinned
    · exact List.mem_append_left _ mem
    · obtain ⟨found, collected, shown⟩ := exists_left_of_forall₂ youngs.flip listed
      exact List.mem_append_right _ (List.mem_flatten.mpr
        ⟨found, collected, shown snap known mem young⟩)
  · intro id kept snap known part inside
    obtain ⟨found, collected, shown⟩ := exists_left_of_forall₂ named.flip kept
    exact List.mem_flatten.mpr ⟨found, collected, shown snap known part inside⟩

end Retained

def firstPart : Result Part :=
  buildPart ⟨"g", "m", "v", 2, 1, 64⟩ ⟨none, [], {}, none, none⟩ 1
    [⟨⟨"e0", "t1", 1000, 1000, "llm.call", ⟨0⟩, false, "hello", "", "", ∅, none⟩, 0, [0],
      [1065353216, 0]⟩] 1000

end Prism
