import Prism.Properties.MergeRows

/-!
Rollback against the snapshot it goes back to.
-/

namespace Prism

open CrashLogic Catalog Store

/-- The rows that queries see in a snapshot: those of its parts whose ids are not deleted in it. -/
def Store.visibleRows (store : Store) (snap : Snapshot) : List RowIn :=
  (store.rowsOf snap.parts).filter fun r => !snap.isTombstoned r.event.eventId

structure Restores (store : Store) (target new : Snapshot) : Prop where
  parts : new.parts = target.parts
  active : new.activeGeneration = target.activeGeneration
  generations : new.generations = target.generations
  visible : ∀ r, r ∈ store.visibleRows new ↔ r ∈ store.visibleRows target

/-- A rollback commits the parts and the active generation of the target on the head; all else is
carried over from the head. -/
theorem rollback_spec (toId : SnapshotId) (nowMs : Int) (start : World) :
    Triple (· = start) (Engine.rollback toId nowMs)
      (fun _ w => ∃ target head, loadSnapshotIn start.store toId = .ok target ∧
        currentIn start.store = .ok head ∧ start.store.PartsPresent target.parts ∧
        w.store = install (nextSnapshot head target.parts (max head.nextSeq target.nextSeq)
          target.activeGeneration (SnapshotMeta.of head) nowMs) start.store)
      (fun _ => True) := by
  refine (Engine.onStore_observes Observes.read).bind_triple trivial fun target loaded => ?_
  refine Engine.snapshot_spec.bind_triple trivial fun head named => ?_
  refine Triple.bind (Engine.onStore_spec ((commitMeta_spec head target.parts _ _ _ nowMs
    start.store).conseq (fun _ h => h) ?_ fun _ _ => trivial)) fun _ => Triple.pure fun _ h => h
  rintro _ store ⟨_, rfl, readable⟩
  exact ⟨target, head, loaded, named, readable.present, rfl⟩

/-- Which rows of a snapshot's parts are visible is decided by its tombstones. -/
theorem visible_iff_tombstones {store : Store} {target new : Snapshot}
    (parts : new.parts = target.parts) :
    (∀ r, r ∈ store.visibleRows new ↔ r ∈ store.visibleRows target) ↔
      ∀ r ∈ store.rowsOf target.parts,
        new.isTombstoned r.event.eventId = target.isTombstoned r.event.eventId := by
  simp only [Store.visibleRows, parts, List.mem_filter]
  constructor
  · intro same r mem
    have both : (!new.isTombstoned r.event.eventId) = !target.isTombstoned r.event.eventId := by
      simpa [mem, ← Bool.eq_iff_iff] using same r
    simpa using both
  · intro agree r
    refine and_congr_right fun mem => ?_
    rw [agree r mem]

/-- **When a rollback restores.** A rollback that returns shows what its target showed exactly if
the head it was called on has the lifecycle map of the target and the same ids deleted among
the rows of the target's parts. -/
theorem rollback_restores_iff (toId : SnapshotId) (nowMs : Int) (faults rest : List Fault)
    (start w : World) (id : SnapshotId)
    (ran : Engine.rollback toId nowMs faults start = (.ok id, rest, w)) :
    ∃ target head new, loadSnapshotIn start.store toId = .ok target ∧
      currentIn start.store = .ok head ∧ currentIn w.store = .ok new ∧
      (Restores w.store target new ↔
        head.generations = target.generations ∧
          ∀ r ∈ start.store.rowsOf target.parts,
            head.isTombstoned r.event.eventId = target.isTombstoned r.event.eventId) := by
  have ends := rollback_spec toId nowMs start faults start rfl
  rw [ran] at ends
  obtain ⟨target, head, loaded, current, _, committed⟩ := ends
  refine ⟨target, head, _, loaded, current, committed ▸ currentIn_install _ _, ?_⟩
  -- The commit adds no part, so both stores hold the same rows for the target.
  have rows : w.store.rowsOf target.parts = start.store.rowsOf target.parts := by
    rw [committed]
    rfl
  constructor
  · intro restores
    refine ⟨restores.generations, ?_⟩
    rw [← rows]
    exact (visible_iff_tombstones restores.parts).mp restores.visible
  · rintro ⟨generations, agree⟩
    have parts : (nextSnapshot head target.parts (max head.nextSeq target.nextSeq)
        target.activeGeneration (SnapshotMeta.of head) nowMs).parts = target.parts := rfl
    refine ⟨parts, rfl, generations, (visible_iff_tombstones parts).mpr ?_⟩
    rw [rows]
    exact agree

def twoWindows : World :=
  ingested [[sampleEvent "e1", { sampleEvent "e2" with eventTime := 86401000 }]]

set_option maxRecDepth 100000

theorem rollback_restores_iff_untouched :
    ∃ id rest w target head new, Engine.rollback 1 2000 [] twoWindows = (.ok id, rest, w) ∧
      loadSnapshotIn twoWindows.store 1 = .ok target ∧ currentIn twoWindows.store = .ok head ∧
      currentIn w.store = .ok new ∧
      (Restores w.store target new ↔
        head.generations = target.generations ∧
          ∀ r ∈ twoWindows.store.rowsOf target.parts,
            head.isTombstoned r.event.eventId = target.isTombstoned r.event.eventId) := by
  have returns : (Engine.rollback 1 2000 [] twoWindows).1.isOk = true := by decide +kernel
  generalize run : Engine.rollback 1 2000 [] twoWindows = result at returns
  obtain ⟨_ | _ | _, rest, w⟩ := result
  · obtain ⟨target, head, new, loaded, current, committed, restores⟩ :=
      rollback_restores_iff 1 2000 [] rest twoWindows w _ run
    exact ⟨_, rest, w, target, head, new, rfl, loaded, current, committed, restores⟩
  · cases returns
  · cases returns

/-- `e1` is deleted, a merge drops its row and the tombstones, and the store goes back to the
snapshot of the delete. -/
def deletedThenBack : World :=
  let deleted := (Engine.delete ["e1"] 2000 [] twoWindows).2.2
  let merged := (sampleEngine.merge none 3000 [] deleted).2.2
  (Engine.rollback 2 4000 [] merged).2.2

/-- The snapshot of the delete does not show `e1`; the rollback to it does. -/
theorem rollback_shows_deleted_row :
    (match loadSnapshotIn deletedThenBack.store 2, currentIn deletedThenBack.store with
      | .ok target, .ok new => some
          ((deletedThenBack.store.visibleRows target).map (·.event.eventId),
            (deletedThenBack.store.visibleRows new).map (·.event.eventId))
      | _, _ => none) = some (["e2"], ["e1", "e2"]) := by
  decide +kernel

end Prism
