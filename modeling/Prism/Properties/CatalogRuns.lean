import Prism.Part.Files
import Prism.Properties.ReaderLease

/-!
Runs of the catalog by itself: parts are written, snapshots are committed on any parent and files
are collected, and each call may fail or stop at any access.
-/

namespace Prism

open CrashLogic Fallible Catalog Store

variable {retainSnapshots : Nat}

def Disk.Commit.snapshot (c : Disk.Commit) : Snapshot :=
  nextSnapshot c.parent c.entries c.nextSeq c.activeGeneration c.carried c.nowMs

inductive CatalogCall where
  | writePart (shape : PartShape) (spec : PartSpec) (seq : Nat) (rows : List RowIn) (nowMs : Int)
  | commitMeta (commit : Disk.Commit)
  | gcAt (retainSnapshots : Nat) (nowMs : Int) (dryRun : Bool)

/-- The files, the snapshot of the last commit that returned, and those of the commits since that
failed or stopped. -/
structure CatalogState where
  store : Store
  committed : Snapshot
  stopped : List Snapshot

namespace CatalogState

def fresh : CatalogState := ⟨Store.fresh, Snapshot.empty, []⟩

variable (s : CatalogState)

def step : CatalogCall × List Fault → CatalogState
  | (.writePart shape spec seq rows nowMs, faults) =>
    { s with store := (Catalog.writePart shape spec seq rows nowMs faults s.store).2.2 }
  | (.commitMeta c, faults) =>
    let (outcome, _, store) := Catalog.commitMeta c.parent c.entries c.nextSeq c.activeGeneration
      c.carried c.nowMs faults s.store
    if outcome.isOk then ⟨store, c.snapshot, []⟩
    else ⟨store, s.committed, s.stopped ++ [c.snapshot]⟩
  | (.gcAt retainSnapshots nowMs dryRun, faults) =>
    { s with store := (Catalog.gcAt retainSnapshots nowMs dryRun faults s.store).2.2 }

/-- The head is the snapshot of the last commit that returned or of one that stopped since, and the
parts it names can be opened. -/
def Sound : Prop :=
  ∃ head, currentIn s.store = .ok head ∧ (head = s.committed ∨ head ∈ s.stopped) ∧
    s.store.PartsReadable head.parts

theorem sound_fresh : fresh.Sound :=
  ⟨Snapshot.empty, rfl, .inl rfl, by simp [PartsReadable, Snapshot.empty]⟩

end CatalogState

end Prism
