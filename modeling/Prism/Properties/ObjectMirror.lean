import Prism.Engine.Objects

/-!
What a crash inside `mirror_snapshot` leaves on a local object store, and what the next call of the
same writer makes of it.
-/

namespace Prism

open CrashLogic OrderedMap

namespace LocalObjectStore

variable {files : Files} {key : String} {bytes existing : Bytes}

def crashAt (position progress : Nat) : List Fault :=
  List.replicate position .proceed ++ [.crash progress]

def leftAt (bytes : Bytes) (progress : Nat) : (position : Nat) → Option Bytes
  | 0 => none
  | 1 => if progress = 0 then none else some []
  | 2 => some (bytes.take progress)
  | _ + 3 => some bytes

theorem not_contains_of_getElem? (absent : files[key]? = none) : files.contains key = false := by
  rw [Std.ExtTreeMap.contains_eq_isSome_getElem?, absent]
  rfl

/-- Creating what exists changes nothing. -/
theorem insertIfNew_held (held : files[key]? = some existing) (bytes : Bytes) :
    files.insertIfNew key bytes = files := by
  apply Std.ExtTreeMap.ext_getElem?
  intro other
  rw [Std.ExtTreeMap.getElem?_insertIfNew]
  split
  next new =>
    exact absurd (mem_of_getElem? held) new.2
  · rfl

theorem getElem?_created (absent : files[key]? = none) :
    (files.insertIfNew key bytes)[key]? = some bytes := by
  rw [Std.ExtTreeMap.getElem?_insertIfNew, if_pos]
  refine ⟨Std.ReflCmp.compare_self, fun mem => ?_⟩
  rw [Std.ExtTreeMap.mem_iff_isSome_getElem?, absent] at mem
  exact absurd mem (by simp)

theorem putIfAbsent_held (held : files[key]? = some existing) (bytes : Bytes)
    (position progress : Nat) :
    ∃ outcome rest, putIfAbsent key bytes (crashAt position progress) files = (outcome, rest, files) ∧
      (outcome = .crashed ∨ outcome = .ok false) := by
  have present := contains_of_getElem? held
  match position with
  | 0 => exact ⟨_, _, rfl, .inl rfl⟩
  | 1 =>
    refine ⟨.crashed, [], ?_, .inl rfl⟩
    simp [putIfAbsent, crashAt, Prog.run_bind, ensureDir, createNew, Prog.run_read, Prog.run_update,
      insertIfNew_held held]
  | k + 2 =>
    refine ⟨.ok false, crashAt k progress, ?_, .inr rfl⟩
    simp [putIfAbsent, crashAt, List.replicate_succ, Prog.run_bind, ensureDir, createNew,
      Prog.run_read, Prog.run_update, insertIfNew_held held, present]
    rfl

theorem putIfAbsent_absent (absent : files[key]? = none) (bytes : Bytes) (position progress : Nat) :
    ∃ outcome rest files',
      putIfAbsent key bytes (crashAt position progress) files = (outcome, rest, files') ∧
        (outcome = .crashed ∨ outcome = .ok true) ∧ files'[key]? = leftAt bytes progress position := by
  have new := not_contains_of_getElem? absent
  match position with
  | 0 => exact ⟨_, _, files, rfl, .inl rfl, absent⟩
  | 1 =>
    refine ⟨.crashed, [], if progress = 0 then files else files.insertIfNew key [], ?_, .inl rfl, ?_⟩
    · simp [putIfAbsent, crashAt, Prog.run_bind, ensureDir, createNew, Prog.run_read,
        Prog.run_update]
    · split
      next none => simp [leftAt, none, absent]
      next some =>
        rw [getElem?_created absent]
        simp [leftAt, some]
  | 2 =>
    refine ⟨.crashed, [], (files.insertIfNew key []).insert key (bytes.take progress), ?_, .inl rfl,
      Std.ExtTreeMap.getElem?_insert_self⟩
    simp [putIfAbsent, crashAt, List.replicate_succ, Prog.run_bind, ensureDir, createNew,
      Prog.run_read, Prog.run_update, new, writeAll, Prog.run_act]
  | 3 =>
    refine ⟨.crashed, [], (files.insertIfNew key []).insert key bytes, ?_, .inl rfl,
      Std.ExtTreeMap.getElem?_insert_self⟩
    simp [putIfAbsent, crashAt, List.replicate_succ, Prog.run_bind, ensureDir, createNew,
      Prog.run_read, Prog.run_update, new, writeAll, Prog.run_act]
    rfl
  | k + 4 =>
    refine ⟨.ok true, crashAt k progress, (files.insertIfNew key []).insert key bytes, ?_, .inr rfl,
      Std.ExtTreeMap.getElem?_insert_self⟩
    simp [putIfAbsent, crashAt, List.replicate_succ, Prog.run_bind, ensureDir, createNew,
      Prog.run_read, Prog.run_update, new, writeAll, Prog.run_act]
    rfl

theorem readBack_leaves (key : String) (bytes : Bytes) : Leaves id (backend.readBack key bytes) :=
  Leaves.bind Leaves.read fun _ => Leaves.pure

/-- What a publication that a crash cuts short leaves under its key. -/
theorem casPublish_left (key : String) (bytes : Bytes) (position progress : Nat) (files : Files) :
    (backend.casPublish key bytes (crashAt position progress) files).2.2[key]? =
      (files[key]?).or (leftAt bytes progress position) := by
  cases found : files[key]? with
  | none =>
    obtain ⟨outcome, rest, files', ran, ends, left⟩ :=
      putIfAbsent_absent found bytes position progress
    simp only [ObjectStore.casPublish, backend, Prog.run_bind, Prog.run_attempt, ran]
    rcases ends with rfl | rfl
    · exact left
    · exact left
  | some existing =>
    obtain ⟨outcome, rest, ran, ends⟩ := putIfAbsent_held found bytes position progress
    simp only [ObjectStore.casPublish, backend, Prog.run_bind, Prog.run_attempt, ran]
    rcases ends with rfl | rfl
    · exact found
    · have same : (backend.readBack key bytes rest files).2.2 = files :=
        (readBack_leaves key bytes).run rest files
      exact (congrArg (·[key]?) same).trans found

/-- A publication without faults is decided by what is there. -/
theorem casPublish_nil (key : String) (bytes : Bytes) (files : Files) :
    (backend.casPublish key bytes [] files).1 =
      match files[key]? with
      | none => .ok .created
      | some existing => .ok (ObjectStore.outcomeOf existing bytes) := by
  cases found : files[key]? with
  | none =>
    have new := not_contains_of_getElem? found
    have ran : putIfAbsent key bytes [] files =
        (.ok true, [], (files.insertIfNew key []).insert key bytes) := by
      simp [putIfAbsent, Prog.run_bind, ensureDir, createNew, Prog.run_read_nil,
        Prog.run_update_nil, new, writeAll, Prog.run_act]
      rfl
    simp only [ObjectStore.casPublish, backend, Prog.run_bind, Prog.run_attempt, ran]
    rfl
  | some existing =>
    have present := contains_of_getElem? found
    have ran : putIfAbsent key bytes [] files = (.ok false, [], files) := by
      simp [putIfAbsent, Prog.run_bind, ensureDir, createNew, Prog.run_read_nil,
        Prog.run_update_nil, insertIfNew_held found, present]
      rfl
    simp only [ObjectStore.casPublish, ObjectStore.readBack, backend, Prog.run_bind,
      Prog.run_attempt, ran, get, Prog.run_read_nil, getIn, found]
    rfl

/-- The crash falls between the creation of the object and the end of its write, and part of it is
missing. -/
def TearsAt (position progress : Nat) (bytes : Bytes) : Prop :=
  position = 1 ∧ progress ≠ 0 ∧ bytes ≠ [] ∨ position = 2 ∧ progress < bytes.length

theorem leftAt_whole_iff (bytes : Bytes) (progress position : Nat) :
    (∀ left, leftAt bytes progress position = some left → left = bytes) ↔
      ¬ TearsAt position progress bytes := by
  match position with
  | 0 => simp [leftAt, TearsAt]
  | 1 =>
    by_cases none : progress = 0
    · simp [leftAt, TearsAt, none]
    · simp [leftAt, TearsAt, none, eq_comm]
  | 2 =>
    have whole : bytes.take progress = bytes ↔ bytes.length ≤ progress :=
      ⟨fun same => by simpa using congrArg List.length same, List.take_of_length_le⟩
    simp [leftAt, TearsAt, whole]
  | k + 3 => simp [leftAt, TearsAt]

section Mirror

variable (encode : Snapshot → Bytes) {snap : Snapshot}
  (some : snap.snapshotId ≠ Snapshot.empty.snapshotId)

include some

/-- The mirror is what the publication leaves. -/
theorem mirrorSnapshot_state (faults : List Fault) (files : Files) :
    (backend.mirrorSnapshot encode snap faults files).2.2 =
      (backend.casPublish (mirrorKey snap.snapshotId) (encode snap) faults files).2.2 := by
  simp only [ObjectStore.mirrorSnapshot, if_neg some, Prog.run_bind]
  generalize backend.casPublish (mirrorKey snap.snapshotId) (encode snap) faults files = ran
  obtain ⟨outcome, rest, files'⟩ := ran
  match outcome with
  | .ok .created => rfl
  | .ok .alreadyOurs => rfl
  | .ok .conflict => rfl
  | .err _ => rfl
  | .crashed => rfl

/-- Without faults, only an object in other bytes is refused. -/
theorem mirrorSnapshot_nil (files : Files) :
    (backend.mirrorSnapshot encode snap [] files).1 = .ok () ↔
      ∀ existing, files[mirrorKey snap.snapshotId]? = .some existing → existing = encode snap := by
  have published := casPublish_nil (mirrorKey snap.snapshotId) (encode snap) files
  simp only [ObjectStore.mirrorSnapshot, if_neg some, Prog.run_bind]
  generalize backend.casPublish (mirrorKey snap.snapshotId) (encode snap) [] files = ran at published ⊢
  obtain ⟨outcome, rest, files'⟩ := ran
  cases found : files[mirrorKey snap.snapshotId]? with
  | none =>
    rw [found] at published
    obtain rfl : outcome = .ok .created := published
    exact ⟨fun _ => nofun, fun _ => rfl⟩
  | some existing =>
    rw [found] at published
    obtain rfl : outcome = .ok (ObjectStore.outcomeOf existing (encode snap)) := published
    by_cases ours : existing = encode snap
    · simp [ObjectStore.outcomeOf, ours]
      rfl
    · simp [ObjectStore.outcomeOf, ours]
      exact nofun

end Mirror

end LocalObjectStore

/-- **A crash looks like a split brain exactly if it tears the object.** A call of `mirror_snapshot`
that crashes at any access, or later, and then one without faults: the second returns if and
only if there is nothing to mirror, the object was there in our own bytes, or it was not there
and the crash did not fall between its creation and the end of its write. -/
theorem mirror_after_crash_iff (encode : Snapshot → Bytes) (snap : Snapshot) (files : Files)
    (position progress : Nat) :
    (LocalObjectStore.backend.mirrorSnapshot encode snap []
      (LocalObjectStore.backend.mirrorSnapshot encode snap
        (LocalObjectStore.crashAt position progress) files).2.2).1 = .ok () ↔
      snap.snapshotId = Snapshot.empty.snapshotId ∨
        files[mirrorKey snap.snapshotId]? = some (encode snap) ∨
        files[mirrorKey snap.snapshotId]? = none ∧
          ¬ LocalObjectStore.TearsAt position progress (encode snap) := by
  by_cases none : snap.snapshotId = Snapshot.empty.snapshotId
  · simp [ObjectStore.mirrorSnapshot, none]
    rfl
  · rw [LocalObjectStore.mirrorSnapshot_nil encode none,
      LocalObjectStore.mirrorSnapshot_state encode none, LocalObjectStore.casPublish_left,
      ← LocalObjectStore.leftAt_whole_iff]
    cases found : files[mirrorKey snap.snapshotId]? with
    | none | some existing => simp [none]

def firstSnapshot : Snapshot := { Snapshot.empty with snapshotId := 1 }

def firstSnapshotBytes : Snapshot → Bytes := fun _ => utf8 "\x7b\x7d"

/-- A crash during the write leaves one byte of the object, and the same writer is then refused. -/
theorem torn_mirror_object_is_refused :
    (LocalObjectStore.backend.mirrorSnapshot firstSnapshotBytes firstSnapshot []
      (LocalObjectStore.backend.mirrorSnapshot firstSnapshotBytes firstSnapshot
        (LocalObjectStore.crashAt 2 1) ∅).2.2).1 ≠ .ok () := by
  decide +kernel

end Prism
