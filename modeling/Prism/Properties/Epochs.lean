import Prism.Engine.Ownership
import Prism.Properties.Fencing

/-!
Ownership epochs: who can hold which one when any number of engines acquire theirs at once, with
every request open to failing before or after it took effect.
-/

namespace Prism

open CrashLogic OrderedMap

variable {rounds : Nat}

namespace Ownership

def Extends (owners owners' : Owners) : Prop :=
  ∀ (epoch : Nat) (id : String), owners[epoch]? = some id → owners'[epoch]? = some id

theorem Extends.refl (owners : Owners) : Extends owners owners := fun _ _ h => h

theorem extends_insertIfNew (owners : Owners) (epoch : Nat) (id : String) :
    Extends owners (owners.insertIfNew epoch id) := by
  intro other found present
  rw [Std.ExtTreeMap.getElem?_insertIfNew]
  split
  next new =>
    obtain ⟨rfl, absent⟩ := And.imp_left compare_eq_iff_eq.mp new
    have recorded : epoch ∈ owners := mem_of_getElem? present
    exact absurd recorded absent
  next => exact present

/-- All that an engine may count on, and all that it does, is that the objects stay. -/
def contract : Contract Owners := ⟨fun _ _ => True, Extends, Extends⟩

variable {P : Owners → Prop} {epoch : Nat} {writerId : String}

theorem stable_recorded (stable : contract.Stable P) (claimed : Prop) :
    contract.Stable fun owners => P owners ∧ (claimed → owners[epoch]? = some writerId) :=
  fun _ _ ⟨start, own⟩ changed => ⟨stable _ _ start changed, fun h => changed _ _ (own h)⟩

theorem putIfAbsent_secures (stable : contract.Stable P) : Secures contract
      (fun created owners => P owners ∧ (created = true → owners[epoch]? = some writerId))
      (fun _ => P) (putIfAbsent epoch writerId) P := by
  have kept : ∀ owners, P owners → P (owners.insertIfNew epoch writerId) := fun owners start =>
    stable _ _ start (extends_insertIfNew owners epoch writerId)
  refine Secures.update (fun _ => stable_recorded stable _) (fun _ => stable) ?_ ?_ ?_
  · exact fun owners _ => Extends.refl owners
  · intro _ owners _ start
    refine ⟨extends_insertIfNew owners epoch writerId, ⟨kept owners start, fun absent => ?_⟩,
      kept owners start⟩
    have new : epoch ∉ owners := by
      intro present
      rw [Std.ExtTreeMap.contains_iff_mem.mpr present] at absent
      cases absent
    rw [Std.ExtTreeMap.getElem?_insertIfNew, if_pos ⟨compare_eq_iff_eq.mpr rfl, new⟩]
  · exact fun _ _ _ start => start

theorem get_secures (stable : contract.Stable P) :
    Secures contract (fun existing owners => P owners ∧ owners[epoch]? = some existing)
      (fun _ => P) (get epoch) P := by
  refine Secures.read ?_ (fun _ => stable) (fun owners _ => Extends.refl owners) ?_
    (fun _ _ start _ => start) fun _ _ _ start => start
  · exact fun existing owners owners' ⟨start, found⟩ changed =>
      ⟨stable _ _ start changed, changed _ _ found⟩
  · intro existing owners start found
    refine ⟨start, ?_⟩
    split at found
    next id present => exact Except.ok.inj found ▸ present
    next => cases found

/-- What a publication is worth: unless it lost, the object is the writer's own. -/
def Published (P : Owners → Prop) (epoch : Nat) (writerId : String) (outcome : CasOutcome)
    (owners : Owners) : Prop :=
  P owners ∧ (outcome ≠ .conflict → owners[epoch]? = some writerId)

theorem published_outcomeOf {existing : String} {owners : Owners} (start : P owners)
    (found : owners[epoch]? = some existing) :
    Published P epoch writerId (outcomeOf existing writerId) owners := by
  refine ⟨start, fun ours => ?_⟩
  unfold outcomeOf at ours
  split at ours
  next same => exact same ▸ found
  next => exact absurd rfl ours

theorem readBack_secures (stable : contract.Stable P) :
    Secures contract (Published P epoch writerId) (fun _ _ => True) (readBack epoch writerId) P :=
  Secures.bind ((get_secures stable).weaken (fun _ _ h => h) fun _ _ _ => trivial) fun _ =>
    Secures.pure fun _ ⟨start, found⟩ => published_outcomeOf start found

theorem casPublish_secures (stable : contract.Stable P) :
    Secures contract (Published P epoch writerId) (fun _ _ => True) (casPublish epoch writerId) P := by
  refine Secures.bind (putIfAbsent_secures stable).attempt fun first => ?_
  split
  · exact Secures.pure fun _ ⟨start, own⟩ => ⟨start, fun _ => own rfl⟩
  · exact (readBack_secures stable).strengthen fun _ h => h.1
  · -- The request failed: what is there decides, and if nothing is it is made once more.
    refine Secures.bind (get_secures stable).attempt fun found => ?_
    split
    · exact Secures.pure fun _ ⟨start, present⟩ => published_outcomeOf start present
    · refine Secures.bind (putIfAbsent_secures stable).attempt fun second => ?_
      split
      · exact Secures.pure fun _ ⟨start, own⟩ => ⟨start, fun _ => own rfl⟩
      · exact (readBack_secures stable).strengthen fun _ h => h.1
      · exact Secures.throw fun _ _ => trivial
    · exact Secures.throw fun _ _ => trivial
  · exact Secures.throw fun _ _ => trivial

/-- An engine that returns holds an object of its own, at an epoch that suits what it listed. -/
theorem acquire_secures (stable : contract.Stable P) {B : Nat → Prop}
    (suits : ∀ owners, P owners → B (nextEpoch (Engine.highestEpoch owners))) : Secures contract
      (fun epoch owners => (P owners ∧ B epoch) ∧ owners[epoch]? = some writerId)
      (fun _ _ => True) (acquire writerId rounds) P := by
  induction rounds with
  | zero => exact Secures.halt
  | succ rounds ih =>
    refine Secures.bind (M := fun highest owners => P owners ∧ B (nextEpoch highest)) ?_
      fun highest => ?_
    · refine Secures.read ?_ (fun _ _ _ _ _ => trivial) (fun owners _ => Extends.refl owners) ?_
        (fun _ _ _ _ => trivial) fun _ _ _ _ => trivial
      · exact fun highest _ _ ⟨start, suited⟩ changed => ⟨stable _ _ start changed, suited⟩
      · intro highest owners start listed
        exact ⟨start, Except.ok.inj listed ▸ suits owners start⟩
    · have kept : contract.Stable fun owners => P owners ∧ B (nextEpoch highest) :=
        fun _ _ ⟨start, suited⟩ changed => ⟨stable _ _ start changed, suited⟩
      refine Secures.bind (casPublish_secures kept) fun outcome => ?_
      split
      · exact Secures.pure fun _ ⟨start, own⟩ => ⟨start, own (by decide)⟩
      · exact Secures.pure fun _ ⟨start, own⟩ => ⟨start, own (by decide)⟩
      · exact ih.strengthen fun _ h => h.1.1

theorem acquire_ne_ret {rounds epoch : Nat} : acquire writerId rounds ≠ .ret epoch := by
  cases rounds with
  | zero | succ rounds => exact fun ended => nomatch ended

variable {ι : Type} [DecidableEq ι] (spawn : ι → Spawn)

def acquisitions (rounds : ι → Nat) (owners : Owners) :
    Threads ι Owners PrismError Nat :=
  ⟨fun i => acquire (spawn i).writerId (rounds i), owners⟩

variable (t : Threads ι Owners PrismError Nat)

/-- No two engines hold one epoch. -/
def Exclusive : Prop :=
  ∀ i j epoch, t.prog i = .ret epoch → t.prog j = .ret epoch → i = j

/-- An engine that starts after another one has returned gets a later epoch. -/
def Ordered : Prop :=
  ∀ (before after : List (ι × Fault)) (i j : ι) (earlier epoch : Nat),
    (t.run before).prog j = .ret earlier → i ∉ before.map Prod.fst →
      (t.run (before ++ after)).prog i = .ret epoch → earlier < epoch

omit [DecidableEq ι] in
theorem compatible : Threads.Compatible fun _ : ι => contract := fun _ _ _ _ _ changed => changed

def Holds (i : ι) (epoch : Nat) (owners : Owners) : Prop :=
  epoch ≤ 2 ^ 64 - 1 ∧ owners[epoch]? = some (spawn i).writerId

theorem acquisitions_sound (rounds : ι → Nat) (owners : Owners) (moves : List (ι × Fault)) :
    Threads.Sound (fun _ => contract) (Holds spawn) (fun _ _ _ => True)
      ((acquisitions spawn rounds owners).run moves) := by
  refine Threads.Sound.run compatible (fun i => ?_) moves (.of_forall (fun _ _ => trivial) _ _)
  have anywhere : contract.Stable fun _ => True := fun _ _ _ _ => trivial
  refine ⟨fun _ => True, anywhere, trivial, ?_⟩
  refine (acquire_secures anywhere (B := fun epoch => epoch ≤ 2 ^ 64 - 1) ?_).weaken
    (fun _ _ ⟨⟨_, bounded⟩, own⟩ => ⟨bounded, own⟩) fun _ _ h => h
  exact fun _ _ => Nat.min_le_right _ _

variable {spawn : ι → Spawn}

theorem exclusive_of_injective (distinct : Function.Injective fun i => (spawn i).writerId)
    (rounds : ι → Nat) (owners : Owners) (moves : List (ι × Fault)) :
    Exclusive ((acquisitions spawn rounds owners).run moves) := by
  intro i j epoch first second
  have sound := acquisitions_sound spawn rounds owners moves
  have own := (sound.returned first).2
  have other := (sound.returned second).2
  exact distinct (Option.mem_unique own other)

theorem ordered_of_injective (distinct : Function.Injective fun i => (spawn i).writerId)
    (rounds : ι → Nat) (owners : Owners) : Ordered (acquisitions spawn rounds owners) := by
  intro before after i j earlier epoch returned idle later
  have sound := acquisitions_sound spawn rounds owners before
  obtain ⟨bounded, recorded⟩ := sound.returned returned
  have fresh := Threads.prog_run_of_not_mem (t := acquisitions spawn rounds owners) idle
  -- From here on the late engine counts on the object of the early one.
  have resumed : Threads.Sound (fun _ => contract)
      (fun k epoch (owners : Owners) => k = i → (owners[earlier]? = some (spawn j).writerId ∧
        earlier ≤ epoch) ∧ owners[epoch]? = some (spawn i).writerId)
      (fun _ _ _ => True) ((acquisitions spawn rounds owners).run before) := by
    intro k
    by_cases late : k = i
    · subst late
      have kept : contract.Stable fun owners => owners[earlier]? = some (spawn j).writerId :=
        fun _ _ present changed => changed _ _ present
      refine ⟨_, kept, recorded, ?_⟩
      rw [fresh]
      refine (acquire_secures kept ?_).weaken (fun _ _ h _ => h) fun _ _ h => h
      intro owners present
      have listed : earlier ≤ Engine.highestEpoch owners := Engine.le_highestEpoch
        (contains_of_getElem? present)
      exact Nat.le_min.mpr ⟨by omega, bounded⟩
    · obtain ⟨P, stable, start, inner⟩ := sound k
      exact ⟨P, stable, start, inner.weaken (fun _ _ _ same => absurd same late) fun _ _ h => h⟩
  rw [Threads.run_append] at later
  have final := resumed.run compatible after (.of_forall (fun _ _ => trivial) _ _)
  obtain ⟨⟨theirs, above⟩, own⟩ := final.returned later rfl
  refine lt_of_le_of_ne above fun same => ?_
  rw [same] at theirs
  have together : i = j := distinct (Option.mem_unique own theirs)
  -- An engine that has not moved has not returned.
  rw [← together, fresh] at returned
  exact acquire_ne_ret returned

/-! ### Two engines of one name -/

/-- The rest of an acquisition whose listing found no epoch. -/
def claiming (writerId : String) : OwnerProg Nat := do
  match ← casPublish 1 writerId with
  | .created => return 1
  | .alreadyOurs => return 1
  | .conflict => Prog.halt

/-- The rest of one whose create was refused. -/
def reading (writerId : String) : OwnerProg Nat := do
  match ← readBack 1 writerId with
  | .created => return 1
  | .alreadyOurs => return 1
  | .conflict => Prog.halt

theorem step_acquire (writerId : String) :
    (acquire writerId 1).step .proceed ∅ = (claiming writerId, ∅) := rfl

theorem step_claiming (writerId : String) :
    (claiming writerId).step .proceed ∅ = (.ret 1, (∅ : Owners).insertIfNew 1 writerId) := by
  rfl

theorem step_claiming_taken (writerId other : String) :
    (claiming writerId).step .proceed ((∅ : Owners).insertIfNew 1 other) =
      (reading writerId, ((∅ : Owners).insertIfNew 1 other).insertIfNew 1 writerId) := by
  rfl

theorem step_reading {writerId : String} {owners : Owners} (own : owners[1]? = some writerId) :
    ((reading writerId).step .proceed owners).1 = .ret 1 := by
  simp [reading, readBack, get, outcomeOf, own, Prog.read, Prog.step, Prog.resume, Prog.ofExcept,
    Prog.settle, Prog.bind, bind, pure]

/-- Both list, one creates the object, and the other takes it for its own. -/
def sharing (i j : ι) : List (ι × Fault) :=
  [(i, .proceed), (j, .proceed), (i, .proceed), (j, .proceed), (j, .proceed)]

theorem both_hold {i j : ι} (apart : i ≠ j) (same : (spawn i).writerId = (spawn j).writerId) :
    let t := (acquisitions spawn (fun _ => 1) ∅).run (sharing i j)
    t.prog i = .ret 1 ∧ t.prog j = .ret 1 := by
  have own : (((∅ : Owners).insertIfNew 1 (spawn i).writerId).insertIfNew 1
      (spawn j).writerId)[1]? = some (spawn j).writerId := by
    rw [same]
    rfl
  simp [Threads.run, sharing, Threads.step, acquisitions, Function.update_of_ne apart,
    Function.update_of_ne apart.symm, step_acquire, step_claiming, step_claiming_taken,
    step_reading own]

/-- Epochs are exclusive and ordered in every interleaving exactly if no two engines have the same
writer id. -/
theorem epochs_exclusive_ordered_iff (spawn : ι → Spawn) :
    ((∀ rounds owners moves, Exclusive ((acquisitions spawn rounds owners).run moves)) ∧
      ∀ rounds owners, Ordered (acquisitions spawn rounds owners)) ↔
      Function.Injective fun i => (spawn i).writerId := by
  constructor
  · intro ⟨exclusive, _⟩ i j same
    by_contra apart
    obtain ⟨first, second⟩ := both_hold apart same
    exact apart (exclusive _ _ _ i j 1 first second)
  · exact fun distinct => ⟨exclusive_of_injective distinct, ordered_of_injective distinct⟩

/-- Two engines of processes with one process id, on two hosts. -/
def twoHosts : Bool → Spawn
  | false => ⟨"host-a", 7, 0⟩
  | true => ⟨"host-b", 7, 0⟩

/-- Different engines, and both hold epoch one. -/
theorem twoHosts_share_epoch :
    twoHosts false ≠ twoHosts true ∧
      let t := (acquisitions twoHosts (fun _ => 1) ∅).run (sharing false true)
      t.prog false = .ret 1 ∧ t.prog true = .ret 1 :=
  ⟨by decide, both_hold (by decide) rfl⟩

end Ownership

end Prism
