import Prism.Lib.Interleaving
import Prism.Properties.ObjectMirror

/-!
Publication by compare-and-swap among any number of writers of one key. A store that never deletes
keeps the first payload that landed, so what a writer is told follows from what it can see of the
key: both good outcomes say that the payload there is its own, and a conflict that it is not.
-/

namespace Prism

open CrashLogic

/-- A linearizable store: a request takes effect in one step, or fails. A create that failed may
have taken effect. -/
def linearizable : ObjectStore Files where
  get := LocalObjectStore.get
  put key bytes := Prog.replace deviceError (·.insert key bytes)
  putIfAbsent key bytes :=
    Prog.update deviceError (fun files => !files.contains key) (·.insertIfNew key bytes)

namespace Publishing

variable {key : String} {bytes : Bytes}

def Keeps (key : String) (files files' : Files) : Prop :=
  ∀ bytes, files[key]? = some bytes → files'[key]? = some bytes

def contract (key : String) : Contract Files := ⟨fun _ _ => True, Keeps key, Keeps key⟩

def Tells (key : String) (bytes : Bytes) (outcome : CasOutcome) (files : Files) : Prop :=
  ∃ held, files[key]? = some held ∧ (held = bytes ↔ outcome ≠ .conflict)

theorem Keeps.refl (files : Files) : Keeps key files files := fun _ held => held

theorem keeps_insertIfNew (files : Files) : Keeps key files (files.insertIfNew key bytes) := by
  intro held present
  rw [LocalObjectStore.insertIfNew_held present]
  exact present

theorem stable_tells (outcome : CasOutcome) : (contract key).Stable (Tells key bytes outcome) := by
  rintro files files' ⟨held, present, verdict⟩ kept
  exact ⟨held, kept held present, verdict⟩

theorem stable_true : (contract key).Stable fun _ => True := fun _ _ _ _ => trivial

theorem tells_outcomeOf {files : Files} {held : Bytes} (present : files[key]? = some held) :
    Tells key bytes (ObjectStore.outcomeOf held bytes) files := by
  refine ⟨held, present, ?_⟩
  unfold ObjectStore.outcomeOf
  split <;> simp_all

theorem get_secures :
    Secures (contract key) (fun held files => files[key]? = some held) (fun _ _ => True)
      (linearizable.get key) fun _ => True := by
  have stable (held : Bytes) : (contract key).Stable fun files => files[key]? = some held :=
    fun _ _ present kept => kept held present
  refine Secures.read stable (fun _ => stable_true) (fun files _ => Keeps.refl files) ?_
    (fun _ _ _ _ => trivial) fun _ _ _ _ => trivial
  intro held files _ found
  unfold LocalObjectStore.getIn at found
  split at found
  next present => rw [present, Except.ok.inj found]
  next => cases found

theorem readBack_secures :
    Secures (contract key) (Tells key bytes) (fun _ _ => True) (linearizable.readBack key bytes)
      fun _ => True :=
  Secures.bind get_secures fun _ => Secures.pure fun _ present => tells_outcomeOf present

theorem putIfAbsent_secures :
    Secures (contract key) (fun created files => created = true → Tells key bytes .created files)
      (fun _ _ => True) (linearizable.putIfAbsent key bytes) fun _ => True := by
  refine Secures.update ?_ (fun _ => stable_true) (fun files _ => Keeps.refl files) ?_
    fun _ _ _ _ => trivial
  · exact fun created files files' told kept landed => stable_tells _ files files' (told landed) kept
  · refine fun _ files _ _ => ⟨keeps_insertIfNew files, fun absent => ?_, trivial⟩
    cases present : files[key]? with
    | none => exact ⟨bytes, LocalObjectStore.getElem?_created present, by simp⟩
    | some held => simp [OrderedMap.contains_of_getElem? present] at absent

theorem casPublish_secures :
    Secures (contract key) (Tells key bytes) (fun _ _ => True) (linearizable.casPublish key bytes)
      fun _ => True := by
  refine Secures.bind putIfAbsent_secures.attempt fun first => ?_
  split
  · exact Secures.pure fun _ told => told rfl
  · exact readBack_secures.strengthen fun _ _ => trivial
  · -- The create failed: what is there decides, and if nothing is it is tried once more.
    refine Secures.bind (get_secures.strengthen fun _ _ => trivial).attempt fun found => ?_
    split
    · exact Secures.pure fun _ present => tells_outcomeOf present
    · refine Secures.bind (putIfAbsent_secures.strengthen fun _ _ => trivial).attempt fun second => ?_
      split
      · exact Secures.pure fun _ told => told rfl
      · exact readBack_secures.strengthen fun _ _ => trivial
      · exact Secures.throw fun _ _ => trivial
    · exact Secures.throw fun _ _ => trivial
  · exact Secures.throw fun _ _ => trivial

/-! ### Any number of writers -/

section Writers

variable {ι : Type}

theorem compatible : Threads.Compatible fun _ : ι => contract key := fun _ _ _ _ _ changed => changed

def writers (key : String) (payload : ι → Bytes) (files : Files) :
    Threads ι Files PrismError CasOutcome :=
  ⟨fun i => linearizable.casPublish key (payload i), files⟩

/-- The call has returned that its payload is published. -/
def Won (t : Threads ι Files PrismError CasOutcome) (i : ι) : Prop :=
  t.prog i = .ret .created ∨ t.prog i = .ret .alreadyOurs

theorem writers_sound [DecidableEq ι] (key : String) (payload : ι → Bytes) (files : Files) (moves : List (ι × Fault)) :
    Threads.Sound (fun _ => contract key) (fun i => Tells key (payload i)) (fun _ _ _ => True)
      ((writers key payload files).run moves) := by
  refine Threads.Sound.run compatible (fun i => ?_) moves (.of_forall (fun _ _ => trivial) _ _)
  exact ⟨fun _ => True, stable_true, trivial, casPublish_secures⟩

theorem held_of_won {payload : ι → Bytes} {t : Threads ι Files PrismError CasOutcome} {i : ι}
    (sound : Threads.Sound (fun _ => contract key) (fun i => Tells key (payload i))
      (fun _ _ _ => True) t) (won : Won t i) : t.state[key]? = some (payload i) := by
  rcases won with ended | ended
  · obtain ⟨held, present, own⟩ := sound.returned ended
    rw [present, own.mpr (by decide)]
  · obtain ⟨held, present, own⟩ := sound.returned ended
    rw [present, own.mpr (by decide)]

end Writers

end Publishing

open Publishing in
/-- At most one writer wins, what it published stays, and nobody whose payload is at the key is told
of a conflict. -/
theorem casPublish_elects {ι : Type} [DecidableEq ι] (key : String) (payload : ι → Bytes)
    (distinct : Function.Injective payload) (files : Files) (moves : List (ι × Fault)) :
    let reached := (writers key payload files).run moves
    (∀ i j, Won reached i → Won reached j → i = j) ∧
    (∀ i, Won reached i → ∀ more, (reached.run more).state[key]? = some (payload i)) ∧
    ∀ i, reached.state[key]? = some (payload i) → reached.prog i ≠ .ret .conflict := by
  intro reached
  have sound := writers_sound key payload files moves
  refine ⟨fun i j first second => ?_, fun i won more => ?_, fun i present lost => ?_⟩
  · have own := held_of_won sound first
    have other := held_of_won sound second
    exact distinct (Option.mem_unique own other)
  · refine Threads.Sound.invariant (I := fun files => files[key]? = some (payload i)) compatible
      ?_ sound (held_of_won sound won) more (.of_forall (fun _ _ => trivial) _ _)
    exact fun _ _ _ present changed => changed _ present
  · obtain ⟨held, found, own⟩ := sound.returned lost
    have same : held = payload i := Option.mem_unique found present
    exact absurd rfl (own.mp same)

def twoPayloads (first : Bool) : Bytes := if first then [1] else [2]

/-- The first create takes effect and fails, and the other writer overtakes the read-back. -/
theorem casPublish_elects_landed :
    let reached := (Publishing.writers "CURRENT" twoPayloads ∅).run
      [(true, .fail 1), (false, .proceed), (true, .proceed), (false, .proceed)]
    reached.prog true = .ret .alreadyOurs ∧ reached.prog false = .ret .conflict ∧
      ∀ j, Publishing.Won reached j → true = j := by
  intro reached
  have distinct : Function.Injective twoPayloads := by
    intro a b
    cases a <;> cases b <;> simp [twoPayloads]
  have elected := casPublish_elects "CURRENT" twoPayloads distinct ∅
    [(true, .fail 1), (false, .proceed), (true, .proceed), (false, .proceed)]
  have won : reached.prog true = .ret .alreadyOurs := rfl
  exact ⟨won, rfl, fun j => elected.1 true j (.inr won)⟩

end Prism
