import Mathlib.Algebra.Order.Ring.Int
import Mathlib.Logic.Basic

/-!
Computations that fail or return a value and change a state either way, and two judgments about
them: what every returned value satisfies, and that a value is returned.
-/

namespace Stateful

abbrev Action (σ ε α : Type) := ExceptT ε (StateM σ) α

variable {σ ε α β : Type}

/-- A computation that does not look at the state. -/
def lift (r : Except ε α) : Action σ ε α := fun s => (r, s)

theorem run_bind (m : Action σ ε α) (f : α → Action σ ε β) (s : σ) : (m >>= f) s =
      match m s with
      | (.ok a, s') => f a s'
      | (.error e, s') => (.error e, s') := by
  change (m s |> fun p => ExceptT.bindCont f p.1 p.2) = _
  rcases m s with ⟨_ | _, s'⟩ <;> rfl

/-- From a state in `I`, the computation ends in `I`, and what it returns satisfies `Q`. -/
def Sound (I : σ → Prop) (m : Action σ ε α) (Q : α → Prop) : Prop :=
  ∀ s, I s → I (m s).2 ∧ ∀ a, (m s).1 = .ok a → Q a

namespace Sound

variable {I : σ → Prop} {m : Action σ ε α} {f : α → Action σ ε β} {Q Q' : α → Prop} {R : β → Prop}

theorem pure {a : α} (holds : Q a) : Sound I (pure a : Action σ ε α) Q := fun _ start =>
  ⟨start, fun _ same => Except.ok.inj same ▸ holds⟩

theorem throw {e : ε} : Sound I (throw e : Action σ ε α) Q := fun _ start => ⟨start, nofun⟩

theorem lift {r : Except ε α} (holds : ∀ a, r = .ok a → Q a) :
    Sound I (lift r : Action σ ε α) Q := fun _ start => ⟨start, holds⟩

theorem bind (first : Sound I m Q) (next : ∀ a, Q a → Sound I (f a) R) : Sound I (m >>= f) R := by
  intro s start
  have ran := first s start
  rw [run_bind]
  generalize m s = result at ran
  obtain ⟨outcome, s'⟩ := result
  cases outcome with
  | error e => exact ⟨ran.1, nofun⟩
  | ok a => exact next a (ran.2 a rfl) s' ran.1

/-- What comes after a failure does not matter. -/
theorem refuse {e : ε} : Sound I ((MonadExcept.throw e : Action σ ε α) >>= f) R :=
  bind (Q := fun _ => False) throw fun _ no => no.elim

end Sound

/-- From a state in `I`, the computation returns `a` and ends in `I`. -/
def Yields (I : σ → Prop) (m : Action σ ε α) (a : α) : Prop := ∀ s, I s → I (m s).2 ∧ (m s).1 = .ok a

namespace Yields

variable {I : σ → Prop} {m : Action σ ε α} {f : α → Action σ ε β} {a : α} {b : β}

theorem pure : Yields I (pure a : Action σ ε α) a := fun _ start => ⟨start, rfl⟩

theorem lift : Yields I (lift (.ok a) : Action σ ε α) a := fun _ start => ⟨start, rfl⟩

theorem bind (first : Yields I m a) (next : Yields I (f a) b) : Yields I (m >>= f) b := by
  intro s start
  have ran := first s start
  rw [run_bind]
  generalize m s = result at ran
  obtain ⟨outcome, s'⟩ := result
  obtain ⟨kept, rfl⟩ := ran
  exact next s' kept

end Yields

end Stateful
