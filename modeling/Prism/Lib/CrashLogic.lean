import Mathlib.Algebra.Order.Ring.Int
import Mathlib.Data.List.Forall2

/-!
Programs over a durable state whose accesses may fail or be cut short by a crash, and a Hoare
logic for them. A triple has two postconditions: one for a returned value, and one for every
state in which an error or a crash can leave the durable state.
-/

namespace CrashLogic

/-- What the environment does to one access. `progress` says how far an interrupted write got. -/
inductive Fault where
  | proceed
  | fail (progress : Nat)
  | crash (progress : Nat)
  deriving DecidableEq, Repr

def Fault.isFail : Fault → Bool
  | .fail _ => true
  | _ => false

inductive Outcome (ε α : Type) where
  | ok (value : α)
  | err (error : ε)
  | crashed
  deriving DecidableEq, Repr

def Outcome.isOk {ε α : Type} : Outcome ε α → Bool
  | .ok _ => true
  | _ => false

theorem Outcome.exists_of_isOk {ε α : Type} {outcome : Outcome ε α} (returned : outcome.isOk = true) :
    ∃ a, outcome = .ok a := by
  cases outcome with
  | ok a => exact ⟨a, rfl⟩
  | err e | crashed => cases returned

def Outcome.isCrashed {ε α : Type} : Outcome ε α → Bool
  | .crashed => true
  | _ => false

/-- A program ends, or makes one access to the state and goes on. What an access leaves of the state
depends on its fault; the program goes on with the fault and the state it found. A `mark` belongs to
the access before it. -/
inductive Prog (σ ε α : Type) : Type where
  | ret (value : α)
  | raise (error : ε)
  | stop
  | access (effect : Fault → σ → σ) (next : Fault → σ → Prog σ ε α)
  | mark (f : σ → σ) (next : Prog σ ε α)

namespace Prog

variable {σ ε α β : Type}

/-- Run a program that has the state for itself. It consumes one entry of the fault plan for every
access; an exhausted plan lets the remaining accesses proceed. -/
def run : Prog σ ε α → List Fault → σ → Outcome ε α × List Fault × σ
  | ret a, faults, s => (.ok a, faults, s)
  | raise e, faults, s => (.err e, faults, s)
  | stop, faults, s => (.crashed, faults, s)
  | access effect next, faults, s =>
    run (next (faults.headD .proceed) s) faults.tail (effect (faults.headD .proceed) s)
  | mark f next, faults, s => run next faults (f s)

instance : CoeFun (Prog σ ε α) fun _ => List Fault → σ → Outcome ε α × List Fault × σ := ⟨run⟩

protected def bind : Prog σ ε α → (α → Prog σ ε β) → Prog σ ε β
  | ret a, f => f a
  | raise e, _ => raise e
  | stop, _ => stop
  | access effect next, f => access effect fun fault s => (next fault s).bind f
  | mark g next, f => mark g (next.bind f)

instance : Monad (Prog σ ε) where
  pure := ret
  bind := Prog.bind

theorem bind_ret (p : Prog σ ε α) : p.bind ret = p := by
  induction p with
  | ret a | raise e | stop => rfl
  | access effect next ih =>
    exact congrArg (access effect) (funext fun fault => funext fun s => ih fault s)
  | mark f next ih => exact congrArg (mark f) ih

theorem bind_bind {γ : Type} (p : Prog σ ε α) (f : α → Prog σ ε β) (g : β → Prog σ ε γ) :
    (p.bind f).bind g = p.bind fun a => (f a).bind g := by
  induction p with
  | ret a | raise e | stop => rfl
  | access effect next ih =>
    exact congrArg (access effect) (funext fun fault => funext fun s => ih fault s)
  | mark h next ih => exact congrArg (mark h) ih

instance : LawfulMonad (Prog σ ε) := LawfulMonad.mk' _ bind_ret (fun _ _ => rfl) bind_bind

def throw (e : ε) : Prog σ ε α := raise e

def ofExcept : Except ε α → Prog σ ε α
  | .ok a => pure a
  | .error e => throw e

variable (io : ε)

/-- How a program goes on after an access: with `p`, or by failing with `io`, or not at all. -/
def resume (p : Prog σ ε α) : Fault → Prog σ ε α
  | .proceed => p
  | .fail _ => raise io
  | .crash _ => stop

/-- Read the state; `io` is the error of an access that fails. -/
def read (f : σ → Except ε α) : Prog σ ε α :=
  access (fun _ s => s) fun fault s => resume io (ofExcept (f s)) fault

/-- Change the state by `done`. An interrupted change leaves `reach progress` instead. -/
def act (reach : Nat → σ → σ) (done : σ → σ) : Prog σ ε Unit :=
  access
    (fun fault s =>
      match fault with
      | .proceed => done s
      | .fail progress => reach progress s
      | .crash progress => reach progress s)
    fun fault _ => resume io (ret ()) fault

/-- Replace part of the state in one atomic step: interrupted, it has happened or it has not. -/
def replace (done : σ → σ) : Prog σ ε Unit :=
  act io (fun progress s => if progress = 0 then s else done s) done

variable (found : σ → α)

/-- Replace part of the state in one atomic step and return what it found. -/
def update (done : σ → σ) : Prog σ ε α :=
  access
    (fun fault s =>
      match fault with
      | .proceed => done s
      | .fail progress => if progress = 0 then s else done s
      | .crash progress => if progress = 0 then s else done s)
    fun fault s => resume io (ret (found s)) fault

/-- One atomic step that may be refused, which leaves the state as it is. -/
def transact (f : σ → Except ε (α × σ)) : Prog σ ε α :=
  access
    (fun fault s =>
      match f s, fault with
      | .ok (_, s'), .proceed => s'
      | .ok (_, s'), .fail progress => if progress = 0 then s else s'
      | .ok (_, s'), .crash progress => if progress = 0 then s else s'
      | .error _, _ => s)
    fun fault s => resume io (ofExcept ((f s).map Prod.fst)) fault

/-- Update that part of the state which no fault can separate from the access before it. -/
def note (f : σ → σ) : Prog σ ε Unit := mark f (ret ())

def halt : Prog σ ε α := stop

/-- Run a program of a part of the state. -/
def zoom {τ : Type} (get : σ → τ) (set : τ → σ → σ) : Prog τ ε α → Prog σ ε α
  | ret a => ret a
  | raise e => raise e
  | stop => stop
  | access effect next =>
    access (fun fault s => set (effect fault (get s)) s) fun fault s =>
      zoom get set (next fault (get s))
  | mark f next => mark (fun s => set (f (get s)) s) (zoom get set next)

/-- Run `p` and go on with what it returns or raises. -/
def attempt : Prog σ ε α → Prog σ ε (Except ε α)
  | ret a => ret (.ok a)
  | raise e => ret (.error e)
  | stop => stop
  | access effect next => access effect fun fault s => attempt (next fault s)
  | mark f next => mark f (attempt next)

/-- Run `p` and perform `f` when it ends, however it ends. -/
def ending (f : σ → σ) : Prog σ ε α → Prog σ ε α
  | ret a => mark f (ret a)
  | raise e => mark f (raise e)
  | stop => mark f stop
  | access effect next => access effect fun fault s => ending f (next fault s)
  | mark g next => mark g (ending f next)

/-- Run `f` on each element in order and collect the values. -/
def each (f : α → Prog σ ε β) : List α → Prog σ ε (List β)
  | [] => pure []
  | x :: xs => do
    let y ← f x
    let ys ← each f xs
    return y :: ys

def error? : Prog σ ε α → Option ε
  | raise e => some e
  | _ => none

/-! ### Execution under a given plan -/

variable {p : Prog σ ε α} {f : α → Prog σ ε β} {faults rest : List Fault} {s s' : σ}

theorem run_bind (p : Prog σ ε α) (f : α → Prog σ ε β) (faults : List Fault) (s : σ) :
    (p >>= f) faults s =
      match p faults s with
      | (.ok a, rest, s') => f a rest s'
      | (.err e, rest, s') => (.err e, rest, s')
      | (.crashed, rest, s') => (.crashed, rest, s') := by
  induction p generalizing faults s with
  | ret a | raise e | stop => rfl
  | access effect next ih => exact ih _ _ _ _
  | mark g next ih => exact ih _ _

theorem bind_ok {a : α} (ran : p faults s = (.ok a, rest, s')) :
    (p >>= f) faults s = f a rest s' := by
  rw [run_bind, ran]

theorem bind_err {e : ε} (ran : p faults s = (.err e, rest, s')) :
    (p >>= f) faults s = (.err e, rest, s') := by
  rw [run_bind, ran]

theorem bind_crashed (ran : p faults s = (.crashed, rest, s')) :
    (p >>= f) faults s = (.crashed, rest, s') := by
  rw [run_bind, ran]

theorem run_read (g : σ → Except ε α) (faults : List Fault) (s : σ) : read io g faults s =
      match faults.headD .proceed with
      | .proceed =>
        match g s with
        | .ok a => (.ok a, faults.tail, s)
        | .error e => (.err e, faults.tail, s)
      | .fail _ => (.err io, faults.tail, s)
      | .crash _ => (.crashed, faults.tail, s) := by
  simp only [read, run]
  cases faults.headD .proceed with
  | proceed =>
    simp only [resume]
    cases g s <;> rfl
  | fail _ | crash _ => rfl

theorem run_act (reach : Nat → σ → σ) (done : σ → σ) (faults : List Fault) (s : σ) :
    act io reach done faults s =
      match faults.headD .proceed with
      | .proceed => (.ok (), faults.tail, done s)
      | .fail progress => (.err io, faults.tail, reach progress s)
      | .crash progress => (.crashed, faults.tail, reach progress s) := by
  simp only [act, run]
  cases faults.headD .proceed <;> rfl

theorem run_update (done : σ → σ) (faults : List Fault) (s : σ) : update io found done faults s =
      match faults.headD .proceed with
      | .proceed => (.ok (found s), faults.tail, done s)
      | .fail progress => (.err io, faults.tail, if progress = 0 then s else done s)
      | .crash progress => (.crashed, faults.tail, if progress = 0 then s else done s) := by
  simp only [update, run]
  cases faults.headD .proceed <;> rfl

theorem update_eq_transact (done : σ → σ) :
    update io found done = transact io fun s => .ok (found s, done s) := by
  simp only [update, transact]
  congr 1
  funext fault s
  cases fault <;> rfl

theorem replace_eq_update (done : σ → σ) : replace io done = update io (fun _ => ()) done := rfl

theorem run_attempt (p : Prog σ ε α) (faults : List Fault) (s : σ) : p.attempt faults s =
      match p faults s with
      | (.ok a, rest, s') => (.ok (.ok a), rest, s')
      | (.err e, rest, s') => (.ok (.error e), rest, s')
      | (.crashed, rest, s') => (.crashed, rest, s') := by
  induction p generalizing faults s with
  | ret a | raise e | stop => rfl
  | access effect next ih => exact ih _ _ _ _
  | mark g next ih => exact ih _ _

/-! ### Execution without faults -/

theorem run_read_nil (g : σ → Except ε α) (s : σ) : read io g [] s =
      match g s with
      | .ok a => (.ok a, [], s)
      | .error e => (.err e, [], s) := by
  rw [run_read]
  rfl

theorem run_transact_nil (f : σ → Except ε (α × σ)) (s : σ) : transact io f [] s =
      match f s with
      | .ok (a, s') => (.ok a, [], s')
      | .error e => (.err e, [], s) := by
  simp only [transact, run, List.headD_nil, List.tail_nil, resume]
  cases f s <;> rfl

theorem run_update_nil (done : σ → σ) (s : σ) :
    update io found done [] s = (.ok (found s), [], done s) := by
  rw [update_eq_transact, run_transact_nil]

/-- Choosing the value to return does not touch the state. -/
theorem state_bind_pure (p : Prog σ ε α) (g : α → β) (faults : List Fault) (s : σ) :
    ((p >>= fun a => pure (g a)) faults s).2.2 = (p faults s).2.2 := by
  rw [run_bind]
  obtain ⟨_ | _ | _, rest, s'⟩ := p faults s
  all_goals rfl

/-- `get` and `set` are the two halves of one part of the state. -/
structure Lens {τ : Type} (get : σ → τ) (set : τ → σ → σ) : Prop where
  get_set : ∀ t s, get (set t s) = t
  set_get : ∀ s, set (get s) s = s
  set_set : ∀ t t' s, set t (set t' s) = set t s

theorem run_zoom {τ : Type} {get : σ → τ} {set : τ → σ → σ} (lens : Lens get set)
    (p : Prog τ ε α) (faults : List Fault) (s : σ) : zoom get set p faults s =
      match p faults (get s) with
      | (outcome, rest, t) => (outcome, rest, set t s) := by
  induction p generalizing faults s with
  | ret a | raise e | stop => simp only [zoom, run, lens.set_get]
  | access effect next ih | mark g next ih => simp only [zoom, run, ih, lens.get_set, lens.set_set]

section Zoom

variable {τ : Type} {get : σ → τ} {set : τ → σ → σ}

theorem zoom_bind (p : Prog τ ε α) (f : α → Prog τ ε β) :
    zoom get set (p >>= f) = zoom get set p >>= fun a => zoom get set (f a) := by
  induction p with
  | ret a | raise e | stop => rfl
  | access effect next ih =>
    exact congrArg (access _) (funext fun fault => funext fun s => ih fault (get s))
  | mark g next ih => exact congrArg (mark _) ih

theorem zoom_each (f : α → Prog τ ε β) (xs : List α) :
    zoom get set (each f xs) = each (fun x => zoom get set (f x)) xs := by
  induction xs with
  | nil => rfl
  | cons x xs ih =>
    simp only [each, zoom_bind, ih]
    rfl

theorem zoom_ofExcept (r : Except ε α) : zoom get set (ofExcept r) = ofExcept r := by
  cases r <;> rfl

theorem zoom_resume (io : ε) (p : Prog τ ε α) (fault : Fault) :
    zoom get set (resume io p fault) = resume io (zoom get set p) fault := by
  cases fault <;> rfl

theorem zoom_read (lens : Lens get set) (io : ε) (g : τ → Except ε α) :
    zoom get set (read io g) = read io fun s => g (get s) := by
  simp only [read, zoom, lens.set_get, zoom_resume, zoom_ofExcept]

theorem zoom_replace (lens : Lens get set) (io : ε) (done : τ → τ) :
    zoom get set (replace io done) = replace io fun s => set (done (get s)) s := by
  simp only [replace, act, zoom, zoom_resume]
  congr 1
  funext fault s
  cases fault with
  | proceed => rfl
  | fail n | crash n => by_cases begun : n = 0 <;> simp [begun, lens.set_get]

end Zoom

end Prog

variable {σ ε α β : Type}

/-- The two postconditions, read at the end of an execution. -/
def Ends (Q : α → σ → Prop) (E : σ → Prop) : Outcome ε α × List Fault × σ → Prop
  | (.ok a, _, s) => Q a s
  | (.err _, _, s) => E s
  | (.crashed, _, s) => E s

/-- Started in a state satisfying `P`, under every fault plan, `p` ends in a state satisfying `Q` of
the value it returns, or in one satisfying `E` when it fails or crashes. -/
def Triple (P : σ → Prop) (p : Prog σ ε α) (Q : α → σ → Prop) (E : σ → Prop) : Prop :=
  ∀ faults s, P s → Ends Q E (p faults s)

theorem Ends.mono {Q Q' : α → σ → Prop} {E E' : σ → Prop} {r : Outcome ε α × List Fault × σ}
    (ends : Ends Q E r) (post : ∀ a s, Q a s → Q' a s) (failed : ∀ s, E s → E' s) :
    Ends Q' E' r := by
  obtain ⟨_ | _ | _, _, s⟩ := r
  · exact post _ _ ends
  · exact failed _ ends
  · exact failed _ ends

namespace Triple

variable {P P' : σ → Prop} {Q Q' : α → σ → Prop} {R : β → σ → Prop} {E E' : σ → Prop}
  {p : Prog σ ε α} {f : α → Prog σ ε β}

theorem pure {a : α} (holds : ∀ s, P s → Q a s) : Triple P (pure a : Prog σ ε α) Q E :=
  fun _ s start => holds s start

theorem throw {e : ε} (holds : ∀ s, P s → E s) : Triple P (Prog.throw e) Q E :=
  fun _ s start => holds s start

theorem bind (first : Triple P p Q E) (next : ∀ a, Triple (Q a) (f a) R E) :
    Triple P (p >>= f) R E := by
  intro faults s start
  have returned := first faults s start
  rw [Prog.run_bind]
  generalize p faults s = r at returned
  obtain ⟨_ | _ | _, rest, s'⟩ := r
  · exact next _ rest s' returned
  · exact returned
  · exact returned

theorem conseq (inner : Triple P' p Q' E') (pre : ∀ s, P s → P' s)
    (post : ∀ a s, Q' a s → Q a s) (failed : ∀ s, E' s → E s) : Triple P p Q E :=
  fun faults s start => (inner faults s (pre s start)).mono post failed

theorem strengthen (inner : Triple P' p Q E) (pre : ∀ s, P s → P' s) : Triple P p Q E :=
  inner.conseq pre (fun _ _ h => h) (fun _ h => h)

theorem weaken (inner : Triple P p Q' E) (post : ∀ a s, Q' a s → Q a s) : Triple P p Q E :=
  inner.conseq (fun _ h => h) post (fun _ h => h)

theorem stopping (inner : Triple P p Q E') (failed : ∀ s, E' s → E s) : Triple P p Q E :=
  inner.conseq (fun _ h => h) (fun _ _ h => h) failed

theorem and (left : Triple P p Q E) (right : Triple P' p Q' E') :
    Triple (fun s => P s ∧ P' s) p (fun a s => Q a s ∧ Q' a s) (fun s => E s ∧ E' s) := by
  intro faults s ⟨start, start'⟩
  have first := left faults s start
  have second := right faults s start'
  generalize p faults s = r at first second
  obtain ⟨_ | _ | _, rest, s'⟩ := r
  all_goals exact ⟨first, second⟩

/-- What holds of every state in which a program can end holds of the one it ends in. -/
theorem after (triple : Triple P p Q E) (returned : ∀ a s, Q a s → E s) {s : σ} (start : P s)
    (faults : List Fault) : E (p faults s).2.2 := by
  have ends := triple faults s start
  generalize p faults s = r at ends
  obtain ⟨_ | _ | _, rest, s'⟩ := r
  · exact returned _ _ ends
  · exact ends
  · exact ends

/-- A fact that does not depend on the state may be assumed of the program. -/
theorem assume {C : Prop} (inner : C → Triple P p Q E) :
    Triple (fun s => C ∧ P s) p Q E := fun faults s start => inner start.1 faults s start.2

/-- The precondition may be opened before the program runs. -/
theorem open_exists {ι : Type} {P : ι → σ → Prop} (inner : ∀ i, Triple (P i) p Q E) :
    Triple (fun s => ∃ i, P i s) p Q E := fun faults s ⟨i, start⟩ => inner i faults s start

/-- The state the program starts in may be fixed. -/
theorem fix (inner : ∀ start, P start → Triple (fun s => s = start) p Q E) : Triple P p Q E :=
  fun faults s start => inner s start faults s rfl

theorem ofExcept {r : Except ε α} (returned : ∀ a s, r = .ok a → P s → Q a s)
    (failed : ∀ s, P s → E s) : Triple P (Prog.ofExcept r) Q E := by
  cases r with
  | ok a => exact pure fun s start => returned a s rfl start
  | error e => exact throw failed

variable {io : ε}

theorem read {g : σ → Except ε α} (returned : ∀ a s, P s → g s = .ok a → Q a s)
    (failed : ∀ s, P s → E s) : Triple P (Prog.read io g) Q E := by
  intro faults s start
  rw [Prog.run_read]
  cases faults.headD .proceed with
  | proceed =>
    cases value : g s with
    | ok a => exact returned a s start value
    | error e => exact failed s start
  | fail _ | crash _ => exact failed s start

variable {done : σ → σ}

theorem act {reach : Nat → σ → σ} {Q : Unit → σ → Prop} (finished : ∀ s, P s → Q () (done s))
    (stopped : ∀ n s, P s → E (reach n s)) : Triple P (Prog.act io reach done) Q E := by
  intro faults s start
  rw [Prog.run_act]
  cases faults.headD .proceed with
  | proceed => exact finished s start
  | fail n | crash n => exact stopped n s start

theorem replace {Q : Unit → σ → Prop} (finished : ∀ s, P s → Q () (done s)) (kept : ∀ s, P s → E s)
    (stopped : ∀ s, P s → E (done s)) : Triple P (Prog.replace io done) Q E := by
  refine act finished fun n s start => ?_
  by_cases begun : n = 0
  · simpa [begun] using kept s start
  · simpa [begun] using stopped s start

theorem transact {f : σ → Except ε (α × σ)} (finished : ∀ s a s', P s → f s = .ok (a, s') → Q a s')
    (kept : ∀ s, P s → E s) (stopped : ∀ s a s', P s → f s = .ok (a, s') → E s') :
    Triple P (Prog.transact io f) Q E := by
  intro faults s start
  simp only [Prog.transact, Prog.run]
  cases value : f s with
  | error e => cases faults.headD .proceed <;> exact kept s start
  | ok result =>
    obtain ⟨a, s'⟩ := result
    have cut : ∀ n : Nat, E (if n = 0 then s else s') := by
      intro n
      split
      · exact kept s start
      · exact stopped s a s' start value
    cases faults.headD .proceed with
    | proceed => exact finished s a s' start value
    | fail n | crash n => exact cut n

/-- A program that fails inside has left what its failure leaves. -/
theorem note {f : σ → σ} {Q : Unit → σ → Prop} (finished : ∀ s, P s → Q () (f s)) :
    Triple P (Prog.note f : Prog σ ε Unit) Q E := fun _ s start => finished s start

theorem halt (holds : ∀ s, P s → E s) : Triple P (Prog.halt : Prog σ ε α) Q E :=
  fun _ s start => holds s start

/-- From a known state a change leads to a known state. -/
theorem replace_bind {f : Unit → Prog σ ε β} {s : σ} (kept : E s) (changed : E (done s))
    (next : Triple (· = done s) (f ()) R E) : Triple (· = s) (Prog.replace io done >>= f) R E := by
  refine bind (Q := fun _ => (· = done s)) (replace ?_ ?_ ?_) fun _ => next
  · exact fun _ same => same ▸ rfl
  · exact fun _ same => same ▸ kept
  · exact fun _ same => same ▸ changed

theorem note_bind {g : σ → σ} {f : Unit → Prog σ ε β} {s : σ} (next : Triple (· = g s) (f ()) R E) :
    Triple (· = s) (Prog.note g >>= f) R E :=
  bind (Q := fun _ => (· = g s)) (note fun _ same => same ▸ rfl) fun _ => next

/-- A program of a part of the state, seen from the whole. -/
theorem zoom {τ : Type} {get : σ → τ} {set : τ → σ → σ} (lens : Prog.Lens get set)
    {p : Prog τ ε α} (inner : ∀ s, P s →
      Triple (fun t => t = get s) p (fun a t => Q a (set t s)) (fun t => E (set t s))) :
    Triple P (Prog.zoom get set p) Q E := by
  intro faults s start
  have returned := inner s start faults (get s) rfl
  rw [Prog.run_zoom lens]
  generalize p faults (get s) = r at returned
  obtain ⟨_ | _ | _, rest, t⟩ := r
  all_goals exact returned

/-- The loop rule: `I done` holds once the elements of `done` have been processed. -/
theorem each {I : List α → List β → σ → Prop} (xs : List α) (start : ∀ s, P s → I [] [] s)
    (step : ∀ before x after results, xs = before ++ x :: after → Triple (I before results)
      (f x) (fun y => I (before ++ [x]) (results ++ [y])) E) :
    Triple P (Prog.each f xs) (I xs) E := by
  have loop (rest done : List α) (results : List β) (split : xs = done ++ rest) :
      Triple (I done results) (Prog.each f rest) (fun ys => I xs (results ++ ys)) E := by
    induction rest generalizing done results with
    | nil => exact pure fun s held => by simpa [split] using held
    | cons x rest ih =>
      refine bind (step done x rest results split) fun y => ?_
      refine bind (ih (done ++ [x]) (results ++ [y]) (by simpa using split)) fun ys => ?_
      exact pure fun s held => by simpa using held
  exact (loop xs [] [] rfl).strengthen start

end Triple

/-! ### Runs without faults -/

/-- Started in a state satisfying `P`, `p` returns when nothing goes wrong, with `Q` of the value
and the state. -/
def Succeeds (P : σ → Prop) (p : Prog σ ε α) (Q : α → σ → Prop) : Prop :=
  ∀ s, P s → ∃ a s', p [] s = (.ok a, [], s') ∧ Q a s'

namespace Succeeds

variable {P P' : σ → Prop} {Q Q' : α → σ → Prop} {R : β → σ → Prop} {p : Prog σ ε α}
  {f : α → Prog σ ε β}

theorem pure {a : α} (holds : ∀ s, P s → Q a s) : Succeeds P (pure a : Prog σ ε α) Q :=
  fun s start => ⟨a, s, rfl, holds s start⟩

theorem bind (first : Succeeds P p Q) (next : ∀ a, Succeeds (Q a) (f a) R) :
    Succeeds P (p >>= f) R := by
  intro s start
  obtain ⟨a, s', ran, mid⟩ := first s start
  obtain ⟨b, s'', ran', ends⟩ := next a s' mid
  exact ⟨b, s'', by rw [Prog.run_bind, ran]; exact ran', ends⟩

theorem conseq (inner : Succeeds P' p Q') (pre : ∀ s, P s → P' s)
    (post : ∀ a s, Q' a s → Q a s) : Succeeds P p Q := by
  intro s start
  obtain ⟨a, s', ran, ends⟩ := inner s (pre s start)
  exact ⟨a, s', ran, post a s' ends⟩

/-- What a triple says of the states it ends in holds of the one it returns in. -/
theorem also {E : σ → Prop} (inner : Succeeds P p Q) (triple : Triple P p Q' E) :
    Succeeds P p fun a s => Q a s ∧ Q' a s := by
  intro s start
  obtain ⟨a, s', ran, ends⟩ := inner s start
  have returned := triple [] s start
  rw [ran] at returned
  exact ⟨a, s', ran, ends, returned⟩

theorem fix (inner : ∀ start, P start → Succeeds (fun s => s = start) p Q) : Succeeds P p Q :=
  fun s start => inner s start s rfl

theorem ofExcept {a : α} {r : Except ε α} (value : r = .ok a) (holds : ∀ s, P s → Q a s) :
    Succeeds P (Prog.ofExcept r : Prog σ ε α) Q := by
  subst value
  exact pure holds

variable {io : ε} {g : σ → Except ε α}

theorem read (returns : ∀ s, P s → ∃ a, g s = .ok a ∧ Q a s) : Succeeds P (Prog.read io g) Q := by
  intro s start
  obtain ⟨a, value, ends⟩ := returns s start
  exact ⟨a, s, by simp [Prog.run_read, value], ends⟩

/-- What a read answers, whether it finds something or not. -/
theorem attempt_read {Q : Except ε α → σ → Prop} (answers : ∀ s, P s → Q (g s) s) :
    Succeeds P (Prog.read io g).attempt Q := by
  intro s start
  refine ⟨g s, s, ?_, answers s start⟩
  rw [Prog.run_attempt, Prog.run_read]
  cases g s <;> rfl

theorem attempt (inner : Succeeds P p Q) :
    Succeeds P p.attempt (fun result s => ∃ a, result = .ok a ∧ Q a s) := by
  intro s start
  obtain ⟨a, s', ran, ends⟩ := inner s start
  exact ⟨.ok a, s', by rw [Prog.run_attempt, ran], a, rfl, ends⟩

theorem act {reach : Nat → σ → σ} {done : σ → σ} {Q : Unit → σ → Prop}
    (finished : ∀ s, P s → Q () (done s)) : Succeeds P (Prog.act io reach done) Q :=
  fun s start => ⟨(), done s, rfl, finished s start⟩

theorem replace {done : σ → σ} {Q : Unit → σ → Prop} (finished : ∀ s, P s → Q () (done s)) :
    Succeeds P (Prog.replace io done) Q := act finished

theorem transact {g : σ → Except ε (α × σ)}
    (finished : ∀ s, P s → ∃ a s', g s = .ok (a, s') ∧ Q a s') :
    Succeeds P (Prog.transact io g) Q := by
  intro s start
  obtain ⟨a, s', value, ends⟩ := finished s start
  exact ⟨a, s', by rw [Prog.run_transact_nil, value], ends⟩

theorem zoom {τ : Type} {get : σ → τ} {set : τ → σ → σ} (lens : Prog.Lens get set)
    {p : Prog τ ε α} (inner : ∀ s, P s → Succeeds (fun t => t = get s) p fun a t => Q a (set t s)) :
    Succeeds P (Prog.zoom get set p) Q := by
  intro s start
  obtain ⟨a, t, ran, ends⟩ := inner s start (get s) rfl
  exact ⟨a, set t s, by rw [Prog.run_zoom lens, ran], ends⟩

/-- The loop rule: `I done` holds once the elements of `done` have been processed. -/
theorem each {I : List α → σ → Prop} (xs : List α) (start : ∀ s, P s → I [] s)
    (step : ∀ before x after, xs = before ++ x :: after → Succeeds (I before) (f x) fun _ =>
      I (before ++ [x])) : Succeeds P (Prog.each f xs) fun _ => I xs := by
  have loop (rest done : List α) (split : xs = done ++ rest) :
      Succeeds (I done) (Prog.each f rest) fun _ => I xs := by
    induction rest generalizing done with
    | nil => exact pure fun s held => by simpa [split] using held
    | cons x rest ih =>
      refine bind (step done x rest split) fun y => ?_
      exact bind (ih (done ++ [x]) (by simpa using split)) fun ys => pure fun s held => held
  exact (loop xs [] rfl).conseq start fun _ _ h => h

end Succeeds

/-- `p` keeps `P`, whether it returns, fails or crashes. -/
def Keeps (P : σ → Prop) (p : Prog σ ε α) : Prop := Triple P p (fun _ => P) P

namespace Keeps

variable {P : σ → Prop} {p : Prog σ ε α} {f : α → Prog σ ε β}

theorem pure {a : α} : Keeps P (pure a : Prog σ ε α) := Triple.pure fun _ h => h

theorem throw {e : ε} : Keeps P (Prog.throw e : Prog σ ε α) := Triple.throw fun _ h => h

theorem bind (first : Keeps P p) (next : ∀ a, Keeps P (f a)) : Keeps P (p >>= f) :=
  Triple.bind first next

theorem ofExcept {r : Except ε α} : Keeps P (Prog.ofExcept r : Prog σ ε α) :=
  Triple.ofExcept (fun _ _ _ h => h) fun _ h => h

theorem replace {io : ε} {done : σ → σ} (kept : ∀ s, P s → P (done s)) :
    Keeps P (Prog.replace io done) :=
  Triple.replace kept (fun _ h => h) kept

theorem each {xs : List α} (step : ∀ x ∈ xs, Keeps P (f x)) : Keeps P (Prog.each f xs) :=
  Triple.each (I := fun _ _ => P) xs (fun _ h => h) fun before x after _ split =>
    step x (by simp [split])

end Keeps

/-! ### What every access does -/

/-- Every access that finds a state of `rely` changes it within `R`, whatever its fault and whatever
happened to the state since the access before. -/
def Guarantees (rely : σ → Prop) (R : σ → σ → Prop) : Prog σ ε α → Prop
  | .ret _ => True
  | .raise _ => True
  | .stop => True
  | .access effect next =>
    ∀ fault s, rely s → R s (effect fault s) ∧ Guarantees rely R (next fault s)
  | .mark f next => (∀ s, rely s → R s (f s)) ∧ Guarantees rely R next

namespace Guarantees

variable {rely rely' : σ → Prop} {R R' : σ → σ → Prop} {p : Prog σ ε α} {f : α → Prog σ ε β}

theorem any (p : Prog σ ε α) : Guarantees (fun _ => True) (fun _ _ => True) p := by
  induction p with
  | ret a | raise e | stop => trivial
  | access effect next ih => exact fun fault s _ => ⟨trivial, ih fault s⟩
  | mark g next ih => exact ⟨fun _ _ => trivial, ih⟩

theorem pure {a : α} : Guarantees rely R (pure a : Prog σ ε α) := trivial

theorem throw {e : ε} : Guarantees rely R (Prog.throw e : Prog σ ε α) := trivial

theorem halt : Guarantees rely R (Prog.halt : Prog σ ε α) := trivial

theorem bind (first : Guarantees rely R p) (next : ∀ a, Guarantees rely R (f a)) :
    Guarantees rely R (p >>= f) := by
  induction p with
  | ret a => exact next a
  | raise e | stop => trivial
  | access effect rest ih =>
    intro fault s found
    exact ⟨(first fault s found).1, ih fault s (first fault s found).2⟩
  | mark g rest ih => exact ⟨first.1, ih first.2⟩

theorem mono (inner : Guarantees rely R p) (finds : ∀ s, rely' s → rely s)
    (within : ∀ s s', rely' s → R s s' → R' s s') : Guarantees rely' R' p := by
  induction p with
  | ret a | raise e | stop => trivial
  | access effect rest ih =>
    intro fault s found
    obtain ⟨changes, goes⟩ := inner fault s (finds s found)
    exact ⟨within _ _ found changes, ih fault s goes⟩
  | mark g rest ih =>
    exact ⟨fun s found => within _ _ found (inner.1 s (finds s found)), ih inner.2⟩

theorem ofExcept {r : Except ε α} : Guarantees rely R (Prog.ofExcept r : Prog σ ε α) := by
  cases r with
  | ok a => exact pure
  | error e => exact throw

variable {io : ε}

theorem resume {fault : Fault} (goes : Guarantees rely R p) :
    Guarantees rely R (Prog.resume io p fault) := by
  cases fault with
  | proceed => exact goes
  | fail _ | crash _ => trivial

theorem read {g : σ → Except ε α} (stays : ∀ s, rely s → R s s) :
    Guarantees rely R (Prog.read io g) :=
  fun _ s found => ⟨stays s found, resume ofExcept⟩

theorem act {reach : Nat → σ → σ} {done : σ → σ} (finished : ∀ s, rely s → R s (done s))
    (stopped : ∀ n s, rely s → R s (reach n s)) : Guarantees rely R (Prog.act io reach done) := by
  intro fault s found
  refine ⟨?_, resume trivial⟩
  cases fault with
  | proceed => exact finished s found
  | fail n | crash n => exact stopped n s found

theorem transact {g : σ → Except ε (α × σ)} (stays : ∀ s, rely s → R s s)
    (finished : ∀ s a s', rely s → g s = .ok (a, s') → R s s') :
    Guarantees rely R (Prog.transact io g) := by
  intro fault s found
  refine ⟨?_, resume ofExcept⟩
  dsimp only
  cases value : g s with
  | error e => exact stays s found
  | ok result =>
    obtain ⟨a, s'⟩ := result
    have reaches : ∀ n : Nat, R s (if n = 0 then s else s') := by
      intro n
      split
      · exact stays s found
      · exact finished s a s' found value
    cases fault with
    | proceed => exact finished s a s' found value
    | fail n | crash n => exact reaches n

theorem replace {done : σ → σ} (stays : ∀ s, rely s → R s s)
    (finished : ∀ s, rely s → R s (done s)) : Guarantees rely R (Prog.replace io done) := by
  refine act finished fun n s found => ?_
  by_cases begun : n = 0
  · simpa [begun] using stays s found
  · simpa [begun] using finished s found

/-- A program of a part of the state, seen from the whole. -/
theorem zoom {τ : Type} {get : σ → τ} {set : τ → σ → σ} {inside : τ → Prop} {within : τ → τ → Prop}
    {p : Prog τ ε α} (inner : Guarantees inside within p) (finds : ∀ s, rely s → inside (get s))
    (through : ∀ t s, rely s → within (get s) t → R s (set t s)) :
    Guarantees rely R (Prog.zoom get set p) := by
  induction p with
  | ret a | raise e | stop => trivial
  | access effect rest ih =>
    intro fault s found
    obtain ⟨changes, goes⟩ := inner fault (get s) (finds s found)
    exact ⟨through _ s found changes, ih fault (get s) goes⟩
  | mark g rest ih =>
    exact ⟨fun s found => through _ s found (inner.1 _ (finds s found)), ih inner.2⟩

theorem attempt (inner : Guarantees rely R p) : Guarantees rely R p.attempt := by
  induction p with
  | ret a | raise e | stop => trivial
  | access effect next ih =>
    intro fault s found
    exact ⟨(inner fault s found).1, ih fault s (inner fault s found).2⟩
  | mark f next ih => exact ⟨inner.1, ih inner.2⟩

theorem each {xs : List α} (step : ∀ x ∈ xs, Guarantees rely R (f x)) :
    Guarantees rely R (Prog.each f xs) := by
  induction xs with
  | nil => exact pure
  | cons x xs ih =>
    refine bind (step x List.mem_cons_self) fun _ => bind (ih fun y inside => ?_) fun _ => pure
    exact step y (List.mem_cons_of_mem x inside)

/-- A program that has the state for itself changes it within a transitive relation. -/
theorem run (inner : Guarantees rely R p) (refl : ∀ s, R s s)
    (trans : ∀ a b c, R a b → R b c → R a c) (stable : ∀ s s', rely s → R s s' → rely s')
    (faults : List Fault) (s : σ) (found : rely s) : R s (p faults s).2.2 := by
  induction p generalizing faults s with
  | ret a | raise e | stop => exact refl s
  | access effect rest ih =>
    obtain ⟨changes, goes⟩ := inner (faults.headD .proceed) s found
    exact trans _ _ _ changes (ih _ _ goes _ _ (stable _ _ found changes))
  | mark g rest ih =>
    have changes := inner.1 s found
    exact trans _ _ _ changes (ih inner.2 _ _ (stable _ _ found changes))

end Guarantees

/-! ### Frames -/

/-- `p` leaves this view of the state as it finds it, with every access. -/
def Leaves {τ : Type} (view : σ → τ) (p : Prog σ ε α) : Prop :=
  Guarantees (fun _ => True) (fun s s' => view s' = view s) p

namespace Leaves

variable {τ : Type} {view : σ → τ} {p : Prog σ ε α} {f : α → Prog σ ε β}

theorem run (leaves : Leaves view p) (faults : List Fault) (s : σ) :
    view (p faults s).2.2 = view s :=
  Guarantees.run leaves (fun _ => rfl) (fun _ _ _ first second => second.trans first)
    (fun _ _ _ _ => trivial) faults s trivial

/-- A program keeps whatever can be read off a view it leaves alone. -/
theorem keeps (leaves : Leaves view p) (P : τ → Prop) : Keeps (fun s => P (view s)) p := by
  intro faults s start
  have kept : P (view (p faults s).2.2) := (leaves.run faults s).symm ▸ start
  generalize p faults s = r at kept
  obtain ⟨_ | _ | _, rest, s'⟩ := r
  all_goals exact kept

theorem triple (leaves : Leaves view p) {P : τ → Prop} {E : σ → Prop}
    (stopped : ∀ s, P (view s) → E s) : Triple (fun s => P (view s)) p (fun _ s => P (view s)) E :=
  (leaves.keeps P).conseq (fun _ h => h) (fun _ _ h => h) stopped

theorem map {υ : Type} (leaves : Leaves view p) (f : τ → υ) : Leaves (fun s => f (view s)) p :=
  Guarantees.mono leaves (fun _ _ => trivial) fun _ _ _ same => congrArg f same

/-- A property that only depends on the view is carried over the program. -/
theorem carry (leaves : Leaves view p) {P E : σ → Prop}
    (respects : ∀ s s', view s' = view s → P s → P s') (stopped : ∀ s, P s → E s) :
    Triple P p (fun _ => P) E :=
  (leaves.keeps fun v => ∃ s, view s = v ∧ P s).conseq (fun s start => ⟨s, rfl, start⟩)
    (fun _ s' ⟨s, same, held⟩ => respects s s' same.symm held)
    (fun s' ⟨s, same, held⟩ => stopped s' (respects s s' same.symm held))

theorem pure {a : α} : Leaves view (pure a : Prog σ ε α) := Guarantees.pure

theorem throw {e : ε} : Leaves view (Prog.throw e : Prog σ ε α) := Guarantees.throw

theorem halt : Leaves view (Prog.halt : Prog σ ε α) := Guarantees.halt

theorem bind (first : Leaves view p) (next : ∀ a, Leaves view (f a)) : Leaves view (p >>= f) :=
  Guarantees.bind first next

theorem ofExcept {r : Except ε α} : Leaves view (Prog.ofExcept r : Prog σ ε α) :=
  Guarantees.ofExcept

variable {io : ε}

theorem read {g : σ → Except ε α} : Leaves view (Prog.read io g) :=
  Guarantees.read fun _ _ => rfl

theorem act {reach : Nat → σ → σ} {done : σ → σ} (finished : ∀ s, view (done s) = view s)
    (stopped : ∀ n s, view (reach n s) = view s) : Leaves view (Prog.act io reach done) :=
  Guarantees.act (fun s _ => finished s) fun n s _ => stopped n s

theorem replace {done : σ → σ} (finished : ∀ s, view (done s) = view s) :
    Leaves view (Prog.replace io done) :=
  Guarantees.replace (fun _ _ => rfl) fun s _ => finished s

theorem transact {g : σ → Except ε (α × σ)}
    (finished : ∀ s a s', g s = .ok (a, s') → view s' = view s) :
    Leaves view (Prog.transact io g) :=
  Guarantees.transact (fun _ _ => rfl) fun s a s' _ value => finished s a s' value

theorem attempt (inner : Leaves view p) : Leaves view p.attempt := Guarantees.attempt inner

/-- A program of a part that leaves `inner` of it alone leaves what depends on that only. -/
theorem inside {υ κ : Type} {get : σ → υ} {set : υ → σ → σ} {inner : υ → κ} {p : Prog υ ε α}
    (leaves : Leaves inner p) (through : ∀ t s, inner t = inner (get s) → view (set t s) = view s) :
    Leaves view (Prog.zoom get set p) :=
  Guarantees.zoom leaves (fun _ _ => trivial) fun t s _ same => through t s same

theorem zoom {υ : Type} {get : σ → υ} {set : υ → σ → σ} {p : Prog υ ε α}
    (apart : ∀ t s, view (set t s) = view s) : Leaves view (Prog.zoom get set p) :=
  Guarantees.zoom (Guarantees.any p) (fun _ _ => trivial) fun t s _ _ => apart t s

theorem each {xs : List α} (step : ∀ x, Leaves view (f x)) :
    Leaves view (Prog.each f xs) := Guarantees.each fun x _ => step x

end Leaves

/-! ### Programs that only look -/

/-- `p` changes nothing, and what it returns satisfies `C` of the state it finds. -/
structure Observes (p : Prog σ ε α) (C : σ → α → Prop) : Prop where
  unchanged : Leaves (fun s => s) p
  returned : ∀ start, Triple (· = start) p (fun a _ => C start a) fun _ => True

namespace Observes

variable {C C' : σ → α → Prop} {D : σ → β → Prop} {p : Prog σ ε α} {f : α → Prog σ ε β}

theorem leaves (looks : Observes p C) {τ : Type} (view : σ → τ) : Leaves view p :=
  looks.unchanged.map view

/-- It may stand in front of any program. -/
theorem triple (looks : Observes p C) {P E : σ → Prop} (stopped : ∀ s, P s → E s) :
    Triple P p (fun a s => C s a ∧ P s) E := by
  refine Triple.fix fun start held => ?_
  refine ((looks.unchanged.keeps (· = start)).and (looks.returned start)).conseq ?_ ?_ ?_
  · exact fun _ same => ⟨same, same⟩
  · rintro a s ⟨rfl, known⟩
    exact ⟨known, held⟩
  · rintro s ⟨rfl, _⟩
    exact stopped _ held

/-- In a known state a program may look and go on. -/
theorem bind_triple (looks : Observes p C) {s : σ} {Q : β → σ → Prop} {E : σ → Prop}
    (stopped : E s) (next : ∀ a, C s a → Triple (· = s) (f a) Q E) :
    Triple (· = s) (p >>= f) Q E := by
  refine Triple.bind (looks.triple fun _ same => same ▸ stopped) fun a => Triple.fix ?_
  rintro _ ⟨known, rfl⟩
  exact next a known

theorem weaken (looks : Observes p C) (post : ∀ s a, C s a → C' s a) : Observes p C' :=
  ⟨looks.unchanged, fun start => (looks.returned start).weaken fun a _ => post start a⟩

theorem pure {a : α} (holds : ∀ s, C s a) : Observes (pure a : Prog σ ε α) C :=
  ⟨Leaves.pure, fun start => Triple.pure fun _ _ => holds start⟩

theorem throw {e : ε} : Observes (Prog.throw e : Prog σ ε α) C :=
  ⟨Leaves.throw, fun _ => Triple.throw fun _ _ => trivial⟩

theorem halt : Observes (Prog.halt : Prog σ ε α) C :=
  ⟨Leaves.halt, fun _ => Triple.halt fun _ _ => trivial⟩

theorem ofExcept {r : Except ε α} : Observes (Prog.ofExcept r : Prog σ ε α) fun _ a => r = .ok a :=
  ⟨Leaves.ofExcept, fun _ => Triple.ofExcept (fun _ _ value _ => value) fun _ _ => trivial⟩

theorem read {io : ε} {g : σ → Except ε α} : Observes (Prog.read io g) fun s a => g s = .ok a :=
  ⟨Leaves.read, fun _ => Triple.read (fun _ _ same value => same ▸ value) fun _ _ => trivial⟩

theorem bind (first : Observes p C) (next : ∀ a, Observes (f a) fun s b => C s a → D s b) :
    Observes (p >>= f) D where
  unchanged := Leaves.bind first.unchanged fun a => (next a).unchanged
  returned start := first.bind_triple trivial fun a known =>
    ((next a).returned start).weaken fun _ _ holds => holds known

theorem zoom {τ : Type} {get : σ → τ} {set : τ → σ → σ} (lens : Prog.Lens get set)
    {C : τ → α → Prop} {p : Prog τ ε α} (inner : Observes p C) :
    Observes (Prog.zoom get set p) fun s => C (get s) where
  unchanged := Leaves.inside inner.unchanged fun t s same => by
    rw [show t = get s from same, lens.set_get]
  returned start := Triple.zoom lens fun _ same => same ▸ inner.returned (get start)

theorem each {C : α → σ → β → Prop} (step : ∀ x, Observes (f x) (C x)) (xs : List α) :
    Observes (Prog.each f xs) fun s ys => List.Forall₂ (C · s ·) xs ys := by
  induction xs with
  | nil => exact pure fun _ => .nil
  | cons x xs ih =>
    exact bind (step x) fun y => bind ih fun ys => pure fun s rest here => .cons here rest

end Observes

/-! ### Runs -/

variable {ι : Type}

/-- Every step of the run meets `ok` in the state it starts from. -/
def Meets (step : σ → ι → σ) (ok : σ → ι → Prop) : σ → List ι → Prop
  | _, [] => True
  | s, op :: ops => ok s op ∧ Meets step ok (step s op) ops

instance Meets.decidable (step : σ → ι → σ) (ok : σ → ι → Prop) [∀ s op, Decidable (ok s op)] :
    ∀ s ops, Decidable (Meets step ok s ops)
  | _, [] => isTrue trivial
  | s, op :: ops =>
    have := Meets.decidable step ok (step s op) ops
    inferInstanceAs (Decidable (ok s op ∧ Meets step ok (step s op) ops))

/-- What holds at the start and is kept by every step that meets `ok` holds at the end of every run
whose steps all meet it. -/
theorem invariant_run {step : σ → ι → σ} {ok : σ → ι → Prop} {I : σ → Prop}
    (kept : ∀ s op, ok s op → I s → I (step s op)) (ops : List ι) (s : σ)
    (start : I s) (met : Meets step ok s ops) : I (ops.foldl step s) := by
  induction ops generalizing s with
  | nil => exact start
  | cons op ops ih => exact ih (step s op) (kept s op met.1 start) met.2

end CrashLogic
