import Mathlib.Logic.Function.Basic
import Mathlib.Tactic.Choose
import Prism.Lib.CrashLogic

/-!
Programs that share one state. A schedule says which program makes the next access and what fault
it meets; between two accesses of one program the others may have changed the state at will.
-/

namespace CrashLogic

variable {σ ε α β : Type}

namespace Prog

/-- Perform the marks that belong to the access just made. -/
def settle : Prog σ ε α → σ → Prog σ ε α × σ
  | mark f next, s => settle next (f s)
  | p, s => (p, s)

/-- One access under `fault`. A program that has ended stays as it is. -/
def step (fault : Fault) : Prog σ ε α → σ → Prog σ ε α × σ
  | access effect next, s => settle (next fault s) (effect fault s)
  | p, s => settle p s

/-- What a client does that calls one operation after another, however each of them ends. -/
def session (ops : List (Prog σ ε α)) : Prog σ ε (List (Except ε α)) := each attempt ops

end Prog

namespace Guarantees

variable {rely : σ → Prop} {R : σ → σ → Prop} {p : Prog σ ε α}

theorem session {ops : List (Prog σ ε α)} (inner : ∀ p ∈ ops, Guarantees rely R p) :
    Guarantees rely R (Prog.session ops) :=
  each fun p listed => (inner p listed).attempt

section Step

variable (refl : ∀ s, R s s) (trans : ∀ a b c, R a b → R b c → R a c)
  (stable : ∀ s s', rely s → R s s' → rely s')
include refl trans stable

theorem settle (inner : Guarantees rely R p) (s : σ) (found : rely s) :
    R s (p.settle s).2 ∧ Guarantees rely R (p.settle s).1 := by
  induction p generalizing s with
  | ret a | raise e | stop => exact ⟨refl s, trivial⟩
  | access effect next => exact ⟨refl s, inner⟩
  | mark f next ih =>
    have changes := inner.1 s found
    obtain ⟨settles, goes⟩ := ih inner.2 (f s) (stable _ _ found changes)
    exact ⟨trans _ _ _ changes settles, goes⟩

/-- One access changes the state within `R`, and so will the accesses after it. -/
theorem step (inner : Guarantees rely R p) (fault : Fault) (s : σ) (found : rely s) :
    R s (p.step fault s).2 ∧ Guarantees rely R (p.step fault s).1 := by
  cases p with
  | access effect next =>
    obtain ⟨changes, goes⟩ := inner fault s found
    obtain ⟨settles, rest⟩ := goes.settle refl trans stable _ (stable _ _ found changes)
    exact ⟨trans _ _ _ changes settles, rest⟩
  | ret a | raise e | stop | mark f next => exact inner.settle refl trans stable s found

end Step

end Guarantees

theorem Meets.of_forall {ι : Type} {step : σ → ι → σ} {ok : σ → ι → Prop}
    (all : ∀ s op, ok s op) (s : σ) (ops : List ι) : Meets step ok s ops := by
  induction ops generalizing s with
  | nil => trivial
  | cons op ops ih => exact ⟨all s op, ih _⟩

/-! ### Threads -/

/-- Programs over one state, each where it is paused. -/
structure Threads (ι σ ε α : Type) where
  prog : ι → Prog σ ε α
  state : σ

namespace Threads

variable {ι : Type} [DecidableEq ι]

/-- One thread makes its next access. -/
def step (t : Threads ι σ ε α) (move : ι × Fault) : Threads ι σ ε α :=
  let next := (t.prog move.1).step move.2 t.state
  ⟨Function.update t.prog move.1 next.1, next.2⟩

/-- The threads after a schedule. -/
def run (t : Threads ι σ ε α) (moves : List (ι × Fault)) : Threads ι σ ε α := moves.foldl step t

variable {t : Threads ι σ ε α}

/-- A thread that made no access is where it was. -/
theorem prog_run_of_not_mem {moves : List (ι × Fault)} {i : ι} (idle : i ∉ moves.map Prod.fst) :
    (t.run moves).prog i = t.prog i := by
  induction moves generalizing t with
  | nil => rfl
  | cons move moves ih =>
    simp only [List.map_cons, List.mem_cons, not_or] at idle
    refine (ih idle.2).trans ?_
    simp [step, Function.update_of_ne idle.1]

theorem run_append (t : Threads ι σ ε α) (first second : List (ι × Fault)) :
    t.run (first ++ second) = (t.run first).run second := List.foldl_append

/-- Every thread relies on `I` and keeps within a relation of its own, under which `I` is stable. -/
structure Agree (I : σ → Prop) (R : ι → σ → σ → Prop) : Prop where
  refl : ∀ i s, R i s s
  trans : ∀ i a b c, R i a b → R i b c → R i a c
  stable : ∀ i s s', I s → R i s s' → I s'

variable {I : σ → Prop} {R : ι → σ → σ → Prop}

/-- One access of a thread stays within its relation, whatever it is paused at. -/
theorem Agree.step (agree : Agree I R) (holds : I t.state)
    (inner : ∀ i, Guarantees I (R i) (t.prog i)) (move : ι × Fault) :
    R move.1 t.state (t.step move).state ∧ I (t.step move).state ∧
      ∀ i, Guarantees I (R i) ((t.step move).prog i) := by
  obtain ⟨changes, goes⟩ := (inner move.1).step (agree.refl move.1) (agree.trans move.1)
    (agree.stable move.1) move.2 t.state holds
  refine ⟨changes, agree.stable _ _ _ holds changes, fun i => ?_⟩
  by_cases own : i = move.1
  · subst own
    simpa [Threads.step] using goes
  · simpa [Threads.step, Function.update_of_ne own] using inner i

/-- Under every schedule the threads keep `I` and go on as they began. -/
theorem Agree.run (agree : Agree I R) (holds : I t.state)
    (inner : ∀ i, Guarantees I (R i) (t.prog i)) (moves : List (ι × Fault)) :
    I (t.run moves).state ∧ ∀ i, Guarantees I (R i) ((t.run moves).prog i) := by
  induction moves generalizing t with
  | nil => exact ⟨holds, inner⟩
  | cons move moves ih =>
    obtain ⟨_, kept, goes⟩ := agree.step holds inner move
    exact ih kept goes

end Threads

/-! ### Rely and guarantee -/

/-- What a thread may count on and what it owes: the accesses of it that are looked at, what the
others may do between two of them, and what each of them may do to the others. -/
structure Contract (σ : Type) where
  allows : Fault → σ → Prop
  rely : σ → σ → Prop
  guar : σ → σ → Prop

/-- `P` survives what the others do. -/
def Contract.Stable (c : Contract σ) (P : σ → Prop) : Prop := ∀ s s', P s → c.rely s s' → P s'

/-- From a state of `P` the program keeps to its contract, and ends in `Q` of what it returns or in
`E` of what it raises. Between two accesses a stable assertion holds. -/
def Secures (c : Contract σ) (Q : α → σ → Prop) (E : ε → σ → Prop) :
    Prog σ ε α → (σ → Prop) → Prop
  | .ret a, P => ∀ s, P s → Q a s
  | .raise e, P => ∀ s, P s → E e s
  | .stop, _ => True
  | .access effect next, P => ∀ fault s, c.allows fault s → P s →
      c.guar s (effect fault s) ∧
        ∃ P', c.Stable P' ∧ P' (effect fault s) ∧ Secures c Q E (next fault s) P'
  | .mark f next, P => (∀ s, P s → c.guar s (f s)) ∧
      ∃ P', c.Stable P' ∧ (∀ s, P s → P' (f s)) ∧ Secures c Q E next P'

namespace Secures

variable {c : Contract σ} {Q : α → σ → Prop} {E : ε → σ → Prop} {P P' : σ → Prop}
  {p : Prog σ ε α}

theorem strengthen (inner : Secures c Q E p P') (pre : ∀ s, P s → P' s) : Secures c Q E p P := by
  cases p with
  | ret a | raise e => exact fun s start => inner s (pre s start)
  | stop => trivial
  | access effect next => exact fun fault s allowed start => inner fault s allowed (pre s start)
  | mark f next =>
    obtain ⟨changes, P'', stable, reached, goes⟩ := inner
    exact ⟨fun s start => changes s (pre s start), P'', stable,
      fun s start => reached s (pre s start), goes⟩

theorem weaken {Q' : α → σ → Prop} {E' : ε → σ → Prop} (inner : Secures c Q E p P)
    (post : ∀ a s, Q a s → Q' a s) (failed : ∀ e s, E e s → E' e s) : Secures c Q' E' p P := by
  induction p generalizing P with
  | ret a => exact fun s start => post a s (inner s start)
  | raise e => exact fun s start => failed e s (inner s start)
  | stop => trivial
  | access effect next ih =>
    intro fault s allowed start
    obtain ⟨changes, P', stable, reached, goes⟩ := inner fault s allowed start
    exact ⟨changes, P', stable, reached, ih fault s goes⟩
  | mark f next ih =>
    obtain ⟨changes, P', stable, reached, goes⟩ := inner
    exact ⟨changes, P', stable, reached, ih goes⟩

theorem pure {a : α} (holds : ∀ s, P s → Q a s) : Secures c Q E (pure a : Prog σ ε α) P := holds

theorem throw {e : ε} (holds : ∀ s, P s → E e s) :
    Secures c Q E (Prog.throw e : Prog σ ε α) P := holds

theorem halt : Secures c Q E (Prog.halt : Prog σ ε α) P := trivial

theorem bind {M : β → σ → Prop} {f : β → Prog σ ε α} {p : Prog σ ε β}
    (first : Secures c M E p P) (next : ∀ b, Secures c Q E (f b) (M b)) :
    Secures c Q E (p >>= f) P := by
  induction p generalizing P with
  | ret b => exact (next b).strengthen first
  | raise e => exact first
  | stop => trivial
  | access effect rest ih =>
    intro fault s allowed start
    obtain ⟨changes, P', stable, reached, goes⟩ := first fault s allowed start
    exact ⟨changes, P', stable, reached, ih fault s goes⟩
  | mark g rest ih =>
    obtain ⟨changes, P', stable, reached, goes⟩ := first
    exact ⟨changes, P', stable, reached, ih goes⟩

theorem ofExcept {r : Except ε α} (returned : ∀ a s, r = .ok a → P s → Q a s)
    (failed : ∀ e s, r = .error e → P s → E e s) :
    Secures c Q E (Prog.ofExcept r : Prog σ ε α) P := by
  cases r with
  | ok a => exact fun s start => returned a s rfl start
  | error e => exact fun s start => failed e s rfl start

section Stable

variable (value : ∀ a, c.Stable (Q a)) (error : ∀ e, c.Stable (E e))
include value error

/-- A read, where the postconditions are stable. -/
theorem read {io : ε} {g : σ → Except ε α} (stays : ∀ s, P s → c.guar s s)
    (returned : ∀ a s, P s → g s = .ok a → Q a s) (refused : ∀ e s, P s → g s = .error e → E e s)
    (failed : ∀ n s, c.allows (.fail n) s → P s → E io s) : Secures c Q E (Prog.read io g) P := by
  intro fault s allowed start
  refine ⟨stays s start, ?_⟩
  cases fault with
  | proceed =>
    simp only [Prog.resume]
    cases result : g s with
    | ok a => exact ⟨Q a, value a, returned a s start result, fun _ h => h⟩
    | error e => exact ⟨E e, error e, refused e s start result, fun _ h => h⟩
  | fail n => exact ⟨E io, error io, failed n s allowed start, fun _ h => h⟩
  | crash n => exact ⟨fun _ => True, fun _ _ _ _ => trivial, trivial, trivial⟩

/-- One atomic step that may be refused, where the postconditions are stable. -/
theorem transact {io : ε} {f : σ → Except ε (α × σ)} (stays : ∀ s, P s → c.guar s s)
    (changes : ∀ fault s a s', c.allows fault s → P s → f s = .ok (a, s') →
      c.guar s s' ∧ Q a s' ∧ E io s') (refused : ∀ e s, P s → f s = .error e → E e s)
    (failed : ∀ n s, c.allows (.fail n) s → P s → E io s) :
    Secures c Q E (Prog.transact io f) P := by
  intro fault s allowed start
  -- An interrupted step has happened or it has not.
  simp only
  cases result : f s with
  | error e =>
    refine ⟨stays s start, ?_⟩
    cases fault with
    | proceed => exact ⟨E e, error e, refused e s start result, fun _ h => h⟩
    | fail n => exact ⟨E io, error io, failed n s allowed start, fun _ h => h⟩
    | crash n => exact ⟨fun _ => True, fun _ _ _ _ => trivial, trivial, trivial⟩
  | ok changed =>
    obtain ⟨a, s'⟩ := changed
    obtain ⟨within, done, partly⟩ := changes fault s a s' allowed start result
    have half (n : Nat) : c.guar s (if n = 0 then s else s') := by
      by_cases begun : n = 0
      · simpa [begun] using stays s start
      · simpa [begun] using within
    cases fault with
    | proceed => exact ⟨within, Q a, value a, done, fun _ h => h⟩
    | fail n =>
      refine ⟨half n, E io, error io, ?_, fun _ h => h⟩
      by_cases begun : n = 0
      · simpa [begun] using failed n s allowed start
      · simpa [begun] using partly
    | crash n => exact ⟨half n, fun _ => True, fun _ _ _ _ => trivial, trivial, trivial⟩

/-- An atomic change, where the postconditions are stable. -/
theorem update {io : ε} {found : σ → α} {done : σ → σ} (stays : ∀ s, P s → c.guar s s)
    (changes : ∀ fault s, c.allows fault s → P s →
      c.guar s (done s) ∧ Q (found s) (done s) ∧ E io (done s))
    (failed : ∀ n s, c.allows (.fail n) s → P s → E io s) :
    Secures c Q E (Prog.update io found done) P := by
  rw [Prog.update_eq_transact]
  refine transact value error stays ?_ (fun _ _ _ other => nomatch other) failed
  intro fault s a s' allowed start same
  cases same
  exact changes fault s allowed start

end Stable

/-- A step that replaces part of the state, where the postconditions are stable. -/
theorem replace {io : ε} {done : σ → σ} {Q : Unit → σ → Prop} (value : c.Stable (Q ()))
    (error : ∀ e, c.Stable (E e)) (stays : ∀ s, P s → c.guar s s)
    (changes : ∀ fault s, c.allows fault s → P s →
      c.guar s (done s) ∧ Q () (done s) ∧ E io (done s))
    (failed : ∀ n s, c.allows (.fail n) s → P s → E io s) :
    Secures c Q E (Prog.replace io done) P := by
  rw [Prog.replace_eq_update]
  exact update (fun _ => value) error stays changes failed

/-- The precondition may be opened before the program runs. -/
theorem open_exists {κ : Type} {P : κ → σ → Prop} (inner : ∀ k, Secures c Q E p (P k)) :
    Secures c Q E p (fun s => ∃ k, P k s) := by
  induction p generalizing κ with
  | ret a | raise e => exact fun s ⟨k, start⟩ => inner k s start
  | stop => trivial
  | access effect next => exact fun fault s allowed ⟨k, start⟩ => inner k fault s allowed start
  | mark f next ih =>
    choose changes P' stable reached goes using inner
    refine ⟨fun s ⟨k, start⟩ => changes k s start, fun s => ∃ k, P' k s, ?_, ?_, ih goes⟩
    · exact fun s s' ⟨k, held⟩ moved => ⟨k, stable k s s' held moved⟩
    · exact fun s ⟨k, start⟩ => ⟨k, reached k s start⟩

/-- A fact that does not depend on the state may be assumed of the program. -/
theorem assume {C : Prop} (inner : C → Secures c Q E p P) : Secures c Q E p (fun s => C ∧ P s) :=
  (open_exists (κ := PLift C) (P := fun _ => P) fun known => inner known.down).strengthen
    fun _ ⟨known, start⟩ => ⟨⟨known⟩, start⟩

/-- A change of the history, which belongs to the access before it. -/
theorem note {f : σ → σ} {Q : Unit → σ → Prop} (value : c.Stable (Q ()))
    (changes : ∀ s, P s → c.guar s (f s)) (reached : ∀ s, P s → Q () (f s)) :
    Secures c Q E (Prog.note f) P :=
  ⟨changes, Q (), value, reached, fun _ h => h⟩

/-- The loop rule: `I done` holds once the elements of `done` have been processed. -/
theorem each {f : α → Prog σ ε β} {I : List α → List β → σ → Prop} (xs : List α)
    (start : ∀ s, P s → I [] [] s) (step : ∀ before x after results, xs = before ++ x :: after →
      Secures c (fun y => I (before ++ [x]) (results ++ [y])) E (f x) (I before results)) :
    Secures c (I xs) E (Prog.each f xs) P := by
  have loop (rest done : List α) (results : List β) (split : xs = done ++ rest) :
      Secures c (fun ys => I xs (results ++ ys)) E (Prog.each f rest) (I done results) := by
    induction rest generalizing done results with
    | nil => exact pure fun s held => by simpa [split] using held
    | cons x rest ih =>
      refine bind (step done x rest results split) fun y => ?_
      refine bind (ih (done ++ [x]) (results ++ [y]) (by simpa using split)) fun ys => ?_
      exact pure fun s held => by simpa using held
  exact (loop xs [] [] rfl).strengthen start

/-- What is performed at the end of a program may change the postconditions. -/
theorem ending {M : α → σ → Prop} {F : ε → σ → Prop} {f : σ → σ} (inner : Secures c M F p P)
    (changes : ∀ s, c.guar s (f s)) (value : ∀ a, c.Stable (Q a)) (error : ∀ e, c.Stable (E e))
    (post : ∀ a s, M a s → Q a (f s)) (failed : ∀ e s, F e s → E e (f s)) :
    Secures c Q E (p.ending f) P := by
  induction p generalizing P with
  | ret a =>
    exact ⟨fun s _ => changes s, Q a, value a, fun s start => post a s (inner s start), fun _ h => h⟩
  | raise e =>
    exact ⟨fun s _ => changes s, E e, error e, fun s start => failed e s (inner s start),
      fun _ h => h⟩
  | stop => exact ⟨fun s _ => changes s, fun _ => True, fun _ _ _ _ => trivial,
      fun _ _ => trivial, trivial⟩
  | access effect next ih =>
    intro fault s allowed start
    obtain ⟨within, P', stable, reached, goes⟩ := inner fault s allowed start
    exact ⟨within, P', stable, reached, ih fault s goes⟩
  | mark g next ih =>
    obtain ⟨within, P', stable, reached, goes⟩ := inner
    exact ⟨within, P', stable, reached, ih goes⟩

/-- What a program raises may be handled. -/
theorem attempt {E' : ε → σ → Prop} (inner : Secures c Q E p P) :
    Secures c (fun r s => match r with | .ok a => Q a s | .error e => E e s) E' p.attempt P := by
  induction p generalizing P with
  | ret a | raise e => exact inner
  | stop => trivial
  | access effect next ih =>
    intro fault s allowed start
    obtain ⟨changes, P', stable, reached, goes⟩ := inner fault s allowed start
    exact ⟨changes, P', stable, reached, ih fault s goes⟩
  | mark f next ih =>
    obtain ⟨changes, P', stable, reached, goes⟩ := inner
    exact ⟨changes, P', stable, reached, ih goes⟩

end Secures

namespace Threads

variable {ι : Type} [DecidableEq ι] {c : ι → Contract σ} {Q : ι → α → σ → Prop}
  {E : ι → ε → σ → Prop}

/-- Every thread has a stable assertion from which it keeps to its contract. -/
def Sound (c : ι → Contract σ) (Q : ι → α → σ → Prop) (E : ι → ε → σ → Prop)
    (t : Threads ι σ ε α) : Prop :=
  ∀ i, ∃ P, (c i).Stable P ∧ P t.state ∧ Secures (c i) (Q i) (E i) (t.prog i) P

/-- What one thread owes, every other one counts on. -/
def Compatible (c : ι → Contract σ) : Prop :=
  ∀ i j, i ≠ j → ∀ s s', (c i).guar s s' → (c j).rely s s'

/-- The marks of a thread keep what is stable for the others and reach an assertion of its own. -/
theorem secures_settle {c : Contract σ} {Q : α → σ → Prop} {E : ε → σ → Prop}
    {p : Prog σ ε α} {P : σ → Prop} (inner : Secures c Q E p P) (stable : c.Stable P) (s : σ)
    (start : P s) : (∀ K : σ → Prop, (∀ a b, K a → c.guar a b → K b) → K s → K (p.settle s).2) ∧
      ∃ P', c.Stable P' ∧ P' (p.settle s).2 ∧ Secures c Q E (p.settle s).1 P' := by
  induction p generalizing P s with
  | ret a | raise e | stop => exact ⟨fun _ _ holds => holds, P, stable, start, inner⟩
  | access effect next => exact ⟨fun _ _ holds => holds, P, stable, start, inner⟩
  | mark f next ih =>
    obtain ⟨changes, P', stable', reached, goes⟩ := inner
    obtain ⟨kept, final⟩ := ih goes stable' (f s) (reached s start)
    exact ⟨fun K keeps holds => kept K keeps (keeps _ _ holds (changes s start)), final⟩

/-- The same for one access with its marks. -/
theorem secures_step {c : Contract σ} {Q : α → σ → Prop} {E : ε → σ → Prop} {p : Prog σ ε α}
    {P : σ → Prop} (inner : Secures c Q E p P) (stable : c.Stable P) (fault : Fault) (s : σ)
    (allowed : c.allows fault s) (start : P s) :
    (∀ K : σ → Prop, (∀ a b, K a → c.guar a b → K b) → K s → K (p.step fault s).2) ∧
      ∃ P', c.Stable P' ∧ P' (p.step fault s).2 ∧ Secures c Q E (p.step fault s).1 P' := by
  cases p with
  | access effect next =>
    obtain ⟨changes, P', stable', reached, goes⟩ := inner fault s allowed start
    obtain ⟨kept, final⟩ := secures_settle goes stable' (effect fault s) reached
    exact ⟨fun K keeps holds => kept K keeps (keeps _ _ holds changes), final⟩
  | ret a | raise e | stop | mark f next => exact secures_settle inner stable s start

variable {t : Threads ι σ ε α}

theorem Sound.step (compatible : Compatible c) (sound : Sound c Q E t) (move : ι × Fault)
    (allowed : (c move.1).allows move.2 t.state) : Sound c Q E (t.step move) := by
  obtain ⟨P, stable, start, inner⟩ := sound move.1
  obtain ⟨kept, own⟩ := secures_step inner stable move.2 t.state allowed start
  intro i
  by_cases mover : i = move.1
  · subst mover
    simpa [Threads.step] using own
  · obtain ⟨P', stable', start', inner'⟩ := sound i
    refine ⟨P', stable', ?_, ?_⟩
    · exact kept P' (fun a b holds changes =>
        stable' a b holds (compatible _ _ (Ne.symm mover) a b changes)) start'
    · simpa [Threads.step, Function.update_of_ne mover] using inner'

/-- Along every schedule whose accesses are all allowed the threads stay sound. -/
theorem Sound.run (compatible : Compatible c) (sound : Sound c Q E t) (moves : List (ι × Fault))
    (allowed : Meets Threads.step (fun t move => (c move.1).allows move.2 t.state) t moves) :
    Sound c Q E (t.run moves) := by
  have kept : ∀ t move, (c move.1).allows move.2 t.state → Sound c Q E t →
      Sound c Q E (Threads.step t move) :=
    fun t move met sound => Sound.step compatible sound move met
  exact invariant_run kept moves t sound allowed

/-- What every thread keeps within its contract holds along every such schedule. -/
theorem Sound.invariant (compatible : Compatible c) {I : σ → Prop}
    (kept : ∀ i s s', I s → (c i).guar s s' → I s') (sound : Sound c Q E t) (holds : I t.state)
    (moves : List (ι × Fault))
    (allowed : Meets Threads.step (fun t move => (c move.1).allows move.2 t.state) t moves) :
    I (t.run moves).state := by
  induction moves generalizing t with
  | nil => exact holds
  | cons move moves ih =>
    obtain ⟨P, stable, start, inner⟩ := sound move.1
    have moved := (secures_step inner stable move.2 t.state allowed.1 start).1
    exact ih (sound.step compatible move allowed.1) (moved I (kept move.1) holds) allowed.2

omit [DecidableEq ι] in
/-- A thread that has returned is where its postcondition says. -/
theorem Sound.returned (sound : Sound c Q E t) {i : ι} {a : α} (ended : t.prog i = .ret a) :
    Q i a t.state := by
  obtain ⟨P, _, start, inner⟩ := sound i
  rw [ended] at inner
  exact inner _ start

omit [DecidableEq ι] in
theorem Sound.raised (sound : Sound c Q E t) {i : ι} {e : ε} (ended : t.prog i = .raise e) :
    E i e t.state := by
  obtain ⟨P, _, start, inner⟩ := sound i
  rw [ended] at inner
  exact inner _ start

end Threads

end CrashLogic
