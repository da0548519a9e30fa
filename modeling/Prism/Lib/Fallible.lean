import Mathlib.Algebra.Order.Ring.Int
import Mathlib.Data.List.Forall2

/-!
Inversion of computations in `Except`: what a returned value says about the steps behind it.
-/

namespace Fallible

variable {ε α β : Type} {x : Except ε α} {f : α → Except ε β}

theorem bind_eq_ok {b : β} : x >>= f = .ok b ↔ ∃ a, x = .ok a ∧ f a = .ok b := by
  cases x with
  | error e | ok a => simp [bind, Except.bind]

@[simp] theorem pure_eq_ok {a b : α} : (pure a : Except ε α) = .ok b ↔ a = b := by
  simp [pure, Except.pure]

@[simp] theorem pure_ne_error {a : α} {e : ε} : (pure a : Except ε α) ≠ .error e := by
  simp [pure, Except.pure]

theorem map_eq_ok {f : α → β} {b : β} : f <$> x = .ok b ↔ ∃ a, x = .ok a ∧ f a = b := by
  cases x with
  | error e | ok a => simp [Functor.map, Except.map]

theorem bind_pure_eq_ok {f : α → β} {b : β} :
    (x >>= fun a => pure (f a)) = .ok b ↔ ∃ a, x = .ok a ∧ f a = b := by
  simp only [bind_eq_ok, pure_eq_ok]

theorem bind_eq_error {e : ε} :
    x >>= f = .error e ↔ x = .error e ∨ ∃ a, x = .ok a ∧ f a = .error e := by
  cases x with
  | error e' | ok a => simp [bind, Except.bind]

theorem ok_unique {a b : α} (one : x = .ok a) (two : x = .ok b) : a = b :=
  Except.ok.inj (one.symm.trans two)

/-- A computation fails if it does not return. -/
theorem exists_eq_error : (∃ e, x = .error e) ↔ ¬ ∃ a, x = .ok a := by
  cases x with
  | error e | ok a => simp

theorem mapError_eq_ok {ε' : Type} {g : ε → ε'} {a : α} : x.mapError g = .ok a ↔ x = .ok a := by
  cases x with
  | error e | ok a' => simp [Except.mapError]

theorem mapError_eq_error {ε' : Type} {g : ε → ε'} {e' : ε'} :
    x.mapError g = .error e' ↔ ∃ e, x = .error e ∧ g e = e' := by
  cases x with
  | error e | ok a => simp [Except.mapError]

/-- A check that refuses has not fired in a computation that returned. -/
theorem guard_eq_ok {c : Prop} [Decidable c] {e : ε} {next : α → Except ε β} {rest : Except ε β}
    {b : β} : (if c then .error e >>= next else rest) = .ok b ↔ ¬ c ∧ rest = .ok b := by
  by_cases refused : c
  · simp [refused, bind, Except.bind]
  · simp [refused]

/-- A refusal in front of a computation that returned was not made. -/
theorem refuse_eq_ok {c : Prop} [Decidable c] {e : ε} {rest : Except ε α} {a : α} :
    (if c then .error e else rest) = .ok a ↔ ¬ c ∧ rest = .ok a := by
  by_cases refused : c <;> simp [refused]

variable {xs : List α}

/-- A loop of checks passes when every check does. -/
theorem forM_eq_ok {f : α → Except ε Unit} : xs.forM f = .ok () ↔ ∀ x ∈ xs, f x = .ok () := by
  induction xs with
  | nil => simp [pure, Except.pure]
  | cons x xs ih =>
    change (f x >>= fun _ => xs.forM f) = .ok () ↔ _
    rw [bind_eq_ok, List.forall_mem_cons]
    exact ⟨fun ⟨_, head, tail⟩ => ⟨head, ih.mp tail⟩, fun ⟨head, tail⟩ => ⟨(), head, ih.mpr tail⟩⟩

variable {ys : List β}

/-- A loop returns when every step does, and returns their values in order. -/
theorem mapM_eq_ok : xs.mapM f = .ok ys ↔ List.Forall₂ (fun x y => f x = .ok y) xs ys := by
  induction xs generalizing ys with
  | nil =>
    rw [List.mapM_nil, pure_eq_ok, List.forall₂_nil_left_iff, eq_comm]
  | cons x xs ih =>
    simp only [List.mapM_cons, bind_eq_ok, pure_eq_ok, ih, List.forall₂_cons_left_iff]
    constructor
    · rintro ⟨y, first, rest, others, rfl⟩
      exact ⟨y, rest, first, others, rfl⟩
    · rintro ⟨y, rest, first, others, rfl⟩
      exact ⟨y, first, rest, others, rfl⟩

/-- Every element on the right is related to one on the left. -/
theorem exists_left_of_forall₂ {R : α → β → Prop} {y : β} (each : List.Forall₂ R xs ys)
    (mem : y ∈ ys) : ∃ x ∈ xs, R x y := by
  induction each with
  | nil => simp at mem
  | @cons x y' xs ys first _ ih =>
    rcases List.mem_cons.mp mem with rfl | later
    · exact ⟨x, by simp, first⟩
    · obtain ⟨x', inside, related⟩ := ih later
      exact ⟨x', by simp [inside], related⟩

theorem exists_of_mapM_eq_ok {y : β} (ran : xs.mapM f = .ok ys) (mem : y ∈ ys) :
    ∃ x ∈ xs, f x = .ok y :=
  exists_left_of_forall₂ (R := fun x y => f x = .ok y) (mapM_eq_ok.mp ran) mem

theorem exists_of_mem_of_mapM_eq_ok {x : α} (ran : xs.mapM f = .ok ys) (mem : x ∈ xs) :
    ∃ y ∈ ys, f x = .ok y :=
  exists_left_of_forall₂ (R := fun y x => f x = .ok y) (mapM_eq_ok.mp ran).flip mem

theorem exists_of_mapM_eq_error {e : ε} (ran : xs.mapM f = .error e) :
    ∃ x ∈ xs, f x = .error e := by
  induction xs with
  | nil => exact absurd ran pure_ne_error
  | cons x xs ih =>
    rw [List.mapM_cons, bind_eq_error] at ran
    rcases ran with first | ⟨y, -, others⟩
    · exact ⟨x, by simp, first⟩
    · rcases bind_eq_error.mp others with later | ⟨ys, -, impossible⟩
      · obtain ⟨x', inside, failed⟩ := ih later
        exact ⟨x', by simp [inside], failed⟩
      · exact absurd impossible pure_ne_error

/-- The values of a loop stand where its elements do. -/
theorem getElem?_of_mapM_eq_ok (ran : xs.mapM f = .ok ys) {i : Nat} {x : α} (at' : xs[i]? = some x) :
    ∃ y, ys[i]? = some y ∧ f x = .ok y := by
  have each := mapM_eq_ok.mp ran
  clear ran
  induction each generalizing i with
  | nil => simp at at'
  | cons first _ ih =>
    cases i with
    | zero => exact ⟨_, rfl, Option.some.inj at' ▸ first⟩
    | succ i => exact ih at'

theorem length_of_mapM_eq_ok (ran : xs.mapM f = .ok ys) : ys.length = xs.length :=
  (mapM_eq_ok.mp ran).length_eq.symm

/-- What the steps of a loop establish holds between its elements and its values. -/
theorem forall₂_of_mapM_eq_ok {R : α → β → Prop} (ran : xs.mapM f = .ok ys)
    (each : ∀ x ∈ xs, ∀ y, f x = .ok y → R x y) : List.Forall₂ R xs ys := by
  have pointwise := mapM_eq_ok.mp ran
  clear ran
  induction pointwise with
  | nil => exact .nil
  | cons first _ ih =>
    obtain ⟨here, later⟩ := List.forall_mem_cons.mp each
    exact .cons (here _ first) (ih later)

/-- A loop returns if every step does. -/
theorem exists_mapM_eq_ok : (∃ ys, xs.mapM f = .ok ys) ↔ ∀ x ∈ xs, ∃ y, f x = .ok y := by
  constructor
  · rintro ⟨ys, ran⟩ x mem
    obtain ⟨y, -, got⟩ := exists_of_mem_of_mapM_eq_ok ran mem
    exact ⟨y, got⟩
  · intro each
    induction xs with
    | nil => exact ⟨[], rfl⟩
    | cons x xs ih =>
      obtain ⟨⟨y, first⟩, others⟩ := List.forall_mem_cons.mp each
      obtain ⟨ys, ran⟩ := ih others
      refine ⟨y :: ys, ?_⟩
      simp only [List.mapM_cons, bind_eq_ok, pure_eq_ok]
      exact ⟨y, first, ys, ran, rfl⟩

theorem mapM_congr {g : α → Except ε β} (each : ∀ x ∈ xs, f x = g x) : xs.mapM f = xs.mapM g := by
  induction xs with
  | nil => rfl
  | cons x xs ih =>
    obtain ⟨first, others⟩ := List.forall_mem_cons.mp each
    rw [List.mapM_cons, List.mapM_cons, first, ih others]

/-- What is loaded before a loop may be loaded in each of its steps, if it has one. -/
theorem load_mapM_eq_ok {γ : Type} {load : Except ε γ} {f : γ → α → Except ε β} (some : xs ≠ []) :
    (load >>= fun c => xs.mapM (f c)) = .ok ys ↔
      xs.mapM (fun x => load >>= fun c => f c x) = .ok ys := by
  cases load with
  | ok c => exact Iff.rfl
  | error e =>
    cases xs with
    | nil => exact absurd rfl some
    | cons x xs =>
      rw [List.mapM_cons]
      exact Iff.rfl

/-- Two loops, the second over what the first gives, are one. -/
theorem zip_mapM_eq_ok {γ : Type} {g : α → β → Except ε γ} {ys : List γ} :
    (∃ bs, xs.mapM f = .ok bs ∧ (xs.zip bs).mapM (fun p => g p.1 p.2) = .ok ys) ↔
      xs.mapM (fun x => f x >>= g x) = .ok ys := by
  induction xs generalizing ys with
  | nil => simp
  | cons x xs ih =>
    simp only [List.mapM_cons, bind_eq_ok, pure_eq_ok, ← ih]
    constructor
    · rintro ⟨_, ⟨b, first, bs, later, rfl⟩, second⟩
      simp only [List.zip_cons_cons, List.mapM_cons, bind_eq_ok, pure_eq_ok] at second
      obtain ⟨y, here, ys, there, rfl⟩ := second
      exact ⟨y, ⟨b, first, here⟩, ys, ⟨bs, later, there⟩, rfl⟩
    · rintro ⟨y, ⟨b, first, here⟩, ys, ⟨bs, later, there⟩, rfl⟩
      refine ⟨_, ⟨b, first, bs, later, rfl⟩, ?_⟩
      simp only [List.zip_cons_cons, List.mapM_cons, bind_eq_ok, pure_eq_ok]
      exact ⟨y, here, ys, there, rfl⟩

/-- Two loops over the same elements are one. -/
theorem both_mapM_eq_ok {γ δ : Type} {g : α → Except ε γ} {h : α → β → γ → δ} {ys : List δ} :
    (∃ bs, xs.mapM f = .ok bs ∧ ∃ cs, xs.mapM g = .ok cs ∧
        (xs.zip (bs.zip cs)).map (fun p => h p.1 p.2.1 p.2.2) = ys) ↔
      xs.mapM (fun x => f x >>= fun b => g x >>= fun c => pure (h x b c)) = .ok ys := by
  induction xs generalizing ys with
  | nil => simp
  | cons x xs ih =>
    simp only [List.mapM_cons, bind_eq_ok, pure_eq_ok, ← ih]
    constructor
    · rintro ⟨_, ⟨b, first, bs, later, rfl⟩, _, ⟨c, first', cs, later', rfl⟩, rfl⟩
      exact ⟨_, ⟨b, first, c, first', rfl⟩, _, ⟨bs, later, cs, later', rfl⟩, rfl⟩
    · rintro ⟨_, ⟨b, first, c, first', rfl⟩, _, ⟨bs, later, cs, later', rfl⟩, rfl⟩
      exact ⟨_, ⟨b, first, bs, later, rfl⟩, _, ⟨c, first', cs, later', rfl⟩, rfl⟩

theorem mapM_eq_ok_map {g : α → β} (each : ∀ x ∈ xs, f x = .ok (g x)) :
    xs.mapM f = .ok (xs.map g) := by
  rw [mapM_eq_ok, List.forall₂_map_right_iff, List.forall₂_same]
  exact each

variable {σ : Type}

/-- A loop seen through a projection of its state is the loop over the projection, if every step is.
`I` is what the steps may use of the projected state. -/
theorem map_foldlM {τ : Type} {f : σ → α → Except ε σ} {g : σ → τ} {F : τ → α → Except ε τ}
    {I : τ → Prop} (step : ∀ s, ∀ x ∈ xs, I (g s) → (f s x).map g = F (g s) x)
    (keeps : ∀ t, ∀ x ∈ xs, ∀ t', I t → F t x = .ok t' → I t') {s : σ} (start : I (g s)) :
    (xs.foldlM f s).map g = xs.foldlM F (g s) := by
  induction xs generalizing s with
  | nil => rfl
  | cons x xs ih =>
    have first := step s x List.mem_cons_self start
    rw [List.foldlM_cons, List.foldlM_cons, ← first]
    cases ran : f s x with
    | error e => rfl
    | ok s' =>
      rw [ran] at first
      apply ih (fun s y hy => step s y (List.mem_cons_of_mem x hy))
        (fun t y hy => keeps t y (List.mem_cons_of_mem x hy))
      exact keeps (g s) x List.mem_cons_self (g s') start first.symm

/-- What every step keeps, a loop that returned has kept. -/
theorem foldlM_keeps {f : σ → α → Except ε σ} {I : σ → Prop}
    (keeps : ∀ s, ∀ x ∈ xs, ∀ s', I s → f s x = .ok s' → I s') {s s' : σ} (start : I s)
    (ran : xs.foldlM f s = .ok s') : I s' := by
  induction xs generalizing s with
  | nil => exact Except.ok.inj ran ▸ start
  | cons x xs ih =>
    obtain ⟨next, first, rest⟩ := bind_eq_ok.mp ran
    exact ih (fun s y hy => keeps s y (List.mem_cons_of_mem x hy))
      (keeps s x List.mem_cons_self next start first) rest

/-- The same with an invariant that knows which elements the loop has been through. -/
theorem foldlM_induction {f : σ → α → Except ε σ} {I : List α → σ → Prop} {s s' : σ}
    (start : I [] s)
    (step : ∀ before x after s s', xs = before ++ x :: after → I before s → f s x = .ok s' →
      I (before ++ [x]) s') (ran : xs.foldlM f s = .ok s') : I xs s' := by
  suffices general : ∀ rest before s, xs = before ++ rest → I before s → rest.foldlM f s = .ok s' →
      I xs s' from general xs [] s rfl start ran
  intro rest
  induction rest with
  | nil =>
    intro before s split held ran
    rw [List.foldlM_nil, pure_eq_ok] at ran
    rwa [split, List.append_nil, ← ran]
  | cons x rest ih =>
    intro before s split held ran
    rw [List.foldlM_cons, bind_eq_ok] at ran
    obtain ⟨t, first, later⟩ := ran
    exact ih (before ++ [x]) t (by simp [split]) (step before x rest s t split held first) later

/-- A loop whose steps all return is a fold. -/
theorem foldlM_ok (f : σ → α → σ) (xs : List α) (s : σ) :
    xs.foldlM (fun s x => (.ok (f s x) : Except ε σ)) s = .ok (xs.foldl f s) := by
  induction xs generalizing s with
  | nil => rfl
  | cons x xs ih => exact ih (f s x)

/-! ### Filters -/

/-- Whether a test that may fail accepts. -/
def accepts (test : α → Except ε Bool) (x : α) : Bool :=
  match test x with
  | .ok answer => answer
  | .error _ => false

variable {test : α → Except ε Bool}

theorem accepts_eq_true {x : α} : accepts test x = true ↔ test x = .ok true := by
  unfold accepts
  cases test x with
  | error e | ok answer => simp

/-- The elements that a test accepts; the first failure of the test is that of the whole. -/
def keepM (test : α → Except ε Bool) : List α → Except ε (List α)
  | [] => .ok []
  | x :: xs => do
    let answer ← test x
    let rest ← keepM test xs
    return if answer then x :: rest else rest

theorem keepM_eq_ok {ys : List α} : keepM test xs = .ok ys ↔
      (∀ x ∈ xs, ∃ answer, test x = .ok answer) ∧ ys = xs.filter (accepts test) := by
  induction xs generalizing ys with
  | nil => simp [keepM, eq_comm]
  | cons x xs ih =>
    simp only [keepM, bind_eq_ok, pure_eq_ok, ih, List.forall_mem_cons]
    constructor
    · rintro ⟨answer, first, rest, ⟨others, rfl⟩, rfl⟩
      refine ⟨⟨⟨answer, first⟩, others⟩, ?_⟩
      simp [List.filter_cons, accepts, first]
    · rintro ⟨⟨⟨answer, first⟩, others⟩, rfl⟩
      refine ⟨answer, first, _, ⟨others, rfl⟩, ?_⟩
      simp [List.filter_cons, accepts, first]

theorem keepM_cons_of_false {x : α} (first : test x = .ok false) :
    keepM test (x :: xs) = keepM test xs := by
  cases rest : keepM test xs with
  | error e => simp [keepM, first, rest, bind, Except.bind]
  | ok kept => simp [keepM, first, rest, bind, Except.bind, pure, Except.pure]

theorem keepM_cons_of_true {x : α} {kept : List α} (first : test x = .ok true) :
    keepM test (x :: xs) = .ok kept ↔ ∃ rest, keepM test xs = .ok rest ∧ x :: rest = kept := by
  simp only [keepM, first, bind_eq_ok, pure_eq_ok, Except.ok.injEq]
  constructor
  · rintro ⟨_, rfl, rest, others, rfl⟩
    exact ⟨rest, others, rfl⟩
  · rintro ⟨rest, others, rfl⟩
    exact ⟨true, rfl, rest, others, rfl⟩

/-- A loop that reads the elements that pass a test, seen through what it gathers. It returns where
all the tests and the reads do. -/
theorem foldlM_kept {τ : Type} {step : σ → α → Except ε σ} {read : α → Except ε β} {skip : σ → σ}
    {enter : σ → α → β → σ} {view : σ → τ} {join : τ → β → τ} (shape : ∀ s x, step s x = do
      if ← test x then
        let y ← read x
        return enter s x y
      else return skip s) (skips : ∀ s, view (skip s) = view s)
    (enters : ∀ s x y, view (enter s x y) = join (view s) y) {s : σ} {t : τ} :
    (∃ s', xs.foldlM step s = .ok s' ∧ view s' = t) ↔
      ∃ kept ys, keepM test xs = .ok kept ∧ kept.mapM read = .ok ys ∧
        ys.foldl join (view s) = t := by
  induction xs generalizing s with
  | nil =>
    constructor
    · rintro ⟨s', ran, rfl⟩
      obtain rfl := pure_eq_ok.mp ran
      exact ⟨[], [], rfl, rfl, rfl⟩
    · rintro ⟨kept, ys, tests, reads, rfl⟩
      cases tests
      obtain rfl := pure_eq_ok.mp reads
      exact ⟨s, rfl, rfl⟩
  | cons x xs ih =>
    rw [List.foldlM_cons, shape]
    cases tested : test x with
    | error e => simp [keepM, tested, bind, Except.bind]
    | ok answer =>
      cases answer with
      | false =>
        rw [keepM_cons_of_false tested, ← skips s]
        exact ih
      | true =>
        simp only [keepM_cons_of_true tested]
        cases got : read x with
        | error e =>
          constructor
          · rintro ⟨_, ran, -⟩
            simp [bind, Except.bind] at ran
          · rintro ⟨_, ys, ⟨rest, -, rfl⟩, all, -⟩
            simp [got, bind, Except.bind] at all
        | ok y =>
          have later := ih (s := enter s x y)
          rw [enters] at later
          constructor
          · intro ran
            obtain ⟨kept, ys, tests, reads, same⟩ := later.mp ran
            refine ⟨x :: kept, y :: ys, ⟨kept, tests, rfl⟩, ?_, same⟩
            simp only [List.mapM_cons, bind_eq_ok, pure_eq_ok]
            exact ⟨y, got, ys, reads, rfl⟩
          · rintro ⟨_, _, ⟨kept, tests, rfl⟩, reads, same⟩
            simp only [List.mapM_cons, bind_eq_ok, pure_eq_ok] at reads
            obtain ⟨y', got', ys, others, rfl⟩ := reads
            obtain rfl : y = y' := Except.ok.inj (got.symm.trans got')
            exact later.mpr ⟨kept, ys, tests, others, same⟩

end Fallible
