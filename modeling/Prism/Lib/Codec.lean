import Prism.Lib.Bytes

/-!
Readers of a buffer that keep a position and can fail, and what it means that such a reader reads a
value from some bytes: whatever stands before and after them, it returns the value and stops right
behind them.
-/

namespace Codec

variable {β ε α γ : Type}

/-- The reader `p`, placed in front of `bytes`, returns `a` and consumes exactly `bytes`. -/
def Reads (p : ReaderT (List β) (StateT Nat (Except ε)) α) (bytes : List β) (a : α) : Prop :=
  ∀ before after : List β,
    p (before ++ (bytes ++ after)) before.length = .ok (a, (before ++ bytes).length)

namespace Reads

variable {p : ReaderT (List β) (StateT Nat (Except ε)) α} {xs ys : List β} {a : α}

theorem pure (a : α) : Reads (Pure.pure a : ReaderT (List β) (StateT Nat (Except ε)) α) [] a := by
  intro before after
  change Except.ok (a, before.length) = Except.ok (a, (before ++ []).length)
  rw [List.append_nil]

/-- Two readers in a row read two fields in a row. -/
theorem bind {f : α → ReaderT (List β) (StateT Nat (Except ε)) γ} {c : γ} (first : Reads p xs a)
    (second : Reads (f a) ys c) : Reads (p >>= f) (xs ++ ys) c := by
  intro before after
  have here : p (before ++ (xs ++ ys ++ after)) before.length = .ok (a, (before ++ xs).length) := by
    simpa [List.append_assoc] using first before (ys ++ after)
  have there : f a (before ++ (xs ++ ys ++ after)) (before ++ xs).length =
      .ok (c, (before ++ (xs ++ ys)).length) := by
    simpa [List.append_assoc] using second (before ++ xs) after
  change (p (before ++ (xs ++ ys ++ after)) before.length).bind _ = _
  rw [here]
  exact there

/-- The last field, with nothing but checks behind it. -/
theorem bind_nil {f : α → ReaderT (List β) (StateT Nat (Except ε)) γ} {c : γ} (first : Reads p xs a)
    (second : Reads (f a) [] c) : Reads (p >>= f) xs c := by
  simpa using bind first second

/-- The last reader of a record, whose value goes into what is returned. -/
theorem last {f : α → γ} (read : Reads p xs a) :
    Reads (p >>= fun x => Pure.pure (f x)) xs (f a) := by
  exact bind_nil read (pure (f a))

theorem map {f : α → γ} (read : Reads p xs a) : Reads (f <$> p) xs (f a) := by
  intro before after
  change ((p (before ++ (xs ++ after)) before.length).bind _) = _
  rw [read before after]
  rfl

/-- A check that lets the reader go on. -/
theorem passing {c : Prop} [Decidable c] {q : ReaderT (List β) (StateT Nat (Except ε)) α} (ok : ¬ c)
    (read : Reads p xs a) : Reads (if c then q else p) xs a := by
  rwa [if_neg ok]

/-- Started at the head of a buffer that holds nothing else, the reader returns the value. -/
theorem run (read : Reads p xs a) : (·.1) <$> p xs 0 = .ok a := by
  have whole : p xs 0 = .ok (a, xs.length) := by simpa using read [] []
  rw [whole]
  rfl

end Reads

/-- The reader `p`, placed in front of `bytes`, returns only if `P`. -/
structure Demands (p : ReaderT (List β) (StateT Nat (Except ε)) α) (bytes : List β) (P : Prop) :
    Prop where
  holds : ∀ (before after : List β) (r : α × Nat),
    p (before ++ (bytes ++ after)) before.length = .ok r → P

namespace Demands

variable {p : ReaderT (List β) (StateT Nat (Except ε)) α} {xs ys : List β} {a : α} {P Q : Prop}

theorem of_holds (holds : P) : Demands p xs P := ⟨fun _ _ _ _ => holds⟩

theorem mono (demands : Demands p xs Q) (weaken : Q → P) : Demands p xs P :=
  ⟨fun before after r ran => weaken (demands.holds before after r ran)⟩

variable {f : α → ReaderT (List β) (StateT Nat (Except ε)) γ}

theorem last (first : Demands p xs P) : Demands (p >>= f) xs P := by
  refine ⟨fun before after r ran => ?_⟩
  change (p (before ++ (xs ++ after)) before.length).bind _ = _ at ran
  cases here : p (before ++ (xs ++ after)) before.length with
  | error e =>
    rw [here] at ran
    cases ran
  | ok out => exact first.holds before after out here

/-- What the first reader demands may be used to read on. -/
theorem bind (first : Demands p xs Q) (reads : Q → Reads p xs a) (second : Q → Demands (f a) ys P) :
    Demands (p >>= f) (xs ++ ys) P := by
  refine ⟨fun before after r ran => ?_⟩
  have known : Q := first.last.holds before (ys ++ after) r (by simpa using ran)
  have read : p (before ++ (xs ++ ys ++ after)) before.length = .ok (a, (before ++ xs).length) := by
    simpa [List.append_assoc] using reads known before (ys ++ after)
  change (p (before ++ (xs ++ ys ++ after)) before.length).bind _ = _ at ran
  rw [read] at ran
  apply (second known).holds (before ++ xs) after r
  simpa [List.append_assoc, Except.bind] using ran

/-- A field that is read whatever it holds. -/
theorem after (first : Reads p xs a) (second : Demands (f a) ys P) :
    Demands (p >>= f) (xs ++ ys) P :=
  bind (of_holds trivial) (fun _ => first) fun _ => second

/-- A check that refuses. -/
theorem passing {c : Prop} [Decidable c] {q : ReaderT (List β) (StateT Nat (Except ε)) α}
    (stops : ∀ buf pos r, q buf pos ≠ .ok r) (go : ¬ c → Demands p xs P) :
    Demands (if c then q else p) xs P := by
  refine ⟨fun before after r ran => ?_⟩
  by_cases refused : c
  · rw [if_pos refused] at ran
    exact absurd ran (stops _ _ _)
  · rw [if_neg refused] at ran
    exact (go refused).holds before after r ran

/-- What a reader demands holds of a buffer it has decoded. -/
theorem of_run (demands : Demands p xs P) (ran : (·.1) <$> p xs 0 = .ok a) : P := by
  cases whole : p xs 0 with
  | error e =>
    rw [whole] at ran
    cases ran
  | ok out => exact demands.holds [] [] out (by simpa using whole)

end Demands

/-- Encodings of at least `k` bytes each make at least that many in a row. -/
theorem length_mul_le_length_flatMap {encode : α → List β} {k : Nat} {xs : List α}
    (least : ∀ x ∈ xs, k ≤ (encode x).length) : xs.length * k ≤ (xs.flatMap encode).length := by
  induction xs with
  | nil => simp
  | cons x xs ih =>
    have head := least x List.mem_cons_self
    have tail := ih fun y mem => least y (List.mem_cons_of_mem x mem)
    simp only [List.length_cons, List.flatMap_cons, List.length_append, Nat.succ_mul]
    omega

theorem length_le_length_flatMap {f : α → List β} {xs : List α} {x : α} (mem : x ∈ xs) :
    (f x).length ≤ (xs.flatMap f).length := by
  obtain ⟨before, after, rfl⟩ := List.append_of_mem mem
  simp only [List.flatMap_append, List.flatMap_cons, List.length_append]
  omega

end Codec
