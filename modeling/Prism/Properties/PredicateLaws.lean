import Prism.Properties.TimeBounds

/-!
What the evaluation of a predicate answers. Two integers are compared as doubles, so the answer is
the one about the integers only where they round apart. The connectives are those of a three-valued
logic, but `IN` answers "no" where the comparisons it stands for have no answer.
-/

namespace Prism

variable {ls : List Literal}

/-! ### Integers are compared as doubles -/

/-- The number of at most 53 significant bits that is nearest to `n`, the even one of two. -/
def nearest53 (n : Nat) : Nat :=
  let unit := 2 ^ (n.log2 - 52)
  let quotient := n / unit
  let rest := n % unit
  (quotient + if unit < 2 * rest ∨ (2 * rest = unit ∧ quotient % 2 = 1) then 1 else 0) * unit

def roundTo53 (x : Int) : Int :=
  if x < 0 then -(nearest53 x.natAbs : Int) else nearest53 x.natAbs

def CmpOp.exact : CmpOp → Int → Int → Bool
  | .eq, a, b => a = b
  | .notEq, a, b => a ≠ b
  | .lt, a, b => a < b
  | .ltEq, a, b => a ≤ b
  | .gt, a, b => a > b
  | .gtEq, a, b => a ≥ b

namespace F64

/-- A double is an exponent and a mantissa of the rounded number. -/
theorem ofMagnitude_normal {n : Nat} (pos : n ≠ 0) :
    ∃ q, ofMagnitude n = (n.log2 + 1022) * 2 ^ 52 + q ∧ nearest53 n * 2 ^ 52 = q * 2 ^ n.log2 ∧
      2 ^ 52 ≤ q ∧ q ≤ 2 ^ 53 := by
  have low := Nat.log2_self_le pos
  have high : n < 2 ^ (n.log2 + 1) := Nat.lt_log2_self
  rw [ofMagnitude, if_neg pos]
  simp only
  split
  · next short =>
    -- A short number is itself, shifted up to the leading bit.
    have unit : n.log2 - 52 = 0 := by omega
    have shift : 2 ^ n.log2 * 2 ^ (52 - n.log2) = 2 ^ 52 := by
      rw [← Nat.pow_add, Nat.add_sub_cancel' short]
    have below := Nat.mul_le_mul_right (2 ^ (52 - n.log2)) low
    have above := Nat.mul_le_mul_right (2 ^ (52 - n.log2)) high.le
    refine ⟨n * 2 ^ (52 - n.log2), ?_, ?_, by omega, ?_⟩
    · rw [Nat.sub_mul]
      omega
    · rw [Nat.mul_assoc, Nat.mul_comm (2 ^ (52 - n.log2)), shift]
      simp [nearest53, unit, Nat.mod_one]
    · rw [Nat.pow_succ, Nat.mul_right_comm, shift] at above
      omega
  · next long =>
    have bits := leading_bits (not_le.mp long)
    have split : 2 ^ n.log2 = 2 ^ (n.log2 - 52) * 2 ^ 52 := by
      rw [← Nat.pow_add, Nat.sub_add_cancel (by omega)]
    rw [nearest53, split, Nat.mul_assoc]
    generalize n / 2 ^ (n.log2 - 52) = quotient at bits ⊢
    refine ⟨_, ?_, rfl, bits.1.trans (Nat.le_add_right _ _), ?_⟩
    · omega
    · split <;> omega

/-- Numbers have one double exactly when they round to one number. -/
theorem ofMagnitude_inj {m n : Nat} : ofMagnitude m = ofMagnitude n ↔ nearest53 m = nearest53 n := by
  wlog le : m.log2 ≤ n.log2 generalizing m n
  · rw [eq_comm, this (not_le.mp le).le, eq_comm]
  have empty : ∀ {k : Nat}, (ofMagnitude k = 0 ↔ k = 0) ∧ (nearest53 k = 0 ↔ k = 0) := by
    intro k
    by_cases zero : k = 0
    · simp [zero, ofMagnitude, nearest53]
    · obtain ⟨q, bits, value, low, _⟩ := ofMagnitude_normal zero
      have some : 0 < q * 2 ^ k.log2 := Nat.mul_pos (by omega) (Nat.two_pow_pos _)
      exact ⟨by omega, by simp [zero]; omega⟩
  by_cases zero : m = 0 ∨ n = 0
  · rcases zero with rfl | rfl
    · rw [eq_comm, show ofMagnitude 0 = 0 from rfl, empty.1, eq_comm (b := nearest53 n),
        show nearest53 0 = 0 from rfl, empty.2]
    · rw [show ofMagnitude 0 = 0 from rfl, empty.1, show nearest53 0 = 0 from rfl, empty.2]
  push Not at zero
  obtain ⟨q, bits, value, low, high⟩ := ofMagnitude_normal zero.1
  obtain ⟨q', bits', value', low', high'⟩ := ofMagnitude_normal zero.2
  rw [bits, bits', ← Nat.mul_left_inj (b := nearest53 m) (a := 2 ^ 52) (by decide), value, value']
  obtain ⟨d, far⟩ := Nat.exists_eq_add_of_le le
  rw [far, Nat.pow_add, ← Nat.mul_assoc, Nat.mul_right_comm, Nat.mul_left_inj (Nat.two_pow_pos _).ne']
  rcases d.eq_zero_or_pos with rfl | more
  · simp
  · -- A number that rounds up to the next power of two has the double of that power.
    have two : 2 ≤ 2 ^ d := Nat.le_self_pow more.ne' 2
    have twice := Nat.mul_le_mul low' two
    constructor
    · intro same
      obtain rfl : d = 1 := by omega
      omega
    · intro same
      obtain rfl : d = 1 := by
        by_contra other
        have four : 2 ^ 2 ≤ 2 ^ d := Nat.pow_le_pow_right (by decide) (by omega)
        have times := Nat.mul_le_mul low' four
        omega
      rw [Nat.pow_one] at same
      clear twice two value value'
      omega

/-- The doubles of two integers are equal exactly when the integers round to one number. -/
theorem partialCmp_ofI64_eq {x y : Int} (left : InI64 x) (right : InI64 y) :
    (ofI64 x).partialCmp (ofI64 y) = some .eq ↔ roundTo53 x = roundTo53 y := by
  obtain ⟨number, key⟩ := orderKey_ofI64 left
  obtain ⟨number', key'⟩ := orderKey_ofI64 right
  rw [partialCmp, number, number', Bool.or_self, if_neg Bool.false_ne_true, Option.some_inj,
    compare_eq_iff_eq, key, key', roundTo53, roundTo53]
  have same := @ofMagnitude_inj x.natAbs y.natAbs
  -- Of opposite signs only zeros agree.
  have empty : ofMagnitude x.natAbs = 0 ↔ nearest53 x.natAbs = 0 := ofMagnitude_inj (n := 0)
  have empty' : ofMagnitude y.natAbs = 0 ↔ nearest53 y.natAbs = 0 := ofMagnitude_inj (n := 0)
  split <;> split <;> omega

end F64

namespace Predicate

variable {src : RowSource} {row : Nat}

/-! ### The connectives -/

def anyOf (x : Predicate) : Literal → List Literal → Predicate
  | l, [] => .cmp x .eq (.literal l)
  | l, m :: ms => .or (.cmp x .eq (.literal l)) (anyOf x m ms)

/-- The laws of the connectives, applied anywhere in a filter and in either direction, and a list of
`IN` written out. -/
inductive Rewrites (x : Predicate) (l : Literal) (ls : List Literal) : Predicate → Predicate → Prop
  | notAnd (a b) : Rewrites x l ls (.not (.and a b)) (.or (.not a) (.not b))
  | notOr (a b) : Rewrites x l ls (.not (.or a b)) (.and (.not a) (.not b))
  | notNot (a) : Rewrites x l ls (.not (.not a)) a
  | andComm (a b) : Rewrites x l ls (.and a b) (.and b a)
  | orComm (a b) : Rewrites x l ls (.or a b) (.or b a)
  | andAssoc (a b c) : Rewrites x l ls (.and (.and a b) c) (.and a (.and b c))
  | orAssoc (a b c) : Rewrites x l ls (.or (.or a b) c) (.or a (.or b c))
  | inList : Rewrites x l ls (.in x (l :: ls)) (anyOf x l ls)
  | refl (a) : Rewrites x l ls a a
  | symm {a b} : Rewrites x l ls a b → Rewrites x l ls b a
  | trans {a b c} : Rewrites x l ls a b → Rewrites x l ls b c → Rewrites x l ls a c
  | and {a a' b b'} : Rewrites x l ls a a' → Rewrites x l ls b b' →
      Rewrites x l ls (.and a b) (.and a' b')
  | or {a a' b b'} : Rewrites x l ls a a' → Rewrites x l ls b b' →
      Rewrites x l ls (.or a b) (.or a' b')
  | not {a a'} : Rewrites x l ls a a' → Rewrites x l ls (.not a) (.not a')

/-- The answer of a predicate, without the text of an error. -/
def answer (src : RowSource) (row : Nat) (p : Predicate) : Option (Option Bool) :=
  (p.eval3 src row).toOption

theorem answer_and (a b : Predicate) : (a.and b).answer src row =
    (a.answer src row).bind fun u => (b.answer src row).map (and3 u) := by
  simp only [answer]
  rw [eval3]
  cases a.eval3 src row with
  | error e => rfl
  | ok u => cases b.eval3 src row <;> rfl

theorem answer_or (a b : Predicate) : (a.or b).answer src row =
    (a.answer src row).bind fun u => (b.answer src row).map (or3 u) := by
  simp only [answer]
  rw [eval3]
  cases a.eval3 src row with
  | error e => rfl
  | ok u => cases b.eval3 src row <;> rfl

theorem answer_not (a : Predicate) :
    (a.not).answer src row = (a.answer src row).map (Option.map (!·)) := by
  simp only [answer]
  rw [eval3]
  cases a.eval3 src row <;> rfl

/-- Some literal equals the value, or each of them compares with it. -/
def Settled (v : Value) (ls : List Literal) : Prop :=
  (∃ m ∈ ls, v.cmpTo (.fromLiteral m) = some .eq) ∨ ∀ m ∈ ls, (v.cmpTo (.fromLiteral m)).isSome

/-- The written-out list: "yes" where a literal equals the value, and no answer where none does and
one does not compare with it. -/
theorem answer_anyOf {x : Predicate} {v : Value} (read : x.value src row = .ok v) (l : Literal) : ∃ r, (anyOf x l ls).answer src row = some r ∧
      (r = some true ↔ ∃ m ∈ l :: ls, v.cmpTo (.fromLiteral m) = some .eq) ∧
      (r.isSome ↔ Settled v (l :: ls)) := by
  have first : ∀ m, answer src row (.cmp x .eq (.literal m)) =
      some ((v.cmpTo (.fromLiteral m)).map CmpOp.eq.holds) := by
    intro m
    rw [answer, eval3, read]
    rfl
  induction ls generalizing l with
  | nil =>
    refine ⟨_, first l, ?_⟩
    cases compared : v.cmpTo (.fromLiteral l) with
    | none => simp [compared, Settled]
    | some ord => cases ord <;> simp [compared, CmpOp.holds, Settled]
  | cons m ms ih =>
    obtain ⟨r, others, equal, settled⟩ := ih m
    refine ⟨or3 ((v.cmpTo (.fromLiteral l)).map CmpOp.eq.holds) r, ?_, ?_⟩
    · rw [anyOf, answer_or, first, others]
      rfl
    · rw [List.exists_mem_cons_iff, ← equal, Settled, List.exists_mem_cons_iff,
        List.forall_mem_cons, ← equal]
      rw [Settled, ← equal] at settled
      generalize (∀ k ∈ m :: ms, (v.cmpTo (.fromLiteral k)).isSome) = all at settled
      cases compared : v.cmpTo (.fromLiteral l) with
      | none => rcases r with _ | _ | _ <;> simp_all [or3]
      | some ord => cases ord <;> rcases r with _ | _ | _ <;> simp_all [or3, CmpOp.holds]

/-- `IN` has the answer of the written-out list exactly when the value is absent or settled. -/
theorem answer_in {x : Predicate} {v : Value} (read : x.value src row = .ok v) (l : Literal) : answer src row (.in x (l :: ls)) = (anyOf x l ls).answer src row ↔
      v = .null ∨ Settled v (l :: ls) := by
  obtain ⟨r, written, equal, settled⟩ := answer_anyOf read l
  rw [written, answer, eval3, read, ← settled]
  by_cases null : v = .null
  · -- An absent value compares with nothing.
    subst null
    have unknown : r = none := by
      rw [← Option.not_isSome_iff_eq_none, settled]
      simp only [Settled, Value.cmpTo, reduceCtorEq, and_false, exists_false, false_or,
        Option.isSome_none, Bool.false_eq_true, List.forall_mem_cons, false_and, not_false_eq_true]
    simp [unknown, bind, Except.bind, pure, Except.pure, Except.toOption]
  · have found : (l :: ls).any (fun m => decide (v.cmpTo (.fromLiteral m) = some .eq)) =
        decide (r = some true) := by
      rw [Bool.eq_iff_iff, List.any_eq_true, decide_eq_true_eq, equal]
      simp
    simp only [bind, Except.bind, pure, Except.pure, Except.toOption, found, null, false_or]
    rcases r with _ | _ | _ <;> simp

/-- The laws change no answer, except that of `IN` for a value that is not settled. -/
theorem rewrites_answer {x : Predicate} {l : Literal} {ls : List Literal}
    (list : answer src row (.in x (l :: ls)) = (anyOf x l ls).answer src row) {p q : Predicate}
    (rewrites : Rewrites x l ls p q) : p.answer src row = q.answer src row := by
  induction rewrites
  case inList => exact list
  case refl a => rfl
  case symm inner => exact inner.symm
  case trans first second => exact first.trans second
  case and left right => rw [answer_and, answer_and, left, right]
  case or left right => rw [answer_or, answer_or, left, right]
  case not inner => rw [answer_not, answer_not, inner]
  -- The laws themselves: each side is an error, unknown, false or true.
  case notNot a =>
    simp only [answer_not]
    rcases a.answer src row with _ | _ | _ | _ <;> rfl
  case notAnd a b | notOr a b | andComm a b | orComm a b =>
    simp only [answer_and, answer_or, answer_not]
    rcases a.answer src row with _ | _ | _ | _ <;> rcases b.answer src row with _ | _ | _ | _ <;> rfl
  case andAssoc a b c | orAssoc a b c =>
    simp only [answer_and, answer_or]
    rcases a.answer src row with _ | _ | _ | _ <;> rcases b.answer src row with _ | _ | _ | _ <;>
      rcases c.answer src row with _ | _ | _ | _ <;> rfl

/-- A row is accepted by its answer. -/
theorem eval_eq_ok_true {p : Predicate} :
    p.eval src row = .ok true ↔ p.answer src row = some (some true) := by
  rw [eval, answer]
  cases p.eval3 src row with
  | error e => exact ⟨nofun, nofun⟩
  | ok r => rcases r with _ | _ | _ <;> simp [bind, Except.bind, pure, Except.pure, Except.toOption]

/-- The laws of three-valued logic, applied anywhere in a filter, keep its answer and the rows it
accepts, with the list of this `IN` written out as comparisons, exactly when the value of the
`IN` is absent, equals a literal of the list or compares with all of them. -/
theorem three_valued_laws_iff (src : RowSource) (row : Nat) (x : Predicate) (l : Literal)
    (ls : List Literal) :
    (∀ p q, Rewrites x l ls p q → p.answer src row = q.answer src row ∧
        (p.eval src row = .ok true ↔ q.eval src row = .ok true)) ↔
      ∀ v, x.value src row = .ok v → v = .null ∨ Settled v (l :: ls) := by
  constructor
  · intro laws v read
    exact (answer_in read l).mp (laws _ _ .inList).1
  · intro settled p q rewrites
    have list : answer src row (.in x (l :: ls)) = (anyOf x l ls).answer src row := by
      cases read : x.value src row with
      | ok v => exact (answer_in read l).mpr (settled v read)
      | error e =>
        cases ls <;> simp only [answer, anyOf, eval3, read] <;> rfl
    have same := rewrites_answer list rewrites
    exact ⟨same, by rw [eval_eq_ok_true, eval_eq_ok_true, same]⟩

/-- A cost that is a number: `NOT (cost IN ('abc'))` accepts the row, `NOT (cost = 'abc')` does not,
because a number does not compare with a text. -/
theorem in_list_answers_unanswerable :
    let row : RowSource := ⟨fun _ _ => .ok (.float .zero), fun _ _ => .ok .null⟩
    eval (.not (.in (.column "cost") [.str "abc"])) row 0 = .ok true ∧
      eval (.not (.cmp (.column "cost") .eq (.literal (.str "abc")))) row 0 = .ok false := by
  decide +kernel

/-! ### Comparisons of integers -/

/-- Comparing an integer with others answers what holds of the integers exactly when none of the
others rounds to the same number of 53 bits. -/
theorem int_comparisons_exact_iff (src : RowSource) (row : Nat) {a : Int} {bs : List Int}
    (range : InI64 a) (ranges : ∀ b ∈ bs, InI64 b) :
    ((∀ b ∈ bs, ∀ op : CmpOp, eval3 src row (.cmp (.literal (.int a)) op (.literal (.int b))) =
          .ok (some (op.exact a b))) ∧
        eval3 src row (.in (.literal (.int a)) (bs.map .int)) = .ok (some (decide (a ∈ bs)))) ↔
      ∀ b ∈ bs, roundTo53 a = roundTo53 b → a = b := by
  constructor
  · rintro ⟨exact, _⟩ b mem rounded
    have equal := exact b mem .eq
    have compared := (F64.partialCmp_ofI64_eq range (ranges b mem)).mpr rounded
    simpa [eval3, value, Value.fromLiteral, Value.cmpTo, Value.asF64, compared, CmpOp.holds,
      CmpOp.exact, bind, Except.bind, pure, Except.pure] using equal
  · intro apart
    have compared : ∀ b ∈ bs, (F64.ofI64 a).partialCmp (F64.ofI64 b) = some (compare a b) := by
      intro b mem
      obtain ⟨ord, ran, below, above, same⟩ := F64.partialCmp_ofI64 range (ranges b mem)
      have equal := F64.partialCmp_ofI64_eq range (ranges b mem)
      rw [ran, Option.some_inj] at equal ⊢
      rcases lt_trichotomy a b with lt | rfl | gt
      · have below := below lt
        have other : ord ≠ .eq := fun tie => lt.ne (apart b mem (equal.mp tie))
        rw [compare_lt_iff_lt.mpr lt]
        cases ord <;> trivial
      · rw [same rfl, compare_eq_iff_eq.mpr rfl]
      · have above := above gt
        have other : ord ≠ .eq := fun tie => gt.ne' (apart b mem (equal.mp tie))
        rw [compare_gt_iff_gt.mpr gt]
        cases ord <;> trivial
    have holds : ∀ (op : CmpOp) (b : Int), op.holds (compare a b) = op.exact a b := by
      intro op b
      rcases lt_trichotomy a b with lt | rfl | gt
      · rw [compare_lt_iff_lt.mpr lt]
        cases op <;> simp [CmpOp.holds, CmpOp.exact, lt.ne, lt, lt.le, lt.not_ge, lt.not_gt]
      · rw [compare_eq_iff_eq.mpr rfl]
        cases op <;> simp [CmpOp.holds, CmpOp.exact]
      · rw [compare_gt_iff_gt.mpr gt]
        cases op <;> simp [CmpOp.holds, CmpOp.exact, gt.ne', gt, gt.le, gt.not_ge, gt.not_gt]
    constructor
    · intro b mem op
      rw [eval3, value, value, Value.fromLiteral, Value.fromLiteral, ← holds]
      simp only [Value.cmpTo, Value.asF64, bind, Except.bind, Option.bind, compared b mem]
      rfl
    · have found : (bs.map Literal.int).any (fun l => decide
          (Value.cmpTo (.int a) (.fromLiteral l) = some .eq)) = decide (a ∈ bs) := by
        rw [List.any_map, Bool.eq_iff_iff, List.any_eq_true, decide_eq_true_eq]
        constructor
        · rintro ⟨b, mem, equal⟩
          simp [Value.fromLiteral, Value.cmpTo, Value.asF64, compared b mem] at equal
          exact equal ▸ mem
        · intro mem
          refine ⟨a, mem, ?_⟩
          simp [Value.fromLiteral, Value.cmpTo, Value.asF64, compared a mem]
      rw [eval3, value, Value.fromLiteral]
      simp only [bind, Except.bind, reduceCtorEq, if_false, found]
      rfl

theorem int_comparisons_exact_small :
    eval3 (timeRow 0) 0 (.cmp (.literal (.int 5)) .lt (.literal (.int 7))) = .ok (some true) ∧
      eval3 (timeRow 0) 0 (.in (.literal (.int 5)) [.int 7]) = .ok (some false) := by
  have ranges : ∀ b ∈ [7], InI64 b := by decide
  have exact := (int_comparisons_exact_iff (timeRow 0) 0 (a := 5) (by decide) ranges).mpr
    (by decide +kernel)
  exact ⟨exact.1 7 (by decide) .lt, exact.2⟩

/-- Neighbours beyond `2 ^ 53` compare as equal. -/
theorem int_comparisons_blur :
    eval3 (timeRow 0) 0 (.cmp (.literal (.int (2 ^ 53 + 1))) .eq (.literal (.int (2 ^ 53)))) =
        .ok (some true) ∧
      eval3 (timeRow 0) 0 (.cmp (.literal (.int (2 ^ 53 + 1))) .gt (.literal (.int (2 ^ 53)))) =
        .ok (some false) ∧
      eval3 (timeRow 0) 0 (.in (.literal (.int (2 ^ 53 + 1))) [.int (2 ^ 53)]) =
        .ok (some true) := by
  decide +kernel

end Predicate
end Prism
