import Mathlib.Data.Nat.Log
import Prism.Properties.PartSummaries
import Prism.Types.Predicate

/-!
The time bounds of a predicate against its evaluation. The bounds are taken from the integers of the
comparisons, while a row is compared as a double, which may be that of another integer.
-/

namespace Prism
namespace F64

/-! ### Rounding keeps the order -/

/-- The leading 53 bits of a longer number. -/
theorem leading_bits {n : Nat} (long : 52 < n.log2) :
    2 ^ 52 ≤ n / 2 ^ (n.log2 - 52) ∧ n / 2 ^ (n.log2 - 52) < 2 ^ 53 := by
  have pos : n ≠ 0 := by
    rintro rfl
    simp at long
  have whole : 2 ^ n.log2 = 2 ^ (n.log2 - 52) * 2 ^ 52 := by
    rw [← Nat.pow_add, Nat.sub_add_cancel (by omega)]
  rw [Nat.le_div_iff_mul_le (Nat.two_pow_pos _), Nat.div_lt_iff_lt_mul (Nat.two_pow_pos _)]
  have low := Nat.log2_self_le pos
  have high : n < 2 ^ (n.log2 + 1) := Nat.lt_log2_self
  omega

theorem ofMagnitude_bounds {n : Nat} (pos : n ≠ 0) :
    (n.log2 + 1023) * 2 ^ 52 ≤ ofMagnitude n ∧ ofMagnitude n ≤ (n.log2 + 1024) * 2 ^ 52 := by
  rw [ofMagnitude, if_neg pos]
  simp only
  split
  · next short =>
    have high : n < 2 ^ (n.log2 + 1) := Nat.lt_log2_self
    have scaled : (n - 2 ^ n.log2) * 2 ^ (52 - n.log2) ≤ 2 ^ 52 := by
      calc (n - 2 ^ n.log2) * 2 ^ (52 - n.log2) ≤ 2 ^ n.log2 * 2 ^ (52 - n.log2) :=
            Nat.mul_le_mul_right _ (by omega)
        _ = 2 ^ 52 := by rw [← Nat.pow_add, Nat.add_sub_cancel' short]
    omega
  · next long =>
    have bits := leading_bits (not_le.mp long)
    generalize n / 2 ^ (n.log2 - 52) = q at bits ⊢
    have next : (n.log2 + 1024) * 2 ^ 52 = (n.log2 + 1023) * 2 ^ 52 + 2 ^ 52 :=
      Nat.succ_mul _ _
    rw [next]
    constructor
    · omega
    · split <;> omega

theorem ofMagnitude_mono {m n : Nat} (le : m ≤ n) : ofMagnitude m ≤ ofMagnitude n := by
  by_cases zero : m = 0
  · simp [zero, ofMagnitude]
  have pos : n ≠ 0 := by omega
  have logs : m.log2 ≤ n.log2 := by
    rw [Nat.log2_eq_log_two, Nat.log2_eq_log_two]
    exact Nat.log_mono_right le
  rcases logs.lt_or_eq with lt | same
  · have next : m.log2 + 1024 ≤ n.log2 + 1023 := by omega
    have below := (ofMagnitude_bounds zero).2
    have above := (ofMagnitude_bounds pos).1
    exact below.trans ((Nat.mul_le_mul_right _ next).trans above)
  · have bits := @leading_bits m
    simp only [ofMagnitude, if_neg zero, if_neg pos, same] at bits ⊢
    split
    · have scaled := Nat.mul_le_mul_right (2 ^ (52 - n.log2)) (Nat.sub_le_sub_right le (2 ^ n.log2))
      omega
    · next long =>
      have bits := bits (not_le.mp long)
      rcases (Nat.div_le_div_right (c := 2 ^ (n.log2 - 52)) le).lt_or_eq with fewer | equal
      · split <;> split <;> omega
      · -- Equal quotients leave the rounding to the remainders.
        have rests : m % 2 ^ (n.log2 - 52) ≤ n % 2 ^ (n.log2 - 52) := by
          have whole := Nat.div_add_mod m (2 ^ (n.log2 - 52))
          have whole' := Nat.div_add_mod n (2 ^ (n.log2 - 52))
          rw [equal] at whole
          omega
        rw [equal]
        split <;> split <;> omega

/-- The key of an integer of 64 bits, as a double. -/
theorem orderKey_ofI64 {x : Int} (range : InI64 x) : (ofI64 x).isNan = false ∧
      (ofI64 x).orderKey =
        if x < 0 then -(ofMagnitude x.natAbs : Int) else ofMagnitude x.natAbs := by
  have small : ofMagnitude x.natAbs < 2047 * 2 ^ 52 := by
    have most : x.natAbs ≤ 2 ^ 63 := by
      simp only [InI64, minI64, maxI64] at range
      omega
    have top : ofMagnitude (2 ^ 63) = 1086 * 2 ^ 52 := by decide +kernel
    have below := ofMagnitude_mono most
    omega
  have bits : (ofI64 x).bits.toNat = (if x < 0 then 2 ^ 63 else 0) + ofMagnitude x.natAbs := by
    rw [ofI64, UInt64.toNat_ofNat', Nat.mod_eq_of_lt]
    split <;> omega
  constructor
  · have field : (ofI64 x).exponentField ≠ 2047 := by
      rw [exponentField_eq, bits]
      split <;> omega
    simp [isNan, field]
  · have sign : (ofI64 x).negative = decide (x < 0) := by
      rw [negative, decide_eq_decide, ← UInt64.toNat_inj, UInt64.toNat_shiftRight, bits]
      rw [Nat.shiftRight_eq_div_pow, show UInt64.toNat 63 % 64 = 63 from rfl, UInt64.toNat_one]
      by_cases below : x < 0
      · simp only [below, if_true, iff_true]
        omega
      · simp only [below, if_false, iff_false]
        omega
    rw [orderKey, toNat_magnitude, bits, sign]
    by_cases below : x < 0
    · simp only [below, if_true, decide_true]
      omega
    · simp only [below, if_false, decide_false, Bool.false_eq_true]
      omega

/-- Doubles of integers keep the order, up to equality. -/
theorem partialCmp_ofI64 {x y : Int} (left : InI64 x) (right : InI64 y) :
    ∃ ord, (ofI64 x).partialCmp (ofI64 y) = some ord ∧ (x < y → ord ≠ .gt) ∧
      (y < x → ord ≠ .lt) ∧ (x = y → ord = .eq) := by
  obtain ⟨number, key⟩ := orderKey_ofI64 left
  obtain ⟨number', key'⟩ := orderKey_ofI64 right
  have mono : ∀ {a b : Int}, a ≤ b →
      (if a < 0 then -(ofMagnitude a.natAbs : Int) else ofMagnitude a.natAbs) ≤
        if b < 0 then -(ofMagnitude b.natAbs : Int) else ofMagnitude b.natAbs := by
    intro a b le
    split <;> split
    · have magnitudes := ofMagnitude_mono (show b.natAbs ≤ a.natAbs by omega)
      omega
    · omega
    · omega
    · have magnitudes := ofMagnitude_mono (show a.natAbs ≤ b.natAbs by omega)
      omega
  refine ⟨_, by rw [partialCmp, number, number']; rfl, fun lt => ?_, fun gt => ?_, fun same => ?_⟩
  · rw [key, key', ne_eq, compare_gt_iff_gt, not_lt]
    exact mono lt.le
  · rw [key, key', ne_eq, compare_lt_iff_lt, not_lt]
    exact mono gt.le
  · rw [same, compare_eq_iff_eq]

end F64

/-! ### The comparisons of the event time -/

namespace Predicate

def timeTest : Predicate → Option (CmpOp × Int)
  | .cmp (.column name) op (.literal (.int v)) => if name = "event_time" then some (op, v) else none
  | _ => none

/-- The comparisons of the top-level conjunction that bound the event time. -/
def timeTests (p : Predicate) : List (CmpOp × Int) := p.conjuncts.filterMap timeTest

def HoldsOf (t : Int) : CmpOp × Int → Prop
  | (.eq, v) => t = v
  | (.gt, v) => v < t
  | (.gtEq, v) => v ≤ t
  | (.lt, v) => t < v
  | (.ltEq, v) => t ≤ v
  | (.notEq, _) => True

/-- The neighbour of the integer that the bound takes is one of 64 bits. -/
def Neighboured : CmpOp × Int → Prop
  | (.gt, v) => wrapI64 (v + 1) = v + 1
  | (.lt, v) => wrapI64 (v - 1) = v - 1
  | _ => True

/-- The comparison admits equality, and the time is that of the integer as a double, but not on its
side as an integer. -/
def Blurs (t : Int) (test : CmpOp × Int) : Prop :=
  test.1.holds .eq = true ∧ (F64.ofI64 t).partialCmp (F64.ofI64 test.2) = some .eq ∧
    ¬ HoldsOf t test

def TimeBounds.Contains (b : TimeBounds) (t : Int) : Prop :=
  (∀ lo ∈ b.lo, lo ≤ t) ∧ ∀ hi ∈ b.hi, t ≤ hi

variable {b : TimeBounds} {t v : Int} {op : CmpOp}

theorem TimeBounds.contains_atLeast : (b.atLeast v).Contains t ↔ b.Contains t ∧ v ≤ t := by
  cases lo : b.lo <;> simp [atLeast, Contains, lo] <;> tauto

theorem TimeBounds.contains_atMost : (b.atMost v).Contains t ↔ b.Contains t ∧ t ≤ v := by
  cases hi : b.hi <;> simp [atMost, Contains, hi]; tauto

theorem TimeBounds.contains_narrow (near : Neighboured (op, v)) :
    (b.narrow v op).Contains t ↔ b.Contains t ∧ HoldsOf t (op, v) := by
  cases op <;>
    simp only [narrow, contains_atLeast, contains_atMost, HoldsOf, Neighboured] at near ⊢
  case eq => rw [and_assoc, and_comm (a := v ≤ t), le_antisymm_iff]
  case gt => rw [near, Int.add_one_le_iff]
  case lt => rw [near, Int.le_sub_one_iff]
  case notEq => simp

theorem boundsOf_eq (b : TimeBounds) (c : Predicate) :
    boundsOf b c = (c.timeTest.map fun test => b.narrow test.2 test.1).getD b := by
  unfold boundsOf
  split
  · simp only [timeTest]
    split <;> rfl
  · next other =>
    rw [timeTest]
    · rfl
    · exact other

/-- The bounds of a predicate are what all its comparisons say. -/
theorem contains_timeBounds {p : Predicate} (near : ∀ test ∈ p.timeTests, Neighboured test) :
    p.timeBounds.Contains t ↔ ∀ test ∈ p.timeTests, HoldsOf t test := by
  have folded : ∀ (cs : List Predicate) (b : TimeBounds),
      (∀ test ∈ cs.filterMap timeTest, Neighboured test) →
      ((cs.foldl boundsOf b).Contains t ↔
        b.Contains t ∧ ∀ test ∈ cs.filterMap timeTest, HoldsOf t test) := by
    intro cs
    induction cs with
    | nil => simp
    | cons c cs ih =>
      intro b near
      rw [List.foldl_cons, boundsOf_eq]
      cases made : c.timeTest with
      | none =>
        rw [List.filterMap_cons_none made] at near ⊢
        exact ih b near
      | some test =>
        rw [List.filterMap_cons_some made, List.forall_mem_cons] at near ⊢
        rw [ih _ near.2, Option.map_some, Option.getD_some, TimeBounds.contains_narrow near.1,
          and_assoc]
  rw [timeBounds, folded p.conjuncts _ near]
  simp [TimeBounds.Contains, timeTests]

/-! ### A row that passes -/

variable {src : RowSource} {row : Nat}

/-- All conjuncts hold of a row that passes. -/
theorem eval3_conjuncts {p : Predicate} (passed : p.eval3 src row = .ok (some true)) :
    ∀ c ∈ p.conjuncts, c.eval3 src row = .ok (some true) := by
  induction p with
  | and a b left right =>
    obtain ⟨x, first, rest⟩ := Fallible.bind_eq_ok.mp passed
    obtain ⟨y, second, both⟩ := Fallible.bind_eq_ok.mp rest
    have both : and3 x y = some true := Fallible.pure_eq_ok.mp both
    obtain ⟨rfl, rfl⟩ : x = some true ∧ y = some true := by
      cases x with
      | none => cases y with
        | none => cases both
        | some y => cases y <;> cases both
      | some x => cases x <;> cases y with
        | none => cases both
        | some y => cases y <;> simp [and3] at both ⊢
    intro c mem
    rcases List.mem_append.mp mem with here | here
    · exact left first c here
    · exact right second c here
  | _ => simpa [conjuncts] using passed

variable {test : CmpOp × Int}

/-- A comparison that holds of the doubles holds of the integers, unless it blurs. -/
theorem holdsOf_iff (time : InI64 t) (literal : InI64 test.2) {ord : Ordering}
    (compared : (F64.ofI64 t).partialCmp (F64.ofI64 test.2) = some ord)
    (holds : test.1.holds ord = true) : HoldsOf t test ↔ ¬ Blurs t test := by
  obtain ⟨ord', compared', below, above, same⟩ := F64.partialCmp_ofI64 time literal
  obtain rfl := Option.mem_unique compared compared'
  obtain ⟨op, v⟩ := test
  rw [Blurs, compared]
  rcases lt_trichotomy t v with lt | rfl | gt
  · have known := below lt
    cases ord <;> cases op <;> simp_all [CmpOp.holds, HoldsOf]
  · have known := same rfl
    cases ord <;> cases op <;> simp_all [CmpOp.holds, HoldsOf]
  · have known := above gt
    cases ord <;> cases op <;> simp_all [CmpOp.holds, HoldsOf]

theorem timeTest_eq_some {c : Predicate} (made : c.timeTest = some test) :
    c = .cmp (.column "event_time") test.1 (.literal (.int test.2)) := by
  unfold timeTest at made
  split at made
  · split at made
    · next named => rw [← Option.some.inj made, named]
    · cases made
  · cases made

/-- The comparisons of a row that passes hold of the doubles. -/
theorem compared_of_eval {p : Predicate} (read : src.column "event_time" row = .ok (.int t))
    (passed : p.eval src row = .ok true) (known : test ∈ p.timeTests) :
    ∃ ord, (F64.ofI64 t).partialCmp (F64.ofI64 test.2) = some ord ∧ test.1.holds ord = true := by
  obtain ⟨answer, passed, same⟩ := Fallible.bind_eq_ok.mp passed
  obtain rfl : answer = some true := of_decide_eq_true (Fallible.pure_eq_ok.mp same)
  obtain ⟨c, mem, made⟩ := List.mem_filterMap.mp known
  have holds := eval3_conjuncts passed c mem
  rw [timeTest_eq_some made] at holds
  simp only [eval3, value, read, Value.fromLiteral] at holds
  exact Option.map_eq_some_iff.mp (Except.ok.inj holds)

theorem neighboured_iff (range : InI64 test.2) :
    Neighboured test ↔ test ≠ (.gt, maxI64) ∧ test ≠ (.lt, minI64) := by
  obtain ⟨op, v⟩ := test
  simp only [InI64, minI64, maxI64] at range
  cases op <;> simp [Neighboured, wrapI64, Int.bmod_def, minI64, maxI64]
  · omega
  · omega

end Predicate

open Predicate in
/-- The bounds of a predicate contain a matching row, and their neighbours are of 64 bits, exactly
when no comparison that bounds the row's time blurs it and none has the last integer of its
side. -/
theorem time_bounds_conservative_iff {p : Predicate} {src : RowSource} {row : Nat} {t : Int}
    (time : InI64 t) (literals : ∀ test ∈ p.timeTests, InI64 test.2)
    (read : src.column "event_time" row = .ok (.int t)) :
    ((p.eval src row = .ok true → p.timeBounds.Contains t) ∧
        ∀ test ∈ p.timeTests, Neighboured test) ↔
      (p.eval src row = .ok true → ∀ test ∈ p.timeTests, ¬ Blurs t test) ∧
        ∀ test ∈ p.timeTests, test ≠ (.gt, maxI64) ∧ test ≠ (.lt, minI64) := by
  have neighbours : (∀ test ∈ p.timeTests, Neighboured test) ↔
      ∀ test ∈ p.timeTests, test ≠ (.gt, maxI64) ∧ test ≠ (.lt, minI64) :=
    forall₂_congr fun test known => neighboured_iff (literals test known)
  rw [← neighbours]
  apply and_congr_left
  intro near
  apply imp_congr_right
  intro passed
  rw [contains_timeBounds near]
  refine forall₂_congr fun test known => ?_
  obtain ⟨ord, compared, holds⟩ := compared_of_eval read passed known
  exact holdsOf_iff time (literals test known) compared holds

def timeRow (t : Int) : RowSource := ⟨fun _ _ => .ok (.int t), fun _ _ => .ok .null⟩

def timeIs (op : CmpOp) (v : Int) : Predicate := .cmp (.column "event_time") op (.literal (.int v))

theorem timeTests_timeIs (op : CmpOp) (v : Int) : (timeIs op v).timeTests = [(op, v)] := by
  simp [Predicate.timeTests, timeIs, Predicate.conjuncts, Predicate.timeTest]

theorem time_bounds_conservative_iff_small :
    (timeIs .gtEq 5).eval (timeRow 7) 0 = .ok true ∧ (timeIs .gtEq 5).timeBounds.Contains 7 := by
  have passed : (timeIs .gtEq 5).eval (timeRow 7) 0 = .ok true := by decide +kernel
  refine ⟨passed, ((time_bounds_conservative_iff (by decide) ?_ rfl).mpr ⟨?_, ?_⟩).1 passed⟩
  · simp [timeTests_timeIs, InI64, minI64, maxI64]
  · simp [timeTests_timeIs, Predicate.Blurs, Predicate.HoldsOf]
  · simp [timeTests_timeIs]

/-- The double of `2 ^ 53 + 1` is that of `2 ^ 53`, and the neighbour of the largest integer is the
smallest. -/
theorem time_bounds_lose_row :
    (timeIs .eq (2 ^ 53 + 1)).eval (timeRow (2 ^ 53)) 0 = .ok true ∧
      ¬ (timeIs .eq (2 ^ 53 + 1)).timeBounds.Contains (2 ^ 53) ∧
      (timeIs .gt maxI64).timeBounds.lo = some minI64 := by
  refine ⟨by decide +kernel, fun within => ?_, by decide +kernel⟩
  have low := within.1 (2 ^ 53 + 1) (by decide +kernel)
  omega

end Prism
