import Mathlib.Algebra.Order.Ring.Int
import Mathlib.Data.List.Basic

/-!
# The scan kernels

`adc_scan_scalar` and the vector kernels of `prism-quantizer/src/kernel.rs`, over any addition. A
buffer is the memory from its pointer on, so that a kernel could write behind its end.
-/

namespace Prism

def ksub : Nat := 256

section Kernels

variable {α : Type} (add : α → α → α) (zero : α) (table : List α)

def tableAt (j : Nat) (c : UInt8) : α := table.getD (j * ksub + c.toNat) zero

def adcScanScalar (m : Nat) (codes : List UInt8) (n : Nat) (out : Nat → α) : Nat → α :=
  (List.range n).foldl (fun out i =>
    let code := (codes.drop (i * m)).take m
    Function.update out i ((List.range code.length).foldl
      (fun acc j => add acc (tableAt zero table j (code.getD j 0))) zero)) out

/-- The loop over groups of rows, one row a lane; `load` fetches the table value of a lane. -/
def scanGroups (lanes : Nat) (load : Nat → UInt8 → α) (m : Nat) (codes : List UInt8) (groups : Nat)
    (out : Nat → α) : Nat → α :=
  (List.range groups).foldl (fun out g =>
    let i0 := g * lanes
    let acc := (List.range m).foldl (fun acc j lane =>
      add (acc lane) (load j (codes.getD ((i0 + lane) * m + j) 0))) fun _ => zero
    fun i => if i0 ≤ i ∧ i < i0 + lanes then acc (i - i0) else out i) out

def adcScanLanes (lanes : Nat) (load : Nat → UInt8 → α) (table : List α) (m : Nat)
    (codes : List UInt8) (n : Nat) (out : Nat → α) : Nat → α :=
  let groups := n / lanes
  let out := scanGroups add zero lanes load m codes groups out
  let done := groups * lanes
  if done < n then fun i => if i < done then out i else
    adcScanScalar add zero table m (codes.drop (done * m)) (n - done) (fun k => out (done + k))
      (i - done)
  else out

def adcScanNeon : Nat → List UInt8 → Nat → (Nat → α) → Nat → α :=
  adcScanLanes add zero 4 (tableAt zero table) table

def adcScanAvx512 : Nat → List UInt8 → Nat → (Nat → α) → Nat → α :=
  adcScanLanes add zero 16 (tableAt zero table) table

/-- The memory at an index from the start of the table; `outside` is what surrounds it. -/
def gather (outside : Int → α) (table : List α) (idx : Int) : α :=
  if 0 ≤ idx ∧ idx < table.length then table.getD idx.toNat zero else outside idx

/-- The index of a lane: the base is cast to an `i32`. -/
def gatherIndex (j : Nat) (c : UInt8) : Int := ((j * ksub : Nat) + 2 ^ 31) % 2 ^ 32 - 2 ^ 31 + c.toNat

def adcScanAvx2 (outside : Int → α) (table : List α) :
    Nat → List UInt8 → Nat → (Nat → α) → Nat → α :=
  adcScanLanes add zero 8 (fun j c => gather zero outside table (gatherIndex j c)) table

def rowChain (load : Nat → UInt8 → α) (m : Nat) (codes : List UInt8) (i : Nat) : α :=
  (List.range m).foldl (fun acc j => add acc (load j (codes.getD (i * m + j) 0))) zero

end Kernels

variable {α : Type} {add : α → α → α} {zero : α} {table : List α} {m n : Nat} {codes : List UInt8}
  {out : Nat → α} {load : Nat → UInt8 → α}

theorem rowChain_drop (d i : Nat) :
    rowChain add zero load m (codes.drop (d * m)) i = rowChain add zero load m codes (d + i) := by
  simp [rowChain, List.getD_eq_getElem?_getD, List.getElem?_drop, Nat.add_mul, Nat.add_assoc]

theorem rowChain_congr {load' : Nat → UInt8 → α} (same : ∀ j < m, ∀ c, load j c = load' j c) (i : Nat) :
    rowChain add zero load m codes i = rowChain add zero load' m codes i := by
  refine List.foldl_ext _ _ _ fun acc j mem => ?_
  rw [same j (List.mem_range.mp mem)]

theorem scalar_apply (full : n * m ≤ codes.length) (i : Nat) :
    adcScanScalar add zero table m codes n out i =
      if i < n then rowChain add zero (tableAt zero table) m codes i else out i := by
  induction n with
  | zero => rfl
  | succ n ih =>
    have row : n * m + m ≤ codes.length := Nat.succ_mul n m ▸ full
    have width : ((codes.drop (n * m)).take m).length = m := by
      rw [List.length_take, List.length_drop]
      omega
    have chain : (List.range ((codes.drop (n * m)).take m).length).foldl (fun acc j => add acc
        (tableAt zero table j (((codes.drop (n * m)).take m).getD j 0))) zero =
        rowChain add zero (tableAt zero table) m codes n := by
      rw [width]
      refine List.foldl_ext _ _ _ fun acc j mem => ?_
      simp [List.mem_range.mp mem]
    rw [adcScanScalar, List.range_succ, List.foldl_append, ← adcScanScalar]
    simp only [List.foldl_cons, List.foldl_nil]
    rw [chain, Function.update_apply, ih (by omega)]
    grind

/-- The lanes of an accumulator do not touch. -/
theorem foldl_lanes (f : α → Nat → Nat → α) (js : List Nat) (init : Nat → α) (lane : Nat) :
    js.foldl (fun acc j lane => f (acc lane) j lane) init lane =
      js.foldl (fun acc j => f acc j lane) (init lane) := by
  induction js generalizing init with
  | nil => rfl
  | cons j js ih => exact ih _

theorem groups_apply {lanes : Nat} (groups i : Nat) :
    scanGroups add zero lanes load m codes groups out i =
      if i < groups * lanes then rowChain add zero load m codes i else out i := by
  induction groups with
  | zero => simp [scanGroups]
  | succ g ih =>
    rw [scanGroups, List.range_succ, List.foldl_append, ← scanGroups, Nat.succ_mul]
    simp only [List.foldl_cons, List.foldl_nil, ih]
    rw [foldl_lanes fun acc j lane => add acc (load j (codes.getD ((g * lanes + lane) * m + j) 0))]
    by_cases own : g * lanes ≤ i ∧ i < g * lanes + lanes
    · simp [own, rowChain, Nat.add_sub_cancel' own.1]
    · grind

theorem lanes_apply {lanes : Nat} (full : codes.length = n * m) (i : Nat) :
    adcScanLanes add zero lanes load table m codes n out i =
      if i < n / lanes * lanes then rowChain add zero load m codes i
      else if i < n then rowChain add zero (tableAt zero table) m codes i else out i := by
  have within := Nat.div_mul_le_self n lanes
  have tail : (n - n / lanes * lanes) * m ≤ (codes.drop (n / lanes * lanes * m)).length := by
    simp [full, Nat.sub_mul]
  simp only [adcScanLanes]
  by_cases rest : n / lanes * lanes < n
  · simp only [if_pos rest, scalar_apply tail, groups_apply, rowChain_drop]
    generalize n / lanes * lanes = done at *
    grind
  · simp only [if_neg rest, groups_apply]
    grind

/-- Up to `2 ^ 23` subquantizers, the gather reads the entry that the scalar code reads. -/
theorem gather_eq {outside : Int → α} (small : m ≤ 2 ^ 23) (long : m * ksub ≤ table.length) {j : Nat}
    (inside : j < m) (c : UInt8) : gather zero outside table (gatherIndex j c) = tableAt zero table j c := by
  have byte := c.toNat_lt
  have index : gatherIndex j c = ((j * ksub + c.toNat : Nat) : Int) := by
    unfold gatherIndex ksub
    omega
  unfold gather
  rw [index, if_pos (by unfold ksub at *; omega)]
  rfl

/-- Beyond, the last subquantizer is read at another place. -/
theorem gatherIndex_ne (large : 2 ^ 23 ≤ m) (c : UInt8) : gatherIndex m c ≠ ((m * ksub : Nat) : Int) := by
  have byte := c.toNat_lt
  unfold gatherIndex ksub
  omega

/-- A table that is set only where the last subquantizer starts. -/
def lastEntry (m : Nat) : List Bool := (List.range (m * ksub)).map (· = (m - 1) * ksub)

/-- With an addition that keeps the newer value, the outputs are the last table value read. -/
theorem avx2_misreads (large : 2 ^ 23 < m) (eight : 8 ≤ n) :
    adcScanAvx2 (fun _ new => new) false (fun _ => false) (lastEntry m) m (List.replicate (n * m) 0) n
        (fun _ => false) 0 ≠
      adcScanScalar (fun _ new => new) false (lastEntry m) m (List.replicate (n * m) 0) n
        (fun _ => false) 0 := by
  obtain ⟨last, rfl⟩ : ∃ last, m = last + 1 := ⟨m - 1, by omega⟩
  have codes : (List.replicate (n * (last + 1)) (0 : UInt8)).length = n * (last + 1) :=
    List.length_replicate
  have chain (load : Nat → UInt8 → Bool) : rowChain (fun _ new => new) false load (last + 1)
      (List.replicate (n * (last + 1)) 0) 0 = load last 0 := by
    simp only [rowChain, List.range_succ, List.foldl_append, List.foldl_cons, List.foldl_nil,
      List.getD_eq_getElem?_getD, List.getElem?_replicate]
    split <;> rfl
  have wrong : gather false (fun _ => false) (lastEntry (last + 1)) (gatherIndex last 0) = false := by
    have elsewhere := @gatherIndex_ne last (by omega) 0
    unfold gather
    split
    next inside =>
      have other : (gatherIndex last 0).toNat ≠ last * ksub := by omega
      simp only [lastEntry, List.getD_eq_getElem?_getD, List.getElem?_map]
      grind
    · rfl
  have right : tableAt false (lastEntry (last + 1)) last 0 = true := by
    have inside : last * ksub < (last + 1) * ksub := by unfold ksub; omega
    simp [tableAt, lastEntry, inside]
  rw [adcScanAvx2, lanes_apply codes, scalar_apply codes.ge, if_pos (by omega), if_pos (by omega),
    chain, chain, wrong, right]
  exact Bool.false_ne_true

theorem avx2_misreads_large : adcScanAvx2 (fun _ new => new) false (fun _ => false)
      (lastEntry (2 ^ 23 + 1)) (2 ^ 23 + 1) (List.replicate (8 * (2 ^ 23 + 1)) 0) 8 (fun _ => false) 0 ≠
    adcScanScalar (fun _ new => new) false (lastEntry (2 ^ 23 + 1)) (2 ^ 23 + 1)
      (List.replicate (8 * (2 ^ 23 + 1)) 0) 8 (fun _ => false) 0 :=
  avx2_misreads (by omega) (by omega)

/-- **Every kernel is the scalar kernel**, for any addition, and writes only the outputs, exactly
when the AVX2 kernel has no full group or its indices fit an `i32`. -/
theorem kernels_agree_iff (m n : Nat) :
    (∀ (α : Type) (add : α → α → α) (zero : α) (outside : Int → α) (table : List α)
      (codes : List UInt8) (out : Nat → α), codes.length = n * m → m * ksub ≤ table.length →
      adcScanNeon add zero table m codes n out = adcScanScalar add zero table m codes n out ∧
      adcScanAvx2 add zero outside table m codes n out = adcScanScalar add zero table m codes n out ∧
      adcScanAvx512 add zero table m codes n out = adcScanScalar add zero table m codes n out ∧
      ∀ i ≥ n, adcScanScalar add zero table m codes n out i = out i) ↔ m ≤ 2 ^ 23 ∨ n < 8 := by
  constructor
  · intro agree
    by_contra bad
    simp only [not_or, not_le, not_lt] at bad
    refine avx2_misreads bad.1 bad.2 (congrFun (agree Bool _ false (fun _ => false) (lastEntry m)
      (List.replicate (n * m) 0) (fun _ => false) (by simp) (by simp [lastEntry])).2.1 0)
  · intro small α add zero outside table codes out full long
    have row : ∀ i < n / 8 * 8, rowChain add zero (fun j c =>
        gather zero outside table (gatherIndex j c)) m codes i =
        rowChain add zero (tableAt zero table) m codes i := by
      intro i inside
      have small : m ≤ 2 ^ 23 := small.resolve_right (by omega)
      exact rowChain_congr (fun j below c => gather_eq small long below c) i
    refine ⟨funext fun i => ?_, funext fun i => ?_, funext fun i => ?_, fun i beyond => ?_⟩
    · rw [adcScanNeon, lanes_apply full, scalar_apply full.ge]
      grind
    · rw [adcScanAvx2, lanes_apply full, scalar_apply full.ge]
      grind
    · rw [adcScanAvx512, lanes_apply full, scalar_apply full.ge]
      grind
    · rw [scalar_apply full.ge, if_neg (not_lt.mpr beyond)]

end Prism
