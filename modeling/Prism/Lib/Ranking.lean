import Mathlib.Algebra.Order.Ring.Int
import Mathlib.Data.List.Sort

/-!
Sorting by a comparison function, and keeping the first elements of what has been sorted.
-/

namespace Ranking

variable {α : Type*} (cmp : α → α → Ordering)

/-- The stable sort by `cmp`. -/
def rank (l : List α) : List α := l.insertionSort fun a b => (cmp a b).isLE

theorem rank_perm (l : List α) : (rank cmp l).Perm l := List.perm_insertionSort _ _

variable {l : List α}

@[simp] theorem mem_rank {a : α} : a ∈ rank cmp l ↔ a ∈ l :=
  (rank_perm cmp l).mem_iff

@[simp] theorem length_rank (l : List α) : (rank cmp l).length = l.length :=
  (rank_perm cmp l).length_eq

@[simp] theorem rank_nil : rank cmp [] = [] := rfl

/-- Different elements of the list do not compare as equal. -/
def Separates (l : List α) : Prop := ∀ a ∈ l, ∀ b ∈ l, cmp a b = .eq → a = b

variable {cmp} {k : List α}

theorem Separates.subset (sep : Separates cmp l) (sub : ∀ a ∈ k, a ∈ l) : Separates cmp k :=
  fun a ha b hb => sep a (sub a ha) b (sub b hb)

theorem Separates.perm (sep : Separates cmp l) (same : l.Perm k) : Separates cmp k :=
  sep.subset fun _ ha => same.mem_iff.mpr ha

section Sorted

variable [Std.TransCmp cmp]

theorem isLE_total (a b : α) : (cmp a b).isLE ∨ (cmp b a).isLE := by
  rw [show cmp b a = (cmp a b).swap from Std.OrientedCmp.eq_swap]
  cases cmp a b <;> simp

instance totalLE : Std.Total fun a b : α => (cmp a b).isLE = true := ⟨isLE_total⟩

instance transLE : IsTrans α fun a b => (cmp a b).isLE = true := ⟨fun _ _ _ => Std.TransCmp.isLE_trans⟩

/-- Elements in both orders compare as equal. -/
theorem eq_of_isLE_of_isLE {a b : α} (there : (cmp a b).isLE) (back : (cmp b a).isLE) :
    cmp a b = .eq := by
  rw [show cmp b a = (cmp a b).swap from Std.OrientedCmp.eq_swap] at back
  cases h : cmp a b <;> simp_all

theorem rank_pairwise (l : List α) : (rank cmp l).Pairwise fun a b => (cmp a b).isLE :=
  List.pairwise_insertionSort _ _

variable {l : List α}

/-- A sorted arrangement of the elements is the sorted list. -/
theorem eq_rank_of_pairwise (sep : Separates cmp l) (same : k.Perm l)
    (sorted : k.Pairwise fun a b => (cmp a b).isLE) : k = rank cmp l := by
  have perm := same.trans (rank_perm cmp l).symm
  apply List.Perm.eq_of_pairwise _ sorted (rank_pairwise l) perm
  intro a b ha hb there back
  exact sep a (same.mem_iff.mp ha) b ((mem_rank cmp).mp hb) (eq_of_isLE_of_isLE there back)

theorem rank_eq_of_perm (sep : Separates cmp l) (same : l.Perm k) : rank cmp l = rank cmp k := by
  apply eq_rank_of_pairwise (sep.perm same) ((rank_perm cmp l).trans same) (rank_pairwise l)

theorem rank_of_pairwise (sep : Separates cmp l) (sorted : l.Pairwise fun a b => (cmp a b).isLE) :
    rank cmp l = l :=
  (eq_rank_of_pairwise sep (List.Perm.refl l) sorted).symm

/-- Leaving elements out of a sorted list and inserting one commute. -/
theorem filter_orderedInsert (sorted : l.Pairwise fun a b => (cmp a b).isLE) (p : α → Bool) (x : α) :
    (l.orderedInsert (fun a b => (cmp a b).isLE) x).filter p =
      if p x then (l.filter p).orderedInsert (fun a b => (cmp a b).isLE) x else l.filter p := by
  induction l with
  | nil => cases h : p x <;> simp [h]
  | cons b l ih =>
    obtain ⟨least, sorted⟩ := List.pairwise_cons.mp sorted
    rw [List.orderedInsert_cons]
    by_cases le : (cmp x b).isLE
    · -- Nothing that is kept comes before `b`, so `x` comes first on both sides.
      rw [if_pos le]
      cases kept : p x with
      | false => simp [kept]
      | true =>
        have first : ∀ a ∈ (b :: l).filter p, (cmp x a).isLE := by
          intro a mem
          rcases List.mem_cons.mp (List.mem_of_mem_filter mem) with rfl | inside
          · exact le
          · exact Std.TransCmp.isLE_trans le (least a inside)
        rw [List.filter_cons_of_pos kept, if_pos rfl]
        cases rest : (b :: l).filter p with
        | nil => rfl
        | cons a as => rw [List.orderedInsert_cons, if_pos (first a (by simp [rest]))]
    · rw [if_neg le, List.filter_cons, ih sorted, List.filter_cons]
      cases kept : p x with
      | false => simp
      | true => cases head : p b <;> simp [le]

/-- The sort is stable: leaving elements out before it or after it is the same. -/
theorem rank_filter (l : List α) (p : α → Bool) :
    rank cmp (l.filter p) = (rank cmp l).filter p := by
  induction l with
  | nil => rfl
  | cons x l ih =>
    have step : (rank cmp (x :: l)).filter p = _ := filter_orderedInsert (rank_pairwise l) p x
    rw [step, ← ih]
    cases kept : p x with
    | false => simp [kept]
    | true => simp [kept, rank]

omit [Std.TransCmp cmp] in
/-- The sort looks at its elements only. -/
theorem rank_congr {cmp' : α → α → Ordering} (same : ∀ a ∈ l, ∀ b ∈ l, cmp a b = cmp' a b) :
    rank cmp l = rank cmp' l := by
  induction l with
  | nil => rfl
  | cons x l ih =>
    have insert (m : List α) (sub : ∀ a ∈ m, a ∈ l) :
        m.orderedInsert (fun a b => (cmp a b).isLE) x =
          m.orderedInsert (fun a b => (cmp' a b).isLE) x := by
      induction m with
      | nil => rfl
      | cons b m ih' =>
        obtain ⟨inside, others⟩ := List.forall_mem_cons.mp sub
        rw [List.orderedInsert_cons, List.orderedInsert_cons, ih' others,
          same x List.mem_cons_self b (List.mem_cons_of_mem x inside)]
    have others := ih fun a ha b hb =>
      same a (List.mem_cons_of_mem x ha) b (List.mem_cons_of_mem x hb)
    unfold rank at others ⊢
    rw [List.insertionSort_cons, List.insertionSort_cons, ← others]
    exact insert _ fun a mem => (List.perm_insertionSort _ _).mem_iff.mp mem

omit [Std.TransCmp cmp] in
/-- Sorting by what a function gives. -/
theorem rank_map {β : Type*} (f : β → α) (l : List β) :
    rank cmp (l.map f) = (rank (fun a b => cmp (f a) (f b)) l).map f := by
  induction l with
  | nil => rfl
  | cons x l ih =>
    have insert (m : List β) : (m.map f).orderedInsert (fun a b => (cmp a b).isLE) (f x) =
        (m.orderedInsert (fun a b => (cmp (f a) (f b)).isLE) x).map f := by
      induction m with
      | nil => rfl
      | cons b m ih' =>
        rw [List.map_cons, List.orderedInsert_cons, List.orderedInsert_cons]
        split
        · rfl
        · rw [ih', List.map_cons]
    unfold rank at ih ⊢
    rw [List.map_cons, List.insertionSort_cons, ih, insert, List.insertionSort_cons]

/-- An element that is nowhere before the others comes last. -/
theorem rank_cons_of_last {m : α} (sep : Separates cmp (m :: l)) (last : ∀ a ∈ l, (cmp a m).isLE) :
    rank cmp (m :: l) = rank cmp l ++ [m] := by
  symm
  apply eq_rank_of_pairwise sep
  · exact (List.perm_append_singleton m _).trans ((rank_perm cmp l).cons m)
  · rw [List.pairwise_append]
    refine ⟨rank_pairwise l, List.pairwise_singleton _ _, ?_⟩
    intro a ha b hb
    rw [List.mem_singleton] at hb
    exact hb ▸ last a ((mem_rank cmp).mp ha)

end Sorted

/-! ### Descending in one key, ascending in another -/

section Keys

variable {β γ : Type} (desc : β → β → Ordering) (asc : γ → γ → Ordering) (f : α → β) (g : α → γ)

def descendingThen (a b : α) : Ordering := (desc (f b) (f a)).then (asc (g a) (g b))

instance [Std.TransCmp desc] [Std.TransCmp asc] : Std.TransCmp (descendingThen desc asc f g) :=
  have : Std.TransCmp fun a b => desc (f b) (f a) :=
    { eq_swap := Std.OrientedCmp.eq_swap
      isLE_trans := fun there back => Std.TransCmp.isLE_trans back there }
  have : Std.TransCmp fun a b => asc (g a) (g b) :=
    { eq_swap := Std.OrientedCmp.eq_swap
      isLE_trans := Std.TransCmp.isLE_trans }
  inferInstanceAs (Std.TransCmp
    (compareLex (fun a b => desc (f b) (f a)) fun a b => asc (g a) (g b)))

end Keys

/-- Sorted by keys that differ, elements are strictly sorted. -/
theorem pairwise_lt_of_nodup {κ : Type} {cmp : κ → κ → Ordering} [Std.LawfulEqCmp cmp] {key : α → κ}
    (sorted : l.Pairwise fun a b => (cmp (key a) (key b)).isLE) (nodup : (l.map key).Nodup) :
    l.Pairwise fun a b => cmp (key a) (key b) = .lt := by
  apply (sorted.and (List.pairwise_map.mp nodup)).imp
  rintro a b ⟨le, differ⟩
  cases order : cmp (key a) (key b) with
  | lt => rfl
  | eq => exact absurd (Std.LawfulEqCmp.eq_of_compare order) differ
  | gt => simp [order] at le

/-- An order by keys separates elements whose keys differ. -/
theorem separates_of_nodup {κ : Type} {cmp : κ → κ → Ordering} [Std.LawfulEqCmp cmp] {key : α → κ}
    (nodup : (l.map key).Nodup) : Separates (fun a b => cmp (key a) (key b)) l := by
  intro a ha b hb tied
  exact List.inj_on_of_nodup_map nodup ha hb (Std.LawfulEqCmp.eq_of_compare tied)

/-! ### The first elements -/

/-- The first `k` of a sorted list all satisfy `p` exactly when every element that does not has at
least `k` elements strictly before it. -/
theorem forall_take_iff_of_pairwise [Std.TransCmp cmp] {p : α → Prop}
    (sorted : l.Pairwise fun a b => (cmp a b).isLE)
    (respects : ∀ a ∈ l, ∀ b ∈ l, cmp a b = .eq → p a → p b) (k : Nat) :
    (∀ a ∈ l.take k, p a) ↔ ∀ a ∈ l, ¬ p a → k ≤ (l.filter fun b => cmp b a = .lt).length := by
  induction l generalizing k with
  | nil => simp
  | cons x l ih =>
    obtain ⟨least, sorted⟩ := List.pairwise_cons.mp sorted
    have later := ih sorted fun a ha b hb =>
      respects a (List.mem_cons_of_mem x ha) b (List.mem_cons_of_mem x hb)
    cases k with
    | zero => simp
    | succ k =>
      rw [List.take_succ_cons, List.forall_mem_cons, later k]
      constructor
      · intro ⟨first, rest⟩ a ha fails
        cases List.mem_cons.mp ha with
        | inl same => exact absurd (same ▸ first) fails
        | inr inside =>
          -- `x` comes before `a`, and not beside it: then `p` would hold of `a`.
          have before : cmp x a = .lt := by
            have le := least a inside
            cases order : cmp x a with
            | lt => rfl
            | eq => exact absurd (respects x List.mem_cons_self a ha order first) fails
            | gt => simp [order] at le
          rw [List.filter_cons_of_pos (by simpa using before), List.length_cons]
          exact Nat.succ_le_succ (rest a inside fails)
      · intro enough
        constructor
        · -- Nothing is strictly before the first element.
          apply Classical.byContradiction
          intro fails
          have none : (x :: l).filter (fun b => cmp b x = .lt) = [] := by
            rw [List.filter_eq_nil_iff]
            intro b hb before
            have lt : cmp b x = .lt := of_decide_eq_true before
            cases List.mem_cons.mp hb with
            | inl same =>
              rw [same, show cmp x x = .eq from Std.ReflCmp.compare_self] at lt
              cases lt
            | inr inside =>
              have le := least b inside
              rw [show cmp x b = (cmp b x).swap from Std.OrientedCmp.eq_swap, lt] at le
              cases le
          have := enough x List.mem_cons_self fails
          rw [none] at this
          exact absurd this (Nat.not_succ_le_zero k)
        · intro a ha fails
          have count := enough a (List.mem_cons_of_mem x ha) fails
          rw [List.filter_cons] at count
          split at count
          · exact Nat.le_of_succ_le_succ count
          · exact Nat.le_of_succ_le count

theorem forall_take_rank_iff [Std.TransCmp cmp] {p : α → Prop}
    (respects : ∀ a ∈ l, ∀ b ∈ l, cmp a b = .eq → p a → p b) (k : Nat) :
    (∀ a ∈ (rank cmp l).take k, p a) ↔
      ∀ a ∈ l, ¬ p a → k ≤ (l.filter fun b => cmp b a = .lt).length := by
  rw [forall_take_iff_of_pairwise (rank_pairwise l) (by simpa using respects)]
  have count (a : α) := ((rank_perm cmp l).filter fun b => cmp b a = .lt).length_eq
  simp only [mem_rank, count]

/-- Whether a new element is among the first `n` depends on the first `n` so far only. -/
theorem take_orderedInsert (r : α → α → Prop) [DecidableRel r] (x : α) (l : List α) (n : Nat) :
    (l.orderedInsert r x).take n = ((l.take n).orderedInsert r x).take n := by
  induction l generalizing n with
  | nil => simp
  | cons b l ih =>
    cases n with
    | zero => simp
    | succ n =>
      rw [List.take_succ_cons, List.orderedInsert_cons, List.orderedInsert_cons]
      split
      · cases n with
        | zero => simp
        | succ n => simp [List.take_take]
      · rw [List.take_succ_cons, List.take_succ_cons, ih]

theorem take_rank_cons [Std.TransCmp cmp] {x : α} (sep : Separates cmp l) (n : Nat) :
    (rank cmp (x :: l)).take n = (rank cmp (x :: (rank cmp l).take n)).take n := by
  have kept : rank cmp ((rank cmp l).take n) = (rank cmp l).take n := by
    apply rank_of_pairwise
    · exact sep.subset fun a ha => (mem_rank cmp).mp (List.mem_of_mem_take ha)
    · exact (rank_pairwise l).take
  calc (rank cmp (x :: l)).take n
      = ((rank cmp l).orderedInsert _ x).take n := rfl
    _ = (((rank cmp l).take n).orderedInsert _ x).take n := take_orderedInsert _ x _ n
    _ = ((rank cmp ((rank cmp l).take n)).orderedInsert _ x).take n := by rw [kept]
    _ = (rank cmp (x :: (rank cmp l).take n)).take n := rfl

end Ranking
