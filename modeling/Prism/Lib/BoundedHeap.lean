import Mathlib.Data.List.Induction
import Prism.Lib.Ranking

/-!
A binary max-heap of bounded size, kept in an array: offering it a sequence of elements keeps the
smallest ones. `cmp` compares two elements; the root is the largest that is kept.
-/

namespace BoundedHeap

open Ranking

variable {α : Type*} (cmp : α → α → Ordering)

/-! ### The heap -/

/-- Move the element at `i` up while it is larger than its parent. -/
def siftUp : Nat → Array α → Nat → Array α
  | 0, h, _ => h
  | fuel + 1, h, i =>
    if _bound : 0 < i ∧ i < h.size then
      if cmp h[i] h[(i - 1) / 2] = .gt then
        siftUp fuel (h.swap i ((i - 1) / 2)) ((i - 1) / 2)
      else h
    else h

def larger (h : Array α) (i j : Nat) : Nat :=
  if _bound : i < h.size ∧ j < h.size then
    if cmp h[j] h[i] = .gt then j else i
  else i

def worst (h : Array α) (i : Nat) : Nat :=
  larger cmp h (larger cmp h i (2 * i + 1)) (2 * i + 2)

/-- Move the element at `i` down while one of its children is larger. -/
def siftDown : Nat → Array α → Nat → Array α
  | 0, h, _ => h
  | fuel + 1, h, i =>
    if _bound : worst cmp h i ≠ i ∧ i < h.size ∧ worst cmp h i < h.size then
      siftDown fuel (h.swap i (worst cmp h i)) (worst cmp h i)
    else h

/-- Keep an element if there is room, or if it is smaller than the largest that is kept. -/
def offer (cap : Nat) (h : Array α) (x : α) : Array α :=
  if h.size < cap then siftUp cmp h.size (h.push x) h.size
  else
    match h[0]? with
    | some root => if cmp x root = .lt then siftDown cmp h.size (h.setIfInBounds 0 x) 0 else h
    | none => h

def offerAll (cap : Nat) (xs : List α) : Array α := xs.foldl (offer cmp cap) #[]

/-! ### What sifting keeps -/

theorem siftUp_perm (fuel : Nat) (h : Array α) (i : Nat) : (siftUp cmp fuel h i).Perm h := by
  induction fuel generalizing h i with
  | zero => exact Array.Perm.refl h
  | succ fuel ih =>
    rw [siftUp]
    split
    · split
      · exact (ih _ _).trans (Array.swap_perm _ _)
      · exact Array.Perm.refl h
    · exact Array.Perm.refl h

theorem siftDown_perm (fuel : Nat) (h : Array α) (i : Nat) : (siftDown cmp fuel h i).Perm h := by
  induction fuel generalizing h i with
  | zero => exact Array.Perm.refl h
  | succ fuel ih =>
    rw [siftDown]
    split
    · exact (ih _ _).trans (Array.swap_perm _ _)
    · exact Array.Perm.refl h

/-! ### The order of a heap -/

/-- The element at `i` is not larger than the one at `j`, where both are there. -/
def Under (h : Array α) (i j : Nat) : Prop :=
  ∀ x y, h[i]? = some x → h[j]? = some y → (cmp x y).isLE

def parent (i : Nat) : Nat := (i - 1) / 2

/-- No element is larger than its parent. -/
def IsHeap (h : Array α) : Prop := ∀ j, 0 < j → Under cmp h j (parent j)

/-- A heap but for the element at `i`, which may be larger than its parent. -/
structure HeapBelow (h : Array α) (i : Nat) : Prop where
  ordered : ∀ j, 0 < j → j ≠ i → Under cmp h j (parent j)
  grand : 0 < i → ∀ j, 0 < j → parent j = i → Under cmp h j (parent i)

/-- A heap but for the element at `i`, which may be smaller than its children. -/
structure HeapAbove (h : Array α) (i : Nat) : Prop where
  ordered : ∀ j, 0 < j → parent j ≠ i → Under cmp h j (parent j)
  grand : 0 < i → ∀ j, 0 < j → parent j = i → Under cmp h j (parent i)

/-- Where the element at `k` was before the swap of `i` and `j`. -/
def swapped (i j k : Nat) : Nat := if k = i then j else if k = j then i else k

variable {h : Array α} {i j : Nat}

theorem getElem?_swap (hi : i < h.size) (hj : j < h.size) (k : Nat) :
    (h.swap i j)[k]? = h[swapped i j k]? := by
  rw [Array.getElem?_swap]
  grind [swapped]

theorem larger_cases (h : Array α) (i j : Nat) : larger cmp h i j = i ∨ larger cmp h i j = j := by
  unfold larger
  split
  · split <;> simp
  · simp

theorem larger_lt (hi : i < h.size) (j : Nat) : larger cmp h i j < h.size := by
  unfold larger
  split
  · next bound => split <;> omega
  · exact hi

theorem worst_cases (h : Array α) (i : Nat) :
    worst cmp h i = i ∨ (0 < worst cmp h i ∧ parent (worst cmp h i) = i) := by
  unfold worst parent
  rcases larger_cases cmp h i (2 * i + 1) with first | first <;>
    rcases larger_cases cmp h (larger cmp h i (2 * i + 1)) (2 * i + 2) with second | second <;>
    omega

theorem worst_lt (hi : i < h.size) : worst cmp h i < h.size :=
  larger_lt cmp (larger_lt cmp hi _) _

variable {cmp}

theorem Under.swap {a b : Nat} (hi : i < h.size) (hj : j < h.size)
    (under : Under cmp h (swapped i j a) (swapped i j b)) : Under cmp (h.swap i j) a b := by
  intro x y hx hy
  rw [getElem?_swap hi hj] at hx hy
  exact under x y hx hy

theorem Under.of_size_le (out : h.size ≤ i) : Under cmp h i j := by
  intro x y hx
  simp [Array.getElem?_eq_none out] at hx

theorem Under.of_not_gt (hi : i < h.size) (hj : j < h.size) (not : cmp h[i] h[j] ≠ .gt) :
    Under cmp h i j := by
  intro x y hx hy
  rw [Array.getElem?_eq_getElem hi] at hx
  rw [Array.getElem?_eq_getElem hj] at hy
  cases hx
  cases hy
  cases found : cmp h[i] h[j] <;> simp_all

theorem HeapBelow.finish (heap : HeapBelow cmp h i) (done : 0 < i → Under cmp h i (parent i)) :
    IsHeap cmp h := by
  intro j hj
  by_cases at_i : j = i
  · exact at_i ▸ done (at_i ▸ hj)
  · exact heap.ordered j hj at_i

theorem HeapAbove.finish (heap : HeapAbove cmp h i)
    (done : ∀ j, 0 < j → parent j = i → Under cmp h j i) : IsHeap cmp h := by
  intro j hj
  by_cases child : parent j = i
  · exact child ▸ done j hj child
  · exact heap.ordered j hj child

theorem HeapAbove.move {w : Nat} (heap : HeapAbove cmp h i) (hi : i < h.size) (hw : w < h.size)
    (pos : 0 < w) (child : parent w = i) (self : Under cmp h i w)
    (children : ∀ j, 0 < j → parent j = i → Under cmp h j w) : HeapAbove cmp (h.swap i w) w := by
  have down : i < w := by unfold parent at child; omega
  have below : w ≠ i := down.ne'
  constructor
  · intro j hj off
    apply Under.swap hi hw
    by_cases at_w : j = w
    · simpa [swapped, at_w, child, below] using self
    · by_cases at_i : j = i
      · have up : parent i ≠ i := by unfold parent; omega
        have under := heap.grand (at_i ▸ hj) w pos child
        simpa [swapped, at_i, up, (at_i ▸ off : parent i ≠ w)] using under
      · by_cases sibling : parent j = i
        · simpa [swapped, at_i, at_w, sibling] using children j hj sibling
        · simpa [swapped, at_i, at_w, sibling, off] using heap.ordered j hj sibling
  · intro _ j hj grandchild
    have off : j ≠ i ∧ j ≠ w := by unfold parent at grandchild; omega
    apply Under.swap hi hw
    have under := heap.ordered j hj (by omega)
    simpa [swapped, off.1, off.2, child, grandchild] using grandchild ▸ under

theorem heapBelow_push (heap : IsHeap cmp h) (x : α) : HeapBelow cmp (h.push x) h.size := by
  constructor
  · intro j hj off a b ha hb
    by_cases inside : j < h.size
    · have up : parent j < h.size := by unfold parent; omega
      rw [Array.getElem?_push_lt inside, ← Array.getElem?_eq_getElem] at ha
      rw [Array.getElem?_push_lt up, ← Array.getElem?_eq_getElem] at hb
      exact heap j hj a b ha hb
    · rw [Array.getElem?_eq_none (by simp; omega)] at ha
      cases ha
  · intro _ j _ child
    exact Under.of_size_le (by simp; unfold parent at child; omega)

theorem heapAbove_setRoot (heap : IsHeap cmp h) (x : α) :
    HeapAbove cmp (h.setIfInBounds 0 x) 0 := by
  constructor
  · intro j hj off a b ha hb
    rw [Array.getElem?_setIfInBounds_ne (by omega)] at ha
    rw [Array.getElem?_setIfInBounds_ne (by omega)] at hb
    exact heap j hj a b ha hb
  · intro pos
    omega

/-- With room left, an offer adds the element. -/
theorem offer_perm_of_lt {cap : Nat} (room : h.size < cap) (x : α) :
    (offer cmp cap h x).toList.Perm (x :: h.toList) := by
  rw [offer, if_pos room]
  have kept := (siftUp_perm cmp h.size (h.push x) h.size).toList
  rw [Array.toList_push] at kept
  exact kept.trans (List.perm_append_singleton x _)

theorem size_offer_le {cap : Nat} (small : h.size ≤ cap) (x : α) :
    (offer cmp cap h x).size ≤ cap := by
  unfold offer
  split
  · next room =>
    rw [(siftUp_perm cmp h.size (h.push x) h.size).size_eq, Array.size_push]
    omega
  · split
    · split
      · rw [(siftDown_perm cmp h.size (h.setIfInBounds 0 x) 0).size_eq]
        simpa using small
      · exact small
    · exact small

section Order

variable [Std.TransCmp cmp] {h : Array α} {i : Nat}

theorem Under.trans {k : Nat} (first : Under cmp h i j) (second : Under cmp h j k)
    (mid : j < h.size) : Under cmp h i k := by
  intro x z hx hz
  have hy := Array.getElem?_eq_getElem mid
  exact Std.TransCmp.isLE_trans (first x _ hx hy) (second _ z hy hz)

theorem Under.of_gt (hi : i < h.size) (hj : j < h.size) (gt : cmp h[i] h[j] = .gt) :
    Under cmp h j i := by
  apply Under.of_not_gt hj hi
  rw [show cmp h[j] h[i] = (cmp h[i] h[j]).swap from Std.OrientedCmp.eq_swap, gt]
  decide

theorem Under.refl (i : Nat) : Under cmp h i i := by
  intro x y hx hy
  obtain rfl := Option.mem_unique hx hy
  simp [Std.ReflCmp.compare_self]

/-! ### Sifting up -/

theorem HeapBelow.move (heap : HeapBelow cmp h i) (pos : 0 < i) (hi : i < h.size)
    (hp : parent i < h.size) (above : Under cmp h (parent i) i) :
    HeapBelow cmp (h.swap i (parent i)) (parent i) := by
  have up : parent i < i := by unfold parent; omega
  constructor
  · intro j hj off
    apply Under.swap hi hp
    by_cases at_i : j = i
    · -- the old parent now stands below the element that moved up
      simpa [swapped, at_i, up.ne] using above
    · by_cases below_i : parent j = i
      · simpa [swapped, at_i, off, below_i] using heap.grand pos j hj below_i
      · by_cases sibling : parent j = parent i
        · have under := (sibling ▸ heap.ordered j hj at_i).trans above hp
          simpa [swapped, at_i, off, below_i, sibling, up.ne] using under
        · simpa [swapped, at_i, off, below_i, sibling] using heap.ordered j hj at_i
  · intro pos' j hj below
    have upper : parent (parent i) < parent i := by unfold parent at pos' ⊢; omega
    have above' : Under cmp h (parent i) (parent (parent i)) := heap.ordered _ pos' up.ne
    have far : parent (parent i) ≠ i := by omega
    apply Under.swap hi hp
    by_cases at_i : j = i
    · simpa [swapped, at_i, far, upper.ne] using above'
    · have off : j ≠ parent i := by unfold parent at below ⊢; omega
      have under := (below ▸ heap.ordered j hj at_i).trans above' hp
      simpa [swapped, at_i, off, far, upper.ne] using under

theorem siftUp_isHeap (fuel : Nat) (enough : i ≤ fuel) (heap : HeapBelow cmp h i) :
    IsHeap cmp (siftUp cmp fuel h i) := by
  induction fuel generalizing h i with
  | zero => exact heap.finish fun pos => by omega
  | succ fuel ih =>
    rw [siftUp]
    split
    · next bound =>
      have hp : parent i < h.size := by unfold parent; omega
      split
      · next gt =>
        have step : parent i < i := by unfold parent; omega
        exact ih (by unfold parent at step; omega)
          (heap.move bound.1 bound.2 hp (Under.of_gt bound.2 hp gt))
      · next not => exact heap.finish fun _ => Under.of_not_gt bound.2 hp not
    · next out =>
      apply heap.finish
      intro pos
      exact Under.of_size_le (by omega)

/-! ### Sifting down -/

theorem under_larger (hi : i < h.size) (j : Nat) :
    Under cmp h i (larger cmp h i j) ∧ Under cmp h j (larger cmp h i j) := by
  unfold larger
  split
  · next bound =>
    split
    · next gt => exact ⟨Under.of_gt bound.2 bound.1 gt, Under.refl j⟩
    · next not => exact ⟨Under.refl i, Under.of_not_gt bound.2 bound.1 not⟩
  · exact ⟨Under.refl i, Under.of_size_le (by omega)⟩

theorem under_worst (hi : i < h.size) :
    Under cmp h i (worst cmp h i) ∧ ∀ j, 0 < j → parent j = i → Under cmp h j (worst cmp h i) := by
  have mid := larger_lt cmp hi (2 * i + 1)
  obtain ⟨self, left⟩ : Under cmp h i _ ∧ Under cmp h (2 * i + 1) _ := under_larger hi _
  obtain ⟨kept, right⟩ : Under cmp h _ (worst cmp h i) ∧ Under cmp h (2 * i + 2) _ :=
    under_larger mid _
  refine ⟨self.trans kept mid, ?_⟩
  intro j hj child
  have two : j = 2 * i + 1 ∨ j = 2 * i + 2 := by unfold parent at child; omega
  rcases two with rfl | rfl
  · exact left.trans kept mid
  · exact right

theorem siftDown_isHeap (fuel : Nat) (enough : h.size ≤ fuel + i) (heap : HeapAbove cmp h i) :
    IsHeap cmp (siftDown cmp fuel h i) := by
  induction fuel generalizing h i with
  | zero =>
    apply heap.finish
    intro j hj child
    exact Under.of_size_le (by unfold parent at child; omega)
  | succ fuel ih =>
    rw [siftDown]
    split
    · next bound =>
      obtain ⟨pos, child⟩ := (worst_cases cmp h i).resolve_left bound.1
      obtain ⟨self, children⟩ : Under cmp h i _ ∧ _ := under_worst bound.2.1
      have down : i < worst cmp h i := by unfold parent at child; omega
      exact ih (by simp; omega) (heap.move bound.2.1 bound.2.2 pos child self children)
    · next stop =>
      apply heap.finish
      intro j hj child
      by_cases hi : i < h.size
      · have same : worst cmp h i = i := by
          by_contra moved
          exact stop ⟨moved, hi, worst_lt cmp hi⟩
        exact same ▸ (under_worst hi).2 j hj child
      · exact Under.of_size_le (by unfold parent at child; omega)

/-! ### Offering -/

/-- The root is the largest element. -/
theorem IsHeap.under_root (heap : IsHeap cmp h) (i : Nat) (hi : i < h.size) : Under cmp h i 0 := by
  induction i using Nat.strongRecOn with
  | ind i ih =>
    by_cases zero : i = 0
    · subst zero
      exact Under.refl 0
    · have up : parent i < i := by unfold parent; omega
      exact (heap i (by omega)).trans (ih _ up (by omega)) (by omega)

theorem IsHeap.isLE_root (heap : IsHeap cmp h) {root : α} (found : h[0]? = some root) {a : α}
    (kept : a ∈ h.toList) : (cmp a root).isLE := by
  obtain ⟨i, hi, at_i⟩ := List.getElem_of_mem kept
  apply heap.under_root i (by simpa using hi) a root _ found
  rw [Array.getElem?_eq_getElem (by simpa using hi)]
  simpa using at_i

theorem offer_isHeap (cap : Nat) (heap : IsHeap cmp h) (x : α) :
    IsHeap cmp (offer cmp cap h x) := by
  unfold offer
  split
  · exact siftUp_isHeap _ (Nat.le_refl _) (heapBelow_push heap x)
  · split
    · split
      · exact siftDown_isHeap _ (by simp) (heapAbove_setRoot heap x)
      · exact heap
    · exact heap

/-- One more element: what is kept is what was kept and the element, without the largest. -/
theorem rank_offer {cap : Nat} (heap : IsHeap cmp h) (small : h.size ≤ cap) (x : α)
    (sep : Separates cmp (x :: h.toList)) :
    rank cmp (offer cmp cap h x).toList = (rank cmp (x :: h.toList)).take cap := by
  by_cases room : h.size < cap
  · rw [rank_eq_of_perm (sep.perm (offer_perm_of_lt room x).symm) (offer_perm_of_lt room x),
      List.take_of_length_le (by simp; omega)]
  · have full : h.toList.length = cap := by simp; omega
    rw [offer, if_neg room]
    split
    · next root found =>
      obtain ⟨rest, list⟩ : ∃ rest, h.toList = root :: rest := by
        rw [← Array.getElem?_toList] at found
        cases held : h.toList with
        | nil => simp [held] at found
        | cons a rest =>
          rw [held, List.getElem?_cons_zero] at found
          exact ⟨rest, by rw [Option.some.inj found]⟩
      have top : ∀ a ∈ h.toList, (cmp a root).isLE := fun a => heap.isLE_root found
      split
      · next lt =>
        have kept : (siftDown cmp h.size (h.setIfInBounds 0 x) 0).toList.Perm (x :: rest) := by
          have perm := (siftDown_perm cmp h.size (h.setIfInBounds 0 x) 0).toList
          rwa [Array.toList_setIfInBounds, list, List.set_cons_zero] at perm
        have others : ∀ a ∈ x :: rest, (cmp a root).isLE := by
          intro a ha
          rcases List.mem_cons.mp ha with rfl | ha
          · simp [lt]
          · exact top a (list ▸ List.mem_cons_of_mem root ha)
        have swap : (x :: h.toList).Perm (root :: x :: rest) := list ▸ List.Perm.swap root x rest
        have sep' := sep.perm swap
        have sepRest : Separates cmp (x :: rest) :=
          sep'.subset fun a ha => List.mem_cons_of_mem root ha
        rw [rank_eq_of_perm sep swap, rank_cons_of_last sep' others,
          rank_eq_of_perm (sepRest.perm kept.symm) kept, List.take_left']
        simp_all
      · next stay =>
        have others : ∀ a ∈ h.toList, (cmp a x).isLE := by
          intro a ha
          apply Std.TransCmp.isLE_trans (top a ha)
          rw [show cmp root x = (cmp x root).swap from Std.OrientedCmp.eq_swap]
          cases back : cmp x root <;> simp_all
        rw [rank_cons_of_last sep others, List.take_left' (by simpa using full)]
    · next empty =>
      have none : h.toList = [] := by
        rw [← Array.getElem?_toList] at empty
        cases held : h.toList with
        | nil => rfl
        | cons a rest => simp [held] at empty
      have zero : cap = 0 := by rw [← full, none]; rfl
      simp [none, zero]

/-- Offering a list to an empty heap keeps its first `cap` elements in the order of `cmp`. -/
theorem rank_offerAll (cap : Nat) (xs : List α) (sep : Separates cmp xs) :
    rank cmp (offerAll cmp cap xs).toList = (rank cmp xs).take cap := by
  suffices all : IsHeap cmp (offerAll cmp cap xs) ∧ (offerAll cmp cap xs).size ≤ cap ∧
      rank cmp (offerAll cmp cap xs).toList = (rank cmp xs).take cap from all.2.2
  induction xs using List.reverseRecOn with
  | nil => refine ⟨fun j _ => Under.of_size_le (by simp [offerAll]), by simp [offerAll], by simp [offerAll]⟩
  | append_singleton xs x ih =>
    have sepXs : Separates cmp xs := sep.subset fun a ha => List.mem_append_left _ ha
    obtain ⟨heap, small, kept⟩ := ih sepXs
    have last : offerAll cmp cap (xs ++ [x]) = offer cmp cap (offerAll cmp cap xs) x := by
      simp [offerAll]
    have sepCons : Separates cmp (x :: xs) := sep.perm (List.perm_append_singleton x xs)
    have heldSub : ∀ a ∈ (offerAll cmp cap xs).toList, a ∈ xs := by
      intro a ha
      rw [← mem_rank cmp, kept] at ha
      exact (mem_rank cmp).mp (List.mem_of_mem_take ha)
    have sepHeld : Separates cmp (x :: (offerAll cmp cap xs).toList) :=
      sepCons.subset fun a ha => by
        rcases List.mem_cons.mp ha with rfl | ha
        · exact List.mem_cons_self
        · exact List.mem_cons_of_mem x (heldSub a ha)
    rw [last]
    refine ⟨offer_isHeap cap heap x, size_offer_le small x, ?_⟩
    calc rank cmp (offer cmp cap (offerAll cmp cap xs) x).toList
        = (rank cmp (x :: (offerAll cmp cap xs).toList)).take cap := rank_offer heap small x sepHeld
      _ = (rank cmp (x :: (rank cmp xs).take cap)).take cap := by
          rw [rank_eq_of_perm sepHeld ((rank_perm cmp _).symm.cons x), kept]
      _ = (rank cmp (x :: xs)).take cap := (take_rank_cons sepXs cap).symm
      _ = (rank cmp (xs ++ [x])).take cap := by
          rw [rank_eq_of_perm sepCons (List.perm_append_singleton x xs).symm]

end Order

end BoundedHeap
