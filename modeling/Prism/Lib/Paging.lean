import Mathlib.Algebra.Order.Ring.Int
import Mathlib.Data.List.Sort
import Mathlib.Order.Compare

/-!
Keyset pagination over an ordered list: a page starts at the first element whose key is after that
of the last element seen. Pages walked from the start tile the list.
-/

namespace Paging

variable {α κ : Type} (cmp : κ → κ → Ordering) (key : α → κ)

/-- Whether an element comes after a position; everything comes after the start. -/
def isAfter (cur : Option κ) (x : α) : Bool := cur.all fun k => cmp k (key x) = .lt

/-- What is left of a list after a position. -/
def rest (cur : Option κ) (l : List α) : List α := l.filter (isAfter cmp key cur)

@[simp] theorem rest_none (l : List α) : rest cmp key none l = l := by
  simp [rest, isAfter]

/-- In a list along which `p`, once true, stays true, the elements from the first with `p` on are
those with `p`. -/
theorem drop_findIdx_eq_filter {p : α → Bool} {l : List α}
    (upward : l.Pairwise fun a b => p a → p b) : l.drop (l.findIdx p) = l.filter p := by
  induction l with
  | nil => rfl
  | cons x l ih =>
    obtain ⟨first, later⟩ := List.pairwise_cons.mp upward
    rw [List.findIdx_cons]
    cases holds : p x with
    | true =>
      have all : (x :: l).filter p = x :: l := by
        rw [List.filter_eq_self]
        intro a mem
        cases List.mem_cons.mp mem with
        | inl same => exact same ▸ holds
        | inr inside => exact first a inside holds
      rw [all]
      rfl
    | false =>
      rw [List.filter_cons_of_neg (by simp [holds])]
      exact ih later

section Ordered

variable [Std.TransCmp cmp] {l : List α}

/-- Once after a position, always after it. -/
theorem upward_of_pairwise {cur : Option κ}
    (sorted : l.Pairwise fun a b => (cmp (key a) (key b)).isLE) :
    l.Pairwise fun a b => isAfter cmp key cur a → isAfter cmp key cur b := by
  apply sorted.imp
  intro a b le after
  cases cur with
  | none => rfl
  | some k =>
    simp only [isAfter, Option.all_some, decide_eq_true_eq] at after ⊢
    exact Std.TransCmp.lt_of_lt_of_isLE after le

theorem drop_findIdx {cur : Option κ} (sorted : l.Pairwise fun a b => (cmp (key a) (key b)).isLE) :
    l.drop (l.findIdx (isAfter cmp key cur)) = rest cmp key cur l :=
  drop_findIdx_eq_filter (upward_of_pairwise cmp key sorted)

/-- A page that is not the last one is followed by what is left after its last element. -/
theorem rest_eq_take_append {cur : Option κ} {n : Nat} {last : α}
    (sorted : l.Pairwise fun a b => cmp (key a) (key b) = .lt)
    (ends : ((rest cmp key cur l).take n).getLast? = some last) :
    rest cmp key cur l = (rest cmp key cur l).take n ++ rest cmp key (some (key last)) l := by
  have strict : (rest cmp key cur l).Pairwise fun a b => cmp (key a) (key b) = .lt :=
    sorted.filter _
  obtain ⟨before, page⟩ := List.getLast?_eq_some_iff.mp ends
  have split := List.take_append_drop n (rest cmp key cur l)
  have ordered := split.symm ▸ strict
  obtain ⟨inPage, inRest, across⟩ := List.pairwise_append.mp ordered
  -- The elements of the page are not after its last one; those behind it are.
  have none : ((rest cmp key cur l).take n).filter (isAfter cmp key (some (key last))) = [] := by
    rw [List.filter_eq_nil_iff]
    intro x mem after
    simp only [isAfter, Option.all_some, decide_eq_true_eq] at after
    rw [page] at mem inPage
    cases List.mem_append.mp mem with
    | inl earlier =>
      have lt := (List.pairwise_append.mp inPage).2.2 x earlier last (List.mem_singleton_self last)
      rw [show cmp (key last) (key x) = (cmp (key x) (key last)).swap from
        Std.OrientedCmp.eq_swap, lt] at after
      cases after
    | inr same =>
      rw [List.mem_singleton.mp same,
        show cmp (key last) (key last) = .eq from Std.ReflCmp.compare_self] at after
      cases after
  have all : ((rest cmp key cur l).drop n).filter (isAfter cmp key (some (key last))) =
      (rest cmp key cur l).drop n := by
    rw [List.filter_eq_self]
    intro x mem
    simp only [isAfter, Option.all_some, decide_eq_true_eq]
    exact across last (page ▸ List.mem_append_right before (List.mem_singleton_self last)) x mem
  -- What is after the last element is after the position too.
  have narrowed : rest cmp key (some (key last)) l =
      (rest cmp key cur l).filter (isAfter cmp key (some (key last))) := by
    rw [rest, rest, List.filter_filter]
    apply List.filter_congr
    intro x _
    cases after : isAfter cmp key (some (key last)) x with
    | false => rfl
    | true =>
      have inside : last ∈ rest cmp key cur l := by
        apply List.mem_of_mem_take (i := n)
        exact page ▸ List.mem_append_right before (List.mem_singleton_self last)
      have lastAfter := (List.mem_filter.mp inside).2
      cases cur with
      | none => rfl
      | some k =>
        simp only [isAfter, Option.all_some, decide_eq_true_eq] at after lastAfter ⊢
        simp [Std.TransCmp.lt_trans lastAfter after]
  have kept := congrArg (List.filter (isAfter cmp key (some (key last)))) split
  rw [List.filter_append, none, List.nil_append, all] at kept
  rw [narrowed, ← kept, split]

/-! ### Walking the pages -/

/-- The pages that repeated calls give, from a token on, until one gives no further token. The
number counts the calls made before. -/
inductive Walk {ε τ β : Type} (call : Nat → Option τ → Except ε (List β × Option τ)) :
    Nat → Option τ → List (List β) → Prop where
  | last {i : Nat} {token : Option τ} {page : List β} (got : call i token = .ok (page, none)) :
      Walk call i token [page]
  | next {i : Nat} {token : Option τ} {page : List β} {token' : τ} {pages : List (List β)}
      (got : call i token = .ok (page, some token')) (later : Walk call (i + 1) (some token') pages) :
      Walk call i token (page :: pages)

/-- Calls that each give the next page of a strictly ordered list, and a token for the position
behind it as long as something is left, walk through the list. The calls need to do so for the first
page and for the pages that the list has. -/
theorem exists_walk {ε τ β : Type} {call : Nat → Option τ → Except ε (List β × Option τ)}
    {view : α → β} {n : Nat} (sorted : l.Pairwise fun a b => cmp (key a) (key b) = .lt)
    (Reads : Nat → Option τ → Option κ → Prop)
    (step : ∀ i token cur, Reads i token cur → (i = 0 ∨ i * n < l.length) →
      ∃ next, call i token = .ok (((rest cmp key cur l).take n).map view, next) ∧
        match next with
        | none => (rest cmp key cur l).length ≤ n
        | some token' => n < (rest cmp key cur l).length ∧
            ∃ last, ((rest cmp key cur l).take n).getLast? = some last ∧
              Reads (i + 1) (some token') (some (key last))) {token : Option τ}
    (start : Reads 0 token none) :
    ∃ pages, Walk call 0 token pages ∧ pages.flatten = l.map view := by
  suffices tiles : ∀ m i token cur, (rest cmp key cur l).length = m → Reads i token cur →
      i * n + m = l.length → (i = 0 ∨ i * n < l.length) →
      ∃ pages, Walk call i token pages ∧ pages.flatten = (rest cmp key cur l).map view by
    obtain ⟨pages, walked, tiled⟩ := tiles l.length 0 token none (by rw [rest_none]) start
      (by simp) (.inl rfl)
    exact ⟨pages, walked, by rwa [rest_none] at tiled⟩
  -- Every page that is not the last one leaves `n` elements less.
  intro m
  induction m using Nat.strong_induction_on with
  | _ m ih =>
    intro i token cur left start counted asked
    obtain ⟨next, got, onward⟩ := step i token cur start asked
    cases next with
    | none =>
      refine ⟨_, .last got, ?_⟩
      rw [List.flatten_singleton, List.take_of_length_le onward]
    | some token' =>
      obtain ⟨more, last, ends, start'⟩ := onward
      have split := rest_eq_take_append cmp key sorted ends
      have page : ((rest cmp key cur l).take n).length = n := by
        rw [List.length_take]
        omega
      have positive : 0 < n := by
        obtain ⟨before, eq⟩ := List.getLast?_eq_some_iff.mp ends
        rw [← page, eq]
        simp
      have fewer : n + (rest cmp key (some (key last)) l).length = m := by
        rw [← left, ← page, ← List.length_append, ← split]
      have counted' : (i + 1) * n + (rest cmp key (some (key last)) l).length = l.length := by
        rw [Nat.succ_mul]
        omega
      obtain ⟨pages, walked, tiled⟩ := ih _ (by omega) (i + 1) (some token') (some (key last)) rfl
        start' counted' (.inr (by omega))
      refine ⟨_, .next got walked, ?_⟩
      rw [List.flatten_cons, tiled, ← List.map_append, ← split]

end Ordered

end Paging
