import Mathlib.Algebra.BigOperators.Group.Finset.Piecewise
import Mathlib.Algebra.Order.BigOperators.Group.Finset
import Prism.Properties.Screening

/-!
What one tenant of a batch can notice of the others: where its events stand in the interleaved
batch, and what admission answers to them.
-/

namespace Prism

open OrderedMap

/-! ### Rounds -/

section Rounds

variable {p : Event → Bool} {queue : List Event} {pre post : List (List Event)} {fuel : Nat}

theorem takeRounds_cons {e : Event} : takeRounds (fuel + 1) (pre ++ (e :: queue) :: post) =
      pre.filterMap List.head? ++ e :: post.filterMap List.head? ++
        takeRounds fuel (pre.map List.tail ++ queue :: post.map List.tail) := by
  rw [takeRounds]
  simp only [List.filterMap_append, List.map_append, List.map_cons, List.tail_cons,
    List.filterMap_cons, List.head?_cons]
  split
  next none => simp at none
  next => rfl

/-- The heads of queues without an event of the tenant have none either, nor do their tails. -/
theorem filter_heads (others : ∀ q ∈ pre, ∀ e ∈ q, p e = false) :
    (pre.filterMap List.head?).filter p = [] := by
  rw [List.filter_eq_nil_iff]
  intro e mem
  obtain ⟨q, inside, head⟩ := List.mem_filterMap.mp mem
  simp [others q inside e (List.mem_of_head? head)]

theorem others_tails (others : ∀ q ∈ pre, ∀ e ∈ q, p e = false) :
    ∀ q ∈ pre.map List.tail, ∀ e ∈ q, p e = false := by
  rintro _ mem e inside
  obtain ⟨q, old, rfl⟩ := List.mem_map.mp mem
  exact others q old e (List.mem_of_mem_tail inside)

/-- The rounds leave the events of one queue in their order. -/
theorem takeRounds_filter (own : ∀ e ∈ queue, p e = true)
    (before : ∀ q ∈ pre, ∀ e ∈ q, p e = false) (after : ∀ q ∈ post, ∀ e ∈ q, p e = false)
    (enough : queue.length ≤ fuel) : (takeRounds fuel (pre ++ queue :: post)).filter p = queue := by
  induction fuel generalizing pre queue post with
  | zero => simp [takeRounds, List.length_eq_zero_iff.mp (Nat.le_zero.mp enough)]
  | succ fuel ih =>
    have rest : (takeRounds fuel (pre.map List.tail ++ queue.tail :: post.map List.tail)).filter p =
        queue.tail :=
      ih (fun e mem => own e (List.mem_of_mem_tail mem)) (others_tails before)
        (others_tails after) (by rw [List.length_tail]; omega)
    cases queue with
    | nil =>
      rw [takeRounds]
      split
      · rfl
      · rw [List.filter_append, List.filterMap_append, List.filter_append, filter_heads before,
          List.filterMap_cons_none rfl, filter_heads after, List.map_append, List.map_cons]
        exact rest
    | cons e queue =>
      rw [takeRounds_cons, List.filter_append, List.filter_append, filter_heads before,
        List.filter_cons_of_pos (own e List.mem_cons_self), filter_heads after]
      exact congrArg (e :: ·) rest

/-- Where the event `j` of a queue stands: behind the first `j` events of every queue, and behind
the queues before its own that have an event `j`. -/
def roundPosition (pre : List (List Event)) (queue : List Event) (post : List (List Event))
    (j : Nat) : Nat :=
  ((pre ++ queue :: post).map fun q => min q.length j).sum +
    (pre.map fun q => if j < q.length then 1 else 0).sum

variable (queues : List (List Event))

theorem length_heads : (queues.filterMap List.head?).length =
      (queues.map fun q => if 0 < q.length then 1 else 0).sum := by
  induction queues with
  | nil => rfl
  | cons q queues ih => cases q <;> simp [List.filterMap_cons, ih, Nat.add_comm]

/-- One more round puts every queue that has an event one further. -/
theorem sum_tails (j : Nat) : (queues.map fun q => min q.length (j + 1)).sum =
      (queues.filterMap List.head?).length +
        ((queues.map List.tail).map fun q => min q.length j).sum := by
  induction queues with
  | nil => rfl
  | cons q queues ih =>
    cases q with
    | nil => simpa [List.filterMap_cons] using ih
    | cons e q =>
      simp only [List.map_cons, List.sum_cons, ih, List.length_cons, List.tail_cons,
        List.filterMap_cons, List.head?_cons]
      omega

theorem count_tails (j : Nat) :
    ((queues.map List.tail).map fun q => if j < q.length then 1 else 0).sum =
      (queues.map fun q => if j + 1 < q.length then 1 else 0).sum := by
  rw [List.map_map]
  simp [Function.comp_def, Nat.lt_sub_iff_add_lt]

theorem takeRounds_position (own : ∀ e ∈ queue, p e = true)
    (before : ∀ q ∈ pre, ∀ e ∈ q, p e = false) (after : ∀ q ∈ post, ∀ e ∈ q, p e = false)
    (enough : queue.length ≤ fuel) {j : Nat} {e : Event} (here : queue[j]? = some e) :
    ∃ front back, takeRounds fuel (pre ++ queue :: post) = front ++ e :: back ∧
      front.length = roundPosition pre queue post j ∧ front.filter p = queue.take j := by
  induction j generalizing fuel pre queue post with
  | zero =>
    cases queue with
    | nil => cases here
    | cons first queue =>
      cases here
      obtain ⟨fuel, rfl⟩ := Nat.exists_eq_succ_of_ne_zero (n := fuel) (by simp at enough; omega)
      refine ⟨pre.filterMap List.head?, _, by rw [takeRounds_cons, List.append_assoc]; rfl, ?_,
        filter_heads before⟩
      simp [roundPosition, length_heads]
  | succ j ih =>
    cases queue with
    | nil => cases here
    | cons first queue =>
      obtain ⟨fuel, rfl⟩ := Nat.exists_eq_succ_of_ne_zero (n := fuel) (by simp at enough; omega)
      obtain ⟨front, back, taken, length, filtered⟩ := ih
        (fun e mem => own e (List.mem_cons_of_mem _ mem)) (others_tails before)
        (others_tails after) (Nat.le_of_succ_le_succ enough) here
      refine ⟨(pre ++ (first :: queue) :: post).filterMap List.head? ++ front, back, ?_, ?_, ?_⟩
      · rw [takeRounds_cons, taken]
        simp [List.filterMap_append]
      · rw [List.length_append, length, roundPosition, roundPosition, sum_tails, count_tails]
        simp [Nat.add_assoc]
      · rw [List.filterMap_append, List.filterMap_cons_some (f := List.head?) (b := first) rfl,
          List.filter_append, List.filter_append, filter_heads before,
          List.filter_cons_of_pos (own first (by simp)), filter_heads after, filtered]
        rfl

end Rounds

/-! ### Where the events of a tenant stand -/

section Interleaved

variable (events : List Event) (t : String)

def ofTenant : List Event := events.filter (·.tenantId = t)

variable {events t}

/-- The tenant's queue between those of the tenants before and behind it. -/
theorem queues_split (present : ofTenant events t ≠ []) : ∃ pre post : List (String × List Event),
    (groupBy Event.tenantId events).toList = pre ++ (t, ofTenant events t) :: post ∧
      (∀ g ∈ pre, compare g.1 t = .lt) ∧ ∀ g ∈ post, compare t g.1 = .lt := by
  obtain ⟨e, mem⟩ := List.exists_mem_of_ne_nil _ present
  obtain ⟨inside, own⟩ := List.mem_filter.mp mem
  have listed := (mem_groupBy_iff Event.tenantId events t (ofTenant events t)).mpr
    ⟨⟨e, inside, of_decide_eq_true own⟩, rfl⟩
  obtain ⟨pre, post, split⟩ := List.append_of_mem listed
  have ordered := (groupBy Event.tenantId events).ordered_keys_toList
  rw [split, List.pairwise_append, List.pairwise_cons] at ordered
  exact ⟨pre, post, split, fun g inside => ordered.2.2 g inside _ List.mem_cons_self, ordered.2.1.1⟩

/-- The queues of the others have no event of the tenant. -/
theorem others_apart {pre post : List (String × List Event)}
    (split : (groupBy Event.tenantId events).toList =
      pre ++ (t, ofTenant events t) :: post) :
    ∀ g ∈ pre ++ post, ∀ e ∈ g.2, decide (e.tenantId = t) = false := by
  intro g mem e inside
  have listed : g ∈ (groupBy Event.tenantId events).toList := by
    rw [split]
    grind
  have own := ((of_mem_groupBy listed).2 e inside).2
  have keys := nodup_keys (groupBy Event.tenantId events)
  rw [split, List.map_append, List.map_cons, List.nodup_middle, List.nodup_cons,
    ← List.map_append] at keys
  rw [decide_eq_false_iff_not, own]
  rintro rfl
  exact keys.1 (List.mem_map.mpr ⟨g, mem, rfl⟩)

theorem filter_interleaved (t : String) :
    ofTenant (interleaveByTenant events) t = ofTenant events t := by
  by_cases present : ofTenant events t = []
  · rw [present, ofTenant, List.filter_eq_nil_iff]
    intro e mem
    exact List.filter_eq_nil_iff.mp present e ((interleaveByTenant_perm events).mem_iff.mp mem)
  · obtain ⟨pre, post, split, _⟩ := queues_split present
    have others := others_apart split
    rw [ofTenant, interleaveByTenant, split, List.map_append, List.map_cons]
    apply takeRounds_filter
    · simp [ofTenant]
    · rw [List.forall_mem_map]
      exact fun g mem => others g (List.mem_append_left _ mem)
    · rw [List.forall_mem_map]
      exact fun g mem => others g (List.mem_append_right _ mem)
    · exact List.length_filter_le _ _

/-- A sum over the queues is a sum over the tenants. -/
theorem sum_queues (f : String → Nat → Nat) :
    ((groupBy Event.tenantId events).toList.map fun g => f g.1 g.2.length).sum =
      ∑ u ∈ (events.map (·.tenantId)).toFinset, f u (ofTenant events u).length := by
  have keys : (events.map (·.tenantId)).toFinset =
      ((groupBy Event.tenantId events).toList.map Prod.fst).toFinset := by
    ext u
    simp only [List.mem_toFinset, List.mem_map]
    constructor
    · rintro ⟨e, mem, rfl⟩
      obtain ⟨group, listed, _⟩ := exists_group Event.tenantId events mem
      exact ⟨_, listed, rfl⟩
    · rintro ⟨⟨_, group⟩, listed, rfl⟩
      exact ((mem_groupBy_iff _ _ _ _).mp listed).1
  rw [keys, List.sum_toFinset _ (nodup_keys _), List.map_map]
  congr 1
  refine List.map_congr_left fun g listed => ?_
  rw [Function.comp_apply, ((mem_groupBy_iff _ _ g.1 g.2).mp listed).2]
  rfl

def fairPosition (events : List Event) (t : String) (j : Nat) : Nat :=
  ∑ u ∈ (events.map (·.tenantId)).toFinset, min (ofTenant events u).length j +
    ((events.map (·.tenantId)).toFinset.filter fun u =>
      compare u t = .lt ∧ j < (ofTenant events u).length).card

theorem roundPosition_eq {pre post : List (String × List Event)} {j : Nat}
    (split : (groupBy Event.tenantId events).toList =
      pre ++ (t, ofTenant events t) :: post)
    (below : ∀ g ∈ pre, compare g.1 t = .lt) (above : ∀ g ∈ post, compare t g.1 = .lt) :
    roundPosition (pre.map Prod.snd) (ofTenant events t) (post.map Prod.snd) j =
      fairPosition events t j := by
  rw [fairPosition, Finset.card_filter, ← sum_queues fun _ n => min n j,
    ← sum_queues fun u n => if compare u t = .lt ∧ j < n then 1 else 0, roundPosition, split]
  have later : ∀ g ∈ post, ¬ (compare g.1 t = .lt ∧ j < g.2.length) := by
    intro g mem ⟨less, _⟩
    have swapped := Std.OrientedOrd.eq_swap (a := g.1) (b := t)
    rw [less, above g mem] at swapped
    cases swapped
  have none : (post.map fun g => if compare g.1 t = .lt ∧ j < g.2.length then 1 else 0).sum = 0 := by
    rw [List.sum_eq_zero_iff, List.forall_mem_map]
    exact fun g mem => if_neg (later g mem)
  have first : (pre.map fun g => if compare g.1 t = .lt ∧ j < g.2.length then 1 else 0) =
      (pre.map Prod.snd).map fun q => if j < q.length then 1 else 0 := by
    rw [List.map_map]
    refine List.map_congr_left fun g mem => ?_
    simp [below g mem]
  simp [first, none, Function.comp_def]

end Interleaved

/-- **Interleaving is a fair permutation.** It keeps the events of every tenant in their order, and
the event `j` of a tenant stands behind the first `j` events of every tenant and the event `j` of
the tenants before it, so in the round of its number. -/
theorem interleaving_fair (events : List Event) :
    (interleaveByTenant events).Perm events ∧
      (∀ t, ofTenant (interleaveByTenant events) t = ofTenant events t) ∧
      ∀ t j, j < (ofTenant events t).length →
        (interleaveByTenant events)[fairPosition events t j]? = (ofTenant events t)[j]? ∧
          ofTenant ((interleaveByTenant events).take (fairPosition events t j)) t =
            (ofTenant events t).take j ∧
          fairPosition events t j ≤ j * (events.map (·.tenantId)).toFinset.card +
            ((events.map (·.tenantId)).toFinset.card - 1) := by
  refine ⟨interleaveByTenant_perm events, filter_interleaved, fun t j within => ?_⟩
  obtain ⟨pre, post, split, below, above⟩ :=
    queues_split (List.ne_nil_of_length_pos (Nat.zero_lt_of_lt within))
  have others := others_apart split
  obtain ⟨front, back, order, length, filtered⟩ : ∃ front back,
      interleaveByTenant events = front ++ (ofTenant events t)[j] :: back ∧
        front.length = roundPosition (pre.map Prod.snd) (ofTenant events t) (post.map Prod.snd) j ∧
        ofTenant front t = (ofTenant events t).take j := by
    rw [interleaveByTenant, split, List.map_append, List.map_cons]
    exact takeRounds_position (by simp)
      (List.forall_mem_map.mpr fun g mem => others g (List.mem_append_left _ mem))
      (List.forall_mem_map.mpr fun g mem => others g (List.mem_append_right _ mem))
      (List.length_filter_le _ _) (List.getElem?_eq_getElem within)
  rw [roundPosition_eq split below above] at length
  refine ⟨?_, ?_, ?_⟩
  · rw [order, ← length]
    simp
  · rw [order, ← length, List.take_left]
    exact filtered
  · -- Every tenant has at most `j` events in front, and the tenant itself is not before itself.
    have rounds := Finset.sum_le_card_nsmul (events.map (·.tenantId)).toFinset
      (fun u => min (ofTenant events u).length j) j fun u _ => min_le_right _ _
    have present : t ∈ (events.map (·.tenantId)).toFinset := by
      obtain ⟨e, mem⟩ := List.exists_mem_of_length_pos (Nat.zero_lt_of_lt within)
      obtain ⟨inside, own⟩ := List.mem_filter.mp mem
      rw [List.mem_toFinset]
      exact List.mem_map.mpr ⟨e, inside, of_decide_eq_true own⟩
    have among : ((events.map (·.tenantId)).toFinset.filter fun u =>
        compare u t = .lt ∧ j < (ofTenant events u).length) ⊆
        (events.map (·.tenantId)).toFinset.erase t := by
      intro u mem
      obtain ⟨inside, less, _⟩ := Finset.mem_filter.mp mem
      refine Finset.mem_erase.mpr ⟨?_, inside⟩
      rintro rfl
      simp at less
    have fewer := Finset.card_le_card among
    rw [Finset.card_erase_of_mem present] at fewer
    exact Nat.add_le_add (rounds.trans_eq (Nat.mul_comm _ _)) fewer

end Prism
