import Mathlib.Data.List.Induction
import Mathlib.Data.List.Perm.Basic
import Mathlib.Order.Defs.LinearOrder
import Prism.Lib.Fallible
import Std.Data.ExtTreeMap
import Std.Data.ExtTreeMap.Lemmas

/-!
Maps iterated in key order, folds that keep one accumulator per key, and the reconciliation of
elements that share a key by a "supersedes" test.
-/

/-- A map iterated in the order of its keys. -/
abbrev BTreeMap (κ ν : Type) [Ord κ] := Std.ExtTreeMap κ ν compare

namespace OrderedMap

open Std (TransOrd LawfulEqOrd LawfulEqCmp ExtTreeMap)

variable {α β κ : Type} [Ord κ] [TransOrd κ] [LawfulEqOrd κ] [DecidableEq κ] {m : BTreeMap κ β}
  {k : κ} {b : β}

omit [DecidableEq κ] in
theorem getElem?_insert_of_ne {asked : κ} (other : k ≠ asked) :
    (m.insert k b)[asked]? = m[asked]? := by
  rw [Std.ExtTreeMap.getElem?_insert, if_neg]
  exact fun same => other (LawfulEqCmp.compare_eq_iff_eq.mp same)

omit [DecidableEq κ] in
theorem of_getElem?_insert {asked : κ} {b' : β} (found : (m.insert k b)[asked]? = some b') :
    asked = k ∧ b' = b ∨ m[asked]? = some b' := by
  by_cases same : k = asked
  · subst same
    rw [Std.ExtTreeMap.getElem?_insert_self] at found
    exact .inl ⟨rfl, (Option.some.inj found).symm⟩
  · exact .inr (getElem?_insert_of_ne same ▸ found)

omit [LawfulEqOrd κ] [DecidableEq κ] in
theorem contains_of_getElem? (held : m[k]? = some b) : m.contains k = true := by
  rw [Std.ExtTreeMap.contains_eq_isSome_getElem?, held]
  rfl

omit [LawfulEqOrd κ] [DecidableEq κ] in
theorem mem_of_getElem? (held : m[k]? = some b) : k ∈ m :=
  Std.ExtTreeMap.contains_iff_mem.mp (contains_of_getElem? held)

omit [DecidableEq κ] in
theorem getElem?_erase_of_ne {asked : κ} (other : k ≠ asked) : (m.erase k)[asked]? = m[asked]? := by
  rw [Std.ExtTreeMap.getElem?_erase, if_neg]
  exact fun same => other (LawfulEqCmp.compare_eq_iff_eq.mp same)

theorem insert_insert {b' : β} : (m.insert k b).insert k b' = m.insert k b' := by
  refine Std.ExtTreeMap.ext_getElem? fun {asked} => ?_
  by_cases same : k = asked
  · subst same
    rw [Std.ExtTreeMap.getElem?_insert_self, Std.ExtTreeMap.getElem?_insert_self]
  · rw [getElem?_insert_of_ne same, getElem?_insert_of_ne same, getElem?_insert_of_ne same]

theorem erase_insert : (m.insert k b).erase k = m.erase k := by
  refine Std.ExtTreeMap.ext_getElem? fun {asked} => ?_
  by_cases same : k = asked
  · subst same
    rw [Std.ExtTreeMap.getElem?_erase_self, Std.ExtTreeMap.getElem?_erase_self]
  · rw [getElem?_erase_of_ne same, getElem?_insert_of_ne same, getElem?_erase_of_ne same]

/-- Inserting what is there changes nothing. -/
theorem insert_same (there : m[k]? = some b) : m.insert k b = m := by
  refine Std.ExtTreeMap.ext_getElem? fun {asked} => ?_
  by_cases same : k = asked
  · subst same
    rw [there, Std.ExtTreeMap.getElem?_insert_self]
  · exact getElem?_insert_of_ne same

theorem insert_comm {k' : κ} {b' : β} (other : k ≠ k') :
    (m.insert k b).insert k' b' = (m.insert k' b').insert k b := by
  refine Std.ExtTreeMap.ext_getElem? fun {asked} => ?_
  by_cases first : k = asked
  · subst first
    rw [getElem?_insert_of_ne (Ne.symm other), Std.ExtTreeMap.getElem?_insert_self,
      Std.ExtTreeMap.getElem?_insert_self]
  · rw [getElem?_insert_of_ne first]
    by_cases second : k' = asked
    · subst second
      rw [Std.ExtTreeMap.getElem?_insert_self, Std.ExtTreeMap.getElem?_insert_self]
    · rw [getElem?_insert_of_ne second, getElem?_insert_of_ne second, getElem?_insert_of_ne first]

theorem insert_erase (there : m[k]? = some b) : (m.erase k).insert k b = m := by
  refine Std.ExtTreeMap.ext_getElem? fun {asked} => ?_
  by_cases same : k = asked
  · subst same
    rw [Std.ExtTreeMap.getElem?_insert_self, there]
  · rw [getElem?_insert_of_ne same, getElem?_erase_of_ne same]

theorem erase_of_none (absent : m[k]? = none) : m.erase k = m := by
  refine Std.ExtTreeMap.ext_getElem? fun {asked} => ?_
  by_cases same : k = asked
  · subst same
    rw [Std.ExtTreeMap.getElem?_erase_self, absent]
  · exact getElem?_erase_of_ne same

omit [DecidableEq κ] in
/-- The order of the keys follows from which they are. -/
theorem keys_eq_of_mem_iff {γ : Type} {m' : BTreeMap κ γ} (same : ∀ k, k ∈ m ↔ k ∈ m') :
    m.keys = m'.keys := by
  have erased : m.map (fun _ _ => ()) = m'.map fun _ _ => () := by
    refine Std.ExtTreeMap.ext_getElem? fun k => ?_
    rw [Std.ExtTreeMap.getElem?_map, Std.ExtTreeMap.getElem?_map]
    have both := same k
    rw [Std.ExtTreeMap.mem_iff_isSome_getElem?, Std.ExtTreeMap.mem_iff_isSome_getElem?] at both
    cases left : m[k]? <;> cases right : m'[k]? <;> simp_all
  rw [← Std.ExtTreeMap.keys_map (t := m), erased, Std.ExtTreeMap.keys_map]

omit [DecidableEq κ] in
/-- A map whose values are a function of their keys. -/
theorem toList_eq_map_keys {f : κ → β} (held : ∀ k b, m[k]? = some b → b = f k) :
    m.toList = m.keys.map fun k => (k, f k) := by
  rw [← Std.ExtTreeMap.map_fst_toList_eq_keys, List.map_map]
  refine (List.map_id _).symm.trans (List.map_congr_left fun ⟨k, b⟩ mem => ?_)
  rw [held k b (ExtTreeMap.mem_toList_iff_getElem?_eq_some.mp mem)]
  rfl

variable (key : α → κ) (init : β)

/-- Fold every element into the accumulator of its key. -/
def foldInto (step : β → α → β) (m : BTreeMap κ β) (xs : List α) :
    BTreeMap κ β :=
  xs.foldl (fun m x => m.alter (key x) fun found => some (step (found.getD init) x)) m

def foldBy (step : β → α → β) (xs : List α) : BTreeMap κ β :=
  foldInto key init step ∅ xs

theorem getElem?_foldInto (step : β → α → β) (m : BTreeMap κ β) (xs : List α) (k : κ) :
    (foldInto key init step m xs)[k]? =
      if xs.filter (key · = k) = [] then m[k]?
      else some ((xs.filter (key · = k)).foldl step (m[k]?.getD init)) := by
  induction xs generalizing m with
  | nil => simp [foldInto]
  | cons x xs ih =>
    have unfolded : foldInto key init step m (x :: xs) =
        foldInto key init step (m.alter (key x) fun found => some (step (found.getD init) x)) xs :=
      rfl
    rw [unfolded, ih, ExtTreeMap.getElem?_alter]
    by_cases same : key x = k
    · subst same
      by_cases none : xs.filter (key · = key x) = []
      · simp [none]
      · simp [none]
    · simp [same, LawfulEqCmp.compare_eq_iff_eq]

/-- Each key's accumulator is the fold of the elements with that key, in their order. -/
theorem getElem?_foldBy (step : β → α → β) (xs : List α) (k : κ) : (foldBy key init step xs)[k]? =
      if xs.filter (key · = k) = [] then none
      else some ((xs.filter (key · = k)).foldl step init) := by
  have found := getElem?_foldInto key init step ∅ xs k
  rwa [ExtTreeMap.getElem?_empty, Option.getD_none] at found

theorem mem_foldBy_iff (step : β → α → β) (xs : List α) (k : κ) (b : β) :
    (k, b) ∈ (foldBy key init step xs).toList ↔
      (∃ x ∈ xs, key x = k) ∧ b = (xs.filter (key · = k)).foldl step init := by
  rw [ExtTreeMap.mem_toList_iff_getElem?_eq_some, getElem?_foldBy]
  by_cases empty : xs.filter (key · = k) = []
  · simp only [empty, if_true, reduceCtorEq, false_iff, not_and]
    rintro ⟨x, mem, same⟩
    exact absurd (List.filter_eq_nil_iff.mp empty x mem) (by simp [same])
  · obtain ⟨x, inside⟩ := List.exists_mem_of_ne_nil _ empty
    rw [List.mem_filter] at inside
    have present : ∃ x ∈ xs, key x = k := ⟨x, inside.1, by simpa using inside.2⟩
    rw [if_neg empty, Option.some_inj]
    exact ⟨fun same => ⟨present, same.symm⟩, fun both => both.2.symm⟩

/-- The accumulators stand in the order of their keys. -/
theorem toList_foldBy (step : β → α → β) (xs : List α) :
    (foldBy key init step xs).toList = (foldBy key init step xs).keys.map fun k =>
      (k, (xs.filter (key · = k)).foldl step init) := by
  refine toList_eq_map_keys fun k b found => ?_
  rw [← ExtTreeMap.mem_toList_iff_getElem?_eq_some, mem_foldBy_iff] at found
  exact found.2

/-! ### Grouping -/

/-- The elements of each key, in their order. -/
def groupBy (xs : List α) : BTreeMap κ (List α) :=
  foldBy key [] (fun group x => group ++ [x]) xs

private theorem foldl_snoc (xs acc : List α) :
    xs.foldl (fun group x => group ++ [x]) acc = acc ++ xs := by
  induction xs generalizing acc with
  | nil => simp
  | cons x xs ih => simp [ih]

theorem mem_groupBy_iff (xs : List α) (k : κ) (group : List α) :
    (k, group) ∈ (groupBy key xs).toList ↔
      (∃ x ∈ xs, key x = k) ∧ group = xs.filter (key · = k) := by
  rw [groupBy, mem_foldBy_iff, foldl_snoc, List.nil_append]

/-- Every element is in the group of its key. -/
theorem exists_group (xs : List α) {x : α} (mem : x ∈ xs) :
    ∃ group, (key x, group) ∈ (groupBy key xs).toList ∧ x ∈ group :=
  ⟨_, (mem_groupBy_iff key xs (key x) _).mpr ⟨⟨x, mem, rfl⟩, rfl⟩, by simp [mem]⟩

/-- A group has an element, and its elements have its key. -/
theorem of_mem_groupBy {key : α → κ} {xs : List α} {group : List α}
    (mem : (k, group) ∈ (groupBy key xs).toList) :
    group ≠ [] ∧ ∀ x ∈ group, x ∈ xs ∧ key x = k := by
  obtain ⟨⟨x, inside, own⟩, rfl⟩ := (mem_groupBy_iff key xs k group).mp mem
  constructor
  · apply List.ne_nil_of_mem (a := x)
    simp [inside, own]
  · intro y kept
    simpa using kept

omit [LawfulEqOrd κ] [DecidableEq κ] in
theorem nodup_keys (m : BTreeMap κ β) : (m.toList.map Prod.fst).Nodup := by
  rw [List.nodup_iff_pairwise_ne, List.pairwise_map]
  refine m.distinct_keys_toList.imp ?_
  intro a b differ same
  exact differ (by simp [same])

omit [Ord κ] [TransOrd κ] [LawfulEqOrd κ] in
private theorem filter_fst_eq_singleton {xs : List (κ × β)} (nodup : (xs.map Prod.fst).Nodup)
    (mem : (k, b) ∈ xs) : xs.filter (·.1 = k) = [(k, b)] := by
  induction xs with
  | nil => simp at mem
  | cons x xs ih =>
    obtain ⟨fresh, nodup⟩ := List.nodup_cons.mp nodup
    rcases List.mem_cons.mp mem with rfl | inside
    · have others : xs.filter (·.1 = k) = [] := by
        refine List.filter_eq_nil_iff.mpr fun y within => ?_
        simp only [decide_eq_true_eq]
        intro same
        exact fresh (List.mem_map.mpr ⟨y, within, same⟩)
      simp [others]
    · have differ : x.1 ≠ k := fun same => fresh (List.mem_map.mpr ⟨(k, b), inside, same.symm⟩)
      simp [differ, ih nodup inside]

/-- The entries of one key are the one that the map holds. -/
theorem toList_filter_key (m : BTreeMap κ β) (k : κ) :
    m.toList.filter (·.1 = k) = (m[k]?.map (k, ·)).toList := by
  cases found : m[k]? with
  | none =>
    refine List.filter_eq_nil_iff.mpr fun entry mem => ?_
    simp only [decide_eq_true_eq]
    rintro rfl
    have held := ExtTreeMap.mem_toList_iff_getElem?_eq_some.mp mem
    simp [found] at held
  | some b =>
    exact filter_fst_eq_singleton (nodup_keys m)
      (ExtTreeMap.mem_toList_iff_getElem?_eq_some.mpr found)

omit [Ord κ] [TransOrd κ] [LawfulEqOrd κ] in
private theorem flatMap_filter_perm (xs : List α) (ks : List κ) (nodup : ks.Nodup) :
    (ks.flatMap fun k => xs.filter (key · = k)).Perm (xs.filter (key · ∈ ks)) := by
  induction ks with
  | nil => simp
  | cons k ks ih =>
    obtain ⟨fresh, nodup⟩ := List.nodup_cons.mp nodup
    -- The elements of `k :: ks` are those of `k` and those of the other keys.
    have mine : (xs.filter (key · ∈ k :: ks)).filter (key · = k) = xs.filter (key · = k) := by
      rw [List.filter_filter]
      refine List.filter_congr fun x _ => ?_
      by_cases same : key x = k <;> simp [same]
    have others : (xs.filter (key · ∈ k :: ks)).filter (fun x => !decide (key x = k)) =
        xs.filter (key · ∈ ks) := by
      rw [List.filter_filter]
      refine List.filter_congr fun x _ => ?_
      by_cases same : key x = k <;> simp [same, fresh]
    have parts := List.filter_append_perm (key · = k) (xs.filter (key · ∈ k :: ks))
    rw [mine, others] at parts
    exact (List.Perm.append_left _ (ih nodup)).trans parts

/-- Grouping moves elements but neither loses nor repeats one. -/
theorem groupBy_perm (xs : List α) : ((groupBy key xs).toList.flatMap Prod.snd).Perm xs := by
  have groups : (groupBy key xs).toList.flatMap Prod.snd =
      ((groupBy key xs).toList.map Prod.fst).flatMap fun k => xs.filter (key · = k) := by
    rw [List.flatMap_map]
    refine List.flatMap_congr fun entry mem => ?_
    exact ((mem_groupBy_iff key xs entry.1 entry.2).mp mem).2
  rw [groups]
  refine (flatMap_filter_perm key xs _ (nodup_keys _)).trans (.of_eq ?_)
  rw [List.filter_eq_self]
  intro x mem
  obtain ⟨group, inside, _⟩ := exists_group key xs mem
  exact decide_eq_true (List.mem_map_of_mem (f := Prod.fst) inside)

/-! ### Loops over groups -/

section Loops

variable {ε : Type} {key : α → κ} {xs : List α} {step : α → Except ε β}
  {inGroup : κ × List α → Except ε (List β)}

/-- A loop over the groups whose steps are loops over their elements is a loop over the elements, up
to the order of what it gives. -/
theorem mapM_groupBy_eq_ok (each : ∀ k group, (k, group) ∈ (groupBy key xs).toList →
      ∀ ys, inGroup (k, group) = .ok ys ↔ group.mapM step = .ok ys)
    {yss : List (List β)} (ran : (groupBy key xs).toList.mapM inGroup = .ok yss) :
    ∃ ys, xs.mapM step = .ok ys ∧ yss.flatten.Perm ys := by
  have pointwise : List.Forall₂ (List.Forall₂ fun x y => step x = .ok y)
      ((groupBy key xs).toList.map Prod.snd) yss := by
    rw [List.forall₂_map_left_iff]
    apply Fallible.forall₂_of_mapM_eq_ok ran
    rintro ⟨k, group⟩ mem ys got
    exact Fallible.mapM_eq_ok.mp ((each k group mem ys).mp got)
  have flat := List.rel_flatten pointwise
  rw [← List.flatMap_def] at flat
  obtain ⟨ys, ran', same⟩ := List.perm_comp_forall₂ (groupBy_perm key xs).symm flat
  exact ⟨ys, Fallible.mapM_eq_ok.mpr ran', same.symm⟩

end Loops

/-! ### Maps from pairs -/

variable {pairs : List (κ × β)}

omit [DecidableEq κ] in
/-- What a map built from pairs holds was among them. -/
theorem mem_of_getElem?_foldl_insert
    (found : (pairs.foldl (fun m (p : κ × β) => m.insert p.1 p.2) m)[k]? = some b) :
    (k, b) ∈ pairs ∨ m[k]? = some b := by
  induction pairs generalizing m with
  | nil => exact .inr found
  | cons p pairs ih =>
    rcases ih found with later | held
    · exact .inl (List.mem_cons_of_mem p later)
    · rw [Std.ExtTreeMap.getElem?_insert] at held
      split at held
      · rename_i same
        obtain rfl : p.1 = k := Std.LawfulEqOrd.eq_of_compare same
        cases held
        exact .inl List.mem_cons_self
      · exact .inr held

omit [DecidableEq κ] in
/-- A map built from pairs holds each of their keys. -/
theorem getElem?_foldl_insert_isSome (mem : k ∈ pairs.map Prod.fst ∨ k ∈ m) :
    ((pairs.foldl (fun m (p : κ × β) => m.insert p.1 p.2) m)[k]?).isSome := by
  induction pairs generalizing m with
  | nil => simpa using mem
  | cons p pairs ih =>
    apply ih
    simp only [List.map_cons, List.mem_cons] at mem
    rcases mem with (rfl | later) | held
    · simp
    · exact .inl later
    · simp [held]

omit [DecidableEq κ] in
omit [DecidableEq κ] in
theorem mem_foldl_insert {ks : List κ} {m : BTreeMap κ Unit} :
    k ∈ ks.foldl (fun m k => m.insert k ()) m ↔ k ∈ ks ∨ k ∈ m := by
  induction ks generalizing m with
  | nil => simp
  | cons k' ks ih =>
    rw [List.foldl_cons, ih, List.mem_cons, ExtTreeMap.mem_insert,
      Std.LawfulEqCmp.compare_eq_iff_eq, eq_comm (a := k'), or_left_comm, or_assoc]

/-! ### Reconciliation -/

section Reconcile

variable (beats : α → α → Bool)

/-- The element kept after `x` has been offered against the one held so far. -/
def offer (held : Option α) (x : α) : Option α :=
  match held with
  | none => some x
  | some old => if beats x old then some x else some old

/-- The element left when all of them have been offered in order. -/
def winner (xs : List α) : Option α := xs.foldl (offer beats) none

variable (key : α → κ)

/-- Offer an element to the slot of its key. -/
def offerInto (m : BTreeMap κ α) (x : α) : BTreeMap κ α :=
  match m[key x]? with
  | some old => if beats x old then m.insert (key x) x else m
  | none => m.insert (key x) x

def reconcile (xs : List α) : BTreeMap κ α := xs.foldl (offerInto beats key) ∅

variable {beats}

omit [DecidableEq κ] in
theorem getElem?_offerInto (m : BTreeMap κ α) (x : α) (k : κ) : (offerInto beats key m x)[k]? =
      if compare (key x) k = .eq then offer beats m[k]? x else m[k]? := by
  by_cases same : compare (key x) k = .eq
  · obtain rfl := LawfulEqCmp.eq_of_compare same
    cases held : m[key x]? with
    | none => simp [offerInto, offer, held]
    | some old => by_cases wins : beats x old <;> simp [offerInto, offer, held, wins]
  · cases held : m[key x]? with
    | none => simp [offerInto, held, ExtTreeMap.getElem?_insert, same]
    | some old => by_cases wins : beats x old <;>
        simp [offerInto, held, wins, ExtTreeMap.getElem?_insert, same]

theorem getElem?_reconcile (xs : List α) (k : κ) :
    (reconcile beats key xs)[k]? = winner beats (xs.filter (key · = k)) := by
  have general : ∀ (xs : List α) (m : BTreeMap κ α),
      (xs.foldl (offerInto beats key) m)[k]? =
        (xs.filter (key · = k)).foldl (offer beats) m[k]? := by
    intro xs
    induction xs with
    | nil => simp
    | cons x xs ih =>
      intro m
      rw [List.foldl_cons, ih, getElem?_offerInto]
      by_cases same : key x = k
      · simp [same]
      · simp [same, LawfulEqCmp.compare_eq_iff_eq]
  simpa [reconcile, winner] using general xs ∅

/-- `beats` orders by a key in a linear order: it holds of a strictly larger one. -/
def OrdersBy {ρ : Type} [LinearOrder ρ] (beats : α → α → Bool) (rank : α → ρ) : Prop :=
  ∀ new old, beats new old = true ↔ rank old < rank new

variable {ρ : Type}

private theorem foldl_offer_max [LinearOrder ρ] {rank : α → ρ} (orders : OrdersBy beats rank)
    (xs : List α) (held : α) :
    ∃ best, xs.foldl (offer beats) (some held) = some best ∧ (best = held ∨ best ∈ xs) ∧
      rank held ≤ rank best ∧ ∀ x ∈ xs, rank x ≤ rank best := by
  induction xs generalizing held with
  | nil => exact ⟨held, rfl, .inl rfl, le_rfl, by simp⟩
  | cons x xs ih =>
    by_cases wins : beats x held
    · obtain ⟨best, kept, among, above, most⟩ := ih x
      refine ⟨best, by simpa [offer, wins] using kept, ?_, ?_, ?_⟩
      · rcases among with rfl | inside
        · exact .inr (by simp)
        · exact .inr (by simp [inside])
      · exact le_trans (le_of_lt ((orders x held).mp wins)) above
      · rintro y (_ | ⟨_, inside⟩)
        · exact above
        · exact most y inside
    · obtain ⟨best, kept, among, above, most⟩ := ih held
      have below : rank x ≤ rank held := not_lt.mp fun less => wins ((orders x held).mpr less)
      refine ⟨best, by simpa [offer, wins] using kept, ?_, above, ?_⟩
      · rcases among with rfl | inside
        · exact .inl rfl
        · exact .inr (by simp [inside])
      · rintro y (_ | ⟨_, inside⟩)
        · exact le_trans below above
        · exact most y inside

variable {xs : List α}

/-- The winner is one of the elements, and none ranks above it. -/
theorem winner_max [LinearOrder ρ] {rank : α → ρ} (orders : OrdersBy beats rank) {best : α}
    (won : winner beats xs = some best) : best ∈ xs ∧ ∀ x ∈ xs, rank x ≤ rank best := by
  cases xs with
  | nil => simp [winner] at won
  | cons x xs =>
    obtain ⟨found, kept, among, above, most⟩ := foldl_offer_max orders xs x
    have same : best = found := by
      have offered : winner beats (x :: xs) = xs.foldl (offer beats) (some x) := rfl
      rw [offered, kept] at won
      exact (Option.some.inj won).symm
    subst same
    refine ⟨by rcases among with rfl | inside <;> simp [*], ?_⟩
    rintro y (_ | ⟨_, inside⟩)
    · exact above
    · exact most y inside

theorem winner_isSome_iff : (winner beats xs).isSome ↔ xs ≠ [] := by
  have stays : ∀ (xs : List α) (held : Option α), held.isSome →
      (xs.foldl (offer beats) held).isSome := by
    intro xs
    induction xs with
    | nil => exact fun _ some => some
    | cons x xs ih =>
      intro held _
      refine ih _ ?_
      cases held with
      | none => rfl
      | some old => by_cases wins : beats x old <;> simp [offer, wins]
  cases xs with
  | nil => simp [winner]
  | cons x xs => simpa [winner, offer] using stays xs (some x) rfl

/-- Among elements of one rank the first one offered stays. -/
theorem winner_eq_head [LinearOrder ρ] {rank : α → ρ} (orders : OrdersBy beats rank) (x : α)
    (xs : List α) (most : ∀ y ∈ xs, rank y ≤ rank x) : winner beats (x :: xs) = some x := by
  have stays : ∀ ys : List α, (∀ y ∈ ys, rank y ≤ rank x) →
      ys.foldl (offer beats) (some x) = some x := by
    intro ys
    induction ys with
    | nil => simp
    | cons y ys ih =>
      intro most
      have loses : ¬ beats y x := fun wins =>
        absurd ((orders y x).mp wins) (not_lt.mpr (most y (by simp)))
      simpa [offer, loses] using ih fun z inside => most z (by simp [inside])
  exact stays xs most

section Smallest

variable [LinearOrder ρ] {rank : α → ρ}
  (weak : ∀ new old, beats new old = true ↔ rank new ≤ rank old)
include weak

/-- A rule that keeps the smallest joins the winners of two lists as it would join the lists. -/
theorem winner_append (xs ys : List α) : winner beats (xs ++ ys) =
    (winner beats ys).elim (winner beats xs) (offer beats (winner beats xs)) := by
  induction ys using List.reverseRecOn with
  | nil => simp [winner]
  | append_singleton ys z ih =>
    have snoc (l : List α) : winner beats (l ++ [z]) = offer beats (winner beats l) z :=
      List.foldl_concat ..
    rw [← List.append_assoc, snoc, snoc, ih]
    cases winner beats ys with
    | none => rfl
    | some y =>
      cases winner beats xs with
      | none => by_cases later : beats z y <;> simp [offer, later]
      | some x =>
        by_cases later : beats z y <;> by_cases first : beats y x
        · have both : beats z x := by grind
          simp [offer, later, first, both]
        · simp [offer, later, first]
        · simp [offer, later, first]
        · have neither : ¬ beats z x := by grind
          simp [offer, later, first, neither]

theorem winner_min {best : α} (won : winner beats xs = some best) :
    best ∈ xs ∧ ∀ x ∈ xs, rank best ≤ rank x := by
  induction xs using List.reverseRecOn generalizing best with
  | nil => simp [winner] at won
  | append_singleton xs z ih =>
    rw [winner, List.foldl_concat, ← winner] at won
    have none (empty : winner beats xs = none) : xs = [] := by
      simpa [empty] using @winner_isSome_iff _ beats xs
    simp only [offer] at won
    grind

end Smallest

/-- The order in which elements are offered decides only between different ones of the highest
rank. -/
theorem winner_perm [LinearOrder ρ] {rank : α → ρ} (orders : OrdersBy beats rank) {ys : List α}
    (perm : xs.Perm ys)
    (unique : ∀ a ∈ xs, ∀ b ∈ xs, (∀ x ∈ xs, rank x ≤ rank a) → rank a = rank b → a = b) :
    winner beats xs = winner beats ys := by
  by_cases empty : xs = []
  · subst empty
    rw [List.nil_perm.mp perm]
  · have left : (winner beats xs).isSome := winner_isSome_iff.mpr empty
    have right : (winner beats ys).isSome := winner_isSome_iff.mpr fun none =>
      empty (List.perm_nil.mp (none ▸ perm))
    obtain ⟨a, won⟩ := Option.isSome_iff_exists.mp left
    obtain ⟨b, won'⟩ := Option.isSome_iff_exists.mp right
    obtain ⟨inside, most⟩ := winner_max orders won
    obtain ⟨inside', most'⟩ := winner_max orders won'
    have equal : rank a = rank b :=
      le_antisymm (most' a (perm.mem_iff.mp inside)) (most b (perm.mem_iff.mpr inside'))
    rw [won, won', unique a inside b (perm.mem_iff.mpr inside') most equal]

end Reconcile

end OrderedMap
