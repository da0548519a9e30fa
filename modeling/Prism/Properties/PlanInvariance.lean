import Prism.Engine.Search

/-!
The strategy of a scan decides how much of it is computed, not what it collects. Every strategy
offers the rows that pass the mask to the collector, in the order of the probes, except rows the
collector would turn away.
-/

namespace Prism

open Fallible Ranking

/-! ### What a scan offers -/

def Mask.passes (mask : Mask) (row : Nat) : Bool := accepts (fun row => Prod.fst <$> mask row) row

def Mask.Total (mask : Mask) : Prop := ∀ row, ∃ answer, mask row = .ok answer

def ProbedRange.offers (part : Nat) (mask : Mask) (pr : ProbedRange) : List Candidate :=
  ((List.range pr.range.rowCount).filter fun i => mask.passes (pr.range.firstRow + i)).map fun i =>
    ⟨pr.dist i, part, pr.range.firstRow + i⟩

variable (idOf : IdOf)

/-- The collection of a part and of all parts, whatever the strategy: each range that was read
offers its candidates. -/
def collectPart (c : Collector) (p : ProbedPart) : Result Collector :=
  p.ranges.foldlM (fun c read => do
    let pr ← read
    return (pr.offers p.index p.mask).foldl (fun c cand => c.offer idOf cand) c) c

def collectParts (c : Collector) (parts : List (Result ProbedPart)) :
    Result Collector :=
  parts.foldlM (fun c part => do collectPart idOf c (← part)) c

/-! ### Rows that cannot enter -/

/-- The bound of a threshold collector and the distance are numbers, so they compare. -/
def Collector.Compares (dist : F32) : Collector → Prop
  | .bounded _ => True
  | .threshold th => dist.isNan = false ∧ th.relaxedBound.isNan = false

theorem ThresholdCollector.offer_relaxedBound (th : ThresholdCollector) (c : Candidate) :
    (th.offer c).relaxedBound = th.relaxedBound := by
  unfold ThresholdCollector.offer
  split
  · rfl
  · split <;> rfl

variable {c : Collector}

namespace Collector

theorem Compares.offer {dist : F32} (compares : c.Compares dist) (idOf : IdOf) (cand : Candidate) :
    (c.offer idOf cand).Compares dist := by
  cases c with
  | bounded t => trivial
  | threshold th =>
    obtain ⟨number, bound⟩ := compares
    exact ⟨number, (th.offer_relaxedBound cand).symm ▸ bound⟩

theorem Compares.foldl {dist : F32} (idOf : IdOf) (cands : List Candidate)
    (compares : c.Compares dist) :
    (cands.foldl (fun c cand => c.offer idOf cand) c).Compares dist := by
  induction cands generalizing c with
  | nil => exact compares
  | cons cand cands ih => exact ih (compares.offer idOf cand)

/-- Offering a row that the collector would not admit changes nothing. -/
theorem offer_of_not_wouldAdmit {dist : F32} (compares : c.Compares dist)
    (refused : c.wouldAdmit dist = false) (idOf : IdOf) (part row : Nat) :
    c.offer idOf ⟨dist, part, row⟩ = c := by
  cases c with
  | bounded t =>
    simp only [wouldAdmit, TopK.wouldAdmit] at refused
    split at refused
    · cases refused
    · next full =>
      split at refused
      · next root found =>
        -- the worst kept candidate is nearer, so the new one is not an improvement
        have farther : dist.totalCmp root.dist = .gt := by simpa using refused
        simp [offer, TopK.offer, BoundedHeap.offer, full, found, Candidate.worse, farther]
      · cases refused
  | threshold th =>
    have past : dist.above th.relaxedBound = true := by
      rw [F32.above_eq_not_atMost compares.1 compares.2]
      simpa [wouldAdmit] using refused
    simp [offer, ThresholdCollector.offer, past]

end Collector

/-! ### One row, one range, all parts -/

section Scan

variable (strategy : Strategy) (idOf : IdOf) {st : ScanState}

theorem scanRow_collector {part : Nat} {mask : Mask} {pr : ProbedRange} {i : Nat}
    (total : mask.Total) (compares : st.collector.Compares (pr.dist i)) :
    (scanRow strategy idOf part mask pr st i).map ScanState.collector =
      .ok (if mask.passes (pr.range.firstRow + i) then
        st.collector.offer idOf ⟨pr.dist i, part, pr.range.firstRow + i⟩ else st.collector) := by
  obtain ⟨⟨passed, evals⟩, answered⟩ := total (pr.range.firstRow + i)
  have passes : mask.passes (pr.range.firstRow + i) = passed := by
    simp [Mask.passes, accepts, answered]
  simp only [scanRow, passes]
  split
  · next skipped =>
    -- skipped untested: offering it would have changed nothing
    have refused : st.collector.wouldAdmit (pr.dist i) = false := by simpa using skipped.2
    rw [Collector.offer_of_not_wouldAdmit compares refused]
    simp [Except.map]
  · rw [answered]
    cases passed <;> rfl

theorem scanRange_collector {part : Nat} {mask : Mask} {pr : ProbedRange} (total : mask.Total)
    (compares : ∀ i, st.collector.Compares (pr.dist i)) :
    (scanRange strategy idOf part mask st pr).map ScanState.collector =
      .ok ((pr.offers part mask).foldl (fun c cand => c.offer idOf cand) st.collector) := by
  rw [ProbedRange.offers, List.foldl_map, List.foldl_filter, ← foldlM_ok]
  apply map_foldlM (I := fun c => ∀ i, c.Compares (pr.dist i)) (g := ScanState.collector)
  · intro st i _ compares
    exact scanRow_collector strategy idOf total (compares i)
  · intro c i _ c' compares stepped j
    cases stepped
    split
    · exact (compares j).offer idOf _
    · exact compares j
  · exact compares

theorem scanPart_collector {p : ProbedPart} (total : p.mask.Total)
    (compares : ∀ pr, .ok pr ∈ p.ranges → ∀ i, st.collector.Compares (pr.dist i)) :
    (scanPart strategy idOf st p).map ScanState.collector = collectPart idOf st.collector p := by
  apply map_foldlM (g := ScanState.collector)
    (I := fun c => ∀ pr, .ok pr ∈ p.ranges → ∀ i, c.Compares (pr.dist i))
  · intro st read mem compares
    cases read with
    | error e => rfl
    | ok pr => exact scanRange_collector strategy idOf total (compares pr mem)
  · intro c read _ c' compares stepped pr mem i
    obtain ⟨pr', _, rfl⟩ := bind_pure_eq_ok.mp stepped
    exact (compares pr mem i).foldl idOf _
  · exact compares

/-- Each part keeps the bound of the collector comparable with every distance. -/
theorem collectPart_compares {p : ProbedPart} {c' : Collector} {dist : F32}
    (compares : c.Compares dist) (collected : collectPart idOf c p = .ok c') :
    c'.Compares dist := by
  apply foldlM_keeps (I := fun c => c.Compares dist) _ compares collected
  intro c read _ c' compares stepped
  obtain ⟨pr, _, rfl⟩ := bind_pure_eq_ok.mp stepped
  exact compares.foldl idOf _

theorem scanParts_collector {parts : List (Result ProbedPart)}
    (total : ∀ p, .ok p ∈ parts → p.mask.Total)
    (compares : ∀ p, .ok p ∈ parts → ∀ pr, .ok pr ∈ p.ranges → ∀ i,
      st.collector.Compares (pr.dist i)) :
    (scanParts strategy idOf st parts).map ScanState.collector =
      collectParts idOf st.collector parts := by
  apply map_foldlM (g := ScanState.collector)
    (I := fun c => ∀ p, .ok p ∈ parts → ∀ pr, .ok pr ∈ p.ranges → ∀ i, c.Compares (pr.dist i))
  · intro st part mem compares
    cases part with
    | error e => rfl
    | ok p => exact scanPart_collector strategy idOf (total p mem) (compares p mem)
  · intro c part _ c' compares stepped p mem pr inside i
    obtain ⟨p', _, collected⟩ := bind_eq_ok.mp stepped
    exact collectPart_compares idOf (compares p mem pr inside i) collected
  · exact compares

end Scan

def Collector.outcome (c : Collector) : List Candidate × Bool × Nat :=
  (c.intoSorted idOf, c.overflowed, c.overfetch)

/-- **Plan invariance**: the three strategies hand on the same. -/
theorem scan_outcome_of_strategy (strategy : Strategy) (idOf : IdOf)
    (parts : List (Except PrismError ProbedPart)) (start : ScanState)
    (total : ∀ p, .ok p ∈ parts → p.mask.Total)
    (compares : ∀ p, .ok p ∈ parts → ∀ pr, .ok pr ∈ p.ranges → ∀ i,
      start.collector.Compares (pr.dist i)) :
    (scanParts strategy idOf start parts).map (fun st => st.collector.outcome idOf) =
      (scanParts .interleaved idOf start parts).map (fun st => st.collector.outcome idOf) := by
  have split : ∀ s, (scanParts s idOf start parts).map (fun st => st.collector.outcome idOf) =
      (collectParts idOf start.collector parts).map (Collector.outcome idOf) := by
    intro s
    rw [← scanParts_collector s idOf total compares]
    cases scanParts s idOf start parts <;> rfl
  rw [split strategy, split .interleaved]

/-- Three rows of one range, of which the mask passes the first and the last. -/
def threeRows : List (Result ProbedPart) :=
  [.ok ⟨0, 1, 0, fun row => .ok (row % 2 = 0, 1),
    [.ok ⟨⟨0, 0, 3, 0, 3, 0, 12, 0, 0⟩, 3, fun i => if i = 2 then F32.one else F32.two⟩]⟩]

/-- A threshold of one with room for one candidate. -/
def nearOne : ScanState := ⟨.threshold ⟨F32.zero, F32.one, 1, [], 0, false⟩, {}⟩

theorem scan_outcome_of_strategy_threeRows :
    (scanParts .semanticFirst (fun _ _ => "e") nearOne threeRows).map
        (fun st => st.collector.outcome fun _ _ => "e") =
      (scanParts .interleaved (fun _ _ => "e") nearOne threeRows).map
        (fun st => st.collector.outcome fun _ _ => "e") := by
  apply scan_outcome_of_strategy
  · intro p mem row
    obtain rfl := Except.ok.inj (List.mem_singleton.mp mem)
    exact ⟨_, rfl⟩
  · intro p mem pr inside i
    obtain rfl := Except.ok.inj (List.mem_singleton.mp mem)
    obtain rfl := Except.ok.inj (List.mem_singleton.mp inside)
    refine ⟨?_, by decide⟩
    dsimp only
    split <;> decide

/-! ### The nearest candidates -/

instance (idOf : IdOf) : Std.TransCmp (Candidate.worse idOf) :=
  inferInstanceAs (Std.TransCmp (compareLex (compareOn fun c : Candidate => c.dist.totalKey)
    (compareOn fun c => idOf c.part c.row)))

/-- Candidates of different keys do not tie. -/
theorem separates_worse {idOf : IdOf} {offers : List Candidate}
    (distinct : (offers.map fun c => (c.dist, idOf c.part c.row)).Nodup) :
    Separates (Candidate.worse idOf) offers := by
  intro a inA b inB tie
  simp only [Candidate.worse, Ordering.then_eq_eq, Std.LawfulEqCmp.compare_eq_iff_eq] at tie
  exact List.inj_on_of_nodup_map distinct inA inB (Prod.ext tie.1 tie.2)

def TopK.select (cap : Nat) (offers : List Candidate) : List Candidate :=
  (Collector.bounded (offers.foldl (TopK.offer idOf) (.new cap))).intoSorted idOf

theorem TopK.select_eq {idOf : IdOf} (cap : Nat) {offers : List Candidate}
    (sep : Separates (Candidate.worse idOf) offers) :
    TopK.select idOf cap offers = (rank (Candidate.worse idOf) offers).take cap := by
  have heap : ∀ t : TopK, offers.foldl (TopK.offer idOf) t =
      ⟨t.cap, offers.foldl (BoundedHeap.offer (Candidate.worse idOf) t.cap) t.heap⟩ := by
    induction offers with
    | nil => exact fun t => rfl
    | cons c offers ih => exact fun t => ih (sep.subset fun _ => List.mem_cons_of_mem c) _
  rw [← BoundedHeap.rank_offerAll cap offers sep, TopK.select, heap]
  rfl

/-- A selection is the candidates in order, cut at its capacity, however they were offered; and it
turns away only what would not have entered. -/
theorem topK_sorts_and_takes (idOf : IdOf) (cap : Nat) {offers : List Candidate}
    (distinct : (offers.map fun c => (c.dist, idOf c.part c.row)).Nodup) :
    (∀ sorted : List Candidate, sorted.Perm offers →
        (sorted.Pairwise fun a b => (Candidate.worse idOf a b).isLE) →
        TopK.select idOf cap offers = sorted.take (min cap offers.length)) ∧
      (∀ other : List Candidate, other.Perm offers →
        TopK.select idOf cap other = TopK.select idOf cap offers) ∧
      ∀ (t : TopK) (c : Candidate), t.wouldAdmit c.dist = false → t.offer idOf c = t := by
  have sep := separates_worse distinct
  refine ⟨fun sorted same order => ?_, fun other same => ?_, fun t c refused => ?_⟩
  · rw [TopK.select_eq cap sep, eq_rank_of_pairwise sep same order, ← List.take_take,
      List.take_of_length_le (i := offers.length) (by simp)]
  · rw [TopK.select_eq cap sep, TopK.select_eq cap (sep.perm same.symm),
      rank_eq_of_perm (sep.perm same.symm) same]
  · have unchanged := Collector.offer_of_not_wouldAdmit (c := .bounded t) trivial refused idOf
      c.part c.row
    exact Collector.bounded.inj unchanged

theorem topK_sorts_and_takes_pair :
    TopK.select (fun _ row => toString row) 1 [⟨⟨5⟩, 0, 1⟩, ⟨⟨3⟩, 0, 2⟩] = [⟨⟨3⟩, 0, 2⟩] := by
  have distinct : (([⟨⟨5⟩, 0, 1⟩, ⟨⟨3⟩, 0, 2⟩] : List Candidate).map fun c =>
      (c.dist, toString c.row)).Nodup := by decide
  exact (topK_sorts_and_takes (fun _ row => toString row) 1 distinct).1
    [⟨⟨3⟩, 0, 2⟩, ⟨⟨5⟩, 0, 1⟩] (by decide) (by decide)

end Prism
