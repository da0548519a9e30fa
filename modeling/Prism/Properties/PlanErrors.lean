import Prism.Properties.Pagination
import Prism.Properties.PlanInvariance

/-!
Which strategies report a predicate that fails on a row. Interleaved and scalar-first test every row
of the probed ranges; semantic-first tests some of them, so it fails only where they do.
-/

namespace Prism

open Fallible

/-- A collection that was offered less than another one: it can overflow only where that one did. -/
def Collector.Within : Collector → Collector → Prop
  | .bounded _, .bounded _ => True
  | .threshold a, .threshold b => a.relaxedBound = b.relaxedBound ∧ a.budget = b.budget ∧
      a.kept.length ≤ b.kept.length ∧ (a.overflowed = true → b.overflowed = true)
  | _, _ => False

namespace Collector.Within

variable {c c' : Collector}

theorem refl (c : Collector) : c.Within c := by
  cases c with
  | bounded _ => trivial
  | threshold th => exact ⟨rfl, rfl, le_rfl, id⟩

theorem overflowed (within : c.Within c') (past : c.overflowed = true) : c'.overflowed = true := by
  cases c with
  | bounded _ => cases past
  | threshold th =>
    cases c' with
    | bounded _ => exact within.elim
    | threshold th' => exact within.2.2.2 past

/-- Both collections take a candidate. -/
theorem offer (within : c.Within c') (idOf : IdOf) (cand : Candidate) :
    (c.offer idOf cand).Within (c'.offer idOf cand) := by
  cases c <;> cases c' <;> try exact within
  next th th' =>
    obtain ⟨bound, budget, fewer, past⟩ := within
    simp only [Collector.offer, ThresholdCollector.offer, bound, budget]
    split
    · exact ⟨bound, budget, fewer, past⟩
    · by_cases full : th.kept.length ≥ th'.budget
      · -- Where the smaller one is full, so is the larger one.
        rw [if_pos full, if_pos (full.le.trans fewer)]
        exact ⟨rfl, rfl, fewer, fun _ => rfl⟩
      · by_cases full' : th'.kept.length ≥ th'.budget
        · rw [if_neg full, if_pos full']
          exact ⟨rfl, rfl, by simp; omega, fun _ => rfl⟩
        · rw [if_neg full, if_neg full']
          exact ⟨rfl, rfl, by simpa using fewer, past⟩

end Collector.Within

def ScanState.Within (st st' : ScanState) : Prop := st.collector.Within st'.collector

section Scan

variable {s t : Strategy} (tests : t ≠ .semanticFirst) (idOf : IdOf)
include tests

end Scan

variable {engine : Engine} {env : QueryEnv} {store : Store}
  {bridged : List String → Bridge → Result SearchResult} {snap : Snapshot} {q : Query}

end Prism
