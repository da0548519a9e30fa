import Prism.Properties.ScalarAnswers

/-!
When the rows of a GROUP BY are about their groups. The key of a group is in the order of the GROUP
BY list, and the projected columns take its values in their own order.
-/

namespace Prism

open Fallible OrderedMap

namespace Sql

/-! ### Bound plans -/

structure Plan.Bound (plan : Plan) : Prop where
  filter : ∀ p, plan.filter = some p → checkExpr p = .ok ()
  items : ∀ item ∈ plan.projections, checkItem item = .ok ()
  groups : ∀ g ∈ plan.groupBy, g ∈ columns

variable {plan : Plan}

theorem cellOf_known {c : String} (known : c ∈ columns) (r : ScoredRow) :
    ∃ v, cellOf r c = .ok v ∧ v ≠ .null := by
  simp only [columns, List.mem_cons, List.not_mem_nil, or_false] at known
  rcases known with rfl | rfl | rfl | rfl | rfl | rfl | rfl | rfl | rfl | rfl | rfl
  all_goals exact ⟨_, rfl, by simp⟩

def Shows (r : ScoredRow) (c : String) (text : String) : Prop :=
  ∃ v, cellOf r c = .ok v ∧ display v = text

variable {key : List String} {items : List Item}

theorem Shows.unique {r : ScoredRow} {c text text' : String} (one : Shows r c text)
    (other : Shows r c text') : text = text' := by
  obtain ⟨v, read, rfl⟩ := one
  obtain ⟨v', read', rfl⟩ := other
  rw [ok_unique read read']

end Sql

open Sql

set_option maxRecDepth 100000

end Prism
