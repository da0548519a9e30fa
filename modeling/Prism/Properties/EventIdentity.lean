import Prism.Properties.ManifestCodec
import Prism.Properties.Screening

/-!
What tells two events apart in the idempotency index: the composite key of tenant and key, and the
digest of the content. Both are made of texts laid end to end, and one text may end with what
another begins with.
-/

namespace Prism

/-! ### Composite keys -/

/-- The second tenant is the first and a separator and more, and that is where the first key
begins. -/
def Straddles (a b : String × String) : Prop :=
  ∃ moved : String, b.1 = a.1 ++ "\x1f" ++ moved ∧ a.2 = moved ++ "\x1f" ++ b.2

theorem ck_eq_iff {a b : String × String} :
    ck a.1 a.2 = ck b.1 b.2 ↔ a = b ∨ Straddles a b ∨ Straddles b a := by
  have lists : ∀ {x y x' y' : String}, x ++ "\x1f" ++ y = x' ++ "\x1f" ++ y' ↔
      x.toList ++ '\x1f' :: y.toList = x'.toList ++ '\x1f' :: y'.toList := by
    intro x y x' y'
    rw [← String.toList_inj]
    simp
  -- The longer tenant begins with the shorter one, and the separator is what comes next.
  have cut : ∀ {a b : String × String} {rest : List Char}, b.1.toList = a.1.toList ++ rest →
      '\x1f' :: a.2.toList = rest ++ '\x1f' :: b.2.toList → a = b ∨ Straddles a b := by
    intro a b rest longer shorter
    cases rest with
    | nil =>
      left
      simp only [List.append_nil, List.nil_append, List.cons.injEq, true_and,
        String.toList_inj] at longer shorter
      exact Prod.ext longer.symm shorter
    | cons c moved =>
      obtain ⟨rfl, key⟩ := List.cons.inj shorter
      refine .inr ⟨String.ofList moved, ?_, ?_⟩
      · rw [← String.toList_inj, longer]
        simp
      · rw [← String.toList_inj, key]
        simp
  constructor
  · intro same
    rw [ck, ck, lists, List.append_eq_append_iff] at same
    rcases same with ⟨rest, longer, shorter⟩ | ⟨rest, longer, shorter⟩
    · exact (cut longer shorter).imp_right .inl
    · exact (cut longer shorter).imp Eq.symm .inr
  · have straddled : ∀ {a b : String × String}, Straddles a b → ck a.1 a.2 = ck b.1 b.2 := by
      rintro a b ⟨moved, tenant, key⟩
      rw [ck, ck, tenant, key]
      simp only [String.append_assoc]
    rintro (rfl | forth | back)
    · rfl
    · exact straddled forth
    · exact (straddled back).symm

theorem Straddles.ne {a b : String × String} (straddles : Straddles a b) : a ≠ b := by
  rintro rfl
  obtain ⟨moved, longer, _⟩ := straddles
  have lengths := congrArg (·.toList.length) longer
  simp at lengths

/-- Events of different keys have different composite keys, and only an event of the same tenant and
key keeps another out, exactly when no two of them straddle the separator. -/
theorem dedup_keys_apart_iff (e : Event) (recorded : List Event) :
    ((∀ r ∈ recorded, r.dedupKey ≠ e.dedupKey → r.ck ≠ e.ck) ∧
        ((IdempotencyIndex.recordAll ∅ recorded).verdict e ≠ .new →
          ∃ r ∈ recorded, r.dedupKey = e.dedupKey)) ↔
      ∀ r ∈ recorded, ¬ Straddles r.dedupKey e.dedupKey ∧ ¬ Straddles e.dedupKey r.dedupKey := by
  constructor
  · rintro ⟨apart, _⟩ r mem
    constructor
    · exact fun forth => apart r mem forth.ne (ck_eq_iff.mpr (.inr (.inl forth)))
    · exact fun back => apart r mem back.ne.symm (ck_eq_iff.mpr (.inr (.inr back)))
  · intro clear
    have apart : ∀ r ∈ recorded, r.ck = e.ck → r.dedupKey = e.dedupKey := by
      intro r mem same
      rcases ck_eq_iff.mp same with equal | forth | back
      · exact equal
      · exact ((clear r mem).1 forth).elim
      · exact ((clear r mem).2 back).elim
    refine ⟨fun r mem other same => other (apart r mem same), fun known => ?_⟩
    rw [ne_eq, IdempotencyIndex.verdict_eq_new] at known
    obtain ⟨entry, found⟩ := Option.ne_none_iff_exists'.mp known
    rcases IdempotencyIndex.getElem?_recordAll found with before | ⟨r, mem, same, _⟩
    · simp at before
    · exact ⟨r, mem, apart r mem same⟩

def identifiedEvent (tenant id : String) : Event :=
  ⟨id, tenant, 0, 0, "n", .zero, false, "b", "", "", ∅, none⟩

/-- Two tenants whose valid events have one composite key: the second is taken for the first. -/
theorem dedup_keys_collide :
    (identifiedEvent "a" "b\x1fc").validate = some (.ok ()) ∧
      (identifiedEvent "a\x1fb" "c").validate = some (.ok ()) ∧
      (identifiedEvent "a" "b\x1fc").dedupKey ≠ (identifiedEvent "a\x1fb" "c").dedupKey ∧
      (identifiedEvent "a" "b\x1fc").ck = (identifiedEvent "a\x1fb" "c").ck ∧
      (IdempotencyIndex.recordAll ∅ [identifiedEvent "a" "b\x1fc"]).verdict
        (identifiedEvent "a\x1fb" "c") ≠ .new := by
  have same : (identifiedEvent "a" "b\x1fc").ck = (identifiedEvent "a\x1fb" "c").ck := by decide +kernel
  refine ⟨by decide +kernel, by decide +kernel, by decide +kernel, same, ?_⟩
  rw [ne_eq, IdempotencyIndex.verdict_eq_new, ← same]
  simp [IdempotencyIndex.recordAll, IdempotencyIndex.record]

/-! ### Contents -/

namespace Event

end Event

/-- At the first field where they differ, the second has the bytes of the first and more, and these
are what the next fields of the first begin with. -/
def Shifts (xs ys : List Bytes) : Prop :=
  ∃ same x moved rest rest', moved ≠ [] ∧ xs = same ++ x :: rest ∧
    ys = same ++ (x ++ moved) :: rest' ∧ rest.flatten = moved ++ rest'.flatten

theorem Shifts.cons {xs ys : List Bytes} (shifts : Shifts xs ys) (z : Bytes) :
    Shifts (z :: xs) (z :: ys) := by
  obtain ⟨same, x, moved, rest, rest', some, rfl, rfl, equal⟩ := shifts
  exact ⟨z :: same, x, moved, rest, rest', some, rfl, rfl, equal⟩

namespace Event

end Event

end Prism
