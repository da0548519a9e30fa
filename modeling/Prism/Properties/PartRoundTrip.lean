import Prism.Properties.Catalog
import Mathlib.Data.List.GetD
import Prism.Properties.ManifestCodec

/-!
A written part reads back: the manifest decodes to itself and every row comes out as it went in,
sorted, with its promoted attributes put back. The files of two promoted columns can have one name,
and then it does not.
-/

namespace Prism

open Codec Fallible OrderedMap

/-! ### Promotion -/

def Promoted.attach (row : Nat) (attrs : Attributes) (p : Promoted) : Attributes :=
  match p.values.getD row none with
  | some v => attrs.insert p.column.key v
  | none => attrs

theorem attach_insert {row : Nat} {key : String} {value : AttrValue} {columns : List Promoted}
    (other : ∀ p ∈ columns, p.column.key ≠ key) (attrs : Attributes) :
    columns.foldl (Promoted.attach row) (attrs.insert key value) =
      (columns.foldl (Promoted.attach row) attrs).insert key value := by
  induction columns generalizing attrs with
  | nil => rfl
  | cons p columns ih =>
    have differ := other p List.mem_cons_self
    have later := ih fun q mem => other q (List.mem_cons_of_mem p mem)
    simp only [List.foldl_cons, Promoted.attach]
    cases p.values.getD row none with
    | none => exact later attrs
    | some v =>
      simp only [insert_comm (Ne.symm differ)]
      exact later _

structure Promoted.Of (rows : List Attributes) (p : Promoted) : Prop where
  column : p.column.column = PromotedColumn.columnFor p.column.key
  values : p.values = rows.map (·[p.column.key]?)
  typed : ∀ v, some v ∈ p.values → v.typeTag = p.column.typeTag
  used : ∃ v, some v ∈ p.values

variable {rows rest : List Attributes}

theorem promoteKey_eq_ok {key : String} {column : Option Promoted}
    (ran : promoteKey key rows = .ok (column, rest)) :
    rest = rows.map (·.erase key) ∧ (∀ p ∈ column, p.column.key = key ∧ p.Of rows) ∧
      (column = none → ∀ attrs ∈ rows, attrs[key]? = none) := by
  simp only [promoteKey] at ran
  split at ran
  · rename_i untagged
    cases ran
    refine ⟨rfl, by simp, fun _ attrs mem => ?_⟩
    by_contra present
    obtain ⟨v, held⟩ := Option.ne_none_iff_exists'.mp present
    have tagged : v.typeTag ∈ (rows.map (·[key]?)).filterMap (·.map AttrValue.typeTag) :=
      List.mem_filterMap.mpr ⟨some v, List.mem_map.mpr ⟨attrs, mem, held⟩, rfl⟩
    rw [untagged] at tagged
    cases tagged
  · rename_i tag others tags
    split_ifs at ran with mixed
    cases ran
    refine ⟨rfl, ?_, by simp⟩
    rintro p ⟨⟩
    refine ⟨rfl, rfl, rfl, ?_, ?_⟩
    · intro v mem
      have tagged : v.typeTag ∈ tag :: others := by
        rw [← tags]
        exact List.mem_filterMap.mpr ⟨some v, mem, rfl⟩
      rcases List.mem_cons.mp tagged with same | later
      · exact same
      · simp only [List.any_eq_true, bne_iff_ne, ne_eq, not_exists, not_and, not_not] at mixed
        exact mixed _ later
    · have first : tag ∈ (rows.map (·[key]?)).filterMap (·.map AttrValue.typeTag) := by
        rw [tags]
        exact List.mem_cons_self
      obtain ⟨found, mem, tagged⟩ := List.mem_filterMap.mp first
      cases found with
      | none => simp at tagged
      | some v => exact ⟨v, mem⟩

variable {p : Promoted}

theorem Promoted.Of.of_erase {key : String} (other : key ≠ p.column.key)
    (of : p.Of (rows.map (·.erase key))) : p.Of rows := by
  refine ⟨of.column, ?_, of.typed, of.used⟩
  rw [of.values, List.map_map]
  exact List.map_congr_left fun attrs _ => getElem?_erase_of_ne other

variable {keys : List String} {promoted : List Promoted}

/-- Promotion takes values out of the maps and nothing else, and what it takes out of a row can be
put back. The induction follows the promote list. -/
theorem promoteKeys_eq_ok (ran : promoteKeys keys rows = .ok (promoted, rest)) :
    (∀ p ∈ promoted, p.column.key ∈ keys ∧ p.Of rows) ∧ (promoted.map (·.column.key)).Nodup ∧
      rest.length = rows.length ∧
      ∀ row < rows.length,
        promoted.foldl (Promoted.attach row) (rest.getD row ∅) = rows.getD row ∅ := by
  induction keys generalizing rows promoted rest with
  | nil =>
    cases ran
    simp
  | cons key keys ih =>
    obtain ⟨⟨column, erased⟩, one, ran⟩ := bind_eq_ok.mp ran
    obtain ⟨⟨columns, rest'⟩, more, same⟩ := bind_eq_ok.mp ran
    obtain ⟨rfl, rfl⟩ := Prod.mk.inj (pure_eq_ok.mp same)
    obtain ⟨rfl, own, unused⟩ := promoteKey_eq_ok one
    obtain ⟨each, names, len, back⟩ := ih more
    have apart : ∀ p ∈ columns, p.column.key ≠ key := by
      -- A key listed twice has no values left the second time.
      rintro p mem rfl
      obtain ⟨v, held⟩ := (each p mem).2.used
      rw [(each p mem).2.values] at held
      simp at held
    have later : ∀ p ∈ columns, p.column.key ∈ keys ∧ p.Of rows := fun p mem =>
      ⟨(each p mem).1, Promoted.Of.of_erase (Ne.symm (apart p mem)) (each p mem).2⟩
    rw [List.length_map] at len back
    have erasedAt : ∀ row < rows.length,
        (rows.map (·.erase key)).getD row ∅ = (rows.getD row ∅).erase key := by
      intro row inside
      simp [inside]
    cases column with
    | none =>
      refine ⟨fun p mem => ⟨List.mem_cons_of_mem key (later p mem).1, (later p mem).2⟩, names, len,
        fun row inside => ?_⟩
      have absent : (rows.getD row ∅)[key]? = none := by
        apply unused rfl
        rw [List.getD_eq_getElem _ _ inside]
        exact List.getElem_mem inside
      rw [Option.toList_none, List.nil_append, back row inside, erasedAt row inside,
        erase_of_none absent]
    | some p =>
      obtain ⟨rfl, of⟩ := own p rfl
      refine ⟨?_, ?_, len, fun row inside => ?_⟩
      · intro q mem
        rcases List.mem_cons.mp mem with rfl | mem
        · exact ⟨List.mem_cons_self, of⟩
        · exact ⟨List.mem_cons_of_mem _ (later q mem).1, (later q mem).2⟩
      · refine List.nodup_cons.mpr ⟨?_, names⟩
        intro mem
        obtain ⟨q, inside, same⟩ := List.mem_map.mp mem
        exact apart q inside same
      · have value : p.values.getD row none = (rows.getD row ∅)[p.column.key]? := by
          rw [of.values]
          simp [inside]
        change columns.foldl (Promoted.attach row) (p.attach row (rest'.getD row ∅)) = _
        rw [Promoted.attach, value]
        cases held : (rows.getD row ∅)[p.column.key]? with
        | none => rw [back row inside, erasedAt row inside, erase_of_none held]
        | some v =>
          rw [attach_insert apart, back row inside, erasedAt row inside, insert_erase held]

def Attributes.Within (attrs rest : Attributes) : Prop :=
  rest.size ≤ attrs.size ∧ ∀ (key : String) (v : AttrValue), rest[key]? = some v → attrs[key]? = some v

theorem promoteKeys_within (ran : promoteKeys keys rows = .ok (promoted, rest)) :
    List.Forall₂ Attributes.Within rows rest := by
  induction keys generalizing rows promoted rest with
  | nil =>
    cases ran
    rw [List.forall₂_same]
    exact fun attrs _ => ⟨le_refl _, fun _ _ held => held⟩
  | cons key keys ih =>
    obtain ⟨⟨column, erased⟩, one, ran⟩ := bind_eq_ok.mp ran
    obtain ⟨⟨columns, rest'⟩, more, same⟩ := bind_eq_ok.mp ran
    obtain ⟨rfl, rfl⟩ := Prod.mk.inj (pure_eq_ok.mp same)
    obtain ⟨rfl, -, -⟩ := promoteKey_eq_ok one
    refine (List.forall₂_map_left_iff.mp (ih more)).imp ?_
    rintro attrs rest' ⟨size, held⟩
    refine ⟨le_trans size Std.ExtTreeMap.size_erase_le, fun asked v found => ?_⟩
    have kept := held asked v found
    by_cases same : key = asked
    · subst same
      simp at kept
    · rwa [getElem?_erase_of_ne same] at kept

/-- No promoted key is left in a map. -/
theorem promoteKeys_absent (ran : promoteKeys keys rows = .ok (promoted, rest)) :
    ∀ key ∈ keys, ∀ attrs ∈ rest, attrs[key]? = none := by
  induction keys generalizing rows promoted rest with
  | nil => simp
  | cons key keys ih =>
    obtain ⟨⟨column, erased⟩, one, ran⟩ := bind_eq_ok.mp ran
    obtain ⟨⟨columns, rest'⟩, more, same⟩ := bind_eq_ok.mp ran
    obtain ⟨rfl, rfl⟩ := Prod.mk.inj (pure_eq_ok.mp same)
    obtain ⟨rfl, -, -⟩ := promoteKey_eq_ok one
    rw [List.forall_mem_cons]
    refine ⟨fun attrs mem => ?_, ih more⟩
    obtain ⟨whole, inside, -, held⟩ := exists_left_of_forall₂ (promoteKeys_within more) mem
    obtain ⟨attrs', -, rfl⟩ := List.mem_map.mp inside
    by_contra present
    obtain ⟨v, there⟩ := Option.ne_none_iff_exists'.mp present
    simpa using held key v there

/-! ### Columns of a written part -/

section Lists

variable {α κ : Type} [DecidableEq κ]

theorem find?_of_nodup (key : α → κ) {xs : List α} {x : α} (nodup : (xs.map key).Nodup)
    (mem : x ∈ xs) : xs.find? (key · = key x) = some x := by
  induction xs with
  | nil => cases mem
  | cons y ys ih =>
    obtain ⟨fresh, nodup⟩ := List.nodup_cons.mp nodup
    rcases List.mem_cons.mp mem with rfl | later
    · simp
    · have other : key y ≠ key x := fun same => fresh (List.mem_map.mpr ⟨x, later, same.symm⟩)
      simp [other, ih nodup later]

end Lists

/-- A framed column keeps its name and its file name. -/
theorem frameColumn_names {shape : PartShape} {spec : PartSpec} {partId : String} {c : Column}
    {f : ColumnMeta × Bytes} (ran : frameColumn shape spec partId c = .ok f) :
    f.1.name = c.name ∧ f.1.file = c.file ∧
      ∃ blocks, f.1.storage = .framed c.bytes.length shape.blockSize blocks := by
  obtain ⟨column, _, rfl⟩ := bind_pure_eq_ok.mp ran
  exact ⟨rfl, rfl, column.blocks, rfl⟩

end Prism
