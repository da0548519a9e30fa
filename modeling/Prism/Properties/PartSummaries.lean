import Prism.Properties.ManifestCodec

/-!
What a part says of its rows without being read: the running extremes of times and costs, the marks
of the centroids and the sections of the tenants, as `PartWriter::write` accumulates them.
-/

namespace Prism

open OrderedMap

/-! ### Extremes -/

theorem foldl_min_le (xs : List Int) (s : Int) :
    xs.foldl min s ≤ s ∧ ∀ x ∈ xs, xs.foldl min s ≤ x := by
  induction xs generalizing s with
  | nil => simp
  | cons x xs ih =>
    obtain ⟨start, each⟩ := ih (min s x)
    simp only [List.foldl_cons, List.mem_cons, forall_eq_or_imp]
    refine ⟨by omega, by omega, each⟩

theorem le_foldl_max (xs : List Int) (s : Int) :
    s ≤ xs.foldl max s ∧ ∀ x ∈ xs, x ≤ xs.foldl max s := by
  induction xs generalizing s with
  | nil => simp
  | cons x xs ih =>
    obtain ⟨start, each⟩ := ih (max s x)
    simp only [List.foldl_cons, List.mem_cons, forall_eq_or_imp]
    refine ⟨by omega, by omega, each⟩

/-- What holds of the start and of every element holds of a running choice between them. -/
theorem foldl_choice {α : Type} {P : α → Prop} {choose : α → α → α} {xs : List α} {s : α}
    (either : ∀ a b, P a → P b → P (choose a b)) (start : P s) (each : ∀ x ∈ xs, P x) :
    P (xs.foldl choose s) := by
  induction xs generalizing s with
  | nil => exact start
  | cons x xs ih =>
    obtain ⟨first, later⟩ := List.forall_mem_cons.mp each
    exact ih (either s x start first) later

theorem inI64_foldl_min {xs : List Int} (range : ∀ x ∈ xs, InI64 x) : InI64 (xs.foldl min maxI64) :=
  foldl_choice (fun a b left right => by rcases (by omega : min a b = a ∨ min a b = b) with h | h <;> rwa [h])
    (by decide) range

theorem inI64_foldl_max {xs : List Int} (range : ∀ x ∈ xs, InI64 x) : InI64 (xs.foldl max minI64) :=
  foldl_choice (fun a b left right => by rcases (by omega : max a b = a ∨ max a b = b) with h | h <;> rwa [h])
    (by decide) range

namespace F64

theorem exponentField_eq (x : F64) : x.exponentField = x.bits.toNat / 2 ^ 52 % 2 ^ 11 := by
  have mask := Nat.and_two_pow_sub_one_eq_mod (x.bits.toNat / 2 ^ 52) 11
  simp only [exponentField, UInt64.toNat_and, UInt64.toNat_shiftRight, Nat.shiftRight_eq_div_pow]
  exact mask

theorem toNat_magnitude (x : F64) :
    (x.bits &&& 0x7FFFFFFFFFFFFFFF).toNat = x.bits.toNat % 2 ^ 63 := by
  rw [UInt64.toNat_and]
  exact Nat.and_two_pow_sub_one_eq_mod x.bits.toNat 63

end F64

/-! ### Names -/

@[simp] theorem mem_sortedSet {names : List String} {name : String} :
    name ∈ sortedSet names ↔ name ∈ names := by
  rw [sortedSet, Std.ExtTreeMap.mem_keys, mem_foldl_insert]
  simp

theorem nodup_sortedSet (names : List String) : (sortedSet names).Nodup := by
  rw [sortedSet, ← Std.ExtTreeMap.map_fst_toList_eq_keys]
  exact nodup_keys _

/-- A set of names is listed in one order. -/
theorem sortedSet_congr {names others : List String} (same : ∀ n, n ∈ names ↔ n ∈ others) :
    sortedSet names = sortedSet others := by
  refine keys_eq_of_mem_iff fun n => ?_
  rw [mem_foldl_insert, mem_foldl_insert, same]

/-! ### Marks -/

def CentroidRange.Holds (range : CentroidRange) (row : Nat) : Prop :=
  range.firstRow ≤ row ∧ row < range.firstRow + range.rowCount

/-- Marks that say of the rows up to here where their centroids are and between which times. -/
structure Marked (rows : List RowIn) (ranges : List CentroidRange) : Prop where
  held : ∀ range ∈ ranges, ∀ row, range.Holds row → ∃ r, rows[row]? = some r ∧
    r.centroid = range.centroid ∧ range.timeMin ≤ r.event.eventTime ∧
      r.event.eventTime ≤ range.timeMax
  covered : ∀ row < rows.length, ∃ range ∈ ranges, range.Holds row
  last : ∀ range ∈ ranges.getLast?, range.firstRow + range.rowCount = rows.length
  taken : ∀ range ∈ ranges, (∃ r ∈ rows, r.centroid = range.centroid) ∧
    (∃ r ∈ rows, r.event.eventTime = range.timeMin) ∧ ∃ r ∈ rows, r.event.eventTime = range.timeMax

def CentroidRange.open (pqM bpv row : Nat) (r : RowIn) : CentroidRange :=
  ⟨r.centroid, row, 1, row * pqM, pqM, row * bpv, bpv, r.event.eventTime, r.event.eventTime⟩

def CentroidRange.extend (pqM bpv : Nat) (range : CentroidRange) (r : RowIn) : CentroidRange :=
  { range with
    rowCount := range.rowCount + 1
    pqLen := (range.rowCount + 1) * pqM
    rerankLen := (range.rowCount + 1) * bpv
    timeMin := min range.timeMin r.event.eventTime
    timeMax := max range.timeMax r.event.eventTime }

theorem markRow_cases (pqM bpv : Nat) (ranges : List CentroidRange) (row : Nat) (r : RowIn) :
    markRow pqM bpv ranges (row, r) = ranges ++ [.open pqM bpv row r] ∨
      ∃ init last, ranges = init ++ [last] ∧ last.centroid = r.centroid ∧
        markRow pqM bpv ranges (row, r) = init ++ [last.extend pqM bpv r] := by
  unfold markRow
  cases final : ranges.getLast? with
  | none =>
    obtain rfl := List.getLast?_eq_none_iff.mp final
    exact .inl rfl
  | some last =>
    obtain ⟨init, rfl⟩ := List.getLast?_eq_some_iff.mp final
    by_cases same : last.centroid = r.centroid
    · refine .inr ⟨init, last, rfl, same, ?_⟩
      simp [same, CentroidRange.extend]
    · refine .inl ?_
      simp [same, CentroidRange.open]

theorem Marked.open {pqM bpv : Nat} {before : List RowIn} {ranges : List CentroidRange}
    (marked : Marked before ranges) (r : RowIn) :
    Marked (before ++ [r]) (ranges ++ [.open pqM bpv before.length r]) where
  held range mem row holds := by
    rcases List.mem_append.mp mem with old | new
    · obtain ⟨q, found, facts⟩ := marked.held range old row holds
      exact ⟨q, by rw [List.getElem?_append_left (List.getElem?_eq_some_iff.mp found).1, found], facts⟩
    · obtain rfl := List.mem_singleton.mp new
      obtain ⟨low, high⟩ := holds
      obtain rfl : row = before.length := by simp only [CentroidRange.open] at low high; omega
      exact ⟨r, by simp, rfl, le_refl _, le_refl _⟩
  covered row inside := by
    rw [List.length_append, List.length_singleton] at inside
    rcases Nat.lt_or_ge row before.length with old | new
    · obtain ⟨range, mem, holds⟩ := marked.covered row old
      exact ⟨range, List.mem_append_left _ mem, holds⟩
    · obtain rfl : row = before.length := by omega
      exact ⟨_, List.mem_append_right _ List.mem_cons_self, le_refl _, Nat.lt_succ_self _⟩
  last range final := by
    obtain rfl : CentroidRange.open pqM bpv before.length r = range := by simpa using final
    simp [CentroidRange.open]
  taken range mem := by
    rcases List.mem_append.mp mem with old | new
    · obtain ⟨⟨q, inQ, centroid⟩, ⟨s, inS, low⟩, t, inT, high⟩ := marked.taken range old
      exact ⟨⟨q, by simp [inQ], centroid⟩, ⟨s, by simp [inS], low⟩, t, by simp [inT], high⟩
    · obtain rfl := List.mem_singleton.mp new
      exact ⟨⟨r, by simp, rfl⟩, ⟨r, by simp, rfl⟩, r, by simp, rfl⟩

theorem Marked.extend {pqM bpv : Nat} {before : List RowIn} {init : List CentroidRange}
    {last : CentroidRange} (marked : Marked before (init ++ [last])) {r : RowIn}
    (same : last.centroid = r.centroid) :
    Marked (before ++ [r]) (init ++ [last.extend pqM bpv r]) where
  held range mem row holds := by
    rcases List.mem_append.mp mem with old | new
    · obtain ⟨q, found, facts⟩ := marked.held range (List.mem_append_left _ old) row holds
      exact ⟨q, by rw [List.getElem?_append_left (List.getElem?_eq_some_iff.mp found).1, found], facts⟩
    · obtain rfl := List.mem_singleton.mp new
      obtain ⟨low, high⟩ := holds
      have stop := marked.last last (by simp)
      simp only [CentroidRange.extend] at low high ⊢
      rcases Nat.lt_or_ge row before.length with old | new
      · obtain ⟨q, found, centroid, early, late⟩ :=
          marked.held last (by simp) row ⟨low, by omega⟩
        exact ⟨q, by rw [List.getElem?_append_left old, found], centroid, by omega, by omega⟩
      · obtain rfl : row = before.length := by omega
        exact ⟨r, by simp, same.symm, by omega, by omega⟩
  covered row inside := by
    have stop := marked.last last (by simp)
    rw [List.length_append, List.length_singleton] at inside
    rcases Nat.lt_or_ge row before.length with old | new
    · obtain ⟨range, mem, low, high⟩ := marked.covered row old
      rcases List.mem_append.mp mem with first | final
      · exact ⟨range, List.mem_append_left _ first, low, high⟩
      · obtain rfl := List.mem_singleton.mp final
        refine ⟨_, List.mem_append_right _ List.mem_cons_self, low, ?_⟩
        simp only [CentroidRange.extend]
        omega
    · refine ⟨_, List.mem_append_right _ List.mem_cons_self, ?_, ?_⟩ <;>
        simp only [CentroidRange.extend] <;> omega
  last range final := by
    have stop := marked.last last (by simp)
    obtain rfl : last.extend pqM bpv r = range := by simpa using final
    simp only [CentroidRange.extend, List.length_append, List.length_singleton]
    omega
  taken range mem := by
    rcases List.mem_append.mp mem with old | new
    · obtain ⟨⟨q, inQ, centroid⟩, ⟨s, inS, low⟩, t, inT, high⟩ :=
        marked.taken range (List.mem_append_left _ old)
      exact ⟨⟨q, by simp [inQ], centroid⟩, ⟨s, by simp [inS], low⟩, t, by simp [inT], high⟩
    · obtain rfl := List.mem_singleton.mp new
      obtain ⟨-, ⟨s, inS, low⟩, t, inT, high⟩ := marked.taken last (by simp)
      refine ⟨⟨r, by simp, same.symm⟩, ?_, ?_⟩ <;> simp only [CentroidRange.extend]
      · rcases (by omega : min last.timeMin r.event.eventTime = last.timeMin ∨
          min last.timeMin r.event.eventTime = r.event.eventTime) with old | new
        · exact ⟨s, by simp [inS], by rw [low, old]⟩
        · exact ⟨r, by simp, new.symm⟩
      · rcases (by omega : max last.timeMax r.event.eventTime = last.timeMax ∨
          max last.timeMax r.event.eventTime = r.event.eventTime) with old | new
        · exact ⟨t, by simp [inT], by rw [high, old]⟩
        · exact ⟨r, by simp, new.symm⟩

/-- The marks of a part hold every row, under its centroid and between its times. The induction is
on the rows that have been marked. -/
theorem marked_centroidMarks (pqM bpv : Nat) (rows : List RowIn) :
    Marked rows (centroidMarks pqM bpv rows) := by
  induction rows using List.reverseRecOn with
  | nil =>
    refine ⟨?_, ?_, ?_, ?_⟩ <;> simp [centroidMarks]
  | append_singleton before r ih =>
    have step : centroidMarks pqM bpv (before ++ [r]) =
        markRow pqM bpv (centroidMarks pqM bpv before) (before.length, r) := by
      rw [centroidMarks, List.length_append, List.length_singleton, List.range_succ,
        List.zip_append (by simp), List.foldl_append]
      rfl
    rw [step]
    rcases markRow_cases pqM bpv (centroidMarks pqM bpv before) before.length r with
      opened | ⟨init, last, split, same, extended⟩
    · rw [opened]
      exact ih.open r
    · rw [extended]
      exact (split ▸ ih).extend same

/-! ### Sections -/

structure TenantStats.Sums (rows : List (RowIn × List String)) (s : TenantStats) : Prop where
  count : s.rows = rows.length
  timeMin : s.timeMin = (rows.map (·.1.event.eventTime)).foldl min maxI64
  timeMax : s.timeMax = (rows.map (·.1.event.eventTime)).foldl max minI64
  costMin : s.costMin = (rows.map (·.1.event.cost)).foldl F64.min F64.infinity
  costMax : s.costMax = (rows.map (·.1.event.cost)).foldl F64.max F64.negInfinity
  nodup : s.attributeKeys.Nodup
  keys : ∀ k, k ∈ s.attributeKeys ↔ ∃ row ∈ rows, k ∈ row.2
  tenant : ∀ row ∈ rows.getLast?, s.tenant = row.1.event.tenantId

theorem TenantStats.sums_start : TenantStats.start.Sums [] where
  count := rfl
  timeMin := rfl
  timeMax := rfl
  costMin := rfl
  costMax := rfl
  nodup := List.nodup_nil
  keys := by simp [TenantStats.start]
  tenant := nofun

variable {rows : List (RowIn × List String)}

theorem TenantStats.Sums.addRow {s : TenantStats} (sums : s.Sums rows) {row : RowIn × List String}
    (nodup : row.2.Nodup) : (s.addRow row).Sums (rows ++ [row]) where
  count := by simp [TenantStats.addRow, sums.count]
  timeMin := by simp [TenantStats.addRow, sums.timeMin]
  timeMax := by simp [TenantStats.addRow, sums.timeMax]
  costMin := by simp [TenantStats.addRow, sums.costMin]
  costMax := by simp [TenantStats.addRow, sums.costMax]
  nodup := by
    refine List.nodup_append.mpr ⟨sums.nodup, nodup.filter _, ?_⟩
    rintro k held _ new rfl
    simp [held] at new
  keys k := by
    have split : (∃ q ∈ rows ++ [row], k ∈ q.2) ↔ k ∈ s.attributeKeys ∨ k ∈ row.2 := by
      rw [sums.keys k]
      simp [or_and_right, exists_or]
    rw [split]
    by_cases held : k ∈ s.attributeKeys <;> simp [TenantStats.addRow, held]
  tenant q last := by
    obtain rfl : row = q := by simpa using last
    rfl

/-- The run over the rows of one tenant. -/
theorem TenantStats.sums_foldl (rows : List (RowIn × List String))
    (nodup : ∀ row ∈ rows, row.2.Nodup) : (rows.foldl addRow start).Sums rows := by
  induction rows using List.reverseRecOn with
  | nil => exact sums_start
  | append_singleton before row ih =>
    rw [List.foldl_append]
    exact (ih fun q mem => nodup q (by simp [mem])).addRow (nodup row (by simp))

def rowsOfTenant (tenant : String) (rows : List (RowIn × List String)) :
    List (RowIn × List String) :=
  rows.filter (·.1.event.tenantId = tenant)

theorem mem_rowsOfTenant {tenant : String} {row : RowIn × List String} :
    row ∈ rowsOfTenant tenant rows ↔ row ∈ rows ∧ row.1.event.tenantId = tenant := by
  simp [rowsOfTenant]

def tenantSection (tenant : String) (rows : List (RowIn × List String)) : TenantStats :=
  let s := (rowsOfTenant tenant rows).foldl TenantStats.addRow TenantStats.start
  { s with attributeKeys := s.attributeKeys.insertionSort fun a b => (compare a b).isLE }

/-- The sections stand in the order of the tenants' names. -/
theorem tenantStats_eq (rows : List (RowIn × List String)) : tenantStats rows =
      (sortedSet (rows.map (·.1.event.tenantId))).map fun tenant => tenantSection tenant rows := by
  have tenants : (foldBy (fun row : RowIn × List String => row.1.event.tenantId)
      TenantStats.start TenantStats.addRow rows).keys =
        sortedSet (rows.map (·.1.event.tenantId)) := by
    refine keys_eq_of_mem_iff fun tenant => ?_
    rw [mem_foldl_insert, Std.ExtTreeMap.mem_iff_isSome_getElem?, getElem?_foldBy]
    by_cases empty : rows.filter (·.1.event.tenantId = tenant) = []
    · simpa [empty] using List.filter_eq_nil_iff.mp empty
    · obtain ⟨row, mem⟩ := List.exists_mem_of_ne_nil _ empty
      obtain ⟨inside, own⟩ : row ∈ rows ∧ row.1.event.tenantId = tenant := by simpa using mem
      simpa [empty] using ⟨row.1, ⟨row.2, inside⟩, own⟩
  rw [tenantStats, toList_foldBy, tenants, List.map_map, List.map_map]
  rfl

theorem sums_tenantSection (rows : List (RowIn × List String)) (tenant : String)
    (nodup : ∀ row ∈ rows, row.2.Nodup) :
    (tenantSection tenant rows).Sums (rowsOfTenant tenant rows) := by
  have sums := TenantStats.sums_foldl (rowsOfTenant tenant rows)
    fun row mem => nodup row (mem_rowsOfTenant.mp mem).1
  have sorted := List.perm_insertionSort (fun a b => (compare a b).isLE)
    ((rowsOfTenant tenant rows).foldl TenantStats.addRow TenantStats.start).attributeKeys
  exact ⟨sums.count, sums.timeMin, sums.timeMax, sums.costMin, sums.costMax,
    sorted.nodup_iff.mpr sums.nodup, fun k => sorted.mem_iff.trans (sums.keys k), sums.tenant⟩

theorem tenant_tenantSection {tenant : String} (nodup : ∀ row ∈ rows, row.2.Nodup)
    (present : ∃ row ∈ rows, row.1.event.tenantId = tenant) :
    (tenantSection tenant rows).tenant = tenant := by
  obtain ⟨row, inside, own⟩ := present
  have some : rowsOfTenant tenant rows ≠ [] :=
    List.ne_nil_of_mem (mem_rowsOfTenant.mpr ⟨inside, own⟩)
  have final := List.getLast?_eq_some_getLast some
  rw [(sums_tenantSection rows tenant nodup).tenant _ final]
  exact (mem_rowsOfTenant.mp (List.getLast_mem some)).2

end Prism
