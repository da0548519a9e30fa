import Prism.Properties.PartRoundTrip
import Prism.Properties.PartSummaries

/-!
A written part opens again: its manifest is one that the codec gives back, and what is read through
it are the rows that were written. Two promoted keys that differ only in `/`, `\` and `_` share
their files, and then they are not.
-/

namespace Prism

open Codec Fallible

theorem length_flatMap_fixed {α : Type} {encode : α → Bytes} {width : Nat}
    (fixed : ∀ x, (encode x).length = width) (xs : List α) :
    (xs.flatMap encode).length = xs.length * width := by
  induction xs with
  | nil => simp
  | cons x xs ih => simp [ih, fixed, Nat.succ_mul, Nat.add_comm]

/-! ### Sizes -/

/-- A part of a size that its format can say: the length of the manifest's body and its dimension
are words of four bytes, and no file or column is longer than a vector of bytes can be. -/
structure Part.Sized (part : Part) : Prop where
  body : ∀ bytes, part.manifest.encode = .ok bytes → bytes.length < headerBytes + 2 ^ 32
  dim : part.manifest.dim < 2 ^ 32
  files : ∀ f ∈ part.files, f.2.length < 2 ^ 63
  columns : ∀ c ∈ part.manifest.columns, c.storage.logicalBytes < 2 ^ 63

theorem ColumnMeta.encode_framed {c : ColumnMeta} {len blockSize : Nat} {blocks : List BlockRef}
    (storage : c.storage = .framed len blockSize blocks) : c.encode = .ok c.bytes ∧
      c.name.utf8ByteSize ≤ c.bytes.length ∧ c.file.utf8ByteSize ≤ c.bytes.length ∧
      blocks.length * 16 ≤ c.bytes.length ∧ 22 ≤ c.bytes.length := by
  obtain ⟨name, file, codecId, _⟩ := c
  subst storage
  refine ⟨rfl, ?_⟩
  have room : blocks.length * 16 ≤ (blocks.flatMap BlockRef.encode).length :=
    length_mul_le_length_flatMap fun b _ => by simp [BlockRef.encode]
  simp [bytes, encode, Except.toOption]
  simp at room
  omega

variable {m : PartManifest}

namespace PartManifest

structure Short (m : PartManifest) : Prop where
  partId : Prefixable m.partId
  generationId : Prefixable m.generationId
  modelId : Prefixable m.modelId
  modelVersion : Prefixable m.modelVersion
  tenants : (m.tenants.flatMap stringBytes).length < 2 ^ 32
  centroidRanges : (m.centroidRanges.flatMap CentroidRange.encode).length < 2 ^ 32
  columns : (m.columns.flatMap ColumnMeta.bytes).length < 2 ^ 32
  attributeKeys : (m.attributeKeys.flatMap stringBytes).length < 2 ^ 32
  extensions : (m.extensions.flatMap Extension.encode).length < 2 ^ 32

theorem length_bodyBytes (m : PartManifest) : m.bodyBytes.length =
    m.partId.utf8ByteSize + m.generationId.utf8ByteSize + m.modelId.utf8ByteSize +
      m.modelVersion.utf8ByteSize + (m.tenants.flatMap stringBytes).length +
      (m.centroidRanges.flatMap CentroidRange.encode).length +
      (m.columns.flatMap ColumnMeta.bytes).length + (m.attributeKeys.flatMap stringBytes).length +
      (m.extensions.flatMap Extension.encode).length + 129 := by
  have reserved : ((List.replicate reservedWords 0).flatMap (Bytes.le 8)).length = 32 := by decide
  simp only [bodyBytes, tailBytes, List.length_append, length_stringBytes, Bytes.length_le,
    length_i64Bytes, reserved]
  clear reserved
  omega

theorem short_of_body (short : m.bodyBytes.length < 2 ^ 32) : m.Short := by
  rw [length_bodyBytes] at short
  constructor <;> (try unfold Prefixable) <;> omega

end PartManifest

/-- A text in a list of texts of a bounded length is itself bounded. -/
theorem prefixable_of_mem {texts : List String} {text : String}
    (short : (texts.flatMap stringBytes).length < 2 ^ 32) (mem : text ∈ texts) :
    Prefixable text := by
  have own := length_le_length_flatMap (f := stringBytes) mem
  rw [length_stringBytes] at own
  unfold Prefixable
  omega

/-- A list is no longer than its encoding when no element is encoded in nothing. -/
theorem count_of_short {α : Type} (encode : α → Bytes) {xs : List α}
    (short : (xs.flatMap encode).length < 2 ^ 32) (least : ∀ x ∈ xs, 1 ≤ (encode x).length) :
    xs.length < 2 ^ 32 := by
  have room := length_mul_le_length_flatMap least
  omega

/-! ### The summaries of a written part -/

structure SectionOf (rows : List RowIn) (s : TenantStats) : Prop where
  count : s.rows = rows.length
  timeMin : s.timeMin = (rows.map (·.event.eventTime)).foldl min maxI64
  timeMax : s.timeMax = (rows.map (·.event.eventTime)).foldl max minI64
  costMin : s.costMin = (rows.map (·.event.cost)).foldl F64.min F64.infinity
  costMax : s.costMax = (rows.map (·.event.cost)).foldl F64.max F64.negInfinity
  nodup : s.attributeKeys.Nodup
  keys : ∀ k, k ∈ s.attributeKeys ↔ k ∈ rows.flatMap (·.event.attributes.keys)

/-- Rows of one tenant whose section its decoder accepts: the least and the greatest cost are
numbers, and the keys are not too many. -/
structure SectionFits (rows : List RowIn) : Prop where
  costMin : ((rows.map (·.event.cost)).foldl F64.min F64.infinity).isFinite = true
  costMax : ((rows.map (·.event.cost)).foldl F64.max F64.negInfinity).isFinite = true
  keys : (sortedSet (rows.flatMap (·.event.attributes.keys))).length ≤ maxAttributeKeyCardinality

structure Sectionable (rows : List RowIn) : Prop where
  tenants : (sortedSet (rows.map (·.event.tenantId))).length ≤ maxTenantsPerPart
  sections : ∀ tenant ∈ rows.map (·.event.tenantId),
    SectionFits (rows.filter (·.event.tenantId = tenant))

/-- The texts of a section are in its bytes. -/
theorem stats_short {t : TenantStats} (short : t.encode.length < 2 ^ 32) :
    Prefixable t.tenant ∧ (∀ k ∈ t.attributeKeys, Prefixable k) ∧
      t.attributeKeys.length < 2 ^ 32 := by
  simp only [TenantStats.encode, List.length_append, length_stringBytes, length_i64Bytes,
    Bytes.length_le] at short
  refine ⟨by unfold Prefixable; omega, fun k mem => prefixable_of_mem ?_ mem, ?_⟩
  · omega
  · apply count_of_short stringBytes
    · omega
    · intro k _
      simp
      omega

namespace SectionOf

variable {rows : List RowIn} {s : TenantStats}

/-- A section whose bytes fit the extension is of its types. -/
theorem typed {handle : String} (of : SectionOf rows s)
    (times : ∀ r ∈ rows, InI64 r.event.eventTime) (few : rows.length < 2 ^ 64)
    (short : ({ s with tenant := handle } : TenantStats).encode.length < 2 ^ 32) :
    ({ s with tenant := handle } : TenantStats).Typed := by
  obtain ⟨named, keyed, count⟩ := stats_short short
  refine ⟨named, ?_, ?_, ?_, keyed, count⟩
  · change s.rows < _
    rw [of.count]
    exact few
  · change InI64 s.timeMin
    rw [of.timeMin]
    exact inI64_foldl_min (by rwa [List.forall_mem_map])
  · change InI64 s.timeMax
    rw [of.timeMax]
    exact inI64_foldl_max (by rwa [List.forall_mem_map])

theorem length_keys (of : SectionOf rows s) :
    s.attributeKeys.length = (sortedSet (rows.flatMap (·.event.attributes.keys))).length := by
  apply List.Perm.length_eq
  rw [List.perm_ext_iff_of_nodup of.nodup (nodup_sortedSet _)]
  simpa using of.keys

/-- The times of a section are in order as soon as it has a row. -/
theorem ordered (of : SectionOf rows s) (some : rows ≠ []) : s.timeMin ≤ s.timeMax := by
  obtain ⟨r, mem⟩ := List.exists_mem_of_ne_nil _ some
  have time := List.mem_map_of_mem (f := (·.event.eventTime)) mem
  rw [of.timeMin, of.timeMax]
  exact le_trans ((foldl_min_le _ _).2 _ time) ((le_foldl_max _ _).2 _ time)

theorem encodable_iff {handle : String} (of : SectionOf rows s)
    (typed : ({ s with tenant := handle } : TenantStats).Typed) (some : rows ≠ []) :
    ({ s with tenant := handle } : TenantStats).Encodable ↔ SectionFits rows := by
  constructor
  · intro ok
    exact ⟨of.costMin ▸ ok.costMin, of.costMax ▸ ok.costMax, of.length_keys ▸ ok.keyed⟩
  · intro fits
    exact ⟨typed, of.costMin ▸ fits.costMin, of.costMax ▸ fits.costMax,
      of.length_keys ▸ fits.keys, of.ordered some⟩

end SectionOf

namespace Written

variable {shape : PartShape} {spec : PartSpec} {batch : List RowIn} {nowMs : Int} {part : Part}
  {promoted : List Promoted} {attrRows : List Attributes} {attributes : Bytes × Bytes}
  {framed : List (ColumnMeta × Bytes)}

variable (w : Written shape spec batch nowMs part promoted attrRows attributes framed)
include w

theorem mem_rows {r : RowIn} : r ∈ part.rows ↔ r ∈ batch := by
  rw [w.rows, mem_sortRows]

/-- The tenants of the part are those of the batch. -/
theorem sortedSet_tenants :
    sortedSet (part.rows.map (·.event.tenantId)) = sortedSet (batch.map (·.event.tenantId)) := by
  refine sortedSet_congr fun tenant => ?_
  simp [w.mem_rows]

omit w in
theorem mem_foldl_attach {row : Nat} {columns : List Promoted} {attrs : Attributes} {k : String} :
    k ∈ columns.foldl (Promoted.attach row) attrs ↔
      k ∈ attrs ∨ ∃ p ∈ columns, (p.values.getD row none).isSome ∧ p.column.key = k := by
  induction columns generalizing attrs with
  | nil => simp
  | cons p columns ih =>
    rw [List.foldl_cons, ih, Promoted.attach]
    simp only [List.mem_cons, exists_eq_or_imp]
    cases p.values.getD row none with
    | none => simp only [Option.isSome_none, Bool.false_eq_true, false_and, false_or]
    | some v =>
      simp only [Option.isSome_some, true_and, Std.ExtTreeMap.mem_insert,
        Std.LawfulEqCmp.compare_eq_iff_eq, or_assoc, or_left_comm]

/-- The keys counted for a row are keys of its attributes, each once. -/
theorem rowKeys_spec : ∀ p ∈ rowKeys part.rows promoted attrRows, p.1 ∈ part.rows ∧ p.2.Nodup ∧
      ∀ k, k ∈ p.2 ↔ k ∈ p.1.event.attributes.keys := by
  obtain ⟨each, names, -, back⟩ := promoteKeys_eq_ok w.promotes
  intro p mem
  obtain ⟨⟨i, row, attrs⟩, zipped, rfl⟩ := List.mem_map.mp mem
  obtain ⟨j, at'⟩ := List.mem_iff_getElem?.mp zipped
  obtain ⟨index, pair⟩ := List.getElem?_zip_eq_some.mp at'
  obtain ⟨found, left⟩ := List.getElem?_zip_eq_some.mp pair
  obtain rfl : j = i := by
    obtain ⟨inside, same⟩ := List.getElem?_eq_some_iff.mp index
    simpa using same
  have inside : row ∈ part.rows := List.mem_of_getElem? found
  have absent : ∀ p ∈ promoted, p.column.key ∉ attrs.keys := by
    intro p listed held
    have none := promoteKeys_absent w.promotes _ (each p listed).1 attrs (List.mem_of_getElem? left)
    rw [Std.ExtTreeMap.mem_keys, Std.ExtTreeMap.mem_iff_isSome_getElem?, none] at held
    cases held
  refine ⟨inside, List.nodup_append.mpr ⟨?_, ?_, ?_⟩, ?_⟩
  · rw [← Std.ExtTreeMap.map_fst_toList_eq_keys]
    exact OrderedMap.nodup_keys _
  · exact names.sublist (List.filter_sublist.map _)
  · rintro k held _ lifted rfl
    obtain ⟨p, listed, rfl⟩ := List.mem_map.mp lifted
    exact absent p (List.mem_filter.mp listed).1 held
  · intro k
    have whole : promoted.foldl (Promoted.attach j) attrs = row.event.attributes := by
      have row' := back j (by simpa using (List.getElem?_eq_some_iff.mp found).1)
      simpa [List.getD_eq_getElem?_getD, left, found] using row'
    rw [← whole, List.mem_append, Std.ExtTreeMap.mem_keys, Std.ExtTreeMap.mem_keys, mem_foldl_attach]
    simp only [List.mem_map, List.mem_filter, and_assoc]

theorem rowKeys_rows : (rowKeys part.rows promoted attrRows).map Prod.fst = part.rows := by
  obtain ⟨-, -, count, -⟩ := promoteKeys_eq_ok w.promotes
  rw [List.length_map] at count
  have pairs : (rowKeys part.rows promoted attrRows).map Prod.fst =
      ((List.range part.rows.length).zip (part.rows.zip attrRows)).map fun p => p.2.1 := by
    rw [rowKeys, List.map_map]
    rfl
  rw [pairs, ← Function.comp_def, ← List.map_map, List.map_snd_zip (by simp [count]),
    List.map_fst_zip (by omega)]

/-- The section of a tenant summarises its rows. -/
theorem section_of (tenant : String) : SectionOf (part.rows.filter (·.event.tenantId = tenant))
      (tenantSection tenant (rowKeys part.rows promoted attrRows)) := by
  have keys := w.rowKeys_spec
  have sums := sums_tenantSection (rowKeys part.rows promoted attrRows) tenant
    fun row mem => (keys row mem).2.1
  have own : (rowsOfTenant tenant (rowKeys part.rows promoted attrRows)).map Prod.fst =
      part.rows.filter (·.event.tenantId = tenant) := by
    conv_rhs => rw [← w.rowKeys_rows, List.filter_map]
    rfl
  have each : ∀ {α : Type} (f : RowIn → α),
      (rowsOfTenant tenant (rowKeys part.rows promoted attrRows)).map (fun row => f row.1) =
        (part.rows.filter (·.event.tenantId = tenant)).map f := by
    intro α f
    rw [← own, List.map_map]
    rfl
  refine ⟨?_, ?_, ?_, ?_, ?_, sums.nodup, fun k => ?_⟩
  · rw [sums.count, ← own, List.length_map]
  · rw [sums.timeMin, each (·.event.eventTime)]
  · rw [sums.timeMax, each (·.event.eventTime)]
  · rw [sums.costMin, each (·.event.cost)]
  · rw [sums.costMax, each (·.event.cost)]
  · rw [sums.keys, ← own, List.mem_flatMap]
    constructor
    · rintro ⟨row, mem, held⟩
      exact ⟨row.1, List.mem_map_of_mem mem, ((keys row (mem_rowsOfTenant.mp mem).1).2.2 k).mp held⟩
    · rintro ⟨r, listed, held⟩
      obtain ⟨row, mem, rfl⟩ := List.mem_map.mp listed
      exact ⟨row, mem, ((keys row (mem_rowsOfTenant.mp mem).1).2.2 k).mpr held⟩

/-- The sections of a part, in the order of the tenants' names and under their handles. -/
theorem tenantStats_writtenS4 : (writtenS4 spec part.rows promoted attrRows).tenantStats =
      (sortedSet (part.rows.map (·.event.tenantId))).map fun tenant =>
        { tenantSection tenant (rowKeys part.rows promoted attrRows) with
          tenant := spec.handle tenant } := by
  have tenants : (rowKeys part.rows promoted attrRows).map (·.1.event.tenantId) =
      part.rows.map (·.event.tenantId) := by
    conv_rhs => rw [← w.rowKeys_rows, List.map_map]
    rfl
  rw [writtenS4, tenantStats_eq, List.map_map, tenants]
  refine List.map_congr_left fun tenant mem => ?_
  rw [mem_sortedSet, ← tenants] at mem
  obtain ⟨row, inside, own⟩ := List.mem_map.mp mem
  rw [Function.comp_apply, tenant_tenantSection (fun row mem => (w.rowKeys_spec row mem).2.1)
    ⟨row, inside, own⟩]

/-- The partition extension is of its types when its parts are. -/
theorem s4_typed (times : ∀ r ∈ part.rows, InI64 r.event.eventTime)
    (partition : ∀ key ∈ spec.partition, key.bucket.Encodable ∧ InI64 key.window)
    (rows : part.rows.length < 2 ^ 64)
    (short : (writtenS4 spec part.rows promoted attrRows).encode.length < 2 ^ 32) :
    (writtenS4 spec part.rows promoted attrRows).Typed := by
  rw [S4Ext.encode_eq] at short
  simp only [List.length_append, Bytes.length_le, List.length_nil] at short
  refine ⟨?_, ?_, ?_, ?_, ?_⟩
  · intro p mem
    obtain ⟨bucket, window⟩ := partition p mem
    refine ⟨bucket, window, ?_⟩
    have own : (writtenS4 spec part.rows promoted attrRows).partition = some p := mem
    rw [own] at short
    simp only [S4Ext.partitionBytes, List.length_cons, List.length_append, length_stringBytes] at short
    unfold Prefixable
    omega
  · intro t mem
    have bytes := length_le_length_flatMap (f := TenantStats.encode) mem
    rw [w.tenantStats_writtenS4] at mem
    obtain ⟨tenant, -, rfl⟩ := List.mem_map.mp mem
    apply (w.section_of tenant).typed
    · exact fun r inside => times r (List.mem_filter.mp inside).1
    · exact lt_of_le_of_lt (List.length_filter_le _ _) rows
    · exact lt_of_le_of_lt bytes (by omega)
  · intro p mem
    have bytes := length_le_length_flatMap
      (f := fun p : PromotedColumn => stringBytes p.key ++ stringBytes p.column ++ [p.typeTag]) mem
    simp only [List.length_append, length_stringBytes, List.length_singleton] at bytes
    constructor <;> unfold Prefixable <;> omega
  · apply count_of_short TenantStats.encode
    · omega
    · intro t _
      simp [TenantStats.encode]
      omega
  · apply count_of_short (fun p : PromotedColumn =>
      stringBytes p.key ++ stringBytes p.column ++ [p.typeTag])
    · omega
    · intro p _
      simp
      omega

/-- Its decoder accepts it when the sections are few and each is small and of finite costs. -/
theorem s4_encodable_iff (typed : (writtenS4 spec part.rows promoted attrRows).Typed) :
    (writtenS4 spec part.rows promoted attrRows).Encodable ↔ Sectionable part.rows := by
  have each : (∀ t ∈ (writtenS4 spec part.rows promoted attrRows).tenantStats, t.Encodable) ↔
      ∀ tenant ∈ part.rows.map (·.event.tenantId),
        SectionFits (part.rows.filter (·.event.tenantId = tenant)) := by
    have sections := typed.tenantStats
    rw [w.tenantStats_writtenS4, List.forall_mem_map] at sections ⊢
    simp only [mem_sortedSet] at sections ⊢
    refine forall₂_congr fun tenant mem => ?_
    obtain ⟨r, inside, own⟩ := List.mem_map.mp mem
    exact (w.section_of tenant).encodable_iff (sections tenant mem)
      (List.ne_nil_of_mem (List.mem_filter.mpr ⟨inside, by simpa using own⟩))
  have count : (writtenS4 spec part.rows promoted attrRows).tenantStats.length =
      (sortedSet (part.rows.map (·.event.tenantId))).length := by
    rw [w.tenantStats_writtenS4, List.length_map]
  constructor
  · intro ok
    exact ⟨count ▸ ok.tenantCount, each.mp ok.tenantStats⟩
  · intro ok
    exact ⟨typed.partition, each.mpr ok.sections, typed.promoted, typed.promotedCount,
      count ▸ ok.tenants⟩

/-- The reader decodes the extension that was written, where there is one. -/
theorem s4_present
    (present : spec.partition.isSome ∨ (writtenS4 spec part.rows promoted attrRows).promoted ≠ []) :
    part.manifest.s4 = S4Ext.decode (writtenS4 spec part.rows promoted attrRows).encode ∧
      (writtenS4 spec part.rows promoted attrRows).encode.length ≤
        (part.manifest.extensions.flatMap Extension.encode).length := by
  obtain ⟨partId, manifest⟩ := w.manifest
  have head : ∃ rest, part.manifest.extensions =
      ⟨extS4Partition, (writtenS4 spec part.rows promoted attrRows).encode⟩ :: rest := by
    rw [manifest, partExtensions, if_pos present]
    exact ⟨_, rfl⟩
  obtain ⟨rest, head⟩ := head
  rw [PartManifest.s4, head, List.find?_cons_of_pos (by simp)]
  simp only [List.flatMap_cons, List.length_append, Extension.encode, Bytes.length_le, true_and]
  omega

theorem framed_of_column {c : ColumnMeta} (mem : c ∈ part.manifest.columns) :
    ∃ f ∈ framed, f.1 = c ∧ ∃ column ∈ logicalColumns part.rows attributes promoted,
      frameColumn shape spec part.manifest.partId column = .ok f := by
  obtain ⟨partId, manifest⟩ := w.manifest
  rw [manifest] at mem
  obtain ⟨f, inside, rfl⟩ := List.mem_map.mp mem
  exact ⟨f, inside, rfl, exists_of_mapM_eq_ok w.frames inside⟩

theorem column_encode : ∀ c ∈ part.manifest.columns, c.encode = .ok c.bytes := by
  intro c mem
  obtain ⟨f, -, rfl, column, -, ran⟩ := w.framed_of_column mem
  obtain ⟨-, -, blocks, storage⟩ := frameColumn_names ran
  exact (ColumnMeta.encode_framed storage).1

theorem short (sized : part.Sized) : part.manifest.Short := by
  have bound := sized.body _ (PartManifest.encode_eq w.column_encode)
  rw [List.length_append, Header.length_encode] at bound
  exact PartManifest.short_of_body (Nat.lt_of_add_lt_add_left bound)

theorem column_length (sized : part.Sized) {column : Column}
    (mem : column ∈ logicalColumns part.rows attributes promoted) :
    column.bytes.length < 2 ^ 63 := by
  obtain ⟨partId, manifest⟩ := w.manifest
  obtain ⟨f, inside, ran⟩ := exists_of_mem_of_mapM_eq_ok w.frames mem
  obtain ⟨-, -, blocks, storage⟩ := frameColumn_names ran
  have bound := sized.columns f.1 (by rw [manifest]; exact List.mem_map_of_mem inside)
  rwa [storage] at bound

theorem row_bounds (sized : part.Sized) : part.rows.length * 4 < 2 ^ 63 ∧
      part.rows.length * shape.pqM < 2 ^ 63 ∧ part.rows.length * (shape.dim * 4) < 2 ^ 63 := by
  have widths : ∀ r ∈ part.rows, r.vector.length = shape.dim ∧ r.code.length = shape.pqM :=
    fun r mem => w.checked r (w.mem_rows.mp mem)
  have codes := w.column_length sized (List.mem_of_getElem? (i := 0) rfl)
  have vectors := w.column_length sized (List.mem_of_getElem? (i := 1) rfl)
  have centroids := w.column_length sized (List.mem_of_getElem? (i := 2) rfl)
  have four : ∀ r ∈ part.rows, 4 ≤ (Bytes.le 4 r.centroid).length := fun r _ => by simp
  have code : ∀ r ∈ part.rows, shape.pqM ≤ r.code.length := fun r mem => (widths r mem).2.ge
  have vector : ∀ r ∈ part.rows,
      shape.dim * 4 ≤ (r.vector.flatMap fun x => Bytes.le 4 x.toNat).length := by
    intro r mem
    rw [length_flatMap_fixed (fun x => Bytes.length_le 4 _), (widths r mem).1]
  exact ⟨lt_of_le_of_lt (length_mul_le_length_flatMap four) centroids,
    lt_of_le_of_lt (length_mul_le_length_flatMap code) codes,
    lt_of_le_of_lt (length_mul_le_length_flatMap vector) vectors⟩

end Written

variable {ranges : List CentroidRange} {before : Option Nat}

/-- Valid marks stand in the order of their centroids. -/
theorem validateMarks_ordered {i next : Nat} (valid : m.validateMarks i next before ranges = .ok ()) :
    (∀ r ∈ ranges, ∀ c ∈ before, c < r.centroid) ∧
      (ranges.map (·.centroid)).Pairwise (· < ·) := by
  induction ranges generalizing i next before with
  | nil => simp
  | cons r rest ih =>
    simp only [PartManifest.validateMarks] at valid
    iterate 4 obtain ⟨-, valid⟩ := refuse_eq_ok.mp valid
    obtain ⟨after, valid⟩ := refuse_eq_ok.mp valid
    obtain ⟨later, ordered⟩ := ih valid
    have first : ∀ c ∈ before, c < r.centroid := by
      intro c mem
      simpa [Option.mem_def.mp mem] using after
    constructor
    · rw [List.forall_mem_cons]
      refine ⟨first, fun q mem c held => ?_⟩
      exact lt_trans (first c held) (later q mem _ rfl)
    · rw [List.map_cons, List.pairwise_cons, List.forall_mem_map]
      exact ⟨fun q mem => later q mem _ rfl, ordered⟩

theorem validateMarks_centroids {i next : Nat}
    (valid : m.validateMarks i next before ranges = .ok ()) : (ranges.map (·.centroid)).Nodup :=
  (validateMarks_ordered valid).2.imp fun less => Nat.ne_of_lt less

end Prism
