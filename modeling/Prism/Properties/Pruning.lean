import Prism.Engine.Search
import Prism.Properties.PartReopen

/-!
Pruning may keep a part that holds no match and must not drop one that does. Four summaries of a
written part decide: the entry of the catalog, the manifest, the section of a tenant and the mark of
a centroid. Each spans the rows it was made of, so none of them drops a row that it is asked about.

A query does not always ask about its own section: it looks one up under the tenant's name, and the
sections of a part that seals names stand under tokens. A tenant whose name is the token of another
is answered from that tenant's times.
-/

namespace Prism

open Codec Fallible

/-! ### Sections that decode -/

namespace Cursor

variable {α β : Type}

theorem demands_f64 (x : F64) : Demands f64 (Bytes.le 8 x.bits.toNat) (x.isFinite = true) := by
  refine ⟨fun before after r ran => ?_⟩
  have small : x.bits.toNat < 256 ^ 8 := x.bits.toNat_lt
  rw [f64, run_bind (reads_unsigned small before after)] at ran
  by_contra infinite
  simp only [UInt64.ofNat_toNat, infinite] at ran
  cases ran

theorem demands_readLen {minBytes n : Nat} {what : String} {f : Nat → Cursor α} {rest : Bytes}
    {P : Prop} (small : n < 2 ^ 32) (there : n * max minBytes 1 ≤ rest.length)
    (demands : Demands (f n) rest P) :
    Demands (readLen minBytes what >>= f) (Bytes.le 4 n ++ rest) P := by
  refine ⟨fun before after r ran => ?_⟩
  rw [run_bind (run_readLen what before after small there)] at ran
  apply demands.holds (before ++ Bytes.le 4 n) after r
  simpa using ran

/-- Elements in a row return only if each of them does. -/
theorem demands_replicate {c : Cursor α} {encode : α → Bytes} {Q : α → Prop} {xs : List α}
    (demands : ∀ x ∈ xs, Demands c (encode x) (Q x))
    (reads : ∀ x ∈ xs, Q x → Reads c (encode x) x) :
    Demands (replicate c xs.length) (xs.flatMap encode) (∀ x ∈ xs, Q x) := by
  induction xs with
  | nil => exact Demands.of_holds (by simp)
  | cons x xs ih =>
    obtain ⟨first, later⟩ := List.forall_mem_cons.mp demands
    obtain ⟨firstReads, laterReads⟩ := List.forall_mem_cons.mp reads
    rw [List.flatMap_cons]
    apply Demands.bind first firstReads
    intro head
    apply Demands.last
    exact (ih later laterReads).mono fun tail => List.forall_mem_cons.mpr ⟨head, tail⟩

end Cursor

/-- A section is decoded only if its decoder accepts it. -/
theorem TenantStats.demands_decode {t : TenantStats} (typed : t.Typed) :
    Demands decode t.encode t.Encodable := by
  simp only [encode, List.append_assoc]
  apply Demands.after (Cursor.reads_string typed.tenant)
  apply Demands.after (Cursor.reads_unsigned typed.rows)
  apply Demands.after (Cursor.reads_i64 typed.timeMin)
  apply Demands.after (Cursor.reads_i64 typed.timeMax)
  apply Demands.bind (Cursor.demands_f64 _) Cursor.reads_f64
  intro costMin
  apply Demands.bind (Cursor.demands_f64 _) Cursor.reads_f64
  intro costMax
  apply Demands.after Cursor.reads_byte
  apply Cursor.demands_readLen typed.keyCount
  · exact length_mul_le_length_flatMap fun k _ => by simp
  apply Demands.passing (by intro buf pos r ran; cases ran)
  intro keyed
  have names := Cursor.reads_replicate _ fun k mem => Cursor.reads_string (typed.attributeKeys k mem)
  rw [← List.append_nil (t.attributeKeys.flatMap stringBytes)]
  apply Demands.after names
  apply Demands.passing (by intro buf pos r ran; cases ran)
  intro ordered
  exact Demands.of_holds ⟨typed, costMin, costMax, by simpa using keyed, by simpa using ordered⟩

namespace S4Ext

theorem demands_partition {α : Type} {partition : Option PartitionKey}
    {f : Option PartitionKey → Cursor α} {rest : Bytes} {P : Prop}
    (ok : ∀ p ∈ partition, p.Encodable) (demands : Demands (f partition) rest P) : Demands (do
        let tag ← Cursor.unsigned 1
        let partition ← if tag = 1 then some <$> PartitionKey.decode else pure none
        f partition) (partitionBytes partition ++ rest) P := by
  cases partition with
  | none =>
    apply Demands.after Cursor.reads_byte
    rw [← List.nil_append rest]
    exact Demands.after (Reads.pure none) demands
  | some p =>
    have tag : Reads (Cursor.unsigned 1) [1] 1 := Cursor.reads_byte
    rw [partitionBytes, ← List.singleton_append, List.append_assoc]
    exact Demands.after tag (Demands.after (Reads.map (PartitionKey.reads_decode (ok p rfl))) demands)

/-- A written extension is decoded only if its decoder accepts every section. -/
theorem encodable_of_decode {e e' : S4Ext} (typed : e.Typed) (ran : S4Ext.decode e.encode = .ok e') :
    e.Encodable := by
  refine Demands.of_run ?_ ran
  rw [encode_eq]
  apply demands_partition typed.partition
  apply Cursor.demands_readLen typed.tenantCount
  · have room : e.tenantStats.length * max 49 1 ≤
        (e.tenantStats.flatMap TenantStats.encode).length :=
      length_mul_le_length_flatMap fun t _ => by simp [TenantStats.encode]; omega
    rw [List.length_append]
    omega
  apply Demands.passing (by intro buf pos r ran; cases ran)
  intro few
  apply Demands.bind (Cursor.demands_replicate
    (fun t mem => TenantStats.demands_decode (typed.tenantStats t mem))
    fun t _ ok => TenantStats.reads_decode ok)
    (fun each => Cursor.reads_replicate _ fun t mem => TenantStats.reads_decode (each t mem))
  intro each
  exact Demands.of_holds
    ⟨typed.partition, each, typed.promoted, typed.promotedCount, by simpa using few⟩

end S4Ext

/-! ### Time ranges -/

def RowIn.Asked (tenant : String) (lo hi : Option Int) (r : RowIn) : Prop :=
  r.event.tenantId = tenant ∧ (∀ t ∈ lo, t ≤ r.event.eventTime) ∧ ∀ t ∈ hi, r.event.eventTime ≤ t

variable {time : Int}

/-- A range of times is kept by every query for a time within it. -/
theorem timesMayMatch_of_within {timeMin timeMax : Int} {lo hi : Option Int}
    (early : timeMin ≤ time) (late : time ≤ timeMax) (from' : ∀ t ∈ lo, t ≤ time)
    (upto : ∀ t ∈ hi, time ≤ t) : timesMayMatch timeMin timeMax lo hi = true := by
  cases lo <;> cases hi <;> simp_all [timesMayMatch] <;> omega

theorem timesMayMatch_at {timeMin timeMax : Int} :
    timesMayMatch timeMin timeMax (some time) (some time) = true ↔
      timeMin ≤ time ∧ time ≤ timeMax := by
  simp only [timesMayMatch, Option.any_some, Bool.and_eq_true, Bool.not_eq_true',
    decide_eq_false_iff_not, not_lt, gt_iff_lt]
  exact and_comm

/-- The least of some times is no later than a time as soon as one of them is. -/
theorem foldl_min_le_iff {times : List Int} (some : times ≠ []) (range : ∀ t ∈ times, InI64 t) :
    times.foldl min maxI64 ≤ time ↔ ∃ t ∈ times, t ≤ time := by
  constructor
  · intro least
    by_contra none
    push Not at none
    obtain ⟨t, mem⟩ := List.exists_mem_of_ne_nil _ some
    have start : time < maxI64 := lt_of_lt_of_le (none t mem) (range t mem).2
    have above : time < times.foldl min maxI64 :=
      foldl_choice (P := (time < ·)) (fun a b left right => lt_min left right) start none
    omega
  · rintro ⟨t, mem, early⟩
    exact le_trans ((foldl_min_le _ _).2 t mem) early

theorem le_foldl_max_iff {times : List Int} (some : times ≠ []) (range : ∀ t ∈ times, InI64 t) :
    time ≤ times.foldl max minI64 ↔ ∃ t ∈ times, time ≤ t := by
  constructor
  · intro greatest
    by_contra none
    push Not at none
    obtain ⟨t, mem⟩ := List.exists_mem_of_ne_nil _ some
    have start : minI64 < time := lt_of_le_of_lt (range t mem).1 (none t mem)
    have below : times.foldl max minI64 < time :=
      foldl_choice (P := (· < time)) (fun a b left right => max_lt left right) start none
    omega
  · rintro ⟨t, mem, late⟩
    exact le_trans late ((le_foldl_max _ _).2 t mem)

/-! ### What every level says of a row -/

namespace Written

variable {shape : PartShape} {spec : PartSpec} {batch : List RowIn} {nowMs : Int} {part : Part}
  {promoted : List Promoted} {attrRows : List Attributes} {attributes : Bytes × Bytes}
  {framed : List (ColumnMeta × Bytes)} {tokenizer : Option TenantTokenizer} {r : RowIn}

variable (w : Written shape spec batch nowMs part promoted attrRows attributes framed)
include w

/-- The handles of a part answer to the tenant of every row, in plain and under a token. -/
theorem handleMatches_row (handles : spec.tenantTokenizer = none ∨ spec.tenantTokenizer = tokenizer)
    (mem : r ∈ batch) : handleMatches part.manifest.tenants r.event.tenantId tokenizer = true := by
  obtain ⟨partId, manifest⟩ := w.manifest
  have listed : spec.handle r.event.tenantId ∈ part.manifest.tenants := by
    rw [manifest, mem_sortedSet]
    exact List.mem_map.mpr ⟨r, w.mem_rows.mpr mem, rfl⟩
  cases named : spec.tenantTokenizer with
  | none =>
    rw [PartSpec.handle, named] at listed
    simp [handleMatches, listed]
  | some t =>
    rw [PartSpec.handle, named] at listed
    have same : tokenizer = some t := by
      rcases handles with none | same
      · rw [named] at none
        cases none
      · rw [← same, named]
    simp [handleMatches, same, listed]

theorem times_row (mem : r ∈ batch) :
    part.manifest.timeMin ≤ r.event.eventTime ∧ r.event.eventTime ≤ part.manifest.timeMax := by
  obtain ⟨partId, manifest⟩ := w.manifest
  have time := List.mem_map_of_mem (f := (·.event.eventTime)) (w.mem_rows.mpr mem)
  rw [manifest]
  exact ⟨(foldl_min_le _ _).2 _ time, (le_foldl_max _ _).2 _ time⟩

theorem mayMatch_row (handles : spec.tenantTokenizer = none ∨ spec.tenantTokenizer = tokenizer)
    {tenant : String} {lo hi : Option Int} (mem : r ∈ batch) (asked : r.Asked tenant lo hi) :
    part.manifest.mayMatch (some tenant) lo hi tokenizer = true := by
  obtain ⟨rfl, from', upto⟩ := asked
  obtain ⟨early, late⟩ := w.times_row mem
  have handle := w.handleMatches_row handles mem
  simp [PartManifest.mayMatch, handle, timesMayMatch_of_within early late from' upto]

/-- The catalog's entry repeats what the manifest says. -/
theorem candidateParts_row
    (handles : spec.tenantTokenizer = none ∨ spec.tenantTokenizer = tokenizer) {tenant : String}
    {lo hi : Option Int} (mem : r ∈ batch) (asked : r.Asked tenant lo hi) {key : PartitionKey}
    {snap : Snapshot} (registered : .located (Engine.partRef part.manifest key) ∈ snap.parts) :
    part.manifest.partId ∈ snap.candidateParts (some tenant) lo hi tokenizer := by
  have keeps := w.mayMatch_row handles mem asked
  refine List.mem_map.mpr ⟨_, List.mem_filter.mpr ⟨registered, ?_⟩, rfl⟩
  simpa [PartEntry.located?, PartRef.mayMatch, PartManifest.mayMatch, Engine.partRef] using keeps

/-- The mark of a row's centroid is found under it, spans the row's time and holds the row. -/
theorem centroidRange_row {row : Nat} (found : part.rows[row]? = some r) :
    ∃ range, part.manifest.centroidRanges.find? (·.centroid = r.centroid) = some range ∧
      range.Holds row ∧ range.timeMin ≤ r.event.eventTime ∧ r.event.eventTime ≤ range.timeMax := by
  obtain ⟨partId, manifest⟩ := w.manifest
  have marks : part.manifest.centroidRanges = centroidMarks shape.pqM (shape.dim * 4) part.rows := by
    rw [manifest]
  have marked := marked_centroidMarks shape.pqM (shape.dim * 4) part.rows
  rw [← marks] at marked
  obtain ⟨range, mem, holds⟩ := marked.covered row (List.getElem?_eq_some_iff.mp found).1
  obtain ⟨q, same, centroid, early, late⟩ := marked.held range mem row holds
  obtain rfl := Option.mem_unique found same
  have distinct := validateMarks_centroids (validateStructure_inv w.valid).2
  refine ⟨range, ?_, holds, early, late⟩
  rw [centroid]
  exact find?_of_nodup _ distinct mem

/-- The section that a name finds is that of the first tenant whose handle it is. -/
theorem statsFor_written (tenant : String) :
    (writtenS4 spec part.rows promoted attrRows).statsFor tenant =
      ((sortedSet (batch.map (·.event.tenantId))).find? (spec.handle · = tenant)).map fun owner =>
        { tenantSection owner (rowKeys part.rows promoted attrRows) with
          tenant := spec.handle owner } := by
  rw [S4Ext.statsFor, w.tenantStats_writtenS4, List.find?_map, w.sortedSet_tenants]
  rfl

/-- A section spans a time when its tenant has a row no later and one no earlier. -/
theorem section_spans_iff (times : ∀ r ∈ batch, InI64 r.event.eventTime) {owner : String}
    (present : owner ∈ batch.map (·.event.tenantId)) :
    (tenantSection owner (rowKeys part.rows promoted attrRows)).timeMin ≤ time ∧
        time ≤ (tenantSection owner (rowKeys part.rows promoted attrRows)).timeMax ↔
      (∃ s ∈ batch, s.event.tenantId = owner ∧ s.event.eventTime ≤ time) ∧
        ∃ s ∈ batch, s.event.tenantId = owner ∧ time ≤ s.event.eventTime := by
  have of := w.section_of owner
  have some : (part.rows.filter (·.event.tenantId = owner)).map (·.event.eventTime) ≠ [] := by
    obtain ⟨r, mem, own⟩ := List.mem_map.mp present
    exact List.ne_nil_of_mem (List.mem_map_of_mem
      (List.mem_filter.mpr ⟨w.mem_rows.mpr mem, by simpa using own⟩))
  have range : ∀ t ∈ (part.rows.filter (·.event.tenantId = owner)).map (·.event.eventTime),
      InI64 t := by
    rw [List.forall_mem_map]
    exact fun r mem => times r (w.mem_rows.mp (List.mem_filter.mp mem).1)
  rw [of.timeMin, of.timeMax, foldl_min_le_iff some range, le_foldl_max_iff some range]
  simp [w.mem_rows, and_assoc]

/-- What an opened part answers: the times of the section that the name finds, or the manifest. -/
theorem mayHold_written
    (decoded : part.manifest.s4 = .ok (writtenS4 spec part.rows promoted attrRows))
    (tenant : String) (lo hi : Option Int) (cipher : Option BlockCipher) :
    mayHold tokenizer (some tenant) lo hi ⟨part, cipher⟩ =
      .ok (match (sortedSet (batch.map (·.event.tenantId))).find? (spec.handle · = tenant) with
        | some owner =>
          let stats := tenantSection owner (rowKeys part.rows promoted attrRows)
          timesMayMatch stats.timeMin stats.timeMax lo hi
        | none => part.manifest.mayMatch (some tenant) lo hi tokenizer) := by
  rw [mayHold]
  change (part.manifest.s4 >>= _) = _
  rw [decoded]
  simp only [bind, Except.bind, Option.bind, w.statsFor_written tenant]
  cases (sortedSet (batch.map (·.event.tenantId))).find? (spec.handle · = tenant) <;> rfl

end Written

/-- The rows of a tenant lie within the times of whichever tenant's section its name finds. -/
def SectionsSpan (spec : PartSpec) (rows : List RowIn) : Prop :=
  ∀ tenant, ∀ owner ∈ (sortedSet (rows.map (·.event.tenantId))).find? (spec.handle · = tenant),
    ∀ r ∈ rows, r.event.tenantId = tenant →
      (∃ s ∈ rows, s.event.tenantId = owner ∧ s.event.eventTime ≤ r.event.eventTime) ∧
        ∃ s ∈ rows, s.event.tenantId = owner ∧ r.event.eventTime ≤ s.event.eventTime

/-- Every level of pruning keeps a row: the catalog, the manifest, the section of its tenant, the
section that a query consults and the mark of its centroid. -/
structure RowIn.Kept (spec : PartSpec) (part : Part) (key : PartitionKey)
    (tokenizer : Option TenantTokenizer) (tenant : String) (lo hi : Option Int) (r : RowIn) :
    Prop where
  catalog : ∀ snap : Snapshot, .located (Engine.partRef part.manifest key) ∈ snap.parts →
    part.manifest.partId ∈ snap.candidateParts (some tenant) lo hi tokenizer
  manifest : part.manifest.mayMatch (some tenant) lo hi tokenizer = true
  own : ∀ s4, part.manifest.s4 = .ok s4 →
    ∃ stats ∈ s4.tenantStats, stats.tenant = spec.handle tenant ∧ stats.mayMatch lo hi = true
  consulted : ∀ cipher, mayHold tokenizer (some tenant) lo hi ⟨part, cipher⟩ = .ok true
  mark : ∀ row, part.rows[row]? = some r → ∃ range,
    part.manifest.centroidRanges.find? (·.centroid = r.centroid) = some range ∧ range.Holds row ∧
      timesMayMatch range.timeMin range.timeMax lo hi = true

/-- Pruning keeps every row of a part that a query asks for exactly when the sections of the part
decode and the rows of every tenant lie within the section that its name finds. -/
theorem pruning_keeps_iff {shape : PartShape} {spec : PartSpec} {seq : Nat} {batch : List RowIn}
    {nowMs : Int} {part : Part} {key : PartitionKey} {tokenizer : Option TenantTokenizer}
    (built : buildPart shape spec seq batch nowMs = .ok part) (filed : spec.partition = some key)
    (handles : spec.tenantTokenizer = none ∨ spec.tenantTokenizer = tokenizer)
    (times : ∀ r ∈ batch, InI64 r.event.eventTime)
    (typed : key.bucket.Encodable ∧ InI64 key.window) (sized : part.Sized) :
    (∀ tenant lo hi, ∀ r ∈ batch, r.Asked tenant lo hi → r.Kept spec part key tokenizer tenant lo hi) ↔
      Sectionable (sortRows batch) ∧ SectionsSpan spec batch := by
  obtain ⟨promoted, attrRows, attributes, framed, w⟩ := buildPart_written built
  obtain ⟨decoded, size⟩ := w.s4_present (.inl (by simp [filed]))
  have short := (w.short sized).extensions
  obtain ⟨few, -, -⟩ := w.row_bounds sized
  have s4 := w.s4_typed (fun r mem => times r (w.mem_rows.mp mem))
    (fun p mem => by obtain rfl := Option.mem_unique filed mem; exact typed) (by omega)
    (lt_of_le_of_lt size short)
  rw [← w.rows, ← w.s4_encodable_iff s4]
  constructor
  · intro keeps
    -- The part has a row, and the query for it has decoded the sections.
    have readable : (writtenS4 spec part.rows promoted attrRows).Encodable := by
      obtain ⟨r, mem⟩ := List.exists_mem_of_ne_nil _ w.nonempty
      have kept := (keeps r.event.tenantId none none r mem ⟨rfl, nofun, nofun⟩).consulted none
      obtain ⟨e, found, -⟩ := bind_eq_ok.mp kept
      exact S4Ext.encodable_of_decode s4 (decoded.symm.trans found)
    refine ⟨readable, fun tenant owner found r mem own => ?_⟩
    have kept := (keeps tenant (some r.event.eventTime) (some r.event.eventTime) r mem
      ⟨own, by simp, by simp⟩).consulted none
    rw [w.mayHold_written (decoded.trans (S4Ext.decode_encode readable)), Option.mem_def.mp found,
      Except.ok.injEq, timesMayMatch_at] at kept
    have present := mem_sortedSet.mp (List.mem_of_find?_eq_some found)
    exact (w.section_spans_iff times present).mp kept
  · rintro ⟨readable, span⟩ tenant lo hi r mem asked
    have sections := decoded.trans (S4Ext.decode_encode readable)
    have manifest := w.mayMatch_row handles mem asked
    refine ⟨fun snap => w.candidateParts_row handles mem asked, manifest, ?_, fun cipher => ?_, ?_⟩
      <;> obtain ⟨own, from', upto⟩ := asked
    · intro e found
      obtain rfl := ok_unique sections found
      have present : tenant ∈ batch.map (·.event.tenantId) := List.mem_map.mpr ⟨r, mem, own⟩
      rw [w.tenantStats_writtenS4, w.sortedSet_tenants]
      refine ⟨_, List.mem_map.mpr ⟨tenant, mem_sortedSet.mpr present, rfl⟩, rfl, ?_⟩
      obtain ⟨early, late⟩ := (w.section_spans_iff times present).mpr
        ⟨⟨r, mem, own, le_refl _⟩, r, mem, own, le_refl _⟩
      exact timesMayMatch_of_within early late from' upto
    · rw [w.mayHold_written sections, Except.ok.injEq]
      cases found : (sortedSet (batch.map (·.event.tenantId))).find? (spec.handle · = tenant) with
      | none => exact manifest
      | some owner =>
        have present := mem_sortedSet.mp (List.mem_of_find?_eq_some found)
        obtain ⟨early, late⟩ := (w.section_spans_iff times present).mpr
          (span tenant owner found r mem own)
        exact timesMayMatch_of_within early late from' upto
    · intro row held
      obtain ⟨range, found, holds, early, late⟩ := w.centroidRange_row held
      exact ⟨range, found, holds, timesMayMatch_of_within early late from' upto⟩

/-! ### A store that seals names -/

def sealedNames : TenantTokenizer := ⟨List.replicate 32 0⟩

def sealedKey : PartitionKey := ⟨.shared 0, 0, "g"⟩

def sealedShape : PartShape := ⟨"g", "m", "1", 1, 1, 64⟩

def sealedSpec : PartSpec := ⟨some sealedKey, [], {}, none, some sealedNames⟩

def sealedRow (tenant : String) (time : Int) : RowIn where
  event := ⟨"e", tenant, time, 0, "n", F64.zero, false, "b", "", "", ∅, none⟩
  centroid := 0
  code := [0]
  vector := [0]

theorem sized_of_lengths {shape : PartShape} {spec : PartSpec} {seq : Nat} {batch : List RowIn}
    {nowMs : Int} {part : Part} (built : buildPart shape spec seq batch nowMs = .ok part)
    (body : part.manifest.bodyBytes.length < 2 ^ 32) (dim : part.manifest.dim < 2 ^ 32)
    (files : ∀ f ∈ part.files, f.2.length < 2 ^ 63)
    (columns : ∀ c ∈ part.manifest.columns, c.storage.logicalBytes < 2 ^ 63) : part.Sized := by
  obtain ⟨promoted, attrRows, attributes, framed, w⟩ := buildPart_written built
  refine ⟨fun bytes encoded => ?_, dim, files, columns⟩
  rw [PartManifest.encode_eq w.column_encode, Except.ok.injEq] at encoded
  rw [← encoded, List.length_append, Header.length_encode]
  exact Nat.add_lt_add_left body _

/-- Two tenants of one part whose names are nobody's token. -/
def sealedBatch : List RowIn := [sealedRow "u" 0, sealedRow "v" 1000]

/-- No name of the batch finds a section, so the manifest decides and keeps every row. -/
theorem pruning_keeps_sealed : ∃ part, buildPart sealedShape sealedSpec 0 sealedBatch 0 = .ok part ∧
    ∀ tenant lo hi, ∀ r ∈ sealedBatch, r.Asked tenant lo hi →
      r.Kept sealedSpec part sealedKey (some sealedNames) tenant lo hi := by
  have checks : (buildPart sealedShape sealedSpec 0 sealedBatch 0).toOption.any (fun part =>
      part.manifest.bodyBytes.length < 2 ^ 32 ∧ part.manifest.dim < 2 ^ 32 ∧
        (∀ f ∈ part.files, f.2.length < 2 ^ 63) ∧
        ∀ c ∈ part.manifest.columns, c.storage.logicalBytes < 2 ^ 63) = true := by
    decide +kernel
  cases built : buildPart sealedShape sealedSpec 0 sealedBatch 0 with
  | error e => simp [built, Except.toOption] at checks
  | ok part =>
    simp only [built, Except.toOption, Option.any_some, decide_eq_true_eq] at checks
    obtain ⟨body, dim, files, columns⟩ := checks
    refine ⟨part, rfl, (pruning_keeps_iff built rfl (.inr rfl) (by decide)
      ⟨by change 0 < 2 ^ 32; decide, by decide⟩
      (sized_of_lengths built body dim files columns)).mpr ⟨?_, ?_⟩⟩
    · have fits : ∀ tenant ∈ (sortRows sealedBatch).map (·.event.tenantId),
          let rows := (sortRows sealedBatch).filter (·.event.tenantId = tenant)
          ((rows.map (·.event.cost)).foldl F64.min F64.infinity).isFinite = true ∧
            ((rows.map (·.event.cost)).foldl F64.max F64.negInfinity).isFinite = true ∧
            (sortedSet (rows.flatMap (·.event.attributes.keys))).length ≤
              maxAttributeKeyCardinality := by
        decide +kernel
      refine ⟨by decide +kernel, fun tenant mem => ?_⟩
      obtain ⟨costMin, costMax, keys⟩ := fits tenant mem
      exact ⟨costMin, costMax, keys⟩
    · have nobody : ∀ r ∈ sealedBatch, (sortedSet (sealedBatch.map (·.event.tenantId))).find?
          (sealedSpec.handle · = r.event.tenantId) = none := by
        decide +kernel
      rintro _ owner found r mem rfl
      rw [nobody r mem] at found
      cases found

/-- A tenant named as the token of another: its only row is later than that tenant's, whose section
its name finds. -/
theorem pruning_drops_sealed : ∃ part r, buildPart sealedShape sealedSpec 0
      [sealedRow "u" 0, sealedRow (sealedNames.token "u") 1000] 0 = .ok part ∧
    r ∈ [sealedRow "u" 0, sealedRow (sealedNames.token "u") 1000] ∧
    r.Asked (sealedNames.token "u") (some 1000) (some 1000) ∧
    mayHold (some sealedNames) (some (sealedNames.token "u")) (some 1000) (some 1000) ⟨part, none⟩ =
      .ok false := by
  have checks : ((buildPart sealedShape sealedSpec 0
      [sealedRow "u" 0, sealedRow (sealedNames.token "u") 1000] 0).toOption.bind fun part =>
        (mayHold (some sealedNames) (some (sealedNames.token "u")) (some 1000) (some 1000)
          ⟨part, none⟩).toOption) = some false := by
    decide +kernel
  cases built : buildPart sealedShape sealedSpec 0
      [sealedRow "u" 0, sealedRow (sealedNames.token "u") 1000] 0 with
  | error e => simp [built, Except.toOption] at checks
  | ok part =>
    simp only [built, Except.toOption, Option.bind_some] at checks
    refine ⟨part, _, rfl, List.mem_cons_of_mem _ List.mem_cons_self, ⟨rfl, ?_, ?_⟩, ?_⟩
    · simp [sealedRow]
    · simp [sealedRow]
    · cases answer : mayHold (some sealedNames) (some (sealedNames.token "u")) (some 1000) (some 1000)
          ⟨part, none⟩ with
      | error e => simp [answer] at checks
      | ok kept => simpa [answer] using checks

end Prism
