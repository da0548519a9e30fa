import Prism.Lib.Codec
import Prism.Part.Manifest

/-!
The binary manifest and the extensions it carries read back as they were written: every field is
read from its own bytes and no other, and no check of the decoder refuses an honest encoding.
-/

namespace Prism

open Codec Fallible

variable {b : UInt8} {buf : Bytes}

/-! ### Fields -/

def InI64 (x : Int) : Prop := minI64 ≤ x ∧ x ≤ maxI64

variable (s : String)

def Prefixable : Prop := s.utf8ByteSize < 2 ^ 32

instance (x : Int) : Decidable (InI64 x) := inferInstanceAs (Decidable (_ ∧ _))

instance (s : String) : Decidable (Prefixable s) :=
  inferInstanceAs (Decidable (s.utf8ByteSize < 2 ^ 32))

/-- The bytes of an `i64` are those of one number, which wraps to it. -/
theorem wrapI64_ofLe {x : Int} (range : InI64 x) : wrapI64 (Bytes.ofLe (i64Bytes x)) = x := by
  obtain ⟨low, high⟩ := range
  simp only [minI64, maxI64] at low high
  simp only [wrapI64, i64Bytes, Bytes.ofLe_le, Int.bmod_def]
  split <;> omega

theorem toByteArray_utf8 : (⟨(utf8 s).toArray⟩ : ByteArray) = s.toByteArray := by
  rw [← String.utf8Encode_toList]
  apply ByteArray.ext
  simp [utf8, List.utf8Encode, List.data_toByteArray]

@[simp] theorem length_utf8 : (utf8 s).length = s.utf8ByteSize := by
  have size := congrArg ByteArray.size (toByteArray_utf8 s)
  rwa [ByteArray.size, List.size_toArray, String.size_toByteArray] at size

/-- The bytes of a text are UTF-8, and decode to it. -/
@[simp] theorem fromUtf8_utf8 : fromUtf8 (utf8 s) = some s := by
  have valid : s.toByteArray.IsValidUTF8 := s.isValidUTF8
  rw [fromUtf8, toByteArray_utf8, String.fromUTF8?, dif_pos valid]
  rfl

theorem utf8_inj {s s' : String} : utf8 s = utf8 s' ↔ s = s' := by
  refine ⟨fun same => ?_, fun same => same ▸ rfl⟩
  have read := congrArg fromUtf8 same
  simpa using read

variable {rest : Bytes}

namespace Cursor

variable {α : Type} {buf : Bytes} {pos : Nat} {c : Cursor α}

theorem run_bind {β : Type} {f : α → Cursor β} {next : Nat} {a : α}
    (ran : c buf pos = .ok (a, next)) : (c >>= f) buf pos = f a buf next := by
  change (c buf pos).bind _ = _
  rw [ran]
  rfl

theorem run_remaining : remaining buf pos = .ok (buf.length - pos, pos) := rfl

theorem run_take (n : Nat) (pos : Nat) (there : pos + n ≤ buf.length) :
    take n buf pos = .ok ((buf.drop pos).take n, pos + n) := by
  have enough : ¬ buf.length - pos < n := by omega
  have position : (get : Cursor Nat) buf pos = .ok (pos, pos) := rfl
  rw [take, run_bind position, run_bind run_remaining, if_neg enough]
  rfl

theorem run_unsigned (n : Nat) (pos : Nat) (there : pos + n ≤ buf.length) :
    unsigned n buf pos = .ok (Bytes.ofLe ((buf.drop pos).take n), pos + n) :=
  run_bind (run_take n pos there)

variable {n : Nat}

theorem reads_take {bytes : Bytes} (long : bytes.length = n) : Reads (take n) bytes bytes := by
  intro before after
  rw [run_take n _ (by simp; omega)]
  simp [← long]

theorem reads_unsigned {value : Nat} (small : value < 256 ^ n) :
    Reads (unsigned n) (Bytes.le n value) value := by
  have read := (reads_take (Bytes.length_le n value)).last (f := Bytes.ofLe)
  rwa [Bytes.ofLe_le_of_lt small] at read

theorem reads_i64 {x : Int} (range : InI64 x) : Reads i64 (i64Bytes x) x := by
  have width : (i64Bytes x).length = 8 := Bytes.length_le 8 _
  have read := (reads_take width).last (f := Bytes.ofLe)
  have wrapped := read.last (f := fun n : Nat => wrapI64 n)
  rwa [wrapI64_ofLe range] at wrapped

theorem reads_f64 {x : F64} (finite : x.isFinite = true) :
    Reads f64 (Bytes.le 8 x.bits.toNat) x := by
  intro before after
  have small : x.bits.toNat < 256 ^ 8 := x.bits.toNat_lt
  rw [f64, run_bind (reads_unsigned small before after)]
  simp only [UInt64.ofNat_toNat, finite, if_true]
  rfl

theorem reads_string {s : String} (short : Prefixable s) : Reads string (stringBytes s) s := by
  intro before after
  have count : unsigned 4 (before ++ (stringBytes s ++ after)) before.length =
      .ok (s.utf8ByteSize, (before ++ Bytes.le 4 s.utf8ByteSize).length) := by
    simpa [stringBytes] using
      reads_unsigned (n := 4) (by simpa [Prefixable] using short) before (utf8 s ++ after)
  have body : take s.utf8ByteSize (before ++ (stringBytes s ++ after))
      (before ++ Bytes.le 4 s.utf8ByteSize).length =
        .ok (utf8 s, (before ++ stringBytes s).length) := by
    simpa [stringBytes] using reads_take (length_utf8 s) (before ++ Bytes.le 4 s.utf8ByteSize) after
  have enough : ¬ s.utf8ByteSize > (before ++ (stringBytes s ++ after)).length -
      (before ++ Bytes.le 4 s.utf8ByteSize).length := by
    simp [stringBytes]
    omega
  rw [string, run_bind count, run_bind run_remaining, if_neg enough, run_bind body]
  have text : String.fromUTF8? ⟨(utf8 s).toArray⟩ = some s := fromUtf8_utf8 s
  simp only [text]
  rfl

variable {minBytes : Nat}

/-- A count goes through when the bytes that follow it can hold that many elements. -/
theorem run_readLen (what : String) (before after : Bytes) (small : n < 2 ^ 32)
    (there : n * max minBytes 1 ≤ rest.length) :
    readLen minBytes what (before ++ (Bytes.le 4 n ++ rest ++ after)) before.length =
      .ok (n, (before ++ Bytes.le 4 n).length) := by
  have count : unsigned 4 (before ++ (Bytes.le 4 n ++ rest ++ after)) before.length =
      .ok (n, (before ++ Bytes.le 4 n).length) := by
    simpa using reads_unsigned (n := 4) (by simpa using small) before (rest ++ after)
  have enough : ¬ n * max minBytes 1 > (before ++ (Bytes.le 4 n ++ rest ++ after)).length -
      (before ++ Bytes.le 4 n).length := by
    simp only [List.length_append, Bytes.length_le]
    omega
  rw [readLen, run_bind count, run_bind run_remaining, if_neg enough]
  rfl

theorem reads_readLen {what : String} {f : Nat → Cursor α} {a : α} (small : n < 2 ^ 32)
    (there : n * max minBytes 1 ≤ rest.length) (read : Reads (f n) rest a) :
    Reads (readLen minBytes what >>= f) (Bytes.le 4 n ++ rest) a := by
  intro before after
  rw [run_bind (run_readLen what before after small there)]
  simpa using read (before ++ Bytes.le 4 n) after

variable {encode : α → Bytes}

/-- Elements that are read from their own encodings are read from these in a row. -/
theorem reads_replicate : ∀ xs : List α, (∀ x ∈ xs, Reads c (encode x) x) →
      Reads (replicate c xs.length) (xs.flatMap encode) xs
  | [], _ => Reads.pure []
  | x :: xs, each => by
    have head := each x List.mem_cons_self
    have tail := reads_replicate xs fun y mem => each y (List.mem_cons_of_mem x mem)
    simpa [replicate] using head.bind (tail.last (f := (x :: ·)))

/-- A counted list, and what is read behind it. -/
theorem reads_counted {β : Type} {what : String} {xs : List α} {f : List α → Cursor β} {b : β}
    (small : xs.length < 2 ^ 32) (least : ∀ x ∈ xs, max minBytes 1 ≤ (encode x).length)
    (each : ∀ x ∈ xs, Reads c (encode x) x) (read : Reads (f xs) rest b) :
    Reads (readLen minBytes what >>= fun n => replicate c n >>= f)
      (Bytes.le 4 xs.length ++ (xs.flatMap encode ++ rest)) b := by
  apply reads_readLen small
  · have room := length_mul_le_length_flatMap least
    rw [List.length_append]
    omega
  · exact (reads_replicate xs each).bind read

end Cursor

/-! ### Extensions -/

@[simp] theorem length_stringBytes :
    (stringBytes s).length = 4 + s.utf8ByteSize := by
  simp [stringBytes]

@[simp] theorem length_i64Bytes (x : Int) : (i64Bytes x).length = 8 := by simp [i64Bytes]

/-- One byte, written as such. -/
theorem Cursor.reads_byte : Reads (unsigned 1) [b] b.toNat := by
  have read := @reads_unsigned 1 b.toNat b.toNat_lt
  simpa [Bytes.le] using read

/-- An encryption envelope with values of its types in the source that its decoder accepts. -/
structure S14Ext.Encodable (e : S14Ext) : Prop where
  algorithm : e.algorithm < 2 ^ 16
  wrappingKeyId : Prefixable e.wrappingKeyId
  dekEpoch : e.dekEpoch < 2 ^ 64
  bucketOrdinal : e.bucketOrdinal < 2 ^ 64
  named : e.wrappingKeyId ≠ ""
  wrapped : e.wrappedDek ≠ []
  bounded : e.wrappedDek.length ≤ maxWrappedDekBytes

theorem S14Ext.decode_encode {e : S14Ext} (ok : e.Encodable) : S14Ext.decode e.encode = .ok e := by
  apply Reads.run
  have bounded := ok.bounded
  simp only [maxWrappedDekBytes] at bounded
  simp only [encode, List.append_assoc]
  apply (Cursor.reads_unsigned ok.algorithm).bind
  apply (Cursor.reads_string ok.wrappingKeyId).bind
  apply (Cursor.reads_unsigned ok.dekEpoch).bind
  apply (Cursor.reads_unsigned (n := 4) (by omega)).bind
  apply Reads.passing (by simp [maxWrappedDekBytes, bounded])
  apply (Cursor.reads_take rfl).bind
  apply (Cursor.reads_unsigned ok.bucketOrdinal).bind_nil
  apply Reads.passing (by simpa using ok.named)
  apply Reads.passing (by simpa using ok.wrapped)
  exact Reads.pure e

structure S5Ext.Encodable (e : S5Ext) : Prop where
  reembeddedFrom : ∀ g ∈ e.reembeddedFrom, Prefixable g
  redactedAtMs : InI64 e.redactedAtMs
  redactionReason : Prefixable e.redactionReason
  explained : e.bodiesRedacted = true → e.redactionReason ≠ ""

def S5Ext.lineageBytes : Option String → Bytes
  | none => [0]
  | some g => 1 :: stringBytes g

theorem S5Ext.reads_lineage {α : Type} {lineage : Option String} {f : Option String → Cursor α}
    {a : α} (short : ∀ g ∈ lineage, Prefixable g) (read : Reads (f lineage) rest a) : Reads (do
        let tag ← Cursor.unsigned 1
        let lineage ← if tag = 1 then some <$> Cursor.string else pure none
        f lineage) (lineageBytes lineage ++ rest) a := by
  cases lineage with
  | none =>
    apply Cursor.reads_byte.bind
    rw [← List.nil_append rest]
    exact (Reads.pure none).bind read
  | some g =>
    have tag : Reads (Cursor.unsigned 1) [1] 1 := Cursor.reads_byte
    exact tag.bind ((Reads.map (Cursor.reads_string (short g rfl))).bind read)

theorem S5Ext.decode_encode {e : S5Ext} (ok : e.Encodable) : S5Ext.decode e.encode = .ok e := by
  apply Reads.run
  have split : e.encode = lineageBytes e.reembeddedFrom ++ ([if e.bodiesRedacted then 1 else 0] ++
      (i64Bytes e.redactedAtMs ++ stringBytes e.redactionReason)) := by
    cases e with
    | mk lineage _ _ _ => cases lineage <;> simp [encode, lineageBytes]
  rw [split]
  apply reads_lineage ok.reembeddedFrom
  apply Cursor.reads_byte.bind
  apply (Cursor.reads_i64 ok.redactedAtMs).bind
  apply (Cursor.reads_string ok.redactionReason).bind_nil
  have explained := ok.explained
  cases e with
  | mk _ redacted _ reason =>
    cases redacted with
    | false => exact Reads.passing (by simp) (Reads.pure _)
    | true => exact Reads.passing (by simpa using explained) (Reads.pure _)

def Bucket.Encodable : Bucket → Prop
  | .shared i => i < 2 ^ 32
  | .dedicated i => i < 2 ^ 32

structure PartitionKey.Encodable (p : PartitionKey) : Prop where
  bucket : p.bucket.Encodable
  window : InI64 p.window
  generation : Prefixable p.generation

structure TenantStats.Typed (t : TenantStats) : Prop where
  tenant : Prefixable t.tenant
  rows : t.rows < 2 ^ 64
  timeMin : InI64 t.timeMin
  timeMax : InI64 t.timeMax
  attributeKeys : ∀ k ∈ t.attributeKeys, Prefixable k
  keyCount : t.attributeKeys.length < 2 ^ 32

structure TenantStats.Encodable (t : TenantStats) : Prop extends t.Typed where
  costMin : t.costMin.isFinite = true
  costMax : t.costMax.isFinite = true
  keyed : t.attributeKeys.length ≤ maxAttributeKeyCardinality
  ordered : t.timeMin ≤ t.timeMax

structure PromotedColumn.Encodable (p : PromotedColumn) : Prop where
  key : Prefixable p.key
  column : Prefixable p.column

structure S4Ext.Typed (e : S4Ext) : Prop where
  partition : ∀ p ∈ e.partition, p.Encodable
  tenantStats : ∀ t ∈ e.tenantStats, t.Typed
  promoted : ∀ p ∈ e.promoted, p.Encodable
  tenantCount : e.tenantStats.length < 2 ^ 32
  promotedCount : e.promoted.length < 2 ^ 32

structure S4Ext.Encodable (e : S4Ext) : Prop where
  partition : ∀ p ∈ e.partition, p.Encodable
  tenantStats : ∀ t ∈ e.tenantStats, t.Encodable
  promoted : ∀ p ∈ e.promoted, p.Encodable
  promotedCount : e.promoted.length < 2 ^ 32
  tenantCount : e.tenantStats.length ≤ maxTenantsPerPart

def Bucket.bytes : Bucket → Bytes
  | .shared i => 0 :: Bytes.le 4 i
  | .dedicated i => 1 :: Bytes.le 4 i

theorem PartitionKey.reads_decode {p : PartitionKey} (ok : p.Encodable) :
    Reads decode (p.bucket.bytes ++ (i64Bytes p.window ++ stringBytes p.generation)) p := by
  obtain ⟨bucket, window, generation⟩ := p
  have index := ok.bucket
  have tail : ∀ b : Bucket, Reads (do
      let window ← Cursor.i64
      let generation ← Cursor.string
      return (⟨b, window, generation⟩ : PartitionKey))
      (i64Bytes window ++ stringBytes generation) ⟨b, window, generation⟩ := fun b =>
    (Cursor.reads_i64 ok.window).bind (Cursor.reads_string ok.generation).last
  cases bucket with
  | shared i =>
    have kind : Reads (Cursor.unsigned 1) [0] 0 := Cursor.reads_byte
    exact kind.bind ((Reads.map (Cursor.reads_unsigned index)).bind (tail (.shared i)))
  | dedicated i =>
    have kind : Reads (Cursor.unsigned 1) [1] 1 := Cursor.reads_byte
    exact kind.bind ((Reads.map (Cursor.reads_unsigned index)).bind (tail (.dedicated i)))

/-- The two flags of a section share a byte. -/
theorem flags_byte (hasError hasSuccess : Bool) :
    let flags := ((if hasError then (1 : UInt8) else 0) ||| (if hasSuccess then 2 else 0)).toNat
    (flags % 2 ≠ 0 ↔ hasError) ∧ (flags / 2 % 2 ≠ 0 ↔ hasSuccess) := by
  revert hasError hasSuccess
  decide

theorem TenantStats.reads_decode {t : TenantStats} (ok : t.Encodable) : Reads decode t.encode t := by
  have keyed := ok.keyed
  simp only [encode, List.append_assoc]
  apply (Cursor.reads_string ok.tenant).bind
  apply (Cursor.reads_unsigned ok.rows).bind
  apply (Cursor.reads_i64 ok.timeMin).bind
  apply (Cursor.reads_i64 ok.timeMax).bind
  apply (Cursor.reads_f64 ok.costMin).bind
  apply (Cursor.reads_f64 ok.costMax).bind
  apply Cursor.reads_byte.bind
  apply Cursor.reads_readLen
  · exact ok.keyCount
  · exact length_mul_le_length_flatMap fun k _ => by simp
  apply Reads.passing (by simpa using keyed)
  apply (Cursor.reads_replicate _ fun k mem => Cursor.reads_string (ok.attributeKeys k mem)).bind_nil
  apply Reads.passing (by simpa using ok.ordered)
  have flags := flags_byte t.hasError t.hasSuccess
  simpa only [flags.1, flags.2, Bool.decide_eq_true] using Reads.pure t

theorem PromotedColumn.reads_decode {p : PromotedColumn} (ok : p.Encodable) :
    Reads decode (stringBytes p.key ++ stringBytes p.column ++ [p.typeTag]) p := by
  rw [List.append_assoc]
  apply (Cursor.reads_string ok.key).bind
  apply (Cursor.reads_string ok.column).bind
  apply Cursor.reads_byte.bind_nil
  simpa using Reads.pure p

namespace S4Ext

def partitionBytes : Option PartitionKey → Bytes
  | none => [0]
  | some p => 1 :: (p.bucket.bytes ++ (i64Bytes p.window ++ stringBytes p.generation))

theorem reads_partition {α : Type} {partition : Option PartitionKey}
    {f : Option PartitionKey → Cursor α} {a : α} (ok : ∀ p ∈ partition, p.Encodable)
    (read : Reads (f partition) rest a) : Reads (do
        let tag ← Cursor.unsigned 1
        let partition ← if tag = 1 then some <$> PartitionKey.decode else pure none
        f partition) (partitionBytes partition ++ rest) a := by
  cases partition with
  | none =>
    apply Cursor.reads_byte.bind
    rw [← List.nil_append rest]
    exact (Reads.pure none).bind read
  | some p =>
    have tag : Reads (Cursor.unsigned 1) [1] 1 := Cursor.reads_byte
    exact tag.bind ((Reads.map (PartitionKey.reads_decode (ok p rfl))).bind read)

theorem encode_eq (e : S4Ext) :
    e.encode = partitionBytes e.partition ++ (Bytes.le 4 e.tenantStats.length ++
      (e.tenantStats.flatMap TenantStats.encode ++ (Bytes.le 4 e.promoted.length ++
        (e.promoted.flatMap (fun p => stringBytes p.key ++ stringBytes p.column ++ [p.typeTag]) ++
          [])))) := by
  obtain ⟨partition, tenantStats, promoted⟩ := e
  cases partition with
  | none => simp [encode, partitionBytes]
  | some p =>
    obtain ⟨bucket, window, generation⟩ := p
    cases bucket <;> simp [encode, partitionBytes, Bucket.bytes]

theorem decode_encode {e : S4Ext} (ok : e.Encodable) : S4Ext.decode e.encode = .ok e := by
  apply Reads.run
  have tenantCount := ok.tenantCount
  rw [encode_eq]
  apply reads_partition ok.partition
  apply Cursor.reads_readLen
  · simp only [maxTenantsPerPart] at tenantCount
    omega
  · have room : e.tenantStats.length * max 49 1 ≤
        (e.tenantStats.flatMap TenantStats.encode).length :=
      length_mul_le_length_flatMap fun t _ => by simp [TenantStats.encode]; omega
    rw [List.length_append]
    omega
  apply Reads.passing (by simpa using tenantCount)
  apply (Cursor.reads_replicate _ fun t mem => TenantStats.reads_decode (ok.tenantStats t mem)).bind
  apply Cursor.reads_counted ok.promotedCount
  · intro p _
    simp
    omega
  · exact fun p mem => PromotedColumn.reads_decode (ok.promoted p mem)
  exact Reads.pure e

end S4Ext

/-! ### The header -/

@[simp] theorem length_manifestMagic : manifestMagic.length = 8 := by decide

namespace Header

@[simp] theorem length_words (h : Header) : h.words.length = 24 := by simp [words]

@[simp] theorem length_encode (h : Header) : h.encode.length = headerBytes := by
  simp [encode, headerBytes]

/-- A header that this build accepts, with values of its types in the source. -/
structure Accepted (h : Header) : Prop where
  formatVersion : h.formatVersion ∈ supportedBinaryVersions
  byteOrder : h.byteOrder = byteOrderLittle
  known : h.featureFlags &&& ~~~supportedFeatures = 0
  framed : h.featureFlags &&& featureBlockFraming ≠ 0
  bodyLen : h.bodyLen < 2 ^ 32
  bodyCrc32 : h.bodyCrc32 < 2 ^ 32

theorem run_parse {h : Header} (ok : h.Accepted) : Cursor.run h.words parse = .ok h := by
  have version : h.formatVersion < 256 ^ 4 := by
    have mem := ok.formatVersion
    simp only [supportedBinaryVersions, List.mem_cons, List.not_mem_nil, or_false] at mem
    omega
  have order : h.byteOrder < 256 ^ 1 := by
    rw [ok.byteOrder]
    decide
  apply Reads.run
  simp only [words]
  apply (Cursor.reads_unsigned version).bind
  apply (Cursor.reads_unsigned order).bind
  apply (Cursor.reads_take rfl).bind
  apply (Cursor.reads_unsigned h.featureFlags.toNat_lt).bind
  apply (Cursor.reads_unsigned ok.bodyLen).bind
  apply (Cursor.reads_unsigned ok.bodyCrc32).bind_nil
  simpa using Reads.pure h

theorem decode_append {h : Header} (ok : h.Accepted) (body : Bytes) :
    decode (h.encode ++ body) = .ok h := by
  have long : ¬ (h.encode ++ body).length < headerBytes := by simp
  have magic : ¬ (h.encode ++ body).take 8 ≠ manifestMagic := by
    simp [encode]
  have front : (h.encode ++ body).take (headerBytes - 4) = manifestMagic ++ h.words := by
    simp [encode, headerBytes, List.take_append, List.take_of_length_le]
  have stated : ((h.encode ++ body).drop (headerBytes - 4)).take 4 =
      Bytes.le 4 (crc32 (manifestMagic ++ h.words)).toNat := by
    simp [encode, headerBytes, List.drop_append, List.drop_eq_nil_of_le]
  have window : (manifestMagic ++ h.words).drop 8 = h.words := by simp
  have sums : Bytes.ofLe (Bytes.le 4 (crc32 (manifestMagic ++ h.words)).toNat) =
      (crc32 (manifestMagic ++ h.words)).toNat := Bytes.ofLe_le_of_lt (crc32 _).toNat_lt
  unfold decode
  rw [front, stated, sums, window]
  apply guard_eq_ok.mpr ⟨long, _⟩
  apply guard_eq_ok.mpr ⟨magic, _⟩
  apply guard_eq_ok.mpr ⟨not_not_intro rfl, _⟩
  apply bind_eq_ok.mpr ⟨h, run_parse ok, _⟩
  apply guard_eq_ok.mpr ⟨by simpa using ok.formatVersion, _⟩
  apply guard_eq_ok.mpr ⟨not_not_intro ok.byteOrder, _⟩
  apply guard_eq_ok.mpr ⟨not_not_intro ok.known, _⟩
  exact guard_eq_ok.mpr ⟨ok.framed, rfl⟩

end Header

/-- The header and the body are what was put together. -/
theorem splitManifest_append {h : Header} {body : Bytes} (ok : h.Accepted)
    (len : h.bodyLen = body.length) (sum : h.bodyCrc32 = (crc32 body).toNat) :
    splitManifest (h.encode ++ body) = .ok (h, body) := by
  have window : ((h.encode ++ body).take (headerBytes + body.length)).drop headerBytes = body := by
    rw [List.take_of_length_le (by simp), List.drop_left' h.length_encode]
  apply bind_eq_ok.mpr ⟨h, h.decode_append ok body, _⟩
  simp only [len, window]
  apply guard_eq_ok.mpr ⟨by simp, _⟩
  exact guard_eq_ok.mpr ⟨not_not_intro sum.symm, rfl⟩

/-! ### The body -/

structure CentroidRange.Encodable (r : CentroidRange) : Prop where
  centroid : r.centroid < 2 ^ 32
  firstRow : r.firstRow < 2 ^ 64
  rowCount : r.rowCount < 2 ^ 64
  pqOffset : r.pqOffset < 2 ^ 64
  pqLen : r.pqLen < 2 ^ 64
  rerankOffset : r.rerankOffset < 2 ^ 64
  rerankLen : r.rerankLen < 2 ^ 64
  timeMin : InI64 r.timeMin
  timeMax : InI64 r.timeMax

theorem CentroidRange.reads_decode {r : CentroidRange} (ok : r.Encodable) :
    Reads decode r.encode r := by
  simp only [encode, List.append_assoc]
  apply (Cursor.reads_unsigned ok.centroid).bind
  apply (Cursor.reads_unsigned ok.firstRow).bind
  apply (Cursor.reads_unsigned ok.rowCount).bind
  apply (Cursor.reads_unsigned ok.pqOffset).bind
  apply (Cursor.reads_unsigned ok.pqLen).bind
  apply (Cursor.reads_unsigned ok.rerankOffset).bind
  apply (Cursor.reads_unsigned ok.rerankLen).bind
  apply (Cursor.reads_i64 ok.timeMin).bind
  exact (Cursor.reads_i64 ok.timeMax).last

structure BlockRef.Encodable (b : BlockRef) : Prop where
  fileOffset : b.fileOffset < 2 ^ 64
  payloadLen : b.payloadLen < 2 ^ 32

theorem BlockRef.reads_decode {b : BlockRef} (ok : b.Encodable) : Reads decode b.encode b := by
  have sum := (Cursor.reads_unsigned (n := 4) b.crc32.toNat_lt).last
    (f := fun n => (⟨b.fileOffset, b.payloadLen, UInt32.ofNat n⟩ : BlockRef))
  rw [UInt32.ofNat_toNat] at sum
  simp only [encode, List.append_assoc]
  apply (Cursor.reads_unsigned ok.fileOffset).bind
  apply (Cursor.reads_unsigned ok.payloadLen).bind
  exact sum

inductive ColumnStorage.Framed : ColumnStorage → Prop
  | blocks {logicalBytes blockSize : Nat} {blocks : List BlockRef}
    (logical : logicalBytes < 2 ^ 64) (size : blockSize < 2 ^ 32)
    (power : isPowerOfTwo blockSize = true) (count : blocks.length < 2 ^ 32)
    (each : ∀ b ∈ blocks, b.Encodable) : Framed (.framed logicalBytes blockSize blocks)

structure ColumnMeta.Encodable (c : ColumnMeta) : Prop where
  name : Prefixable c.name
  file : Prefixable c.file
  codecId : c.codecId < 2 ^ 16
  storage : c.storage.Framed

def ColumnMeta.bytes (c : ColumnMeta) : Bytes := c.encode.toOption.getD []

variable {c : ColumnMeta}

theorem ColumnMeta.encode_eq (ok : c.Encodable) : c.encode = .ok c.bytes := by
  obtain ⟨name, file, codecId, storage⟩ := c
  cases ok.storage
  rfl

theorem ColumnMeta.length_bytes (ok : c.Encodable) : 22 ≤ c.bytes.length := by
  obtain ⟨name, file, codecId, storage⟩ := c
  cases ok.storage
  simp [bytes, encode, Except.toOption]
  omega

theorem ColumnMeta.reads_decode {version : Nat} (ok : c.Encodable) (current : version ≥ 3) :
    Reads (decode version) c.bytes c := by
  obtain ⟨name, file, codecId, storage⟩ := c
  cases ok.storage with
  | blocks logical size power count each =>
    simp only [bytes, encode, Except.toOption, Option.getD_some, List.append_assoc]
    apply (Cursor.reads_string ok.name).bind
    apply (Cursor.reads_string ok.file).bind
    apply (Cursor.reads_unsigned ok.codecId).bind
    apply (Cursor.reads_unsigned logical).bind
    simp only [current, if_true]
    apply (Cursor.reads_unsigned size).bind
    apply Reads.passing (by simp [power])
    rw [← List.append_nil (List.flatMap _ _)]
    apply Cursor.reads_counted count
    · exact fun b _ => by simp [BlockRef.encode]
    · exact fun b mem => BlockRef.reads_decode (each b mem)
    exact Reads.pure _

/-- An extension that this build may read: one it knows, or one it may skip. -/
structure Extension.Encodable (e : Extension) : Prop where
  bytes : e.bytes.length < 2 ^ 32
  known : e.id &&& extRequired ≠ 0 → e.id ∈ supportedExtensions

theorem Extension.reads_decode {e : Extension} (ok : e.Encodable) : Reads decode e.encode e := by
  obtain ⟨id, bytes⟩ := e
  have known : ¬ (id &&& extRequired ≠ 0 ∧ (!supportedExtensions.contains id) = true) := by
    rintro ⟨required, unknown⟩
    simp [ok.known required] at unknown
  have idRead : Reads (Cursor.unsigned 2) (Bytes.le 2 id.toNat) id.toNat :=
    Cursor.reads_unsigned id.toNat_lt
  have payload : Reads (Cursor.take bytes.length) bytes bytes := Cursor.reads_take rfl
  have built : Reads (pure ⟨id, bytes⟩ : Cursor Extension) [] ⟨id, bytes⟩ := Reads.pure _
  simp only [encode, List.append_assoc]
  apply idRead.bind
  apply Cursor.reads_readLen ok.bytes (by simp)
  apply payload.bind_nil
  rw [UInt16.ofNat_toNat]
  exact built.passing known

namespace PartManifest

/-- A manifest of the current version that its decoder accepts: values of its types in the source,
and counts and lengths that fit their four bytes. -/
structure Encodable (m : PartManifest) : Prop where
  formatVersion : m.formatVersion = Prism.formatVersion
  known : m.featureFlags &&& ~~~supportedFeatures = 0
  blockFraming : m.featureFlags &&& featureBlockFraming ≠ 0
  partId : Prefixable m.partId
  generationId : Prefixable m.generationId
  modelId : Prefixable m.modelId
  modelVersion : Prefixable m.modelVersion
  rowCount : m.rowCount < 2 ^ 64
  dim : m.dim < 2 ^ 32
  pqM : m.pqM < 2 ^ 32
  encodingId : m.rerank.encodingId < 2 ^ 16
  accuracyContractId : m.rerank.accuracyContractId < 2 ^ 16
  timeMin : InI64 m.timeMin
  timeMax : InI64 m.timeMax
  costMin : m.costMin.isFinite = true
  costMax : m.costMax.isFinite = true
  createdAtMs : InI64 m.createdAtMs
  tenants : ∀ t ∈ m.tenants, Prefixable t
  tenantCount : m.tenants.length < 2 ^ 32
  centroidRanges : ∀ r ∈ m.centroidRanges, r.Encodable
  rangeCount : m.centroidRanges.length < 2 ^ 32
  columns : ∀ c ∈ m.columns, c.Encodable
  columnCount : m.columns.length < 2 ^ 32
  attributeKeys : ∀ k ∈ m.attributeKeys, Prefixable k
  keyCount : m.attributeKeys.length ≤ maxAttributeKeyCardinality
  extensions : ∀ e ∈ m.extensions, e.Encodable
  extensionCount : m.extensions.length < 2 ^ 32
  body : ∀ bytes, m.encode = .ok bytes → bytes.length < headerBytes + 2 ^ 32

variable (m : PartManifest)

def tailBytes : Bytes :=
  Bytes.le 4 m.attributeKeys.length ++ (m.attributeKeys.flatMap stringBytes ++
    ((List.replicate reservedWords 0).flatMap (Bytes.le 8) ++
      (Bytes.le 4 m.extensions.length ++ m.extensions.flatMap Extension.encode)))

def bodyBytes : Bytes :=
  stringBytes m.partId ++ (stringBytes m.generationId ++ (stringBytes m.modelId ++
    (stringBytes m.modelVersion ++ (Bytes.le 8 m.rowCount ++ (Bytes.le 4 m.dim ++
    (Bytes.le 4 m.pqM ++ (Bytes.le 2 m.rerank.encodingId ++
    (Bytes.le 2 m.rerank.accuracyContractId ++ (i64Bytes m.timeMin ++ (i64Bytes m.timeMax ++
    (Bytes.le 8 m.costMin.bits.toNat ++ (Bytes.le 8 m.costMax.bits.toNat ++
    (Bytes.le 1 (m.hasError.toNat + 2 * m.hasSuccess.toNat) ++ (i64Bytes m.createdAtMs ++
    (Bytes.le 4 m.tenants.length ++ (m.tenants.flatMap stringBytes ++
    (Bytes.le 4 m.centroidRanges.length ++ (m.centroidRanges.flatMap CentroidRange.encode ++
    (Bytes.le 4 m.columns.length ++ (m.columns.flatMap ColumnMeta.bytes ++
      m.tailBytes))))))))))))))))))))

def header : Header :=
  ⟨Prism.formatVersion, byteOrderLittle, m.featureFlags, m.bodyBytes.length,
    (crc32 m.bodyBytes).toNat⟩

variable {m : PartManifest}

theorem encode_eq (framed : ∀ c ∈ m.columns, c.encode = .ok c.bytes) :
    m.encode = .ok (m.header.encode ++ m.bodyBytes) := by
  rw [encode, mapM_eq_ok_map framed]
  simp only [bind, Except.bind, pure, Except.pure, header, bodyBytes, tailBytes, List.append_assoc,
    List.length_map, List.flatMap_def, List.map_replicate]

theorem reads_decodeTail (ok : m.Encodable) :
    Reads decodeTail m.tailBytes (m.attributeKeys, m.extensions) := by
  have keyCount := ok.keyCount
  have reserved : Reads (Cursor.replicate (Cursor.unsigned 8) reservedWords)
      ((List.replicate reservedWords 0).flatMap (Bytes.le 8)) (List.replicate reservedWords 0) :=
    Cursor.reads_replicate (List.replicate reservedWords 0) fun w mem => by
      rw [List.eq_of_mem_replicate mem]
      exact Cursor.reads_unsigned (by decide)
  apply Cursor.reads_readLen
  · simp only [maxAttributeKeyCardinality] at keyCount
    omega
  · have room : m.attributeKeys.length * max 4 1 ≤ (m.attributeKeys.flatMap stringBytes).length :=
      length_mul_le_length_flatMap fun k _ => by simp
    rw [List.length_append]
    omega
  apply Reads.passing (by simpa using keyCount)
  apply (Cursor.reads_replicate _ fun k mem => Cursor.reads_string (ok.attributeKeys k mem)).bind
  apply reserved.bind
  apply Reads.passing (by decide)
  rw [← List.append_nil (List.flatMap Extension.encode _)]
  apply Cursor.reads_counted ok.extensionCount
  · exact fun e _ => by simp [Extension.encode]; omega
  · exact fun e mem => Extension.reads_decode (ok.extensions e mem)
  exact Reads.pure _

theorem reads_decodeBody (ok : m.Encodable) : Reads (decodeBody m.header) m.bodyBytes m := by
  have current : m.header.formatVersion ≥ 3 := by simp [header, Prism.formatVersion]
  -- The two flags share a byte.
  have flags : m.hasError.toNat + 2 * m.hasSuccess.toNat < 256 ^ 1 := by
    cases m.hasError <;> cases m.hasSuccess <;> decide
  have first : decide ((m.hasError.toNat + 2 * m.hasSuccess.toNat) % 2 = 1) = m.hasError := by
    cases m.hasError <;> cases m.hasSuccess <;> rfl
  have second : decide ((m.hasError.toNat + 2 * m.hasSuccess.toNat) / 2 % 2 = 1) = m.hasSuccess := by
    cases m.hasError <;> cases m.hasSuccess <;> rfl
  apply (Cursor.reads_string ok.partId).bind
  apply (Cursor.reads_string ok.generationId).bind
  apply (Cursor.reads_string ok.modelId).bind
  apply (Cursor.reads_string ok.modelVersion).bind
  apply (Cursor.reads_unsigned ok.rowCount).bind
  apply (Cursor.reads_unsigned ok.dim).bind
  apply (Cursor.reads_unsigned ok.pqM).bind
  apply (Cursor.reads_unsigned ok.encodingId).bind
  apply (Cursor.reads_unsigned ok.accuracyContractId).bind
  apply (Cursor.reads_i64 ok.timeMin).bind
  apply (Cursor.reads_i64 ok.timeMax).bind
  apply (Cursor.reads_f64 ok.costMin).bind
  apply (Cursor.reads_f64 ok.costMax).bind
  apply (Cursor.reads_unsigned flags).bind
  apply (Cursor.reads_i64 ok.createdAtMs).bind
  apply Cursor.reads_counted ok.tenantCount
  · exact fun t _ => by simp
  · exact fun t mem => Cursor.reads_string (ok.tenants t mem)
  apply Cursor.reads_counted ok.rangeCount
  · exact fun r _ => by simp [CentroidRange.encode]
  · exact fun r mem => CentroidRange.reads_decode (ok.centroidRanges r mem)
  apply Cursor.reads_counted ok.columnCount
  · exact fun c mem => ColumnMeta.length_bytes (ok.columns c mem)
  · exact fun c mem => ColumnMeta.reads_decode (ok.columns c mem) current
  simp only [current, if_true]
  apply (reads_decodeTail ok).bind_nil
  have version : m.header.formatVersion = m.formatVersion := ok.formatVersion.symm
  simp only [first, second, version]
  exact Reads.pure m

theorem header_accepted (ok : m.Encodable) : m.header.Accepted where
  formatVersion := by simp [header, Prism.formatVersion, supportedBinaryVersions]
  byteOrder := rfl
  known := ok.known
  framed := ok.blockFraming
  bodyLen := by
    have short := ok.body _ (encode_eq fun c mem => ColumnMeta.encode_eq (ok.columns c mem))
    rw [List.length_append, Header.length_encode] at short
    exact Nat.lt_of_add_lt_add_left short
  bodyCrc32 := (crc32 m.bodyBytes).toNat_lt

theorem decode_of_encode (ok : m.Encodable) :
    ∃ bytes, m.encode = .ok bytes ∧ decode bytes = .ok m := by
  refine ⟨_, encode_eq fun c mem => ColumnMeta.encode_eq (ok.columns c mem), ?_⟩
  apply bind_eq_ok.mpr
  exact ⟨_, splitManifest_append (header_accepted ok) rfl rfl, (reads_decodeBody ok).run⟩

end PartManifest

/-- Every manifest that a writer of this version may hold reads back from its bytes, and so does
every extension that its own decoder would accept. -/
theorem manifest_codec_round_trip :
    (∀ m : PartManifest, m.Encodable →
      ∃ bytes, m.encode = .ok bytes ∧ PartManifest.decode bytes = .ok m) ∧
    (∀ e : S4Ext, e.Encodable → S4Ext.decode e.encode = .ok e) ∧
    (∀ e : S5Ext, e.Encodable → S5Ext.decode e.encode = .ok e) ∧
    ∀ e : S14Ext, e.Encodable → S14Ext.decode e.encode = .ok e :=
  ⟨fun _ ok => PartManifest.decode_of_encode ok, fun _ ok => S4Ext.decode_encode ok,
    fun _ ok => S5Ext.decode_encode ok, fun _ ok => S14Ext.decode_encode ok⟩

/-- A part of one tenant with a promoted column. -/
def markedPartition : S4Ext where
  partition := some ⟨.shared 3, -3600000, "g1"⟩
  tenantStats := [⟨"acme", 2, -5, 7, F64.zero, F64.zero, true, false, ["region"]⟩]
  promoted := [⟨"region", "attr.region", 1⟩]

theorem markedPartition_encodable : markedPartition.Encodable where
  partition p mem := by
    obtain rfl := Option.mem_some.mp mem
    exact ⟨by change 3 < 2 ^ 32; decide, by decide, by decide⟩
  tenantStats t mem := by
    obtain rfl := List.mem_singleton.mp mem
    exact ⟨⟨by decide, by decide, by decide, by decide, by decide, by decide⟩, by decide, by decide,
      by decide, by decide⟩
  promoted p mem := by
    obtain rfl := List.mem_singleton.mp mem
    exact ⟨by decide, by decide⟩
  promotedCount := by decide
  tenantCount := by decide

def redactedLineage : S5Ext := ⟨some "g0", true, 12, "expired"⟩

theorem redactedLineage_encodable : redactedLineage.Encodable where
  reembeddedFrom g mem := by
    obtain rfl := Option.mem_some.mp mem
    decide
  redactedAtMs := by decide
  redactionReason := by decide
  explained := by decide

def wrappedEnvelope : S14Ext := ⟨aeadXchacha20Poly1305, "k1", 1, [9, 9], 3⟩

theorem wrappedEnvelope_encodable : wrappedEnvelope.Encodable where
  algorithm := by decide
  wrappingKeyId := by decide
  dekEpoch := by decide
  bucketOrdinal := by decide
  named := by decide
  wrapped := by decide
  bounded := by decide

def markedManifest : PartManifest where
  formatVersion := formatVersion
  partId := "p"
  generationId := "g1"
  modelId := "m"
  modelVersion := "1"
  rowCount := 2
  dim := 1
  pqM := 1
  rerank := ⟨1, 1⟩
  timeMin := -5
  timeMax := 7
  tenants := ["acme"]
  costMin := F64.zero
  costMax := F64.zero
  hasError := true
  hasSuccess := false
  centroidRanges := [⟨4, 0, 2, 0, 2, 0, 8, -5, 7⟩]
  columns := [⟨"event_time", "event_time.i64", codecRaw, .framed 16 65536 [⟨0, 16, 77⟩]⟩]
  createdAtMs := 9
  featureFlags := featureBlockFraming ||| featurePartitionMeta
  attributeKeys := ["region"]
  extensions := [⟨extS4Partition, markedPartition.encode⟩, ⟨0x0007, [1, 2]⟩]

theorem markedManifest_columns : ∀ c ∈ markedManifest.columns, c.Encodable := by
  intro c mem
  obtain rfl := List.mem_singleton.mp mem
  refine ⟨by decide, by decide, by decide, .blocks (by decide) (by decide) (by decide) (by decide) ?_⟩
  intro b mem
  obtain rfl := List.mem_singleton.mp mem
  exact ⟨by decide, by decide⟩

theorem markedManifest_encodable : markedManifest.Encodable where
  formatVersion := rfl
  known := by decide
  blockFraming := by decide
  partId := by decide
  generationId := by decide
  modelId := by decide
  modelVersion := by decide
  rowCount := by decide
  dim := by decide
  pqM := by decide
  encodingId := by decide
  accuracyContractId := by decide
  timeMin := by decide
  timeMax := by decide
  costMin := by decide
  costMax := by decide
  createdAtMs := by decide
  tenants t mem := by
    obtain rfl := List.mem_singleton.mp mem
    decide
  tenantCount := by decide
  centroidRanges r mem := by
    obtain rfl := List.mem_singleton.mp mem
    exact ⟨by decide, by decide, by decide, by decide, by decide, by decide, by decide, by decide,
      by decide⟩
  rangeCount := by decide
  columns := markedManifest_columns
  columnCount := by decide
  attributeKeys k mem := by
    obtain rfl := List.mem_singleton.mp mem
    decide
  keyCount := by decide
  extensions e mem := by
    rcases List.mem_pair.mp mem with rfl | rfl
    · exact ⟨by decide +kernel, by decide⟩
    · exact ⟨by decide, by decide⟩
  extensionCount := by decide
  body bytes encoded := by
    rw [PartManifest.encode_eq fun c mem => ColumnMeta.encode_eq (markedManifest_columns c mem),
      Except.ok.injEq] at encoded
    rw [← encoded, List.length_append, Header.length_encode]
    decide +kernel

theorem manifest_codec_round_trip_marked :
    (∃ bytes, markedManifest.encode = .ok bytes ∧ PartManifest.decode bytes = .ok markedManifest) ∧
    S4Ext.decode markedPartition.encode = .ok markedPartition ∧
    S5Ext.decode redactedLineage.encode = .ok redactedLineage ∧
    S14Ext.decode wrappedEnvelope.encode = .ok wrappedEnvelope :=
  ⟨manifest_codec_round_trip.1 _ markedManifest_encodable,
    manifest_codec_round_trip.2.1 _ markedPartition_encodable,
    manifest_codec_round_trip.2.2.1 _ redactedLineage_encodable,
    manifest_codec_round_trip.2.2.2 _ wrappedEnvelope_encodable⟩

end Prism
