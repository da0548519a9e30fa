import Prism.Engine.Objects
import Prism.Lib.Stateful
import Prism.Part.Columns

/-!
The cold tier: exact vectors read through the object store and the block cache in front of it
(`BlockCache` and `get_range_cached` of `storage/object.rs`, `cold_read_vectors` of
`storage/cold.rs`).
-/

namespace Prism

/-! ### The block cache -/

structure CacheKey where
  key : String
  offset : Nat
  len : Nat
  deriving DecidableEq, Repr

namespace CacheKey

instance : Ord CacheKey :=
  ⟨compareLex (compareOn key) (compareLex (compareOn offset) (compareOn len))⟩

instance : Std.TransOrd CacheKey :=
  inferInstanceAs (Std.TransCmp
    (compareLex (compareOn key) (compareLex (compareOn offset) (compareOn len))))

instance : Std.LawfulEqOrd CacheKey where
  eq_of_compare {a b} same := by
    obtain ⟨keys, rest⟩ := compareLex_eq_eq.mp same
    obtain ⟨offsets, lens⟩ := compareLex_eq_eq.mp rest
    have keys : a.key = b.key := Std.LawfulEqOrd.eq_of_compare keys
    have offsets : a.offset = b.offset := Std.LawfulEqOrd.eq_of_compare offsets
    have lens : a.len = b.len := Std.LawfulEqOrd.eq_of_compare lens
    cases a; cases b; simp_all

end CacheKey

structure CacheEntry where
  bytes : Bytes
  crc : UInt32
  deriving DecidableEq, Repr

/-- A cache of blocks with a quota in bytes. The front of `lru` was used longest ago. -/
structure BlockCache where
  quota : Nat
  map : BTreeMap CacheKey CacheEntry
  lru : List CacheKey
  bytes : Nat

namespace BlockCache

def new (quotaBytes : Nat) : BlockCache := ⟨quotaBytes, ∅, [], 0⟩

def touch (lru : List CacheKey) (k : CacheKey) : List CacheKey := lru.erase k ++ [k]

variable (c : BlockCache) (k : CacheKey)

def remove : BlockCache :=
  { c with
    map := c.map.erase k
    lru := c.lru.erase k
    bytes := c.bytes - ((c.map[k]?).map (·.bytes.length)).getD 0 }

def get : Option Bytes × BlockCache :=
  match c.map[k]? with
  | some e => if crc32 e.bytes = e.crc then (some e.bytes, { c with lru := touch c.lru k })
    else (none, c.remove k)
  | none => (none, c)

def evict (size : Nat) : List CacheKey → BlockCache → BlockCache
  | [], c => { c with lru := [] }
  | victim :: rest, c =>
    if c.bytes + size > c.quota then
      evict size rest { c with
        map := c.map.erase victim
        bytes := c.bytes - ((c.map[victim]?).map (·.bytes.length)).getD 0 }
    else { c with lru := victim :: rest }

def insert (c : BlockCache) (k : CacheKey) (bytes : Bytes) : BlockCache :=
  if bytes.length > c.quota then c
  else if c.map.contains k then c
  else
    let c := evict bytes.length c.lru c
    { c with
      bytes := c.bytes + bytes.length
      map := c.map.insert k ⟨bytes, crc32 bytes⟩
      lru := c.lru ++ [k] }

def corruptEntry (bytes : Bytes) : BlockCache :=
  match c.map[k]? with
  | some e => { c with map := c.map.insert k ⟨bytes, e.crc⟩ }
  | none => c

end BlockCache

/-! ### The cached object store -/

/-- What the remote does with one request: it answers with the object's bytes, it fails, or it
returns other bytes. -/
inductive Reply where
  | truth
  | io (message : String)
  | wrong (bytes : Bytes)
  deriving DecidableEq, Repr

/-- The objects, the cache in front of them, and what the remote will do with the next requests;
when the list is used up, it answers. -/
structure ColdStore where
  objects : Files
  cache : BlockCache
  replies : List Reply

abbrev ColdProg := Stateful.Action ColdStore PrismError

namespace ColdStore

variable (k : CacheKey)

def remoteGetRange : ColdProg Bytes := fun s =>
  let s' := { s with replies := s.replies.tail }
  match s.replies.headD .truth with
  | .truth => (LocalObjectStore.getRangeIn k.key k.offset k.len s.objects, s')
  | .io message => (.error (.io message), s')
  | .wrong bytes => (.ok bytes, s')

def cacheGet : ColdProg (Option Bytes) := fun s =>
  (.ok (s.cache.get k).1, { s with cache := (s.cache.get k).2 })

def cacheInsert (bytes : Bytes) : ColdProg Unit := fun s =>
  (.ok (), { s with cache := s.cache.insert k bytes })

def getRangeCached : ColdProg Bytes := do
  match ← cacheGet k with
  | some bytes => return bytes
  | none =>
    let bytes ← remoteGetRange k
    cacheInsert k bytes
    return bytes

end ColdStore

/-! ### Cold reads -/

def coldFetchMaxRetries : Nat := 3

namespace Engine

open ColdStore

/-- The attempts that are left. Missing bytes are not retried, any other failure is. -/
def fetchAttempts (k : CacheKey) : Nat → Option PrismError → ColdProg Bytes
  | 0, last => throw (last.getD (.io "remote unavailable: cold fetch failed after retries"))
  | attempts + 1, _ => fun s =>
    match getRangeCached k s with
    | (.ok bytes, s') => (.ok bytes, s')
    | (.error (.corrupt message), s') => (.error (.corrupt message), s')
    | (.error e, s') => fetchAttempts k attempts (some e) s'

def fetchColdBlock (k : CacheKey) : ColdProg Bytes :=
  fetchAttempts k (coldFetchMaxRetries + 1) none

def coldBlocks (r : PartReader) (key : String) (blockSize : Nat) :
    Nat → List BlockRef → ColdProg (List Bytes)
  | _, [] => return []
  | index, block :: rest => do
    let raw ← fetchColdBlock ⟨key, block.fileOffset, frameHeaderBytes + block.payloadLen⟩
    let payload ← Stateful.lift (readBlockSealed raw index block "rerank_vectors"
      r.manifest.partId blockSize r.cipher)
    let payloads ← coldBlocks r key blockSize (index + 1) rest
    return payload :: payloads

def coldVectorAt (r : PartReader) (key : String) (blockSize : Nat) (blocks : List BlockRef)
    (row : Nat) : ColdProg (List UInt32) := do
  let m := r.manifest
  if row ≥ m.rowCount then
    throw (.corrupt s!"row {row} is out of range for part {m.partId} ({m.rowCount} rows)")
  let offset := row * m.bytesPerVector
  let (first, last) := blocksForRange offset m.bytesPerVector blockSize
  if last ≥ blocks.length then
    throw (.corrupt <| s!"part {m.partId} rerank range needs block {last}, but the column has " ++
      s!"{blocks.length}")
  let payloads ← coldBlocks r key blockSize first ((blocks.take (last + 1)).drop first)
  let bytes := blockWindows offset (offset + m.bytesPerVector) blockSize first payloads
  Stateful.lift (m.rerank.decodeVector bytes m.dim)

def coldRows (r : PartReader) (key : String) (blockSize : Nat) (blocks : List BlockRef) :
    List Nat → ColdProg (List (List UInt32))
  | [] => return []
  | row :: rows => do
    let vector ← coldVectorAt r key blockSize blocks row
    let vectors ← coldRows r key blockSize blocks rows
    return vector :: vectors

/-- The exact vectors of specific rows through the object store and the cache; a part without frames
is read locally. -/
def coldReadVectors (r : PartReader) (rows : List Nat) : ColdProg (List (List UInt32)) := do
  let column ← Stateful.lift (r.manifest.column "rerank_vectors")
  match column.storage with
  | .unframed _ _ => Stateful.lift (r.readVectorsForRows rows)
  | .framed _ blockSize blocks =>
    coldRows r s!"parts/{r.manifest.partId}/{column.file}" blockSize blocks rows

end Engine

end Prism
