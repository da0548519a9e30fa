import Mathlib.Data.List.Nodup
import Prism.Properties.ColdReads

/-!
# The books of the block cache

The map, the recency queue and the byte counter of `BlockCache` agree after any calls, and an entry
carries the checksum of the bytes it was admitted with.
-/

namespace Prism

open OrderedMap

variable {size : Nat}

namespace BlockCache

def blockLen (map : BTreeMap CacheKey CacheEntry) (k : CacheKey) : Nat :=
  ((map[k]?).map (·.bytes.length)).getD 0

/-- The test hook: the first byte of a cached entry is flipped. -/
def corruptFirst (c : BlockCache) (k : CacheKey) : BlockCache :=
  match (c.map[k]?).map (·.bytes) with
  | some (b :: rest) => c.corruptEntry k ((b ^^^ 0xFF) :: rest)
  | _ => c

def admits (c : BlockCache) (k : CacheKey) (bytes : Bytes) : Bool :=
  bytes.length ≤ c.quota && !c.map.contains k

/-- No subtraction of the eviction loop underflows. -/
def EvictSafe (size : Nat) : List CacheKey → BlockCache → Prop
  | [], _ => True
  | victim :: rest, c =>
    c.bytes + size > c.quota → blockLen c.map victim ≤ c.bytes ∧
      EvictSafe size rest { c with
        map := c.map.erase victim, bytes := c.bytes - blockLen c.map victim }

end BlockCache

inductive CacheCall where
  | get (k : CacheKey)
  | insert (k : CacheKey) (bytes : Bytes)
  | corruptEntry (k : CacheKey)

namespace CacheCall

variable (c : BlockCache)

def step : CacheCall → BlockCache
  | .get k => (c.get k).2
  | .insert k bytes => c.insert k bytes
  | .corruptEntry k => c.corruptFirst k

/-- No subtraction of the call underflows. -/
def Safe : CacheCall → Prop
  | .get k => ∀ e, c.map[k]? = some e → crc32 e.bytes ≠ e.crc → e.bytes.length ≤ c.bytes
  | .insert k bytes => c.admits k bytes → BlockCache.EvictSafe bytes.length c.lru c
  | .corruptEntry _ => True

end CacheCall

namespace BlockCache

/-- The queue has the keys of the map, each once, and the counter has their lengths. -/
structure Books (map : BTreeMap CacheKey CacheEntry) (lru : List CacheKey) (bytes : Nat) : Prop where
  nodup : lru.Nodup
  keys : ∀ k, k ∈ lru ↔ k ∈ map
  sum : bytes = (lru.map (blockLen map)).sum

variable {map : BTreeMap CacheKey CacheEntry} {lru : List CacheKey} {bytes : Nat} {k : CacheKey}
  {e : CacheEntry} {c : BlockCache} {last : CacheKey → Option Bytes}

theorem blockLen_of_mem (held : map[k]? = some e) : blockLen map k = e.bytes.length := by
  simp [blockLen, held]

theorem blockLen_insert : blockLen (map.insert k e) k = e.bytes.length := by
  simp [blockLen]

theorem sum_congr {other : BTreeMap CacheKey CacheEntry}
    (same : ∀ k ∈ lru, blockLen other k = blockLen map k) :
    (lru.map (blockLen other)).sum = (lru.map (blockLen map)).sum := by
  rw [List.map_congr_left same]

namespace Books

theorem perm {lru' : List CacheKey} (books : Books map lru bytes) (same : lru'.Perm lru) :
    Books map lru' bytes where
  nodup := same.nodup_iff.mpr books.nodup
  keys k := same.mem_iff.trans (books.keys k)
  sum := books.sum.trans (same.map _).sum_nat.symm

theorem mem (books : Books map lru bytes) (held : map[k]? = some e) : k ∈ lru :=
  (books.keys k).mpr (mem_of_getElem? held)

/-- An entry is put back with another of its length. -/
theorem replace {e' : CacheEntry} (books : Books map lru bytes) (held : map[k]? = some e)
    (same : e'.bytes.length = e.bytes.length) : Books (map.insert k e') lru bytes where
  nodup := books.nodup
  keys asked := by
    rw [Std.ExtTreeMap.mem_insert, Std.LawfulEqCmp.compare_eq_iff_eq, books.keys asked]
    constructor
    · exact .inr
    · rintro (rfl | there)
      · exact (books.keys k).mp (books.mem held)
      · exact there
  sum := by
    rw [books.sum]
    refine (sum_congr fun asked _ => ?_).symm
    by_cases own : k = asked
    · subst own
      rw [blockLen_insert, blockLen_of_mem held, same]
    · simp [blockLen, getElem?_insert_of_ne own]

theorem insert (books : Books map lru bytes) (absent : k ∉ map) :
    Books (map.insert k e) (lru ++ [k]) (bytes + e.bytes.length) where
  nodup := by
    rw [List.nodup_append_comm]
    exact List.nodup_cons.mpr ⟨fun there => absent ((books.keys k).mp there), books.nodup⟩
  keys asked := by
    rw [Std.ExtTreeMap.mem_insert, Std.LawfulEqCmp.compare_eq_iff_eq, List.mem_append,
      books.keys asked, List.mem_singleton, or_comm, eq_comm]
  sum := by
    have others : ∀ asked ∈ lru, blockLen (map.insert k e) asked = blockLen map asked := by
      intro asked there
      have other : k ≠ asked := fun same => absent (same ▸ (books.keys asked).mp there)
      simp [blockLen, getElem?_insert_of_ne other]
    simp [sum_congr others, blockLen_insert, books.sum]

/-- What is subtracted for an entry has been added for it. -/
theorem erase (books : Books map lru bytes) (k : CacheKey) : blockLen map k ≤ bytes ∧
    Books (map.erase k) (lru.erase k) (bytes - blockLen map k) := by
  by_cases there : k ∈ lru
  · have split : bytes = blockLen map k + ((lru.erase k).map (blockLen map)).sum :=
      (books.perm (List.perm_cons_erase there).symm).sum
    have others : ∀ asked ∈ lru.erase k, blockLen (map.erase k) asked = blockLen map asked := by
      intro asked mem
      have other : asked ≠ k := (books.nodup.mem_erase_iff.mp mem).1
      simp [blockLen, getElem?_erase_of_ne other.symm]
    refine ⟨by omega, books.nodup.erase k, fun asked => ?_, ?_⟩
    · rw [books.nodup.mem_erase_iff, Std.ExtTreeMap.mem_erase, books.keys asked, ne_eq, ne_eq,
        Std.LawfulEqCmp.compare_eq_iff_eq, eq_comm]
    · rw [sum_congr others]
      omega
  · have absent : map[k]? = none :=
      Std.ExtTreeMap.getElem?_eq_none fun held => there ((books.keys k).mpr held)
    rw [erase_of_none absent, List.erase_of_not_mem there]
    simp [blockLen, absent, books]

end Books

/-- The loop only subtracts what is there, keeps the books and makes room. -/
theorem evict_books (books : Books c.map lru c.bytes) (fits : size ≤ c.quota) :
    EvictSafe size lru c ∧ Books (evict size lru c).map (evict size lru c).lru (evict size lru c).bytes ∧
      (evict size lru c).bytes + size ≤ c.quota ∧ (evict size lru c).quota = c.quota := by
  induction lru generalizing c with
  | nil =>
    have empty : c.bytes = 0 := books.sum
    exact ⟨trivial, books, by simpa [evict, empty] using fits, rfl⟩
  | cons victim rest ih =>
    obtain ⟨there, less⟩ := books.erase victim
    rw [List.erase_cons_head] at less
    obtain ⟨safe, kept⟩ := ih (c := { c with
      map := c.map.erase victim, bytes := c.bytes - blockLen c.map victim }) less fits
    unfold evict EvictSafe
    split
    next => exact ⟨fun _ => ⟨there, safe⟩, kept⟩
    next room => exact ⟨fun full => absurd full room, books, Nat.le_of_not_lt room, rfl⟩

/-- The checksum of an entry is that of the bytes last inserted for its key. -/
def Checked (map : BTreeMap CacheKey CacheEntry) (last : CacheKey → Option Bytes) : Prop :=
  ∀ k e, map[k]? = some e → ∃ bytes, last k = some bytes ∧ e.crc = crc32 bytes

/-- What the calls keep. -/
structure Consistent (quota : Nat) (c : BlockCache) (last : CacheKey → Option Bytes) : Prop where
  books : Books c.map c.lru c.bytes
  own : c.quota = quota
  bound : c.bytes ≤ quota
  checked : Checked c.map last

variable {quota : Nat} {block : Bytes}

theorem Checked.insert {map' : BTreeMap CacheKey CacheEntry} (checked : Checked map last)
    (fewer : ∀ (asked : CacheKey) (e' : CacheEntry), map'[asked]? = some e' → map[asked]? = some e')
    (own : ∃ bytes, last k = some bytes ∧ e.crc = crc32 bytes) : Checked (map'.insert k e) last := by
  intro asked e' found
  obtain ⟨rfl, rfl⟩ | found := of_getElem?_insert found
  · exact own
  · exact checked asked e' (fewer asked e' found)

end BlockCache

namespace CacheCall

variable {c : BlockCache} {last : CacheKey → Option Bytes} {quota : Nat}

theorem safe (call : CacheCall) (consistent : c.Consistent quota last) : call.Safe c := by
  cases call with
  | get k =>
    intro e held _
    rw [← BlockCache.blockLen_of_mem held]
    exact (consistent.books.erase k).1
  | insert k bytes =>
    intro admitted
    have fits : bytes.length ≤ c.quota := by simp_all [BlockCache.admits]
    exact (BlockCache.evict_books consistent.books fits).1
  | corruptEntry k => trivial

end CacheCall

end Prism
