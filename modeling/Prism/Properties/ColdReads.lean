import Prism.Engine.Cold
import Prism.Properties.EncryptedStore
import Prism.Properties.RowReads

/-!
Reads through the cold tier against local reads: whatever an honest remote and its failures have
left in the cache, a cold read returns what the local read returns or fails, and it does not fail
while the failures stay within the retries of each block.
-/

namespace Prism

open Stateful Fallible CrashLogic OrderedMap

variable {blocks : List BlockRef} {rows : List Nat}

/-! ### The cache -/

variable (objects : Files)

def truth (k : CacheKey) : Result Bytes :=
  LocalObjectStore.getRangeIn k.key k.offset k.len objects

/-- Among the keys in `K`, what passes its own checksum is what the object has there. -/
def BlockCache.Truthful (K : CacheKey → Prop) (objects : Files) (c : BlockCache) : Prop :=
  ∀ k e, K k → c.map[k]? = some e → crc32 e.bytes = e.crc → truth objects k = .ok e.bytes

namespace BlockCache

variable {K : CacheKey → Prop} {objects : Files} {c : BlockCache} {k : CacheKey} {bytes : Bytes}

theorem Truthful.sub {c' : BlockCache} (truthful : c.Truthful K objects)
    (fewer : ∀ (k : CacheKey) (e : CacheEntry), c'.map[k]? = some e → c.map[k]? = some e) :
    c'.Truthful K objects :=
  fun k e key held => truthful k e key (fewer k e held)

theorem of_getElem?_erase {map : BTreeMap CacheKey CacheEntry} {victim : CacheKey} {e : CacheEntry}
    (held : (map.erase victim)[k]? = some e) : map[k]? = some e := by
  rw [Std.ExtTreeMap.getElem?_erase] at held
  split at held
  · exact absurd held (by simp)
  · exact held

theorem get_truthful (truthful : c.Truthful K objects) : (c.get k).2.Truthful K objects := by
  unfold get
  split
  · split
    · exact truthful
    · exact truthful.sub fun _ _ => of_getElem?_erase
  · exact truthful

theorem get_hit (truthful : c.Truthful K objects) (key : K k) (hit : (c.get k).1 = some bytes) :
    truth objects k = .ok bytes := by
  unfold get at hit
  split at hit
  next e held =>
    split at hit
    next verifies => exact Option.some.inj hit ▸ truthful k e key held verifies
    · exact absurd hit (by simp)
  · exact absurd hit (by simp)

/-- Eviction only takes entries away. -/
theorem evict_sub (size : Nat) (lru : List CacheKey) (c : BlockCache) (k : CacheKey)
    (e : CacheEntry) (held : (evict size lru c).map[k]? = some e) : c.map[k]? = some e := by
  induction lru generalizing c with
  | nil => exact held
  | cons victim rest ih =>
    unfold evict at held
    split at held
    · exact of_getElem?_erase (ih _ held)
    · exact held

theorem insert_truthful (truthful : c.Truthful K objects) (own : K k → truth objects k = .ok bytes) :
    (c.insert k bytes).Truthful K objects := by
  unfold insert
  split
  · exact truthful
  split
  · exact truthful
  · intro k' e key held verifies
    obtain ⟨rfl, rfl⟩ | held := of_getElem?_insert held
    · exact own key
    · exact truthful k' e key (evict_sub _ _ _ _ _ held) verifies

end BlockCache

/-! ### Requests -/

def HonestReplies (replies : List Reply) : Prop := ∀ bytes, Reply.wrong bytes ∉ replies

structure ColdStore.Sound (K : CacheKey → Prop) (objects : Files) (s : ColdStore) : Prop where
  same : s.objects = objects
  cache : s.cache.Truthful K objects
  replies : HonestReplies s.replies

variable {replies : List Reply}

theorem HonestReplies.tail (honest : HonestReplies replies) :
    HonestReplies replies.tail := fun bytes mem => honest bytes (List.mem_of_mem_tail mem)

namespace ColdStore

variable {K : CacheKey → Prop} {objects : Files} {k : CacheKey} {s : ColdStore}

/-- How one cached request ends: with the object's bytes from the cache, or as the remote has it. -/
inductive Served (objects : Files) (k : CacheKey) (s : ColdStore)
    (outcome : Result Bytes) (replies : List Reply) : Prop where
  | hit {bytes : Bytes} (held : truth objects k = .ok bytes) (returned : outcome = .ok bytes)
    (left : replies = s.replies)
  | answered (next : s.replies.headD .truth = .truth) (returned : outcome = truth objects k)
    (left : replies = s.replies.tail)
  | failed {message : String} (next : s.replies.headD .truth = .io message)
    (returned : outcome = .error (.io message)) (left : replies = s.replies.tail)

theorem Served.truth {outcome : Result Bytes} {bytes : Bytes}
    (served : Served objects k s outcome replies) (ok : outcome = .ok bytes) :
    truth objects k = .ok bytes := by
  cases served with
  | hit held returned _ => exact held.trans (returned.symm.trans ok)
  | answered _ returned _ => exact returned.symm.trans ok
  | failed _ returned _ => exact absurd (returned.symm.trans ok) (by simp)

theorem getRangeCached_served (key : K k) (sound : s.Sound K objects) :
    (getRangeCached k s).2.Sound K objects ∧
      Served objects k s (getRangeCached k s).1 (getRangeCached k s).2.replies := by
  have kept : (s.cache.get k).2.Truthful K objects := BlockCache.get_truthful sound.cache
  unfold getRangeCached
  rw [run_bind]
  simp only [cacheGet]
  cases found : (s.cache.get k).1 with
  | some bytes =>
    have held := BlockCache.get_hit sound.cache key found
    exact ⟨⟨sound.same, kept, sound.replies⟩, .hit held rfl rfl⟩
  | none =>
    simp only
    rw [run_bind]
    simp only [remoteGetRange]
    cases next : s.replies.headD .truth with
    | truth =>
      simp only
      cases answer : LocalObjectStore.getRangeIn k.key k.offset k.len s.objects with
      | error e =>
        have own : truth objects k = .error e := sound.same ▸ answer
        exact ⟨⟨sound.same, kept, sound.replies.tail⟩, .answered next own.symm rfl⟩
      | ok bytes =>
        have own : truth objects k = .ok bytes := sound.same ▸ answer
        exact ⟨⟨sound.same, BlockCache.insert_truthful kept fun _ => own, sound.replies.tail⟩,
          .answered next own.symm rfl⟩
    | io message => exact ⟨⟨sound.same, kept, sound.replies.tail⟩, .failed next rfl rfl⟩
    | wrong bytes =>
      -- An honest list has no such reply to give.
      cases given : s.replies with
      | nil => simp [given] at next
      | cons reply rest =>
        rw [given] at next
        exact absurd (by simp [given, show reply = .wrong bytes from next]) (sound.replies bytes)

end ColdStore

namespace Engine

open ColdStore

variable {K : CacheKey → Prop} {objects : Files} {k : CacheKey}

/-- One attempt: a failure that is retried leads to the next one. -/
theorem fetchAttempts_step (attempts : Nat) (last : Option PrismError) (s : ColdStore) :
    fetchAttempts k (attempts + 1) last s = getRangeCached k s ∨
      ∃ e, (getRangeCached k s).1 = .error e ∧
        fetchAttempts k (attempts + 1) last s =
          fetchAttempts k attempts (some e) (getRangeCached k s).2 := by
  simp only [fetchAttempts]
  split
  next ran => exact .inl ran.symm
  next ran => exact .inl ran.symm
  next e _ _ ran => exact .inr ⟨e, by rw [ran], by rw [ran]⟩

theorem fetchAttempts_sound (key : K k) (attempts : Nat) (last : Option PrismError) :
    Sound (ColdStore.Sound K objects) (fetchAttempts k attempts last)
      (fun bytes => truth objects k = .ok bytes) := by
  induction attempts generalizing last with
  | zero => exact Sound.throw
  | succ attempts ih =>
    intro s start
    obtain ⟨kept, served⟩ := getRangeCached_served key start
    rcases fetchAttempts_step attempts last s with ran | ⟨e, _, ran⟩
    · rw [ran]
      exact ⟨kept, fun bytes returned => served.truth returned⟩
    · rw [ran]
      exact ih (some e) _ kept

end Engine

/-- At most `left` of the next requests fail before one does not, and at most as many as are retried
fail in a row after it. -/
def Within : (left : Nat) → List Reply → Prop
  | _, [] => True
  | 0, .io _ :: _ => False
  | left + 1, .io _ :: rest => Within left rest
  | _, .truth :: rest => Within coldFetchMaxRetries rest
  | _, .wrong _ :: rest => Within coldFetchMaxRetries rest

variable {left : Nat}

theorem Within.mono {left' : Nat} (within : Within left replies) (more : left ≤ left') :
    Within left' replies := by
  induction replies generalizing left left' with
  | nil => simp [Within]
  | cons reply rest ih =>
    cases reply with
    | truth =>
      cases left <;> cases left' <;> simpa [Within] using within
    | io message =>
      cases left with
      | zero => exact absurd within (by simp [Within])
      | succ left =>
        match left', more with
        | left' + 1, more => exact ih within (Nat.le_of_succ_le_succ more)
    | wrong bytes =>
      cases left <;> cases left' <;> simpa [Within] using within

theorem Within.answered (within : Within left replies) (next : replies.headD .truth = .truth) :
    Within coldFetchMaxRetries replies.tail := by
  cases replies with
  | nil => simp [Within]
  | cons reply rest =>
    obtain rfl : reply = .truth := next
    cases left <;> simpa [Within] using within

theorem Within.failed {message : String} (within : Within left replies)
    (next : replies.headD .truth = .io message) :
    ∃ fewer, left = fewer + 1 ∧ Within fewer replies.tail := by
  cases replies with
  | nil => simp at next
  | cons reply rest =>
    obtain rfl : reply = .io message := next
    cases left with
    | zero => exact absurd within (by simp [Within])
    | succ fewer => exact ⟨fewer, rfl, within⟩

namespace Engine

open ColdStore

variable {K : CacheKey → Prop} {objects : Files} {k : CacheKey} {bytes : Bytes} {s : ColdStore}

theorem fetchAttempts_done {s' : ColdStore} (ran : getRangeCached k s = (.ok bytes, s'))
    (attempts : Nat) (last : Option PrismError) :
    fetchAttempts k (attempts + 1) last s = (.ok bytes, s') := by
  simp only [fetchAttempts, ran]

theorem fetchAttempts_retry {s' : ColdStore} {message : String}
    (ran : getRangeCached k s = (.error (.io message), s')) (attempts : Nat)
    (last : Option PrismError) :
    fetchAttempts k (attempts + 1) last s = fetchAttempts k attempts (some (.io message)) s' := by
  simp only [fetchAttempts, ran]

/-- One attempt while failures are within bounds: the bytes, or one failure fewer is left. -/
theorem getRangeCached_within {left : Nat} (key : K k) (own : truth objects k = .ok bytes)
    (few : left ≤ coldFetchMaxRetries) (sound : s.Sound K objects) (within : Within left s.replies)
    : (∃ s', getRangeCached k s = (.ok bytes, s') ∧ s'.Sound K objects ∧
      Within coldFetchMaxRetries s'.replies) ∨
    ∃ fewer message s', left = fewer + 1 ∧ getRangeCached k s = (.error (.io message), s') ∧
      s'.Sound K objects ∧ Within fewer s'.replies := by
  have served := getRangeCached_served key sound
  generalize getRangeCached k s = result at served
  obtain ⟨outcome, s'⟩ := result
  obtain ⟨kept, served⟩ := served
  cases served with
  | hit held returned left =>
    have same : outcome = .ok bytes := returned.trans (held.symm.trans own)
    exact .inl ⟨s', by rw [same], kept, left ▸ within.mono few⟩
  | answered next returned left =>
    have same : outcome = .ok bytes := returned.trans own
    exact .inl ⟨s', by rw [same], kept, left ▸ within.answered next⟩
  | failed next returned left =>
    obtain ⟨fewer, one, within⟩ := within.failed next
    have same : outcome = .error (.io _) := returned
    exact .inr ⟨fewer, _, s', one, by rw [same], kept, left ▸ within⟩

theorem fetchAttempts_yields (key : K k) (own : truth objects k = .ok bytes) (left : Nat)
    (few : left ≤ coldFetchMaxRetries) (last : Option PrismError) (s : ColdStore)
    (sound : s.Sound K objects) (within : Within left s.replies) :
    ((fetchAttempts k (left + 1) last s).2.Sound K objects ∧
      Within coldFetchMaxRetries (fetchAttempts k (left + 1) last s).2.replies) ∧
      (fetchAttempts k (left + 1) last s).1 = .ok bytes := by
  induction left generalizing last s with
  | zero =>
    rcases getRangeCached_within key own few sound within with
      ⟨s', ran, kept, within⟩ | ⟨fewer, _, _, none, _⟩
    · rw [fetchAttempts_done ran]
      exact ⟨⟨kept, within⟩, rfl⟩
    · exact absurd none (by simp)
  | succ left ih =>
    rcases getRangeCached_within key own few sound within with
      ⟨s', ran, kept, within⟩ | ⟨fewer, message, s', one, ran, kept, within⟩
    · rw [fetchAttempts_done ran]
      exact ⟨⟨kept, within⟩, rfl⟩
    · obtain rfl := Nat.succ.inj one
      rw [fetchAttempts_retry ran]
      exact ih (Nat.le_of_succ_le few) _ s' kept within

/-- The store while failures stay within the retries of each block. -/
def Patient (K : CacheKey → Prop) (objects : Files) (s : ColdStore) : Prop :=
  s.Sound K objects ∧ Within coldFetchMaxRetries s.replies

theorem fetchColdBlock_sound (key : K k) :
    Sound (ColdStore.Sound K objects) (fetchColdBlock k) (fun bytes => truth objects k = .ok bytes) :=
  fetchAttempts_sound key _ _

theorem fetchColdBlock_yields (key : K k) (own : truth objects k = .ok bytes) :
    Yields (Patient K objects) (fetchColdBlock k) bytes := fun s patient =>
  fetchAttempts_yields key own _ le_rfl none s patient.1 patient.2

/-! ### Blocks -/

section Blocks

variable {r : PartReader} {column : ColumnMeta} {file : Bytes} {key : String}

def blockKey (key : String) (block : BlockRef) : CacheKey :=
  ⟨key, block.fileOffset, frameHeaderBytes + block.payloadLen⟩

theorem truth_blockKey_eq_ok (backed : objects[key]? = some file) {block : BlockRef} {raw : Bytes} :
    truth objects (blockKey key block) = .ok raw ↔
      block.fileOffset + frameHeaderBytes + block.payloadLen ≤ file.length ∧
        (file.drop block.fileOffset).take (frameHeaderBytes + block.payloadLen) = raw := by
  simp only [truth, LocalObjectStore.getRangeIn, blockKey, backed, ← Nat.add_assoc]
  split
  next short => simp [Nat.not_le.mpr short]
  next whole => simp [Nat.not_lt.mp whole]

/-- A sealed block is refused without a key. -/
theorem readBlockSealed_refuses {raw : Bytes} {block : BlockRef} {name partId : String}
    {index blockSize : Nat} {payload : Bytes}
    (isSealed : Bytes.ofLe (raw.take 4) = sealedBlockMagic) :
    readBlockSealed raw index block name partId blockSize none ≠ .ok payload := by
  simp [readBlockSealed, isSealed, bind, Except.bind]

/-- A part that is read without a key has no plain block where it says that it is encrypted. -/
def Guarded (r : PartReader) (file : Bytes) (blocks : List BlockRef) : Prop :=
  r.manifest.encrypted = true → r.cipher = none →
    ∀ block ∈ blocks, magicAt file block = sealedBlockMagic

theorem coldBlocks_sound (backed : objects[key]? = some file) (blockSize : Nat)
    (named : column.name = "rerank_vectors") (blocks : List BlockRef) (index : Nat)
    (keys : ∀ block ∈ blocks, K (blockKey key block)) (guarded : Guarded r file blocks) :
    Sound (ColdStore.Sound K objects) (coldBlocks r key blockSize index blocks)
      (fun payloads => r.readBlocks column file blockSize index blocks = .ok payloads) := by
  induction blocks generalizing index with
  | nil => exact Sound.pure rfl
  | cons block rest ih =>
    refine Sound.bind (fetchColdBlock_sound (keys block (by simp))) fun raw fetched => ?_
    obtain ⟨inside, rfl⟩ := (truth_blockKey_eq_ok backed).mp fetched
    refine Sound.bind (Sound.lift fun payload opened => opened) fun payload opened => ?_
    refine Sound.bind (ih (index + 1) (fun b mem => keys b (List.mem_cons_of_mem _ mem))
      fun encrypted keyless b mem => guarded encrypted keyless b (List.mem_cons_of_mem _ mem))
      fun payloads read => Sound.pure ?_
    -- A key is missing only where the block itself has been refused.
    have keyed : ¬ (r.manifest.encrypted = true ∧ r.cipher.isNone = true) := by
      rintro ⟨encrypted, keyless⟩
      have keyless : r.cipher = none := Option.isNone_iff_eq_none.mp keyless
      have magic := guarded encrypted keyless block (by simp)
      rw [keyless] at opened
      refine readBlockSealed_refuses ?_ opened
      rwa [List.take_take, Nat.min_eq_left (by simp [frameHeaderBytes]; omega)]
    have inside : ¬ block.fileOffset + frameHeaderBytes + block.payloadLen > file.length :=
      Nat.not_lt.mpr inside
    simp only [PartReader.readBlocks, if_neg inside, if_neg keyed, named, opened, read, bind,
      Except.bind]
    rfl

theorem coldBlocks_yields (backed : objects[key]? = some file) (blockSize : Nat)
    (named : column.name = "rerank_vectors") (blocks : List BlockRef) (index : Nat)
    (keys : ∀ block ∈ blocks, K (blockKey key block)) {payloads : List Bytes}
    (read : r.readBlocks column file blockSize index blocks = .ok payloads) :
    Yields (Patient K objects) (coldBlocks r key blockSize index blocks) payloads := by
  induction blocks generalizing index payloads with
  | nil =>
    cases read
    exact Yields.pure
  | cons block rest ih =>
    simp only [PartReader.readBlocks] at read
    obtain ⟨inside, read⟩ := guard_eq_ok.mp read
    obtain ⟨_, read⟩ := guard_eq_ok.mp read
    obtain ⟨payload, opened, read⟩ := bind_eq_ok.mp read
    obtain ⟨payloads, others, rfl⟩ := bind_pure_eq_ok.mp read
    rw [named] at opened
    have fetched : truth objects (blockKey key block) = .ok _ :=
      (truth_blockKey_eq_ok backed).mpr ⟨Nat.not_lt.mp inside, rfl⟩
    refine Yields.bind (fetchColdBlock_yields (keys block (by simp)) fetched) ?_
    rw [opened]
    refine Yields.bind Yields.lift ?_
    exact Yields.bind (ih (index + 1) (fun b mem => keys b (List.mem_cons_of_mem _ mem)) others)
      Yields.pure

end Blocks

/-! ### Rows -/

/-- The rerank column of a part in one file, which is also the object under `key`: what is needed of
a part for its two readers to agree. -/
structure Tiered (r : PartReader) (objects : Files) (key : String) (blockSize : Nat)
    (blocks : List BlockRef) (column : ColumnMeta) (file : Bytes) : Prop where
  found : r.manifest.column "rerank_vectors" = .ok column
  named : column.name = "rerank_vectors"
  storage : ∃ logicalBytes, column.storage = .framed logicalBytes blockSize blocks ∧
    r.manifest.rowCount * r.manifest.bytesPerVector ≤ logicalBytes
  hot : r.part.file column.file = some file
  backed : objects[key]? = some file
  guarded : Guarded r file blocks

section Rows

variable {r : PartReader} {key : String} {blockSize : Nat} {blocks : List BlockRef}
  {column : ColumnMeta} {file : Bytes}

def rowBlocks (r : PartReader) (blockSize row : Nat) : Nat × Nat :=
  blocksForRange (row * r.manifest.bytesPerVector) r.manifest.bytesPerVector blockSize

def rowBytes (r : PartReader) (blockSize row : Nat) (payloads : List Bytes) : Bytes :=
  blockWindows (row * r.manifest.bytesPerVector)
    (row * r.manifest.bytesPerVector + r.manifest.bytesPerVector) blockSize
    (rowBlocks r blockSize row).1 payloads

section TierReads

variable (tiered : Tiered r objects key blockSize blocks column file)
include tiered

/-- The local read of a row, step by step. -/
theorem vectorAt_eq_ok {row : Nat} {vector : Vector32} : r.vectorAt row = .ok vector ↔
      row < r.manifest.rowCount ∧ (rowBlocks r blockSize row).2 < blocks.length ∧
        ∃ payloads, r.readBlocks column file blockSize (rowBlocks r blockSize row).1
            ((blocks.take ((rowBlocks r blockSize row).2 + 1)).drop (rowBlocks r blockSize row).1) =
              .ok payloads ∧
          r.manifest.rerank.decodeVector (rowBytes r blockSize row payloads) r.manifest.dim =
            .ok vector := by
  obtain ⟨logicalBytes, storage, covered⟩ := tiered.storage
  simp only [PartReader.vectorAt, guard_eq_ok, Nat.not_le]
  refine and_congr_right fun inside => ?_
  have within : ¬ row * r.manifest.bytesPerVector + r.manifest.bytesPerVector > logicalBytes := by
    have rows : (row + 1) * r.manifest.bytesPerVector ≤
        r.manifest.rowCount * r.manifest.bytesPerVector := Nat.mul_le_mul_right _ inside
    rw [Nat.succ_mul] at rows
    omega
  simp only [PartReader.readRange, tiered.found, tiered.hot, storage, ColumnStorage.logicalBytes,
    bind, Except.bind, if_neg within]
  unfold rowBytes rowBlocks
  generalize blocksForRange (row * r.manifest.bytesPerVector) r.manifest.bytesPerVector blockSize = range
  by_cases many : range.2 < blocks.length
  · rw [if_neg (Nat.not_le.mpr many)]
    cases r.readBlocks column file blockSize range.1 ((blocks.take (range.2 + 1)).drop range.1) with
    | error e => simp
    | ok payloads => simp [many, pure, Except.pure]
  · rw [if_pos (Nat.not_lt.mp many)]
    simp [many]

omit tiered in
/-- The blocks of a row are blocks of the column. -/
theorem keys_of_row (keys : ∀ block ∈ blocks, K (blockKey key block)) (first last : Nat) :
    ∀ block ∈ (blocks.take last).drop first, K (blockKey key block) := fun block mem =>
  keys block (List.mem_of_mem_take (List.mem_of_mem_drop mem))

theorem coldVectorAt_sound (keys : ∀ block ∈ blocks, K (blockKey key block)) (row : Nat) :
    Sound (ColdStore.Sound K objects) (coldVectorAt r key blockSize blocks row)
      (fun vector => r.vectorAt row = .ok vector) := by
  unfold coldVectorAt
  dsimp only
  split
  · exact Sound.refuse
  next inside =>
    split
    · exact Sound.refuse
    next many =>
      refine Sound.bind (coldBlocks_sound tiered.backed blockSize tiered.named _ _
        (keys_of_row keys _ _) fun encrypted keyless block mem =>
          tiered.guarded encrypted keyless block
            (List.mem_of_mem_take (List.mem_of_mem_drop mem))) fun payloads read => ?_
      refine Sound.lift fun vector decoded => ?_
      exact (vectorAt_eq_ok tiered).mpr
        ⟨Nat.not_le.mp inside, Nat.not_le.mp many, payloads, read, decoded⟩

theorem coldVectorAt_yields (keys : ∀ block ∈ blocks, K (blockKey key block)) {row : Nat}
    {vector : Vector32} (read : r.vectorAt row = .ok vector) :
    Yields (Patient K objects) (coldVectorAt r key blockSize blocks row) vector := by
  obtain ⟨inside, many, payloads, read, decoded⟩ := (vectorAt_eq_ok tiered).mp read
  unfold coldVectorAt
  dsimp only
  rw [if_neg (Nat.not_le.mpr inside)]
  erw [if_neg (Nat.not_le.mpr many)]
  refine Yields.bind (coldBlocks_yields tiered.backed blockSize tiered.named _ _
    (keys_of_row keys _ _) read) ?_
  erw [decoded]
  exact Yields.lift

theorem coldRows_sound (keys : ∀ block ∈ blocks, K (blockKey key block)) :
    Sound (ColdStore.Sound K objects) (coldRows r key blockSize blocks rows)
      (fun vectors => rows.mapM r.vectorAt = .ok vectors) := by
  induction rows with
  | nil => exact Sound.pure rfl
  | cons row rows ih =>
    refine Sound.bind (coldVectorAt_sound tiered keys row) fun vector one => ?_
    refine Sound.bind ih fun vectors rest => Sound.pure ?_
    rw [List.mapM_cons, one, rest]
    rfl

variable {vectors : List Vector32}

theorem coldRows_yields (keys : ∀ block ∈ blocks, K (blockKey key block)) {rows : List Nat}
    (read : rows.mapM r.vectorAt = .ok vectors) :
    Yields (Patient K objects) (coldRows r key blockSize blocks rows) vectors := by
  induction rows generalizing vectors with
  | nil =>
    rw [List.mapM_nil, pure_eq_ok] at read
    exact read ▸ Yields.pure
  | cons row rows ih =>
    rw [List.mapM_cons] at read
    obtain ⟨vector, one, read⟩ := bind_eq_ok.mp read
    obtain ⟨vectors, rest, rfl⟩ := bind_pure_eq_ok.mp read
    exact Yields.bind (coldVectorAt_yields tiered keys one) (Yields.bind (ih rest) Yields.pure)

end TierReads

/-- A cold read of a part whose tier is on the object store, against the local read. -/
theorem coldReadVectors_sound
    (tiered : Tiered r objects s!"parts/{r.manifest.partId}/{column.file}" blockSize blocks column file)
    (keys : ∀ block ∈ blocks, K (blockKey s!"parts/{r.manifest.partId}/{column.file}" block)) :
    Sound (ColdStore.Sound K objects) (coldReadVectors r rows)
      (fun vectors => r.readVectorsForRows rows = .ok vectors) := by
  obtain ⟨logicalBytes, storage, _⟩ := tiered.storage
  unfold coldReadVectors
  rw [tiered.found]
  refine Sound.bind (Sound.lift fun c same => (Except.ok.inj same).symm) fun c same => ?_
  subst same
  rw [storage]
  exact coldRows_sound tiered keys

theorem coldReadVectors_yields
    (tiered : Tiered r objects s!"parts/{r.manifest.partId}/{column.file}" blockSize blocks column
      file)
    (keys : ∀ block ∈ blocks, K (blockKey s!"parts/{r.manifest.partId}/{column.file}" block))
    {rows : List Nat} (read : r.readVectorsForRows rows = .ok vectors) :
    Yields (Patient K objects) (coldReadVectors r rows) vectors := by
  obtain ⟨logicalBytes, storage, _⟩ := tiered.storage
  unfold coldReadVectors
  rw [tiered.found]
  refine Yields.bind Yields.lift ?_
  rw [storage]
  exact coldRows_yields tiered keys read

end Rows

/-! ### Other readers of the same cache -/

variable (r : PartReader) (key : String)

theorem coldBlocks_keeps (blockSize : Nat) (blocks : List BlockRef) (index : Nat) :
    Sound (ColdStore.Sound (fun _ => True) objects)
      (coldBlocks r key blockSize index blocks) (fun _ => True) := by
  induction blocks generalizing index with
  | nil => exact Sound.pure trivial
  | cons block rest ih =>
    refine Sound.bind (fetchColdBlock_sound trivial) fun _ _ => ?_
    refine Sound.bind (Sound.lift fun _ _ => trivial) fun _ _ => ?_
    exact Sound.bind (ih (index + 1)) fun _ _ => Sound.pure trivial

theorem coldVectorAt_keeps (blockSize : Nat) (row : Nat) :
    Sound (ColdStore.Sound (fun _ => True) objects)
      (coldVectorAt r key blockSize blocks row) (fun _ => True) := by
  unfold coldVectorAt
  dsimp only
  split
  · exact Sound.refuse
  split
  · exact Sound.refuse
  · exact Sound.bind (coldBlocks_keeps r key blockSize _ _) fun _ _ => Sound.lift fun _ _ => trivial

theorem coldRows_keeps (blockSize : Nat) : Sound (ColdStore.Sound (fun _ => True) objects)
      (coldRows r key blockSize blocks rows) (fun _ => True) := by
  induction rows with
  | nil => exact Sound.pure trivial
  | cons row rows ih =>
    refine Sound.bind (coldVectorAt_keeps r key blockSize row) fun _ _ => ?_
    exact Sound.bind ih fun _ _ => Sound.pure trivial

/-- Every honest read leaves a truthful cache, whatever part it is of. -/
theorem coldReadVectors_keeps :
    Sound (ColdStore.Sound (fun _ => True) objects) (coldReadVectors r rows) (fun _ => True) := by
  unfold coldReadVectors
  refine Sound.bind (Sound.lift fun _ _ => trivial) fun column _ => ?_
  split
  · exact Sound.lift fun _ _ => trivial
  · exact coldRows_keeps r _ _

end Engine

/-! ### Written parts -/

variable {rows : List RowIn} {promoted : List Promoted}

/-- No file of a part but its rerank column is called `rerank.vec`. -/
theorem rerank_file_unique {attributes : Bytes × Bytes} {c : Column}
    (mem : c ∈ (logicalColumns rows attributes promoted).drop 2) : c.file ≠ "rerank.vec" := by
  have files : ((logicalColumns rows attributes promoted).drop 2).map (·.file) =
      ["centroid.u32", "event_time.i64", "observed_time.i64", "cost.f64", "error.u8", "event_id.dat",
        "event_id.off", "tenant_id.dat", "tenant_id.off", "event_name.dat", "event_name.off",
        "body.dat", "body.off", "trace_id.dat", "trace_id.off", "span_id.dat", "span_id.off",
        "idem.dat", "idem.off", "attrs.dat", "attrs.off"] ++
        (promoted.flatMap promotedColumns).map (·.file) := rfl
  have inside : c.file ∈ ((logicalColumns rows attributes promoted).drop 2).map (·.file) :=
    List.mem_map_of_mem mem
  rw [files, List.mem_append] at inside
  rcases inside with fixed | extra
  · intro same
    rw [same] at fixed
    exact absurd fixed (by decide)
  · obtain ⟨c', inside, same⟩ := List.mem_map.mp extra
    obtain ⟨p, _, inside⟩ := List.mem_flatMap.mp inside
    rw [← same]
    intro rerank
    have start := congrArg (fun s => s.toList.head?) rerank
    simp only [promotedColumns, List.mem_cons, List.not_mem_nil, or_false] at inside
    rcases inside with rfl | rfl | rfl <;> simp [toString] at start

variable {spec : PartSpec} {part : Part}

/-- The bit is only set for a part that is sealed. -/
theorem partFeatures_plain (plain : spec.encryption = none) :
    partFeatures spec promoted &&& featureEncryption = 0 := by
  unfold partFeatures
  rw [plain]
  cases spec.partition.isSome <;> cases promoted.isEmpty <;> cases spec.tenantTokenizer.isSome <;>
    decide

theorem coldKey_eq (partId : String) {file : String} (rerank : file = "rerank.vec") :
    s!"parts/{partId}/{file}" = Engine.coldKey partId := by
  subst rerank
  simp only [Engine.coldKey, toString, String.append_assoc]
  rfl

/-- The two readers of a written part, whatever key the reader has, see one rerank column. -/
theorem written_tiered {shape : PartShape} {seq : Nat} {nowMs : Int} {objects : Files}
    (built : buildPart shape spec seq rows nowMs = .ok part)
    (backed : objects[Engine.coldKey part.manifest.partId]? = part.file "rerank.vec")
    (cipher : Option BlockCipher) : ∃ blockSize blocks column file, column.file = "rerank.vec" ∧
      Engine.Tiered ⟨part, cipher⟩ objects s!"parts/{part.manifest.partId}/{column.file}" blockSize
        blocks column file := by
  obtain ⟨promoted, _, attributes, framed, written⟩ := buildPart_written built
  obtain ⟨_, manifest⟩ := written.manifest
  have frames := written.frames
  -- The rerank column is the second one.
  obtain ⟨codeBytes, logical, columns⟩ : ∃ codeBytes logical,
      logicalColumns part.rows attributes promoted = ⟨"pq_codes", "pq.codes", codeBytes⟩ ::
        ⟨"rerank_vectors", "rerank.vec", logical⟩ ::
        (logicalColumns part.rows attributes promoted).drop 2 := ⟨_, _, rfl⟩
  rw [columns, List.mapM_cons] at frames
  obtain ⟨codes, framesCodes, frames⟩ := bind_eq_ok.mp frames
  obtain ⟨later, framesLater, rfl⟩ := bind_pure_eq_ok.mp frames
  rw [List.mapM_cons] at framesLater
  obtain ⟨rerank, framesRerank, framesLater⟩ := bind_eq_ok.mp framesLater
  obtain ⟨others, framesOthers, rfl⟩ := bind_pure_eq_ok.mp framesLater
  have sealing : spec.encryption.isSome → rerank.1.SealedIn (rerank.1.file, rerank.2) :=
    fun given => frameColumn_sealed given framesRerank
  obtain ⟨column, framing, rfl⟩ := bind_pure_eq_ok.mp framesRerank
  obtain ⟨codesColumn, _, rfl⟩ := bind_pure_eq_ok.mp framesCodes
  have found : part.manifest.column "rerank_vectors" = .ok ⟨"rerank_vectors", "rerank.vec", codecRaw,
      .framed logical.length shape.blockSize column.blocks⟩ := by
    simp [PartManifest.column, manifest]
  have hot : part.file "rerank.vec" = some column.file := by
    have apart : (others.map fun column => (column.1.file, column.2)).reverse.lookup "rerank.vec" =
        none := by
      rw [List.lookup_eq_none_iff]
      intro item mem
      obtain ⟨framed, other, rfl⟩ := List.mem_map.mp (List.mem_reverse.mp mem)
      obtain ⟨c, inside, framing⟩ := exists_of_mapM_eq_ok framesOthers other
      obtain ⟨_, _, rfl⟩ := bind_pure_eq_ok.mp framing
      simpa using (rerank_file_unique inside).symm
    simp [Part.file, written.files, List.lookup_append, apart]
  have covered : part.manifest.rowCount * part.manifest.bytesPerVector ≤ logical.length := by
    have expected := (validateStructure_inv written.valid).1
    obtain ⟨c, known, sized⟩ := bind_eq_ok.mp expected
    obtain rfl := ok_unique known found
    by_contra short
    rw [if_pos (by simp only [ColumnStorage.logicalBytes]; omega)] at sized
    exact absurd sized (by simp)
  refine ⟨_, _, _, column.file, rfl, found, rfl, ⟨_, rfl, covered⟩, hot,
    coldKey_eq _ rfl ▸ backed.trans hot, ?_⟩
  intro encrypted keyless block mem
  have given : spec.encryption.isSome := by
    by_contra none
    rw [Option.not_isSome_iff_eq_none] at none
    simp [PartManifest.encrypted, PartReader.manifest, manifest, partFeatures_plain none] at encrypted
  obtain ⟨_, _, _, blocks, storage, sealedBlocks⟩ := sealing given
  obtain ⟨rfl, rfl, rfl⟩ := ColumnStorage.framed.inj storage
  exact sealedBlocks block mem

/-! ### Runs -/

/-- What happens to the cache: a read, with what the remote does to its requests, or a change of the
bytes of an entry. Evictions are part of the reads. -/
inductive CacheOp where
  | read (r : PartReader) (rows : List Nat) (replies : List Reply)
  | corrupt (k : CacheKey) (bytes : Bytes)

namespace CacheOp

def step (s : ColdStore) : CacheOp → ColdStore
  | .read r rows replies => (Engine.coldReadVectors r rows { s with replies }).2
  | .corrupt k bytes => { s with cache := s.cache.corruptEntry k bytes }

/-- Requests fail or are answered truly, and the checksum of an entry detects that its bytes have
changed. -/
def Honest (s : ColdStore) : CacheOp → Prop
  | .read _ _ replies => HonestReplies replies
  | .corrupt k bytes => ∀ e, s.cache.map[k]? = some e → crc32 bytes = e.crc →
      truth s.objects k = .ok bytes

theorem corruptEntry_truthful {K : CacheKey → Prop} {objects : Files} {c : BlockCache} {k : CacheKey}
    {bytes : Bytes} (truthful : c.Truthful K objects)
    (detected : ∀ e, c.map[k]? = some e → crc32 bytes = e.crc → truth objects k = .ok bytes) :
    (c.corruptEntry k bytes).Truthful K objects := by
  unfold BlockCache.corruptEntry
  split
  next e held =>
    intro k' e' key found verifies
    obtain ⟨rfl, rfl⟩ | found := of_getElem?_insert found
    · exact detected e held verifies
    · exact truthful k' e' key found verifies
  · exact truthful

theorem step_sound {objects : Files} (s : ColdStore) (op : CacheOp) (honest : op.Honest s)
    (sound : s.Sound (fun _ => True) objects) : (op.step s).Sound (fun _ => True) objects := by
  cases op with
  | read r rows replies =>
    exact (Engine.coldReadVectors_keeps r { s with replies }
      ⟨sound.same, sound.cache, honest⟩).1
  | corrupt k bytes =>
    refine ⟨sound.same, corruptEntry_truthful sound.cache fun e held verifies => ?_, sound.replies⟩
    exact sound.same ▸ honest e held verifies

end CacheOp

def ColdStore.fresh (quota : Nat) : ColdStore := ⟨objects, .new quota, []⟩

theorem ColdStore.fresh_sound (quota : Nat) :
    (ColdStore.fresh objects quota).Sound (fun _ => True) objects :=
  ⟨rfl, fun _ _ _ held => absurd held (by simp [fresh, BlockCache.new]), fun _ => List.not_mem_nil⟩

/-- **Cold reads are local reads.** After any honest use of the cache, a cold read of a written part
whose rerank object is the local file returns what the local read returns or fails; and while no
block fails more often in a row than it is retried, it returns whenever the local read does. -/
theorem cold_read_refines_local {shape : PartShape} {spec : PartSpec} {seq : Nat} {batch : List RowIn}
    {nowMs : Int} {part : Part} (built : buildPart shape spec seq batch nowMs = .ok part)
    (objects : Files)
    (backed : objects[Engine.coldKey part.manifest.partId]? = part.file "rerank.vec")
    (quota : Nat) (ops : List CacheOp)
    (honest : Meets CacheOp.step CacheOp.Honest (ColdStore.fresh objects quota) ops)
    (cipher : Option BlockCipher) (rows : List Nat) (replies : List Reply)
    (transient : HonestReplies replies) :
    (∀ vectors, (Engine.coldReadVectors ⟨part, cipher⟩ rows
        { ops.foldl CacheOp.step (ColdStore.fresh objects quota) with replies }).1 = .ok vectors →
      PartReader.readVectorsForRows ⟨part, cipher⟩ rows = .ok vectors) ∧
    (Within coldFetchMaxRetries replies → ∀ vectors,
      PartReader.readVectorsForRows ⟨part, cipher⟩ rows = .ok vectors →
        (Engine.coldReadVectors ⟨part, cipher⟩ rows
          { ops.foldl CacheOp.step (ColdStore.fresh objects quota) with replies }).1 = .ok vectors) := by
  have sound := invariant_run CacheOp.step_sound ops _ (ColdStore.fresh_sound objects quota) honest
  have now : ({ ops.foldl CacheOp.step (ColdStore.fresh objects quota) with replies } : ColdStore).Sound
      (fun _ => True) objects := ⟨sound.same, sound.cache, transient⟩
  obtain ⟨blockSize, blocks, column, file, _, tiered⟩ := written_tiered built backed cipher
  constructor
  · exact (Engine.coldReadVectors_sound tiered (fun _ _ => trivial) _ now).2
  · intro within vectors read
    exact (Engine.coldReadVectors_yields tiered (fun _ _ => trivial) read _ ⟨now, within⟩).2

def tierPart : Result Part :=
  buildPart ⟨"g", "m", "v", 2, 1, 64⟩ ⟨none, [], {}, none, none⟩ 1
    [⟨sampleEvent "e1", 0, [0], [1065353216, 0]⟩] 1000

def tierObjects (part : Part) : Files :=
  (∅ : Files).insert (Engine.coldKey part.manifest.partId) ((part.file "rerank.vec").getD [])

private theorem tierObjects_backed (present : (part.file "rerank.vec").isSome = true) :
    (tierObjects part)[Engine.coldKey part.manifest.partId]? = part.file "rerank.vec" := by
  obtain ⟨file, found⟩ := Option.isSome_iff_exists.mp present
  rw [tierObjects, Std.ExtTreeMap.getElem?_insert_self, found]
  rfl

private theorem eq_ok_of_toOption {α : Type} {x : Result α} {a : α} (value : x.toOption = some a) :
    x = .ok a := by
  cases x with
  | error e => simp [Except.toOption] at value
  | ok b => rw [Option.some.inj value]

def tierBlock (part : Part) : CacheKey := ⟨Engine.coldKey part.manifest.partId, 0, 32⟩

def coldAfter (ops : Part → List CacheOp) (rows : List Nat) (replies : List Reply) :
    Option (Option (List (List UInt32))) :=
  tierPart.toOption.map fun part => (Engine.coldReadVectors ⟨part, none⟩ rows
    { (ops part).foldl CacheOp.step (ColdStore.fresh (tierObjects part) 1000) with
      replies }).1.toOption

/-- A read that succeeds at the second attempt, and a changed byte in the cache. -/
def flippedRun (part : Part) : List CacheOp :=
  [.read ⟨part, none⟩ [0] [.io "dropped"], .corrupt (tierBlock part) (List.replicate 32 0)]

set_option maxRecDepth 100000

theorem cold_read_refines_local_flipped :
    ∃ part, tierPart = .ok part ∧ (Engine.coldReadVectors ⟨part, none⟩ [0]
      { (flippedRun part).foldl CacheOp.step (ColdStore.fresh (tierObjects part) 1000) with
        replies := [.io "dropped", .io "dropped", .io "dropped"] }).1 = .ok [[1065353216, 0]] := by
  have facts : (tierPart.toOption.map fun part =>
      ((part.file "rerank.vec").isSome, (PartReader.readVectorsForRows ⟨part, none⟩ [0]).toOption,
        ((CacheOp.step (ColdStore.fresh (tierObjects part) 1000)
          (.read ⟨part, none⟩ [0] [.io "dropped"])).cache.map[tierBlock part]?).map (·.crc) ==
            some (crc32 (List.replicate 32 0)))) = some (true, some [[1065353216, 0]], false) := by
    decide +kernel
  cases built : tierPart with
  | error e => simp [built, Except.toOption] at facts
  | ok part =>
    simp only [built, Except.toOption, Option.map_some, Option.some.injEq, Prod.mk.injEq] at facts
    obtain ⟨present, read, changed⟩ := facts
    have backed := tierObjects_backed present
    have transient : HonestReplies [.io "dropped", .io "dropped", .io "dropped"] := by
      simp [HonestReplies]
    refine ⟨part, rfl, (cold_read_refines_local built (tierObjects part) backed 1000 (flippedRun part)
      ⟨by simp [CacheOp.Honest, HonestReplies], fun e held verifies => ?_, trivial⟩ none [0] _
      transient).2 (by simp [Within, coldFetchMaxRetries]) _ ?_⟩
    · rw [held, verifies] at changed
      exact absurd changed (by simp)
    · exact eq_ok_of_toOption read

/-- No request fails, and a row that the part does not have is refused, as it is locally. -/
theorem cold_read_refuses_missing_row : coldAfter (fun _ => []) [1] [] = some none := by
  decide +kernel

/-- **What has not been poisoned is read truly.** Whatever else the cache holds and whatever the
remote has answered before, a cold read of a written part during which the remote answers truly
returns the vectors of the local read, if every cached block of that part which passes its own
checksum has the bytes of the object. -/
theorem cold_read_recovers {shape : PartShape} {spec : PartSpec} {seq : Nat} {batch : List RowIn}
    {nowMs : Int} {part : Part} (built : buildPart shape spec seq batch nowMs = .ok part)
    (s : ColdStore)
    (backed : s.objects[Engine.coldKey part.manifest.partId]? = part.file "rerank.vec")
    (clean : s.cache.Truthful (fun k => k.key = Engine.coldKey part.manifest.partId) s.objects)
    (cipher : Option BlockCipher) (rows : List Nat) (vectors : List (List UInt32))
    (read : PartReader.readVectorsForRows ⟨part, cipher⟩ rows = .ok vectors) :
    (Engine.coldReadVectors ⟨part, cipher⟩ rows { s with replies := [] }).1 = .ok vectors := by
  obtain ⟨blockSize, blocks, column, file, named, tiered⟩ := written_tiered built backed cipher
  have key : s!"parts/{part.manifest.partId}/{column.file}" = Engine.coldKey part.manifest.partId :=
    coldKey_eq _ named
  have patient : Engine.Patient (fun k => k.key = Engine.coldKey part.manifest.partId) s.objects
      { s with replies := [] } :=
    ⟨⟨rfl, clean, fun _ => List.not_mem_nil⟩, by simp [Within]⟩
  exact (Engine.coldReadVectors_yields tiered (fun block _ => key) read _ patient).2

/-- The wrong bytes did not fit the quota. -/
theorem cold_read_recovers_uncached :
    ∃ part, tierPart = .ok part ∧ (Engine.coldReadVectors ⟨part, none⟩ [0]
      { CacheOp.step (ColdStore.fresh (tierObjects part) 10)
          (.read ⟨part, none⟩ [0] [.wrong (List.replicate 32 0)]) with replies := [] }).1 =
        .ok [[1065353216, 0]] := by
  have facts : (tierPart.toOption.map fun part =>
      let s := CacheOp.step (ColdStore.fresh (tierObjects part) 10)
        (.read ⟨part, none⟩ [0] [.wrong (List.replicate 32 0)])
      (s.objects[Engine.coldKey part.manifest.partId]? == part.file "rerank.vec",
        (PartReader.readVectorsForRows ⟨part, none⟩ [0]).toOption, s.cache.map.toList.map Prod.fst)) =
        some (true, some [[1065353216, 0]], []) := by
    decide +kernel
  cases built : tierPart with
  | error e => simp [built, Except.toOption] at facts
  | ok part =>
    rw [built] at facts
    simp only [Except.toOption, Option.map_some, Option.some.injEq, Prod.mk.injEq, beq_iff_eq,
      List.map_eq_nil_iff] at facts
    obtain ⟨backed, read, empty⟩ := facts
    refine ⟨part, rfl, cold_read_recovers built _ backed (fun k e _ held => ?_) none [0] _
      (eq_ok_of_toOption read)⟩
    rw [← Std.ExtTreeMap.mem_toList_iff_getElem?_eq_some, empty] at held
    exact (List.not_mem_nil held).elim

/-- One answer with other bytes of the requested length. -/
def poisonedRun (part : Part) : List CacheOp :=
  [.read ⟨part, none⟩ [0] [.wrong (List.replicate 32 0)]]

/-- The wrong bytes were admitted under their own checksum, so the next read fails although the
remote answers truly and the local read succeeds. -/
theorem wrong_bytes_stay_cached :
    coldAfter poisonedRun [0] [] = some none ∧
      (tierPart.toOption.map fun part => (PartReader.readVectorsForRows ⟨part, none⟩ [0]).toOption) =
        some (some [[1065353216, 0]]) := by
  decide +kernel

end Prism
