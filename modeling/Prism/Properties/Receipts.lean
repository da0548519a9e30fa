import Mathlib.Logic.Equiv.List
import Mathlib.Tactic.DeriveEncodable
import Prism.Engine.Backup
import Prism.Properties.EncryptedStore
import Prism.Properties.ManifestCodec

/-!
Backup receipts: what a call of `backup_part` can do to the objects of a part, and when a receipt
that is on the object store is a promise that a restore can keep.
-/

namespace Prism

open CrashLogic Fallible OrderedMap

variable {bytes : Bytes} {encrypted : Bool} {f : PrismError → PrismError}

/-! ### The manifest keeps its features -/

def Cursor.Returns {α : Type} (Q : α → Prop) (c : Cursor α) : Prop :=
  ∀ buf pos a next, c buf pos = .ok (a, next) → Q a

variable {α : Type}

theorem Cursor.Returns.bind {β : Type} {Q : β → Prop} {c : Cursor α} {f : α → Cursor β}
    (rest : ∀ a, Returns Q (f a)) : Returns Q (c >>= f) := by
  intro buf pos b next ran
  obtain ⟨⟨a, mid⟩, -, ran⟩ := bind_eq_ok.mp ran
  exact rest a buf mid b next ran

theorem Cursor.Returns.pure {Q : α → Prop} {a : α} (holds : Q a) :
    Returns Q (Pure.pure a : Cursor α) := by
  intro buf pos b next ran
  cases ran
  exact holds

/-- The features stand in the third word of the header. -/
theorem Header.parse_words {h h' : Header} (parsed : Cursor.run h.words Header.parse = .ok h') :
    h'.featureFlags = h.featureFlags := by
  have long := h.length_words
  simp only [Cursor.run, Header.parse] at parsed
  rw [Cursor.run_bind (Cursor.run_unsigned 4 0 (by omega)),
    Cursor.run_bind (Cursor.run_unsigned 1 4 (by omega)),
    Cursor.run_bind (Cursor.run_take 3 5 (by omega)),
    Cursor.run_bind (Cursor.run_unsigned 8 8 (by omega)),
    Cursor.run_bind (Cursor.run_unsigned 4 16 (by omega)),
    Cursor.run_bind (Cursor.run_unsigned 4 20 (by omega))] at parsed
  cases parsed
  have third : (h.words.drop 8).take 8 = Bytes.le 8 h.featureFlags.toNat := by
    simp [Header.words, List.drop_append, List.drop_eq_nil_of_le]
  change UInt64.ofNat (Bytes.ofLe ((h.words.drop 8).take 8)) = _
  rw [third, Bytes.ofLe_le_of_lt (by exact h.featureFlags.toNat_lt)]
  exact UInt64.ofNat_toNat

theorem Header.decode_encode {h h' : Header} {body : Bytes}
    (decoded : Header.decode (h.encode ++ body) = .ok h') : h'.featureFlags = h.featureFlags := by
  have window : ((h.encode ++ body).take (headerBytes - 4)).drop 8 = h.words := by
    simp [Header.encode, headerBytes, List.take_append, List.take_of_length_le]
  unfold Header.decode at decoded
  obtain ⟨-, decoded⟩ := guard_eq_ok.mp decoded
  obtain ⟨-, decoded⟩ := guard_eq_ok.mp decoded
  obtain ⟨-, decoded⟩ := guard_eq_ok.mp decoded
  rw [window] at decoded
  obtain ⟨parsed, ran, decoded⟩ := bind_eq_ok.mp decoded
  obtain ⟨-, decoded⟩ := guard_eq_ok.mp decoded
  obtain ⟨-, decoded⟩ := guard_eq_ok.mp decoded
  obtain ⟨-, decoded⟩ := guard_eq_ok.mp decoded
  obtain ⟨-, decoded⟩ := guard_eq_ok.mp decoded
  cases decoded
  exact Header.parse_words ran

theorem PartManifest.decodeBody_features (header : Header) :
    Cursor.Returns (fun m => m.featureFlags = header.featureFlags) (decodeBody header) := by
  unfold decodeBody
  iterate 21 refine Cursor.Returns.bind fun _ => ?_
  -- What version 3 added is read before the manifest is put together.
  split
  · exact Cursor.Returns.bind fun _ => Cursor.Returns.pure rfl
  · exact Cursor.Returns.bind fun _ => Cursor.Returns.pure rfl

variable {m : PartManifest} {bytes : Bytes}

/-- A manifest that reads back has the features it was written with. -/
theorem PartManifest.decode_encode_features {m' : PartManifest} (encoded : m.encode = .ok bytes)
    (decoded : decode bytes = .ok m') : m'.featureFlags = m.featureFlags := by
  obtain ⟨columns, -, encoded⟩ := bind_eq_ok.mp encoded
  rw [pure_eq_ok] at encoded
  subst encoded
  obtain ⟨⟨header, body⟩, split, decoded⟩ := bind_eq_ok.mp decoded
  obtain ⟨⟨m'', last⟩, ran, rfl⟩ := map_eq_ok.mp decoded
  obtain ⟨h, headed, split⟩ := bind_eq_ok.mp split
  obtain ⟨-, split⟩ := guard_eq_ok.mp split
  obtain ⟨-, split⟩ := guard_eq_ok.mp split
  obtain ⟨rfl, -⟩ := Prod.mk.inj (pure_eq_ok.mp split)
  exact (decodeBody_features h _ _ _ _ ran).trans (Header.decode_encode headed)

theorem PartManifest.rewrapped_encrypted {m' : PartManifest} {envelope : S14Ext}
    (wrapped : m.rewrapped envelope = .ok bytes) (decoded : decode bytes = .ok m') :
    m'.encrypted = true := by
  obtain ⟨sealed, wrapped⟩ := guard_eq_ok.mp wrapped
  cases changed : m.withEnvelope envelope with
  | none => simp [changed] at wrapped
  | some other =>
    simp only [changed] at wrapped
    obtain ⟨written, encoded, wrapped⟩ := bind_eq_ok.mp wrapped
    obtain ⟨back, -, wrapped⟩ := bind_eq_ok.mp wrapped
    obtain ⟨valid, -, rfl⟩ := bind_pure_eq_ok.mp wrapped
    have same : other.featureFlags = m.featureFlags := by
      simp only [withEnvelope] at changed
      split at changed
      · cases changed
      · cases changed
        rfl
    simpa [encrypted, decode_encode_features encoded decoded, same] using sealed

/-! ### Three views of the files of a part -/

def BackedFile.Matches (f : BackedFile) (files : Files) : Prop :=
  ∃ bytes, files[f.name]? = some bytes ∧ bytes.length = f.len ∧ hex (Prism.sha256 bytes) = f.sha256

/-- The file is recorded as it is in the directory, and the object is that file. -/
def BackedFile.Stored (f : BackedFile) (dir objects : Files) : Prop :=
  ∃ bytes, f = .of f.name bytes ∧ dir[f.name]? = some bytes ∧ objects[f.name]? = some bytes

variable {dir objects : Files}

theorem BackedFile.Stored.matches {f : BackedFile} (stored : f.Stored dir objects) :
    f.Matches objects := by
  obtain ⟨bytes, same, -, there⟩ := stored
  exact ⟨bytes, there, by rw [same]; rfl, by rw [same]; rfl⟩

/-- What an upload that is under way has done to the objects of a part: some of them are the file of
their name, the others are as before, and the receipt is. -/
structure Overlay (dir before objects : Files) : Prop where
  receipt : objects[backupManifestFile]? = before[backupManifestFile]?
  object : ∀ name : String, objects[name]? = before[name]? ∨
    ∃ bytes, dir[name]? = some bytes ∧ objects[name]? = some bytes

namespace Overlay

variable {dir before objects : Files} {name : String} {bytes : Bytes}

theorem refl : Overlay dir before before := ⟨rfl, fun _ => .inl rfl⟩

theorem insert (overlay : Overlay dir before objects) (file : dir[name]? = some bytes)
    (other : name ≠ backupManifestFile) : Overlay dir before (objects.insert name bytes) where
  receipt := by
    rw [getElem?_insert_of_ne other]
    exact overlay.receipt
  object := by
    intro asked
    by_cases same : asked = name
    · subst same
      exact .inr ⟨bytes, file, by simp⟩
    · rw [getElem?_insert_of_ne (Ne.symm same)]
      exact overlay.object asked

/-- Files that were stored stay stored. -/
theorem stored_insert {f : BackedFile} (stored : f.Stored dir objects)
    (file : dir[name]? = some bytes) : f.Stored dir (objects.insert name bytes) := by
  obtain ⟨own, same, there, object⟩ := stored
  refine ⟨own, same, there, ?_⟩
  by_cases hit : f.name = name
  · rw [hit, file] at there
    cases there
    simp [hit]
  · rw [getElem?_insert_of_ne (Ne.symm hit)]
    exact object

end Overlay

theorem mapErr_triple {σ : Type} {P : σ → Prop} {Q : α → σ → Prop} {E : σ → Prop}
    {p : Prog σ PrismError α} (inner : Triple P p Q E) : Triple P (mapErr f p) Q E := by
  intro faults s start
  have ends := inner faults s start
  rw [mapErr, Prog.run_bind, Prog.run_attempt]
  generalize p faults s = r at ends
  obtain ⟨_ | _ | _, rest, s'⟩ := r
  all_goals exact ends

theorem mapErr_leaves {σ τ : Type} {view : σ → τ} {p : Prog σ PrismError α} (leaves : Leaves view p) : Leaves view (mapErr f p) := by
  refine Leaves.bind leaves.attempt fun result => ?_
  cases result with
  | ok a => exact Leaves.pure
  | error e => exact Leaves.throw

theorem mapErr_observes {σ : Type} {p : Prog σ PrismError α} {C : σ → α → Prop} (looks : Observes p C) : Observes (mapErr f p) C :=
  ⟨mapErr_leaves looks.unchanged, fun start => mapErr_triple (looks.returned start)⟩

/-! ### Where a backup takes place -/

namespace Vault

variable (v : Vault) (partId : String)

def setPart (objects : Files) : Vault :=
  { v with parts := Function.update v.parts partId objects }

@[simp] theorem parts_setPart (objects : Files) :
    (v.setPart partId objects).parts partId = objects := by
  simp [setPart]

@[simp] theorem setPart_setPart (first second : Files) :
    (v.setPart partId first).setPart partId second = v.setPart partId second := by
  simp [setPart]

@[simp] theorem setPart_self :
    v.setPart partId (v.parts partId) = v := by
  simp [setPart]

end Vault

/-- What is written to the objects is read from them, and the directories are not objects. -/
structure Site.Lawful {σ : Type} (site : Site σ) : Prop where
  dir_store : ∀ v s, site.dir (site.store v s) = site.dir s
  vault_store : ∀ v s, site.vault (site.store v s) = v
  store_vault : ∀ s, site.store (site.vault s) s = s
  store_store : ∀ v v' s, site.store v (site.store v' s) = site.store v s

theorem Node.site_lawful : Node.site.Lawful :=
  ⟨fun _ _ => rfl, fun _ _ => rfl, fun _ => rfl, fun _ _ _ => rfl⟩

namespace Site

variable {σ : Type} {site : Site σ} {partId : String} {start : σ} {objects : Files}

def holding (site : Site σ) (partId : String) (s : σ) (objects : Files) : σ :=
  site.store ((site.vault s).setPart partId objects) s

theorem holding_self (lawful : site.Lawful) :
    site.holding partId start ((site.vault start).parts partId) = start := by
  rw [holding, Vault.setPart_self, lawful.store_vault]

theorem dir_holding (lawful : site.Lawful) :
    site.dir (site.holding partId start objects) = site.dir start := lawful.dir_store _ _

theorem objects_holding (lawful : site.Lawful) :
    (site.vault (site.holding partId start objects)).parts partId = objects := by
  rw [holding, lawful.vault_store, Vault.parts_setPart]

theorem putPart_holding (lawful : site.Lawful) (name : String) (bytes : Bytes) :
    site.store ((site.vault (site.holding partId start objects)).putPart partId name bytes)
      (site.holding partId start objects) =
    site.holding partId start (objects.insert name bytes) := by
  change site.store (Vault.setPart _ partId (((site.vault _).parts partId).insert name bytes)) _ = _
  rw [objects_holding lawful]
  simp only [holding, lawful.vault_store, lawful.store_store, Vault.setPart_setPart]

/-! ### One file -/

variable (name : String)

theorem head_spec : Observes (site.head partId name) fun s found =>
    found = ((site.vault s).parts partId)[name]?.map List.length :=
  Observes.read.weaken fun _ _ value => (Except.ok.inj value).symm

theorem readFile_spec : Observes (site.readFile partId name) fun s bytes =>
    (site.dir s partId)[name]? = some bytes := by
  refine Observes.read.weaken fun s bytes value => ?_
  split at value
  next there => exact Except.ok.inj value ▸ there
  next => cases value

/-- A file that is confirmed is on the object store at its length. -/
theorem confirm_spec : Observes (site.confirm partId name bytes) fun s f => f = .of name bytes ∧
      ((site.vault s).parts partId)[name]?.map List.length = some bytes.length := by
  refine Observes.bind (head_spec name) fun found => ?_
  split
  next got =>
    split
    next => exact Observes.throw
    next equal =>
      exact Observes.pure fun s value => ⟨rfl, by rw [← value, not_not.mp equal]⟩
  next => exact Observes.throw

/-- The files of an encrypted part are always uploaded. -/
theorem mustUpload_spec (name : String) :
    Observes (site.mustUpload partId encrypted name bytes) fun _ upload =>
      upload = false → encrypted = false := by
  unfold mustUpload
  split
  next => exact Observes.pure fun _ => nofun
  next plain =>
    exact Observes.bind (head_spec name) fun _ => Observes.pure fun _ _ _ => by simpa using plain

/-- Backing up one file leaves that file under its name: it is uploaded, or it is there already. -/
theorem backupFile_spec (lawful : site.Lawful) (name : String)
    (sameLength : encrypted = false → ∀ own bytes, objects[name]? = some own →
      (site.dir start partId)[name]? = some bytes → own.length = bytes.length → own = bytes) :
    Triple (· = site.holding partId start objects) (site.backupFile partId encrypted name)
      (fun f s => ∃ bytes, (site.dir start partId)[name]? = some bytes ∧ f = .of name bytes ∧
        s = site.holding partId start (objects.insert name bytes))
      (fun s => s = site.holding partId start objects ∨
        ∃ bytes, (site.dir start partId)[name]? = some bytes ∧
          s = site.holding partId start (objects.insert name bytes)) := by
  refine (readFile_spec name).bind_triple (.inl rfl) fun bytes file => ?_
  rw [dir_holding lawful] at file
  refine (mustUpload_spec name).bind_triple (.inl rfl) fun upload kept => ?_
  dsimp only
  split
  next =>
    -- The upload puts the file under its name, and the answer is about that object.
    refine Triple.replace_bind (.inl rfl) (.inr ⟨bytes, file, putPart_holding lawful name bytes⟩) ?_
    rw [putPart_holding lawful]
    exact ((confirm_spec name).triple fun _ same => .inr ⟨bytes, file, same⟩).weaken
      fun _ _ ⟨⟨own, _⟩, same⟩ => ⟨bytes, file, own, same⟩
  next skipped =>
    refine ((confirm_spec name).triple fun _ same => .inl same).weaken ?_
    rintro f s ⟨⟨rfl, long⟩, rfl⟩
    rw [objects_holding lawful] at long
    obtain ⟨own, there, equal⟩ := Option.map_eq_some_iff.mp long
    obtain rfl := sameLength (kept (by simpa using skipped)) own bytes there file equal
    exact ⟨own, file, rfl, by rw [insert_same there]⟩

end Site

/-! ### One part -/

variable {σ : Type} {site : Site σ} {serde : Serde} {partId : String}

/-- Of an unencrypted part, an object of the length of the file of its name is that file. -/
def Site.Clean (site : Site σ) (serde : Serde) (partId : String) (s : σ) : Prop :=
  ∀ m, openDir serde s!"parts/{partId}" (site.dir s partId) = .ok m → m.encrypted = false →
    ∀ (name : String) (own bytes : Bytes), name ≠ backupManifestFile →
      ((site.vault s).parts partId)[name]? = some own →
      (site.dir s partId)[name]? = some bytes → own.length = bytes.length → own = bytes

def Site.Amid (site : Site σ) (partId : String) (start s : σ) : Prop :=
  ∃ objects, s = site.holding partId start objects ∧
    Overlay (site.dir start partId) ((site.vault start).parts partId) objects

/-- The backup of the part is complete: every file is an object, and the receipt records it. -/
structure Site.Backed (site : Site σ) (engine : Engine) (serde : Serde) (partId : String) (start : σ)
    (receipt : PartBackup) (objects : Files) (s : σ) : Prop where
  state : s = site.holding partId start
    (objects.insert backupManifestFile (serde.receiptJson receipt))
  overlay : Overlay (site.dir start partId) ((site.vault start).parts partId) objects
  names : receipt.files.map BackedFile.name =
    (site.dir start partId).keys.filter (· ≠ backupManifestFile)
  stored : ∀ f ∈ receipt.files, f.Stored (site.dir start partId) objects
  made : ∃ m, openDir serde s!"parts/{partId}" (site.dir start partId) = .ok m ∧
    engine.receiptOf serde partId m receipt.files = .ok receipt

variable {name : String}

theorem Overlay.sameLength {before : Files} {own : Bytes} (overlay : Overlay dir before objects)
    (clean : ∀ own, before[name]? = some own → own.length = bytes.length → own = bytes)
    (there : objects[name]? = some own) (file : dir[name]? = some bytes)
    (equal : own.length = bytes.length) : own = bytes := by
  rcases overlay.object name with same | ⟨bytes', file', object⟩
  · exact clean own (same ▸ there) equal
  · rw [file] at file'
    rw [there] at object
    exact (Option.some.inj object).trans (Option.some.inj file').symm

variable {engine : Engine} {receipt : PartBackup} {files : List BackedFile}

theorem receiptOf_fields (made : engine.receiptOf serde partId m files = .ok receipt) :
    receipt.partId = partId ∧ receipt.generationId = m.generationId ∧ receipt.files = files := by
  obtain ⟨cipher, -, made⟩ := bind_eq_ok.mp made
  cases cipher with
  | none =>
    cases made
    exact ⟨rfl, rfl, rfl⟩
  | some cipher =>
    dsimp only at made
    split at made
    next => cases made
    next envelope _ =>
      obtain ⟨ciphertext, -, made⟩ := bind_eq_ok.mp made
      cases made
      exact ⟨rfl, rfl, rfl⟩

structure Site.Visited (site : Site σ) (partId : String) (start : σ) (visited : List String)
    (files : List BackedFile) (objects : Files) (s : σ) : Prop where
  state : s = site.holding partId start objects
  overlay : Overlay (site.dir start partId) ((site.vault start).parts partId) objects
  names : files.map BackedFile.name = visited
  stored : ∀ f ∈ files, f.Stored (site.dir start partId) objects

theorem Site.Visited.none (lawful : site.Lawful) (start : σ) :
    site.Visited partId start [] [] ((site.vault start).parts partId) start :=
  ⟨(Site.holding_self lawful).symm, .refl, rfl, nofun⟩

variable {start s : σ}

theorem Site.Visited.add {visited : List String}
    (seen : site.Visited partId start visited files objects s)
    (file : (site.dir start partId)[name]? = some bytes) (other : name ≠ backupManifestFile) :
    site.Visited partId start (visited ++ [name]) (files ++ [.of name bytes])
      (objects.insert name bytes) (site.holding partId start (objects.insert name bytes)) where
  state := rfl
  overlay := seen.overlay.insert file other
  names := by simp [seen.names, BackedFile.of]
  stored := by
    intro f mem
    rcases List.mem_append.mp mem with old | new
    · exact Overlay.stored_insert (seen.stored f old) file
    · rw [List.mem_singleton.mp new]
      exact ⟨bytes, rfl, file, Std.ExtTreeMap.getElem?_insert_self⟩

/-- The loop over the files: each one that has been visited is an object. -/
theorem backupFiles_spec (lawful : site.Lawful) (start : σ) (clean : site.Clean serde partId start)
    (opened : openDir serde s!"parts/{partId}" (site.dir start partId) = .ok m)
    (names : List String) (named : ∀ name ∈ names, name ≠ backupManifestFile) :
    Triple (· = start) (Prog.each (site.backupFile partId m.encrypted) names)
      (fun files s => ∃ objects, site.Visited partId start names files objects s)
      (site.Amid partId start) := by
  refine Triple.each (I := fun visited files s => ∃ objects,
    site.Visited partId start visited files objects s) names ?_ fun visited name after files order =>
      ?_
  · rintro s rfl
    exact ⟨_, .none lawful s⟩
  have other : name ≠ backupManifestFile := named name (by simp [order])
  refine Triple.open_exists fun objects => Triple.fix fun s seen => ?_
  refine (Site.backupFile_spec lawful name ?_).conseq (fun s' same => same.trans seen.state) ?_ ?_
  · intro plain own bytes there file equal
    exact seen.overlay.sameLength (fun own there equal =>
      clean m opened plain name own bytes other there file equal) there file equal
  · rintro f s' ⟨bytes, file, rfl, rfl⟩
    exact ⟨_, seen.add file other⟩
  · rintro s' (rfl | ⟨bytes, file, rfl⟩)
    · exact ⟨objects, rfl, seen.overlay⟩
    · exact ⟨_, rfl, seen.overlay.insert file other⟩

/-- The uploads of a part: when they are done, every file of its directory is an object. -/
theorem uploadPart_spec (lawful : site.Lawful) (start : σ) (clean : site.Clean serde partId start) :
    Triple (· = start) (site.uploadPart serde partId)
      (fun result s =>
        openDir serde s!"parts/{partId}" (site.dir start partId) = .ok result.1 ∧
        ∃ objects, site.Visited partId start
          ((site.dir start partId).keys.filter (· ≠ backupManifestFile)) result.2 objects s)
      (site.Amid partId start) := by
  have untouched : site.Amid partId start start := ⟨_, (Site.holding_self lawful).symm, .refl⟩
  refine (mapErr_observes Observes.read).bind_triple untouched fun m opened => ?_
  refine Observes.read.bind_triple untouched fun names listed => ?_
  cases listed
  have named : ∀ name ∈ (site.dir start partId).keys.filter (· ≠ backupManifestFile),
      name ≠ backupManifestFile := by
    intro name mem
    simpa using (List.mem_filter.mp mem).2
  refine Triple.bind (backupFiles_spec lawful start clean opened _ named) fun files =>
    Triple.pure ?_
  rintro s ⟨objects, seen⟩
  exact ⟨opened, objects, seen⟩

/-- What a call of `backup_part` leaves: the objects of an upload under way, or a complete backup. -/
theorem backupPart_spec (lawful : site.Lawful) (engine : Engine) (start : σ)
    (clean : site.Clean serde partId start) :
    Triple (· = start) (engine.backupPart serde site partId)
      (fun receipt s => ∃ objects, site.Backed engine serde partId start receipt objects s)
      (fun s => site.Amid partId start s ∨
        ∃ receipt objects, site.Backed engine serde partId start receipt objects s) := by
  refine Triple.bind ((uploadPart_spec lawful start clean).stopping
    fun _ amid => .inl amid) fun (m, files) => ?_
  refine Triple.fix fun s ⟨opened, objects, seen⟩ => ?_
  obtain rfl := seen.state
  have amid : site.Amid partId start (site.holding partId start objects) :=
    ⟨objects, rfl, seen.overlay⟩
  refine Observes.ofExcept.bind_triple (.inl amid) fun receipt made => ?_
  obtain ⟨-, -, rfl⟩ := receiptOf_fields made
  -- The receipt comes last.
  have backed : site.Backed engine serde partId start receipt objects (site.store
      ((site.vault (site.holding partId start objects)).putPart partId backupManifestFile
        (serde.receiptJson receipt)) (site.holding partId start objects)) :=
    ⟨Site.putPart_holding lawful _ _, seen.overlay, seen.names, seen.stored, m, opened, made⟩
  exact Triple.replace_bind (.inl amid) (.inr ⟨receipt, objects, backed⟩)
    (Triple.pure fun _ same => ⟨objects, same ▸ backed⟩)

/-! ### Receipts over a run -/

def Site.Receipt (site : Site σ) (serde : Serde) (partId : String) (s : σ) (r : PartBackup) : Prop :=
  ∃ bytes, ((site.vault s).parts partId)[backupManifestFile]? = some bytes ∧
    serde.parseReceipt bytes = .ok r

/-- Every file that the receipt names is on the object store with the recorded length and hash. -/
def Site.Honest (site : Site σ) (serde : Serde) (partId : String) (s : σ) : Prop :=
  ∀ r, site.Receipt serde partId s r → ∀ f ∈ r.files, f.Matches ((site.vault s).parts partId)

/-- Every file that the receipt names is in the directory with the recorded length and hash. -/
def Site.Current (site : Site σ) (serde : Serde) (partId : String) (s : σ) : Prop :=
  ∀ r, site.Receipt serde partId s r → ∀ f ∈ r.files, f.Matches (site.dir s partId)

theorem BackedFile.Matches.overlay {f : BackedFile} {before : Files} (old : f.Matches before)
    (own : f.Matches dir) (overlay : Overlay dir before objects) : f.Matches objects := by
  rcases overlay.object f.name with same | ⟨bytes, file, object⟩
  · obtain ⟨bytes, there, recorded⟩ := old
    exact ⟨bytes, same ▸ there, recorded⟩
  · obtain ⟨bytes', file', recorded⟩ := own
    rw [file] at file'
    cases file'
    exact ⟨bytes, object, recorded⟩

/-- An upload that is under way keeps the promise of a receipt that is about the same files. -/
theorem Site.Amid.honest (lawful : site.Lawful) (amid : site.Amid partId start s)
    (honest : site.Honest serde partId start) (same : site.Current serde partId start) :
    site.Honest serde partId s := by
  obtain ⟨objects, rfl, overlay⟩ := amid
  rintro r ⟨bytes, there, parsed⟩ f mem
  rw [Site.objects_holding lawful] at there ⊢
  have before : site.Receipt serde partId start r := ⟨bytes, overlay.receipt ▸ there, parsed⟩
  exact (honest r before f mem).overlay (same r before f mem) overlay

theorem Site.Backed.honest (lawful : site.Lawful)
    (readsBack : ∀ r, serde.parseReceipt (serde.receiptJson r) = .ok r)
    (backed : site.Backed engine serde partId start receipt objects s) :
    site.Honest serde partId s := by
  rintro r ⟨bytes, there, parsed⟩ f mem
  rw [backed.state, Site.objects_holding lawful] at there ⊢
  rw [Std.ExtTreeMap.getElem?_insert_self] at there
  cases there
  obtain rfl := Except.ok.inj ((readsBack receipt).symm.trans parsed)
  -- The receipt does not name itself, so it does not take the place of a file.
  have other : backupManifestFile ≠ f.name := by
    have listed : f.name ∈ receipt.files.map BackedFile.name := List.mem_map_of_mem mem
    rw [backed.names, List.mem_filter] at listed
    exact Ne.symm (by simpa using listed.2)
  obtain ⟨bytes, own, recorded⟩ := (backed.stored f mem).matches
  exact ⟨bytes, by rw [getElem?_insert_of_ne other, own], recorded⟩

theorem Site.Amid.clean (lawful : site.Lawful) (amid : site.Amid partId start s)
    (clean : site.Clean serde partId start) : site.Clean serde partId s := by
  obtain ⟨objects, rfl, overlay⟩ := amid
  intro m opened plain name own bytes other there file equal
  rw [Site.dir_holding lawful] at opened file
  rw [Site.objects_holding lawful] at there
  exact overlay.sameLength (fun own there equal =>
    clean m opened plain name own bytes other there file equal) there file equal

theorem Site.Backed.clean (lawful : site.Lawful)
    (backed : site.Backed engine serde partId start receipt objects s)
    (clean : site.Clean serde partId start) : site.Clean serde partId s := by
  intro m opened plain name own bytes other there file equal
  rw [backed.state, Site.dir_holding lawful] at opened file
  rw [backed.state, Site.objects_holding lawful, getElem?_insert_of_ne (Ne.symm other)] at there
  exact backed.overlay.sameLength (fun own there equal =>
    clean m opened plain name own bytes other there file equal) there file equal

/-! ### Rewrapping -/

theorem tmpPath_ne (path : String) : tmpPath path ≠ path := by
  intro same
  have lengths := congrArg String.length same
  simp [tmpPath, String.length_append] at lengths

def Files.written (files : Files) (path : String) (bytes : Bytes) : Files :=
  (files.erase (tmpPath path)).insert path bytes

/-- The files inside an atomic write: the temporary file may be there, or the write is done. -/
def Files.Writing (files : Files) (path : String) (bytes : Bytes) (now : Files) : Prop :=
  now = files ∨ (∃ begun, now = files.insert (tmpPath path) begun) ∨ now = files.written path bytes

theorem renameFile_spec {files : Files} (source target : String)
    (there : files[source]? = some bytes) : Triple (· = files) (renameFile source target)
      (fun _ now => now = (files.erase source).insert target bytes)
      (fun now => now = files ∨ now = (files.erase source).insert target bytes) := by
  refine Triple.transact ?_ (fun _ same => .inl same) ?_
  · rintro now _ now' rfl value
    simp only [there] at value
    exact (Prod.mk.inj (Except.ok.inj value)).2.symm
  · rintro now _ now' rfl value
    simp only [there] at value
    exact .inr (Prod.mk.inj (Except.ok.inj value)).2.symm

theorem writeAtomic_spec (files : Files) (path : String) (bytes : Bytes) :
    Triple (· = files) (writeAtomic path bytes) (fun _ now => now = files.written path bytes)
      (files.Writing path bytes) := by
  have begun : ∀ start, files.Writing path bytes (files.insert (tmpPath path) start) :=
    fun start => .inr (.inl ⟨start, rfl⟩)
  have renamed : ((files.insert (tmpPath path) bytes).erase (tmpPath path)).insert path bytes =
      files.written path bytes := by
    rw [erase_insert, Files.written]
  refine Triple.replace_bind (.inl rfl) (begun []) ?_
  refine Triple.bind (Q := fun _ now => now = files.insert (tmpPath path) bytes)
    (Triple.act ?_ ?_) fun _ => ?_
  · rintro now rfl
    exact insert_insert
  · rintro n now rfl
    rw [insert_insert]
    exact begun _
  refine Observes.read.bind_triple (begun bytes) fun _ _ => ?_
  -- The rename puts the temporary file in the place of the old one.
  have moved := renameFile_spec (tmpPath path) path
    (show (files.insert (tmpPath path) bytes)[tmpPath path]? = some bytes from
      Std.ExtTreeMap.getElem?_insert_self)
  rw [renamed] at moved
  refine Triple.bind (moved.stopping ?_) fun _ => Triple.read (fun _ _ same _ => same)
    fun _ same => .inr (.inr same)
  rintro now (rfl | done)
  · exact begun bytes
  · exact .inr (.inr done)

theorem partDirLens (partId : String) : Prog.Lens (fun n : Node => n.root.parts partId)
      fun dir n => { n with root := n.root.setPart partId dir } where
  get_set _ _ := by simp [Root.setPart]
  set_get _ := by simp [Root.setPart]
  set_set _ _ _ := by simp [Root.setPart]

def SealedDir (dir : Files) : Prop :=
  ∃ bytes, dir[manifestFile]? = some bytes ∧
    ∀ m, PartManifest.decode bytes = .ok m → m.encrypted = true

variable {n : Node}

/-- Of an encrypted part every file is uploaded, whatever is there. -/
theorem SealedDir.clean (sealed : SealedDir (n.root.parts partId)) :
    Node.site.Clean serde partId n := by
  intro m opened plain
  obtain ⟨bytes, there, decodes⟩ := sealed
  simp only [openDir, Node.site, there] at opened
  obtain ⟨m', found, opened⟩ := bind_eq_ok.mp opened
  obtain ⟨-, -, rfl⟩ := bind_pure_eq_ok.mp opened
  exact absurd (decodes m' found) (by simp [plain])

theorem SealedDir.writing {now : Files} (sealed : SealedDir dir)
    (wrapped : ∀ m, PartManifest.decode bytes = .ok m → m.encrypted = true)
    (writing : dir.Writing manifestFile bytes now) : SealedDir now := by
  rcases writing with rfl | ⟨begun, rfl⟩ | rfl
  · exact sealed
  · obtain ⟨old, there, decodes⟩ := sealed
    exact ⟨old, by rw [getElem?_insert_of_ne (tmpPath_ne manifestFile), there], decodes⟩
  · exact ⟨bytes, Std.ExtTreeMap.getElem?_insert_self, wrapped⟩

/-- A rewrap does not touch the objects, and the part it changes stays encrypted. -/
theorem rewrapPartEnvelope_keeps (serde : Serde) (partId : String) (envelope : S14Ext) :
    Keeps (fun n => Node.site.Honest serde partId n ∧ Node.site.Clean serde partId n)
      (rewrapPartEnvelope partId envelope) := by
  refine Triple.fix fun n ⟨honest, clean⟩ => ?_
  have stays := And.intro honest clean
  refine (Site.readFile_spec manifestFile).bind_triple stays fun bytes there => ?_
  refine Observes.ofExcept.bind_triple stays fun m decoded => ?_
  refine Observes.ofExcept.bind_triple stays fun out wrapped => ?_
  have sealed : SealedDir (n.root.parts partId) := by
    refine ⟨bytes, there, fun m' decoded' => ?_⟩
    obtain rfl := ok_unique decoded decoded'
    simpa using (guard_eq_ok.mp wrapped).1
  have after : ∀ dir, (n.root.parts partId).Writing manifestFile out dir →
      Node.site.Honest serde partId { n with root := n.root.setPart partId dir } ∧
        Node.site.Clean serde partId { n with root := n.root.setPart partId dir } := by
    intro dir writing
    refine ⟨honest, SealedDir.clean ?_⟩
    have still := sealed.writing (fun _ => PartManifest.rewrapped_encrypted wrapped) writing
    simpa [Root.setPart] using still
  refine Triple.zoom (partDirLens partId) fun n' same => ?_
  subst same
  exact (writeAtomic_spec (n'.root.parts partId) manifestFile out).conseq (fun _ h => h)
    (fun _ dir done => after dir (.inr (.inr done))) after

/-! ### Honesty -/

inductive ReceiptOp where
  | backup (engine : Engine) (faults : List Fault)
  | rewrap (envelope : S14Ext) (faults : List Fault)

namespace ReceiptOp

def step (serde : Serde) (partId : String) (n : Node) : ReceiptOp → Node
  | backup engine faults => (engine.backupPart serde Node.site partId faults n).2.2
  | rewrap envelope faults => (rewrapPartEnvelope partId envelope faults n).2.2

/-- A backup starts only while the files that a receipt records are those of the directory. -/
def Timely (serde : Serde) (partId : String) (n : Node) : ReceiptOp → Prop
  | backup _ _ => Node.site.Current serde partId n
  | rewrap _ _ => True

theorem step_honest (readsBack : ∀ r, serde.parseReceipt (serde.receiptJson r) = .ok r)
    (op : ReceiptOp) (timely : op.Timely serde partId n)
    (sound : Node.site.Honest serde partId n ∧ Node.site.Clean serde partId n) :
    Node.site.Honest serde partId (op.step serde partId n) ∧
      Node.site.Clean serde partId (op.step serde partId n) := by
  cases op with
  | backup engine faults =>
    have lawful := Node.site_lawful
    have ends := (backupPart_spec lawful engine n sound.2).after
      (fun receipt s ⟨objects, backed⟩ => .inr ⟨receipt, objects, backed⟩) rfl faults
    rcases ends with amid | ⟨receipt, objects, backed⟩
    · exact ⟨amid.honest lawful sound.1 timely, amid.clean lawful sound.2⟩
    · exact ⟨backed.honest lawful readsBack, backed.clean lawful sound.2⟩
  | rewrap envelope faults =>
    exact (rewrapPartEnvelope_keeps serde partId envelope).after (fun _ _ kept => kept) sound faults

end ReceiptOp

/-- In every run of backups and rewraps of a part, under every pattern of crashes and failures, in
which no backup starts after the files of the receipt have changed, the receipt that is on the
object store records exactly the objects that are there. -/
theorem receipt_honest_of_timely (serde : Serde)
    (readsBack : ∀ r, serde.parseReceipt (serde.receiptJson r) = .ok r) (partId : String)
    (start : Node) (unreceipted : (start.vault.parts partId)[backupManifestFile]? = none)
    (own : ∀ (name : String) (bytes : Bytes), (start.vault.parts partId)[name]? = some bytes →
      (start.root.parts partId)[name]? = some bytes)
    (ops : List ReceiptOp)
    (timely : Meets (ReceiptOp.step serde partId) (ReceiptOp.Timely serde partId) start ops) :
    Node.site.Honest serde partId (ops.foldl (ReceiptOp.step serde partId) start) := by
  have begins : Node.site.Honest serde partId start ∧ Node.site.Clean serde partId start := by
    constructor
    · rintro r ⟨bytes, there, -⟩
      rw [show (Node.site.vault start).parts = start.vault.parts from rfl, unreceipted] at there
      cases there
    · intro m _ _ name object bytes _ there file _
      exact Option.some.inj ((own name object there).symm.trans file)
  have kept : ∀ n op, ReceiptOp.Timely serde partId n op →
      Node.site.Honest serde partId n ∧ Node.site.Clean serde partId n →
      Node.site.Honest serde partId (ReceiptOp.step serde partId n op) ∧
        Node.site.Clean serde partId (ReceiptOp.step serde partId n op) :=
    fun _ op timely sound => ReceiptOp.step_honest readsBack op timely sound
  exact (invariant_run kept ops start begins timely).1

/-! ### A rewrap between two backups -/

instance encodableChar : Encodable Char := Encodable.ofLeftInverse Char.toNat Char.ofNat Char.ofNat_toNat

instance encodableString : Encodable String :=
  Encodable.ofLeftInverse String.toList String.ofList fun _ => String.ofList_toList

instance encodableUInt8 : Encodable UInt8 :=
  Encodable.ofLeftInverse UInt8.toNat UInt8.ofNat fun _ => UInt8.ofNat_toNat

deriving instance Encodable for BackedFile
deriving instance Encodable for SealedTenants
deriving instance Encodable for PartBackup

def numbered {α : Type} [Encodable α] (a : α) : Bytes := List.replicate (Encodable.encode a) 0

def ofNumbered {α : Type} [Encodable α] (bytes : Bytes) : Except String α :=
  match Encodable.decode bytes.length with
  | some a => .ok a
  | none => .error "expected value"

theorem ofNumbered_numbered [Encodable α] (a : α) : ofNumbered (numbered a) = .ok a := by
  simp [ofNumbered, numbered]

/-- Receipts by their numbers; the parts are of the current version. -/
def receiptSerde : Serde where
  legacyManifest _ := .error (.decode "expected value")
  decodeRows _ := .ok ()
  verifyContentAddress _ := .ok ()
  tenantsJson _ := []
  receiptJson := numbered
  parseReceipt := ofNumbered
  snapshotJson _ := []
  parseSnapshot _ := .error "expected value"
  generationJson _ := []
  parseGeneration _ := .error "expected value"
  envelopeJson _ := []
  parseEnvelope _ := .error "expected value"

def sealedColumn (name file : String) (bytes : Nat) : ColumnMeta :=
  ⟨name, file, codecRaw, .framed bytes 16 [⟨0, bytes + sealOverhead, 0⟩]⟩

def sealedManifest : PartManifest where
  formatVersion := formatVersion
  partId := "p"
  generationId := "g"
  modelId := "m"
  modelVersion := "v"
  rowCount := 1
  dim := 2
  pqM := 1
  rerank := RerankDescriptor.float32Exact
  timeMin := 1000
  timeMax := 1000
  tenants := ["t"]
  costMin := F64.zero
  costMax := F64.zero
  hasError := false
  hasSuccess := true
  centroidRanges := [⟨0, 0, 1, 0, 1, 0, 8, 1000, 1000⟩]
  columns := [sealedColumn "pq_codes" "pq.codes" 1, sealedColumn "rerank_vectors" "rerank.vec" 8,
    sealedColumn "centroid" "centroid.u32" 4, sealedColumn "event_time" "event_time.i64" 8,
    sealedColumn "cost" "cost.f64" 8, sealedColumn "error" "error.u8" 1]
  createdAtMs := 1000
  featureFlags := featureBlockFraming ||| featureEncryption
  attributeKeys := []
  extensions := [⟨extS14Encryption, S14Ext.encode ⟨aeadXchacha20Poly1305, "k1", 1, [1], 0⟩⟩]

def sealedDir : Files :=
  ((∅ : Files).insert manifestFile (sealedManifest.encode.toOption.getD [])).insert "rerank.vec" [0]

def sealedNode : Node := { root := Root.empty.setPart "p" sealedDir, vault := .empty }

/-- The key service has activated a key with a longer id. -/
def activeEnvelope : S14Ext := ⟨aeadXchacha20Poly1305, "k2-active", 1, [1], 0⟩

def timelyRun : List ReceiptOp := [.backup keyedEngine [], .rewrap activeEnvelope []]

/-- The first backup of a part finds no receipt. -/
private theorem timelyRun_timely
    (unreceipted : (n.vault.parts partId)[backupManifestFile]? = none) :
    Meets (ReceiptOp.step serde partId) (ReceiptOp.Timely serde partId) n timelyRun := by
  simp only [timelyRun, Meets, ReceiptOp.Timely, and_true]
  rintro r ⟨bytes, there, -⟩
  exact absurd (unreceipted.symm.trans there) (by simp)

set_option maxRecDepth 100000

theorem receipt_honest_of_timely_sealed :
    ((timelyRun.foldl (ReceiptOp.step receiptSerde "p") sealedNode).vault.parts "p").contains
      backupManifestFile = true ∧
    Node.site.Honest receiptSerde "p"
      (timelyRun.foldl (ReceiptOp.step receiptSerde "p") sealedNode) := by
  have unreceipted : (sealedNode.vault.parts "p")[backupManifestFile]? = none := by
    simp [sealedNode, Vault.empty]
  have readsBack : ∀ r, receiptSerde.parseReceipt (receiptSerde.receiptJson r) = .ok r :=
    fun r => ofNumbered_numbered r
  constructor
  · decide +kernel
  · apply receipt_honest_of_timely receiptSerde readsBack "p" sealedNode unreceipted
    · intro name bytes there
      simp [sealedNode, Vault.empty] at there
    · exact timelyRun_timely unreceipted

theorem rewrapPartEnvelope_vault (partId : String) (envelope : S14Ext) :
    Leaves Node.vault (rewrapPartEnvelope partId envelope) :=
  Leaves.bind Leaves.read fun _ => Leaves.bind Leaves.ofExcept fun _ =>
    Leaves.bind Leaves.ofExcept fun _ => Leaves.zoom fun _ _ => rfl

/-- A backup whose uploads do not come to an end leaves the receipt as it was. -/
theorem backupPart_cut (engine : Engine) (clean : Node.site.Clean serde partId n)
    (faults : List Fault) (cut : (Node.site.uploadPart serde partId faults n).1.isCrashed = true) :
    ((engine.backupPart serde Node.site partId faults n).2.2.vault.parts
      partId)[backupManifestFile]? = (n.vault.parts partId)[backupManifestFile]? := by
  have amid := uploadPart_spec Node.site_lawful n clean faults n rfl
  rw [Engine.backupPart, Prog.run_bind]
  generalize Node.site.uploadPart serde partId faults n = r at cut amid
  obtain ⟨_ | _ | _, rest, n'⟩ := r <;> simp only [Outcome.isCrashed, Bool.false_eq_true] at cut
  obtain ⟨objects, rfl, overlay⟩ := amid
  exact (congrArg (fun files : Files => files[backupManifestFile]?)
    (Site.objects_holding Node.site_lawful)).trans overlay.receipt

/-- After a backup, a rewrap and a backup that stops before its receipt, the receipt is still the
one of the first backup. -/
theorem receipt_of_cut (readsBack : ∀ r, serde.parseReceipt (serde.receiptJson r) = .ok r)
    (fresh : n.vault.parts partId = ∅)
    (returned : (engine.backupPart serde Node.site partId [] n).1.isOk = true) (envelope : S14Ext)
    (faults : List Fault)
    (cut : (Node.site.uploadPart serde partId faults ([.backup engine [], .rewrap envelope
      []].foldl (ReceiptOp.step serde partId) n)).1.isCrashed = true)
    (listed : name ∈ (n.root.parts partId).keys.filter (· ≠ backupManifestFile)) :
    ∃ r, Node.site.Receipt serde partId
        ([.backup engine [], .rewrap envelope [], .backup engine faults].foldl
          (ReceiptOp.step serde partId) n) r ∧
      ∃ f ∈ r.files, f.name = name ∧ f.Stored (n.root.parts partId) (n.root.parts partId) := by
  have sound : Node.site.Honest serde partId n ∧ Node.site.Clean serde partId n := by
    constructor
    · rintro r ⟨bytes, there, -⟩
      simp [Node.site, fresh] at there
    · intro m _ _ name own bytes _ there
      simp [Node.site, fresh] at there
  have timely : Node.site.Current serde partId n := by
    rintro r ⟨bytes, there, -⟩
    simp [Node.site, fresh] at there
  have first := ReceiptOp.step_honest readsBack (.backup engine []) timely sound
  have second := ReceiptOp.step_honest readsBack (.rewrap envelope []) trivial first
  have kept := backupPart_cut engine second.2 faults cut
  have vault := (rewrapPartEnvelope_vault partId envelope).run []
    (engine.backupPart serde Node.site partId [] n).2.2
  have ends := backupPart_spec Node.site_lawful engine n sound.2 [] n rfl
  obtain ⟨r, ran⟩ := Outcome.exists_of_isOk returned
  rw [show engine.backupPart serde Node.site partId [] n = (.ok r,
    (engine.backupPart serde Node.site partId [] n).2) from Prod.ext ran rfl] at ends
  obtain ⟨objects, backed⟩ := ends
  refine ⟨r, ⟨serde.receiptJson r, ?_, readsBack r⟩, ?_⟩
  · -- The second backup and the rewrap have kept the receipt that the first backup wrote.
    refine kept.trans ?_
    simp only [ReceiptOp.step]
    have held : (Node.site.holding partId n
        (objects.insert backupManifestFile (serde.receiptJson r))).vault.parts partId =
          objects.insert backupManifestFile (serde.receiptJson r) :=
      Site.objects_holding Node.site_lawful
    rw [vault, backed.state, held]
    exact Std.ExtTreeMap.getElem?_insert_self
  · have recorded : name ∈ r.files.map BackedFile.name := by
      rw [backed.names]
      exact listed
    obtain ⟨f, mem, named⟩ := List.mem_map.mp recorded
    obtain ⟨bytes, same, file, -⟩ := backed.stored f mem
    exact ⟨f, mem, named, bytes, same, file, file⟩

/-- The second backup stops once it has uploaded the manifest. -/
def stoppedBackup : List Fault := List.replicate 4 .proceed ++ [.crash 0]

/-- A backup, a rewrap, and a backup that does not come to its receipt. -/
def rewrappedRun : List ReceiptOp :=
  [.backup keyedEngine [], .rewrap activeEnvelope [], .backup keyedEngine stoppedBackup]

/-- The receipt of the first backup is still there, and the manifest it names has been replaced by
one of another length. -/
theorem receipt_after_rewrap_is_stale :
    ∃ r, Node.site.Receipt receiptSerde "p"
        (rewrappedRun.foldl (ReceiptOp.step receiptSerde "p") sealedNode) r ∧
      ∃ f ∈ r.files, f.name = manifestFile ∧ f.len = 638 ∧
        ((rewrappedRun.foldl (ReceiptOp.step receiptSerde "p") sealedNode).vault.parts
          "p")[manifestFile]?.map List.length = some 645 := by
  have fresh : sealedNode.vault.parts "p" = ∅ := rfl
  have ran :
      ((keyedEngine.backupPart receiptSerde Node.site "p" [] sealedNode).1.isOk = true ∧
        (Node.site.uploadPart receiptSerde "p" stoppedBackup (timelyRun.foldl
          (ReceiptOp.step receiptSerde "p") sealedNode)).1.isCrashed = true) ∧
      (sealedNode.root.parts "p")[manifestFile]?.map List.length = some 638 ∧
      ((rewrappedRun.foldl (ReceiptOp.step receiptSerde "p") sealedNode).vault.parts
        "p")[manifestFile]?.map List.length = some 645 := by
    decide +kernel
  obtain ⟨⟨returned, cut⟩, before, after⟩ := ran
  obtain ⟨r, receipt, f, mem, name, bytes, same, file, -⟩ := receipt_of_cut
    (fun r => ofNumbered_numbered r) fresh returned activeEnvelope stoppedBackup cut
    (show manifestFile ∈ (sealedNode.root.parts "p").keys.filter (· ≠ backupManifestFile) by
      decide +kernel)
  refine ⟨r, receipt, f, mem, name, ?_, after⟩
  rw [name] at file
  rw [file] at before
  rw [same]
  exact Option.some.inj before

end Prism
