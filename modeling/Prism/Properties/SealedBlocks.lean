import Prism.Properties.ManifestCodec

/-!
# Sealed blocks stay in place

The associated data of `prism-part/src/crypto.rs` names the part, the column, the key and the
position of a block. No two places have the same, so a cipher that checks it opens a block only
where it was sealed.
-/

namespace Prism

open Fallible

/-- Where something is sealed, and under which key id. Lengths and positions are machine words. -/
@[ext] structure Place where
  partId : String
  column : String
  blockIndex : Nat
  keyId : String
  short : ∀ field ∈ [partId, column, keyId], field.utf8ByteSize < 2 ^ 64
  index : blockIndex < 2 ^ 64

namespace Place

def aad (p : Place) : Bytes := Prism.aad p.partId p.column p.blockIndex p.keyId

/-- The three texts are found again one after the other, and then the position. -/
theorem aad_injective : Function.Injective aad := by
  intro p p' same
  have word : (256 : Nat) ^ 8 = 2 ^ 64 := by decide
  have short (q : Place) (field : String) (mem : field ∈ [q.partId, q.column, q.keyId]) :
      (utf8 field).length < 256 ^ 8 := by
    rw [length_utf8, word]
    exact q.short field mem
  simp only [aad, Prism.aad, List.flatMap_cons, List.flatMap_nil, List.append_nil, List.append_assoc,
    ← length_utf8] at same
  obtain ⟨part, same⟩ := Bytes.prefixed_inj (short p _ (by simp)) (short p' _ (by simp)) same
  obtain ⟨column, same⟩ := Bytes.prefixed_inj (short p _ (by simp)) (short p' _ (by simp)) same
  obtain ⟨key, same⟩ := Bytes.prefixed_inj (short p _ (by simp)) (short p' _ (by simp)) same
  have index := congrArg Bytes.ofLe same
  rw [Bytes.ofLe_le_of_lt (word ▸ p.index), Bytes.ofLe_le_of_lt (word ▸ p'.index)] at index
  exact Place.ext (utf8_inj.mp part) (utf8_inj.mp column) index (utf8_inj.mp key)

/-- The place of a wrapped data key. -/
def wrapping (keyId : String) (short : keyId.utf8ByteSize < 2 ^ 64) : Place where
  partId := wrapDomain
  column := wrapColumn
  blockIndex := 0
  keyId := keyId
  short field mem := by
    simp only [List.mem_cons, List.not_mem_nil, or_false] at mem
    obtain rfl | rfl | rfl := mem
    · decide
    · decide
    · exact short
  index := by decide

end Place

/-- A ciphertext opens only under the key and the associated data it was sealed with. -/
def Aead.Binds (aead : Aead) : Prop :=
  ∀ key nonce aad message sealed, aead.encrypt key nonce aad message = some sealed →
    ∀ key' aad' plain, aead.decrypt key' nonce aad' sealed = some plain → key' = key ∧ aad' = aad

/-- The generator draws whole nonces. -/
def BlockCipher.Draws (c : BlockCipher) : Prop :=
  ∀ partId column index, (c.nonces partId column index).length = nonceBytes

namespace BlockCipher

variable {c c' : BlockCipher} {partId column partId' column' : String} {index index' : Nat}
  {plaintext sealed plain : Bytes}

/-- What is opened was sealed with the same key and associated data. -/
theorem openBlock_sealBlock (binds : c.aead.Binds) (same : c'.aead = c.aead) (draws : c.Draws)
    (sealing : c.sealBlock partId column index plaintext = .ok sealed)
    (opening : c'.openBlock partId' column' index' sealed = .ok plain) :
    c'.key = c.key ∧ aad partId' column' index' c'.keyId = aad partId column index c.keyId := by
  simp only [sealBlock] at sealing
  split at sealing
  · cases sealing
  next body encrypted =>
    cases sealing
    have cut : (c.nonces partId column index).length = nonceBytes := draws partId column index
    simp only [openBlock, List.take_left' cut, List.drop_left' cut, same] at opening
    split at opening
    · cases opening
    · split at opening
      next decrypted => exact binds _ _ _ _ _ encrypted _ _ _ decrypted
      · cases opening

end BlockCipher

/-- Equal associated data comes from one place, so a sealed block opens at its own place and under
its own key only. A receipt is sealed as a block of its part. A wrapped key is a block of the
reserved domain: it unwraps under its own key and key id only, and opens nowhere else. -/
theorem sealed_opens_in_place : (∀ p p' : Place, p.aad = p'.aad → p = p') ∧
    ∀ c c' : BlockCipher, c.aead.Binds → c'.aead = c.aead → c.Draws →
      (∀ (p p' : Place) (plaintext sealed plain : Bytes), p.keyId = c.keyId → p'.keyId = c'.keyId →
        c.sealBlock p.partId p.column p.blockIndex plaintext = .ok sealed →
        c'.openBlock p'.partId p'.column p'.blockIndex sealed = .ok plain →
        p' = p ∧ c'.key = c.key) ∧
      ∀ (short : c.keyId.utf8ByteSize < 2 ^ 64), c'.keyId.utf8ByteSize < 2 ^ 64 →
        ∀ dek wrapped : Bytes, wrapDek c dek = .ok wrapped →
        (∀ plain, unwrapDek c' wrapped = .ok plain → c'.keyId = c.keyId ∧ c'.key = c.key) ∧
        ∀ (p : Place) (plain : Bytes), p.keyId = c'.keyId →
          c'.openBlock p.partId p.column p.blockIndex wrapped = .ok plain →
          p = Place.wrapping c.keyId short ∧ c'.key = c.key := by
  refine ⟨fun _ _ same => Place.aad_injective same, fun c c' binds same draws => ?_⟩
  have inPlace (p p' : Place) (plaintext sealed plain : Bytes) (own : p.keyId = c.keyId)
      (own' : p'.keyId = c'.keyId)
      (sealing : c.sealBlock p.partId p.column p.blockIndex plaintext = .ok sealed)
      (opening : c'.openBlock p'.partId p'.column p'.blockIndex sealed = .ok plain) :
      p' = p ∧ c'.key = c.key := by
    obtain ⟨key, data⟩ := BlockCipher.openBlock_sealBlock binds same draws sealing opening
    rw [← own, ← own'] at data
    exact ⟨Place.aad_injective data, key⟩
  refine ⟨inPlace, fun short short' dek wrapped wrapping => ⟨fun plain unwraps => ?_, ?_⟩⟩
  · obtain ⟨opened, opening, _⟩ := bind_eq_ok.mp unwraps
    obtain ⟨place, key⟩ := inPlace (.wrapping c.keyId short) (.wrapping c'.keyId short') _ _ _ rfl rfl
      wrapping opening
    exact ⟨congrArg Place.keyId place, key⟩
  · intro p plain own opening
    exact inPlace (.wrapping c.keyId short) p _ _ _ rfl own wrapping opening

/-- A cipher for one key and one place. -/
def pinnedAead (key data : Bytes) : Aead where
  encrypt k _ aad message :=
    if k = key ∧ aad = data then some (message ++ List.replicate tagBytes 0) else none
  decrypt k _ aad message :=
    if k = key ∧ aad = data then some (message.take (message.length - tagBytes)) else none

theorem pinnedAead_binds (key data : Bytes) : (pinnedAead key data).Binds := by
  intro k nonce aad message sealed encrypted k' aad' plain decrypted
  obtain ⟨⟨rfl, rfl⟩, _⟩ := Option.ite_none_right_eq_some.mp encrypted
  exact (Option.ite_none_right_eq_some.mp decrypted).1

def firstBlock : Place := ⟨"p1", "body.data", 0, "k1", by decide, by decide⟩

def pinnedCipher : BlockCipher :=
  ⟨pinnedAead [7] firstBlock.aad, [7], "k1", fun _ _ _ => List.replicate nonceBytes 2⟩

theorem sealed_opens_in_place_pinned :
    ∃ sealed, pinnedCipher.sealBlock "p1" "body.data" 0 [1, 2] = .ok sealed ∧
      pinnedCipher.openBlock "p1" "body.data" 0 sealed = .ok [1, 2] ∧
      ∀ (p : Place) (plain : Bytes), p.keyId = "k1" →
        pinnedCipher.openBlock p.partId p.column p.blockIndex sealed = .ok plain → p = firstBlock := by
  have runs : pinnedCipher.sealBlock "p1" "body.data" 0 [1, 2] =
      .ok (List.replicate nonceBytes 2 ++ ([1, 2] ++ List.replicate tagBytes 0)) := by
    decide +kernel
  refine ⟨_, runs, by decide +kernel, fun p plain own opening => ?_⟩
  obtain ⟨blocks, _⟩ := sealed_opens_in_place.2 pinnedCipher pinnedCipher (pinnedAead_binds _ _) rfl
    fun _ _ _ => rfl
  exact (blocks firstBlock p _ _ plain rfl own runs opening).1

end Prism
