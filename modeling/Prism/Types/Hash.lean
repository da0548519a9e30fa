import Prism.Lib.Bytes

/-!
CRC-32, SHA-256 and the content identifier of `prism-types/src/hash.rs`. A 32-bit word is a natural
number below `2 ^ 32`.
-/

namespace Prism

/-- The mask of the source is all ones or zero by the low bit. -/
def crc32Bit (crc : Nat) : Nat := (crc / 2) ^^^ (0xEDB88320 * (crc % 2))

def crc32Byte (crc : Nat) (byte : UInt8) : Nat := Nat.repeat crc32Bit 8 (crc ^^^ byte.toNat)

/-- CRC-32/ISO-HDLC; the register stays below `2 ^ 32`. -/
def crc32 (bytes : Bytes) : UInt32 :=
  UInt32.ofNat (bytes.foldl crc32Byte 0xFFFFFFFF ^^^ 0xFFFFFFFF)

/-- The streaming form: the register between two updates. -/
structure Crc32 where
  state : Nat
  deriving DecidableEq, Repr

namespace Crc32

def new : Crc32 := ⟨0xFFFFFFFF⟩

def update (c : Crc32) (bytes : Bytes) : Crc32 := ⟨bytes.foldl crc32Byte c.state⟩

def finish (c : Crc32) : UInt32 := UInt32.ofNat (c.state ^^^ 0xFFFFFFFF)

end Crc32

namespace Sha256

def roundConstants : List Nat :=
  [0x428a2f98, 0x71374491, 0xb5c0fbcf, 0xe9b5dba5, 0x3956c25b, 0x59f111f1, 0x923f82a4, 0xab1c5ed5,
   0xd807aa98, 0x12835b01, 0x243185be, 0x550c7dc3, 0x72be5d74, 0x80deb1fe, 0x9bdc06a7, 0xc19bf174,
   0xe49b69c1, 0xefbe4786, 0x0fc19dc6, 0x240ca1cc, 0x2de92c6f, 0x4a7484aa, 0x5cb0a9dc, 0x76f988da,
   0x983e5152, 0xa831c66d, 0xb00327c8, 0xbf597fc7, 0xc6e00bf3, 0xd5a79147, 0x06ca6351, 0x14292967,
   0x27b70a85, 0x2e1b2138, 0x4d2c6dfc, 0x53380d13, 0x650a7354, 0x766a0abb, 0x81c2c92e, 0x92722c85,
   0xa2bfe8a1, 0xa81a664b, 0xc24b8b70, 0xc76c51a3, 0xd192e819, 0xd6990624, 0xf40e3585, 0x106aa070,
   0x19a4c116, 0x1e376c08, 0x2748774c, 0x34b0bcb5, 0x391c0cb3, 0x4ed8aa4a, 0x5b9cca4f, 0x682e6ff3,
   0x748f82ee, 0x78a5636f, 0x84c87814, 0x8cc70208, 0x90befffa, 0xa4506ceb, 0xbef9a3f7, 0xc67178f2]

structure Digest where
  a : Nat
  b : Nat
  c : Nat
  d : Nat
  e : Nat
  f : Nat
  g : Nat
  h : Nat
  deriving DecidableEq, Repr

def initial : Digest :=
  ⟨0x6a09e667, 0xbb67ae85, 0x3c6ef372, 0xa54ff53a, 0x510e527f, 0x9b05688c, 0x1f83d9ab, 0x5be0cd19⟩

/-- Wrapping addition of words is addition modulo `2 ^ 32`. -/
def wrap (n : Nat) : Nat := n % 0x100000000

def rotateRight (word n : Nat) : Nat := (word >>> n) ||| wrap (word <<< (32 - n))

/-- One more word of the message schedule, held newest first. -/
def extend (schedule : List Nat) : List Nat :=
  let w15 := schedule.getD 14 0
  let w2 := schedule.getD 1 0
  let s0 := rotateRight w15 7 ^^^ rotateRight w15 18 ^^^ (w15 >>> 3)
  let s1 := rotateRight w2 17 ^^^ rotateRight w2 19 ^^^ (w2 >>> 10)
  wrap (schedule.getD 15 0 + s0 + schedule.getD 6 0 + s1) :: schedule

def words : Bytes → List Nat
  | w :: x :: y :: z :: rest => Bytes.ofLe [z, y, x, w] :: words rest
  | _ => []

def schedule (chunk : Bytes) : List Nat := (Nat.repeat extend 48 (words chunk).reverse).reverse

def round (s : Digest) (k w : Nat) : Digest :=
  let s1 := rotateRight s.e 6 ^^^ rotateRight s.e 11 ^^^ rotateRight s.e 25
  let ch := (s.e &&& s.f) ^^^ ((0xFFFFFFFF ^^^ s.e) &&& s.g)
  let t1 := wrap (s.h + s1 + ch + k + w)
  let s0 := rotateRight s.a 2 ^^^ rotateRight s.a 13 ^^^ rotateRight s.a 22
  let maj := (s.a &&& s.b) ^^^ (s.a &&& s.c) ^^^ (s.b &&& s.c)
  ⟨wrap (t1 + wrap (s0 + maj)), s.a, s.b, s.c, wrap (s.d + t1), s.e, s.f, s.g⟩

def compress (h : Digest) (chunk : Bytes) : Digest :=
  let r := (roundConstants.zip (schedule chunk)).foldl (fun s kw => round s kw.1 kw.2) h
  ⟨wrap (h.a + r.a), wrap (h.b + r.b), wrap (h.c + r.c), wrap (h.d + r.d), wrap (h.e + r.e),
    wrap (h.f + r.f), wrap (h.g + r.g), wrap (h.h + r.h)⟩

/-- The message, the `0x80` byte, zeros to 56 modulo 64, and the bit length. -/
def pad (data : Bytes) : Bytes :=
  data ++ 0x80 :: List.replicate ((119 - data.length % 64) % 64) 0 ++
    Bytes.be 8 (data.length * 8 % 2 ^ 64)

def compressAll : Nat → Bytes → Digest → Digest
  | 0, _, h => h
  | blocks + 1, msg, h => compressAll blocks (msg.drop 64) (compress h (msg.take 64))

def bytes (s : Digest) : Bytes :=
  [s.a, s.b, s.c, s.d, s.e, s.f, s.g, s.h].flatMap (Bytes.be 4)

end Sha256

/-- SHA-256 (FIPS 180-4). -/
def sha256 (data : Bytes) : Bytes :=
  let msg := Sha256.pad data
  Sha256.bytes (Sha256.compressAll (msg.length / 64) msg Sha256.initial)

/-- HMAC-SHA256 (RFC 2104). -/
def hmacSha256 (key msg : Bytes) : Bytes :=
  let short := if key.length > 64 then sha256 key else key
  let block := short ++ List.replicate (64 - short.length) 0
  sha256 (block.map (· ^^^ 0x5c) ++ sha256 (block.map (· ^^^ 0x36) ++ msg))

def hexDigit (n : Nat) : Char := if n < 10 then Char.ofNat (48 + n) else Char.ofNat (87 + n)

def hex (bytes : Bytes) : String :=
  String.ofList (bytes.flatMap fun b => [hexDigit (b.toNat / 16), hexDigit (b.toNat % 16)])

/-- The content address of a blob: the first 16 hex characters of its SHA-256. -/
def contentId (bytes : Bytes) : String := hex ((sha256 bytes).take 8)

example : crc32 [49, 50, 51, 52, 53, 54, 55, 56, 57] = 0xCBF43926 := by decide +kernel

example : contentId [97, 98, 99] = "ba7816bf8f01cfea" := by decide +kernel

end Prism
