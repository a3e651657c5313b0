import Owasaka.Foundation.Bytes

/-! # SHA-256

    The hash function of FIPS 180-4 on byte strings, and HMAC on it.  Proofs never unfold it:
    they hold for every function of its type.  It is executable, so that a
    concrete run of the programs that use it can be evaluated. -/

namespace Sha256

/-- A digest: 32 bytes. -/
abbrev Digest : Type := Vector UInt8 32

/-- The eight chaining words. -/
structure Chain where
  a : UInt32
  b : UInt32
  c : UInt32
  d : UInt32
  e : UInt32
  f : UInt32
  g : UInt32
  h : UInt32

def initial : Chain :=
  ⟨0x6a09e667, 0xbb67ae85, 0x3c6ef372, 0xa54ff53a, 0x510e527f, 0x9b05688c, 0x1f83d9ab, 0x5be0cd19⟩

def roundConstants : List UInt32 := [
  0x428a2f98, 0x71374491, 0xb5c0fbcf, 0xe9b5dba5, 0x3956c25b, 0x59f111f1, 0x923f82a4, 0xab1c5ed5,
  0xd807aa98, 0x12835b01, 0x243185be, 0x550c7dc3, 0x72be5d74, 0x80deb1fe, 0x9bdc06a7, 0xc19bf174,
  0xe49b69c1, 0xefbe4786, 0x0fc19dc6, 0x240ca1cc, 0x2de92c6f, 0x4a7484aa, 0x5cb0a9dc, 0x76f988da,
  0x983e5152, 0xa831c66d, 0xb00327c8, 0xbf597fc7, 0xc6e00bf3, 0xd5a79147, 0x06ca6351, 0x14292967,
  0x27b70a85, 0x2e1b2138, 0x4d2c6dfc, 0x53380d13, 0x650a7354, 0x766a0abb, 0x81c2c92e, 0x92722c85,
  0xa2bfe8a1, 0xa81a664b, 0xc24b8b70, 0xc76c51a3, 0xd192e819, 0xd6990624, 0xf40e3585, 0x106aa070,
  0x19a4c116, 0x1e376c08, 0x2748774c, 0x34b0bcb5, 0x391c0cb3, 0x4ed8aa4a, 0x5b9cca4f, 0x682e6ff3,
  0x748f82ee, 0x78a5636f, 0x84c87814, 0x8cc70208, 0x90befffa, 0xa4506ceb, 0xbef9a3f7, 0xc67178f2]

def rotr (x n : UInt32) : UInt32 := (x >>> n) ||| (x <<< (32 - n))

/-- One round with constant `k` and schedule word `w`. -/
def round (s : Chain) (k w : UInt32) : Chain :=
  let t1 := s.h + (rotr s.e 6 ^^^ rotr s.e 11 ^^^ rotr s.e 25)
    + ((s.e &&& s.f) ^^^ (~~~ s.e &&& s.g)) + k + w
  let t2 := (rotr s.a 2 ^^^ rotr s.a 13 ^^^ rotr s.a 22)
    + ((s.a &&& s.b) ^^^ (s.a &&& s.c) ^^^ (s.b &&& s.c))
  ⟨t1 + t2, s.a, s.b, s.c, s.d + t1, s.e, s.f, s.g⟩

/-- The rounds over a sliding window of sixteen schedule words: each round
    takes the first word of the window and puts a new one at its end. -/
def rounds (s : Chain) : List UInt32 → List UInt32 → Chain
  | k :: ks, w :: ws =>
      let w1 := ws.getD 0 0
      let w9 := ws.getD 8 0
      let w14 := ws.getD 13 0
      let next := (rotr w14 17 ^^^ rotr w14 19 ^^^ (w14 >>> 10)) + w9
        + (rotr w1 7 ^^^ rotr w1 18 ^^^ (w1 >>> 3)) + w
      rounds (round s k w) ks (ws ++ [next])
  | _, _ => s

/-- Compress one block of sixteen words. -/
def compress (s : Chain) (block : List UInt32) : Chain :=
  let t := rounds s roundConstants block
  ⟨s.a + t.a, s.b + t.b, s.c + t.c, s.d + t.d, s.e + t.e, s.f + t.f, s.g + t.g, s.h + t.h⟩

def blocks (s : Chain) (ws : List UInt32) : Nat → Chain
  | 0 => s
  | n + 1 => blocks (compress s (ws.take 16)) (ws.drop 16) n

/-- Big-endian words. -/
def words : Bytes → List UInt32
  | a :: b :: c :: d :: bs =>
      (a.toUInt32 <<< 24 ||| b.toUInt32 <<< 16 ||| c.toUInt32 <<< 8 ||| d.toUInt32) :: words bs
  | _ => []

/-- A one bit, zeros up to 8 bytes before a block ends, and the bit length. -/
def pad (msg : Bytes) : Bytes :=
  msg ++ 0x80 :: (List.replicate ((119 - msg.length % 64) % 64) 0
    ++ Bytes.bigEndian 8 (8 * msg.length))

def wordBytes (w : UInt32) : Bytes :=
  [(w >>> 24).toUInt8, (w >>> 16).toUInt8, (w >>> 8).toUInt8, w.toUInt8]

/-- The digest of a byte string. -/
@[irreducible]
def sum (msg : Bytes) : Digest :=
  let ws := words (pad msg)
  let s := blocks initial ws (ws.length / 16)
  ⟨([s.a, s.b, s.c, s.d, s.e, s.f, s.g, s.h].flatMap wordBytes).toArray, by simp [wordBytes]⟩

-- the digest of "abc" as FIPS 180-4 publishes it
example : sum [0x61, 0x62, 0x63] = #v[
    0xba, 0x78, 0x16, 0xbf, 0x8f, 0x01, 0xcf, 0xea, 0x41, 0x41, 0x40, 0xde, 0x5d, 0xae, 0x22, 0x23,
    0xb0, 0x03, 0x61, 0xa3, 0x96, 0x17, 0x7a, 0x9c, 0xb4, 0x10, 0xff, 0x61, 0xf2, 0x00, 0x15, 0xad] := by
  decide +kernel

/-! ## HMAC -/

/-- The key of a block: a longer one is hashed first. -/
def blockKey (key : Bytes) : Bytes :=
  let key := if 64 < key.length then (sum key).toList else key
  key ++ List.replicate (64 - key.length) 0

/-- HMAC-SHA256. -/
def hmac (key msg : Bytes) : Bytes :=
  let inner := sum ((blockKey key).map (· ^^^ 0x36) ++ msg)
  (sum ((blockKey key).map (· ^^^ 0x5c) ++ inner.toList)).toList

end Sha256
