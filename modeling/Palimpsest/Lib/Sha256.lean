import Mathlib.Data.List.Defs
import Mathlib.Logic.Function.Iterate

/-!
# SHA-256 and HMAC

The hash function and the message authentication code over it, on lists of bytes.
Nothing is proved about them beyond the length of what they return
(`Sha256.length_digest`); they are here so that a protocol that uses them can be run.
-/

namespace Sha256

/-- The round constants. -/
def roundConstants : List UInt32 :=
  [0x428a2f98, 0x71374491, 0xb5c0fbcf, 0xe9b5dba5, 0x3956c25b, 0x59f111f1, 0x923f82a4, 0xab1c5ed5,
   0xd807aa98, 0x12835b01, 0x243185be, 0x550c7dc3, 0x72be5d74, 0x80deb1fe, 0x9bdc06a7, 0xc19bf174,
   0xe49b69c1, 0xefbe4786, 0x0fc19dc6, 0x240ca1cc, 0x2de92c6f, 0x4a7484aa, 0x5cb0a9dc, 0x76f988da,
   0x983e5152, 0xa831c66d, 0xb00327c8, 0xbf597fc7, 0xc6e00bf3, 0xd5a79147, 0x06ca6351, 0x14292967,
   0x27b70a85, 0x2e1b2138, 0x4d2c6dfc, 0x53380d13, 0x650a7354, 0x766a0abb, 0x81c2c92e, 0x92722c85,
   0xa2bfe8a1, 0xa81a664b, 0xc24b8b70, 0xc76c51a3, 0xd192e819, 0xd6990624, 0xf40e3585, 0x106aa070,
   0x19a4c116, 0x1e376c08, 0x2748774c, 0x34b0bcb5, 0x391c0cb3, 0x4ed8aa4a, 0x5b9cca4f, 0x682e6ff3,
   0x748f82ee, 0x78a5636f, 0x84c87814, 0x8cc70208, 0x90befffa, 0xa4506ceb, 0xbef9a3f7, 0xc67178f2]

/-- The eight words of a chaining value. -/
structure State where
  (a b c d e f g h : UInt32)

/-- The chaining value before the first block. -/
def State.init : State :=
  ⟨0x6a09e667, 0xbb67ae85, 0x3c6ef372, 0xa54ff53a, 0x510e527f, 0x9b05688c, 0x1f83d9ab, 0x5be0cd19⟩

/-- Rotation to the right. -/
def rotr (x : UInt32) (n : UInt32) : UInt32 := (x >>> n) ||| (x <<< (32 - n))

/-- One round, with its constant and its schedule word. -/
def State.round (s : State) (k w : UInt32) : State :=
  let s1 := rotr s.e 6 ^^^ rotr s.e 11 ^^^ rotr s.e 25
  let ch := (s.e &&& s.f) ^^^ (~~~s.e &&& s.g)
  let t1 := s.h + s1 + ch + k + w
  let s0 := rotr s.a 2 ^^^ rotr s.a 13 ^^^ rotr s.a 22
  let maj := (s.a &&& s.b) ^^^ (s.a &&& s.c) ^^^ (s.b &&& s.c)
  ⟨t1 + (s0 + maj), s.a, s.b, s.c, s.d + t1, s.e, s.f, s.g⟩

/-- The words of two chaining values, added. -/
def State.add (s t : State) : State :=
  ⟨s.a + t.a, s.b + t.b, s.c + t.c, s.d + t.d, s.e + t.e, s.f + t.f, s.g + t.g, s.h + t.h⟩

/-- The big-endian words of a list of bytes. -/
def words : List UInt8 → List UInt32
  | a :: b :: c :: d :: l =>
    (a.toUInt32 <<< 24 ||| b.toUInt32 <<< 16 ||| c.toUInt32 <<< 8 ||| d.toUInt32) :: words l
  | _ => []

/-- The bytes of a word, the highest first. -/
def wordBytes (w : UInt32) : List UInt8 :=
  [(w >>> 24).toUInt8, (w >>> 16).toUInt8, (w >>> 8).toUInt8, w.toUInt8]

/-- One more word of the schedule, which is kept with its last word first. -/
def scheduleStep (w : List UInt32) : List UInt32 :=
  let w15 := w.getD 14 0
  let w2 := w.getD 1 0
  let s0 := rotr w15 7 ^^^ rotr w15 18 ^^^ (w15 >>> 3)
  let s1 := rotr w2 17 ^^^ rotr w2 19 ^^^ (w2 >>> 10)
  (w.getD 15 0 + s0 + w.getD 6 0 + s1) :: w

/-- The sixty-four words of the schedule of a block. -/
def schedule (block : List UInt8) : List UInt32 :=
  (scheduleStep^[48] (words block).reverse).reverse

/-- One block. -/
def compress (s : State) (block : List UInt8) : State :=
  s.add ((roundConstants.zip (schedule block)).foldl (fun t kw => t.round kw.1 kw.2) s)

/-- The number of bits, on eight bytes. -/
def lengthBytes (n : ℕ) : List UInt8 :=
  (List.range 8).map fun i => UInt8.ofNat ((8 * n) >>> (8 * (7 - i)))

/-- A message with its padding. -/
def pad (l : List UInt8) : List UInt8 :=
  l ++ 0x80 :: (List.replicate ((119 - l.length % 64) % 64) 0 ++ lengthBytes l.length)

/-- The hash of a message. -/
def digest (l : List UInt8) : List UInt8 :=
  let s := ((pad l).toChunks 64).foldl compress State.init
  [s.a, s.b, s.c, s.d, s.e, s.f, s.g, s.h].flatMap wordBytes

theorem length_digest (l : List UInt8) : (digest l).length = 32 := rfl

/-- A key, brought to the length of a block. -/
def blockKey (key : List UInt8) : List UInt8 :=
  let k := if key.length ≤ 64 then key else digest key
  k ++ List.replicate (64 - k.length) 0

/-- The message authentication code. -/
def hmac (key l : List UInt8) : List UInt8 :=
  digest ((blockKey key).map (· ^^^ 0x5c) ++ digest ((blockKey key).map (· ^^^ 0x36) ++ l))

theorem length_hmac (key l : List UInt8) : (hmac key l).length = 32 := rfl

end Sha256
