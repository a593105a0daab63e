import BinDelegation.Hash.Padding

/-! # SHA-256

The digest of a byte string. The eight words of the chaining state are the fields of a structure
and the digest is a vector of thirty-two bytes, so that no width needs an argument.
-/

namespace BinDelegation.Sha256

/-- The chaining state. -/
structure State where
  (a b c d e f g h : UInt32)

/-- The state before the first block. -/
def initial : State :=
  ⟨0x6a09e667, 0xbb67ae85, 0x3c6ef372, 0xa54ff53a, 0x510e527f, 0x9b05688c, 0x1f83d9ab, 0x5be0cd19⟩

/-- One constant for each round. -/
def roundConstants : List UInt32 :=
  [0x428a2f98, 0x71374491, 0xb5c0fbcf, 0xe9b5dba5, 0x3956c25b, 0x59f111f1, 0x923f82a4, 0xab1c5ed5,
   0xd807aa98, 0x12835b01, 0x243185be, 0x550c7dc3, 0x72be5d74, 0x80deb1fe, 0x9bdc06a7, 0xc19bf174,
   0xe49b69c1, 0xefbe4786, 0x0fc19dc6, 0x240ca1cc, 0x2de92c6f, 0x4a7484aa, 0x5cb0a9dc, 0x76f988da,
   0x983e5152, 0xa831c66d, 0xb00327c8, 0xbf597fc7, 0xc6e00bf3, 0xd5a79147, 0x06ca6351, 0x14292967,
   0x27b70a85, 0x2e1b2138, 0x4d2c6dfc, 0x53380d13, 0x650a7354, 0x766a0abb, 0x81c2c92e, 0x92722c85,
   0xa2bfe8a1, 0xa81a664b, 0xc24b8b70, 0xc76c51a3, 0xd192e819, 0xd6990624, 0xf40e3585, 0x106aa070,
   0x19a4c116, 0x1e376c08, 0x2748774c, 0x34b0bcb5, 0x391c0cb3, 0x4ed8aa4a, 0x5b9cca4f, 0x682e6ff3,
   0x748f82ee, 0x78a5636f, 0x84c87814, 0x8cc70208, 0x90befffa, 0xa4506ceb, 0xbef9a3f7, 0xc67178f2]

/-- Rotation to the right. -/
@[inline] def rotate (x n : UInt32) : UInt32 := (x >>> n) ||| (x <<< (32 - n))

/-- The word that follows sixteen words of the schedule. -/
@[inline] def nextWord (w16 w15 w7 w2 : UInt32) : UInt32 :=
  let s0 := rotate w15 7 ^^^ rotate w15 18 ^^^ (w15 >>> 3)
  let s1 := rotate w2 17 ^^^ rotate w2 19 ^^^ (w2 >>> 10)
  w16 + s0 + w7 + s1

/-- Appends words to a schedule, each from the sixteen before it. -/
def extend : (count : Nat) → Array UInt32 → Array UInt32
  | 0, w => w
  | count + 1, w =>
    let n := w.size
    extend count (w.push (nextWord (w.getD (n - 16) 0) (w.getD (n - 15) 0) (w.getD (n - 7) 0)
      (w.getD (n - 2) 0)))

/-- The four bytes from a position on as one word, most significant first. -/
def wordAt (bytes : ByteArray) (i : Nat) : UInt32 :=
  let byte (j : Nat) : UInt32 := (bytes[i + j]?.getD 0).toUInt32
  (byte 0 <<< 24) ||| (byte 1 <<< 16) ||| (byte 2 <<< 8) ||| byte 3

/-- The sixty-four words of the block that starts at a position. -/
def schedule (bytes : ByteArray) (start : Nat) : Array UInt32 :=
  extend 48 (Array.ofFn fun i : Fin 16 => wordAt bytes (start + 4 * i))

/-- One round with its constant and word. -/
@[inline] def round (s : State) (k w : UInt32) : State :=
  let s1 := rotate s.e 6 ^^^ rotate s.e 11 ^^^ rotate s.e 25
  let choice := (s.e &&& s.f) ^^^ ((~~~ s.e) &&& s.g)
  let t1 := s.h + s1 + choice + k + w
  let s0 := rotate s.a 2 ^^^ rotate s.a 13 ^^^ rotate s.a 22
  let majority := (s.a &&& s.b) ^^^ (s.a &&& s.c) ^^^ (s.b &&& s.c)
  ⟨t1 + (s0 + majority), s.a, s.b, s.c, s.d + t1, s.e, s.f, s.g⟩

/-- The rounds from number `i` on, one for each constant. -/
def rounds (w : Array UInt32) : (i : Nat) → List UInt32 → State → State
  | _, [], s => s
  | i, k :: ks, s => rounds w (i + 1) ks (round s k (w.getD i 0))

/-- Takes one block into the state. -/
def compress (s : State) (bytes : ByteArray) (start : Nat) : State :=
  let t := rounds (schedule bytes start) 0 roundConstants s
  ⟨s.a + t.a, s.b + t.b, s.c + t.c, s.d + t.d, s.e + t.e, s.f + t.f, s.g + t.g, s.h + t.h⟩

/-- Takes `count` blocks into the state, beginning at a position. -/
def compressAll (bytes : ByteArray) : (count start : Nat) → State → State
  | 0, _, s => s
  | count + 1, start, s => compressAll bytes count (start + 64) (compress s bytes start)

/-- The words of a state. -/
def State.words (s : State) : Vector UInt32 8 := #v[s.a, s.b, s.c, s.d, s.e, s.f, s.g, s.h]

/-- The SHA-256 digest of a message. -/
def digest (message : ByteArray) : Vector UInt8 32 :=
  let padded := Padding.pad 64 8 message
  let words := (compressAll padded (padded.size / 64) 0 initial).words
  Vector.ofFn fun i : Fin 32 =>
    (words[i.val / 4] >>> UInt32.ofNat (24 - 8 * (i.val % 4))).toUInt8

end BinDelegation.Sha256
