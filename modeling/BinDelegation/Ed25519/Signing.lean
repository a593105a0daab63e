import BinDelegation.Ed25519.Curve
import BinDelegation.Hash.Sha512

/-! # Ed25519 signatures

A seed of thirty-two bytes determines a key pair. Signing is deterministic: the same seed and
message give the same sixty-four bytes.
-/

namespace BinDelegation.Ed25519

/-- A secret seed, and equally an encoded point or number. -/
abbrev Bytes32 := Vector UInt8 32

/-- A signature. -/
abbrev Bytes64 := Vector UInt8 64

/-- The number that bytes denote, least significant first. -/
def numberOf (bytes : List UInt8) : Nat := bytes.foldr (fun b n => b.toNat + 256 * n) 0

/-- A number as bytes, least significant first. -/
def bytesOf (width n : Nat) : Vector UInt8 width :=
  Vector.ofFn fun i : Fin width => UInt8.ofNat (n >>> (8 * i.val))

/-- The SHA-512 digest of a list of bytes with a message behind it, as a number. -/
def hashNumber (bytes : List UInt8) (message : ByteArray) : Nat :=
  numberOf (Sha512.digest (ByteArray.mk bytes.toArray ++ message)).toList

/-- The secret multiplier: the lower half of the seed's digest, with the lowest three bits and the
highest cleared and the second highest set. -/
def secretNumber (digest : List UInt8) : Nat :=
  let n := numberOf (digest.take 32)
  n % (1 <<< 254) / 8 * 8 + (1 <<< 254)

/-- What a seed determines. -/
structure ExpandedKey where
  /-- The secret multiplier. -/
  secret : Nat
  /-- The upper half of the seed's digest, which makes the nonces unpredictable. -/
  nonceKey : List UInt8
  /-- The encoded public point. -/
  publicKey : Bytes32

/-- Expands a seed. -/
def expand (seed : Bytes32) : ExpandedKey :=
  let digest := (Sha512.digest (ByteArray.mk seed.toArray)).toList
  let secret := secretNumber digest
  ⟨secret, digest.drop 32, bytesOf 32 (Point.base.multiple secret 255).encode⟩

/-- The public key of a seed. -/
def publicKey (seed : Bytes32) : Bytes32 := (expand seed).publicKey

/-- The signature of a message under an expanded key. -/
def ExpandedKey.sign (key : ExpandedKey) (message : ByteArray) : Bytes64 :=
  let nonce := hashNumber key.nonceKey message % order
  let commitment : Bytes32 := bytesOf 32 (Point.base.multiple nonce 253).encode
  let challenge := hashNumber (commitment.toList ++ key.publicKey.toList) message % order
  let response : Bytes32 := bytesOf 32 ((nonce + challenge * key.secret) % order)
  commitment ++ response

/-- The signature of a message under a seed. -/
def sign (seed : Bytes32) (message : ByteArray) : Bytes64 := (expand seed).sign message

/-- Whether a signature of a message is valid under a public key. -/
def verifies (publicKey : List UInt8) (message : ByteArray) (signature : List UInt8) : Bool :=
  if publicKey.length = 32 ∧ signature.length = 64 then
    let commitment := signature.take 32
    let response := numberOf (signature.drop 32)
    let challenge := hashNumber (commitment ++ publicKey) message % order
    match Point.decode? (numberOf publicKey) with
    | none => false
    | some key =>
      response < order &&
        ((Point.base.multiple response 253).add (key.multiple challenge 253).negative).encode
          == numberOf commitment
  else false

end BinDelegation.Ed25519
