/-! # Message padding

Before it is hashed, a message is completed to a whole number of blocks: a closing bit, zeros, and
the length of the message in bits.
-/

namespace BinDelegation.Padding

/-- `count` zero bytes after a byte string. -/
def pushZeros : (count : Nat) → ByteArray → ByteArray
  | 0, bytes => bytes
  | count + 1, bytes => pushZeros count (bytes.push 0)

/-- A number as `count` bytes after a byte string, most significant first. -/
def pushNumber (n : Nat) : (count : Nat) → ByteArray → ByteArray
  | 0, bytes => bytes
  | count + 1, bytes => pushNumber n count (bytes.push (UInt8.ofNat (n >>> (8 * count))))

/-- The least number of zeros after which the length field of `field` bytes ends a block. -/
def zeroCount (block field size : Nat) : Nat := (2 * block - 1 - field - size % block) % block

/-- The message completed to whole blocks of `block` bytes, with a length field of `field`. -/
def pad (block field : Nat) (message : ByteArray) : ByteArray :=
  let zeros := zeroCount block field message.size
  pushNumber (8 * message.size) field (pushZeros zeros (message.push 0x80))

end BinDelegation.Padding
