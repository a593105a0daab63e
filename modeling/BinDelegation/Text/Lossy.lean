/-! # Reading UTF-8 with replacement

Bytes that are no UTF-8 still have to be shown. Each longest run of bytes that begins a character
without completing it, and each byte that cannot begin one, is shown as the replacement character.
-/

namespace BinDelegation.Lossy

/-- Shown in place of bytes that are no character. -/
def replacement : Char := Char.ofNat 0xfffd

/-- Whether a byte continues a character. -/
def isContinuation (b : UInt8) : Bool := 0x80 ≤ b && b ≤ 0xbf

/-- Whether `b` may follow the lead byte `lead`: the ranges leave out overlong forms, surrogates
and code points past the last. -/
def maySecond (lead b : UInt8) : Bool :=
  if lead == 0xe0 then 0xa0 ≤ b && b ≤ 0xbf
  else if lead == 0xed then 0x80 ≤ b && b ≤ 0x9f
  else if lead == 0xf0 then 0x90 ≤ b && b ≤ 0xbf
  else if lead == 0xf4 then 0x80 ≤ b && b ≤ 0x8f
  else isContinuation b

/-- The low six bits, which a continuation byte contributes. -/
def payload (b : UInt8) : Nat := b.toNat % 64

/-- The first character of a non-empty byte string, none if the bytes in front are no character, and
how many bytes that takes. -/
def step (lead : UInt8) (rest : List UInt8) : Option Char × Nat :=
  if lead < 0x80 then (some (Char.ofNat lead.toNat), 1)
  else if 0xc2 ≤ lead && lead ≤ 0xdf then
    match rest with
    | b :: _ =>
      if isContinuation b then (some (Char.ofNat (lead.toNat % 32 * 64 + payload b)), 2)
      else (none, 1)
    | [] => (none, 1)
  else if 0xe0 ≤ lead && lead ≤ 0xef then
    match rest with
    | b :: tail =>
      if maySecond lead b then
        match tail with
        | c :: _ =>
          if isContinuation c then
            (some (Char.ofNat ((lead.toNat % 16 * 64 + payload b) * 64 + payload c)), 3)
          else (none, 2)
        | [] => (none, 2)
      else (none, 1)
    | [] => (none, 1)
  else if 0xf0 ≤ lead && lead ≤ 0xf4 then
    match rest with
    | b :: tail =>
      if maySecond lead b then
        match tail with
        | c :: tail =>
          if isContinuation c then
            match tail with
            | d :: _ =>
              if isContinuation d then
                (some (Char.ofNat (((lead.toNat % 8 * 64 + payload b) * 64 + payload c) * 64
                  + payload d)), 4)
              else (none, 3)
            | [] => (none, 3)
          else (none, 2)
        | [] => (none, 2)
      else (none, 1)
    | [] => (none, 1)
  else (none, 1)

/-- The characters of a byte string, `skip` of whose bytes are read already, with none for each part
that is no character. -/
def chars? (skip : Nat) : List UInt8 → List (Option Char)
  | [] => []
  | b :: rest =>
    match skip with
    | skip + 1 => chars? skip rest
    | 0 =>
      let read := step b rest
      read.1 :: chars? (read.2 - 1) rest

/-- A byte string as text, with the replacement character for what is not UTF-8. -/
def decode (bytes : List UInt8) : String :=
  String.ofList ((chars? 0 bytes).map (·.getD replacement))

end BinDelegation.Lossy
