/-!
Hashing by folded products. A hasher takes in words and byte strings one after the
other. Each one is multiplied with the state, and the halves of the double width
product are folded into one word. The length of a byte string goes in before its
bytes, so a byte cannot pass for something that follows the string.
-/

namespace ScriptMachine

/-- The halves of the double width product of two words, combined. -/
def foldedProduct (a b : UInt64) : UInt64 :=
  let product := a.toNat * b.toNat
  UInt64.ofNat product ^^^ UInt64.ofNat (product / Nat.pow 2 64)

/-- Turns the bits of a word to the left. -/
def rotateLeft (w count : UInt64) : UInt64 :=
  (w <<< count) ||| (w >>> (64 - count))

/-- The number that bytes spell, the lowest one first. -/
def bytesValue (bytes : List UInt8) : UInt64 :=
  bytes.foldr (fun b n => n * 256 + b.toUInt64) 0

/-- A hash under way: what was taken in so far, and three words that stay the same. -/
structure Hasher where
  state : UInt64
  pad : UInt64
  lowKey : UInt64
  highKey : UInt64
deriving Repr, DecidableEq, Inhabited

namespace Hasher

/-- The hasher that has taken in nothing. -/
def initial : Hasher where
  state := 0xad4dece137997f28
  pad := 0x61174b6ebd731ba4
  lowKey := 0x64a51195e0e3610d
  highKey := 0x37aa2f2d5909659e

/-- The factor of the state. -/
def multiplier : UInt64 := 6364136223846793005

/-- Takes in a word. -/
def word (h : Hasher) (w : UInt64) : Hasher :=
  { h with state := foldedProduct (w ^^^ h.state) multiplier }

/-- Takes in two words at once. -/
def pair (h : Hasher) (low high : UInt64) : Hasher :=
  let folded := foldedProduct (low ^^^ h.lowKey) (high ^^^ h.highKey)
  { h with state := rotateLeft ((h.state + h.pad) ^^^ folded) 23 }

/-- Takes in sixteen bytes. -/
def block (h : Hasher) (bytes : List UInt8) : Hasher :=
  h.pair (bytesValue (bytes.take 8)) (bytesValue ((bytes.drop 8).take 8))

/-- Takes in a number of blocks from the front. -/
def blocks : (count : Nat) → Hasher → List UInt8 → Hasher
  | 0, h, _ => h
  | count + 1, h, bytes => blocks count (h.block bytes) (bytes.drop 16)

/-- Takes in a byte string: its length, then its bytes. A string of at most sixteen
bytes is two words, which overlap; a longer one is its last block followed by the
blocks before it, the last of which may overlap. -/
def bytes (h : Hasher) (bytes : List UInt8) : Hasher :=
  let size := bytes.length
  let last (count : Nat) := bytesValue (bytes.drop (size - count))
  let h := { h with state := (h.state + size.toUInt64) * multiplier }
  if 16 < size then blocks ((size - 1) / 16) (h.block (bytes.drop (size - 16))) bytes
  else if 8 < size then h.pair (bytesValue (bytes.take 8)) (last 8)
  else if 4 ≤ size then h.pair (bytesValue (bytes.take 4)) (last 4)
  else if 2 ≤ size then h.pair (bytesValue (bytes.take 2)) (last 1)
  else h.pair (bytesValue bytes) (bytesValue bytes)

/-- Takes in a text: its bytes, then a byte that no text contains. -/
def text (h : Hasher) (s : String) : Hasher :=
  (h.bytes s.toUTF8.toList).word 0xff

/-- The hash of what was taken in. -/
def finish (h : Hasher) : UInt64 :=
  rotateLeft (foldedProduct h.state h.pad) (h.state &&& 63)

end Hasher
end ScriptMachine
