/-!
# Random bytes

A 64-bit state is advanced by a fixed odd number; the product of the new state
and a masked copy of it, folded from 128 to 64 bits, is the output word.  Its
eight bytes are handed out one at a time, lowest first, and a new word is made
when they are used up.
-/

namespace Chip8

/-- The state of the generator and the bytes of its last word not yet handed out. -/
structure RandomSource where
  state : UInt64
  buffer : List UInt8
  deriving DecidableEq, Repr

namespace RandomSource

def increment : UInt64 := 0xA0761D6478BD642F

def mask : UInt64 := 0xE7037ED1A0B428DB

def wordOf (state : UInt64) : UInt64 :=
  let product := state.toNat * (state ^^^ mask).toNat
  UInt64.ofNat (product / UInt64.size) ^^^ UInt64.ofNat product

def byteOf (word : UInt64) (k : Nat) : UInt8 := UInt8.ofNat (word.toNat >>> (8 * k))

def ofSeed (seed : UInt64) : RandomSource := ⟨seed, []⟩

def next (source : RandomSource) : UInt8 × RandomSource :=
  match source.buffer with
  | byte :: rest => (byte, { source with buffer := rest })
  | [] =>
      let state := source.state + increment
      let word := wordOf state
      (byteOf word 0, ⟨state, (List.range' 1 7).map (byteOf word)⟩)

end RandomSource

end Chip8
