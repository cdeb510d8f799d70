/-!
# Byte sources

A source hands out its bytes in portions and may break down on the way.  A
read from a source that has reached its breaking point fails; otherwise the
read gets at most as many bytes as it asks for, and none only when the bytes
have come to an end.
-/

namespace Chip8

/-- A point, counted in bytes from here on, after which every read fails. -/
structure Breakdown where
  after : Nat
  reason : String
  deriving DecidableEq, Repr

structure ByteSource where
  pending : List UInt8
  /-- The most bytes that one read hands out. -/
  portion : Option Nat := none
  breakdown : Option Breakdown := none
  deriving DecidableEq, Repr

namespace ByteSource

def allowance (source : ByteSource) (wanted : Nat) : Nat :=
  let portioned := match source.portion with
    | none => wanted
    | some portion => min wanted portion
  match source.breakdown with
  | none => portioned
  | some breakdown => min portioned breakdown.after

def drop (source : ByteSource) (count : Nat) : ByteSource :=
  { source with
    pending := source.pending.drop count
    breakdown := source.breakdown.map fun b => { b with after := b.after - count } }

def read (source : ByteSource) (wanted : Nat) :
    Except String (List UInt8 × ByteSource) :=
  match source.breakdown with
  | some ⟨0, reason⟩ => .error reason
  | _ =>
      let bytes := source.pending.take (source.allowance wanted)
      .ok (bytes, source.drop bytes.length)

/-- Read until `limit` bytes have come or a read gets none. -/
def readUpTo (limit : Nat) (source : ByteSource) : Except String (List UInt8) :=
  if limit = 0 then .ok []
  else
    match source.read limit with
    | .error reason => .error reason
    | .ok ([], _) => .ok []
    | .ok (byte :: rest, remaining) =>
        match readUpTo (limit - (rest.length + 1)) remaining with
        | .error reason => .error reason
        | .ok more => .ok (byte :: rest ++ more)
termination_by limit

end ByteSource

end Chip8
