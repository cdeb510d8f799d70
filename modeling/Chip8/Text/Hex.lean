/-!
# Hexadecimal text

Numbers are written with upper-case digits, highest digit first.  A written
number has at least as many digits as its format asks for, filled up with
zeros, and never loses a digit: a number that needs more digits gets them.
-/

namespace Chip8.Hex

def digit (d : Nat) : Char :=
  if d < 10 then Char.ofNat (48 + d) else Char.ofNat (55 + d)

/-- The lowest `width` digits of `n`, highest digit first. -/
def digits : (width : Nat) → (n : Nat) → List Char
  | 0, _ => []
  | width + 1, n => digits width (n / 16) ++ [digit (n % 16)]

/-- How many digits `n` needs; four binary digits make one, and zero takes one. -/
def width (n : Nat) : Nat := n.log2 / 4 + 1

def padded (least n : Nat) : String :=
  String.ofList (digits (max least (width n)) n)

def literal (least n : Nat) : String := "0x" ++ padded least n

@[simp] theorem length_digits (width n : Nat) :
    (digits width n).length = width := by
  induction width generalizing n with
  | zero => rfl
  | succ width ih => simp [digits, ih]

end Chip8.Hex
