import Chip8.Instruction.Encoding
import Chip8.Text.Hex

/-!
# Faults

What can stop a running machine, and its wording.  Every fault carries the
address of the instruction that caused it.
-/

namespace Chip8

inductive Fault where
  | fetchOutOfBounds (pc : UInt16)
  | unsupportedOpcode (opcode : Opcode) (pc : UInt16)
  | stackOverflow (pc : UInt16)
  | stackUnderflow (pc : UInt16)
  | memoryOutOfBounds (address : Nat) (pc : UInt16)
  deriving DecidableEq, Repr

namespace Fault

def location (pc : UInt16) : String := Hex.literal 3 pc.toNat

def message : Fault → String
  | .fetchOutOfBounds pc =>
      "cannot fetch instruction at address " ++ location pc ++
        ": past the end of memory"
  | .unsupportedOpcode opcode pc =>
      "unsupported instruction at address " ++ location pc ++ ": " ++
        Hex.padded 4 opcode.toNat
  | .stackOverflow pc =>
      "stack overflow on subroutine call at address " ++ location pc
  | .stackUnderflow pc => "stack underflow on return at address " ++ location pc
  | .memoryOutOfBounds address pc =>
      "memory access at " ++ Hex.literal 4 address ++
        " out of bounds (instruction at " ++ location pc ++ ")"

end Fault

/-- Why a step failed: a new fault, or a machine that an earlier one halted. -/
inductive StepError where
  | halted
  | fault (cause : Fault)
  deriving DecidableEq, Repr

def StepError.message : StepError → String
  | .halted => "emulator is halted"
  | .fault cause => cause.message

end Chip8
