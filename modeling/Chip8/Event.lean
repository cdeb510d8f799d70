import Chip8.Fault
import Chip8.Instruction.Assembly

/-!
# Events

What the machine reports while it works.  An event is data; `line` writes it
as a log line that opens with its level.
-/

namespace Chip8

inductive Event where
  | initialized
  | loaded (size : Nat)
  | executing (pc : UInt16) (opcode : Opcode) (instruction : Instruction)
  | waiting (register : Register)
  | resumed (key : Key)
  | halted (cause : Fault)
  | finished (steps frames : Nat) (pc : UInt16)
  deriving DecidableEq, Repr

namespace Event

def level : Event → String
  | .initialized => "DEBUG"
  | .loaded _ => "DEBUG"
  | .executing _ _ _ => "TRACE"
  | .waiting _ => "DEBUG"
  | .resumed _ => "DEBUG"
  | .halted _ => "ERROR"
  | .finished _ _ _ => "INFO"

def text : Event → String
  | .initialized => "emulator initialized"
  | .loaded size => "loaded " ++ Nat.repr size ++ " byte program at 0x200"
  | .executing pc opcode instruction =>
      Hex.literal 3 pc.toNat ++ ": " ++ Hex.padded 4 opcode.toNat ++ "  " ++
        instruction.text
  | .waiting register => "waiting for key press into V" ++ Hex.padded 1 register
  | .resumed key => "key " ++ Hex.padded 1 key ++ " pressed, resuming"
  | .halted cause => "emulator halted: " ++ cause.message
  | .finished steps frames pc =>
      "ran " ++ Nat.repr steps ++ " steps, " ++ Nat.repr frames ++
        " frames, PC at " ++ Hex.literal 3 pc.toNat

def line (event : Event) : String := event.level ++ " " ++ event.text

end Event

end Chip8
