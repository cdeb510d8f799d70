import Chip8.ByteSource
import Chip8.Event
import Chip8.Machine.Basic

/-!
# Loading programs

A program is copied to the cells from `0x200` on.  One that does not fit is
refused, and the machine stays as it was.
-/

namespace Chip8

inductive LoadError where
  | tooLarge (size : Nat)
  | unreadable (reason : String)
  deriving DecidableEq, Repr

namespace LoadError

def message : LoadError → String
  | .tooLarge size =>
      "program has " ++ Nat.repr size ++ " bytes, but only " ++
        Nat.repr Memory.programLimit ++ " fit in memory"
  | .unreadable reason => "IO Error: " ++ reason

def chain : LoadError → List String
  | .tooLarge size => [message (.tooLarge size)]
  | .unreadable reason => [message (.unreadable reason), reason]

end LoadError

namespace Machine

def load (m : Machine) (program : List UInt8) : Except LoadError Machine :=
  if program.length ≤ Memory.programLimit then
    .ok { m with memory := m.memory.store Memory.programStart program }
  else
    .error (.tooLarge program.length)

structure Boot where
  machine : Machine
  events : List Event

def boot (dialect : Dialect) (random : RandomSource) : Boot :=
  ⟨powerOn dialect random, [.initialized]⟩

/--
Switch a machine on with a program from a source.  One byte more than fits is
asked for, which is enough to see that a program is too large.
-/
def bootFrom (source : ByteSource) (dialect : Dialect) (random : RandomSource) :
    Except LoadError Boot :=
  match source.readUpTo (Memory.programLimit + 1) with
  | .error reason => .error (.unreadable reason)
  | .ok program =>
      match (powerOn dialect random).load program with
      | .error error => .error error
      | .ok m => .ok ⟨m, [.initialized, .loaded program.length]⟩

end Machine

end Chip8
