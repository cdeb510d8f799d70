import Chip8.Event
import Chip8.Machine.Execute

/-!
# Steps

A step of a running machine fetches the word at `PC`, decodes and executes it.
A step of a waiting machine looks for a key.  A successful step ends with a
timer tick, except that a dialect may stop the timers while the machine waits.
A fault halts the machine and changes nothing else, and a halted machine stays
as it is.
-/

namespace Chip8

structure Step where
  machine : Machine
  result : Except StepError Unit
  events : List Event

namespace Machine

def fetch (m : Machine) : Except Fault Opcode :=
  if m.pc.toNat + 1 < 4096 then
    .ok (.ofBytes (m.memory.read m.pc.toNat) (m.memory.read (m.pc.toNat + 1)))
  else
    .error (.fetchOutOfBounds m.pc)

def nextInstruction (m : Machine) : Except Fault (Opcode × Instruction) :=
  match m.fetch with
  | .error cause => .error cause
  | .ok opcode =>
      match Instruction.decode opcode with
      | none => .error (.unsupportedOpcode opcode m.pc)
      | some instruction => .ok (opcode, instruction)

def endStep (m : Machine) : Machine :=
  if m.status = .running ∨ m.dialect.timersWhileWaiting then m.tick else m

def haltWith (m : Machine) (cause : Fault) (events : List Event) : Step :=
  ⟨{ m with status := .halted }, .error (.fault cause), events ++ [.halted cause]⟩

def waitingEvents (m : Machine) : List Event :=
  match m.status with
  | .awaitingKey register => [.waiting register]
  | _ => []

def stepRunning (m : Machine) : Step :=
  match m.nextInstruction with
  | .error cause => m.haltWith cause []
  | .ok (opcode, instruction) =>
      let executing := Event.executing m.pc opcode instruction
      match m.execute instruction with
      | .error cause => m.haltWith cause [executing]
      | .ok next => ⟨next.endStep, .ok (), executing :: next.waitingEvents⟩

def stepWaiting (m : Machine) (register : Register) : Step :=
  match m.keypad.firstPressed with
  | none => ⟨m.endStep, .ok (), []⟩
  | some key =>
      ⟨{ m.takeKey register key with status := .running }.endStep, .ok (),
        [.resumed key]⟩

def step (m : Machine) : Step :=
  match m.status with
  | .halted => ⟨m, .error .halted, []⟩
  | .awaitingKey register => m.stepWaiting register
  | .running => m.stepRunning

end Machine

end Chip8
