import Chip8.Machine.Load
import Chip8.Machine.Step

/-!
# Commands

Everything that can be done to a machine from outside, as data.  `perform`
gives the machine after a command, what the command answers and what it
reports.
-/

namespace Chip8

inductive Command where
  | step
  | setKeys (keypad : Keypad)
  | setKey (code : UInt8) (down : Bool)
  | reset
  | load (program : List UInt8)
  | clearRedraw
  | takeFrame
  | setSeed (seed : UInt64)
  | setDialect (dialect : Dialect)
  deriving DecidableEq

inductive Reply where
  | done
  | stepped (result : Except StepError Unit)
  | loaded (result : Except LoadError Unit)
  | frame (frame : Option Display)

structure Response where
  machine : Machine
  reply : Reply
  events : List Event

namespace Machine

def setKeys (m : Machine) (keypad : Keypad) : Machine := { m with keypad := keypad }

def setKey (m : Machine) (code : UInt8) (down : Bool) : Machine :=
  { m with keypad := m.keypad.set (.ofByte code) down }

def clearRedraw (m : Machine) : Machine := { m with redraw := false }

def pendingFrame (m : Machine) : Option Display :=
  if m.redraw then some m.display else none

def setSeed (m : Machine) (seed : UInt64) : Machine :=
  { m with random := .ofSeed seed }

def setDialect (m : Machine) (dialect : Dialect) : Machine :=
  { m with dialect := dialect }

def perform (m : Machine) : Command → Response
  | .step =>
      let outcome := m.step
      ⟨outcome.machine, .stepped outcome.result, outcome.events⟩
  | .setKeys keypad => ⟨m.setKeys keypad, .done, []⟩
  | .setKey code down => ⟨m.setKey code down, .done, []⟩
  | .reset => ⟨m.reset, .done, [.initialized]⟩
  | .load program =>
      match m.load program with
      | .error error => ⟨m, .loaded (.error error), []⟩
      | .ok next => ⟨next, .loaded (.ok ()), [.loaded program.length]⟩
  | .clearRedraw => ⟨m.clearRedraw, .done, []⟩
  | .takeFrame => ⟨m.clearRedraw, .frame m.pendingFrame, []⟩
  | .setSeed seed => ⟨m.setSeed seed, .done, []⟩
  | .setDialect dialect => ⟨m.setDialect dialect, .done, []⟩

end Machine

end Chip8
