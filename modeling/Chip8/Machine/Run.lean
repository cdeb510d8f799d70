import Chip8.Machine.Command

/-!
# Runs

A run makes a number of steps with some keys held down.  Before each step the
keys are set, and after it the pending frame is taken.  A run counts its steps
and frames and keeps the last frame; it ends early at the first step that
fails, and then says how many steps had succeeded before.
-/

namespace Chip8

structure Summary where
  steps : Nat
  frames : Nat
  lastFrame : Option Display
  deriving DecidableEq

namespace Summary

def empty : Summary := ⟨0, 0, none⟩

/-- The summary after one more step, which left `frame` to be taken. -/
def record (summary : Summary) (frame : Option Display) : Summary :=
  match frame with
  | none => { summary with steps := summary.steps + 1 }
  | some display => ⟨summary.steps + 1, summary.frames + 1, some display⟩

end Summary

structure RunError where
  completed : Nat
  cause : StepError
  deriving DecidableEq, Repr

def RunError.chain (error : RunError) : List String :=
  ["emulation stopped after " ++ Nat.repr error.completed ++ " steps",
    error.cause.message]

structure Run where
  machine : Machine
  result : Except RunError Summary

namespace Machine

/-- One round of a run, up to the point where the frame is taken. -/
def heldStep (m : Machine) (held : Keypad) : Step := (m.setKeys held).step

def runFrom (held : Keypad) : (count : Nat) → Summary → Machine → Run
  | 0, summary, m => ⟨m, .ok summary⟩
  | count + 1, summary, m =>
      let outcome := m.heldStep held
      match outcome.result with
      | .error cause => ⟨outcome.machine, .error ⟨summary.steps, cause⟩⟩
      | .ok () =>
          runFrom held count (summary.record outcome.machine.pendingFrame)
            outcome.machine.clearRedraw

def run (m : Machine) (held : Keypad) (count : Nat) : Run :=
  runFrom held count .empty m

def stepEvents (held : Keypad) : (count : Nat) → Machine → List Event
  | 0, _ => []
  | count + 1, m =>
      let outcome := m.heldStep held
      match outcome.result with
      | .error _ => outcome.events
      | .ok () =>
          outcome.events ++ stepEvents held count outcome.machine.clearRedraw

/-- The events of the steps, and a last line if all of them succeeded. -/
def runEvents (m : Machine) (held : Keypad) (count : Nat) : List Event :=
  let finish := m.run held count
  match finish.result with
  | .error _ => stepEvents held count m
  | .ok summary =>
      stepEvents held count m ++
        [.finished summary.steps summary.frames finish.machine.pc]

end Machine

end Chip8
