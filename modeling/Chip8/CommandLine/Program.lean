import Chip8.CommandLine.Failure
import Chip8.CommandLine.Options
import Chip8.Display.Picture

/-!
# The program

What the command line does with its options: find the held keys, open the
file, load the program and run it, in this order.  The first stage that fails
decides the outcome, and then nothing goes to the standard output.  If all of
them succeed, the last frame is shown as a picture and followed by one line
about the final state.  The error stream of an outcome holds what the command line
itself reports; the lines of the event log, which may be sent there as well, are
not part of it.
-/

namespace Chip8.CommandLine

structure Finished where
  summary : Summary
  machine : Machine

namespace Finished

def stateLine (finished : Finished) : String :=
  let bytes := finished.machine.registers.toList.map fun b => Hex.padded 2 b.toNat
  Nat.repr finished.summary.steps ++ " steps, " ++
    Nat.repr finished.summary.frames ++
    " frames, PC=" ++ Hex.literal 3 finished.machine.pc.toNat ++
    " I=" ++ Hex.literal 3 finished.machine.index.toNat ++
    " V=[" ++ ", ".intercalate bytes ++ "]\n"

def text (finished : Finished) : String :=
  match finished.summary.lastFrame with
  | none => finished.stateLine
  | some display => display.picture ++ finished.stateLine

end Finished

namespace Options

def dialect (options : Options) : Dialect where
  normalizeShiftFlag := options.normalizeShiftFlag
  timersWhileWaiting := !options.freezeTimersWhileWaiting

/-- Go through the stages; `entropy` is the seed when the options name none. -/
def execute (options : Options) (openFile : String → Except String ByteSource)
    (entropy : UInt64) : Except Failure Finished := do
  let held ← (Keyboard.heldKeys options.hold).mapError .holding
  let source ← (openFile options.filename).mapError (.opening options.filename)
  let random := RandomSource.ofSeed (options.seed.getD entropy)
  let boot ← (Machine.bootFrom source options.dialect random).mapError .loading
  let finish := boot.machine.run held options.steps
  let summary ← finish.result.mapError .running
  return ⟨summary, finish.machine⟩

end Options

structure Outcome where
  code : Nat
  stdout : String
  stderr : String
  deriving DecidableEq, Repr

def versionText : String := "rc8-engine 0.1.0\n"

def helpText : String :=
  "Run a CHIP-8 program without a window\n\n" ++
  "USAGE:\n    rc8 [OPTIONS] <FILENAME>\n\n" ++
  "ARGS:\n    <FILENAME>    ROM file to load\n\n" ++
  "OPTIONS:\n" ++
  "        --steps <STEPS>                  " ++
    "Number of instructions to execute [default: 600]\n" ++
  "        --hold <HOLD>                    Keys held down during the run\n" ++
  "        --seed <SEED>                    " ++
    "Seed for the random number generator\n" ++
  "        --normalize-shift-flag           Set VF to 0 or 1 on a left shift\n" ++
  "        --freeze-timers-while-waiting    " ++
    "Stop the timers during a wait for a key\n" ++
  "    -h, --help                           Print help information\n" ++
  "    -V, --version                        Print version information\n"

def usageText (error : UsageError) : String :=
  "error: " ++ error.message ++ "\n\nUSAGE:\n    rc8 [OPTIONS] <FILENAME>\n\n" ++
    "For more information try --help\n"

def outcome (arguments : List String) (openFile : String → Except String ByteSource)
    (entropy : UInt64) : Outcome :=
  match parse arguments with
  | .error error => ⟨2, "", usageText error⟩
  | .ok .help => ⟨0, helpText, ""⟩
  | .ok .version => ⟨0, versionText, ""⟩
  | .ok (.run options) =>
      match options.execute openFile entropy with
      | .error failure => ⟨1, "", failure.report⟩
      | .ok finished => ⟨0, finished.text, ""⟩

end Chip8.CommandLine
