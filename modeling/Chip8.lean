import Chip8.ByteSource
import Chip8.CallStack
import Chip8.CommandLine.Failure
import Chip8.CommandLine.FileTree
import Chip8.CommandLine.Options
import Chip8.CommandLine.Program
import Chip8.Dialect
import Chip8.Display.Basic
import Chip8.Display.Picture
import Chip8.Event
import Chip8.Fault
import Chip8.Instruction.Assembly
import Chip8.Instruction.Encoding
import Chip8.Keyboard
import Chip8.Keypad
import Chip8.Machine.Arithmetic
import Chip8.Machine.Basic
import Chip8.Machine.Command
import Chip8.Machine.Execute
import Chip8.Machine.Load
import Chip8.Machine.Run
import Chip8.Machine.Step
import Chip8.Main
import Chip8.Memory
import Chip8.Proofs.Calls.Lifo
import Chip8.Proofs.Calls.Return
import Chip8.Proofs.Instruction.Layout
import Chip8.Proofs.Machine.Bounds
import Chip8.Proofs.Machine.Effect
import Chip8.Proofs.Machine.Faults
import Chip8.Proofs.Machine.Fields
import Chip8.Proofs.Machine.InPlace
import Chip8.Proofs.Machine.Past
import Chip8.Proofs.Machine.Polling
import Chip8.Proofs.Machine.Statuses
import Chip8.Proofs.Machine.Timers
import Chip8.Proofs.Memory.History
import Chip8.Proofs.Random.Stream
import Chip8.Proofs.Run.Rounds
import Chip8.Proofs.Screen.History
import Chip8.Proofs.Screen.Parity
import Chip8.Proofs.Storage.Basic
import Chip8.Proofs.Storage.Drawing
import Chip8.Proofs.Storage.Execution
import Chip8.Proofs.Storage.Layout
import Chip8.Proofs.Storage.Safety
import Chip8.Proofs.Storage.Step
import Chip8.RandomSource
import Chip8.Proofs.Load.Reading
import Chip8.Proofs.Machine.Reset
import Chip8.Proofs.Influence.Keypad
import Chip8.Proofs.Influence.Dialect
import Chip8.Proofs.Influence.Memory
import Chip8.Proofs.Influence.Random
import Chip8.Proofs.Log.Lines
import Chip8.Proofs.Log.Transcript
import Chip8.Proofs.Log.Account
import Chip8.Proofs.Screen.Toggling
import Chip8.Proofs.Screen.Sprite
import Chip8.Proofs.Machine.Frame
import Chip8.Proofs.CommandLine.Stages
import Chip8.Proofs.Screen.LitCount
import Chip8.Proofs.Machine.Ensures
import Chip8.Proofs.Registers.Flags
import Chip8.Proofs.Registers.Transfer
import Chip8.Proofs.Registers.Decimal
import Chip8.Proofs.Instruction.Decoding
import Chip8.Proofs.Instruction.Meaning
import Chip8.Proofs.Machine.Waiting
import Chip8.Proofs.Machine.Alignment
import Chip8.Proofs.Run.Composition
import Chip8.Proofs.Storage.Picture
import Chip8.Proofs.Keyboard.HeldKeys
import Chip8.Proofs.Keypad.History
import Chip8.Proofs.Screen.Splitting
