import Chip8.CommandLine.Program

/-!
# The executable

Takes the arguments, the file and some entropy from the outside world, and
writes the outcome back.  Everything in between is `CommandLine.outcome`.
-/

namespace Chip8

def osReason (details : String) (code : UInt32) : String :=
  details ++ " (os error " ++ Nat.repr code.toNat ++ ")"

def reasonOf : IO.Error → String
  | .noFileOrDirectory _ code details => osReason details code
  | .permissionDenied _ code details => osReason details code
  | .inappropriateType _ code details => osReason details code
  | .invalidArgument _ code details => osReason details code
  | .resourceExhausted _ code details => osReason details code
  | .otherError code details => osReason details code
  | error => toString error

/-- Read at most `wanted` bytes; a failing read is a breakdown of the source. -/
def readSource (file : IO.FS.Handle) (wanted : Nat) : IO ByteSource := do
  let mut bytes : Array UInt8 := #[]
  let mut breakdown : Option Breakdown := none
  for _ in [0:wanted] do
    try
      let portion ← file.read (USize.ofNat (wanted - bytes.size))
      if portion.isEmpty then break
      bytes := bytes ++ portion.data
      if wanted ≤ bytes.size then break
    catch error =>
      breakdown := some ⟨bytes.size, reasonOf error⟩
      break
  return { pending := bytes.toList, breakdown := breakdown }

def openFile (path : String) : IO (Except String ByteSource) := do
  try
    let file ← IO.FS.Handle.mk path .read
    return .ok (← readSource file (Memory.programLimit + 1))
  catch error =>
    return .error (reasonOf error)

def entropy : IO UInt64 := do
  let bytes ← IO.getRandomBytes 8
  return bytes.data.foldl (fun word b => word * 256 + b.toUInt64) 0

end Chip8

open Chip8 in
def main (arguments : List String) : IO UInt32 := do
  let file ← match CommandLine.parse arguments with
    | .ok (.run options) => openFile options.filename
    | _ => pure (.error "")
  let outcome := CommandLine.outcome arguments (fun _ => file) (← entropy)
  (← IO.getStdout).putStr outcome.stdout
  (← IO.getStderr).putStr outcome.stderr
  return UInt32.ofNat outcome.code
