import Chip8.Keyboard
import Chip8.Machine.Run

/-!
# Failures

A failure belongs to the stage of the program that it stopped.  It is reported
as a chain of messages: what the program was doing, then the causes, one line
each and numbered when there are several.
-/

namespace Chip8.CommandLine

inductive Failure where
  | holding (error : Keyboard.Unbound)
  | opening (filename reason : String)
  | loading (error : LoadError)
  | running (error : RunError)
  deriving DecidableEq, Repr

def Failure.chain : Failure → List String
  | .holding error => ["invalid --hold keys", error.message]
  | .opening filename reason => ["error opening rom file: " ++ filename, reason]
  | .loading error => "error loading rom" :: error.chain
  | .running error => error.chain

/-- Start every line after the first with `margin`. -/
def hang (margin text : String) : String :=
  String.ofList (text.toList.flatMap fun c =>
    if c = '\n' then '\n' :: margin.toList else [c])

def numberedCauses (first : Nat) : List String → String
  | [] => ""
  | cause :: rest =>
      "\n    " ++ Nat.repr first ++ ": " ++ hang "       " cause ++
        numberedCauses (first + 1) rest

def reportChain : List String → String
  | [] => ""
  | [message] => "Error: " ++ message ++ "\n"
  | [message, cause] =>
      "Error: " ++ message ++ "\n\nCaused by:\n    " ++ hang "    " cause ++ "\n"
  | message :: causes =>
      "Error: " ++ message ++ "\n\nCaused by:" ++ numberedCauses 0 causes ++ "\n"

def Failure.report (failure : Failure) : String := reportChain failure.chain

end Chip8.CommandLine
