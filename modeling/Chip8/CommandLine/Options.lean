/-!
# Options of the command line

`parse` reads the arguments from left to right.  Whatever starts with a dash
and goes on is an option, wherever it stands; a lone `--` ends the options.
A value follows its option as the next argument or behind an equals sign.
When an option comes more than once the last time counts, and an option that
was left without its value is a fault only at the end.  A request for help or
for the version is granted as soon as it is read.
-/

namespace Chip8.CommandLine

structure Options where
  filename : String
  steps : Nat
  hold : String
  seed : Option UInt64
  normalizeShiftFlag : Bool
  freezeTimersWhileWaiting : Bool
  deriving DecidableEq, Repr

inductive Request where
  | run (options : Options)
  | help
  | version
  deriving DecidableEq, Repr

inductive UsageError where
  | unknownOption (argument : String)
  | unexpectedValue (argument : String)
  | missingValue (option : String)
  | invalidNumber (option text : String)
  | extraFilename (name : String)
  | missingFilename
  deriving DecidableEq, Repr

def UsageError.message : UsageError → String
  | .unknownOption argument => "unknown option '" ++ argument ++ "'"
  | .unexpectedValue argument =>
      "'" ++ argument ++ "' gives a value to an option that takes none"
  | .missingValue option => "option '--" ++ option ++ "' needs a value"
  | .invalidNumber option text =>
      "invalid number '" ++ text ++ "' for option '--" ++ option ++ "'"
  | .extraFilename name => "unexpected argument '" ++ name ++ "'"
  | .missingFilename => "the argument <FILENAME> is missing"

inductive Argument where
  | separator
  | long (name : String) (value : Option String)
  | short (letter : Char)
  | plain
  deriving DecidableEq, Repr

def Argument.ofText (text : String) : Argument :=
  match text.toList with
  | ['-', '-'] => .separator
  | '-' :: '-' :: rest =>
      let name := String.ofList (rest.takeWhile (· != '='))
      match rest.dropWhile (· != '=') with
      | [] => .long name none
      | _ :: value => .long name (some (String.ofList value))
  | '-' :: letter :: _ => .short letter
  | _ => .plain

def number? (text : String) : Option Nat :=
  let digits := match text.toList with
    | '+' :: rest => rest
    | digits => digits
  if digits ≠ [] ∧ digits.all Char.isDigit then
    let value := digits.foldl (fun n c => 10 * n + (c.toNat - '0'.toNat)) 0
    if value < UInt64.size then some value else none
  else none

inductive Valued where
  | steps
  | hold
  | seed
  deriving DecidableEq, Repr

def Valued.name : Valued → String
  | .steps => "steps"
  | .hold => "hold"
  | .seed => "seed"

inductive LongOption where
  | valued (option : Valued)
  | normalizeShiftFlag
  | freezeTimersWhileWaiting
  | help
  | version
  deriving DecidableEq, Repr

def LongOption.ofName? : String → Option LongOption
  | "steps" => some (.valued .steps)
  | "hold" => some (.valued .hold)
  | "seed" => some (.valued .seed)
  | "normalize-shift-flag" => some .normalizeShiftFlag
  | "freeze-timers-while-waiting" => some .freezeTimersWhileWaiting
  | "help" => some .help
  | "version" => some .version
  | _ => none

inductive Setting (α : Type) where
  | absent
  | incomplete
  | given (value : α)
  deriving DecidableEq, Repr

/-- The options as far as they have been read. -/
structure Draft where
  filename : Option String := none
  steps : Setting Nat := .absent
  hold : Setting String := .absent
  seed : Setting Nat := .absent
  normalizeShiftFlag : Bool := false
  freezeTimersWhileWaiting : Bool := false
  deriving DecidableEq, Repr

namespace Draft

def expect (draft : Draft) : Valued → Draft
  | .steps => { draft with steps := .incomplete }
  | .hold => { draft with hold := .incomplete }
  | .seed => { draft with seed := .incomplete }

def set (draft : Draft) (option : Valued) (text : String) :
    Except UsageError Draft :=
  match option with
  | .hold => .ok { draft with hold := .given text }
  | .steps =>
      match number? text with
      | some n => .ok { draft with steps := .given n }
      | none => .error (.invalidNumber option.name text)
  | .seed =>
      match number? text with
      | some n => .ok { draft with seed := .given n }
      | none => .error (.invalidNumber option.name text)

def setFilename (draft : Draft) (name : String) : Except UsageError Draft :=
  match draft.filename with
  | none => .ok { draft with filename := some name }
  | some _ => .error (.extraFilename name)

def resolve {α : Type} (option : Valued) (setting : Setting α) :
    Except UsageError (Option α) :=
  match setting with
  | .absent => .ok none
  | .incomplete => .error (.missingValue option.name)
  | .given value => .ok (some value)

def finish (draft : Draft) : Except UsageError Request := do
  let steps ← resolve .steps draft.steps
  let hold ← resolve .hold draft.hold
  let seed ← resolve .seed draft.seed
  match draft.filename with
  | none => .error .missingFilename
  | some filename =>
      .ok (.run
        { filename := filename
          steps := steps.getD 600
          hold := hold.getD ""
          seed := seed.map UInt64.ofNat
          normalizeShiftFlag := draft.normalizeShiftFlag
          freezeTimersWhileWaiting := draft.freezeTimersWhileWaiting })

/-- Read the arguments behind a separator, where nothing is an option. -/
def scanPlain (draft : Draft) : List String → Except UsageError Request
  | [] => draft.finish
  | name :: rest => do (← draft.setFilename name).scanPlain rest

/-- Read arguments; `waiting` is the option that still lacks its value. -/
def scan (draft : Draft) (waiting : Option Valued) :
    List String → Except UsageError Request
  | [] => draft.finish
  | text :: rest =>
      match Argument.ofText text with
      | .separator => draft.scanPlain rest
      | .short 'h' => .ok .help
      | .short 'V' => .ok .version
      | .short _ => .error (.unknownOption text)
      | .long name value =>
          match LongOption.ofName? name, value with
          | none, _ => .error (.unknownOption text)
          | some (.valued option), none =>
              (draft.expect option).scan (some option) rest
          | some (.valued option), some value =>
              do (← draft.set option value).scan none rest
          | some _, some _ => .error (.unexpectedValue text)
          | some .normalizeShiftFlag, none =>
              { draft with normalizeShiftFlag := true }.scan none rest
          | some .freezeTimersWhileWaiting, none =>
              { draft with freezeTimersWhileWaiting := true }.scan none rest
          | some .help, none => .ok .help
          | some .version, none => .ok .version
      | .plain =>
          match waiting with
          | some option => do (← draft.set option text).scan none rest
          | none => do (← draft.setFilename text).scan none rest

end Draft

def parse (arguments : List String) : Except UsageError Request :=
  ({} : Draft).scan none arguments

end Chip8.CommandLine
