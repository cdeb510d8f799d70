import Chip8.Keypad

/-!
# Keys of a keyboard

The sixteen keys lie on the left block of a keyboard, four rows of four, in
the arrangement of the hexadecimal keypad: `1234`, `QWER`, `ASDF` and `ZXCV`
stand for `123C`, `456D`, `789E` and `A0BF`.  Letters count in either case.
-/

namespace Chip8.Keyboard

def keyFor (c : Char) : Option Key :=
  match c.toLower with
  | '1' => Key.ofCode? 0x1
  | '2' => Key.ofCode? 0x2
  | '3' => Key.ofCode? 0x3
  | '4' => Key.ofCode? 0xC
  | 'q' => Key.ofCode? 0x4
  | 'w' => Key.ofCode? 0x5
  | 'e' => Key.ofCode? 0x6
  | 'r' => Key.ofCode? 0xD
  | 'a' => Key.ofCode? 0x7
  | 's' => Key.ofCode? 0x8
  | 'd' => Key.ofCode? 0x9
  | 'f' => Key.ofCode? 0xE
  | 'z' => Key.ofCode? 0xA
  | 'x' => Key.ofCode? 0x0
  | 'c' => Key.ofCode? 0xB
  | 'v' => Key.ofCode? 0xF
  | _ => none

structure Unbound where
  character : Char
  deriving DecidableEq, Repr

def Unbound.message (error : Unbound) : String :=
  "key '" ++ String.singleton error.character ++ "' is not bound to any chip-8 key"

def press (pad : Keypad) : List Char → Except Unbound Keypad
  | [] => .ok pad
  | c :: rest =>
      match keyFor c with
      | none => .error ⟨c⟩
      | some key => press (pad.set key true) rest

def heldKeys (text : String) : Except Unbound Keypad := press .released text.toList

end Chip8.Keyboard
