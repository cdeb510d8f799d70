import Chip8.Display.Basic

/-!
# Pictures of the display

A display as text: one line for each row, `#` for a lit pixel and `.` for a
dark one, every line ended by a line break.
-/

namespace Chip8.Display

def mark (lit : Bool) : Char := if lit then '#' else '.'

def pictureLine (row : Vector Bool 64) : List Char := row.toList.map mark ++ ['\n']

def picture (d : Display) : String :=
  String.ofList (d.rows.toList.flatMap pictureLine)

def describe (d : Display) : String :=
  "Display \x7b " ++ Nat.repr d.litCount ++ " pixels on \x7d"

end Chip8.Display
