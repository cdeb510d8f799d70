import Chip8.ByteSource

/-!
# Files

The files that a program may be read from, as a tree, and how a path leads to
one of them.  Directories can be opened like files but not read.  Outside the
working directory nothing is known: there everything is an empty directory.
-/

namespace Chip8.CommandLine

inductive FileTree where
  | file (bytes : List UInt8)
  | directory (entries : List (String × FileTree))

inductive PathError where
  | notFound
  | notADirectory
  | nameTooLong
  deriving DecidableEq, Repr

def PathError.message : PathError → String
  | .notFound => "No such file or directory (os error 2)"
  | .notADirectory => "Not a directory (os error 20)"
  | .nameTooLong => "File name too long (os error 36)"

namespace FileTree

/-- Follow a path from `place`, which lies in the directories `above`. -/
def follow (place : FileTree) (above : List FileTree) :
    List String → Except PathError FileTree
  | [] => .ok place
  | name :: rest =>
      match place with
      | .file _ => .error .notADirectory
      | .directory entries =>
          if name = "" ∨ name = "." then place.follow above rest
          else if name = ".." then
            match above with
            | [] => place.follow [] rest
            | parent :: further => parent.follow further rest
          else if 255 < name.utf8ByteSize then .error .nameTooLong
          else
            match entries.lookup name with
            | none => .error .notFound
            | some inner => inner.follow (place :: above) rest

def find (working : FileTree) (path : String) : Except PathError FileTree :=
  let outside := FileTree.directory []
  if path = "" then .error .notFound
  else if 4096 ≤ path.utf8ByteSize then .error .nameTooLong
  else if path.startsWith "/" then outside.follow [] (path.splitOn "/")
  else working.follow [outside] (path.splitOn "/")

def source : FileTree → ByteSource
  | .file bytes => { pending := bytes }
  | .directory _ =>
      { pending := [], breakdown := some ⟨0, "Is a directory (os error 21)"⟩ }

def openPath (working : FileTree) (path : String) : Except String ByteSource :=
  match working.find path with
  | .error error => .error error.message
  | .ok found => .ok found.source

end FileTree

end Chip8.CommandLine
