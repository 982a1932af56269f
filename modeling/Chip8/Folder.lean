/-! A folder of files in memory, for sessions that have no disk. Paths are walked part by part.
The folders around the folder are there but show no files. -/

namespace Chip8

inductive FileProblem
  | missing
  | notFolder
  | isFolder
  | nameTooLong
  | other (message : String)
deriving DecidableEq

def FileProblem.message : FileProblem → String
  | missing => "No such file or directory (os error 2)"
  | notFolder => "Not a directory (os error 20)"
  | isFolder => "Is a directory (os error 21)"
  | nameTooLong => "File name too long (os error 36)"
  | other message => message

structure Folder where
  files : List (String × Array UInt8)

namespace Folder

inductive Spot
  | inside
  | outside
  | file (bytes : Array UInt8)

def walkPart (f : Folder) : Spot → String → Except FileProblem Spot
  | .file _, _ => .error .notFolder
  | spot, "" => .ok spot
  | spot, "." => .ok spot
  | _, ".." => .ok .outside
  | .outside, name => .error (if 255 < name.utf8ByteSize then .nameTooLong else .missing)
  | .inside, name =>
    match f.files.lookup name with
    | some bytes => .ok (.file bytes)
    | none => .error (if 255 < name.utf8ByteSize then .nameTooLong else .missing)

def walk (f : Folder) : Spot → List String → Except FileProblem Spot
  | spot, [] => .ok spot
  | spot, part :: rest => (f.walkPart spot part).bind fun next => f.walk next rest

def read (f : Folder) (path : String) : Except FileProblem (Array UInt8) :=
  let start := if path.toList.head? = some '/' then Spot.outside else Spot.inside
  if 4096 ≤ path.utf8ByteSize then .error .nameTooLong
  else
    match f.walk start (path.splitOn "/") with
    | .ok (.file bytes) => .ok bytes
    | .ok _ => .error .isFolder
    | .error problem => .error problem

end Folder

end Chip8
