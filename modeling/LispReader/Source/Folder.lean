import LispReader.Source.Basic

/-!
# Folders

Files and directories held in memory, reached by paths as on a disk. Nothing is known of what lies
outside the folder but that it is a directory.
-/

namespace LispReader

/-- Why a file could not be read. -/
inductive ReadError where
  | missing
  | isDirectory
  | notDirectory
  | notText
  | other (details : String)
deriving DecidableEq

def ReadError.details : ReadError → String
  | .missing => "No such file or directory (os error 2)"
  | .isDirectory => "Is a directory (os error 21)"
  | .notDirectory => "Not a directory (os error 20)"
  | .notText => "stream did not contain valid UTF-8"
  | .other details => details

def ReadError.message (path : String) (e : ReadError) : String :=
  "Error reading " ++ path ++ ": " ++ e.details

namespace Folder

inductive Node where
  | directory
  | file (content : ByteArray)

end Folder

/-- Nodes under their paths from the top, a later one in the place of an earlier. -/
structure Folder where
  nodes : List (List String × Folder.Node)

namespace Folder

def empty : Folder := ⟨[]⟩

def parts (path : String) : List String :=
  (path.splitOn "/").filter fun part => part ≠ "" ∧ part ≠ "."

def add (folder : Folder) (path : String) (node : Node) : Folder :=
  ⟨folder.nodes ++ [(parts path, node)]⟩

/-- Where a walk along a path has come to; the names are those from the top down, last one first. -/
inductive Location where
  | outside
  | directory (names : List String)
  | file (content : ByteArray)

/-- The node of this name in a directory. -/
def child (folder : Folder) (names : List String) (name : String) : Except ReadError Location :=
  match folder.nodes.reverse.lookup (name :: names).reverse with
  | none => .error .missing
  | some .directory => .ok (.directory (name :: names))
  | some (.file content) => .ok (.file content)

/-- One part of a path further. -/
def step (folder : Folder) (location : Location) (part : String) : Except ReadError Location :=
  match location with
  | .file _ => .error .notDirectory
  | .outside => if part ∈ ["", ".", ".."] then .ok .outside else .error .missing
  | .directory names =>
    if part ∈ ["", "."] then .ok (.directory names)
    else if part = ".." then
      match names with
      | [] => .ok .outside
      | _ :: above => .ok (.directory above)
    else folder.child names part

/-- The bytes of the file at `path`. -/
def readBytes (folder : Folder) (path : String) : Except ReadError ByteArray := do
  if path = "" then throw .missing
  let top := if path.startsWith "/" then Location.outside else .directory []
  match ← (path.splitOn "/").foldlM folder.step top with
  | .file content => pure content
  | _ => throw .isDirectory

end Folder

/-- The text that bytes encode. -/
def decodeText (bytes : ByteArray) : Except ReadError String :=
  match String.fromUTF8? bytes with
  | some text => .ok text
  | none => .error .notText

/-- The text of the file at `path`, which also names it. -/
def Folder.read (folder : Folder) (path : String) : Except ReadError Source := do
  pure ⟨path, ← decodeText (← folder.readBytes path)⟩

end LispReader
