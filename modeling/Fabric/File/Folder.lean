import Fabric.File.Access
import Fabric.Text.Split
/-!
# Folders held in memory

A folder is a list of files under relative paths, the latest first. Every folder on the way
to a file exists, and so do those above. A path is followed segment by segment, and
all places that it passes have to be folders.
-/

namespace Fabric

/-- A place by the segments on the way to it, which begin with two dots for each level above. -/
abbrev Place := List String

structure Folder where
  files : List (Place × List UInt8)

namespace Folder

/-- The longest segment in bytes. -/
def maxSegment : Nat := 255

/-- The longest path in bytes. -/
def maxPath : Nat := 4095

/-- Where a segment leads from a folder. An empty one, and a single dot, stay there. -/
def enter (place : Place) (segment : String) : Place :=
  if segment = "" ∨ segment = "." then place
  else if segment ≠ ".." ∨ place.all (· = "..") then place ++ [segment]
  else place.dropLast

/-- Where a path leads when all places that it passes are folders. -/
def resolve (path : String) : Place := (Text.parts '/' path).foldl enter []

variable (f : Folder)

def find? (place : Place) : Option (List UInt8) := f.files.lookup place

/-- Whether there is a folder at a place. -/
def isFolder (place : Place) : Bool :=
  place.all (· = "..") || f.files.any fun (p, _) => place.isPrefixOf p && p ≠ place

/-- Goes one segment further. -/
def step (place : Place) (segment : String) : Except FileFault Place :=
  if !f.isFolder place then .error (if (f.find? place).isSome then .notAFolder else .noSuchFile)
  else if maxSegment < segment.utf8ByteSize then .error .nameTooLong
  else .ok (enter place segment)

/-- Follows the segments of a path. -/
def follow (path : String) (segments : List String) : Except FileFault Place :=
  if path.toList.contains '\u0000' then .error .zeroInPath
  else if path = "" then .error .noSuchFile
  else if maxPath < path.utf8ByteSize then .error .nameTooLong
  else segments.foldlM f.step []

def read (mapped : Bool) (path : String) : Except FileError (List UInt8) := do
  let place ← (f.follow path (Text.parts '/' path)).mapError .cannotOpen
  match f.find? place with
  | some content => return content
  | none =>
    if f.isFolder place then .error (.cannotRead (if mapped then .noSuchDevice else .isAFolder))
    else .error (.cannotOpen .noSuchFile)

/-- The segments that lead to a file to be written. A path that ends in a slash can only name a
folder, and then it does not matter which. -/
def writeSegments (path : String) : List String :=
  let names := (Text.parts '/' path).filter (· ≠ "")
  if path.toList.getLast? = some '/' then names.dropLast ++ ["."] else names

def write (path content : String) : Except FileFault Folder := do
  let place ← f.follow path (writeSegments path)
  if f.isFolder place then .error .isAFolder
  else return ⟨(place, content.toUTF8.toList) :: f.files⟩

/-- A folder as a place to run the program in. -/
def access : FileAccess (StateM Folder) where
  read mapped path := return (← get).read mapped path
  write path content := do
    match (← get).write path content with
    | .ok f =>
      set f
      return .ok ()
    | .error fault => return .error fault

end Folder

end Fabric
