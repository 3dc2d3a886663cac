import Fabric.Text.Split
/-!
# File formats

The name of a file tells its format, and an ending `.gz` that it is compressed. Only the last
part of a path is its name: empty parts and single dots are passed over, and a path that
ends in two dots has no name.
-/

namespace Fabric

inductive FileFormat
  | json | yaml
deriving DecidableEq, Repr

namespace FilePath

/-- The parts of a path that count. -/
def segments (path : String) : List String :=
  (Text.parts '/' path).filter fun s => s ≠ "" ∧ s ≠ "."

/-- The name of the file that a path leads to. -/
def fileName? (path : String) : Option String :=
  match (segments path).getLast? with
  | some ".." => none
  | name => name

/-- The text behind the last dot of the name. A name with its only dot in front has none. -/
def extension? (path : String) : Option String :=
  match (fileName? path).bind (Text.cutLast '.') with
  | some ("", _) => none
  | some (_, ext) => some ext
  | none => none

end FilePath

namespace FileFormat

/-- Whether the file is compressed. -/
def isGzipped (path : String) : Bool := FilePath.extension? path = some "gz"

def hasEnding (ending name : List Char) : Bool := ending.isSuffixOf name

/-- The name without one ending `.gz`. -/
def dropGz (name : List Char) : List Char :=
  if hasEnding ".gz".toList name then name.take (name.length - 3) else name

/-- YAML files end in `.yaml` or `.yml`, before a possible `.gz`. All others hold JSON. -/
def ofPath (path : String) : FileFormat :=
  let name := dropGz ((FilePath.fileName? path).getD "").toList
  if hasEnding ".yaml".toList name ∨ hasEnding ".yml".toList name then yaml else json

end FileFormat

end Fabric
