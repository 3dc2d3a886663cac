import Fabric.Key
/-!
# JSON values

Descriptions are read from JSON and reports are written in it. Numbers are kept as they are
spelt, for no description holds one.
-/

namespace Fabric

inductive Json
  | null
  | bool (b : Bool)
  | number (literal : String)
  | text (s : String)
  | list (items : List Json)
  | record (fields : List (String × Json))
  /-- A text, or a record with a key, whose bytes or escapes are not Unicode. -/
  | garbled
deriving Repr

namespace Json

/-- The absent value is `null`. -/
def ofOption (f : α → Json) : Option α → Json
  | none => null
  | some a => f a

def texts (ss : List String) : Json := list (ss.map text)

/-- A record with a field for each key. -/
def ofTable (t : Table String String) : Json :=
  record (t.toList.map fun entry => (entry.1, text entry.2))

end Json

end Fabric
