import Fabric.RouteText.Basic
import Fabric.RouteText.Token
/-!
# Reading written routes

A group is a brace, a name, names and groups in any order, and the closing brace. Outside
groups only quotes and parentheses may stand, which tie the groups of a constant net together
and carry no meaning of their own.
-/

namespace Fabric

inductive RouteTextError
  | unexpectedEnd
  | unexpectedToken (t : RouteToken)
  | emptyGroup
deriving DecidableEq, Repr

def RouteTextError.message : RouteTextError → String
  | unexpectedEnd => "Unexpected end of route string"
  | unexpectedToken t => "Unexpected token \"" ++ t.text ++ "\" in route string"
  | emptyGroup => "Empty route group"

namespace RouteText

/-- What a step reads from the tokens `ts`, with the tokens left. A step reads at least one. -/
abbrev Read (α : Type) (ts : List RouteToken) :=
  Except RouteTextError (α × { rest : List RouteToken // rest.length < ts.length })

mutual

/-- Reads a group whose opening brace has been read. -/
def readGroup (ts : List RouteToken) : Read RouteText ts :=
  match ts with
  | [] => .error .unexpectedEnd
  | .closeBrace :: _ => .error .emptyGroup
  | .name w :: ts => do
    let (cs, ⟨rest, _⟩) ← readChildren ts
    return (⟨w, cs⟩, ⟨rest, by grind⟩)
  | .openBrace :: ts => do
    let _ ← readGroup ts
    .error (.unexpectedToken .openBrace)
  | t :: _ => .error (.unexpectedToken t)
termination_by ts.length

/-- Reads the children of the wire that has just been read, to the end of its group. The next
name of the group is the last of them. -/
def readChildren (ts : List RouteToken) : Read (List RouteText) ts :=
  match ts with
  | [] => .error .unexpectedEnd
  | .closeBrace :: ts => .ok ([], ⟨ts, by grind⟩)
  | .name w :: ts => do
    let (cs, ⟨rest, _⟩) ← readChildren ts
    return ([⟨w, cs⟩], ⟨rest, by grind⟩)
  | .openBrace :: ts => do
    let (c, ⟨mid, _⟩) ← readGroup ts
    let (cs, ⟨rest, _⟩) ← readChildren mid
    return (c :: cs, ⟨rest, by grind⟩)
  | t :: _ => .error (.unexpectedToken t)
termination_by ts.length

end

/-- Reads all groups. -/
def readGroups (ts : List RouteToken) : Except RouteTextError (List RouteText) :=
  match ts with
  | [] => .ok []
  | .quote :: ts => readGroups ts
  | .openParen :: ts => readGroups ts
  | .closeParen :: ts => readGroups ts
  | .openBrace :: ts => do
    let (t, ⟨rest, _⟩) ← readGroup ts
    return t :: (← readGroups rest)
  | t :: _ => .error (.unexpectedToken t)
termination_by ts.length

/-- The groups of a text, in order. -/
def parseAll (s : String) : Except RouteTextError (List RouteText) := readGroups (RouteToken.scan s)

/-- The first group of a text all of whose groups can be read. -/
def parse (s : String) : Except RouteTextError RouteText := do
  match ← parseAll s with
  | [] => .error .unexpectedEnd
  | t :: _ => .ok t

end RouteText

end Fabric
