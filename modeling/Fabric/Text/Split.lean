/-!
# Splitting at a separator

Resource names are written as paths such as `site/bel/pin`. Every separator splits, so a
path has one part more than it has separators.
-/

namespace Fabric.Text

def partsFrom (sep : Char) (part : List Char) : List Char → List (List Char)
  | [] => [part.reverse]
  | c :: cs =>
    if c = sep then part.reverse :: partsFrom sep [] cs else partsFrom sep (c :: part) cs

/-- The parts of a text between the separators. -/
def parts (sep : Char) (s : String) : List String := (partsFrom sep [] s.toList).map String.ofList

/-- The parts of a `/`-separated path, or their number if it is not the expected one. -/
def splitPath (s : String) (n : Nat) : Except Nat (List String) :=
  let ps := parts '/' s
  if ps.length = n then .ok ps else .error ps.length

/-- Cuts at the first separator. -/
def cutFirst (sep : Char) (s : String) : Option (String × String) :=
  let cs := s.toList
  match cs.dropWhile (· ≠ sep) with
  | [] => none
  | _ :: after => some (String.ofList (cs.takeWhile (· ≠ sep)), String.ofList after)

/-- Cuts at the last separator. -/
def cutLast (sep : Char) (s : String) : Option (String × String) :=
  let cs := s.toList.reverse
  match cs.dropWhile (· ≠ sep) with
  | [] => none
  | _ :: before =>
    some (String.ofList before.reverse, String.ofList (cs.takeWhile (· ≠ sep)).reverse)

def occursIn (part : List Char) : List Char → Bool
  | [] => part.isEmpty
  | c :: cs => part.isPrefixOf (c :: cs) || occursIn part cs

/-- Whether `part` stands somewhere in a text. -/
def contains (s part : String) : Bool := occursIn part.toList s.toList

theorem length_partsFrom (sep : Char) (part cs : List Char) :
    (partsFrom sep part cs).length = cs.count sep + 1 := by
  induction cs generalizing part with
  | nil => rfl
  | cons c cs ih =>
    unfold partsFrom
    split
    · next h => subst h; simp [ih]
    · next h => simp [ih, h]

theorem length_parts (sep : Char) (s : String) :
    (parts sep s).length = s.toList.count sep + 1 := by
  simp [parts, length_partsFrom]

end Fabric.Text
