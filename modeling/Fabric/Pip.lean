import Fabric.Key
/-!
# Enabled PIPs

A routing record lists the PIPs of a route as tokens `tile/type.SOURCE->SINK`. A PIP is
the pair of full wire names that such a token names, and a two-way arrow names both
directions.
-/

namespace Fabric

/-- A programmable connection between two wires, each written `tile/wire`. -/
@[ext] structure Pip where
  source : String
  sink : String
deriving DecidableEq, Repr

namespace Pip

instance : Ord Pip := ⟨compareLex (compareOn source) (compareOn sink)⟩

instance : Std.TransOrd Pip :=
  inferInstanceAs (Std.TransCmp (compareLex (compareOn source) (compareOn sink)))

theorem compare_def (a b : Pip) :
    compare a b = (compare a.source b.source).then (compare a.sink b.sink) := rfl

instance : Std.LawfulEqOrd Pip where
  eq_of_compare {a b} h := by
    rw [compare_def, Ordering.then_eq_eq] at h
    exact Pip.ext (Std.LawfulEqOrd.eq_of_compare h.1) (Std.LawfulEqOrd.eq_of_compare h.2)

def reverse (p : Pip) : Pip := ⟨p.sink, p.source⟩

end Pip

/-! ## Tokens -/

inductive Arrow
  | twoWayBuffered | twoWay | buffered | plain
deriving DecidableEq, Repr

namespace Arrow

/-- The order in which arrows are tried. -/
def all : List Arrow := [twoWayBuffered, twoWay, buffered, plain]

def text : Arrow → String
  | twoWayBuffered => "<<->>"
  | twoWay => "<->"
  | buffered => "->>"
  | plain => "->"

def isTwoWay : Arrow → Bool
  | twoWayBuffered | twoWay => true
  | buffered | plain => false

/-- The first arrow that the text starts with, if a rest of one line follows it. -/
def read? (cs : List Char) : Option (Arrow × List Char) :=
  all.findSome? fun a =>
    match a.text.toList.isPrefixOf? cs with
    | some rest => if rest ≠ [] ∧ '\n' ∉ rest then some (a, rest) else none
    | none => none

end Arrow

structure PipToken where
  tile : String
  tileType : String
  source : String
  arrow : Arrow
  sink : String
deriving DecidableEq, Repr

namespace PipToken

/-- Cuts at the first place behind at least one character where an arrow is read. -/
def cutArrow? (source : List Char) : List Char → Option (List Char × Arrow × List Char)
  | [] => none
  | c :: cs =>
    if c = '\n' then none
    else
      match Arrow.read? cs with
      | some (a, sink) => some ((c :: source).reverse, a, sink)
      | none => cutArrow? (c :: source) cs

/-- Reads a token. The tile ends at the first slash, its type at the next dot. -/
def read? (token : String) : Option PipToken :=
  let cs := token.toList
  let tile := cs.takeWhile (· ≠ '/')
  let afterTile := (cs.dropWhile (· ≠ '/')).drop 1
  let tileType := afterTile.takeWhile (· ≠ '.')
  let afterType := (afterTile.dropWhile (· ≠ '.')).drop 1
  if tile = [] ∨ tileType = [] then none
  else
    (cutArrow? [] afterType).map fun (source, arrow, sink) =>
      ⟨.ofList tile, .ofList tileType, .ofList source, arrow, .ofList sink⟩

def text (t : PipToken) : String :=
  t.tile ++ "/" ++ t.tileType ++ "." ++ t.source ++ t.arrow.text ++ t.sink

/-- The PIP from source to sink. -/
def forward (t : PipToken) : Pip := ⟨t.tile ++ "/" ++ t.source, t.tile ++ "/" ++ t.sink⟩

/-- The PIPs that the token enables. -/
def pips (t : PipToken) : List Pip :=
  if t.arrow.isTwoWay then [t.forward.reverse, t.forward] else [t.forward]

end PipToken

/-! ## Sets of PIPs -/

/-- The PIPs that a route may use. -/
structure PipSet where
  pips : KeySet Pip

namespace PipSet

def empty : PipSet := ⟨∅⟩

def add (s : PipSet) (p : Pip) : PipSet := ⟨s.pips.insert p⟩

def contains (s : PipSet) (p : Pip) : Bool := s.pips.contains p

def size (s : PipSet) : Nat := s.pips.size

def isEmpty (s : PipSet) : Bool := s.pips.isEmpty

/-- The wires that PIPs lead to from a wire, in order. -/
def sinks (s : PipSet) (source : String) : List String :=
  (s.pips.toList.filter fun p => p.source = source).map Pip.sink

/-- Adds what a token enables. A token that cannot be read is the error. -/
def addToken (s : PipSet) (token : String) : Except String PipSet :=
  match PipToken.read? token with
  | some t => .ok (t.pips.foldl add s)
  | none => .error token

def ofTokens (tokens : List String) : Except String PipSet := tokens.foldlM addToken empty

theorem contains_add (s : PipSet) (p q : Pip) :
    (s.add p).contains q = (p == q || s.contains q) := by
  simp only [add, contains, Std.ExtTreeSet.contains_insert]
  congr 1
  exact Bool.eq_iff_iff.2 (by simp [Std.LawfulEqCmp.compare_eq_iff_eq])

end PipSet

end Fabric
