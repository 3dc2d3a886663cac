import Fabric.Text.Blank
/-!
# Tokens of a written route

Braces, parentheses and quotes stand for themselves, also without blanks around them. A
name is a maximal run of other characters that are not blank.
-/

namespace Fabric

inductive RouteToken
  | openBrace | closeBrace | openParen | closeParen | quote
  | name (text : String)
deriving DecidableEq, Repr

namespace RouteToken

def ofChar? : Char → Option RouteToken
  | '\x7b' => some openBrace
  | '\x7d' => some closeBrace
  | '(' => some openParen
  | ')' => some closeParen
  | '"' => some quote
  | _ => none

def text : RouteToken → String
  | openBrace => "\x7b"
  | closeBrace => "\x7d"
  | openParen => "("
  | closeParen => ")"
  | quote => "\""
  | name s => s

/-- Puts a name that has been read, last character first, in front of the tokens that follow. -/
def pushName (run : List Char) (rest : List RouteToken) : List RouteToken :=
  if run.isEmpty then rest else name (.ofList run.reverse) :: rest

/-- The tokens of a text, the start `run` of a name having been read. -/
def scanFrom (run : List Char) : List Char → List RouteToken
  | [] => pushName run []
  | c :: cs =>
    match ofChar? c with
    | some t => pushName run (t :: scanFrom [] cs)
    | none => if Text.isBlank c then pushName run (scanFrom [] cs) else scanFrom (c :: run) cs

def scan (s : String) : List RouteToken := scanFrom [] s.toList

/-- The tokens with one blank between neighbours. -/
def join (ts : List RouteToken) : String := " ".intercalate (ts.map text)

/-- A character that can stand in a name. -/
def isNameChar (c : Char) : Bool := (ofChar? c).isNone && !Text.isBlank c

/-- A text that is read back as one name. -/
def IsName (s : String) : Prop := s ≠ "" ∧ ∀ c ∈ s.toList, isNameChar c

instance (s : String) : Decidable (IsName s) :=
  decidable_of_iff (s ≠ "" ∧ s.toList.all isNameChar) (by simp [IsName])

end RouteToken

end Fabric
