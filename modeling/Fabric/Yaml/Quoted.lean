import Fabric.Text.Escape
/-!
# Quoted texts of YAML

A text between double quotes may run over several lines, and then it is folded. The blanks
around line breaks fall away, a lone break becomes a space, and of several the first falls
away. The separators of lines and of paragraphs break a line too, but always stay.
-/

namespace Fabric.Yaml

/-! ## Characters -/

def isBlank (c : Char) : Bool := c = ' ' || c = '\t'

/-- The separators of lines and of paragraphs. -/
def isSeparator (c : Char) : Bool := c = '\u2028' || c = '\u2029'

def isBreak (c : Char) : Bool := c = '\n' || c = '\r' || c = '\u0085' || isSeparator c

def isGap (c : Char) : Bool := isBlank c || isBreak c

/-- The characters that may stand in a document. -/
def isAllowed (c : Char) : Bool :=
  let n := c.toNat
  isGap c || (0x20 ≤ n && n < 0x7f) || (0xa0 ≤ n && n < 0xfffe) || 0x10000 ≤ n

/-! ## Folding -/

/-- The line breaks of a run. All but the separators become line feeds. -/
def breaks : List Char → List Char
  | [] => []
  | '\r' :: '\n' :: cs => '\n' :: breaks cs
  | c :: cs =>
    if isSeparator c then c :: breaks cs
    else if isBreak c then '\n' :: breaks cs
    else breaks cs

/-- What a run of blanks and line breaks stands for. -/
def foldGap (run : List Char) : List Char :=
  match breaks run with
  | [] => run
  | ['\n'] => [' ']
  | '\n' :: more => more
  | kept => kept

/-- A character of a text, or one that belongs to a gap in it. Escaped characters are never
part of a gap. -/
inductive Piece
  | char (c : Char)
  | gap (c : Char)
deriving DecidableEq, Repr

/-- The text that pieces spell behind the beginning of a gap, given last character first. -/
def fold (run : List Char) : List Piece → List Char
  | [] => foldGap run.reverse
  | .gap c :: ps => fold (c :: run) ps
  | .char c :: ps => foldGap run.reverse ++ c :: fold [] ps

/-! ## Reading -/

/-- Whether a line begins as one that parts documents. No text may hold such a line. -/
def partsDocuments : List Char → Bool
  | '-' :: '-' :: '-' :: cs | '.' :: '.' :: '.' :: cs => cs.head?.all isGap
  | _ => false

/-- Reads a text whose opening quote has been read. -/
def scan : List Char → Option (List Piece × List Char)
  | [] => none
  | '"' :: cs => some ([], cs)
  | '\\' :: 'u' :: h₁ :: h₂ :: h₃ :: h₄ :: cs => do
    let c ← Text.ofUnit? (← Text.hexUnit? h₁ h₂ h₃ h₄)
    let (ps, rest) ← scan cs
    return (.char c :: ps, rest)
  | '\\' :: e :: cs => do
    let c ← Text.escape? e
    let (ps, rest) ← scan cs
    return (.char c :: ps, rest)
  | c :: cs => do
    guard (c ≠ '\\' ∧ ¬(isBreak c ∧ partsDocuments cs))
    let (ps, rest) ← scan cs
    return ((if isGap c then .gap c else .char c) :: ps, rest)

/-- Reads a text in double quotes. -/
def quoted? : List Char → Option (String × List Char)
  | '"' :: cs => (scan cs).map fun (ps, rest) => (.ofList (fold [] ps), rest)
  | _ => none

end Fabric.Yaml
