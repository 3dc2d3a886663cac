/-!
# Blank characters and words

The blank characters are those with the Unicode property White_Space. A word is a
maximal run of other characters.
-/

namespace Fabric.Text

/-- The characters with the property White_Space. -/
def blanks : List Char :=
  ['\u0009', '\u000a', '\u000b', '\u000c', '\u000d', '\u0020', '\u0085', '\u00a0', '\u1680',
   '\u2000', '\u2001', '\u2002', '\u2003', '\u2004', '\u2005', '\u2006', '\u2007', '\u2008',
   '\u2009', '\u200a', '\u2028', '\u2029', '\u202f', '\u205f', '\u3000']

def isBlank (c : Char) : Bool := blanks.contains c

/-- Puts a run that has been read, last character first, in front of the runs that follow. -/
def pushRun (run : List Char) (rest : List (List Char)) : List (List Char) :=
  if run.isEmpty then rest else run.reverse :: rest

/-- The maximal runs of characters outside `sep`, with `run` already read. -/
def runsFrom (sep : Char → Bool) (run : List Char) : List Char → List (List Char)
  | [] => pushRun run []
  | c :: cs => if sep c then pushRun run (runsFrom sep [] cs) else runsFrom sep (c :: run) cs

/-- The words of a text, in order. -/
def words (s : String) : List String := (runsFrom isBlank [] s.toList).map String.ofList

end Fabric.Text
