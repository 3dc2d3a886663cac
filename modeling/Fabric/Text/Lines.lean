/-!
# Lines

A line ends at a line feed, which may have one carriage return before it. Characters after
the last line feed form a line of their own, kept as they are.
-/

namespace Fabric.Text

/-- Takes the carriage return off a line that has been read last character first. -/
def dropReturn : List Char → List Char
  | '\r' :: line => line
  | line => line

def linesFrom (line : List Char) : List Char → List (List Char)
  | [] => if line.isEmpty then [] else [line.reverse]
  | '\n' :: cs => (dropReturn line).reverse :: linesFrom [] cs
  | c :: cs => linesFrom (c :: line) cs

/-- The lines of a text, without their ends. -/
def lines (s : String) : List String := (linesFrom [] s.toList).map String.ofList

@[simp] theorem linesFrom_nil_nil : linesFrom [] [] = [] := rfl

@[simp] theorem linesFrom_newline (line cs : List Char) :
    linesFrom line ('\n' :: cs) = (dropReturn line).reverse :: linesFrom [] cs := by
  simp [linesFrom]

theorem linesFrom_cons {c : Char} (h : c ≠ '\n') (line cs : List Char) :
    linesFrom line (c :: cs) = linesFrom (c :: line) cs := by
  rw [linesFrom]
  simpa using h

/-- A text that ends with a line feed splits the lines of what is appended to it. -/
theorem linesFrom_append_newline (line cs ds : List Char) :
    linesFrom line (cs ++ '\n' :: ds) = linesFrom line (cs ++ ['\n']) ++ linesFrom [] ds := by
  induction cs generalizing line with
  | nil => simp
  | cons c cs ih =>
    by_cases h : c = '\n'
    · subst h
      simp [ih]
    · simp [linesFrom_cons h, ih]

end Fabric.Text
