/-!
# Escapes

In quoted texts a backslash and a letter stand for a character that is hard to write, and four
hexadecimal digits behind `\u` for a UTF-16 unit.
-/

namespace Fabric.Text

/-- The character that a short escape stands for, given by its letter. -/
def escape? : Char → Option Char
  | '"' => some '"'
  | '\\' => some '\\'
  | '/' => some '/'
  | 'b' => some '\u0008'
  | 'f' => some '\u000c'
  | 'n' => some '\n'
  | 'r' => some '\r'
  | 't' => some '\t'
  | _ => none

def hexDigit? (c : Char) : Option Nat :=
  if '0' ≤ c && c ≤ '9' then some (c.toNat - '0'.toNat)
  else if 'a' ≤ c && c ≤ 'f' then some (c.toNat - 'a'.toNat + 10)
  else if 'A' ≤ c && c ≤ 'F' then some (c.toNat - 'A'.toNat + 10)
  else none

/-- The UTF-16 unit that four digits spell. -/
def hexUnit? (a b c d : Char) : Option Nat := do
  let high := (← hexDigit? a) * 16 + (← hexDigit? b)
  let low := (← hexDigit? c) * 16 + (← hexDigit? d)
  return high * 256 + low

def isHighSurrogate (u : Nat) : Bool := 0xd800 ≤ u && u < 0xdc00

def isLowSurrogate (u : Nat) : Bool := 0xdc00 ≤ u && u < 0xe000

/-- The character that a unit stands for on its own. -/
def ofUnit? (u : Nat) : Option Char :=
  if isHighSurrogate u || isLowSurrogate u then none else some (.ofNat u)

/-- The character that two units stand for together. -/
def ofUnitPair? (u v : Nat) : Option Char :=
  if isHighSurrogate u && isLowSurrogate v then
    some (.ofNat (0x10000 + (u - 0xd800) * 0x400 + (v - 0xdc00)))
  else none

end Fabric.Text
