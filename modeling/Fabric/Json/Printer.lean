import Fabric.Json.Basic
/-!
# Writing JSON

Texts are written with the short escapes where there is one, and with `\u` and four
lowercase digits for the other control characters. All other characters stand as they are.
The wide form puts each item on a line of its own, indented by two blanks a level.
-/

namespace Fabric.Json

def hexDigits (n : Nat) : List Char :=
  [Nat.digitChar (n / 16), Nat.digitChar (n % 16)]

def escapeChar (c : Char) : List Char :=
  if c = '"' then ['\\', '"']
  else if c = '\\' then ['\\', '\\']
  else if c = '\u0008' then ['\\', 'b']
  else if c = '\t' then ['\\', 't']
  else if c = '\n' then ['\\', 'n']
  else if c = '\u000c' then ['\\', 'f']
  else if c = '\r' then ['\\', 'r']
  else if c.toNat < 0x20 then ['\\', 'u', '0', '0'] ++ hexDigits c.toNat
  else [c]

def quoted (s : String) : String := "\"" ++ .ofList (s.toList.flatMap escapeChar) ++ "\""

mutual

/-- The narrow form, without blanks. -/
def compact : Json → String
  | null | garbled => "null"
  | bool b => if b then "true" else "false"
  | number s => s
  | text s => quoted s
  | list items => "[" ++ ",".intercalate (compactItems items) ++ "]"
  | record fields => "\x7b" ++ ",".intercalate (compactFields fields) ++ "\x7d"

def compactItems : List Json → List String
  | [] => []
  | v :: vs => v.compact :: compactItems vs

def compactFields : List (String × Json) → List String
  | [] => []
  | (k, v) :: fs => (quoted k ++ ":" ++ v.compact) :: compactFields fs

end

/-- Items between brackets, each on a line of its own, with the closing bracket `indent` deep. -/
def block (opening closing indent : String) : List String → String
  | [] => opening ++ closing
  | lines =>
    opening ++ "\n" ++ ",\n".intercalate (lines.map fun l => indent ++ "  " ++ l) ++
      "\n" ++ indent ++ closing

mutual

/-- The wide form of a value that starts `indent` deep. -/
def wideFrom (indent : String) : Json → String
  | null | garbled => "null"
  | bool b => if b then "true" else "false"
  | number s => s
  | text s => quoted s
  | list items => block "[" "]" indent (wideItems (indent ++ "  ") items)
  | record fields => block "\x7b" "\x7d" indent (wideFields (indent ++ "  ") fields)

def wideItems (indent : String) : List Json → List String
  | [] => []
  | v :: vs => v.wideFrom indent :: wideItems indent vs

def wideFields (indent : String) : List (String × Json) → List String
  | [] => []
  | (k, v) :: fs => (quoted k ++ ": " ++ v.wideFrom indent) :: wideFields indent fs

end

def wide (v : Json) : String := v.wideFrom ""

end Fabric.Json
