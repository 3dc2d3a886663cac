import Fabric.Json.Reader
import Fabric.Yaml.Quoted
/-!
# Reading YAML

Of YAML the flow forms with quoted keys are read, which spell values as JSON does. They differ
from JSON in their texts and characters, in that a key has to stand close to its colon, and in
that outside all brackets no tab may begin a line.
-/

namespace Fabric.Yaml

/-- A step reads from the front of the text and leaves the rest, or fails. -/
abbrev Reader := StateT (List Char) Option

namespace Reader

def skipGap : Reader Unit := modify (·.dropWhile isGap)

/-- Skips the blanks at the beginning of lines outside all brackets, and the line breaks. -/
def skipIndents : Reader Unit := modify (·.dropWhile fun c => c = ' ' || isBreak c)

/-- How many bytes before its colon a key may begin. -/
def maxKey : Nat := 1024

/-- Reads a key and its colon, which have to stand on one line. -/
def key : Reader String := fun cs => do
  let near := (cs.take (maxKey + 1)).takeWhile fun c => !isBreak c
  let (name, behind) ← quoted? near
  match behind.dropWhile isBlank with
  | ':' :: rest =>
    let before := near.take (near.length - rest.length - 1)
    guard ((String.ofList before).utf8ByteSize ≤ maxKey)
    return (name, cs.drop (before.length + 1))
  | _ => none

def isBracket (c : Char) : Bool := c = '[' || c = ']' || c = '\x7b' || c = '\x7d'

/-- Reads a number or a word, up to a gap, a comma or a bracket. -/
def plain : Reader Json := fun cs => do
  let isInside (c : Char) : Bool := !(isGap c || c = ',' || isBracket c)
  let v ← Json.ofBytes? (String.ofList (cs.takeWhile isInside)).toUTF8.toList
  return (v, cs.dropWhile isInside)

mutual

/-- Reads a value. Every value takes a character at least, so the length bounds the depth. -/
def value : Nat → Reader Json
  | 0 => failure
  | depth + 1 => do
    match ← get with
    | '"' :: _ => return .text (← (quoted? : Reader String))
    | '[' :: cs =>
      set cs
      return .list (← items depth true)
    | '\x7b' :: cs =>
      set cs
      return .record (← fields depth true)
    | _ => plain

/-- Reads items up to the closing bracket. Only before the first may the list end at once. -/
def items : Nat → Bool → Reader (List Json)
  | 0, _ => failure
  | depth + 1, atStart => do
    skipGap
    match ← get with
    | ']' :: cs =>
      guard atStart
      set cs
      return []
    | _ =>
      let v ← value depth
      skipGap
      match ← get with
      | ']' :: cs =>
        set cs
        return [v]
      | ',' :: cs =>
        set cs
        return v :: (← items depth false)
      | _ => failure

/-- Reads fields up to the closing brace. Only before the first may the record end at once. -/
def fields : Nat → Bool → Reader (List (String × Json))
  | 0, _ => failure
  | depth + 1, atStart => do
    skipGap
    match ← get with
    | '\x7d' :: cs =>
      guard atStart
      set cs
      return []
    | _ =>
      let name ← key
      skipGap
      let v ← value depth
      skipGap
      match ← get with
      | '\x7d' :: cs =>
        set cs
        return [(name, v)]
      | ',' :: cs =>
        set cs
        return (name, v) :: (← fields depth false)
      | _ => failure

end

/-- Reads a document, which may begin with a byte order mark. -/
def document (depth : Nat) : Reader Json := do
  modify fun
    | '\ufeff' :: cs => cs
    | cs => cs
  skipIndents
  let v ← value depth
  modify (·.dropWhile isBlank)
  skipIndents
  return v

end Reader

/-- The value that the bytes spell, with gaps on both sides. -/
def ofBytes? (bs : List UInt8) : Option Json := do
  let text ← String.fromUTF8? ⟨bs.toArray⟩
  guard (text.toList.all isAllowed)
  match Reader.document (2 * bs.length + 1) text.toList with
  | some (v, []) => some v
  | _ => none

end Fabric.Yaml
