import Fabric.Json.Basic
import Fabric.Text.Escape
/-!
# Reading JSON

The reader works on bytes, for a text that nobody asks for may hold anything: a string is
decoded as far as it goes and is `garbled` when it is not Unicode. It refuses what is not
JSON: other blanks than the four, leading zeros, raw control characters, trailing commas,
and anything behind the value.
-/

namespace Fabric.Json

/-- A step reads from the front of the bytes and leaves the rest, or fails. -/
abbrev Reader := StateT (List UInt8) Option

namespace Reader

def isBlankByte (b : UInt8) : Bool := b = 0x20 || b = 0x0a || b = 0x0d || b = 0x09

def isDigit (b : UInt8) : Bool := 0x30 ≤ b && b ≤ 0x39

def skipBlanks : Reader Unit := modify (·.dropWhile isBlankByte)

/-! ## Strings -/

/-- A byte of a string, or a UTF-16 unit that an escape names. -/
inductive Piece
  | byte (b : UInt8)
  | unit (u : Nat)
deriving DecidableEq, Repr

def charOf (b : UInt8) : Char := .ofNat b.toNat

/-- Reads a string whose opening quote has been read. -/
def scanString : List UInt8 → Option (List Piece × List UInt8)
  | [] => none
  | 0x22 :: bs => some ([], bs)
  | 0x5c :: 0x75 :: h₁ :: h₂ :: h₃ :: h₄ :: bs => do
    let u ← Text.hexUnit? (charOf h₁) (charOf h₂) (charOf h₃) (charOf h₄)
    let (ps, rest) ← scanString bs
    return (.unit u :: ps, rest)
  | 0x5c :: e :: bs => do
    let c ← Text.escape? (charOf e)
    let (ps, rest) ← scanString bs
    return (.byte (.ofNat c.toNat) :: ps, rest)
  | b :: bs => do
    guard (0x20 ≤ b ∧ b ≠ 0x5c)
    let (ps, rest) ← scanString bs
    return (.byte b :: ps, rest)

/-- The bytes of a string. A surrogate has to be the first or second of a pair. -/
def pieceBytes? : List Piece → Option (List UInt8)
  | [] => some []
  | .byte b :: ps => (pieceBytes? ps).map (b :: ·)
  | .unit u :: ps =>
    match Text.ofUnit? u with
    | some c => (pieceBytes? ps).map (String.utf8EncodeChar c ++ ·)
    | none =>
      match ps with
      | .unit v :: qs => do
        let c ← Text.ofUnitPair? u v
        return String.utf8EncodeChar c ++ (← pieceBytes? qs)
      | _ => none

/-- The text that a string spells, if it is Unicode. -/
def pieceText? (ps : List Piece) : Option String :=
  (pieceBytes? ps).bind fun bs => String.fromUTF8? ⟨bs.toArray⟩

/-! ## Numbers -/

/-- At least one digit. -/
def digits : Reader (List UInt8) := fun bs =>
  match bs.takeWhile isDigit with
  | [] => none
  | ds => some (ds, bs.dropWhile isDigit)

/-- The next byte if it is one of `choices`. -/
def oneOf? (choices : List UInt8) : Reader (List UInt8)
  | [] => some ([], [])
  | b :: bs => if choices.contains b then some ([b], bs) else some ([], b :: bs)

/-- A number, as it is spelt. -/
def number : Reader String := do
  let sign ← oneOf? [0x2d]
  let whole ← digits
  guard (whole.head? ≠ some 0x30 ∨ whole.length = 1)
  let point ← oneOf? [0x2e]
  let fraction ← if point.isEmpty then pure [] else digits
  let mark ← oneOf? [0x65, 0x45]
  let exponentSign ← if mark.isEmpty then pure [] else oneOf? [0x2b, 0x2d]
  let exponent ← if mark.isEmpty then pure [] else digits
  let spelt := sign ++ whole ++ point ++ fraction ++ mark ++ exponentSign ++ exponent
  return .ofList (spelt.map charOf)

/-! ## Values -/

def word (w : String) : Reader Unit := fun bs => (w.toUTF8.toList.isPrefixOf? bs).map ((), ·)

def ofFields (fields : List (Option String × Json)) : Json :=
  match fields.mapM fun (k, v) => k.map (·, v) with
  | some fields => record fields
  | none => garbled

mutual

/-- Reads a value. Every value takes a byte at least, so the number of bytes bounds the depth. -/
def value : Nat → Reader Json
  | 0 => failure
  | depth + 1 => do
    match ← get with
    | [] => failure
    | 0x22 :: bs =>
      set bs
      return (pieceText? (← scanString)).elim garbled text
    | 0x5b :: bs =>
      set bs
      return list (← items depth true)
    | 0x7b :: bs =>
      set bs
      return ofFields (← fields depth true)
    | _ => (word "null" *> pure null) <|> (word "true" *> pure (bool true)) <|>
        (word "false" *> pure (bool false)) <|> Json.number <$> Json.Reader.number

/-- Reads items up to the closing bracket. Only before the first may the list end at once. -/
def items : Nat → Bool → Reader (List Json)
  | 0, _ => failure
  | depth + 1, atStart => do
    skipBlanks
    match ← get with
    | 0x5d :: bs =>
      guard atStart
      set bs
      return []
    | _ =>
      let v ← value depth
      skipBlanks
      match ← get with
      | 0x5d :: bs =>
        set bs
        return [v]
      | 0x2c :: bs =>
        set bs
        return v :: (← items depth false)
      | _ => failure

/-- Reads fields up to the closing brace. Only before the first may the record end at once. -/
def fields : Nat → Bool → Reader (List (Option String × Json))
  | 0, _ => failure
  | depth + 1, atStart => do
    skipBlanks
    match ← get with
    | 0x7d :: bs =>
      guard atStart
      set bs
      return []
    | 0x22 :: bs =>
      set bs
      let key := pieceText? (← scanString)
      skipBlanks
      match ← get with
      | 0x3a :: bs =>
        set bs
        skipBlanks
        let v ← value depth
        skipBlanks
        match ← get with
        | 0x7d :: bs =>
          set bs
          return [(key, v)]
        | 0x2c :: bs =>
          set bs
          return (key, v) :: (← fields depth false)
        | _ => failure
      | _ => failure
    | _ => failure

end

end Reader

/-- The value that the bytes spell, with blanks on both sides. -/
def ofBytes? (bs : List UInt8) : Option Json :=
  let document : Reader Json := do
    Reader.skipBlanks
    let v ← Reader.value (2 * bs.length + 1)
    Reader.skipBlanks
    return v
  match document bs with
  | some (v, []) => some v
  | _ => none

end Fabric.Json
