/-!
# Deflated data

A deflate stream is a row of blocks, stored as they are or written in two Huffman codes: one
for bytes and lengths of repetitions, one for how far back these begin.
-/

namespace Fabric.Gzip

inductive GzipError
  | invalidHeader
  | fieldTooLong
  | unexpectedEnd
  | incompleteData
  | corruptData
  | checksumMismatch
deriving DecidableEq, Repr

def GzipError.message : GzipError → String
  | invalidHeader => "invalid gzip header"
  | fieldTooLong => "gzip header field too long"
  | unexpectedEnd => "unexpected end of file"
  | incompleteData => "incomplete deflate stream"
  | corruptData => "corrupt deflate stream"
  | checksumMismatch => "corrupt gzip stream does not have a matching checksum"

/-- The data, the number of its bits that have been read, and what they stand for. -/
structure Inflater where
  data : ByteArray
  position : Nat := 0
  output : ByteArray := .empty

abbrev InflateM := StateT Inflater (Except GzipError)

/-! ## Bits -/

/-- The next bit. Each byte has its lowest bit first. -/
def bit : InflateM Nat := do
  let s ← get
  match s.data[s.position / 8]? with
  | none => throw .incompleteData
  | some b =>
    set { s with position := s.position + 1 }
    return b.toNat >>> (s.position % 8) % 2

/-- A number of `n` bits, the lowest first. -/
def bits : Nat → InflateM Nat
  | 0 => return 0
  | n + 1 => do
    let b ← bit
    return b + 2 * (← bits n)

/-- Goes on at the next whole byte. -/
def align : InflateM Unit := modify fun s => { s with position := (s.position + 7) / 8 * 8 }

def emit (b : UInt8) : InflateM Unit := modify fun s => { s with output := s.output.push b }

/-- The byte that stands `distance` bytes before the end. Only zeros stand before the first. -/
def byteBack (out : ByteArray) (distance : Nat) : UInt8 :=
  if out.size < distance then 0 else out[out.size - distance]?.getD 0

/-- Repeats `n` bytes of the output from `distance` bytes back. -/
def copy (distance : Nat) : Nat → InflateM Unit
  | 0 => return
  | n + 1 => do
    emit (byteBack (← get).output distance)
    copy distance n

/-! ## Codes -/

/-- The longest code word. -/
def maxLength : Nat := 15

/-- A canonical code: how many words there are of each length from one, and the symbols in the
order of their words. -/
structure Code where
  counts : List Nat
  symbols : Array Nat

/-- How many patterns of the longest length begin with a word. -/
def usedPatterns (counts : List Nat) : Nat :=
  counts.zipIdx.foldl (fun used (n, l) => used + n <<< (maxLength - 1 - l)) 0

/-- The code in which symbol `i` has a word of `lengths[i]` bits, or none for zero. -/
def Code.ofLengths (lengths : List Nat) : Code :=
  let ofLength (l : Nat) := (lengths.zipIdx.filter fun (m, _) => m = l).map Prod.snd
  let byLength := (List.range maxLength).map fun l => ofLength (l + 1)
  ⟨byLength.map List.length, byLength.flatten.toArray⟩

/-- Whether the words use up all bit patterns. -/
def Code.isComplete (c : Code) : Bool := usedPatterns c.counts == 1 <<< maxLength

/-- Reads a word, `word` being its bits so far, doubled, and `first` the first word of the next
length. `index` symbols have shorter words. -/
def Code.readFrom (symbols : Array Nat) : List Nat → Nat → Nat → Nat → InflateM Nat
  | [], _, _, _ => throw .corruptData
  | count :: counts, word, first, index => do
    let word := word + (← bit)
    if word < first + count then
      match symbols[index + (word - first)]? with
      | some s => return s
      | none => throw .corruptData
    else if symbols.size ≤ index + count then throw .corruptData
    else readFrom symbols counts (2 * word) (2 * (first + count)) (index + count)

/-- Reads one symbol. -/
def Code.read (c : Code) : InflateM Nat := Code.readFrom c.symbols c.counts 0 0 0

/-- A code that leaves no bit pattern unused. -/
def completeCode (lengths : List Nat) : InflateM Code := do
  let c := Code.ofLengths lengths
  if c.isComplete then return c else throw .corruptData

/-- Whether there is no word, or only one and of a single bit. -/
def Code.isTiny (c : Code) : Bool := c.symbols.size ≤ 1 && c.symbols.size = c.counts.headD 0

/-- A code has to be complete unless it is tiny. -/
def code (lengths : List Nat) : InflateM Code := do
  let c := Code.ofLengths lengths
  if c.isTiny then return c else completeCode lengths

/-! ## Blocks -/

/-- The least value and the number of further bits of each symbol for a length. -/
def lengthBases : Array (Nat × Nat) :=
  #[(3, 0), (4, 0), (5, 0), (6, 0), (7, 0), (8, 0), (9, 0), (10, 0), (11, 1), (13, 1), (15, 1),
    (17, 1), (19, 2), (23, 2), (27, 2), (31, 2), (35, 3), (43, 3), (51, 3), (59, 3), (67, 4),
    (83, 4), (99, 4), (115, 4), (131, 5), (163, 5), (195, 5), (227, 5), (258, 0)]

/-- The least value and the number of further bits of each symbol for a distance. -/
def distanceBases : Array (Nat × Nat) :=
  #[(1, 0), (2, 0), (3, 0), (4, 0), (5, 1), (7, 1), (9, 2), (13, 2), (17, 3), (25, 3), (33, 4),
    (49, 4), (65, 5), (97, 5), (129, 6), (193, 6), (257, 7), (385, 7), (513, 8), (769, 8),
    (1025, 9), (1537, 9), (2049, 10), (3073, 10), (4097, 11), (6145, 11), (8193, 12), (12289, 12),
    (16385, 13), (24577, 13)]

def extended (bases : Array (Nat × Nat)) (symbol : Nat) : InflateM Nat :=
  match bases[symbol]? with
  | none => throw .corruptData
  | some (base, n) => return base + (← bits n)

/-- Reads symbols up to the end of a block. Each takes a bit at least, so `steps` can be the
number of bits. -/
def codedBlock (literals distances : Code) : Nat → InflateM Unit
  | 0 => throw .corruptData
  | steps + 1 => do
    let symbol ← literals.read
    if symbol < 256 then
      emit (.ofNat symbol)
      codedBlock literals distances steps
    else if symbol = 256 then return
    else
      let length ← extended lengthBases (symbol - 257)
      let distance ← extended distanceBases (← distances.read)
      copy distance length
      codedBlock literals distances steps

def fixedLengths : List Nat :=
  List.replicate 144 8 ++ List.replicate 112 9 ++ List.replicate 24 7 ++ List.replicate 8 8

/-- The order in which the lengths of the code for lengths are stored. -/
def lengthOrder : List Nat := [16, 17, 18, 0, 8, 7, 9, 6, 10, 5, 11, 4, 12, 3, 13, 2, 14, 1, 15]

/-- Reads lengths of code words until there are `n`, the last ones first in `read`. -/
def codeLengths (c : Code) (n : Nat) : Nat → List Nat → InflateM (List Nat)
  | 0, _ => throw .corruptData
  | steps + 1, read =>
    if read.length = n then return read.reverse
    else if n < read.length then throw .corruptData
    else do
      let symbol ← c.read
      if symbol < 16 then codeLengths c n steps (symbol :: read)
      else
        let (length, times) ←
          if symbol = 16 then
            match read with
            | [] => throw .corruptData
            | l :: _ => pure (l, 3 + (← bits 2))
          else if symbol = 17 then pure (0, 3 + (← bits 3))
          else pure (0, 11 + (← bits 7))
        codeLengths c n steps (List.replicate times length ++ read)

/-- The greatest number of symbols for bytes and lengths that a block may list. -/
def maxLiterals : Nat := 286

/-- The greatest number of symbols for distances that a block may list. -/
def maxDistances : Nat := 30

/-- Reads the two codes of a block. -/
def dynamicCodes : InflateM (Code × Code) := do
  let literalCount := 257 + (← bits 5)
  let distanceCount := 1 + (← bits 5)
  let lengthCount := 4 + (← bits 4)
  if maxLiterals < literalCount ∨ maxDistances < distanceCount then throw .corruptData
  let stored ← (lengthOrder.take lengthCount).mapM fun symbol => do return (symbol, ← bits 3)
  let lengthCode ← completeCode ((List.range 19).map fun symbol => (stored.lookup symbol).getD 0)
  let all := literalCount + distanceCount
  let lengths ← codeLengths lengthCode all (all + 1) []
  return (← code (lengths.take literalCount), ← code (lengths.drop literalCount))

def storedBlock : InflateM Unit := do
  align
  let size ← bits 16
  let inverse ← bits 16
  if size + inverse ≠ 0xffff then throw .corruptData
  (List.range size).forM fun _ => do emit (.ofNat (← bits 8))

/-- Reads blocks up to the last. Each takes a bit at least. -/
def blocks : Nat → InflateM Unit
  | 0 => throw .corruptData
  | steps + 1 => do
    let isLast ← bit
    let size := 8 * (← get).data.size
    match ← bits 2 with
    | 0 => storedBlock
    | 1 => codedBlock (← code fixedLengths) (← code (List.replicate 32 5)) (size + 1)
    | 2 =>
      let (literals, distances) ← dynamicCodes
      codedBlock literals distances (size + 1)
    | _ => throw .corruptData
    if isLast = 1 then return else blocks steps

/-- The data that a deflate stream stands for, with the bytes behind it. -/
def inflate (data : ByteArray) : Except GzipError (List UInt8 × List UInt8) := do
  let ((), s) ← (blocks (8 * data.size + 1)).run { data }
  return (s.output.data.toList, data.data.toList.drop ((s.position + 7) / 8))

end Fabric.Gzip
