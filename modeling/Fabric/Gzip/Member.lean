import Fabric.Gzip.Checksum
import Fabric.Gzip.Inflate
/-!
# Gzip files

A header, deflated data, and their checksum and size. Only the first member of a file is
read, and whatever follows it is passed over.
-/

namespace Fabric.Gzip

/-- The number that bytes spell, the lowest first. -/
def littleEndian (bs : List UInt8) : Nat := bs.foldr (fun b n => b.toNat + 256 * n) 0

/-- Takes `n` bytes off the front. -/
def splitBytes (n : Nat) (bs : List UInt8) : Except GzipError (List UInt8 × List UInt8) :=
  if bs.length < n then .error .unexpectedEnd else .ok (bs.take n, bs.drop n)

/-- The greatest number of bytes of a name or comment. -/
def maxText : Nat := 65535

/-- The bytes behind the next zero. -/
def skipText (bs : List UInt8) : Except GzipError (List UInt8) :=
  if maxText < (bs.takeWhile (· ≠ 0)).length then .error .fieldTooLong
  else
    match bs.dropWhile (· ≠ 0) with
    | [] => .error .unexpectedEnd
    | _ :: rest => .ok rest

/-- The bytes behind the header, with its optional fields: extra data, a name, a comment, and a
checksum of the header itself. -/
def skipHeader (file : List UInt8) : Except GzipError (List UInt8) := do
  let (fixed, rest) ← splitBytes 10 file
  let flags := (fixed[3]?.getD 0).toNat
  if fixed.take 3 ≠ [0x1f, 0x8b, 0x08] ∨ 32 ≤ flags then throw .invalidHeader
  let rest ←
    if flags.testBit 2 then do
      let (size, rest) ← splitBytes 2 rest
      pure (← splitBytes (littleEndian size) rest).2
    else pure rest
  let rest ← if flags.testBit 3 then skipText rest else pure rest
  let rest ← if flags.testBit 4 then skipText rest else pure rest
  if flags.testBit 1 then
    let (stored, behind) ← splitBytes 2 rest
    let header := file.take (file.length - rest.length)
    if littleEndian stored ≠ (crc32 header).toNat % 65536 then throw .checksumMismatch
    return behind
  else return rest

/-- The data of a gzip file. -/
def decode (file : List UInt8) : Except GzipError (List UInt8) := do
  let (data, rest) ← inflate ⟨(← skipHeader file).toArray⟩
  let (sum, rest) ← splitBytes 4 rest
  let (size, _) ← splitBytes 4 rest
  if littleEndian sum ≠ (crc32 data).toNat ∨ littleEndian size ≠ data.length % 0x100000000 then
    throw .checksumMismatch
  return data

end Fabric.Gzip
