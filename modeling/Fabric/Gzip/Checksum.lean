/-!
# CRC-32

The checksum that the gzip format stores: the remainder of the data modulo a polynomial, with
the bits of each byte taken lowest first.
-/

namespace Fabric.Gzip

/-- The polynomial without its highest term, its bits reversed. -/
def polynomial : UInt32 := 0xedb88320

def crcBit (r : UInt32) : UInt32 := if r &&& 1 = 1 then (r >>> 1) ^^^ polynomial else r >>> 1

def crcByte (r : UInt32) (b : UInt8) : UInt32 :=
  crcBit (crcBit (crcBit (crcBit (crcBit (crcBit (crcBit (crcBit (r ^^^ b.toUInt32))))))))

def crc32 (bs : List UInt8) : UInt32 := bs.foldl crcByte 0xffffffff ^^^ 0xffffffff

end Fabric.Gzip
