import ShaderBuild.Text.Utf8

/-!
# CRC-32

The checksum of IEEE 802.3, reflected: the register starts with all bits set, takes one byte after
the other lowest bit first, and is inverted at the end. It is the identity of a shader file (of
its path) and the fingerprint of a content.
-/

namespace ShaderBuild.Checksum

/-- The generator polynomial, its lowest coefficient in the highest bit. -/
def polynomial : UInt32 := 0xEDB88320

/-- Shifts one bit out of the register. -/
def shiftBit (r : UInt32) : UInt32 :=
  if r &&& 1 = 1 then (r >>> 1) ^^^ polynomial else r >>> 1

/-- Shifts `n` bits out of the register. -/
def shiftBits : Nat → UInt32 → UInt32
  | 0, r => r
  | n + 1, r => shiftBits n (shiftBit r)

/-- Takes one byte into the register. -/
def takeByte (r : UInt32) (b : UInt8) : UInt32 := shiftBits 8 (r ^^^ b.toUInt32)

/-- The CRC-32 of a sequence of bytes. -/
def crc32 (bytes : List UInt8) : UInt32 := bytes.foldl takeByte 0xFFFFFFFF ^^^ 0xFFFFFFFF

/-- The CRC-32 of a text in UTF-8. -/
def ofText (s : List Char) : UInt32 := crc32 (Text.encode s)

example : crc32 [0x31, 0x32, 0x33, 0x34, 0x35, 0x36, 0x37, 0x38, 0x39] = 0xCBF43926 := by
  decide +kernel

end ShaderBuild.Checksum
