/-!
# Bits

Compressed data is a sequence of bits, the lowest bit of each byte first. Numbers in it have
their lowest bit first too.

## Main definitions

* `Gzip.bitsOf` — the bits of some bytes.
* `Gzip.number?` — takes a number of a given width.
* `Gzip.alignToByte` — drops the bits up to the next whole byte.
-/

namespace Chiptune
namespace Gzip

/-- The bits of a byte, the lowest first. -/
def bitsOfByte (b : UInt8) : List Bool := (List.range 8).map b.toNat.testBit

/-- The bits of some bytes. -/
def bitsOf (bytes : List UInt8) : List Bool := bytes.flatMap bitsOfByte

/-- The number with these bits. -/
def numberOf : List Bool → Nat
  | [] => 0
  | b :: bits => b.toNat + 2 * numberOf bits

/-- Takes a number of `width` bits. -/
def number? (width : Nat) (bits : List Bool) : Option (Nat × List Bool) :=
  let taken := bits.take width
  if taken.length = width then some (numberOf taken, bits.drop width) else none

/-- Drops the bits up to the next whole byte. -/
def alignToByte (bits : List Bool) : List Bool := bits.drop (bits.length % 8)

/-- Takes whole bytes and appends them. -/
def bytesOnto? (out : Array UInt8) : Nat → List Bool → Option (Array UInt8 × List Bool)
  | 0, bits => some (out, bits)
  | n + 1, bits =>
    match number? 8 bits with
    | some (b, bits) => bytesOnto? (out.push (.ofNat b)) n bits
    | none => none

end Gzip
end Chiptune
