import Chiptune.Gzip.Inflate

/-!
# Compressed files

A compressed file has a header with optional fields, the compressed data, and a checksum and
the size of what comes out of it. What follows is not part of it.

## Main definitions

* `Gzip.crc32` — the checksum of some bytes.
* `Gzip.isCompressed` — whether some bytes begin like a compressed file.
* `Gzip.decompress?` — the data in a compressed file.
-/

namespace Chiptune
namespace Gzip

/-- One bit of the checksum's division. -/
def crcShift (c : UInt32) : UInt32 :=
  if c &&& 1 = 0 then c >>> 1 else (c >>> 1) ^^^ 0xEDB88320

/-- The checksum's division by one more byte. -/
def crcByte (c : UInt32) (b : UInt8) : UInt32 :=
  (List.range 8).foldl (fun c _ => crcShift c) (c ^^^ b.toUInt32)

/-- The checksum of some bytes. -/
def crc32 (bytes : List UInt8) : UInt32 := bytes.foldl crcByte 0xFFFFFFFF ^^^ 0xFFFFFFFF

/-- The number that bytes are, the lowest first. -/
def littleEndian : List UInt8 → Nat
  | [] => 0
  | b :: bytes => b.toNat + 256 * littleEndian bytes

/-- Takes some bytes. -/
def take? (n : Nat) (bytes : List UInt8) : Option (List UInt8 × List UInt8) :=
  let taken := bytes.take n
  if taken.length = n then some (taken, bytes.drop n) else none

/-- The longest text in a header. -/
def maxText : Nat := 65535

/-- Drops a text with the zero after it. -/
def dropText? (bytes : List UInt8) : Option (List UInt8) :=
  let text := bytes.takeWhile (· ≠ 0)
  if maxText < text.length then none
  else
    match bytes.dropWhile (· ≠ 0) with
    | _ :: rest => some rest
    | [] => none

/-- Drops a field with its length before it. -/
def dropExtra? (bytes : List UInt8) : Option (List UInt8) := do
  let (length, bytes) ← take? 2 bytes
  let (_, bytes) ← take? (littleEndian length) bytes
  return bytes

/-- Drops an optional part. -/
def dropIf? (given : Bool) (drop? : List UInt8 → Option (List UInt8)) (bytes : List UInt8) :
    Option (List UInt8) :=
  if given then drop? bytes else some bytes

/-- Whether some bytes begin like a compressed file. -/
def isCompressed : List UInt8 → Bool
  | 0x1F :: 0x8B :: _ => true
  | _ => false

/-- Drops the header. Its flags say which optional parts it has, among them a checksum of the
bytes before it; the other flags have no meaning yet. -/
def dropHeader? (bytes : List UInt8) : Option (List UInt8) :=
  match bytes with
  | 0x1F :: 0x8B :: 0x08 :: flags :: _ => do
    if flags &&& 0xE0 ≠ 0 then none
    else
      let (_, rest) ← take? 10 bytes
      let rest ← dropIf? (flags &&& 0x04 ≠ 0) dropExtra? rest
      let rest ← dropIf? (flags &&& 0x08 ≠ 0) dropText? rest
      let rest ← dropIf? (flags &&& 0x10 ≠ 0) dropText? rest
      if flags &&& 0x02 = 0 then some rest
      else
        let (checksum, after) ← take? 2 rest
        let header := bytes.take (bytes.length - rest.length)
        if littleEndian checksum = (crc32 header).toNat % 0x10000 then some after else none
  | _ => none

/-- The data in a compressed file, if it is complete and agrees with its checksum and its size. -/
def decompress? (bytes : List UInt8) : Option (List UInt8) := do
  let body ← dropHeader? bytes
  let (data, bits) ← inflate? (bitsOf body)
  let (checksum, bits) ← number? 32 (alignToByte bits)
  let (size, _) ← number? 32 bits
  let data := data.toList
  if checksum = (crc32 data).toNat ∧ size = data.length % 0x100000000 then some data else none

end Gzip
end Chiptune
