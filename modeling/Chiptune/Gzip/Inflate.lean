import Chiptune.Gzip.Code

/-!
# Decompression

Compressed data comes in blocks. A block has bytes as they are, or symbols of a prefix code: a
symbol is a byte, the end of the block, or the length of a piece to be repeated, in which case
a second code says how far back the piece is.

Each symbol takes at least one bit and each block three, so the number of bits bounds the steps.

## Main definitions

* `Gzip.inflate?` — the data that some bits are, and the bits after them.
-/

namespace Chiptune
namespace Gzip

/-- The smallest length of a piece for each symbol after the end of the block, and how many bits
are added to it. -/
def lengthBases : List (Nat × Nat) :=
  [(3, 0), (4, 0), (5, 0), (6, 0), (7, 0), (8, 0), (9, 0), (10, 0), (11, 1), (13, 1), (15, 1),
    (17, 1), (19, 2), (23, 2), (27, 2), (31, 2), (35, 3), (43, 3), (51, 3), (59, 3), (67, 4),
    (83, 4), (99, 4), (115, 4), (131, 5), (163, 5), (195, 5), (227, 5), (258, 0)]

/-- The smallest distance for each symbol, and how many bits are added to it. -/
def distanceBases : List (Nat × Nat) :=
  [(1, 0), (2, 0), (3, 0), (4, 0), (5, 1), (7, 1), (9, 2), (13, 2), (17, 3), (25, 3), (33, 4),
    (49, 4), (65, 5), (97, 5), (129, 6), (193, 6), (257, 7), (385, 7), (513, 8), (769, 8),
    (1025, 9), (1537, 9), (2049, 10), (3073, 10), (4097, 11), (6145, 11), (8193, 12), (12289, 12),
    (16385, 13), (24577, 13)]

/-- A base with the bits that are added to it. -/
def extended? (bases : List (Nat × Nat)) (symbol : Nat) (bits : List Bool) :
    Option (Nat × List Bool) := do
  let (base, width) ← bases[symbol]?
  let (more, bits) ← number? width bits
  return (base + more, bits)

/-- The byte that is `distance` back. Before the beginning of the data there are zeros. -/
def byteBack (distance : Nat) (out : Array UInt8) : UInt8 :=
  if distance ≤ out.size then out.getD (out.size - distance) 0 else 0

/-- Repeats a piece that begins `distance` bytes back. It may overlap itself. -/
def copyBack (distance : Nat) : Nat → Array UInt8 → Array UInt8
  | 0, out => out
  | n + 1, out => copyBack distance n (out.push (byteBack distance out))

/-- The symbol that ends a block. -/
def endOfBlock : Nat := 256

/-- The data of a block with symbols, up to its end. -/
def symbols? (literals distances : Code) :
    (fuel : Nat) → Array UInt8 → List Bool → Option (Array UInt8 × List Bool)
  | 0, _, _ => none
  | fuel + 1, out, bits =>
    match literals.next? bits with
    | none => none
    | some (symbol, bits) =>
      if symbol < endOfBlock then symbols? literals distances fuel (out.push (.ofNat symbol)) bits
      else if symbol = endOfBlock then some (out, bits)
      else
        match extended? lengthBases (symbol - (endOfBlock + 1)) bits with
        | none => none
        | some (length, bits) =>
          match distances.next? bits with
          | none => none
          | some (symbol, bits) =>
            match extended? distanceBases symbol bits with
            | none => none
            | some (distance, bits) =>
              symbols? literals distances fuel (copyBack distance length out) bits

/-- The data of a block with bytes as they are. Their number is given twice, the second time with
all bits turned. -/
def stored? (out : Array UInt8) (bits : List Bool) : Option (Array UInt8 × List Bool) := do
  let (length, bits) ← number? 16 (alignToByte bits)
  let (turned, bits) ← number? 16 bits
  if length + turned = 0xFFFF then bytesOnto? out length bits else none

/-- The lengths of words in blocks that give no code of their own. -/
def fixedLengths : List Nat :=
  .replicate 144 8 ++ .replicate 112 9 ++ .replicate 24 7 ++ .replicate 8 8

/-- The order in which the lengths for the code of the lengths are given. -/
def lengthOrder : List Nat := [16, 17, 18, 0, 8, 7, 9, 6, 10, 5, 11, 4, 12, 3, 13, 2, 14, 1, 15]

/-- Some numbers of three bits. -/
def smallNumbers? : Nat → List Bool → Option (List Nat × List Bool)
  | 0, bits => some ([], bits)
  | n + 1, bits => do
    let (m, bits) ← number? 3 bits
    let (ms, bits) ← smallNumbers? n bits
    return (m :: ms, bits)

/-- The lengths of words, up to `count` of them. Lengths can be repeated. -/
def lengths? (code : Code) (count : Nat) :
    (fuel : Nat) → Array Nat → List Bool → Option (List Nat × List Bool)
  | 0, _, _ => none
  | fuel + 1, done, bits =>
    if done.size = count then some (done.toList, bits)
    else if count < done.size then none
    else
      match code.next? bits with
      | none => none
      | some (symbol, bits) =>
        if symbol < 16 then lengths? code count fuel (done.push symbol) bits
        else
          let repeated : Option (Nat × Nat × Nat) :=
            if symbol = 16 then done.back?.map (·, 2, 3)
            else if symbol = 17 then some (0, 3, 3)
            else some (0, 7, 11)
          match repeated with
          | none => none
          | some (length, width, base) =>
            match number? width bits with
            | none => none
            | some (more, bits) =>
              lengths? code count fuel (done ++ Array.replicate (base + more) length) bits

/-- The codes at the beginning of a block. -/
def codes? (bits : List Bool) : Option (Code × Code × List Bool) := do
  let (literalCount, bits) ← number? 5 bits
  let (distanceCount, bits) ← number? 5 bits
  let (lengthCount, bits) ← number? 4 bits
  let literalCount := literalCount + 257
  let distanceCount := distanceCount + 1
  if 286 < literalCount ∨ 30 < distanceCount then none
  else
    let (small, bits) ← smallNumbers? (lengthCount + 4) bits
    let given := lengthOrder.zip small
    let code ← Code.ofLengths? ((List.range 19).map fun symbol => (given.lookup symbol).getD 0)
    let (all, bits) ← lengths? code (literalCount + distanceCount) (bits.length + 1) #[] bits
    let literals ← Code.ofLengths? (all.take literalCount)
    let distances ← Code.ofLengths? (all.drop literalCount)
    return (literals, distances, bits)

/-- The data of a block, by its kind. -/
def block? (kind : Nat) (out : Array UInt8) (bits : List Bool) :
    Option (Array UInt8 × List Bool) :=
  match kind with
  | 0 => stored? out bits
  | 1 => do
    let literals ← Code.ofLengths? fixedLengths
    let distances ← Code.ofLengths? (.replicate 32 5)
    symbols? literals distances (bits.length + 1) out bits
  | 2 => do
    let (literals, distances, bits) ← codes? bits
    symbols? literals distances (bits.length + 1) out bits
  | _ => none

/-- The data of blocks, up to the last one. -/
def blocks? : (fuel : Nat) → Array UInt8 → List Bool → Option (Array UInt8 × List Bool)
  | 0, _, _ => none
  | fuel + 1, out, bits =>
    match number? 1 bits with
    | none => none
    | some (last, bits) =>
      match number? 2 bits with
      | none => none
      | some (kind, bits) =>
        match block? kind out bits with
        | none => none
        | some (out, bits) => if last = 1 then some (out, bits) else blocks? fuel out bits

/-- The data that some bits are, and the bits after them. -/
def inflate? (bits : List Bool) : Option (Array UInt8 × List Bool) :=
  blocks? (bits.length + 1) #[] bits

end Gzip
end Chiptune
