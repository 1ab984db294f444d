import DescriptorCheck.Gzip.Code

set_option autoImplicit false

namespace DescriptorCheck.Gzip

abbrev Inflated := Array UInt8 × List Bool

/-- The least length and the extra bits of each length symbol from 257 on. -/
def lengthRanges : List (Nat × Nat) :=
  [(3, 0), (4, 0), (5, 0), (6, 0), (7, 0), (8, 0), (9, 0), (10, 0), (11, 1), (13, 1), (15, 1),
   (17, 1), (19, 2), (23, 2), (27, 2), (31, 2), (35, 3), (43, 3), (51, 3), (59, 3), (67, 4),
   (83, 4), (99, 4), (115, 4), (131, 5), (163, 5), (195, 5), (227, 5), (258, 0)]

def distanceRanges : List (Nat × Nat) :=
  [(1, 0), (2, 0), (3, 0), (4, 0), (5, 1), (7, 1), (9, 2), (13, 2), (17, 3), (25, 3), (33, 4),
   (49, 4), (65, 5), (97, 5), (129, 6), (193, 6), (257, 7), (385, 7), (513, 8), (769, 8),
   (1025, 9), (1537, 9), (2049, 10), (3073, 10), (4097, 11), (6145, 11), (8193, 12), (12289, 12),
   (16385, 13), (24577, 13)]

def readRange (ranges : List (Nat × Nat)) (symbol : Nat) (bits : List Bool) :
    Option (Nat × List Bool) := do
  let (least, extra) ← ranges[symbol]?
  let (more, bits) ← takeNumber extra bits
  return (least + more, bits)

def copyBack (distance : Nat) : Nat → Array UInt8 → Option (Array UInt8)
  | 0, out => some out
  | length + 1, out =>
    if distance ≤ out.size then do
      copyBack distance length (out.push (← out[out.size - distance]?))
    else none

/-- The codewords of a block up to its end. Each takes at least one of `count` bits. -/
def readCodewords (literals distances : Code) : Nat → Inflated → Option Inflated
  | 0, _ => none
  | count + 1, (out, bits) => do
    let (symbol, bits) ← literals.read bits
    if symbol < 256 then
      readCodewords literals distances count (out.push (UInt8.ofNat symbol), bits)
    else if symbol = 256 then return (out, bits)
    else
      let (length, bits) ← readRange lengthRanges (symbol - 257) bits
      let (symbol, bits) ← distances.read bits
      let (distance, bits) ← readRange distanceRanges symbol bits
      let out ← copyBack distance length out
      readCodewords literals distances count (out, bits)

def readStored : Inflated → Option Inflated
  | (out, bits) => do
    let (length, bits) ← takeNumber 16 (align bits)
    let (check, bits) ← takeNumber 16 bits
    guard (length + check = 0xFFFF)
    let (bytes, bits) ← takeBytes length bits
    return (out ++ bytes.toArray, bits)

def fixedLengths : List Nat :=
  List.replicate 144 8 ++ List.replicate 112 9 ++ List.replicate 24 7 ++ List.replicate 8 8

def fixedDistanceLengths : List Nat := List.replicate 32 5

def lengthOrder : List Nat := [16, 17, 18, 0, 8, 7, 9, 6, 10, 5, 11, 4, 12, 3, 13, 2, 14, 1, 15]

def takeTriples : Nat → List Bool → Option (List Nat × List Bool)
  | 0, bits => some ([], bits)
  | count + 1, bits => do
    let (first, bits) ← takeNumber 3 bits
    let (rest, bits) ← takeTriples count bits
    return (first :: rest, bits)

/-- `total` codeword lengths, behind those known already, last first. A symbol above
15 repeats a length. Each takes at least one of `count` bits. -/
def readLengths (code : Code) (total : Nat) :
    Nat → List Nat → List Bool → Option (List Nat × List Bool)
  | 0, _, _ => none
  | count + 1, known, bits =>
    if total < known.length then none
    else if known.length = total then some (known.reverse, bits)
    else do
      let (symbol, bits) ← code.read bits
      if symbol < 16 then readLengths code total count (symbol :: known) bits
      else
        let (length, least, extra) ←
          if symbol = 16 then known.head?.map fun last => (last, 3, 2)
          else if symbol = 17 then some (0, 3, 3)
          else some (0, 11, 7)
        let (more, bits) ← takeNumber extra bits
        readLengths code total count (List.replicate (least + more) length ++ known) bits

def readDynamic : Inflated → Option Inflated
  | (out, bits) => do
    let (literalCount, bits) ← takeNumber 5 bits
    let (distanceCount, bits) ← takeNumber 5 bits
    let (orderCount, bits) ← takeNumber 4 bits
    let literalCount := literalCount + 257
    let distanceCount := distanceCount + 1
    guard (literalCount ≤ 286 && distanceCount ≤ 30)
    let (given, bits) ← takeTriples (orderCount + 4) bits
    let pairs := lengthOrder.zip given
    let code ← Code.ofLengths? ((List.range 19).map fun symbol => (pairs.lookup symbol).getD 0)
    let (lengths, bits) ←
      readLengths code (literalCount + distanceCount) (bits.length + 1) [] bits
    let literals ← Code.ofLengths? (lengths.take literalCount)
    let distances ← Code.ofLengths? (lengths.drop literalCount)
    readCodewords literals distances (bits.length + 1) (out, bits)

def readFixed : Inflated → Option Inflated
  | (out, bits) => do
    let literals ← Code.ofLengths? fixedLengths
    let distances ← Code.ofLengths? fixedDistanceLengths
    readCodewords literals distances (bits.length + 1) (out, bits)

/-- Blocks up to the one that says it is the last. Each takes at least one of
`count` bits. -/
def readBlocks : Nat → Inflated → Option Inflated
  | 0, _ => none
  | count + 1, (out, bits) => do
    let (last, bits) ← takeNumber 1 bits
    let (kind, bits) ← takeNumber 2 bits
    let (out, bits) ←
      match kind with
      | 0 => readStored (out, bits)
      | 1 => readFixed (out, bits)
      | 2 => readDynamic (out, bits)
      | _ => none
    if last = 1 then return (out, bits) else readBlocks count (out, bits)

def inflate? (bits : List Bool) : Option (List UInt8 × List Bool) := do
  let (out, rest) ← readBlocks (bits.length + 1) (#[], bits)
  return (out.toList, rest)

end DescriptorCheck.Gzip
