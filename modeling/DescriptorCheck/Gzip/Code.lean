set_option autoImplicit false

namespace DescriptorCheck.Gzip

def byteBits (byte : UInt8) : List Bool :=
  (List.range 8).map fun i => byte.toNat.testBit i

def bitsOf (bytes : List UInt8) : List Bool := bytes.flatMap byteBits

def takeNumber : Nat → List Bool → Option (Nat × List Bool)
  | 0, bits => some (0, bits)
  | _ + 1, [] => none
  | count + 1, bit :: bits => do
    let (high, rest) ← takeNumber count bits
    return (2 * high + bit.toNat, rest)

def takeBytes : Nat → List Bool → Option (List UInt8 × List Bool)
  | 0, bits => some ([], bits)
  | count + 1, bits => do
    let (byte, bits) ← takeNumber 8 bits
    let (bytes, bits) ← takeBytes count bits
    return (UInt8.ofNat byte :: bytes, bits)

def align (bits : List Bool) : List Bool := bits.drop (bits.length % 8)

structure Code where
  /-- How many codewords have one bit, two bits, and so on. -/
  counts : List Nat
  /-- The symbols in the order of their codewords. -/
  symbols : Array Nat

namespace Code

def longest : Nat := 15

def symbolsOfLength (lengths : List Nat) (length : Nat) : List Nat :=
  (List.range lengths.length).filter fun symbol => lengths[symbol]? == some length

/-- The code of these lengths, zero for a symbol without codeword. The codewords
must use up all bit sequences, unless there is at most one of them. -/
def ofLengths? (lengths : List Nat) : Option Code :=
  let groups := (List.range longest).map fun i => symbolsOfLength lengths (i + 1)
  let counts := groups.map List.length
  let filled := counts.foldl (fun total count => 2 * total + count) 0
  let symbols := groups.flatten
  if filled = 1 <<< longest || symbols.length ≤ 1 then some ⟨counts, symbols.toArray⟩ else none

/-- Reads a codeword: `word` is what was read of it, and the words of its length
start at `first` and at the given index among the symbols. -/
def readWord (symbols : Array Nat) (word first index : Nat) :
    List Nat → List Bool → Option (Nat × List Bool)
  | [], _ => none
  | _ :: _, [] => none
  | count :: counts, bit :: bits =>
    let word := 2 * word + bit.toNat
    if word < first + count then
      symbols[index + (word - first)]?.map fun symbol => (symbol, bits)
    else readWord symbols word (2 * (first + count)) (index + count) counts bits

def read (c : Code) (bits : List Bool) : Option (Nat × List Bool) :=
  readWord c.symbols 0 0 0 c.counts bits

end Code

end DescriptorCheck.Gzip
