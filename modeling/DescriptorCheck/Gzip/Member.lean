import DescriptorCheck.Gzip.Checksum
import DescriptorCheck.Gzip.Inflate

set_option autoImplicit false

namespace DescriptorCheck.Gzip

def magic : List UInt8 := [0x1F, 0x8B]

def isMember (bytes : List UInt8) : Bool := magic.isPrefixOf bytes

def skipText? (bytes : List UInt8) : Option (List UInt8) :=
  match bytes.dropWhile (· != 0) with
  | _ :: rest => some rest
  | [] => none

def skipExtra? : List UInt8 → Option (List UInt8)
  | low :: high :: rest =>
    let length := low.toNat + 256 * high.toNat
    if length ≤ rest.length then some (rest.drop length) else none
  | _ => none

/-- The bytes behind the header. Its own checksum is right if it has one. -/
def skipHeader? (bytes : List UInt8) : Option (List UInt8) :=
  match bytes with
  | 0x1F :: 0x8B :: 8 :: flags :: _ :: _ :: _ :: _ :: _ :: _ :: rest => do
    guard (flags &&& 0xE0 = 0)
    let rest ← if flags &&& 4 = 0 then some rest else skipExtra? rest
    let rest ← if flags &&& 8 = 0 then some rest else skipText? rest
    let rest ← if flags &&& 16 = 0 then some rest else skipText? rest
    if flags &&& 2 = 0 then return rest
    else
      match rest with
      | low :: high :: behind =>
        let header := bytes.take (bytes.length - rest.length)
        guard ((checksum header).toNat % 0x10000 = low.toNat + 256 * high.toNat)
        return behind
      | _ => none
  | _ => none

/-- The data of the first member; nothing if the member is damaged or cut short. -/
def unpack? (bytes : List UInt8) : Option (List UInt8) := do
  let (data, bits) ← inflate? (bitsOf (← skipHeader? bytes))
  let (sum, bits) ← takeNumber 32 (align bits)
  let (length, _) ← takeNumber 32 bits
  guard (sum = (checksum data).toNat && length = data.length % 0x100000000)
  return data

end DescriptorCheck.Gzip
