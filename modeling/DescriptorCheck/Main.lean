import DescriptorCheck.CommandLine.Run

set_option autoImplicit false

open DescriptorCheck

def faultOf : IO.Error → FileFault
  | .noFileOrDirectory .. => .notFound
  | .alreadyExists .. => .alreadyExists
  | .inappropriateType .. => .isADirectory
  | .invalidArgument .. => .invalidInput
  | _ => .notFound

def readBytes (path : String) : IO (Except FileFault (List UInt8)) := do
  try
    let bytes ← IO.FS.readBinFile path
    return .ok bytes.toList
  catch e => return .error (faultOf e)

def system : CommandLine.System IO where
  home? := IO.getEnv "HOME"
  readFile := readBytes
  input? := do
    let input ← IO.getStdin
    if ← input.isTty then return none
    return some (← IO.FS.Stream.readBinToEnd input).toList

def main (args : List String) : IO UInt32 := do
  let outcome ← CommandLine.run system args
  IO.print outcome.out
  for line in outcome.log do
    IO.eprint line.text
  IO.eprint outcome.err
  return UInt32.ofNat outcome.code
