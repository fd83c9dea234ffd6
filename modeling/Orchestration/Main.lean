import Orchestration.CommandLine

/-!
# The program

Reads the file that the command names and carries the command out.
-/

set_option autoImplicit false

namespace Orchestration

open CommandLine

def errorCode? : IO.Error → Option Nat
  | .noFileOrDirectory _ code _ => some code.toInt32.toInt.natAbs
  | .permissionDenied _ code _ => some code.toInt32.toInt.natAbs
  | .inappropriateType _ code _ => some code.toInt32.toInt.natAbs
  | .invalidArgument _ code _ => some code.toInt32.toInt.natAbs
  | _ => none

def readFile (file : String) : IO (Except FileError String) := do
  try
    let bytes ← IO.FS.readBinFile file
    match String.fromUTF8? bytes with
    | some text => return .ok text
    | none => return .error .notText
  catch e =>
    return .error (((errorCode? e).bind FileError.ofCode?).getD (.other (toString e)))

def finish (f : Finish) : IO UInt32 := do
  (← IO.getStderr).putStr f.stderr
  (← IO.getStdout).putStr f.stdout
  return UInt32.ofNat f.code

end Orchestration

open Orchestration CommandLine in
def main (args : List String) : IO UInt32 := do
  match parse args with
  | none => finish (refuse usage)
  | some command =>
    let contents ← readFile command.file
    let start ← IO.monoNanosNow
    match carryOut command contents Host.standard with
    | .error refusal => finish refusal
    | .ok performance =>
      let stop ← IO.monoNanosNow
      finish (performance.finish command.mode ((Duration.ofNanos? (stop - start)).getD .zero))
