/-
  File:      Collation/Main.lean
  Subject:   The program: arguments and files of the operating system.
-/
import Collation.CommandLine

namespace Collation

/-- The number of an error, which some systems give as a negative one. -/
def number (code : UInt32) : Nat := code.toInt32.toInt.natAbs

/-- What the operating system refused. -/
def refusal : IO.Error → Refusal
  | .noFileOrDirectory _ _ _ => .notFound
  | .permissionDenied _ _ _ => .denied
  | .inappropriateType _ code words => ofNumber (number code) words
  | .invalidArgument _ code words => ofNumber (number code) words
  | .resourceExhausted _ code words => ofNumber (number code) words
  | e => .other 5 (toString e)
where
  ofNumber (code : Nat) (words : String) : Refusal :=
    [Refusal.notDirectory, .isDirectory, .noSpace, .nameTooLong].find? (·.code = code)
      |>.getD (.other code words)

/-- The files of the operating system. -/
def realFiles : Files IO where
  read path := do
    try
      return .ok (← IO.FS.readBinFile path).toList
    catch e => return .error (refusal e)
  write path bytes := do
    try
      IO.FS.withFile path .write fun handle => do
        handle.write ⟨bytes.toArray⟩
        handle.flush
      return none
    catch e => return some (refusal e)

end Collation

def main (arguments : List String) : IO UInt32 := do
  let report ← Collation.runArguments Collation.realFiles arguments
  IO.print report.output
  IO.eprint report.errors
  return report.exitCode.toUInt32
