import FormulaLedger.CommandLine.Run

set_option autoImplicit false

namespace FormulaLedger.CommandLine

def systemText (number : Nat) (details : String) : String :=
  let text := match number with
    | 2 => "No such file or directory"
    | 5 => "Input/output error"
    | 13 => "Permission denied"
    | 20 => "Not a directory"
    | 21 => "Is a directory"
    | 24 => "Too many open files"
    | 36 => "File name too long"
    | 40 => "Too many levels of symbolic links"
    | _ => details
  text ++ " (os error " ++ toString number ++ ")"

/-- The number of a failure may come negated, in 32 bits. -/
def failureNumber (code : UInt32) : Nat :=
  if code.toNat < Nat.pow 2 31 then code.toNat else Nat.pow 2 32 - code.toNat

def failureText : IO.Error → String
  | .noFileOrDirectory _ code details | .invalidArgument _ code details
  | .inappropriateType _ code details | .permissionDenied _ code details
  | .resourceExhausted _ code details | .noSuchThing _ code details
  | .interrupted _ code details | .resourceBusy code details
  | .hardwareFault code details | .otherError code details =>
    systemText (failureNumber code) details
  | .userError _ => "stream did not contain valid UTF-8"
  | e => toString e

def readFile (path : String) : IO (Except String String) := do
  try
    return .ok (← IO.FS.readFile path)
  catch e =>
    return .error (failureText e)

def readFiles (order : Order) : IO Files := do
  let contents ← order.paths.mapM fun path => return (path, ← readFile path)
  return fun path => (contents.lookup path).getD (.error "not read")

def outcomeOf (arguments : List String) : IO Outcome :=
  match Order.ofArguments arguments with
  | .ok order => return order.carryOut (← readFiles order)
  | .error stop => return stop.outcome

def execute (arguments : List String) : IO UInt32 := do
  let outcome ← outcomeOf arguments
  (← IO.getStderr).putStr outcome.message
  (← IO.getStdout).putStr outcome.output
  return outcome.exitCode.toUInt32

end FormulaLedger.CommandLine

def main (arguments : List String) : IO UInt32 := FormulaLedger.CommandLine.execute arguments
