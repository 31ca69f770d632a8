import DeltaView.Command.Outcome

/-!
# The command

Reads the arguments and the input file, and prints the outcome.
-/

open DeltaView

/-- Why a file cannot be read. -/
def readFailure : IO.Error → String
  | .noFileOrDirectory _ code details | .permissionDenied _ code details
  | .inappropriateType _ code details => details ++ " (os error " ++ toString code ++ ")"
  | e => e.toString

def readInput (path : String) : IO (Except String String) := do
  try
    match String.fromUTF8? (← IO.FS.readBinFile path) with
    | some text => return .ok text
    | none => return .error "stream did not contain valid UTF-8"
  catch e =>
    return .error (readFailure e)

def outcomeOf (args : List String) : IO Outcome := do
  match Arguments.read? args with
  | none => return .ofUsage
  | some .version => return .ofVersion
  | some (.help full topic) => return .ofHelp full topic
  | some (.command c) => return .ofCommand c (← readInput c.path)

def main (args : List String) : IO UInt32 := do
  let outcome ← outcomeOf args
  IO.print outcome.output
  IO.eprint outcome.complaint
  return outcome.code
