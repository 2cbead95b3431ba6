import PluralForms.CommandLine

/-! The program. It runs for its arguments and the environment, reads its input only if a dialog is
asked for, and puts out what the run yields, in order. -/

namespace PluralForms

def variableNames : List String :=
  ["PLURALIS_NO_OPTIMIZE", "PLURALIS_NO_JIT", "PLURALIS_NO_KNOWN", "PLURALIS_OPTIMIZER_ROUNDS",
   "PLURALIS_FORMULA_CACHE_SIZE"]

def readEnvironment : IO Environment := do
  let values ← variableNames.mapM fun name => return (name, ← IO.getEnv name)
  return fun name => (values.lookup name).join

def Output.put (verbosity : Nat) : Output → IO Unit
  | .out text => IO.print text
  | .err text => IO.eprint text
  | .log event => if event.isShown verbosity then IO.eprint event.line else pure ()

end PluralForms

/-- Runs for the arguments, and exits with the code of the run. -/
def main (arguments : List String) : IO UInt32 := do
  let environment ← PluralForms.readEnvironment
  let input ←
    if PluralForms.CommandLine.readsInput arguments then (← IO.getStdin).readToEnd else pure ""
  let run := PluralForms.CommandLine.run environment arguments input
  for piece in run.output do
    piece.put run.verbosity
  return .ofNat run.code
