import PluralForms.Formula
import PluralForms.Native.Isa
import PluralForms.Optimizer

/-! What the stages report for a log: the decisions on the way to a formula, and the steps of
checked runs. -/

namespace PluralForms

/-- The reader of selections, which makes programs, and the reader of syntax trees. -/
inductive FrontEnd where
  | bytecode
  | tree
  deriving DecidableEq, Repr

def FrontEnd.name : FrontEnd → String
  | .bytecode => "bytecode"
  | .tree => "tree"

/-- How much detail a report adds. -/
inductive Event.Level where
  | debug
  | trace
  deriving DecidableEq, Repr

def Event.Level.text : Level → String
  | .debug => "DEBUG"
  | .trace => "TRACE"

inductive Event where
  | knownFormula (family : Family) (expression : List Char)
  | rejected (frontEnd : FrontEnd) (expression : List Char) (error : ParseError)
  | noNativeCode (error : Native.Error) (program : Program)
  | optimizing (report : Optimizer.Report)
  | optimized (before : Nat) (outcome : Optimizer.Outcome)
  | compiled (isa : String) (instructions bytes : Nat)
  | step (program : Program) (state : Machine.State)

namespace Event

def level : Event → Level
  | .knownFormula _ _ | .rejected _ _ _ | .noNativeCode _ _ | .optimizing (.invalid _) => .debug
  | .optimizing (.round _ _ _) | .optimized _ _ | .compiled _ _ _ | .step _ _ => .trace

/-- The stage that reports. -/
def target : Event → String
  | .knownFormula _ _ | .rejected _ _ _ | .noNativeCode _ _ => "pluralis::make"
  | .optimizing _ | .optimized _ _ => "pluralis::optimizer"
  | .compiled _ _ _ => "pluralis::jit"
  | .step _ _ => "pluralis::vm::step"

def message : Event → String
  | .knownFormula _ _ => "Using known formula"
  | .rejected _ _ _ => "Front end rejected formula"
  | .noNativeCode _ _ => "Native compilation unavailable, interpreting"
  | .optimizing (.invalid _) => "Skipping invalid program"
  | .optimizing (.round _ _ _) => "Optimization round"
  | .optimized _ _ => "Optimized formula"
  | .compiled _ _ _ => "compiled native formula"
  | .step _ _ => "step"

/-- The values that belong to the report, with their names. -/
def fields : Event → List (String × String)
  | .knownFormula family expression =>
    [("family", family.name), ("expression", String.ofList expression)]
  | .rejected frontEnd expression error =>
    [("front_end", frontEnd.name), ("error", error.message),
     ("expression", String.ofList expression)]
  | .noNativeCode error program => [("error", error.message), ("program", program.text)]
  | .optimizing (.invalid jump) => [("error", jump.message)]
  | .optimizing (.round number changes size) =>
    [("round", toString number), ("changes", toString changes), ("len", toString size)]
  | .optimized before outcome =>
    [("before", toString before), ("after", toString outcome.program.length),
     ("rounds", toString outcome.stats.rounds), ("program", outcome.program.text)]
  | .compiled isa instructions bytes =>
    [("arch", isa), ("instructions", toString instructions), ("bytes", toString bytes)]
  | .step program state =>
    [("ip", toString state.index), ("instruction", program.describe state.index),
     ("r", Text.decimal state.register.toInt), ("s", toString state.status)]

/-- Whether a log of the given verbosity shows the report. -/
def isShown (verbosity : Nat) (event : Event) : Bool :=
  match event.level with
  | .debug => 1 ≤ verbosity
  | .trace => 2 ≤ verbosity

def line (event : Event) : String :=
  let values := event.fields.map fun field => s!" {field.1}={field.2}"
  s!"{event.level.text} {event.target}: {event.message}{String.join values}\n"

end Event

end PluralForms
