import PluralForms.Repl

/-! The command line: the arguments with their meaning, and the output of the program for them. -/

namespace PluralForms.CommandLine

structure Options where
  header : Option String := none
  counts : List Int64 := []
  range : Option CountRange := none
  showStrategy : Bool := false
  showListing : Bool := false
  verbosity : Nat := 0
  interactive : Bool := false
  config : Config

/-- Why arguments are refused. -/
inductive Error where
  | missingCount
  | invalidCount (text : String)
  | missingRange
  | invalidRange (text : String)
  | unknownOption (argument : String)
  | multipleHeaders
  | missingHeader
  deriving DecidableEq, Repr

def Error.message : Error → String
  | .missingCount => "Missing count after -n"
  | .invalidCount text => s!"Invalid count: {text}"
  | .missingRange => "Missing range after --range"
  | .invalidRange text => CountRange.invalidMessage text
  | .unknownOption argument => s!"Unknown option: {argument}"
  | .multipleHeaders => "Multiple headers specified"
  | .missingHeader => "Missing header"

inductive Request where
  | help
  | version
  | run (options : Options)

/-- Whether an argument has the form of an option. A negative number has not. -/
def isOption (argument : String) : Bool :=
  match argument.toList with
  | '-' :: _ :: _ => (Text.signed64? argument.toList).isNone
  | _ => false

/-- The meaning of the arguments, of which those before gave `options`. -/
def parseFrom (options : Options) : List String → Except Error Request
  | [] => .ok (.run options)
  | "-h" :: _ | "--help" :: _ => .ok .help
  | "-V" :: _ | "--version" :: _ => .ok .version
  | ["-n"] => .error .missingCount
  | "-n" :: value :: rest =>
    match Text.signed64? value.toList with
    | some n => parseFrom { options with counts := options.counts ++ [n] } rest
    | none => .error (.invalidCount value)
  | ["--range"] => .error .missingRange
  | "--range" :: value :: rest =>
    match CountRange.parse? value.toList with
    | some range => parseFrom { options with range := some range } rest
    | none => .error (.invalidRange value)
  | "--strategy" :: rest => parseFrom { options with showStrategy := true } rest
  | "--disasm" :: rest => parseFrom { options with showListing := true } rest
  | "--no-jit" :: rest => parseFrom { options with config := options.config.withoutNative } rest
  | "--no-optimize" :: rest =>
    parseFrom { options with config := options.config.withoutOptimizer } rest
  | "--no-known" :: rest => parseFrom { options with config := options.config.withoutKnown } rest
  | "-v" :: rest => parseFrom { options with verbosity := options.verbosity + 1 } rest
  | "-vv" :: rest => parseFrom { options with verbosity := options.verbosity + 2 } rest
  | "--repl" :: rest => parseFrom { options with interactive := true } rest
  | argument :: rest =>
    if isOption argument then .error (.unknownOption argument)
    else if options.header.isSome then .error .multipleHeaders
    else parseFrom { options with header := some argument } rest

def usage : String :=
  s!"pluralis v{version}\n" ++
  "\n" ++
  "USAGE:\n" ++
  "    pluralis [OPTIONS] <HEADER>\n" ++
  "    pluralis --repl\n" ++
  "\n" ++
  "OPTIONS:\n" ++
  "    -h, --help           Print this help message\n" ++
  "    -V, --version        Print version information\n" ++
  "    -n <N>               Evaluate for N (repeatable)\n" ++
  "    --range <A..B>       Evaluate over A..B or A..=B (default: 0..21)\n" ++
  "    --strategy           Print how the formula is evaluated\n" ++
  "    --disasm             Print bytecode before and after optimization\n" ++
  "    --no-jit             Interpret bytecode instead of generating native code\n" ++
  "    --no-optimize        Skip the peephole optimizer\n" ++
  "    --no-known           Compile even formulas with a known implementation\n" ++
  "    -v, -vv              Log stage decisions (debug, trace) to stderr\n" ++
  "    --repl               Start interactive REPL\n" ++
  "\n" ++
  "ARGUMENTS:\n" ++
  "    <HEADER>             Plural-Forms value, e.g. \"nplurals=2; plural=n != 1;\"\n" ++
  "\n" ++
  "EXAMPLES:\n" ++
  "    pluralis \"nplurals=2; plural=n != 1;\"\n" ++
  "    pluralis --strategy -n 1 -n 21 " ++
  "\"nplurals=3; plural=n%10==1 && n%100!=11 ? 0 : n != 0 ? 1 : 2;\"\n" ++
  "    pluralis --disasm --no-known \"nplurals=2; plural=n%10==1 && n%100!=11;\"\n"

/-- The exit code of a run, its output, and how much of the log is wanted. -/
structure Run where
  code : Nat
  output : List Output
  verbosity : Nat := 0

def failure (message : String) : Output := .err s!"Error: {message}\n"

/-- The counts without a request for others. -/
def defaultRange : CountRange := ⟨0, 21⟩

/-- A line for each count with its plural form. -/
def table (formula : Formula) (counts : List Int64) : Output :=
  let line (n : Int64) : String :=
    let index := ((formula.eval n).map fun index => Text.decimal index.toInt).getD ""
    s!"{Text.decimal n.toInt}\t{index}\n"
  .out (String.join (counts.map line))

/-- The listings of the expression of a header before and after optimization. -/
def listings (config : Config) (header : Header) : List Output :=
  match Program.compile header.expression with
  | .error error => [.out s!"; bytecode front end: {error.message}\n"]
  | .ok program =>
    let plain := s!"; bytecode ({program.length} instructions)\n{program.listing}"
    if config.optimize then
      let outcome := Optimizer.optimize config.rounds program
      let size := outcome.program.length
      [.out plain] ++ outcome.reports.map (fun report => .log (.optimizing report)) ++
        [.out s!"; optimized ({size} instructions, {outcome.stats.rounds} rounds)\n",
         .out outcome.program.listing]
    else [.out plain]

/-- The output for a formula: how it is evaluated, and the tables of plural forms. -/
def report (options : Options) (plural : Plural) : List Output :=
  let strategy := s!"; nplurals={plural.nplurals} strategy={plural.formula.strategy}\n"
  (if options.showStrategy then [.out strategy] else []) ++
    (if options.counts.isEmpty then [] else [table plural.formula options.counts]) ++
    match options.range with
    | some range => [table plural.formula range.counts]
    | none => if options.counts.isEmpty then [table plural.formula defaultRange.counts] else []

def runHeader (options : Options) (engine : Engine) (text : String) : Run :=
  let listed :=
    if options.showListing then
      (Header.parse text.toList).map (listings options.config)
    else .ok []
  match listed with
  | .error error => ⟨1, [failure error.message], options.verbosity⟩
  | .ok listed =>
    let reply := engine.make text
    let output := listed ++ reply.events.map .log
    match reply.answer with
    | .error error => ⟨1, output ++ [failure error.message], options.verbosity⟩
    | .ok plural => ⟨0, output ++ report options plural, options.verbosity⟩

/-- The run for options. The input is read by the dialog alone. -/
def runOptions (environment : Environment) (input : String) (options : Options) : Run :=
  let engine := Engine.new options.config environment
  if options.interactive then ⟨0, Repl.output engine input, options.verbosity⟩
  else
    match options.header with
    | none => ⟨1, [failure Error.missingHeader.message, .err ("\n" ++ usage)], options.verbosity⟩
    | some text => runHeader options engine text

/-- Whether the run for arguments reads the input. -/
def readsInput (arguments : List String) : Bool :=
  match parseFrom { config := {} } arguments with
  | .ok (.run options) => options.interactive
  | _ => false

def run (environment : Environment) (arguments : List String) (input : String) : Run :=
  match parseFrom { config := .ofEnvironment environment } arguments with
  | .error error => ⟨1, [failure error.message, .err ("\n" ++ usage)], 0⟩
  | .ok .help => ⟨0, [.err usage], 0⟩
  | .ok .version => ⟨0, [.out s!"pluralis {version}\n"], 0⟩
  | .ok (.run options) => runOptions environment input options

namespace Run

def stdout (run : Run) : String :=
  String.join (run.output.filterMap fun
    | .out text => some text
    | _ => none)

/-- What a run writes to the error output, without the log. -/
def stderr (run : Run) : String :=
  String.join (run.output.filterMap fun
    | .err text => some text
    | _ => none)

end Run

end PluralForms.CommandLine
