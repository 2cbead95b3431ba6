import PluralForms.CountRange
import PluralForms.Engine

/-! Sessions, in which lines load a formula, evaluate it and ask about it. A line that fails changes
nothing but the cache and the memory of native code. -/

namespace PluralForms

/-- A formula with the text it was made of. A bare expression has no number of plural forms. -/
structure Session.Current where
  source : String
  formula : Formula
  nplurals : Option Nat

/-- An engine and the formula that was loaded last. -/
structure Session where
  engine : Engine
  current : Option Session.Current := none

namespace Session

inductive Error where
  | noFormula
  | unknownCommand (command : String)
  | invalidCount (text : String)
  | invalidRange (text : String)
  | formula (error : FormulaError)
  deriving DecidableEq, Repr

def Error.message : Error → String
  | .noFormula => "No formula loaded; enter a header first"
  | .unknownCommand command => s!"Unknown command: {command}"
  | .invalidCount text => s!"Invalid count: {text}"
  | .invalidRange text => CountRange.invalidMessage text
  | .formula error => error.message

/-- What a line leads to. -/
inductive Outcome where
  | output (text : String)
  | quit
  deriving DecidableEq, Repr

def help : String :=
  "Enter a Plural-Forms header (nplurals=N; plural=EXPR;) or a bare expression\n" ++
  "to make it the current formula, then counts to evaluate it.\n" ++
  "\n" ++
  "COMMANDS:\n" ++
  "    <n> [<n> ...]     Evaluate the current formula\n" ++
  "    :range A..B       Evaluate over A..B (or A..=B)\n" ++
  "    :header <TEXT>    Load a header\n" ++
  "    :strategy         Show how the current formula is evaluated\n" ++
  "    :disasm           Show the current formula's bytecode or syntax tree\n" ++
  "    :help             Show this message\n" ++
  "    :quit             Exit"

/-- The commands that start with a colon and are spelled out. -/
def commands : List String := [":disasm", ":header", ":help", ":quit", ":range", ":strategy"]

/-- A line by its meaning. -/
inductive Request where
  | nothing
  | quit
  | help
  | header (text : List Char)
  | range (text : List Char)
  | strategy
  | listing
  | unknown (command : List Char)
  | counts (text : List Char)
  | expression (text : List Char)
  deriving DecidableEq, Repr

/-- The part of a line before its first blank, and the part after it without blanks at its ends. -/
def splitCommand (line : List Char) : List Char × List Char :=
  (line.takeWhile fun c => !Text.isBlank c, Text.trim (line.dropWhile fun c => !Text.isBlank c))

/-- Whether a line holds digits, signs and separators alone. -/
def looksLikeCounts (line : List Char) : Bool :=
  line.all fun c => c.isDigit || c = '-' || c = ',' || Text.isBlank c

/-- Whether `part` stands somewhere in the text. -/
def holds (part : List Char) : List Char → Bool
  | [] => part.isEmpty
  | c :: rest => part.isPrefixOf (c :: rest) || holds part rest

/-- The meaning of a line. -/
def Request.ofLine (line : List Char) : Request :=
  let line := Text.trim line
  let (command, rest) := splitCommand line
  match String.ofList command with
  | "" => .nothing
  | ":quit" | ":q" | "exit" | "quit" => .quit
  | ":help" | ":h" => .help
  | ":header" => .header rest
  | ":range" => .range rest
  | ":strategy" => .strategy
  | ":disasm" => .listing
  | _ =>
    if command.head? = some ':' then .unknown command
    else if holds "plural".toList line then .header line
    else if looksLikeCounts line then .counts line
    else .expression line

/-- The parts of a text between commas and blanks. -/
def countTexts (text : List Char) : List (List Char) :=
  (text.splitOnP fun c => c = ',' || Text.isBlank c).filter fun part => !part.isEmpty

def parseCounts (text : List Char) : Except Error (List Int64) :=
  (countTexts text).mapM fun part =>
    match Text.signed64? part with
    | some n => .ok n
    | none => .error (.invalidCount (String.ofList part))

def parseRange (text : List Char) : Except Error CountRange :=
  match CountRange.parse? text with
  | some range => .ok range
  | none => .error (.invalidRange (String.ofList text))

namespace Current

/-- The line with the plural form of the count `n`, marked if the header has no such form. -/
def evalLine (current : Current) (n : Int64) : String :=
  match current.formula.eval n with
  | none => s!"{Text.decimal n.toInt} -> "
  | some index =>
    let isIn := current.nplurals.all fun nplurals : Nat => 0 ≤ index && index.toInt < nplurals
    s!"{Text.decimal n.toInt} -> {Text.decimal index.toInt}" ++
      (if isIn then "" else "  (out of range)")

def table (current : Current) (counts : List Int64) : String :=
  "\n".intercalate (counts.map current.evalLine)

def describe (current : Current) : String :=
  let trimmed (text : String) : String := String.ofList (Text.trimEnd text.toList)
  let body :=
    match current.formula.program?, current.formula.tree? with
    | some program, _ => trimmed program.listing
    | none, some tree => trimmed tree.text
    | none, none => s!"no bytecode for a {current.formula.strategy} formula"
  s!"; {current.source}\n{body}"

end Current

def loaded (session : Session) : Except Error Current :=
  match session.current with
  | some current => .ok current
  | none => .error .noFormula

/-- The outcome of a line, the session after it and what was reported. -/
structure Reply where
  outcome : Except Error Outcome
  session : Session
  events : List Event := []

def loadHeader (session : Session) (text : List Char) : Reply :=
  let source := String.ofList text
  let reply := session.engine.make source
  match reply.answer with
  | .error error => ⟨.error (.formula error), { session with engine := reply.engine }, reply.events⟩
  | .ok ⟨formula, nplurals⟩ =>
    ⟨.ok (.output s!"nplurals={nplurals}, strategy={formula.strategy}"),
      ⟨reply.engine, some ⟨source, formula, some nplurals⟩⟩, reply.events⟩

def loadExpression (session : Session) (text : List Char) : Reply :=
  let source := String.ofList text
  let reply := session.engine.compileExpression source
  match reply.answer with
  | .error error => ⟨.error (.formula error), { session with engine := reply.engine }, reply.events⟩
  | .ok formula =>
    ⟨.ok (.output s!"strategy={formula.strategy}"),
      ⟨reply.engine, some ⟨source, formula, none⟩⟩, reply.events⟩

/-- Does what a line asks for. -/
def answer (session : Session) : Request → Reply
  | .nothing => ⟨.ok (.output ""), session, []⟩
  | .quit => ⟨.ok .quit, session, []⟩
  | .help => ⟨.ok (.output help), session, []⟩
  | .header text => session.loadHeader text
  | .expression text => session.loadExpression text
  | .range text =>
    ⟨do
      let range ← parseRange text
      let current ← session.loaded
      return .output (current.table range.counts), session, []⟩
  | .counts text =>
    ⟨do
      let counts ← parseCounts text
      let current ← session.loaded
      return .output (current.table counts), session, []⟩
  | .strategy => ⟨do return .output (← session.loaded).formula.strategy, session, []⟩
  | .listing => ⟨do return .output (← session.loaded).describe, session, []⟩
  | .unknown command => ⟨.error (.unknownCommand (String.ofList command)), session, []⟩

def handle (session : Session) (line : String) : Reply :=
  session.answer (.ofLine line.toList)

end Session

end PluralForms
