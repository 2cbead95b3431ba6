import PluralForms.Cache
import PluralForms.Event
import PluralForms.Native.Arena
import PluralForms.Native.Assembly
import PluralForms.Native.X86
import PluralForms.Selection.Parser
import PluralForms.SyntaxTree.Parser

/-! The engine, which makes formulas of headers and of expressions. Two readers are asked in turn;
programs are optimized and become native code as far as the configuration asks for it and a program
allows it. Formulas of headers are cached. -/

namespace PluralForms

/-- A formula for a header, and the number of plural forms. -/
structure Plural where
  formula : Formula
  nplurals : Nat

/-- An engine with its memory of native code and its cache. -/
structure Engine where
  config : Config
  arena : Native.Arena := {}
  cache : Cache Plural

namespace Engine

/-- The outcome of an attempt, the memory of native code after it, and what was reported. -/
structure Attempt (α : Type) where
  outcome : α
  arena : Native.Arena
  events : List Event

def compileNative (arena : Native.Arena) (program : Program) :
    Except Native.Error (List UInt8 × Native.Arena) := do
  let code ← Native.assemble Native.X86.isa program
  let (_, arena) ← arena.install code
  return (code, arena)

def compiledEvent (program : Program) (code : List UInt8) : Event :=
  .compiled Native.X86.isa.name program.length code.length

/-- The optimized program and the reports, or the program itself if it is not to be optimized. -/
def optimized (config : Config) (program : Program) : Program × List Event :=
  if config.optimize then
    let outcome := Optimizer.optimize config.rounds program
    (outcome.program,
      outcome.reports.map .optimizing ++ [.optimized program.length outcome])
  else (program, [])

/-- The formula of a program. A program that does nothing but return a constant is not compiled. -/
def ofProgram (config : Config) (arena : Native.Arena) (program : Program) : Attempt Formula :=
  match program with
  | [.ret value] => ⟨.constant value, arena, []⟩
  | program =>
    let (program, events) := optimized config program
    if config.native then
      match compileNative arena program with
      | .ok (code, arena) =>
        ⟨.native code program, arena, events ++ [compiledEvent program code]⟩
      | .error error => ⟨.bytecode program, arena, events ++ [.noNativeCode error program]⟩
    else ⟨.bytecode program, arena, events⟩

/-- The formula of an expression. The reader of syntax trees is asked if the reader of selections
finds no fatal error; if both refuse, the error is the last one's. -/
def ofExpression (config : Config) (arena : Native.Arena) (expression : List Char) :
    Attempt (Except FormulaError Formula) :=
  match Program.compile expression with
  | .ok program =>
    let attempt := ofProgram config arena program
    { attempt with outcome := .ok attempt.outcome }
  | .error first =>
    let refused := Event.rejected .bytecode expression first
    if first.isFatal then ⟨.error (.parse expression first), arena, [refused]⟩
    else
      match SyntaxTree.parse expression with
      | .ok tree => ⟨.ok (.tree tree), arena, [refused]⟩
      | .error second =>
        ⟨.error (.parse expression second), arena,
          [refused, .rejected .tree expression second]⟩

def ofHeader (config : Config) (arena : Native.Arena) (text : String) :
    Attempt (Except FormulaError Plural) :=
  match Header.parse text.toList with
  | .error error => ⟨.error (.header error), arena, []⟩
  | .ok header =>
    if header.nplurals = 1 then ⟨.ok ⟨.constant 0, 1⟩, arena, []⟩
    else
      match (if config.known then Family.lookup? header.expression else none) with
      | some family =>
        ⟨.ok ⟨.known family, header.nplurals⟩, arena,
          [.knownFormula family header.expression]⟩
      | none =>
        let attempt := ofExpression config arena header.expression
        { attempt with
          outcome := attempt.outcome.map fun formula => ⟨formula, header.nplurals⟩ }

/-! ### Engines -/

/-- An engine that has made no formula. -/
def new (config : Config) (environment : Environment) : Engine where
  config := config
  cache := .ofEnvironment environment

/-- An answer of an engine, with the engine after it and what was reported. -/
structure Reply (α : Type) where
  answer : α
  engine : Engine
  events : List Event

/-- Makes a formula without a look at the cache. -/
def makeUncached (engine : Engine) (text : String) : Reply (Except FormulaError Plural) :=
  let attempt := ofHeader engine.config engine.arena text
  ⟨attempt.outcome, { engine with arena := attempt.arena }, attempt.events⟩

/-- Finds the formula for a header in the cache, or makes it and enters it there. -/
def make (engine : Engine) (text : String) : Reply (Except FormulaError Plural) :=
  let build (_ : Unit) :=
    let attempt := ofHeader engine.config engine.arena text
    (attempt.outcome, attempt.arena, attempt.events)
  match engine.cache.getOrInsert text build with
  | (answer, some (arena, events), cache) => ⟨answer, { engine with arena, cache }, events⟩
  | (answer, none, cache) => ⟨answer, { engine with cache }, []⟩

def compileExpression (engine : Engine) (expression : String) :
    Reply (Except FormulaError Formula) :=
  let attempt := ofExpression engine.config engine.arena expression.toList
  ⟨attempt.outcome, { engine with arena := attempt.arena }, attempt.events⟩

def clearCache (engine : Engine) : Engine := { engine with cache := engine.cache.clear }

def debug (engine : Engine) : String :=
  s!"Engine \x7b config: {engine.config.debug}, " ++
    s!"jit: JitCompiler \x7b arena: {engine.arena.debug} \x7d, cache: {engine.cache.debug} \x7d"

end Engine

end PluralForms
