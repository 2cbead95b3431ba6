import PluralForms.Optimizer
import PluralForms.Text.Basic

/-! The configuration of an engine, with defaults that environment variables override. -/

namespace PluralForms

/-- The value of each environment variable that is set. -/
abbrev Environment := String → Option String

/-- The stages that an engine may use, and the limit of rounds of its optimizer. -/
structure Config where
  optimize : Bool := true
  native : Bool := true
  known : Bool := true
  rounds : Nat := Optimizer.defaultRounds
  deriving DecidableEq, Repr

namespace Config

/-- A variable that is set to anything but `0` or `false` stands for yes. -/
def flag (environment : Environment) (name : String) : Bool :=
  match environment name with
  | none => false
  | some value =>
    let value := Text.trim value.toList
    value != ['0'] && value.map Char.toLower != "false".toList

def ofEnvironment (environment : Environment) : Config where
  optimize := !flag environment "PLURALIS_NO_OPTIMIZE"
  native := !flag environment "PLURALIS_NO_JIT"
  known := !flag environment "PLURALIS_NO_KNOWN"
  rounds :=
    ((environment "PLURALIS_OPTIMIZER_ROUNDS").bind fun value =>
      Text.unsigned64? (Text.trim value.toList)).getD Optimizer.defaultRounds

def interpreted : Config := { native := false }

def withoutKnown (config : Config) : Config := { config with known := false }

def withoutOptimizer (config : Config) : Config := { config with optimize := false }

def withoutNative (config : Config) : Config := { config with native := false }

def debug (config : Config) : String :=
  s!"EngineConfig \x7b optimize: {config.optimize}, jit: {config.native}, " ++
    s!"known_formulas: {config.known}, max_optimizer_rounds: {config.rounds} \x7d"

end Config

end PluralForms
