import PluralForms.Family
import PluralForms.Machine
import PluralForms.ParseError
import PluralForms.SyntaxTree

/-! Plural formulas ready for use, and how each calculates the plural form of a count. -/

namespace PluralForms

/-- A plural formula. Native code stands beside the program that it was made of. -/
inductive Formula where
  | constant (value : Int64)
  | known (family : Family)
  | native (code : List UInt8) (program : Program)
  | bytecode (program : Program)
  | tree (syntaxTree : SyntaxTree)

/-- Why there is no formula for a header or an expression. -/
inductive FormulaError where
  | header (error : HeaderError)
  | parse (expression : List Char) (error : ParseError)
  deriving DecidableEq, Repr

/-- The text of the error that an error of formulas stems from. -/
def FormulaError.source : FormulaError → String
  | .header error => error.message
  | .parse _ error => error.message

def FormulaError.message : FormulaError → String
  | .header error => error.message
  | .parse expression error =>
    s!"Error parsing plural formula {Text.quoted (String.ofList expression)}: {error.message}"

namespace Formula

/-- The plural form of the count `n`; none if the calculation never ends. Native code calculates
what its program does. -/
def eval (n : Int64) : Formula → Option Int64
  | .constant value => some value
  | .known family => some (family.eval n)
  | .native _ program | .bytecode program => Machine.exec program n
  | .tree syntaxTree => some (syntaxTree.eval n)

def strategy : Formula → String
  | .constant _ => "constant"
  | .known family => s!"known({family.name})"
  | .native _ _ => "native"
  | .bytecode _ => "bytecode"
  | .tree _ => "tree"

def program? : Formula → Option Program
  | .native _ program | .bytecode program => some program
  | _ => none

def tree? : Formula → Option SyntaxTree
  | .tree syntaxTree => some syntaxTree
  | _ => none

def debug (formula : Formula) : String :=
  let parts :=
    match formula with
    | .constant value => s!"Constant, value: {Text.decimal value.toInt}"
    | .known family => s!"Known({Text.quoted family.name})"
    | .native code program =>
      s!"Native, code_size: {code.length}, program: {Text.quoted program.text}"
    | .bytecode program => s!"Bytecode, program: {Text.quoted program.text}"
    | .tree syntaxTree => s!"Tree, tree: {Text.quoted syntaxTree.text}"
  s!"Formula \x7b strategy: {parts} \x7d"

end Formula

end PluralForms
