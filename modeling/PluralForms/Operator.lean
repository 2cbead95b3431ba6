/-! The operators of plural formulas on words of 64 bits: five arithmetic operators, which are
total, and six comparisons. -/

namespace PluralForms

inductive Arithmetic where
  | add | sub | mul | div | mod
  deriving DecidableEq, Repr, Inhabited

/-- Addition, subtraction and multiplication wrap. Division goes toward zero, the remainder has the
sign of the dividend, and both are zero for the divisor zero. -/
def Arithmetic.apply : Arithmetic → Int64 → Int64 → Int64
  | .add, a, b => a + b
  | .sub, a, b => a - b
  | .mul, a, b => a * b
  | .div, a, b => if b = 0 then 0 else a / b
  | .mod, a, b => if b = 0 then 0 else a % b

/-- Whether the operator binds more closely than addition. -/
def Arithmetic.isMultiplicative : Arithmetic → Bool
  | .mul | .div | .mod => true
  | .add | .sub => false

def Arithmetic.divides : Arithmetic → Bool
  | .div | .mod => true
  | .add | .sub | .mul => false

/-- A comparison of signed words. -/
inductive Comparison where
  | eq | ne | lt | le | gt | ge
  deriving DecidableEq, Repr, Inhabited

/-- Whether `a` stands in the relation to `b`. -/
def Comparison.holds : Comparison → Int64 → Int64 → Bool
  | .eq, a, b => a == b
  | .ne, a, b => a != b
  | .lt, a, b => a < b
  | .le, a, b => a ≤ b
  | .gt, a, b => b < a
  | .ge, a, b => b ≤ a

/-- The comparison that holds exactly when this one does not. -/
def Comparison.inverse : Comparison → Comparison
  | .eq => .ne
  | .ne => .eq
  | .lt => .ge
  | .le => .gt
  | .gt => .le
  | .ge => .lt

/-- A truth value as a word. -/
def wordOfBool (b : Bool) : Int64 := if b then 1 else 0

end PluralForms
