import PluralForms.SyntaxTree
import PluralForms.ParseError
import PluralForms.Text.Basic

/-! The reader of syntax trees, with the precedence of C:

    conditional := or ('?' conditional ':' conditional)?
    or          := and ('||' and)*
    and         := equality ('&&' equality)*
    equality    := relational (('==' | '!=') relational)*
    relational  := sum (('<=' | '>=' | '<' | '>') sum)*
    sum         := product (('+' | '-') product)*
    product     := unary (('*' | '/' | '%') unary)*
    unary       := ('-' | '!') unary | primary
    primary     := 'n' | INTEGER | '(' conditional ')'

A choice in parentheses may stand where a result is needed, and not as an operand or a condition.
Gaps around operators and marks are spaces, tabs and line ends; before an operand every blank may
stand. -/

namespace PluralForms.SyntaxTree

/-- A failure: the text from the place where it arises, and its cause if that is not simply the
character there. -/
structure Fault where
  rest : List Char
  cause : Option ParseError.Cause

/-- A reader yields what it read and the text that follows. -/
abbrev Reader (α : Type) := List Char → Except Fault (α × List Char)

/-- A character of a gap between tokens. -/
def isGap (c : Char) : Bool := c = ' ' || c = '\t' || c = '\r' || c = '\n'

def skipGap (text : List Char) : List Char := text.dropWhile isGap

/-- The text after a mark, with the gaps on both sides of it. -/
def expect (mark : Char) (text : List Char) : Except Fault (List Char) :=
  match skipGap text with
  | c :: rest => if c = mark then .ok (skipGap rest) else .error ⟨c :: rest, none⟩
  | [] => .error ⟨[], none⟩

/-- The first operator of a table that the text starts with, and the text after it. -/
def operatorAt (table : List (String × BinaryOp)) (text : List Char) :
    Option (BinaryOp × List Char) :=
  table.findSome? fun entry =>
    if entry.1.toList.isPrefixOf text then some (entry.2, text.drop entry.1.length) else none

/-- The tree as an expression; `start` is the text from its first character on. -/
def toExpr (start : List Char) : SyntaxTree → Except Fault Expr
  | .result value => .ok value
  | .choose _ _ _ => .error ⟨start, some .ternaryOperand⟩

/-- One operator of the table with its right operand, after an operand at `start`. -/
def operation (table : List (String × BinaryOp)) (next : Reader SyntaxTree) (start : List Char)
    (left : SyntaxTree) (text : List Char) : Except Fault (Option (SyntaxTree × List Char)) :=
  match operatorAt table (skipGap text) with
  | none => .ok none
  | some (op, rest) => do
    let first ← left.toExpr (Text.trimStart start)
    let rest := skipGap rest
    let (right, after) ← next rest
    let second ← right.toExpr (Text.trimStart rest)
    if (op = .arith .div || op = .arith .mod) && second = .literal 0 then
      .error ⟨Text.trimStart rest, some .divisionByZero⟩
    return some (.result (.binary op first second), after)

/-- Applies `step` to what was read so far as long as it finds something to add, which it does at
most `fuel` times. -/
def repeated (step : α → List Char → Except Fault (Option (α × List Char))) : Nat → α → Reader α
  | 0, soFar => fun text => .ok (soFar, text)
  | fuel + 1, soFar => fun text => do
    match ← step soFar text with
    | none => return (soFar, text)
    | some (more, rest) => repeated step fuel more rest

/-- Operands that `next` reads, joined from left to right by operators of the table. -/
def joined (table : List (String × BinaryOp)) (next : Reader SyntaxTree) : Reader SyntaxTree :=
  fun text => do
    let (first, rest) ← next text
    repeated (operation table next text) rest.length first rest

/-- The operators between operands, from those that bind most closely to those that bind least. Of
two operators in a row that start alike, the longer stands first. -/
def precedence : List (List (String × BinaryOp)) :=
  [[("*", .arith .mul), ("/", .arith .div), ("%", .arith .mod)],
   [("+", .arith .add), ("-", .arith .sub)],
   [("<=", .compare .le), (">=", .compare .ge), ("<", .compare .lt), (">", .compare .gt)],
   [("==", .compare .eq), ("!=", .compare .ne)],
   [("&&", .and)],
   [("||", .or)]]

/-- The unary operator that the text starts with. The start of `!=` is none. -/
def signAt : List Char → Option (UnaryOp × List Char)
  | '-' :: rest => some (.neg, rest)
  | '!' :: '=' :: _ => none
  | '!' :: rest => some (.not, rest)
  | _ => none

def isNameChar (c : Char) : Bool := c.isAlphanum || c = '_'

/-- The count, a number, or a tree in parentheses, which `inner` reads. -/
def primary (inner : Reader SyntaxTree) : Reader SyntaxTree := fun text =>
  match text with
  | [] => .error ⟨[], none⟩
  | c :: rest =>
    if c = '(' then do
      let (tree, after) ← inner (skipGap rest)
      return (tree, ← expect ')' after)
    else if c.isDigit then
      let digits := text.takeWhile Char.isDigit
      match Text.int64? (Text.digitsValue digits) with
      | some value => .ok (.result (.literal value), text.drop digits.length)
      | none => .error ⟨text, some .integerOverflow⟩
    else if c.isAlpha || c = '_' then
      let name := text.takeWhile isNameChar
      if name = ['n'] then .ok (.result .count, rest)
      else .error ⟨text, some (.unknownIdentifier (String.ofList name))⟩
    else .error ⟨text, none⟩

/-- A primary expression behind less than `fuel` unary operators. -/
def unary (inner : Reader SyntaxTree) : Nat → Reader SyntaxTree
  | 0 => fun text => .error ⟨text, none⟩
  | fuel + 1 => fun text =>
    let text := Text.trimStart text
    match signAt text with
    | none => primary inner text
    | some (op, rest) => do
      let rest := skipGap rest
      let (tree, after) ← unary inner fuel rest
      let operand ← tree.toExpr (Text.trimStart rest)
      return (.result (.ofUnary op operand), after)

/-- Operands joined by the operators of all rows. -/
def operations (inner : Reader SyntaxTree) : Reader SyntaxTree :=
  precedence.foldl (fun next table => joined table next)
    fun text => unary inner (text.length + 1) text

/-- A tree with less than `depth` trees inside one another. -/
def conditional : Nat → Reader SyntaxTree
  | 0 => fun text => .error ⟨text, none⟩
  | depth + 1 => fun text => do
    let inner := conditional depth
    let (head, rest) ← operations inner text
    match skipGap rest with
    | '?' :: rest =>
      let condition ← head.toExpr (Text.trimStart text)
      let (yes, rest) ← inner (skipGap rest)
      let (no, rest) ← inner (← expect ':' rest)
      return (.choose condition yes no, rest)
    | _ => return (head, rest)

/-- The error of a text in which a fault arises. The position counts the characters before the fault
and, of the blanks there, the bytes. -/
def Fault.toParseError (text : List Char) (fault : Fault) : ParseError :=
  let blanks := fault.rest.takeWhile Text.isBlank
  let size := blanks.foldl (fun size c => size + c.utf8Size) 0
  let position := text.length - fault.rest.length + size
  match fault.cause, Text.trimStart fault.rest with
  | some cause, _ => ⟨position, cause⟩
  | none, c :: _ => ⟨position, .unexpectedChar c⟩
  | none, [] => ⟨position, .unexpectedEnd .expression⟩

def parse (text : List Char) : Except ParseError SyntaxTree :=
  if (Text.trim text).isEmpty then .error ⟨0, .empty⟩
  else
    match conditional (text.length + 1) text with
    | .error fault => .error (fault.toParseError text)
    | .ok (tree, rest) =>
      match skipGap rest with
      | [] => .ok tree
      | rest => .error (Fault.toParseError text ⟨rest, none⟩)

end PluralForms.SyntaxTree
