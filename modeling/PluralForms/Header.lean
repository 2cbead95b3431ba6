import PluralForms.Text.Basic
import PluralForms.Text.Lowercase
import PluralForms.Text.Quoted

/-! The `Plural-Forms` field of a message catalog, such as `nplurals=2; plural=(n != 1);`. Letter
case does not matter, blanks may stand around the parts, and lines may be continued after a
backslash. -/

namespace PluralForms

/-- Why a text is not a `Plural-Forms` field. -/
inductive HeaderError where
  | missingNplurals (text : String)
  | missingSeparator (text : String)
  | invalidNplurals (count : String)
  | zeroNplurals
  | missingPlural (rest : String)
  deriving DecidableEq, Repr

def HeaderError.message : HeaderError → String
  | .missingNplurals text =>
    s!"Invalid Plural-Forms {Text.quoted text}, not starting with nplurals="
  | .missingSeparator text =>
    s!"Invalid Plural-Forms {Text.quoted text}, can't find number of plurals"
  | .invalidNplurals count =>
    s!"Invalid Plural-Forms, can't parse nplurals {Text.quoted count}"
  | .zeroNplurals => "Invalid Plural-Forms, nplurals must be positive"
  | .missingPlural rest =>
    s!"Invalid plural formula {Text.quoted rest}, not starting with plural="

/-- The number of plural forms and the expression that chooses among them. -/
structure Header where
  nplurals : Nat
  expression : List Char
  deriving DecidableEq, Repr

namespace Header

/-- The text with continued lines joined. -/
def joinLines : List Char → List Char
  | '\\' :: '\n' :: rest => joinLines rest
  | c :: rest => c :: joinLines rest
  | [] => []

/-- The text after `start`, if it starts so. -/
def after? (start : String) (text : List Char) : Option (List Char) :=
  if start.toList.isPrefixOf text then some (text.drop start.length) else none

/-- The text after the field `name` and its equals sign. -/
def value? (name : String) (text : List Char) : Option (List Char) :=
  match (after? name text).map Text.trimStart with
  | some ('=' :: rest) => some rest
  | _ => none

/-- The text before the first `mark` and the text after it. -/
def splitAt? (mark : Char) : List Char → Option (List Char × List Char)
  | [] => none
  | c :: rest =>
    if c = mark then some ([], rest)
    else (splitAt? mark rest).map fun parts => (c :: parts.1, parts.2)

/-- The text without a last character `mark`. -/
def dropLastMark (mark : Char) (text : List Char) : List Char :=
  if text.getLast? = some mark then text.dropLast else text

/-- Every closing parenthesis has an opening one before it, where `depth` are open at the start, and
all are closed at the end. The depth has no bound here; a depth of 32 bits with a sign is the same
for texts of fewer than `2 ^ 31` parentheses. -/
def isBalanced : Nat → List Char → Bool
  | depth, [] => depth = 0
  | depth, c :: rest =>
    if c = '(' then isBalanced (depth + 1) rest
    else if c = ')' then
      match depth with
      | 0 => false
      | depth + 1 => isBalanced depth rest
    else isBalanced depth rest

/-- The expression without a pair of parentheses around all of it. -/
def stripParens (expression : List Char) : List Char :=
  match expression with
  | '(' :: rest =>
    if rest.getLast? = some ')' && isBalanced 0 rest.dropLast then rest.dropLast else expression
  | _ => expression

/-- The expression without blanks, by which well-known expressions are told. -/
def registryKey (expression : List Char) : List Char := expression.filter fun c => !Text.isBlank c

def parse (text : List Char) : Except HeaderError Header := do
  let lowered := Text.lowercase (Text.trim (joinLines text))
  let form := ((after? "plural-forms:" lowered).map Text.trimStart).getD lowered
  let some form := value? "nplurals" form | throw (.missingNplurals (String.ofList text))
  let some (count, rest) := splitAt? ';' form | throw (.missingSeparator (String.ofList text))
  let count := Text.trim count
  let some nplurals := Text.unsigned64? count | throw (.invalidNplurals (String.ofList count))
  if nplurals = 0 then throw .zeroNplurals
  let rest := Text.trim rest
  let some expression := value? "plural" rest | throw (.missingPlural (String.ofList rest))
  let expression := Text.trim (dropLastMark ';' expression)
  return ⟨nplurals, Text.trim (stripParens expression)⟩

end Header

end PluralForms
