import PluralForms.ParseError
import PluralForms.Text.Basic
import PluralForms.Text.Letter

/-! The tokens of a text with their positions, up to its end or to the first place that starts no
token. -/

namespace PluralForms

/-- The tokens of a text, each with the position of its first character. -/
inductive Lexed where
  | eof (position : Nat)
  | broken (error : ParseError)
  | token (token : Token) (position : Nat) (rest : Lexed)
  deriving Repr

namespace Lexed

/-- The number of tokens. -/
def size : Lexed → Nat
  | .token _ _ rest => rest.size + 1
  | _ => 0

/-- The tokens with their positions. -/
def tokens : Lexed → List (Token × Nat)
  | .token head position rest => (head, position) :: rest.tokens
  | _ => []

/-- What follows the last token: the position of the end of the text, or an error. -/
def ending : Lexed → Except ParseError Nat
  | .eof position => .ok position
  | .broken error => .error error
  | .token _ _ rest => rest.ending

/-- A character that goes on an identifier. -/
def isWordChar (c : Char) : Bool := Text.isAlphanumeric c || c = '_'

/-- The token `double` if `second` follows, and `single` otherwise. -/
def pair (second : Char) (double : Token) (single : Except ParseError.Cause Token) :
    List Char → Except ParseError.Cause (Token × Nat)
  | c :: _ => if c = second then .ok (double, 1) else single.map (·, 0)
  | [] => single.map (·, 0)

/-- The token that starts with the character `c` before `rest`, and how many characters of `rest`
belong to it. -/
def scan (c : Char) (rest : List Char) : Except ParseError.Cause (Token × Nat) :=
  if c.isDigit then
    let digits := rest.takeWhile Char.isDigit
    match Text.int64? (Text.digitsValue (c :: digits)) with
    | some value => .ok (.integer value, digits.length)
    | none => .error .integerOverflow
  else if Text.isAlphabetic c || c = '_' then
    let word := c :: rest.takeWhile isWordChar
    if word = ['n'] then .ok (.count, 0) else .error (.unknownIdentifier (String.ofList word))
  else
    match c with
    | '+' => .ok (.arith .add, 0)
    | '-' => .ok (.arith .sub, 0)
    | '*' => .ok (.arith .mul, 0)
    | '/' => .ok (.arith .div, 0)
    | '%' => .ok (.arith .mod, 0)
    | '?' => .ok (.question, 0)
    | ':' => .ok (.colon, 0)
    | '(' => .ok (.opening, 0)
    | ')' => .ok (.closing, 0)
    | '=' => pair '=' (.compare .eq) (.error (.unexpectedChar c)) rest
    | '!' => pair '=' (.compare .ne) (.ok .not) rest
    | '<' => pair '=' (.compare .le) (.ok (.compare .lt)) rest
    | '>' => pair '=' (.compare .ge) (.ok (.compare .gt)) rest
    | '&' => pair '&' .and (.error (.unexpectedChar c)) rest
    | '|' => pair '|' .or (.error (.unexpectedChar c)) rest
    | _ => .error (.unexpectedChar c)

/-- The tokens of the characters from `position` on, of which the first `skip` belong to the token
before. -/
def ofCharsFrom (position skip : Nat) : List Char → Lexed
  | [] => .eof position
  | c :: rest =>
    match skip with
    | skip + 1 => ofCharsFrom (position + 1) skip rest
    | 0 =>
      if Text.isBlank c then ofCharsFrom (position + 1) 0 rest
      else
        match scan c rest with
        | .ok (head, more) => .token head position (ofCharsFrom (position + 1) more rest)
        | .error cause => .broken ⟨position, cause⟩

/-- The tokens of a text. -/
def ofChars (text : List Char) : Lexed := ofCharsFrom 0 0 text

end Lexed

end PluralForms
