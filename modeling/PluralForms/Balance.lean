/-! The balance of parentheses in a line of input, which tells whether the line is ready. -/

namespace PluralForms

/-- Whether a line is ready, lacks closing parentheses, or has one too many at a byte position. -/
inductive Balance where
  | complete
  | incomplete (opened : Nat)
  | unmatched (position : Nat)
  deriving DecidableEq, Repr

namespace Balance

/-- The balance of the text from the byte `position` on, before which `opened` parentheses are open.
-/
def ofCharsFrom (position opened : Nat) : List Char → Balance
  | [] => if opened = 0 then complete else incomplete opened
  | c :: rest =>
    if c = '(' then ofCharsFrom (position + c.utf8Size) (opened + 1) rest
    else if c = ')' then
      match opened with
      | 0 => unmatched position
      | opened + 1 => ofCharsFrom (position + c.utf8Size) opened rest
    else ofCharsFrom (position + c.utf8Size) opened rest

def ofChars (text : List Char) : Balance := ofCharsFrom 0 0 text

/-- What is wrong with a line that further input cannot complete. -/
def invalidReason? : Balance → Option String
  | .unmatched position => some s!"unmatched ')' at {position}"
  | _ => none

end Balance

end PluralForms
