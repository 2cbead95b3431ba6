/-! Characters and numbers in texts: classes of characters, blanks, and decimal notation. A class is
given by ranges of code points, the form in which the Unicode standard lists its properties. A text
denotes a number only if it holds a sign and digits and nothing else. -/

namespace PluralForms.Text

/-! ### Classes of characters -/

/-- Some range of `ranges` holds the code point of `c`; both ends belong to a range. -/
def inRanges (ranges : List (Nat × Nat)) (c : Char) : Bool :=
  ranges.any fun range => range.1 ≤ c.toNat && c.toNat ≤ range.2

/-! ### Blanks -/

/-- The code points with the property `White_Space`. -/
def blankRanges : List (Nat × Nat) :=
  [(0x9, 0xD), (0x20, 0x20), (0x85, 0x85), (0xA0, 0xA0), (0x1680, 0x1680), (0x2000, 0x200A),
   (0x2028, 0x2029), (0x202F, 0x202F), (0x205F, 0x205F), (0x3000, 0x3000)]

/-- A blank separates tokens and is trimmed from the ends of a text. -/
def isBlank (c : Char) : Bool := inRanges blankRanges c

def trimStart (text : List Char) : List Char := text.dropWhile isBlank

/-- The text up to its last character that is not blank. -/
def trimEnd (text : List Char) : List Char := (text.reverse.dropWhile isBlank).reverse

def trim (text : List Char) : List Char := trimEnd (trimStart text)

/-! ### Decimal notation -/

/-- The text of an integer: a minus sign if it is negative, and its digits. -/
def decimal : Int → String
  | .ofNat n => String.ofList (Nat.toDigits 10 n)
  | .negSucc n => String.ofList ('-' :: Nat.toDigits 10 (n + 1))

/-- The text of an integer with its sign, which is a plus sign for zero. -/
def signedDecimal (x : Int) : String :=
  if x < 0 then decimal x else "+" ++ decimal x

/-- The text of an integer with zeros after the sign, to at least `width` characters. -/
def paddedDecimal (width : Nat) (x : Int) : String :=
  let sign := if x < 0 then ['-'] else []
  let digits := Nat.toDigits 10 x.natAbs
  String.ofList (sign ++ List.replicate (width - sign.length - digits.length) '0' ++ digits)

/-- The value of a run of decimal digits, the most significant first. -/
def digitsValue (digits : List Char) : Nat :=
  digits.foldl (fun value digit => 10 * value + (digit.toNat - '0'.toNat)) 0

/-- The natural number written with these digits; a text without digits denotes none. -/
def natural? (text : List Char) : Option Nat :=
  if !text.isEmpty && text.all Char.isDigit then some (digitsValue text) else none

/-- The integer as a word of 64 bits, if it fits. -/
def int64? (x : Int) : Option Int64 :=
  if -0x8000000000000000 ≤ x ∧ x < 0x8000000000000000 then some (Int64.ofInt x) else none

/-- The signed number of 64 bits that the text denotes; a plus sign may stand before the digits. -/
def signed64? : List Char → Option Int64
  | '-' :: digits => (natural? digits).bind fun n => int64? (-n)
  | '+' :: digits => (natural? digits).bind fun n => int64? n
  | digits => (natural? digits).bind fun n => int64? n

/-- The unsigned number of 64 bits that the digits denote. -/
def digits64? (digits : List Char) : Option Nat := (natural? digits).filter (· < UInt64.size)

/-- The unsigned number of 64 bits that the text denotes; a plus sign may stand before the
digits. -/
def unsigned64? : List Char → Option Nat
  | '+' :: digits => digits64? digits
  | digits => digits64? digits

end PluralForms.Text
