import PluralForms.Text.Basic
import PluralForms.Text.Quoted

/-! Ranges of counts, written `A..B` without the end or `A..=B` with it. -/

namespace PluralForms

/-- The counts from `start` on that are less than `stop`. -/
structure CountRange where
  start : Int64
  stop : Int64
  deriving DecidableEq, Repr

namespace CountRange

/-- The text before the first two dots, and the text after them. -/
def splitAtDots? : List Char → Option (List Char × List Char)
  | '.' :: '.' :: rest => some ([], rest)
  | c :: rest => (splitAtDots? rest).map fun parts => (c :: parts.1, parts.2)
  | [] => none

/-- The next word, or the same at the top of the range of words. -/
def next (x : Int64) : Int64 := if x = Int64.maxValue then x else x + 1

/-- The number that the text denotes, with blanks around it. -/
def bound? (text : List Char) : Option Int64 := Text.signed64? (Text.trim text)

/-- The range that the text denotes; none if it denotes no range or its end comes before its
start. -/
def parse? (text : List Char) : Option CountRange := do
  let (first, last) ← splitAtDots? (Text.trim text)
  let start ← bound? first
  let stop ←
    match last with
    | '=' :: last => (bound? last).map next
    | last => bound? last
  if stop < start then none else some ⟨start, stop⟩

def invalidMessage (text : String) : String :=
  s!"Invalid range: {Text.quoted text} (expected A..B or A..=B)"

def counts (range : CountRange) : List Int64 :=
  (List.range (range.stop.toInt - range.start.toInt).toNat).map fun step =>
    range.start + Int64.ofNat step

end CountRange

end PluralForms
