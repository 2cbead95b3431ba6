import PluralForms.Header
import PluralForms.Operator

/-! The families of plural rules that the gettext manual lists, with a direct calculation and the
usual spellings of each. -/

namespace PluralForms

/-- A family of languages with the same plural rule. -/
inductive Family where
  | asian
  | romance
  | brazilianFrench
  | latvian
  | celtic
  | romanian
  | lithuanian
  | russian
  | czech
  | polish
  | slovenian
  | icelandic
  | macedonian
  | arabic
  deriving DecidableEq, Repr

namespace Family

def all : List Family :=
  [.asian, .romance, .brazilianFrench, .latvian, .celtic, .romanian, .lithuanian, .russian, .czech,
   .polish, .slovenian, .icelandic, .macedonian, .arabic]

def name : Family → String
  | .asian => "asian"
  | .romance => "romance"
  | .brazilianFrench => "brazilian-french"
  | .latvian => "latvian"
  | .celtic => "celtic"
  | .romanian => "romanian"
  | .lithuanian => "lithuanian"
  | .russian => "russian"
  | .czech => "czech"
  | .polish => "polish"
  | .slovenian => "slovenian"
  | .icelandic => "icelandic"
  | .macedonian => "macedonian"
  | .arabic => "arabic"

/-- The plural form of the count `n`. -/
def eval (n : Int64) : Family → Int64
  | .asian => 0
  | .romance => wordOfBool (n != 1)
  | .brazilianFrench => wordOfBool (1 < n)
  | .latvian => if n % 10 = 1 ∧ n % 100 ≠ 11 then 0 else if n ≠ 0 then 1 else 2
  | .celtic => if n = 1 then 0 else if n = 2 then 1 else 2
  | .romanian =>
    if n = 1 then 0 else if n = 0 ∨ (0 < n % 100 ∧ n % 100 < 20) then 1 else 2
  | .lithuanian =>
    if n % 10 = 1 ∧ n % 100 ≠ 11 then 0
    else if 2 ≤ n % 10 ∧ (n % 100 < 10 ∨ 20 ≤ n % 100) then 1 else 2
  | .russian =>
    if n % 10 = 1 ∧ n % 100 ≠ 11 then 0
    else if 2 ≤ n % 10 ∧ n % 10 ≤ 4 ∧ (n % 100 < 10 ∨ 20 ≤ n % 100) then 1 else 2
  | .czech => if n = 1 then 0 else if 2 ≤ n ∧ n ≤ 4 then 1 else 2
  | .polish =>
    if n = 1 then 0
    else if 2 ≤ n % 10 ∧ n % 10 ≤ 4 ∧ (n % 100 < 10 ∨ 20 ≤ n % 100) then 1 else 2
  | .slovenian =>
    if n % 100 = 1 then 0 else if n % 100 = 2 then 1
    else if n % 100 = 3 ∨ n % 100 = 4 then 2 else 3
  | .icelandic => wordOfBool (n % 10 != 1 || n % 100 == 11)
  | .macedonian => if n = 1 ∨ n % 10 = 1 then 0 else 1
  | .arabic =>
    if n = 0 then 0 else if n = 1 then 1 else if n = 2 then 2
    else if 3 ≤ n % 100 ∧ n % 100 ≤ 10 then 3 else if 11 ≤ n % 100 then 4 else 5

def canonical : Family → String
  | .asian => "0"
  | .romance => "n != 1"
  | .brazilianFrench => "n > 1"
  | .latvian => "n%10==1 && n%100!=11 ? 0 : n != 0 ? 1 : 2"
  | .celtic => "n==1 ? 0 : n==2 ? 1 : 2"
  | .romanian => "n==1 ? 0 : (n==0 || (n%100 > 0 && n%100 < 20)) ? 1 : 2"
  | .lithuanian => "n%10==1 && n%100!=11 ? 0 : n%10>=2 && (n%100<10 || n%100>=20) ? 1 : 2"
  | .russian =>
    "n%10==1 && n%100!=11 ? 0 : n%10>=2 && n%10<=4 && (n%100<10 || n%100>=20) ? 1 : 2"
  | .czech => "(n==1) ? 0 : (n>=2 && n<=4) ? 1 : 2"
  | .polish => "n==1 ? 0 : n%10>=2 && n%10<=4 && (n%100<10 || n%100>=20) ? 1 : 2"
  | .slovenian => "n%100==1 ? 0 : n%100==2 ? 1 : n%100==3 || n%100==4 ? 2 : 3"
  | .icelandic => "n%10!=1 || n%100==11"
  | .macedonian => "n==1 || n%10==1 ? 0 : 1"
  | .arabic =>
    "n==0 ? 0 : n==1 ? 1 : n==2 ? 2 : n%100>=3 && n%100<=10 ? 3 : n%100>=11 ? 4 : 5"

def variants : Family → List String
  | .asian => []
  | .romance => ["n == 1 ? 0 : 1"]
  | .brazilianFrench => ["n > 1 ? 1 : 0", "n <= 1 ? 0 : 1"]
  | .latvian =>
    ["(n%10==1 && n%100!=11) ? 0 : (n != 0) ? 1 : 2",
     "(n%10==1 && n%100!=11) ? 0 : n != 0 ? 1 : 2"]
  | .celtic => ["(n==1) ? 0 : (n==2) ? 1 : 2"]
  | .romanian => ["n==1 ? 0 : n==0 || (n%100 > 0 && n%100 < 20) ? 1 : 2"]
  | .lithuanian => ["(n%10==1 && n%100!=11) ? 0 : (n%10>=2 && (n%100<10 || n%100>=20)) ? 1 : 2"]
  | .russian =>
    ["(n%10==1 && n%100!=11) ? 0 : (n%10>=2 && n%10<=4 && (n%100<10 || n%100>=20)) ? 1 : 2"]
  | .czech => ["n==1 ? 0 : n>=2 && n<=4 ? 1 : 2"]
  | .polish => ["(n==1) ? 0 : (n%10>=2 && n%10<=4 && (n%100<10 || n%100>=20)) ? 1 : 2"]
  | .slovenian => ["(n%100==1) ? 0 : (n%100==2) ? 1 : (n%100==3 || n%100==4) ? 2 : 3"]
  | .icelandic => ["n%10==1 && n%100!=11 ? 0 : 1"]
  | .macedonian => ["(n==1 || n%10==1) ? 0 : 1"]
  | .arabic =>
    ["(n==0) ? 0 : (n==1) ? 1 : (n==2) ? 2 : (n%100>=3 && n%100<=10) ? 3 : (n%100>=11) ? 4 : 5"]

def spellings (family : Family) : List String := family.canonical :: family.variants

/-- The key of an expression, which blanks and parentheses around all of it do not change. -/
def key (expression : List Char) : List Char :=
  Header.registryKey (Header.stripParens (Text.trim expression))

/-- The keys of all spellings, each once. -/
def keys : List (List Char) :=
  ((all.flatMap spellings).map fun spelling => key spelling.toList).eraseDups

/-- Some spelling of the family has the key `wanted`. -/
def hasKey (wanted : List Char) (family : Family) : Bool :=
  family.spellings.any fun spelling => key spelling.toList = wanted

/-- The family with a spelling that has the same key as the expression. -/
def lookup? (expression : List Char) : Option Family := all.find? (hasKey (key expression))

end Family

end PluralForms
