import PluralForms.Session

/-! Help at the prompt: hints from lines entered before, and completion of commands. Positions count
bytes. -/

namespace PluralForms

/-- The lines entered before, the oldest first. -/
structure Prompt where
  history : List String := []

namespace Prompt

def historyLimit : Nat := 100

/-- Adds a line. The oldest is dropped if there are too many. -/
def add (prompt : Prompt) (line : String) : Prompt :=
  ⟨(if historyLimit ≤ prompt.history.length then prompt.history.drop 1 else prompt.history) ++
    [line]⟩

/-- The rest of `line` after `start`, if it starts so and goes on. -/
def continuation? (start line : String) : Option String :=
  match Header.after? start line.toList with
  | none | some [] => none
  | some rest => some (String.ofList rest)

/-- The rest of the latest line that goes on from what is typed, if the cursor is at its end. -/
def hint? (prompt : Prompt) (line : String) (position : Nat) : Option String :=
  if line.isEmpty || position < line.utf8ByteSize then none
  else prompt.history.reverse.findSome? (continuation? line)

/-- The characters that lie within the first `size` bytes. -/
def takeBytes (size : Nat) : List Char → List Char
  | [] => []
  | c :: rest => if c.utf8Size ≤ size then c :: takeBytes (size - c.utf8Size) rest else []

/-- The position where completions start, and the commands that go on from the text before the
cursor. -/
def complete (line : String) (position : Nat) : Nat × List String :=
  let typed := takeBytes position line.toList
  if typed.head? != some ':' || typed.any Text.isBlank then (position, [])
  else (0, Session.commands.filter fun command => typed.isPrefixOf command.toList)

def highlight (hint : String) : String := s!"\x1b[90m{hint}\x1b[0m"

end Prompt

end PluralForms
