import PluralForms.Balance
import PluralForms.Session

/-! The dialog with a session over a whole input. Lines are collected until their parentheses are
balanced, and then handled. -/

namespace PluralForms

/-- A piece of output: to the standard output, to the error output, or to the log. -/
inductive Output where
  | out (text : String)
  | err (text : String)
  | log (event : Event)

def version : String := "0.1.0"

namespace Repl

/-- The lines of an input with their ends. -/
def inputLines : List Char → List (List Char)
  | [] => []
  | c :: rest =>
    if c = '\n' then [c] :: inputLines rest
    else
      match inputLines rest with
      | [] => [[c]]
      | line :: lines => (c :: line) :: lines

/-- The text without its line end, and the line end. -/
def splitLineEnd (text : List Char) : List Char × List Char :=
  match text.reverse with
  | '\n' :: '\r' :: rest => (rest.reverse, ['\r', '\n'])
  | '\n' :: rest => (rest.reverse, ['\n'])
  | _ => (text, [])

/-- The output for the outcome of a line. -/
def outcomeOutput : Except Session.Error Session.Outcome → List Output
  | .ok (.output text) => if text.isEmpty then [] else [.out (text ++ "\n")]
  | .ok .quit => []
  | .error error => [.err s!"Error: {error.message}\n"]

/-- The output for the lines of an input, where `pending` was read before and awaits more. -/
def outputFrom (session : Session) (pending : List Char) : List (List Char) → List Output
  | [] => []
  | line :: lines =>
    let (text, lineEnd) := splitLineEnd (pending ++ line)
    let balance := Balance.ofChars text
    match balance with
    | .incomplete _ => outputFrom session (text ++ lineEnd) lines
    | .unmatched _ =>
      .err (balance.invalidReason?.getD "") :: outputFrom session text lines
    | .complete =>
      if (Text.trim text).isEmpty then outputFrom session [] lines
      else
        let reply := session.handle (String.ofList text)
        reply.events.map .log ++ outcomeOutput reply.outcome ++
          match reply.outcome with
          | .ok .quit => []
          | _ => outputFrom reply.session [] lines

def output (engine : Engine) (input : String) : List Output :=
  .out s!"pluralis v{version}\nType :help for commands, :quit to exit.\n\n" ::
    outputFrom ⟨engine, none⟩ [] (inputLines input.toList)

end Repl

end PluralForms
