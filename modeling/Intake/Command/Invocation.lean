import Intake.Command.Check
import Intake.Command.Describe
/-!
# Invocations

The words of a command line: the command, then its options, each `--name value` or
`--name=value`.
-/

namespace Intake.Command

inductive Invocation where
  | check (request : CheckRequest)
  | describe (request : DescribeRequest)
deriving Repr

namespace Invocation

/-- How to call the program. -/
def usage : String :=
  "usage: check --schema FILE --input FILE [--messages FILE] [--format text|json]\n" ++
  "       describe --schema FILE [--messages FILE]\n"

/-- The name of an option, and its value if that is in the same word. -/
def splitOption (word : List Char) : Option (String × Option String) :=
  match word with
  | '-' :: '-' :: rest =>
    let name := String.ofList (rest.takeWhile (· != '='))
    match rest.dropWhile (· != '=') with
    | _ :: value => some (name, some (String.ofList value))
    | [] => some (name, none)
  | _ => none

/-- The options of a command, none of them twice. -/
def readOptions (allowed : List String) : List String → Option (Table String)
  | [] => some []
  | word :: rest => do
    let (name, inline) ← splitOption word.toList
    match inline, rest with
    | some value, rest => add name value (← readOptions allowed rest)
    | none, value :: rest => add name value (← readOptions allowed rest)
    | none, [] => none
where
  /-- Adds an option that is allowed and not there yet. -/
  add (name value : String) (others : Table String) : Option (Table String) :=
    if name ∈ allowed ∧ !Table.contains others name then some ((name, value) :: others) else none

/-- The invocation that the words of a command line stand for. -/
def ofWords : List String → Option Invocation
  | "check" :: words => do
    let options ← readOptions ["schema", "input", "messages", "format"] words
    let schema ← Table.get? options "schema"
    let input ← Table.get? options "input"
    let layout ← Layout.ofName? ((Table.get? options "format").getD "text")
    return .check { schema, input, messages := Table.get? options "messages", layout }
  | "describe" :: words => do
    let options ← readOptions ["schema", "messages"] words
    let schema ← Table.get? options "schema"
    return .describe { schema, messages := Table.get? options "messages" }
  | _ => none

/-- The files that an invocation names. -/
def fileNames : Invocation → List String
  | check r => r.schema :: r.input :: r.messages.toList
  | describe r => r.schema :: r.messages.toList

/-- What is printed, and whether the input, if there is one, was valid. -/
def run (files : Table String) : Invocation → Except Failure CheckAnswer
  | check r => Command.check files r
  | describe r => do return { valid := true, output := ← Command.describe files r }

end Invocation

end Intake.Command
