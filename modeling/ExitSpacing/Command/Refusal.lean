import ExitSpacing.Command.Options
import ExitSpacing.Text.Quoted

/-! What is said about option values that no settings can be made of: a count, and
for each field its issue with the value that was given, long values cut short. -/
namespace ExitSpacing.Command

def startWithin : Nat → List Char → List Char
  | _, [] => []
  | room, c :: rest => if c.utf8Size ≤ room then c :: startWithin (room - c.utf8Size) rest else []

def endWithin (room : Nat) (cs : List Char) : List Char := (startWithin room cs.reverse).reverse

def valueLimit : Nat := 50

def abridged (s : String) : String :=
  if s.utf8ByteSize ≤ valueLimit then s
  else String.ofList (startWithin 25 s.toList ++ ['.', '.', '.'] ++ endWithin 24 s.toList)

/-- The value that was given for a field, as it is shown, and the word for its type. -/
def givenValue (o : Options) (field : String) : String × String :=
  match field with
  | "block_size" => (toString o.blockSize, "int")
  | "parallelism" => (toString o.parallelism, "int")
  | _ => (Text.quoted o.policy, "str")

def issueLines (o : Options) (issue : Issue) : String :=
  let (value, type) := givenValue o issue.field
  s!"{issue.field}\n  {issue.problem.message} [type={issue.problem.code}, " ++
    s!"input_value={abridged value}, input_type={type}]\n"

def refusal (options : Options) (issues : List Issue) : String :=
  let noun := if issues.length = 1 then "error" else "errors"
  s!"invalid options:\n{issues.length} validation {noun} for FormatterConfig\n" ++
    "".intercalate (issues.map (issueLines options))

end ExitSpacing.Command
