import ResumableParsing.Fault

namespace ResumableParsing

inductive Reason where
  | plain (message : Option String)
  | expected (alternatives : List String) (found : Value)

structure Failure where
  position : Int
  reason : Reason

def endOfInputText : String := "end of input"

namespace Reason

def alternativesText (alternatives : List String) : String := " or ".intercalate alternatives

def message? : Reason → Option String
  | plain message => message
  | expected alternatives found =>
    some ("Expected " ++ alternativesText alternatives ++ ", found " ++ found.display)

end Reason

namespace Failure

def plain (position : Int) (message : Option String) : Failure := ⟨position, .plain message⟩

def alternativesOf : Value → Except Fault (List String)
  | .str s => .ok [s]
  | label => label.elements.map (List.map Value.display)

def foundOf : Value → Value
  | .sentinel .endOfInput => .str endOfInputText
  | v => v

def expected (position : Int) (label found : Value) : Except Fault Failure := do
  return ⟨position, .expected (← alternativesOf label) (foundOf found)⟩

def message (e : Failure) : String :=
  "At position " ++ toString e.position ++ match e.reason.message? with
    | some text => ": " ++ text
    | none => ""

def kind (e : Failure) : String :=
  match e.reason with
  | .plain _ => "ParseError"
  | .expected _ _ => "ExpectError"

def record? (e : Failure) : Option (List (String × Value)) :=
  match e.reason with
  | .plain _ => none
  | .expected alternatives found =>
    some [("kind", .str e.kind), ("position", .int e.position),
      ("expected", .str (Reason.alternativesText alternatives)), ("found", .str found.display)]

def found (e : Failure) : Value :=
  match e.reason with
  | .expected _ found => found
  | .plain _ => .endOfInput

/--
Two expectations at one position become one, with the alternatives of both. Otherwise the failure
that got further stays, the later one on a tie.
-/
def merge (e e' : Failure) : Failure :=
  let further := if e.position > e'.position then e else e'
  match e.reason, e'.reason with
  | .expected as found, .expected bs _ =>
    if e'.position = e.position then ⟨e.position, .expected (as ++ bs).eraseDups found⟩ else further
  | _, _ => further

end Failure

end ResumableParsing
