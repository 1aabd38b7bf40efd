import ResumableParsing.Failure

/-! Parsers are descriptions of how to match. A parser refers to itself by a rule of its grammar,
which gives the parser when it runs. -/

namespace ResumableParsing

inductive Parser (κ : Type) where
  | token (accepts : Value → Except Fault Bool) (mismatch : Int → Value → Except Fault Failure)
  | always (value : Value)
  | fail (message : Option String)
  | failWith (failure : Failure)
  | position
  | endOfInput
  | bind (first : Parser κ) (next : Value → Parser κ)
  | choice (first : Parser κ) (others : List (Parser κ))
  | attempt (body : Parser κ)
  | sequence (parsers : List (Parser κ))
  | enumeration (parsers : List (Parser κ))
  | many (body : Parser κ)
  | lookahead (body : Parser κ)
  | notFollowedBy (body : Parser κ) (label : Value)
  | expected (label : Value) (body : Parser κ)
  | rule (key : κ)
  /-- What a callback gives when it has no parser to give: running it lets the fault escape. -/
  | raise (fault : Fault)

abbrev Grammar (κ : Type) := κ → Parser κ

namespace Parser

variable {κ : Type}

def tokenOf (accepts : Value → Except Fault Bool) : Parser κ :=
  token accepts fun pos element => Failure.expected pos (.str "token") element

def next (p q : Parser κ) : Parser κ := p.bind fun _ => q

def followedBy (p q : Parser κ) : Parser κ := p.bind fun value => q.bind fun _ => always value

def map (p : Parser κ) (f : Value → Except Fault Value) : Parser κ :=
  p.bind fun value => match f value with
    | .ok result => always result
    | .error fault => raise fault

def choice? : List (Parser κ) → Except Fault (Parser κ)
  | [] => .error .noAlternatives
  | first :: others => .ok (choice first others)

def either (p q : Parser κ) : Parser κ := choice p [q]

def optional (p : Parser κ) (default : Value) : Parser κ := choice p [always default]

def asList (p : Parser κ) : Parser κ := p.map fun value => value.elements.map .list

def leading (p more : Parser κ) : Parser κ :=
  p.bind fun first => (many more).map fun rest => do
    return .stream ((Stream.ofList (← rest.elements)).prepend first)

def many1 (p : Parser κ) : Parser κ := leading p p

def sepBy (p separator : Parser κ) : Parser κ :=
  (leading p (separator.next p)).optional (.stream .empty)

def between (opening closing p : Parser κ) : Parser κ := opening.next (p.followedBy closing)

end Parser

end ResumableParsing
