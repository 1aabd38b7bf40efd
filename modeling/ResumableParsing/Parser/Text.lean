import ResumableParsing.Parser

namespace ResumableParsing.Parser

variable {κ : Type}

def reporting (label : Value) : Int → Value → Except Fault Failure :=
  fun pos element => Failure.expected pos label element

def character (c : Value) : Parser κ := token (fun element => .ok (c.same element)) (reporting c)

/--
A mismatch inside a literal is reported where the literal starts; what was found is the part that
matched with the offending element after it.
-/
def literalMismatch (text : Value) (index : Nat) (pos : Int) (element : Value) :
    Except Fault Failure :=
  let read := text.take index
  Failure.expected (pos - index) text <| match element with
    | .sentinel .endOfInput => if read.truthy then read else .endOfInput
    | _ => .str (read.display ++ element.display)

def literalFrom (text : Value) (index : Nat) : List Value → Parser κ
  | [] => always text
  | key :: keys =>
    (token (fun element => .ok (key.same element)) (literalMismatch text index)).next
      (literalFrom text (index + 1) keys)

def literal (text : Value) : Except Fault (Parser κ) := do
  let length ← text.length
  match text with
  | .stream _ => if length = 0 then return attempt (always text) else throw (.notSliceable text.kind)
  | _ => return attempt (literalFrom text 0 (← text.elements))

def isCharacterOf (isMember : Char → Bool) : Value → Bool
  | .str s => match s.toList with
    | [c] => isMember c
    | _ => false
  | _ => false

def characterClass (isMember : Char → Bool) (name : String) : Parser κ :=
  token (fun element => .ok (isCharacterOf isMember element)) (reporting (.str name))

def anyChar : Parser κ := characterClass (fun c => !Text.lineTerminators.contains c) "any character"

def letter : Parser κ := characterClass Text.letters.contains "any letter character"

def space : Parser κ := characterClass Text.whitespace.contains "any space character"

def digit : Parser κ := characterClass Text.decimalDigits.contains "any digit character"

end ResumableParsing.Parser
