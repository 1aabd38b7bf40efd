import ResumableParsing.Parser

namespace ResumableParsing

inductive Frame (κ : Type) where
  | bind (next : Value → Parser κ)
  | choice (others : List (Parser κ)) (start : Int) (failure : Option Failure)
  | attempt (start : Int)
  | sequence (others : List (Parser κ))
  | enumeration (others : List (Parser κ)) (gathered : Stream Value)
  | many (body : Parser κ) (start : Int) (gathered : Stream Value)
  | lookahead (start : Int)
  | notFollowedBy (start : Int) (label : Value)
  | expected (start : Int) (label : Value)

abbrev Stack (κ : Type) := List (Frame κ)

variable {κ : Type}

def Frame.rewind? : Frame κ → Option Int
  | attempt start => some start
  | lookahead start => some start
  | notFollowedBy start _ => some start
  | _ => none

/-- The oldest position that may still be read when a parse goes on at `pos` under `stack`. -/
def Stack.watermark (stack : Stack κ) (pos : Int) : Int :=
  (stack.filterMap Frame.rewind?).foldl min pos

inductive Outcome (κ : Type) where
  | matched (value : Value) (pos : Int)
  | failed (failure : Failure) (pos : Int)
  | needsMore (parser : Parser κ) (pos : Int) (stack : Stack κ)

namespace Outcome

def position : Outcome κ → Int
  | matched _ pos => pos
  | failed _ pos => pos
  | needsMore _ pos _ => pos

def resolved : Outcome κ → Bool
  | needsMore _ _ _ => false
  | _ => true

def truthy : Outcome κ → Bool
  | failed _ _ => false
  | _ => true

def written : Outcome κ → String
  | matched value pos => "<Matched " ++ toString pos ++ " \x7b" ++ value.written ++ "\x7d>"
  | failed failure pos => "<Failed " ++ toString pos ++ " " ++ failure.message ++ ">"
  | needsMore _ pos _ => "<NeedsMore " ++ toString pos ++ ">"

end Outcome

end ResumableParsing
