import ResumableParsing.Trie

/-! Grammars as data: a rule can stand for a parser that is built anew each time it runs. -/

namespace ResumableParsing

inductive Predicate where
  | any
  | never
  | truthy
  | equals (value : Value)
  | isOneOf (values : List Value)
  | hasKind (kind : String)
  | not (p : Predicate)
  | raise (message : String)

inductive MismatchReport where
  | expected (shift : Int) (label : Value)
  | plain (shift : Int) (message : Option String)

inductive FailureDescription where
  | plain (position : Int) (message : Option String)
  | expected (position : Int) (label found : Value)

inductive Transform where
  | display
  | written
  | length
  | list
  | numeral
  | sum
  | join
  | const (value : Value)
  | tag (label : Value)
  | raise (message : String)

mutual

inductive Description where
  | character (text : String)
  | literal (text : String)
  | trie (words : List Word)
  | anyChar
  | letter
  | space
  | digit
  | endOfInput
  | position
  | token (accepts : Predicate) (mismatch : Option MismatchReport)
  | always (value : Value)
  | fail (message : Option String)
  | failWith (failure : FailureDescription)
  | choice (parsers : List Description)
  | sequence (parsers : List Description)
  | enumeration (parsers : List Description)
  | either (p q : Description)
  | next (p q : Description)
  | followedBy (p q : Description)
  | sepBy (p separator : Description)
  | between (opening closing p : Description)
  | attempt (p : Description)
  | many (p : Description)
  | many1 (p : Description)
  | asList (p : Description)
  | lookahead (p : Description)
  | optional (p : Description) (default : Value)
  | notFollowedBy (p : Description) (label : Value)
  | expected (label : Value) (p : Description)
  | map (p : Description) (f : Transform)
  | bind (p : Description) (next : Continuation)
  | deferred (p : Description)
  | rule (name : String)
  | unimplemented
  | value (value : Value)

inductive Continuation where
  | constant (p : Description)
  | table (cases : List (Value × Description)) (otherwise : Description)
  | repeated (p : Description)
  | character
  | literal
  | always
  | fail
  | identity
  | raise (message : String)

end

inductive Rule where
  | named (name : String)
  | described (p : Description)

end ResumableParsing
