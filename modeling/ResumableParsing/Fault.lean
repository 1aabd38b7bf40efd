import ResumableParsing.Value

/-! A fault is no failure of a parse: it ends the whole call in which it comes up, whatever
combinators surround it. -/

namespace ResumableParsing

inductive Fault where
  | notAParser (value : Value)
  | noAlternatives
  | noWords
  | inputClosed
  | released (pos offset : Int)
  | notIterable (kind : String)
  | noLength (kind : String)
  | notSliceable (kind : String)
  | notRunnable (kind : String)
  | notNumeral (value : Value)
  | notNumeric (kind : String)
  | notAddable (kind : String)
  | unknownRule (name : String)
  | unimplemented
  | raised (message : String)

namespace Fault

def kind : Fault → String
  | notAParser _ | notIterable _ | noLength _ | notSliceable _ | notNumeric _ | notAddable _ =>
    "TypeError"
  | noAlternatives | noWords | inputClosed | notNumeral _ | raised _ => "ValueError"
  | released _ _ => "IndexError"
  | notRunnable _ => "AttributeError"
  | unknownRule _ => "KeyError"
  | unimplemented => "NotImplementedError"

def message : Fault → String
  | notAParser value => "Expected a parser, got " ++ value.written ++ "."
  | noAlternatives => "At least one parser required."
  | noWords => "At least one word required."
  | inputClosed => "Can't provide more input after the end of the input."
  | released pos offset =>
    "Position " ++ toString pos ++ " was already released (buffer starts at " ++ toString offset ++
      ")."
  | notIterable kind => "'" ++ kind ++ "' object is not iterable"
  | noLength kind => "object of type '" ++ kind ++ "' has no len()"
  | notSliceable kind => "'" ++ kind ++ "' object is not subscriptable"
  | notRunnable kind => "'" ++ kind ++ "' object has no attribute '_step'"
  -- only the beginning of a long text is shown
  | notNumeral value =>
    "invalid literal for int() with base 10: " ++ String.ofList (value.written.toList.take 200)
  | notNumeric kind =>
    "int() argument must be a string, a bytes-like object or a real number, not '" ++ kind ++ "'"
  | notAddable kind => "unsupported operand type(s) for +: 'int' and '" ++ kind ++ "'"
  | unknownRule name => Text.quoted name
  | unimplemented => ""
  | raised message => message

end Fault

namespace Value

def elements : Value → Except Fault (List Value)
  | str s => .ok (s.toList.map char)
  | list items => .ok items
  | tuple items => .ok items
  | stream items => .ok items.toList
  | v => .error (.notIterable v.kind)

def length : Value → Except Fault Nat
  | str s => .ok s.length
  | list items => .ok items.length
  | tuple items => .ok items.length
  | stream items => .ok items.size
  | v => .error (.noLength v.kind)

def take (n : Nat) : Value → Value
  | str s => str (String.ofList (s.toList.take n))
  | list items => list (items.take n)
  | tuple items => tuple (items.take n)
  | v => v

end Value

end ResumableParsing
