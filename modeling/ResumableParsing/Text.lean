import ResumableParsing.Text.Characters

namespace ResumableParsing.Text

def hexadecimal (width n : Nat) : List Char :=
  let digits := Nat.toDigits 16 n
  List.replicate (width - digits.length) '0' ++ digits

def escapeCodePoint (n : Nat) : List Char :=
  if n < 0x100 then '\\' :: 'x' :: hexadecimal 2 n
  else if n < 0x10000 then '\\' :: 'u' :: hexadecimal 4 n
  else '\\' :: 'U' :: hexadecimal 8 n

def escapeChar (mark c : Char) : List Char :=
  if c = mark ∨ c = '\\' then ['\\', c]
  else if c = '\n' then ['\\', 'n']
  else if c = '\r' then ['\\', 'r']
  else if c = '\t' then ['\\', 't']
  else if isPrintable c then [c]
  else escapeCodePoint c.toNat

def quotationMark (cs : List Char) : Char :=
  if '\'' ∈ cs ∧ '"' ∉ cs then '"' else '\''

def quoted (s : String) : String :=
  let mark := quotationMark s.toList
  String.ofList (mark :: s.toList.flatMap (escapeChar mark) ++ [mark])

def digit? (c : Char) : Option Nat :=
  (decimalZeros.find? fun first => first ≤ c.toNat && c.toNat < first + 10).map (c.toNat - ·)

/-- Reads on behind digits that came to `n`. An underscore may stand before each digit. -/
def natFrom? (n : Nat) : List Char → Option Nat
  | [] => some n
  | '_' :: c :: cs => do natFrom? (10 * n + (← digit? c)) cs
  | c :: cs => do natFrom? (10 * n + (← digit? c)) cs

def natOfDigits? : List Char → Option Nat
  | [] => none
  | c :: cs => do natFrom? (← digit? c) cs

def isBlank (c : Char) : Bool := whitespace.contains c || wideSpaces.contains c.toNat

def trimmed (cs : List Char) : List Char :=
  ((cs.dropWhile isBlank).reverse.dropWhile isBlank).reverse

def intOfNumeral? (cs : List Char) : Option Int :=
  match trimmed cs with
  | '-' :: digits => (natOfDigits? digits).map fun n => -n
  | '+' :: digits => (natOfDigits? digits).map fun n => n
  | digits => (natOfDigits? digits).map fun n => n

end ResumableParsing.Text
