import ResumableParsing.Description

namespace ResumableParsing

def Predicate.test : Predicate → Value → Except Fault Bool
  | any, _ => .ok true
  | never, _ => .ok false
  | truthy, v => .ok v.truthy
  | equals w, v => .ok (v.same w)
  | isOneOf ws, v => .ok (ws.any v.same)
  | hasKind kind, v => .ok (v.kind == kind)
  | not p, v => (p.test v).map (!·)
  | raise message, _ => .error (.raised message)

def MismatchReport.failure : MismatchReport → Int → Value → Except Fault Failure
  | expected shift label, pos, element => Failure.expected (pos + shift) label element
  | plain shift message, pos, _ => .ok (.plain (pos + shift) message)

def FailureDescription.build : FailureDescription → Except Fault Failure
  | plain position message => .ok (.plain position message)
  | expected position label found => Failure.expected position label found

namespace Value

def numeral (v : Value) : Except Fault Int :=
  match v, v.number? with
  | _, some n => .ok n
  | str s, none => match Text.intOfNumeral? s.toList with
    | some n => .ok n
    | none => .error (.notNumeral v)
  | _, none => .error (.notNumeric v.kind)

def sum (v : Value) : Except Fault Int := do
  (← v.elements).foldlM (fun total item => match item.number? with
    | some n => .ok (total + n)
    | none => .error (.notAddable item.kind)) 0

end Value

def Transform.apply : Transform → Value → Except Fault Value
  | display, v => .ok (.str v.display)
  | written, v => .ok (.str v.written)
  | length, v => v.length.map fun n => .int n
  | list, v => v.elements.map .list
  | numeral, v => v.numeral.map .int
  | sum, v => v.sum.map .int
  | join, v => v.elements.map fun items => .str (String.join (items.map Value.display))
  | const w, _ => .ok w
  | tag label, v => .ok (.list [label, v])
  | raise message, _ => .error (.raised message)

end ResumableParsing
