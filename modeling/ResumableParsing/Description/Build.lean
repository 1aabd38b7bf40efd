import ResumableParsing.Description.Callbacks

/-! The parts are built from left to right before the combinator looks at them, so the first part
that cannot be built decides the fault. -/

namespace ResumableParsing

inductive Operand (κ : Type) where
  | parser (p : Parser κ)
  | value (v : Value)

namespace Operand

variable {κ : Type}

def require : Operand κ → Except Fault (Parser κ)
  | parser p => .ok p
  | value v => .error (.notAParser v)

/-- What runs when a callback gives the operand: that it is no parser shows only then. -/
def toRun : Operand κ → Parser κ
  | parser p => p
  | value v => .raise (.notRunnable v.kind)

end Operand

def Parser.ofCallback {κ : Type} : Except Fault (Parser κ) → Parser κ
  | .ok p => p
  | .error fault => .raise fault

namespace Description

def lookUp {κ : Type} (v : Value) (otherwise : Operand κ) : List (Value × Operand κ) → Operand κ
  | [] => otherwise
  | (w, p) :: rest => if w.same v then p else lookUp v otherwise rest

mutual

def build : Description → Except Fault (Operand Rule)
  | character text => .ok (.parser (.character (.str text)))
  | literal text => (Parser.literal (.str text)).map .parser
  | trie words => (Trie.ofWords words).compile.map .parser
  | anyChar => .ok (.parser .anyChar)
  | letter => .ok (.parser .letter)
  | space => .ok (.parser .space)
  | digit => .ok (.parser .digit)
  | endOfInput => .ok (.parser .endOfInput)
  | position => .ok (.parser .position)
  | token accepts none => .ok (.parser (.tokenOf accepts.test))
  | token accepts (some mismatch) => .ok (.parser (.token accepts.test mismatch.failure))
  | always v => .ok (.parser (.always v))
  | fail message => .ok (.parser (.fail message))
  | failWith failure => failure.build.map fun e => .parser (.failWith e)
  | choice parsers => do
    let operands ← buildAll parsers
    if operands.isEmpty then throw .noAlternatives
    return .parser (← Parser.choice? (← operands.mapM Operand.require))
  | sequence parsers => do
    return .parser (.sequence (← (← buildAll parsers).mapM Operand.require))
  | enumeration parsers => do
    return .parser (.enumeration (← (← buildAll parsers).mapM Operand.require))
  | either p q => do
    let p ← build p
    let q ← build q
    return .parser (.either (← p.require) (← q.require))
  | next p q => do
    let p ← build p
    let q ← build q
    return .parser (.next (← p.require) (← q.require))
  | followedBy p q => do
    let p ← build p
    let q ← build q
    return .parser (.followedBy (← p.require) (← q.require))
  | sepBy p separator => do
    let p ← build p
    let separator ← build separator
    return .parser (.sepBy (← p.require) (← separator.require))
  | between opening closing p => do
    let opening ← build opening
    let closing ← build closing
    let p ← build p
    let p ← p.require
    let closing ← closing.require
    return .parser (.between (← opening.require) closing p)
  | attempt p => do return .parser (.attempt (← (← build p).require))
  | many p => do return .parser (.many (← (← build p).require))
  | many1 p => do return .parser (.many1 (← (← build p).require))
  | asList p => do return .parser (.asList (← (← build p).require))
  | lookahead p => do return .parser (.lookahead (← (← build p).require))
  | optional p default => do return .parser (.optional (← (← build p).require) default)
  | notFollowedBy p label => do return .parser (.notFollowedBy (← (← build p).require) label)
  | expected label p => do return .parser (.expected label (← (← build p).require))
  | map p f => do return .parser (.map (← (← build p).require) f.apply)
  | bind p continuation => do
    let p ← build p
    let f ← buildContinuation continuation
    return .parser (.bind (← p.require) f)
  | deferred p => .ok (.parser (.rule (.described p)))
  | rule name => .ok (.parser (.rule (.named name)))
  | unimplemented => .ok (.parser (.raise .unimplemented))
  | value v => .ok (.value v)

def buildAll : List Description → Except Fault (List (Operand Rule))
  | [] => .ok []
  | p :: parsers => do return (← build p) :: (← buildAll parsers)

def buildCases : List (Value × Description) → Except Fault (List (Value × Operand Rule))
  | [] => .ok []
  | (v, p) :: cases => do return (v, ← build p) :: (← buildCases cases)

def buildContinuation : Continuation → Except Fault (Value → Parser Rule)
  | .constant p => do
    let p ← build p
    return fun _ => p.toRun
  | .table cases otherwise => do
    let cases ← buildCases cases
    let otherwise ← build otherwise
    return fun v => (lookUp v otherwise cases).toRun
  | .repeated p => do
    let p ← build p
    return fun v => .ofCallback do
      let count ← v.numeral
      return .enumeration (← (List.replicate count.toNat p).mapM Operand.require)
  | .character => .ok fun v => .character v
  | .literal => .ok fun v => .ofCallback (Parser.literal v)
  | .always => .ok .always
  | .fail => .ok fun v => .fail (some v.display)
  | .identity => .ok fun v => .raise (.notRunnable v.kind)
  | .raise message => .ok fun _ => .raise (.raised message)

end

def parser (d : Description) : Except Fault (Parser Rule) := do (← d.build).require

end Description

abbrev Definitions := List (String × Operand Rule)

namespace Definitions

def build (rules : List (String × Description)) : Except Fault Definitions :=
  rules.mapM fun (name, d) => return (name, ← d.build)

def grammar (defs : Definitions) : Grammar Rule
  | .described d => .ofCallback (d.build.map Operand.toRun)
  | .named name => match defs.reverse.lookup name with
    | some operand => operand.toRun
    | none => .raise (.unknownRule name)

end Definitions

end ResumableParsing
