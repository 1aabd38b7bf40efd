import ResumableParsing.Outcome
import ResumableParsing.Window

/-! The machine's stack of frames is a value, so a parse that needs more input can be kept and
continued any number of times. -/

namespace ResumableParsing

variable {κ : Type}

inductive State (κ : Type) where
  | run (parser : Parser κ) (pos : Int) (stack : Stack κ)
  | matched (value : Value) (pos : Int) (stack : Stack κ)
  | failed (failure : Failure) (pos : Int) (stack : Stack κ)

inductive Move (κ : Type) where
  | next (state : State κ)
  | halt (outcome : Outcome κ)

def Parser.enter (g : Grammar κ) (w : Window) (p : Parser κ) (pos : Int) (stack : Stack κ) :
    Except Fault (Move κ) :=
  match p with
  | .token accepts mismatch => do
    match ← w.read pos with
    | .missing => return .halt (.needsMore p pos stack)
    | .endOfInput => return .next (.failed (← mismatch pos .endOfInput) pos stack)
    | .element v =>
      if ← accepts v then return .next (.matched v (pos + 1) stack)
      else return .next (.failed (← mismatch pos v) pos stack)
  | .always value => .ok (.next (.matched value pos stack))
  | .fail message => .ok (.next (.failed (.plain pos message) pos stack))
  | .failWith failure => .ok (.next (.failed failure pos stack))
  | .position => .ok (.next (.matched (.int pos) pos stack))
  | .endOfInput => do
    match ← w.read pos with
    | .missing => return .halt (.needsMore p pos stack)
    | .endOfInput => return .next (.matched .null pos stack)
    | .element v => return .next (.failed (← Failure.expected pos (.str endOfInputText) v) pos stack)
  | .bind first next => .ok (.next (.run first pos (.bind next :: stack)))
  | .choice first others => .ok (.next (.run first pos (.choice others pos none :: stack)))
  | .attempt body => .ok (.next (.run body pos (.attempt pos :: stack)))
  | .sequence [] => .ok (.next (.matched .null pos stack))
  | .sequence (first :: others) => .ok (.next (.run first pos (.sequence others :: stack)))
  | .enumeration [] => .ok (.next (.matched (.stream .empty) pos stack))
  | .enumeration (first :: others) =>
    .ok (.next (.run first pos (.enumeration others .empty :: stack)))
  | .many body => .ok (.next (.run body pos (.many body pos .empty :: stack)))
  | .lookahead body => .ok (.next (.run body pos (.lookahead pos :: stack)))
  | .notFollowedBy body label => .ok (.next (.run body pos (.notFollowedBy pos label :: stack)))
  | .expected label body => .ok (.next (.run body pos (.expected pos label :: stack)))
  | .rule key => .ok (.next (.run (g key) pos stack))
  | .raise fault => .error fault

namespace Frame

def onMatch (frame : Frame κ) (value : Value) (pos : Int) (stack : Stack κ) :
    Except Fault (State κ) :=
  match frame with
  | bind next => .ok (.run (next value) pos stack)
  | choice _ _ _ => .ok (.matched value pos stack)
  | attempt _ => .ok (.matched value pos stack)
  | sequence [] => .ok (.matched value pos stack)
  | sequence (next :: others) => .ok (.run next pos (sequence others :: stack))
  | enumeration [] gathered => .ok (.matched (.stream (gathered.push value)) pos stack)
  | enumeration (next :: others) gathered =>
    .ok (.run next pos (enumeration others (gathered.push value) :: stack))
  | many body start gathered =>
    if pos = start then .ok (.matched (.stream gathered) pos stack)
    else .ok (.run body pos (many body pos (gathered.push value) :: stack))
  | lookahead start => .ok (.matched value start stack)
  | notFollowedBy start label => do return .failed (← Failure.expected start label value) start stack
  | expected _ _ => .ok (.matched value pos stack)

def onFailure (frame : Frame κ) (failure : Failure) (pos : Int) (stack : Stack κ) :
    Except Fault (State κ) :=
  match frame with
  | bind _ => .ok (.failed failure pos stack)
  | choice others start earlier =>
    if pos ≠ start then .ok (.failed failure pos stack)
    else
      let merged := match earlier with
        | none => failure
        | some e => e.merge failure
      match others with
      | [] => .ok (.failed merged pos stack)
      | next :: others => .ok (.run next start (choice others start (some merged) :: stack))
  | attempt start => .ok (.failed failure start stack)
  | sequence _ => .ok (.failed failure pos stack)
  | enumeration _ _ => .ok (.failed failure pos stack)
  | many _ start gathered =>
    if pos ≠ start then .ok (.failed failure pos stack)
    else .ok (.matched (.stream gathered) start stack)
  | lookahead _ => .ok (.failed failure pos stack)
  | notFollowedBy start _ => .ok (.matched .null start stack)
  | expected start label =>
    if pos = start ∧ failure.position = start then do
      return .failed (← Failure.expected start label failure.found) pos stack
    else .ok (.failed failure pos stack)

end Frame

def State.step (g : Grammar κ) (w : Window) : State κ → Except Fault (Move κ)
  | run parser pos stack => parser.enter g w pos stack
  | matched value pos [] => .ok (.halt (.matched value pos))
  | failed failure pos [] => .ok (.halt (.failed failure pos))
  | matched value pos (frame :: stack) => (frame.onMatch value pos stack).map .next
  | failed failure pos (frame :: stack) => (frame.onFailure failure pos stack).map .next

/--
Runs the machine until the parse is resolved, needs more input, or a fault escapes. A recursive
grammar may run for ever, so the steps are bounded by `fuel`; `none` means that it ran out.
-/
def execute (g : Grammar κ) (w : Window) : Nat → State κ → Option (Except Fault (Outcome κ))
  | 0, _ => none
  | fuel + 1, state =>
    match state.step g w with
    | .error fault => some (.error fault)
    | .ok (.halt outcome) => some (.ok outcome)
    | .ok (.next state) => execute g w fuel state

end ResumableParsing
