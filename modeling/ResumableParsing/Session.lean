import ResumableParsing.Machine

/-! Feeding a session gives a new one and leaves the old one as it was. -/

namespace ResumableParsing

inductive Event where
  | discarded (pos : Int)
  | provided (count pos : Int)
  | released (count : Int)
  | suspended (pos : Int)
  | resolved (pos : Int)
  | finished (pos : Int)
  | failed (failure : Failure)
  | stillSuspended (pos : Int)

def Event.text : Event → String
  | discarded pos => "session already resolved at " ++ toString pos ++ ", discarding input"
  | provided count pos =>
    "provided " ++ toString count ++ " elements, resuming at " ++ toString pos
  | released count => "released " ++ toString count ++ " buffered elements"
  | suspended pos => "suspended at " ++ toString pos
  | resolved pos => "resolved at " ++ toString pos
  | finished pos => "finished at " ++ toString pos
  | failed failure => "failed: " ++ failure.message
  | stillSuspended pos => "still suspended at " ++ toString pos ++ " after the end of the input"

variable {κ : Type}

structure Session (κ : Type) where
  outcome : Outcome κ
  window : Window

structure Logged (α : Type) where
  events : List Event
  result : α

inductive Problem where
  | failure (failure : Failure)
  | fault (fault : Fault)

namespace Session

def start (g : Grammar κ) (fuel : Nat) (p : Parser κ) : Option (Except Fault (Session κ)) :=
  (execute g .empty fuel (.run p 0 [])).map (Except.map (⟨·, .empty⟩))

def settle (w : Window) : Outcome κ → Logged (Session κ)
  | .needsMore parser pos stack =>
    let watermark := stack.watermark pos
    let kept := w.release watermark
    let events := if watermark ≤ w.offset then [] else [.released (kept.offset - w.offset)]
    ⟨events ++ [.suspended pos], ⟨.needsMore parser pos stack, kept⟩⟩
  | outcome => ⟨[.resolved outcome.position], ⟨outcome, w.release outcome.position⟩⟩

def provide (g : Grammar κ) (fuel : Nat) (s : Session κ) (chunk : Value) :
    Option (Logged (Except Fault (Session κ))) :=
  match s.outcome with
  | .needsMore parser pos stack =>
    match s.window.extend chunk with
    | .error fault => some ⟨[], .error fault⟩
    | .ok w =>
      let provided := Event.provided (w.stop - s.window.stop) pos
      (execute g w fuel (.run parser pos stack)).map fun
        | .error fault => ⟨[provided], .error fault⟩
        | .ok outcome =>
          let settled := settle w outcome
          ⟨provided :: settled.events, .ok settled.result⟩
  | outcome => some ⟨[.discarded outcome.position], .ok s⟩

def conclude : Outcome κ → Logged (Except Problem Value)
  | .matched value pos => ⟨[.finished pos], .ok value⟩
  | .failed failure _ => ⟨[.failed failure], .error (.failure failure)⟩
  | .needsMore _ pos _ =>
    ⟨[.stillSuspended pos],
      .error (.failure ⟨pos, .expected ["more input"] (.str endOfInputText)⟩)⟩

def finish (g : Grammar κ) (fuel : Nat) (s : Session κ) :
    Option (Logged (Except Problem Value)) :=
  match s.outcome with
  | .needsMore parser pos stack =>
    (execute g s.window.close fuel (.run parser pos stack)).map fun
      | .error fault => ⟨[], .error (.fault fault)⟩
      | .ok outcome => conclude outcome
  | outcome => some (conclude outcome)

def written (s : Session κ) : String := "<Session " ++ s.outcome.written ++ ">"

end Session

def Parser.run (g : Grammar κ) (fuel : Nat) (p : Parser κ) (input : Value) :
    Option (Logged (Except Problem Value)) :=
  (Session.start g fuel p).bind fun
    | .error fault => some ⟨[], .error (.fault fault)⟩
    | .ok fresh => (fresh.provide g fuel input).bind fun
      | ⟨events, .error fault⟩ => some ⟨events, .error (.fault fault)⟩
      | ⟨events, .ok fed⟩ =>
        (fed.finish g fuel).map fun ending => ⟨events ++ ending.events, ending.result⟩

end ResumableParsing
