import ResumableParsing.Fault

namespace ResumableParsing

inductive Reading where
  | element (value : Value)
  | endOfInput
  | missing

namespace Reading

/-- Sentinels may also arrive as elements, and then mean the same. -/
def ofElement : Value → Reading
  | .sentinel .endOfInput => endOfInput
  | .sentinel .missing => missing
  | v => element v

def value : Reading → Value
  | element v => v
  | endOfInput => .endOfInput
  | missing => .missing

end Reading

structure Window where
  elements : Array Value
  offset : Int
  closed : Bool

namespace Window

def empty : Window := ⟨#[], 0, false⟩

def stop (w : Window) : Int := w.offset + w.elements.size

def read (w : Window) (pos : Int) : Except Fault Reading :=
  if pos < w.offset then .error (.released pos w.offset)
  else match w.elements[(pos - w.offset).toNat]? with
    | some v => .ok (.ofElement v)
    | none => .ok (if w.closed then .endOfInput else .missing)

def extend (w : Window) (chunk : Value) : Except Fault Window :=
  if w.closed then .error .inputClosed
  else do return { w with elements := w.elements ++ (← chunk.elements).toArray }

def close (w : Window) : Window := { w with closed := true }

def release (w : Window) (watermark : Int) : Window :=
  if watermark ≤ w.offset then w
  else
    let kept := min watermark w.stop
    { w with
      elements := w.elements.extract (kept - w.offset).toNat w.elements.size
      offset := kept }

end Window

end ResumableParsing
