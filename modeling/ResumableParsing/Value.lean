import ResumableParsing.Stream
import ResumableParsing.Text

namespace ResumableParsing

/-- Marks that stand where an element of the input is read and there is none. -/
inductive Sentinel where
  | endOfInput
  | missing
  deriving DecidableEq

def Sentinel.written : Sentinel → String
  | .endOfInput => "<END>"
  | .missing => "<MISSING>"

inductive Value where
  | null
  | bool (b : Bool)
  | int (n : Int)
  | str (s : String)
  | list (items : List Value)
  | tuple (items : List Value)
  | stream (items : Stream Value)
  | sentinel (mark : Sentinel)

namespace Value

def char (c : Char) : Value := str (String.singleton c)

def endOfInput : Value := sentinel .endOfInput

def missing : Value := sentinel .missing

def kind : Value → String
  | null => "NoneType"
  | bool _ => "bool"
  | int _ => "int"
  | str _ => "str"
  | list _ => "list"
  | tuple _ => "tuple"
  | stream _ => "Stream"
  | sentinel _ => "_Sentinel"

def truthy : Value → Bool
  | null => false
  | bool b => b
  | int n => n != 0
  | str s => s != ""
  | list items => !items.isEmpty
  | tuple items => !items.isEmpty
  | stream items => items.size != 0
  | sentinel _ => true

def number? : Value → Option Int
  | bool b => some (if b then 1 else 0)
  | int n => some n
  | _ => none

mutual

def same : Value → Value → Bool
  | null, null => true
  | bool a, w => w.number? == some (if a then 1 else 0)
  | int a, w => w.number? == some a
  | str a, str b => a == b
  | list as, list bs => sameItems as bs
  | list as, stream bs => sameItems as bs.toList
  | tuple as, tuple bs => sameItems as bs
  | tuple as, stream bs => sameItems as bs.toList
  | stream ⟨as, _⟩, list bs => sameItems as bs.reverse
  | stream ⟨as, _⟩, tuple bs => sameItems as bs.reverse
  | stream ⟨as, _⟩, stream bs => sameItems as bs.newestFirst
  | sentinel a, sentinel b => a == b
  | _, _ => false

def sameItems : List Value → List Value → Bool
  | [], [] => true
  | a :: as, b :: bs => same a b && sameItems as bs
  | _, _ => false

end

mutual

def written : Value → String
  | null => "None"
  | bool true => "True"
  | bool false => "False"
  | int n => toString n
  | str s => Text.quoted s
  | list items => "[" ++ ", ".intercalate (writtenItems items) ++ "]"
  | tuple [item] => "(" ++ written item ++ ",)"
  | tuple items => "(" ++ ", ".intercalate (writtenItems items) ++ ")"
  | stream ⟨newestFirst, _⟩ =>
    "Stream([" ++ ", ".intercalate (writtenItems newestFirst).reverse ++ "])"
  | sentinel mark => mark.written

def writtenItems : List Value → List String
  | [] => []
  | item :: items => written item :: writtenItems items

end

def display : Value → String
  | str s => s
  | v => v.written

end Value

end ResumableParsing
