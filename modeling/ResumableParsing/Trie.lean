import ResumableParsing.Parser.Text

namespace ResumableParsing

abbrev Word := List String

/-- The children stand in the order in which their keys first came. -/
inductive Trie where
  | node (terminal : Bool) (children : List (String × Trie))

namespace Trie

def empty : Trie := node false []

def terminal : Trie → Bool
  | node terminal _ => terminal

def children : Trie → List (String × Trie)
  | node _ children => children

def isEmpty (t : Trie) : Bool := !t.terminal && t.children.isEmpty

def child? (t : Trie) (key : String) : Option Trie := t.children.lookup key

def setChild (key : String) (child : Trie) : List (String × Trie) → List (String × Trie)
  | [] => [(key, child)]
  | (k, c) :: rest => if k = key then (k, child) :: rest else (k, c) :: setChild key child rest

def insert (t : Trie) : Word → Trie
  | [] => node true t.children
  | key :: word =>
    node t.terminal (setChild key (((t.child? key).getD empty).insert word) t.children)

def contains (t : Trie) : Word → Bool
  | [] => t.terminal
  | key :: word => match t.child? key with
    | some child => child.contains word
    | none => false

def ofWords (words : List Word) : Trie := words.foldl insert empty

variable {κ : Type}

mutual

def branches (spelt : String) : Trie → Except Fault (Parser κ)
  | node terminal children => do
    let alternatives ← childBranches spelt children
    if terminal then
      Parser.choice? (alternatives.map .attempt ++ [.always (.str spelt)])
    else Parser.choice? alternatives

def childBranches (spelt : String) : List (String × Trie) → Except Fault (List (Parser κ))
  | [] => .ok []
  | (key, child) :: rest => do
    let below ← branches (spelt ++ key) child
    return (Parser.character (.str key)).next below :: (← childBranches spelt rest)

end

def compile (t : Trie) : Except Fault (Parser κ) :=
  if t.isEmpty then .error .noWords else do return .attempt (← t.branches "")

end Trie

end ResumableParsing
