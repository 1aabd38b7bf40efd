namespace ResumableParsing

/-- The values are kept newest first, so that adding one does not copy the others. -/
structure Stream (α : Type) where
  newestFirst : List α
  size : Nat

namespace Stream

variable {α : Type}

def empty : Stream α := ⟨[], 0⟩

def push (s : Stream α) (a : α) : Stream α := ⟨a :: s.newestFirst, s.size + 1⟩

def toList (s : Stream α) : List α := s.newestFirst.reverse

def ofList (as : List α) : Stream α := as.foldl push empty

def prepend (a : α) (s : Stream α) : Stream α := s.toList.foldl push (empty.push a)

@[simp] theorem toList_empty : (empty : Stream α).toList = [] := rfl

@[simp] theorem toList_push (s : Stream α) (a : α) : (s.push a).toList = s.toList ++ [a] := by
  simp [push, toList]

@[simp] theorem toList_foldl_push (s : Stream α) (as : List α) :
    (as.foldl push s).toList = s.toList ++ as := by
  induction as generalizing s with
  | nil => simp
  | cons a as ih => simp [ih]

@[simp] theorem toList_ofList (as : List α) : (ofList as).toList = as := by
  simp [ofList]

@[simp] theorem ofList_inj {as bs : List α} : ofList as = ofList bs ↔ as = bs :=
  ⟨fun h => by simpa using congrArg toList h, congrArg ofList⟩

@[simp] theorem toList_prepend (a : α) (s : Stream α) : (s.prepend a).toList = a :: s.toList := by
  simp [prepend]

end Stream

end ResumableParsing
