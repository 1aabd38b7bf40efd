import ResumableParsing.Machine
import Mathlib.Tactic

namespace ResumableParsing

variable {κ : Type} {g : Grammar κ} {w : Window}

inductive Result (κ : Type) where
  | matched (value : Value) (pos : Int)
  | failed (failure : Failure) (pos : Int)
  /-- `parser` found nothing to read at `pos`, with `frames` left to do within what was run. -/
  | suspended (parser : Parser κ) (pos : Int) (frames : Stack κ)
  | fault (fault : Fault)

namespace Result

def ofFailure (e : Except Fault Failure) (pos : Int) : Result κ :=
  match e with
  | .ok failure => failed failure pos
  | .error f => fault f

def move (stack : Stack κ) : Result κ → Except Fault (Move κ)
  | matched v pos => .ok (.next (.matched v pos stack))
  | failed e pos => .ok (.next (.failed e pos stack))
  | suspended p pos frames => .ok (.halt (.needsMore p pos (frames ++ stack)))
  | fault f => .error f

lemma move_ofFailure (e : Except Fault Failure) (pos : Int) (stack : Stack κ) :
    (ofFailure e pos).move stack =
      e >>= fun failure => pure (.next (.failed failure pos stack)) := by
  cases e <;> rfl

lemma move_eq_next {r : Result κ} {stack : Stack κ} {t : State κ}
    (h : r.move stack = .ok (.next t)) :
    (∃ v pos, r = matched v pos ∧ t = .matched v pos stack) ∨
      ∃ e pos, r = failed e pos ∧ t = .failed e pos stack := by
  cases r <;> simp_all [move]

lemma move_eq_halt {r : Result κ} {stack : Stack κ} {o : Outcome κ}
    (h : r.move stack = .ok (.halt o)) :
    ∃ p pos frames, r = suspended p pos frames ∧ o = .needsMore p pos (frames ++ stack) := by
  cases r <;> simp_all [move]

@[simp] lemma ofFailure_eq_matched {e : Except Fault Failure} {pos q : Int} {v : Value} :
    (ofFailure e pos : Result κ) = matched v q ↔ False := by
  cases e <;> simp [ofFailure]

@[simp] lemma ofFailure_eq_failed {e : Except Fault Failure} {pos q : Int} {failure : Failure} :
    (ofFailure e pos : Result κ) = failed failure q ↔ e = .ok failure ∧ pos = q := by
  cases e <;> simp [ofFailure]

@[simp] lemma ofFailure_eq_suspended {e : Except Fault Failure} {p : Parser κ} {pos q : Int}
    {frames : Stack κ} : ofFailure e pos = suspended p q frames ↔ False := by
  cases e <;> simp [ofFailure]

end Result

namespace Parser

def reads : Parser κ → Bool
  | token _ _ => true
  | endOfInput => true
  | _ => false

def onReading (p : Parser κ) (pos : Int) (reading : Reading) : Result κ :=
  match p, reading with
  | token accepts mismatch, .element v =>
    match accepts v with
    | .ok true => .matched v (pos + 1)
    | .ok false => .ofFailure (mismatch pos v) pos
    | .error f => .fault f
  | token _ mismatch, .endOfInput => .ofFailure (mismatch pos .endOfInput) pos
  | endOfInput, .element v => .ofFailure (Failure.expected pos (.str endOfInputText) v) pos
  | endOfInput, .endOfInput => .matched .null pos
  | p, _ => .suspended p pos []

variable {p : Parser κ} {pos q : Int} {reading : Reading}

lemma onReading_missing : p.onReading pos .missing = .suspended p pos [] := by
  cases p <;> rfl

lemma onReading_matched {v : Value} (h : p.onReading pos reading = .matched v q) :
    q = pos ∨ q = pos + 1 ∧ reading = .element v := by
  unfold onReading at h
  split at h
  · split at h <;> simp_all
  all_goals simp_all

lemma onReading_failed {e : Failure} (h : p.onReading pos reading = .failed e q) : q = pos := by
  unfold onReading at h
  split at h
  · split at h <;> simp_all
  all_goals simp_all

lemma onReading_suspended (hp : p.reads) {p' : Parser κ} {frames : Stack κ}
    (h : p.onReading pos reading = .suspended p' q frames) :
    p' = p ∧ q = pos ∧ frames = [] ∧ reading = .missing := by
  cases reading with
  | missing =>
    rw [onReading_missing] at h
    simp_all
  | endOfInput => cases p <;> simp_all [onReading, reads]
  | element v =>
    cases p with
    | token accepts mismatch =>
      simp only [onReading] at h
      split at h <;> simp_all
    | endOfInput => simp [onReading] at h
    | _ => simp [reads] at hp

lemma enter_of_reads (hp : p.reads) (stack : Stack κ) :
    p.enter g w pos stack =
      (w.read pos).bind fun reading => (p.onReading pos reading).move stack := by
  cases p with
  | token accepts mismatch =>
    simp only [enter]
    congr 1
    funext reading
    cases reading with
    | element v =>
      simp only [onReading]
      rcases accepts v with f | b
      · rfl
      · cases b with
        | true => rfl
        | false => simp only [Result.move_ofFailure]; rfl
    | endOfInput => simp only [onReading, Result.move_ofFailure]
    | missing => rfl
  | endOfInput =>
    simp only [enter]
    congr 1
    funext reading
    cases reading with
    | element v => simp only [onReading, Result.move_ofFailure]
    | endOfInput => rfl
    | missing => rfl
  | _ => simp [reads] at hp

lemma enter_next_of_reads {stack : Stack κ} {t : State κ} (hp : p.reads)
    (h : p.enter g w pos stack = .ok (.next t)) : ∃ reading, w.read pos = .ok reading ∧
      ((∃ v q, p.onReading pos reading = .matched v q ∧ t = .matched v q stack) ∨
        ∃ e q, p.onReading pos reading = .failed e q ∧ t = .failed e q stack) := by
  rw [enter_of_reads hp] at h
  cases hr : w.read pos with
  | error f => simp [hr, Except.bind] at h
  | ok reading =>
    refine ⟨reading, rfl, Result.move_eq_next ?_⟩
    simpa only [hr, Except.bind] using h

end Parser

end ResumableParsing
