import ResumableParsing.Proofs.Run
import ResumableParsing.Proofs.Result

namespace ResumableParsing

variable {κ : Type} {g : Grammar κ} {w w' : Window} {s t : State κ}

def Frame.start? : Frame κ → Option Int
  | .choice _ start _ => some start
  | .attempt start => some start
  | .many _ start _ => some start
  | .lookahead start => some start
  | .notFollowedBy start _ => some start
  | .expected start _ => some start
  | _ => none

lemma Frame.start?_of_rewind? {frame : Frame κ} {pos : Int} (h : frame.rewind? = some pos) :
    frame.start? = some pos := by
  cases frame <;> simp_all [Frame.rewind?, Frame.start?]

namespace State

@[simp] def position : State κ → Int
  | run _ pos _ => pos
  | matched _ pos _ => pos
  | failed _ pos _ => pos

@[simp] def stack : State κ → Stack κ
  | run _ _ stack => stack
  | matched _ _ stack => stack
  | failed _ _ stack => stack

def reads : State κ → Bool
  | run p _ _ => p.reads
  | _ => false

lemma step_of_reads (h : s.reads) : ∃ p pos stack, s = run p pos stack ∧ p.reads ∧
    ∀ w, s.step g w = (w.read pos).bind fun reading => (p.onReading pos reading).move stack := by
  cases s with
  | run p pos stack => exact ⟨p, pos, stack, rfl, h, fun w => p.enter_of_reads h stack⟩
  | matched v pos stack => simp [reads] at h
  | failed e pos stack => simp [reads] at h

lemma step_of_not_reads (h : ¬ s.reads) : s.step g w = s.step g w' := by
  cases s with
  | run p pos stack =>
    cases p with
    | token accepts mismatch => simp [reads, Parser.reads] at h
    | endOfInput => simp [reads, Parser.reads] at h
    | sequence parsers => cases parsers <;> rfl
    | enumeration parsers => cases parsers <;> rfl
    | _ => rfl
  | matched v pos stack => cases stack <;> rfl
  | failed e pos stack => cases stack <;> rfl

lemma step_congr (h : w.read s.position = w'.read s.position) : s.step g w = s.step g w' := by
  by_cases hs : s.reads
  · obtain ⟨p, pos, stack, rfl, _, hstep⟩ := step_of_reads (g := g) hs
    have hr : w.read pos = w'.read pos := h
    rw [hstep, hstep, hr]
  · exact step_of_not_reads hs

lemma step_of_read_error {f : Fault} (hs : s.reads) (h : w.read s.position = .error f) :
    s.step g w = .error f := by
  obtain ⟨p, pos, stack, rfl, _, hstep⟩ := step_of_reads (g := g) hs
  have hr : w.read pos = .error f := h
  rw [hstep, hr]
  rfl

lemma step_of_missing {p : Parser κ} {pos : Int} {stack : Stack κ} (hp : p.reads)
    (h : w.read pos = .ok .missing) :
    (run p pos stack).step g w = .ok (.halt (.needsMore p pos stack)) := by
  have hstep : (run p pos stack).step g w =
      (w.read pos).bind fun reading => (p.onReading pos reading).move stack :=
    p.enter_of_reads hp stack
  rw [hstep, h]
  simp only [Except.bind, Parser.onReading_missing, Result.move, List.nil_append]

lemma step_halt {o : Outcome κ} (h : s.step g w = .ok (.halt o)) :
    (∃ v pos, s = matched v pos [] ∧ o = .matched v pos) ∨
      (∃ e pos, s = failed e pos [] ∧ o = .failed e pos) ∨
      ∃ p pos stack, s = run p pos stack ∧ o = .needsMore p pos stack ∧ p.reads ∧
        w.read pos = .ok .missing := by
  by_cases hs : s.reads
  · obtain ⟨p, pos, stack, rfl, hp, hstep⟩ := step_of_reads (g := g) hs
    rw [hstep] at h
    cases hr : w.read pos with
    | error f => simp [hr, Except.bind] at h
    | ok reading =>
      simp only [hr, Except.bind] at h
      obtain ⟨p', q, frames, hsus, rfl⟩ := Result.move_eq_halt h
      obtain ⟨rfl, rfl, rfl, rfl⟩ := Parser.onReading_suspended hp hsus
      exact .inr (.inr ⟨p', q, stack, rfl, rfl, hp, hr⟩)
  · cases s with
    | run p pos stack =>
      cases p with
      | token accepts mismatch => simp [reads, Parser.reads] at hs
      | endOfInput => simp [reads, Parser.reads] at hs
      | sequence parsers => cases parsers <;> simp [step, Parser.enter] at h
      | enumeration parsers => cases parsers <;> simp [step, Parser.enter] at h
      | _ => simp [step, Parser.enter] at h
    | matched v pos stack =>
      cases stack with
      | nil => exact .inl ⟨v, pos, rfl, by simpa [step, eq_comm] using h⟩
      | cons frame stack => cases hf : frame.onMatch v pos stack <;> simp [step, hf, Except.map] at h
    | failed e pos stack =>
      cases stack with
      | nil => exact .inr (.inl ⟨e, pos, rfl, by simpa [step, eq_comm] using h⟩)
      | cons frame stack =>
        cases hf : frame.onFailure e pos stack <;> simp [step, hf, Except.map] at h

lemma step_suspended {p : Parser κ} {pos : Int} {stack : Stack κ}
    (h : s.step g w = .ok (.halt (.needsMore p pos stack))) :
    s = run p pos stack ∧ p.reads ∧ w.read pos = .ok .missing := by
  rcases step_halt h with ⟨_, _, _, ho⟩ | ⟨_, _, _, ho⟩ | ⟨_, _, _, hs, ho, hp, hread⟩
  · cases ho
  · cases ho
  · cases ho
    exact ⟨hs, hp, hread⟩

lemma step_next (h : s.step g w = .ok (.next t)) :
    (∃ p pos stack, s = run p pos stack ∧ p.enter g w pos stack = .ok (.next t)) ∨
      (∃ v pos frame stack, s = matched v pos (frame :: stack) ∧
        frame.onMatch v pos stack = .ok t) ∨
      ∃ e pos frame stack, s = failed e pos (frame :: stack) ∧
        frame.onFailure e pos stack = .ok t := by
  cases s with
  | run p pos stack => exact .inl ⟨p, pos, stack, rfl, h⟩
  | matched v pos stack =>
    cases stack with
    | nil => cases h
    | cons frame stack =>
      refine .inr (.inl ⟨v, pos, frame, stack, rfl, ?_⟩)
      cases hf : frame.onMatch v pos stack <;> simp_all [step, Except.map]
  | failed e pos stack =>
    cases stack with
    | nil => cases h
    | cons frame stack =>
      refine .inr (.inr ⟨e, pos, frame, stack, rfl, ?_⟩)
      cases hf : frame.onFailure e pos stack <;> simp_all [step, Except.map]

end State

lemma Ends.suspended {p : Parser κ} {pos : Int} {stack : Stack κ}
    (h : Ends g w s (.ok (.needsMore p pos stack))) : p.reads ∧ w.read pos = .ok .missing := by
  obtain ⟨t, _, hstep⟩ := h.exists_halt
  exact (State.step_suspended hstep).2

section

variable {v : Value} {e : Failure} {pos start : Int} {stack : Stack κ} {label : Value}
variable {body : Parser κ} {others : List (Parser κ)} {gathered : Stream Value}
variable {earlier : Option Failure}

lemma Frame.onMatch_many_ok (h : (many body start gathered).onMatch v pos stack = .ok t) :
    (pos = start ∧ t = .matched (.stream gathered) pos stack) ∨
      pos ≠ start ∧ t = .run body pos (many body pos (gathered.push v) :: stack) := by
  simp only [onMatch] at h
  split_ifs at h with hpos
  · cases h
    exact .inl ⟨hpos, rfl⟩
  · cases h
    exact .inr ⟨hpos, rfl⟩

lemma Frame.onMatch_notFollowedBy_ok
    (h : (notFollowedBy start label).onMatch v pos stack = .ok t) :
    ∃ e, Failure.expected start label v = .ok e ∧ t = .failed e start stack := by
  simp only [onMatch] at h
  cases he : Failure.expected start label v with
  | error f => simp [he] at h
  | ok e =>
    rw [he] at h
    cases h
    exact ⟨e, rfl, rfl⟩

lemma Frame.onFailure_choice_ok
    (h : (choice others start earlier).onFailure e pos stack = .ok t) :
    (∃ e', t = .failed e' pos stack) ∨ ∃ next others' merged, others = next :: others' ∧
      t = .run next pos (choice others' pos (some merged) :: stack) := by
  simp only [onFailure] at h
  split_ifs at h with hpos
  · cases h
    exact .inl ⟨_, rfl⟩
  · obtain rfl := not_not.mp hpos
    cases others with
    | nil =>
      cases h
      exact .inl ⟨_, rfl⟩
    | cons next others' =>
      cases h
      exact .inr ⟨next, others', _, rfl, rfl⟩

lemma Frame.onFailure_many_ok (h : (many body start gathered).onFailure e pos stack = .ok t) :
    (pos = start ∧ t = .matched (.stream gathered) pos stack) ∨
      pos ≠ start ∧ t = .failed e pos stack := by
  simp only [onFailure] at h
  split_ifs at h with hpos
  · cases h
    exact .inr ⟨hpos, rfl⟩
  · obtain rfl := not_not.mp hpos
    cases h
    exact .inl ⟨rfl, rfl⟩

lemma Frame.onFailure_expected_ok (h : (expected start label).onFailure e pos stack = .ok t) :
    (∃ e', pos = start ∧ e.position = start ∧ Failure.expected start label e.found = .ok e' ∧
      t = .failed e' pos stack) ∨ t = .failed e pos stack := by
  simp only [onFailure] at h
  split_ifs at h with hpos
  · cases he : Failure.expected start label e.found with
    | error f => simp [he] at h
    | ok e' =>
      rw [he] at h
      cases h
      exact .inl ⟨e', hpos.1, hpos.2, rfl, rfl⟩
  · cases h
    exact .inr rfl

end

inductive State.Shift (w : Window) (s t : State κ) : Prop
  | stay (hstack : t.stack = s.stack) (hpos : t.position = s.position)
  | consume (v : Value) (hread : w.read s.position = .ok (.element v))
      (hstack : t.stack = s.stack) (hpos : t.position = s.position + 1)
  | enter (frame : Frame κ) (hstack : t.stack = frame :: s.stack) (hpos : t.position = s.position)
      (hframe : ∀ start ∈ frame.start?, start = s.position)
  | leave (frame : Frame κ) (hstack : s.stack = frame :: t.stack)
      (hpos : t.position = s.position ∨ frame.rewind? = some t.position)
  | resume (frame frame' : Frame κ) (stack : Stack κ) (hstack : s.stack = frame :: stack)
      (hstack' : t.stack = frame' :: stack) (hpos : t.position = s.position)
      (hframe : ∀ start ∈ frame'.start?, start = s.position)

open State (Shift)

lemma Parser.enter_shift {p : Parser κ} {pos : Int} {stack : Stack κ}
    (h : p.enter g w pos stack = .ok (.next t)) : Shift w (.run p pos stack) t := by
  by_cases hp : p.reads
  · obtain ⟨reading, hr, ⟨v, q, hm, rfl⟩ | ⟨e, q, hf, rfl⟩⟩ := enter_next_of_reads hp h
    · rcases onReading_matched hm with rfl | ⟨rfl, rfl⟩
      · exact .stay rfl rfl
      · exact .consume v hr rfl rfl
    · obtain rfl := onReading_failed hf
      exact .stay rfl rfl
  · cases p with
    | token accepts mismatch => simp [reads] at hp
    | endOfInput => simp [reads] at hp
    | raise f => simp [enter] at h
    | sequence parsers =>
      cases parsers <;> simp only [enter, Except.ok.injEq, Move.next.injEq] at h <;> subst h
      · exact .stay rfl rfl
      · exact .enter _ rfl rfl (by simp [Frame.start?])
    | enumeration parsers =>
      cases parsers <;> simp only [enter, Except.ok.injEq, Move.next.injEq] at h <;> subst h
      · exact .stay rfl rfl
      · exact .enter _ rfl rfl (by simp [Frame.start?])
    | always v | fail message | failWith e | position | rule key =>
      simp only [enter, Except.ok.injEq, Move.next.injEq] at h
      subst h
      exact .stay rfl rfl
    | _ =>
      simp only [enter, Except.ok.injEq, Move.next.injEq] at h
      subst h
      exact .enter _ rfl rfl (by simp [Frame.start?])

lemma Frame.onMatch_shift {frame : Frame κ} {v : Value} {pos : Int} {stack : Stack κ}
    (h : frame.onMatch v pos stack = .ok t) : Shift w (.matched v pos (frame :: stack)) t := by
  cases frame with
  | bind next | choice others start failure | attempt start | lookahead start
  | expected start label =>
    simp only [onMatch, Except.ok.injEq] at h
    subst h
    exact .leave _ rfl (by simp [rewind?])
  | sequence parsers =>
    cases parsers <;> simp only [onMatch, Except.ok.injEq] at h <;> subst h
    · exact .leave _ rfl (.inl rfl)
    · exact .resume _ _ _ rfl rfl rfl (by simp [start?])
  | enumeration parsers gathered =>
    cases parsers <;> simp only [onMatch, Except.ok.injEq] at h <;> subst h
    · exact .leave _ rfl (.inl rfl)
    · exact .resume _ _ _ rfl rfl rfl (by simp [start?])
  | many body start gathered =>
    rcases onMatch_many_ok h with ⟨_, rfl⟩ | ⟨_, rfl⟩
    · exact .leave _ rfl (.inl rfl)
    · exact .resume _ _ _ rfl rfl rfl (by simp [start?])
  | notFollowedBy start label =>
    obtain ⟨e, _, rfl⟩ := onMatch_notFollowedBy_ok h
    exact .leave _ rfl (.inr rfl)

lemma Frame.onFailure_shift {frame : Frame κ} {e : Failure} {pos : Int} {stack : Stack κ}
    (h : frame.onFailure e pos stack = .ok t) :
    Shift w (.failed e pos (frame :: stack)) t := by
  cases frame with
  | bind next | sequence parsers | enumeration parsers gathered | lookahead start =>
    simp only [onFailure, Except.ok.injEq] at h
    subst h
    exact .leave _ rfl (.inl rfl)
  | attempt start | notFollowedBy start label =>
    simp only [onFailure, Except.ok.injEq] at h
    subst h
    exact .leave _ rfl (.inr rfl)
  | choice others start earlier =>
    obtain ⟨e', rfl⟩ | ⟨next, others', merged, _, rfl⟩ := onFailure_choice_ok h
    · exact .leave _ rfl (.inl rfl)
    · exact .resume _ _ _ rfl rfl rfl (by simp [start?])
  | many body start gathered =>
    rcases onFailure_many_ok h with ⟨_, rfl⟩ | ⟨_, rfl⟩
    · exact .leave _ rfl (.inl rfl)
    · exact .leave _ rfl (.inl rfl)
  | expected start label =>
    obtain ⟨e', _, _, _, rfl⟩ | rfl := onFailure_expected_ok h
    · exact .leave _ rfl (.inl rfl)
    · exact .leave _ rfl (.inl rfl)

lemma Steps.shift (h : Steps g w s t) : Shift w s t := by
  rcases State.step_next h with
    ⟨p, pos, stack, rfl, ht⟩ | ⟨v, pos, frame, stack, rfl, ht⟩ | ⟨e, pos, frame, stack, rfl, ht⟩
  · exact Parser.enter_shift ht
  · exact Frame.onMatch_shift ht
  · exact Frame.onFailure_shift ht

end ResumableParsing
