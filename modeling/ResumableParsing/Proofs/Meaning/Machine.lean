import ResumableParsing.Proofs.Meaning
import ResumableParsing.Proofs.Step

namespace ResumableParsing

variable {κ : Type} {g : Grammar κ} {w : Window} {s t : State κ} {stack : Stack κ}
variable {frame : Frame κ} {r : Result κ}

def Task.state (stack : Stack κ) : Task κ → State κ
  | parser p pos => .run p pos stack
  | alternatives p others start earlier => .run p start (.choice others start earlier :: stack)
  | sequence [] last pos => .matched last pos stack
  | sequence (p :: parsers) _ pos => .run p pos (.sequence parsers :: stack)
  | enumeration [] gathered pos => .matched (.stream gathered) pos stack
  | enumeration (p :: parsers) gathered pos => .run p pos (.enumeration parsers gathered :: stack)
  | repetition p gathered pos => .run p pos (.many p pos gathered :: stack)

section Frames

variable {v : Value} {e : Failure} {pos start : Int} {others parsers : List (Parser κ)}
variable {gathered : Stream Value} {earlier : Option Failure} {p : Parser κ}

lemma Frame.onFailure_choice_cons : (choice (p :: others) start earlier).onFailure e start stack =
    .ok (.run p start (choice others start (some (e.after earlier)) :: stack)) := by
  cases earlier <;> simp [onFailure, Failure.after]

lemma Frame.onFailure_choice_nil : (choice [] start earlier).onFailure e start stack =
    .ok (.failed (e.after earlier) start stack) := by
  cases earlier <;> simp [onFailure, Failure.after]

lemma Frame.onFailure_choice_of_ne (h : pos ≠ start) :
    (choice others start earlier).onFailure e pos stack = .ok (.failed e pos stack) := by
  simp [onFailure, h]

lemma Frame.onFailure_many_of_ne (h : pos ≠ start) :
    (many p start gathered).onFailure e pos stack = .ok (.failed e pos stack) := by
  simp [onFailure, h]

namespace Steps

lemma of_onMatch (h : frame.onMatch v pos stack = .ok t) :
    Steps g w (.matched v pos (frame :: stack)) t := by
  simp [Steps, State.step, h, Except.map]

lemma of_onFailure (h : frame.onFailure e pos stack = .ok t) :
    Steps g w (.failed e pos (frame :: stack)) t := by
  simp [Steps, State.step, h, Except.map]

lemma next {next : Value → Parser κ} : Steps g w (.matched v pos (.bind next :: stack))
    ((Task.parser (next v) pos).state stack) :=
  rfl

lemma other : Steps g w (.failed e start (.choice (p :: others) start earlier :: stack))
    ((Task.alternatives p others start (some (e.after earlier))).state stack) :=
  of_onFailure Frame.onFailure_choice_cons

lemma no_other : Steps g w (.failed e start (.choice [] start earlier :: stack))
    (.failed (e.after earlier) start stack) :=
  of_onFailure Frame.onFailure_choice_nil

lemma sequence : Steps g w (.matched v pos (.sequence parsers :: stack))
    ((Task.sequence parsers v pos).state stack) := by
  cases parsers <;> rfl

lemma enumeration : Steps g w (.matched v pos (.enumeration parsers gathered :: stack))
    ((Task.enumeration parsers (gathered.push v) pos).state stack) := by
  cases parsers <;> rfl

lemma again (h : pos ≠ start) : Steps g w (.matched v pos (.many p start gathered :: stack))
    ((Task.repetition p (gathered.push v) pos).state stack) := by
  apply of_onMatch
  simp [Frame.onMatch, h, Task.state]

lemma enough_matched : Steps g w (.matched v start (.many p start gathered :: stack))
    (.matched (.stream gathered) start stack) := by
  apply of_onMatch
  simp [Frame.onMatch]

lemma enough_failed : Steps g w (.failed e start (.many p start gathered :: stack))
    (.matched (.stream gathered) start stack) := by
  apply of_onFailure
  simp [Frame.onFailure]

end Steps

end Frames

/-- The run from `s` hands the result to `stack`, or ends with it. -/
def Arrives (g : Grammar κ) (w : Window) (s : State κ) (stack : Stack κ) : Result κ → Prop
  | .matched v pos => Reaches g w s (.matched v pos stack)
  | .failed e pos => Reaches g w s (.failed e pos stack)
  | .suspended p pos frames => ∃ t, Reaches g w s t ∧
      t.step g w = .ok (.halt (.needsMore p pos (frames ++ stack)))
  | .fault f => ∃ t, Reaches g w s t ∧ t.step g w = .error f

lemma Arrives.of_reaches (h : Reaches g w s t) (ha : Arrives g w t stack r) :
    Arrives g w s stack r := by
  cases r with
  | matched v pos => exact h.trans ha
  | failed e pos => exact h.trans ha
  | suspended p pos frames =>
    obtain ⟨u, hu, hstep⟩ := ha
    exact ⟨u, h.trans hu, hstep⟩
  | fault f =>
    obtain ⟨u, hu, hstep⟩ := ha
    exact ⟨u, h.trans hu, hstep⟩

lemma Arrives.of_step (h : Steps g w s t) (ha : Arrives g w t stack r) : Arrives g w s stack r :=
  .of_reaches (.single h) ha

lemma Arrives.resumed {task : Task κ} (h : Arrives g w s (frame :: stack) r)
    (ht : frame.resumed? r = some task) :
    ∃ t, Reaches g w s t ∧ Steps g w t (task.state stack) := by
  revert ht
  fun_cases Frame.resumed? frame r <;> intro ht <;> cases ht
  · exact ⟨_, h, .next⟩
  · exact ⟨_, h, .sequence⟩
  · exact ⟨_, h, .enumeration⟩
  · exact ⟨_, h, .again ‹_›⟩
  · exact ⟨_, h, .other⟩

lemma Arrives.of_move (h : s.step g w = r.move stack) : Arrives g w s stack r := by
  cases r with
  | matched v pos => exact .single h
  | failed e pos => exact .single h
  | suspended p pos frames => exact ⟨s, .refl, h⟩
  | fault f => exact ⟨s, .refl, h⟩

lemma Arrives.within (h : Arrives g w s (frame :: stack) r)
    (hm : ∀ v pos, r = .matched v pos → frame.onMatch v pos stack = .ok (.matched v pos stack))
    (hf : ∀ e pos, r = .failed e pos → frame.onFailure e pos stack = .ok (.failed e pos stack)) :
    Arrives g w s stack (r.within frame) := by
  cases r with
  | matched v pos => exact Relation.ReflTransGen.tail h (.of_onMatch (hm v pos rfl))
  | failed e pos => exact Relation.ReflTransGen.tail h (.of_onFailure (hf e pos rfl))
  | suspended p pos frames =>
    obtain ⟨t, ht, hstep⟩ := h
    exact ⟨t, ht, by simpa using hstep⟩
  | fault f => exact h

lemma Arrives.attempted {start : Int} (h : Arrives g w s (.attempt start :: stack) r) :
    Arrives g w s stack (r.attempted start) := by
  cases r with
  | failed e pos => exact Relation.ReflTransGen.tail h rfl
  | matched v pos | suspended p pos frames | fault f =>
    exact h.within (by intros; rfl) (by intro _ _ hr; cases hr)

lemma Arrives.lookedAhead {start : Int} (h : Arrives g w s (.lookahead start :: stack) r) :
    Arrives g w s stack (r.lookedAhead start) := by
  cases r with
  | matched v pos => exact Relation.ReflTransGen.tail h rfl
  | failed e pos | suspended p pos frames | fault f =>
    exact h.within (by intro _ _ hr; cases hr) (by intros; rfl)

lemma Arrives.negated {start : Int} {label : Value}
    (h : Arrives g w s (.notFollowedBy start label :: stack) r) :
    Arrives g w s stack (r.negated start label) := by
  cases r with
  | matched v pos =>
    refine .of_reaches h (.of_move ?_)
    simp only [Result.negated, Result.move_ofFailure]
    cases he : Failure.expected start label v <;>
      simp [State.step, Frame.onMatch, he, Except.map, pure, Except.pure, bind, Except.bind]
  | failed e pos => exact Relation.ReflTransGen.tail h rfl
  | suspended p pos frames | fault f =>
    exact h.within (by intro _ _ hr; cases hr) (by intro _ _ hr; cases hr)

lemma Arrives.relabelled {start : Int} {label : Value}
    (h : Arrives g w s (.expected start label :: stack) r) :
    Arrives g w s stack (r.relabelled start label) := by
  cases r with
  | failed e pos =>
    refine .of_reaches h (.of_move ?_)
    by_cases hc : pos = start ∧ e.position = start
    · simp only [Result.relabelled, if_pos hc, Result.move_ofFailure]
      cases he : Failure.expected start label e.found <;>
        simp [State.step, Frame.onFailure, hc, he, Except.map, pure, Except.pure, bind, Except.bind]
    · simp [State.step, Frame.onFailure, Result.relabelled, hc, Except.map, Result.move]
  | matched v pos | suspended p pos frames | fault f =>
    exact h.within (by intros; rfl) (by intro _ _ hr; cases hr)

theorem Eval.arrives {task : Task κ} (h : Eval g w task r) (stack : Stack κ) :
    Arrives g w (task.state stack) stack r := by
  induction h generalizing stack with
  | @read p pos reading hp hr =>
    have hstep : (State.run p pos stack).step g w = (p.onReading pos reading).move stack := by
      simp only [State.step, p.enter_of_reads hp, hr, Except.bind]
    exact .of_move hstep
  | released hp hr => exact ⟨_, .refl, State.step_of_read_error hp hr⟩
  | always | fail | failWith | position => exact Relation.ReflTransGen.single rfl
  | raise => exact ⟨_, .refl, rfl⟩
  | rule _ ih => exact (ih stack).of_step rfl
  | bind _ _ ihp ih =>
    refine Arrives.of_step rfl (.of_reaches (ihp (.bind _ :: stack)) ?_)
    exact (ih stack).of_step .next
  | bind_stop _ hr ih =>
    refine Arrives.of_step rfl ((ih (.bind _ :: stack)).within ?_ (by intros; rfl))
    rintro v pos rfl
    exact absurd trivial hr
  | attempt _ ih => exact .of_step rfl (ih (.attempt _ :: stack)).attempted
  | lookahead _ ih => exact .of_step rfl (ih (.lookahead _ :: stack)).lookedAhead
  | notFollowedBy _ ih => exact .of_step rfl (ih (.notFollowedBy _ _ :: stack)).negated
  | expected _ ih => exact .of_step rfl (ih (.expected _ _ :: stack)).relabelled
  | choice _ ih => exact (ih stack).of_step rfl
  | other _ _ ihp ih =>
    exact .of_reaches (ihp (.choice _ _ _ :: stack)) ((ih stack).of_step .other)
  | no_other _ ih =>
    exact (ih (.choice _ _ _ :: stack)).tail .no_other
  | chosen _ hr ih =>
    refine (ih (.choice _ _ _ :: stack)).within (by intros; rfl) ?_
    rintro e pos rfl
    exact Frame.onFailure_choice_of_ne hr
  | @sequence parsers pos r _ ih =>
    refine .of_step ?_ (ih stack)
    cases parsers <;> rfl
  | sequence_end => exact Relation.ReflTransGen.refl
  | sequence_next _ _ ihp ih =>
    exact .of_reaches (ihp (.sequence _ :: stack)) ((ih stack).of_step .sequence)
  | sequence_stop _ hr ih =>
    refine (ih (.sequence _ :: stack)).within ?_ (by intros; rfl)
    rintro v pos rfl
    exact absurd trivial hr
  | @enumeration parsers pos r _ ih =>
    refine .of_step ?_ (ih stack)
    cases parsers <;> rfl
  | enumeration_end => exact Relation.ReflTransGen.refl
  | enumeration_next _ _ ihp ih =>
    exact .of_reaches (ihp (.enumeration _ _ :: stack)) ((ih stack).of_step .enumeration)
  | enumeration_stop _ hr ih =>
    refine (ih (.enumeration _ _ :: stack)).within ?_ (by intros; rfl)
    rintro v pos rfl
    exact absurd trivial hr
  | many _ ih => exact (ih stack).of_step rfl
  | again _ hpos _ ihp ih =>
    exact .of_reaches (ihp (.many _ _ _ :: stack)) ((ih stack).of_step (.again hpos))
  | enough_matched _ ih => exact (ih (.many _ _ _ :: stack)).tail .enough_matched
  | enough_failed _ ih => exact (ih (.many _ _ _ :: stack)).tail .enough_failed
  | repetition_stop _ hm hf ih =>
    refine (ih (.many _ _ _ :: stack)).within ?_ ?_
    · rintro v pos rfl
      exact absurd trivial hm
    · rintro e pos rfl
      exact Frame.onFailure_many_of_ne hf

end ResumableParsing
