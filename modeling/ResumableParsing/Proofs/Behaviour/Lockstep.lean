import ResumableParsing.Proofs.Behaviour

/-! A step does not look below the frame on top, so states with the same on top of other stacks
move together until the stacks themselves come to be fed. -/

namespace ResumableParsing

variable {κ : Type} {g : Grammar κ} {w : Window} {stack stack' : Stack κ} {pos : Int}

namespace State

def above (stack : Stack κ) : State κ → State κ
  | run p pos frames => run p pos (frames ++ stack)
  | matched v pos frames => matched v pos (frames ++ stack)
  | failed e pos frames => failed e pos (frames ++ stack)

end State

def Outcome.above (stack : Stack κ) : Outcome κ → Outcome κ
  | needsMore p pos frames => needsMore p pos (frames ++ stack)
  | o => o

def Move.above (stack : Stack κ) : Move κ → Move κ
  | next s => next (s.above stack)
  | halt o => halt (o.above stack)

lemma Result.move_above (r : Result κ) : r.move stack = (r.move []).map (Move.above stack) := by
  cases r with
  | suspended p pos frames => simp [move, Except.map, Move.above, Outcome.above]
  | matched v pos | failed e pos | fault f => rfl

lemma Parser.enter_above (p : Parser κ) :
    p.enter g w pos stack = (p.enter g w pos []).map (Move.above stack) := by
  by_cases hp : p.reads
  · rw [p.enter_of_reads hp, p.enter_of_reads hp]
    cases w.read pos with
    | error f => rfl
    | ok reading => exact (p.onReading pos reading).move_above
  · cases p with
    | token accepts mismatch => exact absurd rfl hp
    | endOfInput => exact absurd rfl hp
    | sequence parsers => cases parsers <;> rfl
    | enumeration parsers => cases parsers <;> rfl
    | _ => rfl

lemma Frame.onMatch_above (frame : Frame κ) (v : Value) :
    frame.onMatch v pos stack = (frame.onMatch v pos []).map (State.above stack) := by
  cases frame with
  | sequence parsers => cases parsers <;> rfl
  | enumeration parsers gathered => cases parsers <;> rfl
  | many p start gathered =>
    simp only [onMatch]
    split_ifs <;> rfl
  | notFollowedBy start label =>
    simp only [onMatch]
    cases Failure.expected start label v <;> rfl
  | _ => rfl

lemma Frame.onFailure_above (frame : Frame κ) (e : Failure) :
    frame.onFailure e pos stack = (frame.onFailure e pos []).map (State.above stack) := by
  cases frame with
  | choice others start earlier =>
    simp only [onFailure]
    split_ifs
    · rfl
    · cases others <;> rfl
  | many p start gathered =>
    simp only [onFailure]
    split_ifs <;> rfl
  | expected start label =>
    simp only [onFailure]
    split_ifs
    · cases Failure.expected start label e.found <;> rfl
    · rfl
  | _ => rfl

inductive InStep (g : Grammar κ) (w : Window) (R : State κ → State κ → Prop) (s t : State κ) : Prop
  | error {f} : s.step g w = .error f → t.step g w = .error f → InStep g w R s t
  | halt {o o'} : s.step g w = .ok (.halt o) → t.step g w = .ok (.halt o') →
      Tallies R (.ok o) (.ok o') → InStep g w R s t
  | next {s' t'} : Steps g w s s' → Relation.TransGen (Steps g w) t t' → R s' t' →
      InStep g w R s t

inductive Swaps (R : Stack κ → Stack κ → Prop) : State κ → State κ → Prop
  | run {p pos stack stack'} : R stack stack' → Swaps R (.run p pos stack) (.run p pos stack')
  | matched {v pos stack stack'} : R stack stack' →
      Swaps R (.matched v pos stack) (.matched v pos stack')
  | failed {e pos stack stack'} : R stack stack' →
      Swaps R (.failed e pos stack) (.failed e pos stack')

section

variable {R : State κ → State κ → Prop} {s t : State κ}

lemma Ends.of_inStep (hR : ∀ s t, R s t → InStep g w R s t) (hst : R s t)
    {o : Except Fault (Outcome κ)} (h : Ends g w s o) : ∃ o', Ends g w t o' ∧ Tallies R o o' := by
  induction h using Ends.induction generalizing t with
  | error hs hr =>
    subst hr
    cases hR _ _ hst with
    | error hs' ht =>
      cases hs.symm.trans hs'
      exact ⟨_, (iff_of_error ht).mpr rfl, .fault⟩
    | halt hs' => cases hs.symm.trans hs'
    | next hs' => cases hs.symm.trans hs'
  | halt hs hr =>
    subst hr
    cases hR _ _ hst with
    | error hs' => cases hs.symm.trans hs'
    | halt hs' ht htally =>
      cases hs.symm.trans hs'
      exact ⟨_, (iff_of_halt ht).mpr rfl, htally⟩
    | next hs' => cases hs.symm.trans hs'
  | next hs _ ih =>
    cases hR _ _ hst with
    | error hs' => cases hs.symm.trans hs'
    | halt hs' => cases hs.symm.trans hs'
    | next hs' ht hst' =>
      cases hs.symm.trans hs'
      obtain ⟨o', ho', htally⟩ := ih hst'
      exact ⟨o', (Reaches.ends_iff ht.to_reflTransGen).mpr ho', htally⟩

lemma Ends.of_inStep_flip (hR : ∀ s t, R s t → InStep g w R s t) (hst : R s t)
    {o : Except Fault (Outcome κ)} (h : Ends g w t o) : ∃ o', Ends g w s o' ∧ Tallies R o' o := by
  -- on the run of the second state, which is never the shorter one
  induction h using Ends.strong_induction generalizing s with
  | step h ih =>
    cases hR _ _ hst with
    | error hs ht =>
      cases (iff_of_error ht).mp h
      exact ⟨_, (iff_of_error hs).mpr rfl, .fault⟩
    | halt hs ht htally =>
      cases (iff_of_halt ht).mp h
      exact ⟨_, (iff_of_halt hs).mpr rfl, htally⟩
    | next hs ht hst' =>
      obtain ⟨o', ho', htally⟩ := ih _ ht hst'
      exact ⟨o', hs.ends_iff.mpr ho', htally⟩

lemma Alike.of_inStep (hR : ∀ w s t, R s t → InStep g w R s t) (hst : R s t) : Alike g s t := by
  refine .of_bisimulation ?_ hst
  intro s t h w
  exact ⟨fun _ => Ends.of_inStep (hR w) h, fun _ => Ends.of_inStep_flip (hR w) h⟩

end

section

variable {R : Stack κ → Stack κ → Prop} (hcons : ∀ frame s t, R s t → R (frame :: s) (frame :: t))

include hcons

lemma Swaps.above (u : State κ) (h : R stack stack') : Swaps R (u.above stack) (u.above stack') := by
  have happend (frames : Stack κ) : R (frames ++ stack) (frames ++ stack') := by
    induction frames with
    | nil => exact h
    | cons frame frames ih => exact hcons _ _ _ ih
  cases u with
  | run p pos frames => exact .run (happend frames)
  | matched v pos frames => exact .matched (happend frames)
  | failed e pos frames => exact .failed (happend frames)

lemma InStep.of_map {s t : State κ} {x : Except Fault (State κ)} (h : R stack stack')
    (hs : s.step g w = (x.map (State.above stack)).map .next)
    (ht : t.step g w = (x.map (State.above stack')).map .next) : InStep g w (Swaps R) s t := by
  cases x with
  | error f => exact .error hs ht
  | ok u => exact .next hs (.single ht) (.above hcons u h)

lemma InStep.matched (v : Value) (frame : Frame κ) (h : R stack stack') :
    InStep g w (Swaps R) (.matched v pos (frame :: stack)) (.matched v pos (frame :: stack')) := by
  apply InStep.of_map hcons h (x := frame.onMatch v pos [])
  · rw [State.step, frame.onMatch_above]
  · rw [State.step, frame.onMatch_above]

lemma InStep.failed (e : Failure) (frame : Frame κ) (h : R stack stack') :
    InStep g w (Swaps R) (.failed e pos (frame :: stack)) (.failed e pos (frame :: stack')) := by
  apply InStep.of_map hcons h (x := frame.onFailure e pos [])
  · rw [State.step, frame.onFailure_above]
  · rw [State.step, frame.onFailure_above]

lemma InStep.run (hmark : ∀ s t pos, R s t → Stack.watermark s pos = Stack.watermark t pos)
    (p : Parser κ) (h : R stack stack') :
    InStep g w (Swaps R) (.run p pos stack) (.run p pos stack') := by
  have hs : (State.run p pos stack).step g w = (p.enter g w pos []).map (Move.above stack) :=
    p.enter_above
  have ht : (State.run p pos stack').step g w = (p.enter g w pos []).map (Move.above stack') :=
    p.enter_above
  cases hmove : p.enter g w pos [] with
  | error f =>
    rw [hmove] at hs ht
    exact .error hs ht
  | ok move =>
    rw [hmove] at hs ht
    cases move with
    | next u => exact .next hs (.single ht) (.above hcons u h)
    | halt o =>
      have hhalt : (State.run p pos []).step g w = .ok (.halt o) := hmove
      rcases State.step_halt hhalt with ⟨_, _, hrun, _⟩ | ⟨_, _, hrun, _⟩ | ⟨_, _, _, hrun, rfl, _⟩
      · cases hrun
      · cases hrun
      · cases hrun
        exact .halt hs ht (.suspended (hmark _ _ _ h) (.run h))

end

end ResumableParsing
