import ResumableParsing.Proofs.Meaning.Machine

/-! A run that ends has a result for every task it came to, and ends with what that result becomes
under the frames of the stack. -/

namespace ResumableParsing

variable {κ : Type} {g : Grammar κ} {w : Window} {s : State κ} {stack : Stack κ}
variable {frame : Frame κ} {r r' : Result κ} {task : Task κ} {o : Except Fault (Outcome κ)}

/-- Whatever the run from `s` sets about later has a result. -/
def Covers (g : Grammar κ) (w : Window) (s : State κ) : Prop :=
  ∀ task stack, Relation.TransGen (Steps g w) s (Task.state stack task) → ∃ r, Eval g w task r

namespace Covers

variable {p q : Parser κ} {parsers others : List (Parser κ)} {next : Value → Parser κ}
variable {pos start : Int} {v last : Value} {gathered : Stream Value} {earlier : Option Failure}

lemma of_step (h : Covers g w s) (task : Task κ) (stack : Stack κ)
    (hs : Steps g w s (task.state stack)) : ∃ r, Eval g w task r :=
  h task stack (.single hs)

lemma of_reaches (h : Covers g w s) {t : State κ} (ht : Reaches g w s t)
    (hs : Steps g w t (task.state stack)) : ∃ r, Eval g w task r :=
  h task stack (Relation.TransGen.tail' ht hs)

lemma primitive (hp : p.reads) : ∃ r, Eval g w (.parser p pos) r := by
  cases hr : w.read pos with
  | error f => exact ⟨_, .released hp hr⟩
  | ok reading => exact ⟨_, .read hp hr⟩

lemma bind (h : Covers g w (.run (.bind p next) pos stack)) :
    ∃ r, Eval g w (.parser (.bind p next) pos) r := by
  obtain ⟨r, hr⟩ := h.of_step (.parser p pos) (.bind next :: stack) rfl
  refine hr.exists_bind ?_
  rintro v q rfl
  have hreach : Reaches g w _ (.matched v q (.bind next :: stack)) := hr.arrives _
  exact h.of_reaches (.head rfl hreach) .next

lemma parser (h : Covers g w (.run p pos stack)) : ∃ r, Eval g w (.parser p pos) r := by
  cases p with
  | token accepts mismatch => exact primitive rfl
  | endOfInput => exact primitive rfl
  | always v => exact ⟨_, .always⟩
  | fail message => exact ⟨_, .fail⟩
  | failWith e => exact ⟨_, .failWith⟩
  | position => exact ⟨_, .position⟩
  | raise f => exact ⟨_, .raise⟩
  | bind p next => exact h.bind
  | attempt p =>
    obtain ⟨r, hr⟩ := h.of_step (.parser p pos) (.attempt pos :: stack) rfl
    exact ⟨_, .attempt hr⟩
  | lookahead p =>
    obtain ⟨r, hr⟩ := h.of_step (.parser p pos) (.lookahead pos :: stack) rfl
    exact ⟨_, .lookahead hr⟩
  | notFollowedBy p label =>
    obtain ⟨r, hr⟩ :=
      h.of_step (.parser p pos) (.notFollowedBy pos label :: stack) rfl
    exact ⟨_, .notFollowedBy hr⟩
  | expected label p =>
    obtain ⟨r, hr⟩ := h.of_step (.parser p pos) (.expected pos label :: stack) rfl
    exact ⟨_, .expected hr⟩
  | rule key =>
    obtain ⟨r, hr⟩ := h.of_step (.parser (g key) pos) stack rfl
    exact ⟨r, .rule hr⟩
  | choice first others =>
    obtain ⟨r, hr⟩ :=
      h.of_step (.alternatives first others pos none) stack rfl
    exact ⟨r, .choice hr⟩
  | sequence parsers =>
    obtain ⟨r, hr⟩ := h.of_step (.sequence parsers .null pos) stack (by
      cases parsers <;> rfl)
    exact ⟨r, .sequence hr⟩
  | enumeration parsers =>
    obtain ⟨r, hr⟩ := h.of_step (.enumeration parsers .empty pos) stack (by
      cases parsers <;> rfl)
    exact ⟨r, .enumeration hr⟩
  | many p =>
    obtain ⟨r, hr⟩ := h.of_step (.repetition p .empty pos) stack rfl
    exact ⟨r, .many hr⟩

lemma alternatives (h : Covers g w (.run p start (.choice others start earlier :: stack))) :
    ∃ r, Eval g w (.alternatives p others start earlier) r := by
  obtain ⟨r, hr⟩ := h.parser
  refine hr.exists_alternatives ?_
  rintro q others' e rfl rfl
  exact h.of_reaches (hr.arrives _) .other

lemma sequence (h : Covers g w (.run p pos (.sequence parsers :: stack))) :
    ∃ r, Eval g w (.sequence (p :: parsers) last pos) r := by
  obtain ⟨r, hr⟩ := h.parser
  refine hr.exists_sequence ?_
  rintro v q rfl
  exact h.of_reaches (hr.arrives _) .sequence

lemma enumeration (h : Covers g w (.run p pos (.enumeration parsers gathered :: stack))) :
    ∃ r, Eval g w (.enumeration (p :: parsers) gathered pos) r := by
  obtain ⟨r, hr⟩ := h.parser
  refine hr.exists_enumeration ?_
  rintro v q rfl
  exact h.of_reaches (hr.arrives _) .enumeration

lemma repetition (h : Covers g w (.run p pos (.many p pos gathered :: stack))) :
    ∃ r, Eval g w (.repetition p gathered pos) r := by
  obtain ⟨r, hr⟩ := h.parser
  refine hr.exists_repetition ?_
  rintro v q rfl hq
  exact h.of_reaches (hr.arrives _) (.again hq)

lemma exists_eval (h : Covers g w (task.state stack)) : ∃ r, Eval g w task r := by
  cases task with
  | parser p pos => exact h.parser
  | alternatives p others start earlier => exact h.alternatives
  | sequence parsers last pos =>
    cases parsers with
    | nil => exact ⟨_, .sequence_end⟩
    | cons p parsers => exact h.sequence
  | enumeration parsers gathered pos =>
    cases parsers with
    | nil => exact ⟨_, .enumeration_end⟩
    | cons p parsers => exact h.enumeration
  | repetition p gathered pos => exact h.repetition

end Covers

theorem Ends.exists_eval (h : Ends g w (task.state stack) o) : ∃ r, Eval g w task r := by
  generalize hs : task.state stack = s at h
  induction h using Ends.strong_induction generalizing task stack with
  | step h ih =>
    -- a task may grow on the way (`rule`, `bind`), but what it sets about comes later in the run
    subst hs
    have hcovers : Covers g w (task.state stack) := fun _ _ hlater => ih _ hlater rfl
    exact hcovers.exists_eval

lemma Result.outcome_injective : Function.Injective (@Result.outcome κ) := by
  intro r r' h
  cases r <;> cases r' <;> simp_all [outcome]

def Result.ofOutcome : Except Fault (Outcome κ) → Result κ
  | .ok (.matched v pos) => matched v pos
  | .ok (.failed e pos) => failed e pos
  | .ok (.needsMore p pos stack) => suspended p pos stack
  | .error f => fault f

lemma Result.outcome_ofOutcome : (ofOutcome o).outcome = o := by
  rcases o with f | (⟨v, pos⟩ | ⟨e, pos⟩ | ⟨p, pos, stack⟩) <;> rfl

lemma Arrives.ends_nil (h : Arrives g w s [] r) : Ends g w s o ↔ o = r.outcome := by
  cases r with
  | matched v pos => rw [Reaches.ends_iff h, Ends.iff_of_halt rfl, Result.outcome]
  | failed e pos => rw [Reaches.ends_iff h, Ends.iff_of_halt rfl, Result.outcome]
  | suspended p pos frames =>
    obtain ⟨t, ht, hstep⟩ := h
    rw [Reaches.ends_iff ht, Ends.iff_of_halt hstep, Result.outcome, List.append_nil]
  | fault f =>
    obtain ⟨t, ht, hstep⟩ := h
    rw [Reaches.ends_iff ht, Ends.iff_of_error hstep, Result.outcome]

lemma Eval.ends (h : Eval g w task r) : Ends g w (task.state []) r.outcome :=
  (h.arrives []).ends_nil.mpr rfl

theorem Eval.unique (hr : Eval g w task r) (hr' : Eval g w task r') : r = r' :=
  Result.outcome_injective (hr.ends.unique hr'.ends)

lemma ends_outcome_iff : Ends g w (task.state []) r.outcome ↔ Eval g w task r := by
  refine ⟨?_, Eval.ends⟩
  intro h
  obtain ⟨r', hr'⟩ := h.exists_eval
  obtain rfl := Result.outcome_injective (hr'.ends.unique h)
  exact hr'

lemma ends_run_iff {p : Parser κ} {pos : Int} :
    Ends g w (.run p pos []) o ↔ Eval g w (.parser p pos) (.ofOutcome o) := by
  rw [← ends_outcome_iff, Result.outcome_ofOutcome]
  rfl

lemma Eval.missing {q : Parser κ} {pos : Int} {frames : Stack κ}
    (h : Eval g w task (.suspended q pos frames)) : q.reads ∧ w.read pos = .ok .missing :=
  Ends.suspended h.ends

lemma Feeds.arrives (hf : Feeds g w frame r r') (h : Arrives g w s (frame :: stack) r) :
    Arrives g w s stack r' := by
  cases hf with
  | suspended =>
    obtain ⟨t, ht, hstep⟩ := h
    exact ⟨t, ht, by simpa using hstep⟩
  | fault => exact h
  | bind hr => exact .of_reaches h ((hr.arrives stack).of_step .next)
  | attempt => exact h.attempted
  | lookahead => exact h.lookedAhead
  | notFollowedBy => exact h.negated
  | expected => exact h.relabelled
  | bind_failed | choice | sequence_failed | enumeration_failed =>
    exact Relation.ReflTransGen.tail h rfl
  | choice_other hr => exact .of_reaches h ((hr.arrives stack).of_step .other)
  | choice_no_other => exact Relation.ReflTransGen.tail h .no_other
  | choice_consumed hpos =>
    exact Relation.ReflTransGen.tail h (.of_onFailure (Frame.onFailure_choice_of_ne hpos))
  | sequence hr => exact .of_reaches h ((hr.arrives stack).of_step .sequence)
  | enumeration hr => exact .of_reaches h ((hr.arrives stack).of_step .enumeration)
  | many hpos hr => exact .of_reaches h ((hr.arrives stack).of_step (.again hpos))
  | many_matched => exact Relation.ReflTransGen.tail h .enough_matched
  | many_failed => exact Relation.ReflTransGen.tail h .enough_failed
  | many_consumed hpos =>
    exact Relation.ReflTransGen.tail h (.of_onFailure (Frame.onFailure_many_of_ne hpos))

lemma Arrives.exists_feeds (h : Arrives g w s (frame :: stack) r) (he : Ends g w s o) :
    ∃ r', Feeds g w frame r r' := by
  apply Feeds.exists_of_resumed
  intro task htask
  obtain ⟨t, ht, hs⟩ := h.resumed htask
  have hrun : Ends g w (task.state stack) o := hs.ends_iff.mp (ht.ends_iff.mp he)
  exact hrun.exists_eval

lemma Arrives.ends_iff (h : Arrives g w s stack r) : Ends g w s o ↔ Unwinds g w r stack o := by
  induction stack generalizing r with
  | nil =>
    rw [h.ends_nil]
    constructor
    · rintro rfl
      exact .nil
    · rintro ⟨⟩
      rfl
  | cons frame stack ih =>
    constructor
    · intro he
      obtain ⟨r', hf⟩ := h.exists_feeds he
      exact .cons hf ((ih (hf.arrives h)).mp he)
    · rintro (_ | ⟨hf, hu⟩)
      exact (ih (hf.arrives h)).mpr hu

theorem ends_iff_eval_unwinds (g : Grammar κ) (w : Window) (p : Parser κ) (pos : Int)
    (stack : Stack κ) :
    (∀ o, Ends g w (.run p pos stack) o ↔
      ∃ r, Eval g w (.parser p pos) r ∧ Unwinds g w r stack o) ∧
    ∀ r, Eval g w (.parser p pos) r →
      (∀ r', Eval g w (.parser p pos) r' → r' = r) ∧
      (∀ o, Ends g w (.run p pos stack) o ↔ Unwinds g w r stack o) ∧
      (∀ q pos' frames, r = .suspended q pos' frames → q.reads ∧ w.read pos' = .ok .missing ∧
        Ends g w (.run p pos stack) (.ok (.needsMore q pos' (frames ++ stack)))) ∧
      ∀ f, r = .fault f → Ends g w (.run p pos stack) (.error f) := by
  have hends {r : Result κ} (hr : Eval g w (.parser p pos) r) (o : Except Fault (Outcome κ)) :
      Ends g w (.run p pos stack) o ↔ Unwinds g w r stack o := (hr.arrives stack).ends_iff
  refine ⟨?_, ?_⟩
  · intro o
    constructor
    · intro h
      have hrun : Ends g w ((Task.parser p pos).state stack) o := h
      obtain ⟨r, hr⟩ := hrun.exists_eval
      exact ⟨r, hr, (hends hr o).mp h⟩
    · rintro ⟨r, hr, hu⟩
      exact (hends hr o).mpr hu
  · intro r hr
    refine ⟨fun r' hr' => hr'.unique hr, hends hr, ?_, ?_⟩
    · rintro q pos' frames rfl
      obtain ⟨t, ht, hstep⟩ := hr.arrives stack
      exact ⟨hr.missing.1, hr.missing.2, ht.ends_iff.mpr ((Ends.iff_of_halt hstep).mpr rfl)⟩
    · rintro f rfl
      obtain ⟨t, ht, hstep⟩ := hr.arrives stack
      exact ht.ends_iff.mpr ((Ends.iff_of_error hstep).mpr rfl)

theorem suspends_above_lookahead :
    Ends (κ := Empty) Empty.elim ⟨#[.int 1], 0, false⟩
      (.run (.attempt (.sequence [.tokenOf fun _ => .ok true, .endOfInput])) 0 [.lookahead 0])
      (.ok (.needsMore .endOfInput 1 [.sequence [], .attempt 0, .lookahead 0])) := by
  let w : Window := ⟨#[.int 1], 0, false⟩
  let token : Parser Empty := .tokenOf fun _ => .ok true
  have helement : w.read 0 = .ok (.element (.int 1)) := rfl
  have hmissing : w.read 1 = .ok .missing := rfl
  have htoken : Eval Empty.elim w (.parser token 0) (.matched (.int 1) 1) := .read rfl helement
  have hend : Eval Empty.elim w (.parser .endOfInput 1) (.suspended .endOfInput 1 []) :=
    .read rfl hmissing
  have hbody : Eval Empty.elim w (.parser (.sequence [token, .endOfInput]) 0)
      (.suspended .endOfInput 1 [.sequence []]) :=
    .sequence (.sequence_next htoken (.sequence_stop hend not_false))
  exact (((ends_iff_eval_unwinds _ _ _ _ _).2 _ hbody.attempt).2.2.1 _ _ _ rfl).2.2

end ResumableParsing
