import ResumableParsing.Parser.Text
import ResumableParsing.Proofs.Meaning.Binding
import ResumableParsing.Proofs.Meaning.Choice
import ResumableParsing.Proofs.Meaning.Repetition

/-! A first match and rounds behind it, with separators or without. -/

namespace ResumableParsing

variable {κ : Type}

inductive Chain (g : Grammar κ) (w : Window) (p more : Parser κ) (start : Int) :
    List Value → Int → Prop
  | intro {v pos vs q} : Ends g w (.run p start []) (.ok (.matched v pos)) →
      Rounds g w more pos vs q → Chain g w p more start (v :: vs) q

inductive Continues (g : Grammar κ) (w : Window) (p more : Parser κ) (start : Int) :
    Except Fault (Outcome κ) → Prop
  | enough {vs q} : Chain g w p more start vs q → Stays g w more q →
      Continues g w p more start (.ok (.matched (.stream (.ofList vs)) q))
  | consumed {vs q e pos} : Chain g w p more start vs q → pos ≠ q →
      Ends g w (.run more q []) (.ok (.failed e pos)) →
      Continues g w p more start (.ok (.failed e pos))
  | fault {vs q f} : Chain g w p more start vs q → Ends g w (.run more q []) (.error f) →
      Continues g w p more start (.error f)

variable {g : Grammar κ} {w : Window} {p more separator : Parser κ} {start pos q : Int}
variable {v d : Value} {vs : List Value} {e : Failure} {f : Fault} {r : Result κ}

lemma Chain.start_le (h : Chain g w p more start vs q) : start ≤ q := by
  obtain ⟨hp, hrounds⟩ := h
  exact hp.position_between.1.trans (iterates_iff_rounds.mpr hrounds).start_le

lemma Stream.prepend_ofList {α : Type} (a : α) (as : List α) :
    (ofList as).prepend a = ofList (a :: as) := by
  rw [prepend, toList_ofList]
  rfl

namespace Eval

lemma optional_iff : Eval g w (.parser (p.optional d) pos) r ↔
    (Declines g w pos p ∧ r = .matched d pos) ∨
      ∃ r', Eval g w (.parser p pos) r' ∧ ¬ r'.FailsAt pos ∧
        r'.within (.choice [.always d] pos none) = r := by
  constructor
  · intro h
    cases h with
    | read hreads | released hreads => cases hreads
    | choice h =>
      cases h with
      | chosen hr hn => exact .inr ⟨_, hr, hn, rfl⟩
      | other he h =>
        cases h with
        | no_other hd => cases hd.unique .always
        | chosen hd _ =>
          cases hd.unique .always
          exact .inl ⟨⟨_, he⟩, rfl⟩
  · rintro (⟨⟨e, he⟩, rfl⟩ | ⟨r', hr, hn, rfl⟩)
    · exact .choice (.other he (.chosen .always not_false))
    · exact .choice (.chosen hr hn)

end Eval

def gather (first rest : Value) : Except Fault Value := do
  return .stream ((Stream.ofList (← rest.elements)).prepend first)

lemma Parser.leading_eq : p.leading more = p.bind fun v => (many more).map (gather v) := rfl

lemma gather_stream : gather v (.stream (.ofList vs)) = .ok (.stream (.ofList (v :: vs))) := by
  simp [gather, Value.elements, Stream.prepend_ofList, pure, Except.pure, bind, Except.bind]

namespace Eval

lemma leading_returns : (∃ r, Eval g w (.parser (p.leading more) start) r) ↔
    (∃ r, Eval g w (.parser p start) r) ∧
      ∀ vs q, Chain g w p more start vs q → ∃ r, Eval g w (.parser more q) r := by
  simp only [Parser.leading_eq, bind_returns, map_returns, many_returns]
  apply and_congr_right
  intro _
  constructor
  · rintro h _ q ⟨hp, hrounds⟩
    exact h _ _ (ends_run_iff.mp hp) _ q hrounds
  · intro h v pos hp vs q hrounds
    exact h (v :: vs) q (.intro hp.ends hrounds)

end Eval

lemma Continues.ne_failed {o : Except Fault (Outcome κ)} (h : Continues g w p more start o) :
    o ≠ .ok (.failed e start) := by
  rintro rfl
  cases h with
  | consumed hchain hne hr =>
    -- what fails behind the first match fails further on
    have hle := hr.position_between.1
    exact hne (le_antisymm hchain.start_le hle)

lemma Continues.ne_empty {o : Except Fault (Outcome κ)} (h : Continues g w p more start o) :
    o ≠ .ok (.matched (.stream .empty) q) := by
  rintro heq
  cases h with
  | enough hchain _ =>
    obtain ⟨_, _⟩ := hchain
    have hnil := congrArg Stream.toList (Value.stream.inj (Outcome.matched.inj (Except.ok.inj heq)).1)
    simp at hnil
  | consumed | fault => cases heq

namespace Result

variable {o : Except Fault (Outcome κ)}

lemma ofOutcome_eq_iff : ofOutcome o = r ↔ o = r.outcome := by
  constructor
  · rintro rfl
    exact outcome_ofOutcome.symm
  · rintro rfl
    exact outcome_injective outcome_ofOutcome

lemma isMatch_ofOutcome : (ofOutcome o).IsMatch ↔ ∃ v pos, o = .ok (.matched v pos) := by
  rcases o with f | (⟨v, pos⟩ | ⟨e, pos⟩ | ⟨p, pos, stack⟩) <;> simp [ofOutcome, IsMatch]

lemma failsAt_ofOutcome : (ofOutcome o).FailsAt start ↔ ∃ e, o = .ok (.failed e start) := by
  rcases o with f | (⟨v, pos⟩ | ⟨e, pos⟩ | ⟨p, pos, stack⟩) <;> simp [ofOutcome, FailsAt]

end Result

lemma declines_iff :
    Declines g w start p ↔ ∃ e, Ends g w (.run p start []) (.ok (.failed e start)) := by
  simp only [ends_run_iff]
  rfl

lemma ends_exists_iff : (∃ o, Ends g w (.run p start []) o) ↔
    ∃ r, Eval g w (.parser p start) r :=
  ⟨fun ⟨_, h⟩ => ⟨_, ends_run_iff.mp h⟩, fun ⟨_, h⟩ => ⟨_, h.ends⟩⟩

section

variable {o : Except Fault (Outcome κ)} {next : Value → Parser κ}
variable (hclosed : w.closed = true) (hm : Value.missing ∉ w.elements.toList)

include hclosed hm

lemma Ends.resolved_of_whole {o : Outcome κ} (h : Ends g w (.run p start []) (.ok o)) :
    o.resolved := by
  cases o with
  | needsMore q pos stack => exact absurd (Window.mem_of_read_missing hclosed h.suspended.2) hm
  | matched v pos | failed e pos => rfl

lemma Eval.within_of_whole {frame : Frame κ} (h : Eval g w (.parser p start) r) :
    r.within frame = r := by
  cases r with
  | suspended q pos frames => exact absurd (Window.mem_of_read_missing hclosed h.missing.2) hm
  | matched v pos | failed e pos | fault f => rfl

lemma ends_bind_iff : Ends g w (.run (.bind p next) start []) o ↔
    (∃ v pos, Ends g w (.run p start []) (.ok (.matched v pos)) ∧
      Ends g w (.run (next v) pos []) o) ∨
    Ends g w (.run p start []) o ∧ ∀ v pos, o ≠ .ok (.matched v pos) := by
  have hn : (∀ v pos, o ≠ .ok (.matched v pos)) ↔ ¬ (Result.ofOutcome o).IsMatch := by
    simp [Result.isMatch_ofOutcome]
  rw [hn, ends_run_iff, Eval.bind_iff]
  simp only [ends_run_iff]
  apply or_congr Iff.rfl
  constructor
  · rintro ⟨r, hr, hstop, heq⟩
    rw [hr.within_of_whole hclosed hm] at heq
    subst heq
    exact ⟨hr, hstop⟩
  · rintro ⟨hr, hstop⟩
    exact ⟨_, hr, hstop, hr.within_of_whole hclosed hm⟩

lemma ends_optional_iff : Ends g w (.run (p.optional d) start []) o ↔
    (∃ e, Ends g w (.run p start []) (.ok (.failed e start))) ∧ o = .ok (.matched d start) ∨
    Ends g w (.run p start []) o ∧ ∀ e, o ≠ .ok (.failed e start) := by
  have hn : (∀ e, o ≠ .ok (.failed e start)) ↔ ¬ (Result.ofOutcome o).FailsAt start := by
    simp [Result.failsAt_ofOutcome]
  rw [hn, ends_run_iff, Eval.optional_iff, declines_iff, Result.ofOutcome_eq_iff]
  apply or_congr Iff.rfl
  constructor
  · rintro ⟨r, hr, hstop, heq⟩
    rw [hr.within_of_whole hclosed hm] at heq
    subst heq
    exact ⟨ends_run_iff.mpr hr, hstop⟩
  · rintro ⟨h, hstop⟩
    have hr := ends_run_iff.mp h
    exact ⟨_, hr, hstop, hr.within_of_whole hclosed hm⟩

lemma continues_iff : Continues g w p more start o ↔
    ∃ v pos, Ends g w (.run p start []) (.ok (.matched v pos)) ∧
      Ends g w (.run ((Parser.many more).map (gather v)) pos []) o := by
  constructor
  · rintro (⟨⟨hp, hrounds⟩, hstays⟩ | ⟨⟨hp, hrounds⟩, hne, hr⟩ | ⟨⟨hp, hrounds⟩, hr⟩)
    · refine ⟨_, _, hp, ends_run_iff.mpr (Eval.map_matched.mpr ⟨_, ?_, gather_stream⟩)⟩
      exact Eval.many_matched.mpr ⟨_, rfl, hrounds, hstays⟩
    · refine ⟨_, _, hp, ends_run_iff.mpr (Eval.map_failed.mpr ?_)⟩
      exact Eval.many_failed.mpr ⟨_, _, hrounds, hne, ends_run_iff.mp hr⟩
    · refine ⟨_, _, hp, ends_run_iff.mpr (Eval.map_fault.mpr (.inl ?_))⟩
      exact Eval.many_fault.mpr ⟨_, _, hrounds, ends_run_iff.mp hr⟩
  · rintro ⟨v, pos, hp, h⟩
    have hr := ends_run_iff.mp h
    rcases o with f | (⟨v', q⟩ | ⟨e, q⟩ | ⟨p', q, stack⟩)
    · rcases Eval.map_fault.mp hr with hmany | ⟨u, q, hmany, hf⟩
      · obtain ⟨vs, q, hrounds, hr⟩ := Eval.many_fault.mp hmany
        exact .fault (.intro hp hrounds) hr.ends
      · obtain ⟨vs, rfl, _⟩ := Eval.many_matched.mp hmany
        rw [gather_stream] at hf
        cases hf
    · obtain ⟨u, hmany, hu⟩ := Eval.map_matched.mp hr
      obtain ⟨vs, rfl, hrounds, hstays⟩ := Eval.many_matched.mp hmany
      rw [gather_stream] at hu
      cases hu
      exact .enough (.intro hp hrounds) hstays
    · obtain ⟨vs, q', hrounds, hne, hr⟩ := Eval.many_failed.mp (Eval.map_failed.mp hr)
      exact .consumed (.intro hp hrounds) hne hr.ends
    · exact absurd (h.resolved_of_whole hclosed hm) (by simp [Outcome.resolved])

lemma ends_leading_iff : Ends g w (.run (p.leading more) start []) o ↔
    Ends g w (.run p start []) o ∧ (∀ v pos, o ≠ .ok (.matched v pos)) ∨
    Continues g w p more start o := by
  rw [Parser.leading_eq, ends_bind_iff hclosed hm, continues_iff hclosed hm, or_comm]

lemma ends_sepBy_iff : Ends g w (.run (p.sepBy separator) start []) o ↔
    ((∃ e, Ends g w (.run p start []) (.ok (.failed e start))) ∧
      o = .ok (.matched (.stream .empty) start)) ∨
    (Ends g w (.run p start []) o ∧ (∀ v pos, o ≠ .ok (.matched v pos)) ∧
      ∀ e, o ≠ .ok (.failed e start)) ∨
    Continues g w p (separator.next p) start o := by
  have hfails : (∃ e, Ends g w (.run (p.leading (separator.next p)) start [])
      (.ok (.failed e start))) ↔ ∃ e, Ends g w (.run p start []) (.ok (.failed e start)) := by
    apply exists_congr
    intro e
    rw [ends_leading_iff hclosed hm, or_iff_left fun h => h.ne_failed rfl]
    simp
  rw [Parser.sepBy, ends_optional_iff hclosed hm, ends_leading_iff hclosed hm, hfails,
    or_and_right, and_assoc, and_iff_left_of_imp fun (h : Continues _ _ _ _ _ _) _ => h.ne_failed]

lemma ends_optional_exists_iff : (∃ o, Ends g w (.run (p.optional d) start []) o) ↔
    ∃ o, Ends g w (.run p start []) o := by
  simp only [ends_optional_iff hclosed hm]
  constructor
  · rintro ⟨o, ⟨⟨e, he⟩, _⟩ | ⟨h, _⟩⟩
    · exact ⟨_, he⟩
    · exact ⟨o, h⟩
  · rintro ⟨o, h⟩
    by_cases ho : ∃ e, o = .ok (.failed e start)
    · obtain ⟨e, rfl⟩ := ho
      exact ⟨_, .inl ⟨⟨e, h⟩, rfl⟩⟩
    · exact ⟨o, .inr ⟨h, not_exists.mp ho⟩⟩

end

lemma ends_leading_exists_iff : (∃ o, Ends g w (.run (p.leading more) start []) o) ↔
    (∃ o, Ends g w (.run p start []) o) ∧
      ∀ vs q, Chain g w p more start vs q → ∃ o, Ends g w (.run more q []) o := by
  simp only [ends_exists_iff, Eval.leading_returns]

theorem sepBy_many1_follow_chain (g : Grammar κ) (hclosed : w.closed = true)
    (hm : Value.missing ∉ w.elements.toList) (p separator : Parser κ) (start : Int) :
    (∀ o, Ends g w (.run (p.sepBy separator) start []) o ↔
      ((∃ e, Ends g w (.run p start []) (.ok (.failed e start))) ∧
        o = .ok (.matched (.stream .empty) start)) ∨
      (Ends g w (.run p start []) o ∧ (∀ v pos, o ≠ .ok (.matched v pos)) ∧
        ∀ e, o ≠ .ok (.failed e start)) ∨
      Continues g w p (separator.next p) start o) ∧
    (Ends g w (.run (p.sepBy separator) start []) (.ok (.matched (.stream .empty) start)) ↔
      ∃ e, Ends g w (.run p start []) (.ok (.failed e start))) ∧
    (∀ o, Ends g w (.run p.many1 start []) o ↔
      (Ends g w (.run p start []) o ∧ ∀ v pos, o ≠ .ok (.matched v pos)) ∨
      Continues g w p p start o) ∧
    (∀ q o, Ends g w (.run (separator.next p) q []) o ↔
      (∃ u q', Ends g w (.run separator q []) (.ok (.matched u q')) ∧
        Ends g w (.run p q' []) o) ∨
      (Ends g w (.run separator q []) o ∧ ∀ u q', o ≠ .ok (.matched u q'))) ∧
    ((∃ o, Ends g w (.run (p.sepBy separator) start []) o) ↔
      (∃ o, Ends g w (.run p start []) o) ∧ ∀ vs q, Chain g w p (separator.next p) start vs q →
        ∃ o, Ends g w (.run (separator.next p) q []) o) ∧
    ((∃ o, Ends g w (.run p.many1 start []) o) ↔
      (∃ o, Ends g w (.run p start []) o) ∧ ∀ vs q, Chain g w p p start vs q →
        ∃ o, Ends g w (.run p q []) o) := by
  refine ⟨fun _ => ends_sepBy_iff hclosed hm, ?_, fun _ => ends_leading_iff hclosed hm,
    fun _ _ => ends_bind_iff hclosed hm, ?_, ends_leading_exists_iff⟩
  · rw [ends_sepBy_iff hclosed hm]
    constructor
    · rintro (⟨hfails, _⟩ | ⟨_, hn, _⟩ | h)
      · exact hfails
      · exact absurd rfl (hn _ _)
      · exact absurd rfl h.ne_empty
    · intro hfails
      exact .inl ⟨hfails, rfl⟩
  · rw [Parser.sepBy, ends_optional_exists_iff hclosed hm, ends_leading_exists_iff]

theorem sepBy_many1_follow_chain_trailing :
    Ends (κ := Empty) Empty.elim
        ⟨#[.char 'a', .char ',', .char 'a', .char ',', .char 'b'], 0, true⟩
        (.run (.sepBy (.character (.str "a")) (.character (.str ","))) 0 [])
        (.ok (.failed ⟨4, .expected ["a"] (.char 'b')⟩ 4)) ∧
      Ends (κ := Empty) Empty.elim
        ⟨#[.char 'a', .char ',', .char 'a', .char ',', .char 'b'], 0, true⟩
        (.run (.many1 (.lookahead (.character (.str "a")))) 2 [])
        (.ok (.matched (.stream (.ofList [.char 'a'])) 2)) := by
  let w : Window := ⟨#[.char 'a', .char ',', .char 'a', .char ',', .char 'b'], 0, true⟩
  have hm : Value.missing ∉ w.elements.toList := by simp [w, Value.char, Value.missing]
  constructor
  · obtain ⟨hsep, _⟩ := sepBy_many1_follow_chain (κ := Empty) Empty.elim (w := w) rfl hm
      (.character (.str "a")) (.character (.str ",")) 0
    have hrounds : Rounds (κ := Empty) Empty.elim w
        (.next (.character (.str ",")) (.character (.str "a"))) 1 [.char 'a'] 3 := by
      refine ⟨fun i => 1 + 2 * i, rfl, rfl, ?_⟩
      intro i hi
      obtain rfl : i = 0 := by simpa using hi
      exact ⟨by decide, 9, rfl⟩
    have hchain : Chain (κ := Empty) Empty.elim w (.character (.str "a"))
        (.next (.character (.str ",")) (.character (.str "a"))) 0 [.char 'a', .char 'a'] 3 :=
      .intro ⟨4, rfl⟩ hrounds
    exact (hsep _).mpr (.inr (.inr (.consumed hchain (by decide) ⟨9, rfl⟩)))
  · obtain ⟨_, _, hmany, _⟩ := sepBy_many1_follow_chain (κ := Empty) Empty.elim (w := w) rfl hm
      (.lookahead (.character (.str "a"))) (.always .null) 2
    have hchain : Chain (κ := Empty) Empty.elim w (.lookahead (.character (.str "a")))
        (.lookahead (.character (.str "a"))) 2 [.char 'a'] 2 :=
      .intro ⟨5, rfl⟩ ⟨fun _ => 2, rfl, rfl, by simp⟩
    exact (hmany _).mpr (.inr (.enough hchain (.inr ⟨.char 'a', 5, rfl⟩)))

end ResumableParsing
