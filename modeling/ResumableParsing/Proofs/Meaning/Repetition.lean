import ResumableParsing.Parser.Text
import ResumableParsing.Proofs.Meaning.Progress

namespace ResumableParsing

variable {κ : Type}

def Rounds (g : Grammar κ) (w : Window) (p : Parser κ) (start : Int) (vs : List Value) (q : Int) :
    Prop :=
  ∃ stops : ℕ → Int, stops 0 = start ∧ stops vs.length = q ∧
    ∀ i (h : i < vs.length), stops i < stops (i + 1) ∧
      Ends g w (.run p (stops i) []) (.ok (.matched vs[i] (stops (i + 1))))

def Stays (g : Grammar κ) (w : Window) (p : Parser κ) (pos : Int) : Prop :=
  (∃ e, Ends g w (.run p pos []) (.ok (.failed e pos))) ∨
    ∃ v, Ends g w (.run p pos []) (.ok (.matched v pos))

def Result.afterRounds (p : Parser κ) (pos : Int) (gathered : Stream Value) : Result κ → Result κ
  | matched _ _ => matched (.stream gathered) pos
  | failed e q => if q = pos then matched (.stream gathered) pos else failed e q
  | r => r.within (.many p pos gathered)

def Result.IsLast (pos : Int) (r : Result κ) : Prop :=
  ∀ v q, r = .matched v q → q = pos

variable {g : Grammar κ} {w : Window} {p : Parser κ} {start pos q : Int} {vs : List Value}
variable {gathered : Stream Value} {r : Result κ}

namespace Result

variable {e : Failure} {v : Value} {p' : Parser κ} {stack : Stack κ} {f : Fault}

lemma isLast_of_not_isMatch (h : ¬ r.IsMatch) : r.IsLast pos := by
  rintro v q rfl
  exact absurd trivial h

lemma isLast_matched : (matched v pos : Result κ).IsLast pos := by
  rintro _ _ ⟨⟩
  rfl

lemma afterRounds_eq_matched : r.afterRounds p pos gathered = .matched v q ↔
    v = .stream gathered ∧ q = pos ∧ (r.IsMatch ∨ r.FailsAt pos) := by
  cases r with
  | matched v' q' => simp [afterRounds, IsMatch, eq_comm]
  | failed e' q' => by_cases hq : q' = pos <;> simp [afterRounds, hq, IsMatch, FailsAt, eq_comm]
  | suspended q' pos' frames | fault f => simp [afterRounds, within, IsMatch, FailsAt]

lemma afterRounds_eq_failed :
    r.afterRounds p pos gathered = .failed e q ↔ r = .failed e q ∧ q ≠ pos := by
  cases r with
  | matched v' q' => simp [afterRounds]
  | failed e' q' =>
    rw [afterRounds]
    split_ifs with hq
    · simp only [failed.injEq, false_iff, not_and, not_not]
      rintro ⟨_, rfl⟩
      exact hq
    · simp only [failed.injEq, iff_self_and]
      rintro ⟨_, rfl⟩
      exact hq
  | suspended q' pos' frames | fault f => simp [afterRounds, within]

lemma afterRounds_eq_suspended : r.afterRounds p pos gathered = .suspended p' q stack ↔
    ∃ frames, r = .suspended p' q frames ∧ stack = frames ++ [.many p pos gathered] := by
  cases r with
  | matched v' q' => simp [afterRounds]
  | failed e' q' => by_cases hq : q' = pos <;> simp [afterRounds, hq]
  | suspended q' pos' frames => simp [afterRounds, within, eq_comm, and_assoc]
  | fault f => simp [afterRounds, within]

lemma afterRounds_eq_fault : r.afterRounds p pos gathered = .fault f ↔ r = .fault f := by
  cases r with
  | matched v' q' => simp [afterRounds]
  | failed e' q' => by_cases hq : q' = pos <;> simp [afterRounds, hq]
  | suspended q' pos' frames | fault f => simp [afterRounds, within]

end Result

lemma iterates_iff_rounds : Iterates g w p start vs q ↔ Rounds g w p start vs q := by
  constructor
  · intro h
    induction h with
    | @nil pos => exact ⟨fun _ => pos, rfl, rfl, by simp⟩
    | @cons pos v pos' vs q hmatch hne _ ih =>
      obtain ⟨stops, rfl, hq, hrounds⟩ := ih
      have hlt : pos < stops 0 := lt_of_le_of_ne hmatch.position_between.1 hne.symm
      refine ⟨fun | 0 => pos | i + 1 => stops i, rfl, hq, ?_⟩
      intro i hi
      cases i with
      | zero => exact ⟨hlt, hmatch⟩
      | succ i => exact hrounds i (Nat.lt_of_succ_lt_succ hi)
  · rintro ⟨stops, rfl, rfl, hrounds⟩
    induction vs generalizing stops with
    | nil => exact .nil
    | cons v vs ih =>
      obtain ⟨hlt, hmatch⟩ := hrounds 0 (Nat.succ_pos _)
      refine .cons hmatch (ne_of_gt hlt) (ih (fun i => stops (i + 1)) ?_)
      intro i hi
      exact hrounds (i + 1) (Nat.succ_lt_succ hi)

namespace Eval

lemma afterRounds (hr : Eval g w (.parser p pos) r) (hlast : r.IsLast pos) :
    Eval g w (.repetition p gathered pos) (r.afterRounds p pos gathered) := by
  cases r with
  | matched v q =>
    obtain rfl := hlast v q rfl
    exact .enough_matched hr
  | failed e q =>
    by_cases hq : q = pos
    · subst hq
      simpa only [Result.afterRounds, if_true] using .enough_failed hr
    · simpa only [Result.afterRounds, if_neg hq] using .repetition_stop hr not_false hq
  | suspended q pos frames | fault f => exact .repetition_stop hr not_false not_false

lemma stays_iff :
    (∃ r, Eval g w (.parser p pos) r ∧ r.IsLast pos ∧ (r.IsMatch ∨ r.FailsAt pos)) ↔
      (∃ e, Eval g w (.parser p pos) (.failed e pos)) ∨
        ∃ v, Eval g w (.parser p pos) (.matched v pos) := by
  constructor
  · rintro ⟨r, hr, hlast, hend⟩
    cases r with
    | matched v q =>
      obtain rfl := hlast v q rfl
      exact .inr ⟨v, hr⟩
    | failed e q =>
      obtain rfl : q = pos := hend.resolve_left not_false
      exact .inl ⟨e, hr⟩
    | suspended p' q frames | fault f => exact (or_self_iff.mp hend).elim
  · rintro (⟨e, he⟩ | ⟨v, hv⟩)
    · exact ⟨_, he, Result.isLast_of_not_isMatch not_false, .inr rfl⟩
    · exact ⟨_, hv, Result.isLast_matched, .inl trivial⟩

lemma exists_iterates (h : Eval g w (.repetition p gathered start) r) : ∃ vs q r',
    Iterates g w p start vs q ∧ Eval g w (.parser p q) r' ∧ r'.IsLast q ∧
      r = r'.afterRounds p q (vs.foldl .push gathered) := by
  -- on the rounds: each pushes one value, and the rest begins with what is gathered by then
  generalize htask : Task.repetition p gathered start = task at h
  induction h generalizing gathered start with
  | @again _ _ _ v _ _ hmatch hne _ _ ih =>
    cases htask
    obtain ⟨vs, q, r', hiterates, hr', hlast, rfl⟩ := ih rfl
    exact ⟨v :: vs, q, r', .cons hmatch.ends hne hiterates, hr', hlast, rfl⟩
  | enough_matched hr =>
    cases htask
    exact ⟨[], _, _, .nil, hr, Result.isLast_matched, rfl⟩
  | enough_failed hr =>
    cases htask
    exact ⟨[], _, _, .nil, hr, Result.isLast_of_not_isMatch not_false, (if_pos rfl).symm⟩
  | @repetition_stop _ _ _ r hr hn hat =>
    cases htask
    refine ⟨[], _, _, .nil, hr, Result.isLast_of_not_isMatch hn, ?_⟩
    cases r with
    | matched v q => exact absurd trivial hn
    | failed e q => exact (if_neg hat).symm
    | suspended q pos frames | fault f => rfl
  | _ => cases htask

lemma many_iff : Eval g w (.parser (.many p) start) r ↔ ∃ vs q r',
    Rounds g w p start vs q ∧ Eval g w (.parser p q) r' ∧ r'.IsLast q ∧
      r'.afterRounds p q (.ofList vs) = r := by
  simp only [← iterates_iff_rounds]
  constructor
  · intro h
    cases h with
    | read hreads | released hreads => cases hreads
    | many h =>
      obtain ⟨vs, q, r', hiterates, hr', hlast, rfl⟩ := h.exists_iterates
      exact ⟨vs, q, r', hiterates, hr', hlast, rfl⟩
  · rintro ⟨vs, q, r', hiterates, hr', hlast, rfl⟩
    exact .many (hiterates.repetition (hr'.afterRounds hlast))

end Eval

lemma Iterates.exists_last
    (h : ∀ vs q, Iterates g w p pos vs q → ∃ r, Eval g w (.parser p q) r) :
    ∃ vs q r, Iterates g w p pos vs q ∧ Eval g w (.parser p q) r ∧ r.IsLast q := by
  -- on what is left of the window: a round that is followed by another takes some of it
  induction hn : (w.stop - pos).toNat using Nat.strong_induction_on generalizing pos with
  | h n ih =>
    obtain ⟨r, hr⟩ := h [] pos .nil
    by_cases hlast : r.IsLast pos
    · exact ⟨[], pos, r, .nil, hr, hlast⟩
    · unfold Result.IsLast at hlast
      push Not at hlast
      obtain ⟨v, q, rfl, hq⟩ := hlast
      have hlt : (w.stop - q).toNat < (w.stop - pos).toNat := Ends.remaining_lt hr.ends hq
      obtain ⟨vs, q', r, hrest, hr', hlast⟩ :=
        ih _ (hn ▸ hlt) (fun vs q' hrest => h (v :: vs) q' (.cons hr.ends hq hrest)) rfl
      exact ⟨v :: vs, q', r, .cons hr.ends hq hrest, hr', hlast⟩

lemma Eval.many_returns : (∃ r, Eval g w (.parser (.many p) start) r) ↔
    ∀ vs q, Rounds g w p start vs q → ∃ r, Eval g w (.parser p q) r := by
  simp only [← iterates_iff_rounds]
  constructor
  · rintro ⟨r, hr⟩ vs q hiterates
    have hrun : Reaches g w (.run (.many p) start [])
        ((Task.parser p q).state [.many p q (vs.foldl .push .empty)]) :=
      .head rfl (hiterates.reaches .empty [])
    exact (hrun.ends_iff.mp hr.ends).exists_eval
  · intro h
    obtain ⟨vs, q, r, hiterates, hr, hlast⟩ := Iterates.exists_last h
    exact ⟨_, .many (hiterates.repetition (hr.afterRounds hlast))⟩

namespace Eval

lemma many_matched {v : Value} : Eval g w (.parser (.many p) start) (.matched v q) ↔
    ∃ vs, v = .stream (.ofList vs) ∧ Rounds g w p start vs q ∧ Stays g w p q := by
  simp only [Stays, ends_run_iff, Result.ofOutcome, many_iff, Result.afterRounds_eq_matched]
  constructor
  · rintro ⟨vs, _, r, hrounds, hr, hlast, rfl, rfl, hend⟩
    exact ⟨vs, rfl, hrounds, stays_iff.mp ⟨r, hr, hlast, hend⟩⟩
  · rintro ⟨vs, rfl, hrounds, hstays⟩
    obtain ⟨r, hr, hlast, hend⟩ := stays_iff.mpr hstays
    exact ⟨vs, q, r, hrounds, hr, hlast, rfl, rfl, hend⟩

lemma many_failed {e : Failure} : Eval g w (.parser (.many p) start) (.failed e pos) ↔
    ∃ vs q, Rounds g w p start vs q ∧ pos ≠ q ∧ Eval g w (.parser p q) (.failed e pos) := by
  simp only [many_iff, Result.afterRounds_eq_failed]
  constructor
  · rintro ⟨vs, q, _, hrounds, hr, _, rfl, hne⟩
    exact ⟨vs, q, hrounds, hne, hr⟩
  · rintro ⟨vs, q, hrounds, hne, hr⟩
    exact ⟨vs, q, _, hrounds, hr, Result.isLast_of_not_isMatch not_false, rfl, hne⟩

lemma many_suspended {p' : Parser κ} {stack : Stack κ} :
    Eval g w (.parser (.many p) start) (.suspended p' pos stack) ↔
      ∃ vs q frames, Rounds g w p start vs q ∧ stack = frames ++ [.many p q (.ofList vs)] ∧
        Eval g w (.parser p q) (.suspended p' pos frames) := by
  simp only [many_iff, Result.afterRounds_eq_suspended]
  constructor
  · rintro ⟨vs, q, _, hrounds, hr, _, frames, rfl, hstack⟩
    exact ⟨vs, q, frames, hrounds, hstack, hr⟩
  · rintro ⟨vs, q, frames, hrounds, hstack, hr⟩
    exact ⟨vs, q, _, hrounds, hr, Result.isLast_of_not_isMatch not_false, frames, rfl, hstack⟩

lemma many_fault {f : Fault} : Eval g w (.parser (.many p) start) (.fault f) ↔
    ∃ vs q, Rounds g w p start vs q ∧ Eval g w (.parser p q) (.fault f) := by
  simp only [many_iff, Result.afterRounds_eq_fault]
  constructor
  · rintro ⟨vs, q, _, hrounds, hr, _, rfl⟩
    exact ⟨vs, q, hrounds, hr⟩
  · rintro ⟨vs, q, hrounds, hr⟩
    exact ⟨vs, q, _, hrounds, hr, Result.isLast_of_not_isMatch not_false, rfl⟩

end Eval

theorem many_repeats_while_consuming (g : Grammar κ) (w : Window) (p : Parser κ) (start : Int) :
    (∀ v q, Ends g w (.run (.many p) start []) (.ok (.matched v q)) ↔
      ∃ vs, v = .stream (.ofList vs) ∧ Rounds g w p start vs q ∧
        ((∃ e, Ends g w (.run p q []) (.ok (.failed e q))) ∨
          ∃ v', Ends g w (.run p q []) (.ok (.matched v' q)))) ∧
    (∀ e r, Ends g w (.run (.many p) start []) (.ok (.failed e r)) ↔
      ∃ vs q, Rounds g w p start vs q ∧ r ≠ q ∧
        Ends g w (.run p q []) (.ok (.failed e r))) ∧
    (∀ p' r stack, Ends g w (.run (.many p) start []) (.ok (.needsMore p' r stack)) ↔
      ∃ vs q frames, Rounds g w p start vs q ∧ stack = frames ++ [.many p q (.ofList vs)] ∧
        Ends g w (.run p q []) (.ok (.needsMore p' r frames))) ∧
    (∀ f, Ends g w (.run (.many p) start []) (.error f) ↔
      ∃ vs q, Rounds g w p start vs q ∧ Ends g w (.run p q []) (.error f)) ∧
    ∀ e r, Ends g w (.run (.many p) start []) (.ok (.failed e r)) →
      ∃ q, start ≤ q ∧ q < r ∧ Ends g w (.run p q []) (.ok (.failed e r)) := by
  refine ⟨?_, ?_, ?_, ?_, ?_⟩
  · intro v q
    rw [ends_run_iff]
    exact Eval.many_matched
  · intro e r
    simp only [ends_run_iff]
    exact Eval.many_failed
  · intro p' r stack
    simp only [ends_run_iff]
    exact Eval.many_suspended
  · intro f
    simp only [ends_run_iff]
    exact Eval.many_fault
  · intro e r h
    obtain ⟨vs, q, hrounds, hne, hr⟩ := Eval.many_failed.mp (ends_run_iff.mp h)
    have hle : start ≤ q := (iterates_iff_rounds.mpr hrounds).start_le
    have hle' : q ≤ r := hr.ends.position_between.1
    exact ⟨q, hle, lt_of_le_of_ne hle' hne.symm, hr.ends⟩

theorem many_repeats_while_consuming_once :
    (∃ q, 0 ≤ q ∧ q < 3 ∧
      Ends (κ := Empty) Empty.elim ⟨#[.char 'a', .char 'b', .char 'a', .char 'c'], 0, true⟩
        (.run (.next (.character (.str "a")) (.character (.str "b"))) q [])
        (.ok (.failed ⟨3, .expected ["b"] (.char 'c')⟩ 3))) ∧
      Ends (κ := Empty) Empty.elim ⟨#[.char 'a', .char 'b', .char 'a', .char 'c'], 0, true⟩
        (.run (.many (.either (.character (.str "a")) (.always .null))) 0 [])
        (.ok (.matched (.stream (.ofList [.char 'a'])) 1)) := by
  let w : Window := ⟨#[.char 'a', .char 'b', .char 'a', .char 'c'], 0, true⟩
  constructor
  · exact (many_repeats_while_consuming (κ := Empty) Empty.elim w _ 0).2.2.2.2 _ _ ⟨20, rfl⟩
  · refine ((many_repeats_while_consuming (κ := Empty) Empty.elim w _ 0).1 _ _).mpr
      ⟨[.char 'a'], rfl, ⟨Nat.cast, rfl, rfl, ?_⟩, .inr ⟨.null, 9, rfl⟩⟩
    intro i hi
    obtain rfl : i = 0 := by simpa using hi
    exact ⟨by decide, 9, rfl⟩

end ResumableParsing
