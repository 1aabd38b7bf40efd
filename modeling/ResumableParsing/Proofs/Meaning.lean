import ResumableParsing.Proofs.Result

/-! The meaning of parsers by recursion, with no stack. Frames come up only where a part suspends, to
say what is left to do around it. -/

namespace ResumableParsing

variable {κ : Type}

def Failure.after (e : Failure) : Option Failure → Failure
  | none => e
  | some earlier => earlier.merge e

namespace Result

def within (frame : Frame κ) : Result κ → Result κ
  | suspended p pos frames => suspended p pos (frames ++ [frame])
  | r => r

def under (frames : Stack κ) : Result κ → Result κ
  | suspended p pos inner => suspended p pos (inner ++ frames)
  | r => r

def attempted (start : Int) : Result κ → Result κ
  | failed e _ => failed e start
  | r => r.within (.attempt start)

def lookedAhead (start : Int) : Result κ → Result κ
  | matched v _ => matched v start
  | r => r.within (.lookahead start)

def negated (start : Int) (label : Value) : Result κ → Result κ
  | matched v _ => ofFailure (Failure.expected start label v) start
  | failed _ _ => matched .null start
  | r => r.within (.notFollowedBy start label)

def relabelled (start : Int) (label : Value) : Result κ → Result κ
  | failed e pos =>
    if pos = start ∧ e.position = start then ofFailure (Failure.expected start label e.found) pos
    else failed e pos
  | r => r.within (.expected start label)

def outcome : Result κ → Except Fault (Outcome κ)
  | matched v pos => .ok (.matched v pos)
  | failed e pos => .ok (.failed e pos)
  | suspended p pos frames => .ok (.needsMore p pos frames)
  | fault f => .error f

def IsMatch : Result κ → Prop
  | matched _ _ => True
  | _ => False

def FailsAt (start : Int) : Result κ → Prop
  | failed _ pos => pos = start
  | _ => False

end Result

/-- A parser to be run, or a combinator with some of its parts behind it. -/
inductive Task (κ : Type) where
  | parser (p : Parser κ) (pos : Int)
  | alternatives (first : Parser κ) (others : List (Parser κ)) (start : Int)
      (earlier : Option Failure)
  | sequence (parsers : List (Parser κ)) (last : Value) (pos : Int)
  | enumeration (parsers : List (Parser κ)) (gathered : Stream Value) (pos : Int)
  | repetition (body : Parser κ) (gathered : Stream Value) (pos : Int)

open Result in
inductive Eval (g : Grammar κ) (w : Window) : Task κ → Result κ → Prop
  | read {p pos reading} : p.reads → w.read pos = .ok reading →
      Eval g w (.parser p pos) (p.onReading pos reading)
  | released {p pos f} : p.reads → w.read pos = .error f → Eval g w (.parser p pos) (.fault f)
  | always {v pos} : Eval g w (.parser (.always v) pos) (matched v pos)
  | fail {message pos} :
      Eval g w (.parser (.fail message) pos) (failed (.plain pos message) pos)
  | failWith {e pos} : Eval g w (.parser (.failWith e) pos) (failed e pos)
  | position {pos} : Eval g w (.parser .position pos) (matched (.int pos) pos)
  | raise {f pos} : Eval g w (.parser (.raise f) pos) (fault f)
  | rule {key pos r} : Eval g w (.parser (g key) pos) r → Eval g w (.parser (.rule key) pos) r
  | bind {p next pos v pos' r} : Eval g w (.parser p pos) (matched v pos') →
      Eval g w (.parser (next v) pos') r → Eval g w (.parser (.bind p next) pos) r
  | bind_stop {p next pos r} : Eval g w (.parser p pos) r → ¬ r.IsMatch →
      Eval g w (.parser (.bind p next) pos) (r.within (.bind next))
  | attempt {p pos r} : Eval g w (.parser p pos) r →
      Eval g w (.parser (.attempt p) pos) (r.attempted pos)
  | lookahead {p pos r} : Eval g w (.parser p pos) r →
      Eval g w (.parser (.lookahead p) pos) (r.lookedAhead pos)
  | notFollowedBy {p label pos r} : Eval g w (.parser p pos) r →
      Eval g w (.parser (.notFollowedBy p label) pos) (r.negated pos label)
  | expected {p label pos r} : Eval g w (.parser p pos) r →
      Eval g w (.parser (.expected label p) pos) (r.relabelled pos label)
  | choice {first others pos r} : Eval g w (.alternatives first others pos none) r →
      Eval g w (.parser (.choice first others) pos) r
  | other {p q others start earlier e r} : Eval g w (.parser p start) (failed e start) →
      Eval g w (.alternatives q others start (some (e.after earlier))) r →
      Eval g w (.alternatives p (q :: others) start earlier) r
  | no_other {p start earlier e} : Eval g w (.parser p start) (failed e start) →
      Eval g w (.alternatives p [] start earlier) (failed (e.after earlier) start)
  | chosen {p others start earlier r} : Eval g w (.parser p start) r → ¬ r.FailsAt start →
      Eval g w (.alternatives p others start earlier) (r.within (.choice others start earlier))
  | sequence {parsers pos r} : Eval g w (.sequence parsers .null pos) r →
      Eval g w (.parser (.sequence parsers) pos) r
  | sequence_end {last pos} : Eval g w (.sequence [] last pos) (matched last pos)
  | sequence_next {p parsers last pos v pos' r} : Eval g w (.parser p pos) (matched v pos') →
      Eval g w (.sequence parsers v pos') r → Eval g w (.sequence (p :: parsers) last pos) r
  | sequence_stop {p parsers last pos r} : Eval g w (.parser p pos) r → ¬ r.IsMatch →
      Eval g w (.sequence (p :: parsers) last pos) (r.within (.sequence parsers))
  | enumeration {parsers pos r} : Eval g w (.enumeration parsers .empty pos) r →
      Eval g w (.parser (.enumeration parsers) pos) r
  | enumeration_end {gathered pos} :
      Eval g w (.enumeration [] gathered pos) (matched (.stream gathered) pos)
  | enumeration_next {p parsers gathered pos v pos' r} :
      Eval g w (.parser p pos) (matched v pos') →
      Eval g w (.enumeration parsers (gathered.push v) pos') r →
      Eval g w (.enumeration (p :: parsers) gathered pos) r
  | enumeration_stop {p parsers gathered pos r} : Eval g w (.parser p pos) r → ¬ r.IsMatch →
      Eval g w (.enumeration (p :: parsers) gathered pos)
        (r.within (.enumeration parsers gathered))
  | many {p pos r} : Eval g w (.repetition p .empty pos) r → Eval g w (.parser (.many p) pos) r
  | again {p gathered pos v pos' r} : Eval g w (.parser p pos) (matched v pos') → pos' ≠ pos →
      Eval g w (.repetition p (gathered.push v) pos') r → Eval g w (.repetition p gathered pos) r
  | enough_matched {p gathered pos v} : Eval g w (.parser p pos) (matched v pos) →
      Eval g w (.repetition p gathered pos) (matched (.stream gathered) pos)
  | enough_failed {p gathered pos e} : Eval g w (.parser p pos) (failed e pos) →
      Eval g w (.repetition p gathered pos) (matched (.stream gathered) pos)
  | repetition_stop {p gathered pos r} : Eval g w (.parser p pos) r → ¬ r.IsMatch →
      ¬ r.FailsAt pos → Eval g w (.repetition p gathered pos) (r.within (.many p pos gathered))

namespace Eval

variable {g : Grammar κ} {w : Window} {p : Parser κ} {parsers others : List (Parser κ)}
variable {next : Value → Parser κ} {pos start : Int} {r : Result κ} {last : Value}
variable {gathered : Stream Value} {earlier : Option Failure}

lemma exists_bind (hr : Eval g w (.parser p pos) r)
    (hnext : ∀ v q, r = .matched v q → ∃ r', Eval g w (.parser (next v) q) r') :
    ∃ r', Eval g w (.parser (.bind p next) pos) r' := by
  cases r with
  | matched v q =>
    obtain ⟨r', h⟩ := hnext v q rfl
    exact ⟨r', .bind hr h⟩
  | failed e q | suspended q pos frames | fault f => exact ⟨_, .bind_stop hr not_false⟩

lemma exists_alternatives (hr : Eval g w (.parser p start) r)
    (hnext : ∀ q others' e, others = q :: others' → r = .failed e start →
      ∃ r', Eval g w (.alternatives q others' start (some (e.after earlier))) r') :
    ∃ r', Eval g w (.alternatives p others start earlier) r' := by
  cases r with
  | failed e q =>
    by_cases hq : q = start
    · subst hq
      cases others with
      | nil => exact ⟨_, .no_other hr⟩
      | cons first others =>
        obtain ⟨r', h⟩ := hnext first others e rfl rfl
        exact ⟨r', .other hr h⟩
    · exact ⟨_, .chosen hr hq⟩
  | matched v q | suspended q pos frames | fault f => exact ⟨_, .chosen hr not_false⟩

lemma exists_sequence (hr : Eval g w (.parser p pos) r)
    (hnext : ∀ v q, r = .matched v q → ∃ r', Eval g w (.sequence parsers v q) r') :
    ∃ r', Eval g w (.sequence (p :: parsers) last pos) r' := by
  cases r with
  | matched v q =>
    obtain ⟨r', h⟩ := hnext v q rfl
    exact ⟨r', .sequence_next hr h⟩
  | failed e q | suspended q pos frames | fault f => exact ⟨_, .sequence_stop hr not_false⟩

lemma exists_enumeration (hr : Eval g w (.parser p pos) r)
    (hnext : ∀ v q, r = .matched v q →
      ∃ r', Eval g w (.enumeration parsers (gathered.push v) q) r') :
    ∃ r', Eval g w (.enumeration (p :: parsers) gathered pos) r' := by
  cases r with
  | matched v q =>
    obtain ⟨r', h⟩ := hnext v q rfl
    exact ⟨r', .enumeration_next hr h⟩
  | failed e q | suspended q pos frames | fault f => exact ⟨_, .enumeration_stop hr not_false⟩

lemma exists_repetition (hr : Eval g w (.parser p pos) r)
    (hnext : ∀ v q, r = .matched v q → q ≠ pos →
      ∃ r', Eval g w (.repetition p (gathered.push v) q) r') :
    ∃ r', Eval g w (.repetition p gathered pos) r' := by
  cases r with
  | matched v q =>
    by_cases hq : q = pos
    · subst hq
      exact ⟨_, .enough_matched hr⟩
    · obtain ⟨r', h⟩ := hnext v q rfl hq
      exact ⟨r', .again hr hq h⟩
  | failed e q =>
    by_cases hq : q = pos
    · subst hq
      exact ⟨_, .enough_failed hr⟩
    · exact ⟨_, .repetition_stop hr not_false hq⟩
  | suspended q pos frames | fault f => exact ⟨_, .repetition_stop hr not_false not_false⟩

end Eval

def Frame.resumed? : Frame κ → Result κ → Option (Task κ)
  | .bind next, .matched v pos => some (.parser (next v) pos)
  | .sequence parsers, .matched v pos => some (.sequence parsers v pos)
  | .enumeration parsers gathered, .matched v pos =>
    some (.enumeration parsers (gathered.push v) pos)
  | .many p start gathered, .matched v pos =>
    if pos = start then none else some (.repetition p (gathered.push v) pos)
  | .choice (q :: others) start earlier, .failed e pos =>
    if pos = start then some (.alternatives q others start (some (e.after earlier))) else none
  | _, _ => none

open Result in
inductive Feeds (g : Grammar κ) (w : Window) : Frame κ → Result κ → Result κ → Prop
  | suspended {frame p pos frames} :
      Feeds g w frame (suspended p pos frames) (suspended p pos (frames ++ [frame]))
  | fault {frame f} : Feeds g w frame (fault f) (fault f)
  | bind {next v pos r} : Eval g w (.parser (next v) pos) r →
      Feeds g w (.bind next) (matched v pos) r
  | bind_failed {next e pos} : Feeds g w (.bind next) (failed e pos) (failed e pos)
  | attempt {start r} : Feeds g w (.attempt start) r (r.attempted start)
  | lookahead {start r} : Feeds g w (.lookahead start) r (r.lookedAhead start)
  | notFollowedBy {start label r} :
      Feeds g w (.notFollowedBy start label) r (r.negated start label)
  | expected {start label r} : Feeds g w (.expected start label) r (r.relabelled start label)
  | choice {others start earlier v pos} :
      Feeds g w (.choice others start earlier) (matched v pos) (matched v pos)
  | choice_other {q others start earlier e r} :
      Eval g w (.alternatives q others start (some (e.after earlier))) r →
      Feeds g w (.choice (q :: others) start earlier) (failed e start) r
  | choice_no_other {start earlier e} :
      Feeds g w (.choice [] start earlier) (failed e start) (failed (e.after earlier) start)
  | choice_consumed {others start earlier e pos} : pos ≠ start →
      Feeds g w (.choice others start earlier) (failed e pos) (failed e pos)
  | sequence {parsers v pos r} : Eval g w (.sequence parsers v pos) r →
      Feeds g w (.sequence parsers) (matched v pos) r
  | sequence_failed {parsers e pos} :
      Feeds g w (.sequence parsers) (failed e pos) (failed e pos)
  | enumeration {parsers gathered v pos r} :
      Eval g w (.enumeration parsers (gathered.push v) pos) r →
      Feeds g w (.enumeration parsers gathered) (matched v pos) r
  | enumeration_failed {parsers gathered e pos} :
      Feeds g w (.enumeration parsers gathered) (failed e pos) (failed e pos)
  | many {p start gathered v pos r} : pos ≠ start →
      Eval g w (.repetition p (gathered.push v) pos) r →
      Feeds g w (.many p start gathered) (matched v pos) r
  | many_matched {p start gathered v} : Feeds g w (.many p start gathered) (matched v start)
      (matched (.stream gathered) start)
  | many_failed {p start gathered e} : Feeds g w (.many p start gathered) (failed e start)
      (matched (.stream gathered) start)
  | many_consumed {p start gathered e pos} : pos ≠ start →
      Feeds g w (.many p start gathered) (failed e pos) (failed e pos)

lemma Feeds.exists_of_resumed {g : Grammar κ} {w : Window} {frame : Frame κ} {r : Result κ}
    (h : ∀ task, frame.resumed? r = some task → ∃ r', Eval g w task r') :
    ∃ r', Feeds g w frame r r' := by
  cases r with
  | suspended p pos frames => exact ⟨_, .suspended⟩
  | fault f => exact ⟨_, .fault⟩
  | matched v pos =>
    cases frame with
    | bind next => exact (h _ rfl).imp fun _ => .bind
    | choice others start earlier => exact ⟨_, .choice⟩
    | attempt start => exact ⟨_, .attempt⟩
    | sequence parsers => exact (h _ rfl).imp fun _ => .sequence
    | enumeration parsers gathered => exact (h _ rfl).imp fun _ => .enumeration
    | many p start gathered =>
      by_cases hpos : pos = start
      · subst hpos
        exact ⟨_, .many_matched⟩
      · exact (h _ (if_neg hpos)).imp fun _ => .many hpos
    | lookahead start => exact ⟨_, .lookahead⟩
    | notFollowedBy start label => exact ⟨_, .notFollowedBy⟩
    | expected start label => exact ⟨_, .expected⟩
  | failed e pos =>
    cases frame with
    | bind next => exact ⟨_, .bind_failed⟩
    | choice others start earlier =>
      by_cases hpos : pos = start
      · subst hpos
        cases others with
        | nil => exact ⟨_, .choice_no_other⟩
        | cons q others => exact (h _ (if_pos rfl)).imp fun _ => .choice_other
      · exact ⟨_, .choice_consumed hpos⟩
    | attempt start => exact ⟨_, .attempt⟩
    | sequence parsers => exact ⟨_, .sequence_failed⟩
    | enumeration parsers gathered => exact ⟨_, .enumeration_failed⟩
    | many p start gathered =>
      by_cases hpos : pos = start
      · subst hpos
        exact ⟨_, .many_failed⟩
      · exact ⟨_, .many_consumed hpos⟩
    | lookahead start => exact ⟨_, .lookahead⟩
    | notFollowedBy start label => exact ⟨_, .notFollowedBy⟩
    | expected start label => exact ⟨_, .expected⟩

inductive Unwinds (g : Grammar κ) (w : Window) :
    Result κ → Stack κ → Except Fault (Outcome κ) → Prop
  | nil {r} : Unwinds g w r [] r.outcome
  | cons {frame stack r r' o} : Feeds g w frame r r' → Unwinds g w r' stack o →
      Unwinds g w r (frame :: stack) o

end ResumableParsing
