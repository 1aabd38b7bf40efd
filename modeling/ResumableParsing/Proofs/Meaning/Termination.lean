import ResumableParsing.Parser.Text
import ResumableParsing.Proofs.Meaning.Repetition
import ResumableParsing.Proofs.Parts

/-! Without rules only repetition could go on for ever, and each of its rounds consumes. -/

namespace ResumableParsing

variable {κ : Type} {g : Grammar κ} {w : Window} {p q first : Parser κ} {start pos : Int}
variable {parsers others : List (Parser κ)} {stack : Stack κ} {frame : Frame κ} {s t : State κ}
variable {r : Result κ} {task : Task κ}

def Total (g : Grammar κ) (w : Window) (p : Parser κ) : Prop :=
  ∀ pos, ∃ r, Eval g w (.parser p pos) r

namespace Total

lemma of_reads (hp : p.reads) : Total g w p := fun _ => Covers.primitive hp

lemma bind {next : Value → Parser κ} (hp : Total g w p) (hnext : ∀ v, Total g w (next v)) :
    Total g w (.bind p next) := by
  intro pos
  obtain ⟨r, hr⟩ := hp pos
  exact hr.exists_bind fun v q _ => hnext v q

lemma alternatives (hfirst : Total g w first) (hothers : ∀ q ∈ others, Total g w q) (start : Int)
    (earlier : Option Failure) : ∃ r, Eval g w (.alternatives first others start earlier) r := by
  induction others generalizing first earlier with
  | nil =>
    obtain ⟨r, hr⟩ := hfirst start
    exact hr.exists_alternatives (by rintro _ _ _ ⟨⟩)
  | cons q others ih =>
    obtain ⟨r, hr⟩ := hfirst start
    obtain ⟨hq, hothers⟩ := List.forall_mem_cons.mp hothers
    refine hr.exists_alternatives ?_
    rintro _ _ e ⟨⟩ _
    exact ih hq hothers _

lemma sequence (h : ∀ q ∈ parsers, Total g w q) (last : Value) (pos : Int) :
    ∃ r, Eval g w (.sequence parsers last pos) r := by
  induction parsers generalizing last pos with
  | nil => exact ⟨_, .sequence_end⟩
  | cons p parsers ih =>
    obtain ⟨hp, hparsers⟩ := List.forall_mem_cons.mp h
    obtain ⟨r, hr⟩ := hp pos
    exact hr.exists_sequence fun v q _ => ih hparsers v q

lemma enumeration (h : ∀ q ∈ parsers, Total g w q) (gathered : Stream Value) (pos : Int) :
    ∃ r, Eval g w (.enumeration parsers gathered pos) r := by
  induction parsers generalizing gathered pos with
  | nil => exact ⟨_, .enumeration_end⟩
  | cons p parsers ih =>
    obtain ⟨hp, hparsers⟩ := List.forall_mem_cons.mp h
    obtain ⟨r, hr⟩ := hp pos
    exact hr.exists_enumeration fun v q _ => ih hparsers _ q

lemma exists_iterates (hp : Total g w p) (pos : Int) : ∃ vs q r, Iterates g w p pos vs q ∧
    Eval g w (.parser p q) r ∧ r.IsLast q :=
  Iterates.exists_last fun _ q _ => hp q

lemma repetition (hp : Total g w p) (gathered : Stream Value) (pos : Int) :
    ∃ r, Eval g w (.repetition p gathered pos) r := by
  obtain ⟨vs, q, r, hiterates, hr, hlast⟩ := hp.exists_iterates pos
  exact ⟨_, hiterates.repetition (hr.afterRounds hlast)⟩

end Total

def NoRule : Parser κ → Prop
  | .rule _ => False
  | _ => True

lemma Parser.MadeOf.total (h : p.MadeOf NoRule) : Total g w p := by
  induction h with
  | token => exact .of_reads rfl
  | endOfInput => exact .of_reads rfl
  | always => exact fun pos => ⟨_, .always⟩
  | fail => exact fun pos => ⟨_, .fail⟩
  | failWith => exact fun pos => ⟨_, .failWith⟩
  | position => exact fun pos => ⟨_, .position⟩
  | raise => exact fun pos => ⟨_, .raise⟩
  | rule hkey => exact hkey.elim
  | bind _ _ ihp ihnext => exact ihp.bind ihnext
  | choice _ _ ihfirst ihothers =>
    exact fun pos => (ihfirst.alternatives ihothers pos none).imp fun _ => .choice
  | attempt _ ih => exact fun pos => (ih pos).imp' _ fun _ => .attempt
  | lookahead _ ih => exact fun pos => (ih pos).imp' _ fun _ => .lookahead
  | notFollowedBy _ _ ih => exact fun pos => (ih pos).imp' _ fun _ => .notFollowedBy
  | expected _ ih => exact fun pos => (ih pos).imp' _ fun _ => .expected
  | sequence _ ih => exact fun pos => (Total.sequence ih _ pos).imp fun _ => .sequence
  | enumeration _ ih => exact fun pos => (Total.enumeration ih _ pos).imp fun _ => .enumeration
  | many _ ih => exact fun pos => (ih.repetition _ pos).imp fun _ => .many

lemma Frame.MadeOf.exists_eval (hf : frame.MadeOf NoRule) (h : frame.resumed? r = some task) :
    ∃ r', Eval g w task r' := by
  revert h
  fun_cases Frame.resumed? frame r <;> intro h <;> cases h
  · exact (hf _).total _
  · exact Total.sequence (fun q hq => (hf q hq).total) _ _
  · exact Total.enumeration (fun q hq => (hf q hq).total) _ _
  · exact Total.repetition hf.total _ _
  · obtain ⟨hq, hothers⟩ := List.forall_mem_cons.mp hf
    exact Total.alternatives hq.total (fun q hq => (hothers q hq).total) _ _

lemma Stack.MadeOf.exists_unwinds (hs : stack.MadeOf NoRule) (r : Result κ) :
    ∃ o, Unwinds g w r stack o := by
  induction stack generalizing r with
  | nil => exact ⟨_, .nil⟩
  | cons frame stack ih =>
    obtain ⟨hf, hs⟩ := Stack.madeOf_cons.mp hs
    obtain ⟨r', hr⟩ : ∃ r', Feeds g w frame r r' := Feeds.exists_of_resumed fun _ => hf.exists_eval
    obtain ⟨o, ho⟩ := ih hs r'
    exact ⟨o, .cons hr ho⟩

lemma Parser.MadeOf.exists_ends (hp : p.MadeOf NoRule) (hs : stack.MadeOf NoRule) (pos : Int) :
    ∃ o, Ends g w (.run p pos stack) o := by
  obtain ⟨r, hr⟩ : ∃ r, Eval g w (.parser p pos) r := hp.total pos
  obtain ⟨o, ho⟩ := hs.exists_unwinds r
  exact ⟨o, (hr.arrives stack).ends_iff.mpr ho⟩

def Stack.Arises (g : Grammar κ) (stack : Stack κ) : Prop :=
  ∃ p start s, p.MadeOf NoRule ∧ Comes g (.run p start []) s ∧ s.stack = stack

lemma State.MadeOf.stack_madeOf {ok : Parser κ → Prop} (h : s.MadeOf ok) : s.stack.MadeOf ok := by
  cases s with
  | run p pos stack => exact h.2
  | matched v pos stack => exact h
  | failed e pos stack => exact h

lemma Stack.Arises.madeOf (h : stack.Arises g) : stack.MadeOf NoRule := by
  obtain ⟨p, start, s, hp, hs, rfl⟩ := h
  have hstart : (State.run p start []).MadeOf NoRule := ⟨hp, List.forall_mem_nil _⟩
  exact (hs.madeOf (fun _ hkey => hkey.elim) hstart).stack_madeOf

theorem noRule_terminates (hp : p.MadeOf NoRule) (hs : stack.Arises g) (w : Window) (pos : Int) :
    (∃ o, Ends g w (.run p pos stack) o) ∧
      (w.offset ≤ stack.watermark pos → ¬ ReadsReleased g w (.run p pos stack)) ∧
      (∀ separator : Parser κ, separator.MadeOf NoRule →
        ∀ q ∈ [p.many, p.many1, p.sepBy separator], ∃ o, Ends g w (.run q pos stack) o) ∧
      ∃ vs q o, Iterates g w p pos vs q ∧ vs.length ≤ (w.stop - pos).toNat ∧
        Reaches g w (.run p.many pos stack) (.run p q (.many p q (.ofList vs) :: stack)) ∧
        Ends g w (.run p q []) o ∧ ∀ v q', o = .ok (.matched v q') → q' = q := by
  have hstack := hs.madeOf
  refine ⟨hp.exists_ends hstack pos, fun ho => not_readsReleased ho, ?_, ?_⟩
  · intro separator hseparator q hq
    simp only [List.mem_cons, List.not_mem_nil, or_false] at hq
    obtain rfl | rfl | rfl := hq
    · exact (Parser.MadeOf.many hp).exists_ends hstack pos
    · exact hp.many1.exists_ends hstack pos
    · exact (hp.sepBy hseparator).exists_ends hstack pos
  · obtain ⟨vs, q, r, hiterates, hr, hlast⟩ := Total.exists_iterates (g := g) (w := w) hp.total pos
    refine ⟨vs, q, r.outcome, hiterates, hiterates.length_le, ?_, hr.ends, ?_⟩
    · exact .head rfl (hiterates.reaches .empty stack)
    · rintro v q' ho
      exact hlast v q' (Result.outcome_injective ho)

theorem noRule_terminates_rewinding : ∃ p : Parser Empty, ∃ stack : Stack Empty,
    p = .either (.attempt (.next (.character (.str "a")) (.character (.str "a"))))
      (.lookahead (.character (.str "a"))) ∧
    stack.Arises Empty.elim ∧ stack.length = 2 ∧ stack.watermark 3 = 2 ∧
    (∃ o, Ends Empty.elim ⟨#[.char 'a', .char 'a', .char 'a'], 2, true⟩ (.run p.many 3 stack) o) ∧
    ¬ ReadsReleased Empty.elim ⟨#[.char 'a', .char 'a', .char 'a'], 2, true⟩ (.run p 3 stack) ∧
    ∃ vs q, Iterates Empty.elim ⟨#[.char 'a', .char 'a', .char 'a'], 2, true⟩ p 3 vs q ∧
      vs.length ≤ 2 := by
  let a : Parser Empty := .character (.str "a")
  let p : Parser Empty := .either (.attempt (.next a a)) (.lookahead a)
  let stack : Stack Empty := [.many p 2 .empty, .attempt 2]
  have ha : a.MadeOf NoRule := .token trivial
  have hp : p.MadeOf NoRule := .either (.attempt (ha.next ha)) (.lookahead ha)
  have hs : stack.Arises Empty.elim := by
    refine ⟨.attempt p.many, 2, .run p 2 stack, .attempt (.many hp), ?_, rfl⟩
    exact .head ⟨.empty, rfl⟩ (.single ⟨.empty, rfl⟩)
  obtain ⟨_, hkept, hmany, vs, q, _, hiterates, hlength, _⟩ :=
    noRule_terminates hp hs ⟨#[.char 'a', .char 'a', .char 'a'], 2, true⟩ 3
  exact ⟨p, stack, rfl, hs, rfl, rfl, hmany a ha _ List.mem_cons_self, hkept le_rfl, vs, q,
    hiterates, hlength⟩

theorem noRule_ends_above_offset (hp : p.MadeOf NoRule) (hw : w.offset ≤ start)
    (h : Comes g (.run p start []) (.run q pos stack)) :
    (∃ o, Ends g w (.run q pos stack) o) ∧ ¬ ReadsReleased g w (.run q pos stack) := by
  have hstart : (State.run p start []).MadeOf NoRule := ⟨hp, List.forall_mem_nil _⟩
  obtain ⟨hq, hstack⟩ := h.madeOf (fun _ hkey => hkey.elim) hstart
  have hle : start ≤ stack.watermark pos := h.watermark_le
  exact ⟨hq.exists_ends hstack pos, not_readsReleased (hw.trans hle)⟩

end ResumableParsing
