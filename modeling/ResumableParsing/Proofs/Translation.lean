import ResumableParsing.Parser.Text
import ResumableParsing.Proofs.Meaning.Machine
import ResumableParsing.Proofs.Parts
import ResumableParsing.Proofs.Trie.Branches
import ResumableParsing.Proofs.Watermark

/-! To the machine no position is special. -/

namespace ResumableParsing

variable {κ : Type} {g : Grammar κ} {w w' : Window} {p : Parser κ} {s : State κ}
variable {k m pos : Int} {stack : Stack κ} {frame : Frame κ} {v : Value} {e : Failure}
variable {rules : Set κ}

namespace Failure

def moved (k : Int) (e : Failure) : Failure := ⟨e.position + k, e.reason⟩

@[simp] lemma position_moved : (e.moved k).position = e.position + k := rfl

@[simp] lemma found_moved : (e.moved k).found = e.found := rfl

lemma expected_moved (label : Value) :
    Failure.expected (pos + k) label v = (Failure.expected pos label v).map (moved k) := by
  cases ha : alternativesOf label <;>
    simp [Failure.expected, ha, moved, bind, Except.bind, pure, Except.pure, Except.map]

lemma merge_moved (e e' : Failure) : (e.moved k).merge (e'.moved k) = (e.merge e').moved k := by
  obtain ⟨pos, reason⟩ := e
  obtain ⟨pos', reason'⟩ := e'
  simp only [merge, moved, add_left_inj, gt_iff_lt, add_lt_add_iff_right]
  cases reason with
  | plain message => split_ifs <;> rfl
  | expected alternatives found =>
    cases reason' with
    | plain message => split_ifs <;> rfl
    | expected alternatives' found' => split_ifs <;> rfl

lemma after_moved (e : Failure) (earlier : Option Failure) :
    (e.moved k).after (earlier.map (moved k)) = (e.after earlier).moved k := by
  cases earlier with
  | none => rfl
  | some e' => exact merge_moved e' e

end Failure

def Frame.moved (k : Int) : Frame κ → Frame κ
  | bind next => bind next
  | choice others start earlier => choice others (start + k) (earlier.map (Failure.moved k))
  | attempt start => attempt (start + k)
  | sequence others => sequence others
  | enumeration others gathered => enumeration others gathered
  | many body start gathered => many body (start + k) gathered
  | lookahead start => lookahead (start + k)
  | notFollowedBy start label => notFollowedBy (start + k) label
  | expected start label => expected (start + k) label

def Stack.moved (k : Int) (stack : Stack κ) : Stack κ := stack.map (Frame.moved k)

def State.moved (k : Int) : State κ → State κ
  | run p pos stack => run p (pos + k) (stack.moved k)
  | matched v pos stack => matched v (pos + k) (stack.moved k)
  | failed e pos stack => failed (e.moved k) (pos + k) (stack.moved k)

def Outcome.moved (k : Int) : Outcome κ → Outcome κ
  | matched v pos => matched v (pos + k)
  | failed e pos => failed (e.moved k) (pos + k)
  | needsMore p pos stack => needsMore p (pos + k) (stack.moved k)

def Move.moved (k : Int) : Move κ → Move κ
  | next s => next (s.moved k)
  | halt o => halt (o.moved k)

def Result.moved (k : Int) : Result κ → Result κ
  | matched v pos => matched v (pos + k)
  | failed e pos => failed (e.moved k) (pos + k)
  | suspended p pos frames => suspended p (pos + k) (frames.moved k)
  | fault f => fault f

lemma Stack.moved_cons : Stack.moved k (frame :: stack) = frame.moved k :: stack.moved k := rfl

lemma Frame.rewind?_moved : (frame.moved k).rewind? = frame.rewind?.map (· + k) := by
  cases frame <;> rfl

lemma Stack.watermark_moved : (stack.moved k).watermark (pos + k) = stack.watermark pos + k := by
  apply eq_of_forall_le_iff
  intro m
  rw [← sub_le_iff_le_add, le_watermark_iff, le_watermark_iff, sub_le_iff_le_add]
  apply and_congr_right
  intro _
  simp only [Stack.moved, List.forall_mem_map, Frame.rewind?_moved, Option.mem_def,
    Option.map_eq_some_iff]
  constructor
  · intro h frame hf start hs
    exact sub_le_iff_le_add.mpr (h frame hf _ ⟨start, hs, rfl⟩)
  · rintro h frame hf _ ⟨start, hs, rfl⟩
    exact sub_le_iff_le_add.mp (h frame hf start hs)

lemma Outcome.position_moved (o : Outcome κ) : (o.moved k).position = o.position + k := by
  cases o <;> rfl

lemma Outcome.needed_moved (o : Outcome κ) : (o.moved k).needed = o.needed + k := by
  cases o with
  | matched v pos => rfl
  | failed e pos => rfl
  | needsMore p pos stack => exact Stack.watermark_moved

lemma Result.move_moved (r : Result κ) :
    (r.moved k).move (stack.moved k) = (r.move stack).map (Move.moved k) := by
  cases r with
  | suspended p pos frames => simp [moved, move, Except.map, Move.moved, Outcome.moved, Stack.moved]
  | matched v pos | failed e pos | fault f => rfl

lemma Result.ofFailure_moved (r : Except Fault Failure) :
    (ofFailure (r.map (Failure.moved k)) (pos + k) : Result κ) = (ofFailure r pos).moved k := by
  cases r <;> rfl

namespace Parser

/-- No position is given in advance or made a value; tokens report their own, or their literal's. -/
def Relative (rules : Set κ) : Parser κ → Prop
  | token _ mismatch =>
    (∃ label, mismatch = reporting label) ∨ ∃ text index, mismatch = literalMismatch text index
  | failWith _ => False
  | position => False
  | rule key => key ∈ rules
  | _ => True

lemma relative_reporting (accepts : Value → Except Fault Bool) (label : Value) :
    (token accepts (reporting label) : Parser κ).MadeOf (Relative rules) :=
  .token (.inl ⟨label, rfl⟩)

lemma relative_literalFrom (text : Value) (index : ℕ) (keys : List Value) :
    (literalFrom text index keys : Parser κ).MadeOf (Relative rules) := by
  induction keys generalizing index with
  | nil => exact .always
  | cons key keys ih => exact (MadeOf.token (.inr ⟨text, index, rfl⟩)).next (ih (index + 1))

lemma relative_literal {text : Value} (h : literal text = .ok p) :
    p.MadeOf (Relative rules) := by
  cases text with
  | str t | list items | tuple items =>
    cases h
    exact .attempt (relative_literalFrom _ _ _)
  | stream items =>
    change (if items.size = 0 then Except.ok (attempt (always _)) else _) = _ at h
    split_ifs at h
    cases h
    exact .attempt .always
  | _ => cases h

lemma relative_trie {trie : Trie} (h : trie.compile = .ok p) : p.MadeOf (Relative rules) :=
  Trie.madeOf_compile (fun key => relative_reporting _ (.str key)) h

lemma mismatch_moved {accepts : Value → Except Fault Bool}
    {mismatch : Int → Value → Except Fault Failure} (h : Relative rules (token accepts mismatch))
    (pos : Int) (v : Value) :
    mismatch (pos + k) v = (mismatch pos v).map (Failure.moved k) := by
  rcases h with ⟨label, rfl⟩ | ⟨text, index, rfl⟩
  · exact Failure.expected_moved label
  · simp only [literalMismatch]
    rw [← Failure.expected_moved, add_sub_right_comm]

lemma onReading_moved (hp : p.MadeOf (Relative rules)) (reading : Reading) :
    p.onReading (pos + k) reading = (p.onReading pos reading).moved k := by
  cases hp with
  | @token accepts mismatch hmismatch =>
    cases reading with
    | element v =>
      simp only [onReading]
      cases accepts v with
      | error f => rfl
      | ok b =>
        cases b with
        | true => simp only [Result.moved, add_right_comm]
        | false => simp only [mismatch_moved hmismatch, Result.ofFailure_moved]
    | endOfInput => simp only [onReading, mismatch_moved hmismatch, Result.ofFailure_moved]
    | missing => rfl
  | endOfInput =>
    cases reading with
    | element v => simp only [onReading, Failure.expected_moved, Result.ofFailure_moved]
    | endOfInput => rfl
    | missing => rfl
  | _ => cases reading <;> rfl

lemma enter_moved (hp : p.MadeOf (Relative rules)) (hr : w'.read (pos + k) = w.read pos) :
    p.enter g w' (pos + k) (stack.moved k) = (p.enter g w pos stack).map (Move.moved k) := by
  by_cases hreads : p.reads
  · rw [enter_of_reads hreads, enter_of_reads hreads, hr]
    cases w.read pos with
    | error f => rfl
    | ok reading =>
      simp only [Except.bind, onReading_moved hp, Result.move_moved]
  · cases hp with
    | token _ => simp [reads] at hreads
    | endOfInput => simp [reads] at hreads
    | failWith hok => exact hok.elim
    | position hok => exact hok.elim
    | @sequence parsers => cases parsers <;> rfl
    | @enumeration parsers => cases parsers <;> rfl
    | _ => rfl

end Parser

namespace Frame

lemma onMatch_moved : (frame.moved k).onMatch v (pos + k) (stack.moved k) =
    (frame.onMatch v pos stack).map (State.moved k) := by
  cases frame with
  | bind | choice | attempt | lookahead | expected => rfl
  | sequence parsers => cases parsers <;> rfl
  | enumeration parsers gathered => cases parsers <;> rfl
  | many body start gathered =>
    simp only [moved, onMatch, add_left_inj]
    split_ifs <;> rfl
  | notFollowedBy start label =>
    simp only [moved, onMatch, Failure.expected_moved]
    cases Failure.expected start label v <;> rfl

lemma onFailure_moved : (frame.moved k).onFailure (e.moved k) (pos + k) (stack.moved k) =
    (frame.onFailure e pos stack).map (State.moved k) := by
  cases frame with
  | bind | attempt | sequence | enumeration | lookahead | notFollowedBy => rfl
  | choice others start earlier =>
    by_cases hpos : pos = start
    · subst hpos
      cases others with
      | nil =>
        simp only [moved, onFailure_choice_nil, Failure.after_moved]
        rfl
      | cons next others =>
        simp only [moved, onFailure_choice_cons, Failure.after_moved]
        rfl
    · have hne : pos + k ≠ start + k := by simpa using hpos
      simp only [moved, onFailure_choice_of_ne hpos, onFailure_choice_of_ne hne]
      rfl
  | many body start gathered =>
    simp only [moved, onFailure, ne_eq, add_left_inj]
    split_ifs <;> rfl
  | expected start label =>
    simp only [moved, onFailure, Failure.position_moved, Failure.found_moved, add_left_inj,
      Failure.expected_moved]
    split_ifs
    · cases Failure.expected start label e.found <;> rfl
    · rfl

end Frame

lemma State.step_moved (hs : s.MadeOf (Parser.Relative rules))
    (hr : w'.read (s.position + k) = w.read s.position) :
    (s.moved k).step g w' = (s.step g w).map (Move.moved k) := by
  cases s with
  | run p pos stack => exact Parser.enter_moved hs.1 hr
  | matched v pos stack =>
    cases stack with
    | nil => rfl
    | cons frame stack =>
      simp only [moved, Stack.moved_cons, step, Frame.onMatch_moved]
      cases frame.onMatch v pos stack <;> rfl
  | failed e pos stack =>
    cases stack with
    | nil => rfl
    | cons frame stack =>
      simp only [moved, Stack.moved_cons, step, Frame.onFailure_moved]
      cases frame.onFailure e pos stack <;> rfl

lemma execute_moved (hg : ∀ key ∈ rules, (g key).MadeOf (Parser.Relative rules))
    (hw : ∀ pos, m ≤ pos → w'.read (pos + k) = w.read pos) (hs : s.MadeOf (Parser.Relative rules))
    (hm : m ≤ s.watermark) (fuel : ℕ) :
    execute g w' fuel (s.moved k) = (execute g w fuel s).map (Except.map (Outcome.moved k)) := by
  induction fuel generalizing s with
  | zero => rfl
  | succ fuel ih =>
    have hstep : (s.moved k).step g w' = (s.step g w).map (Move.moved k) :=
      State.step_moved hs (hw _ (hm.trans State.watermark_le_position))
    cases ht : s.step g w with
    | error f =>
      rw [ht] at hstep
      rw [execute_error ht, execute_error hstep]
      rfl
    | ok move =>
      rw [ht] at hstep
      cases move with
      | halt o =>
        rw [execute_halt ht, execute_halt hstep]
        rfl
      | next t =>
        have hst : Steps g w s t := ht
        rw [execute_next hst, execute_next hstep]
        exact ih (hst.madeOf hg hs) (hm.trans hst.shift.watermark_le)

theorem run_behind_elements (hg : ∀ key ∈ rules, (g key).MadeOf (Parser.Relative rules))
    (hp : p.MadeOf (Parser.Relative rules)) (ys zs : List Value) (closed : Bool) :
    (∀ fuel, execute g ⟨(ys ++ zs).toArray, 0, closed⟩ fuel (.run p ys.length []) =
      (execute g ⟨zs.toArray, 0, closed⟩ fuel (.run p 0 [])).map
        (Except.map (Outcome.moved ys.length))) ∧
    ∀ o, Ends g ⟨zs.toArray, 0, closed⟩ (.run p 0 []) (.ok o) →
      Ends g ⟨(ys ++ zs).toArray, 0, closed⟩ (.run p ys.length []) (.ok (o.moved ys.length)) ∧
      (o.moved ys.length).position = o.position + ys.length ∧
      (o.moved ys.length).needed = o.needed + ys.length := by
  have hmoved : ∀ fuel, execute g ⟨(ys ++ zs).toArray, 0, closed⟩ fuel (.run p ys.length []) =
      (execute g ⟨zs.toArray, 0, closed⟩ fuel (.run p 0 [])).map
        (Except.map (Outcome.moved ys.length)) := by
    intro fuel
    have hs : (State.run p 0 []).MadeOf (Parser.Relative rules) := ⟨hp, List.forall_mem_nil _⟩
    have hread : ∀ pos : Int, 0 ≤ pos →
        Window.read ⟨(ys ++ zs).toArray, 0, closed⟩ (pos + ys.length) =
          Window.read ⟨zs.toArray, 0, closed⟩ pos := fun _ => Window.read_behind
    have h := execute_moved hg hread hs le_rfl fuel
    simpa [State.moved, Stack.moved] using h
  refine ⟨hmoved, ?_⟩
  rintro o ⟨fuel, ho⟩
  refine ⟨⟨fuel, ?_⟩, o.position_moved, o.needed_moved⟩
  rw [hmoved, ho]
  rfl

theorem run_behind_elements_nested : ∃ (g : Grammar Unit) (ab : Parser Unit),
    Parser.literal (.str "ab") = .ok ab ∧
    g () = .either (.between (.character (.str "(")) (.character (.str ")")) (.rule ())) ab ∧
    Ends g ⟨#[.null, .missing, .char '(', .char 'a', .char 'x'], 0, true⟩ (.run (g ()) 2 [])
      (.ok (.failed ⟨3, .expected ["(", "ab"] (.char 'a')⟩ 3)) ∧
    ∃ q stack, Ends g ⟨#[.null, .missing, .char '(', .char 'a'], 0, false⟩ (.run (g ()) 2 [])
      (.ok (.needsMore q 4 stack)) ∧ stack.watermark 4 = 3 := by
  let ab : Parser Unit := .attempt (.literalFrom (.str "ab") 0 [.char 'a', .char 'b'])
  let g : Grammar Unit := fun _ =>
    .either (.between (.character (.str "(")) (.character (.str ")")) (.rule ())) ab
  have hab : Parser.literal (.str "ab") = .ok ab := rfl
  have hg : ∀ key ∈ Set.univ, (g key).MadeOf (Parser.Relative Set.univ) := by
    rintro ⟨⟩ _
    exact .either (.between (Parser.relative_reporting _ _) (Parser.relative_reporting _ _)
      (.rule (Set.mem_univ _))) (Parser.relative_literal hab)
  have hp := hg () (Set.mem_univ _)
  obtain ⟨_, hclosed⟩ :=
    run_behind_elements hg hp [.null, .missing] [.char '(', .char 'a', .char 'x'] true
  obtain ⟨hfailed, _⟩ := hclosed (.failed ⟨1, .expected ["(", "ab"] (.char 'a')⟩ 1) ⟨40, rfl⟩
  obtain ⟨_, hopen⟩ := run_behind_elements hg hp [.null, .missing] [.char '(', .char 'a'] false
  obtain ⟨hwaits, _, hmark⟩ := hopen (.needsMore _ 2 _) ⟨40, rfl⟩
  exact ⟨g, ab, hab, rfl, hfailed, _, _, hwaits, hmark⟩

end ResumableParsing
