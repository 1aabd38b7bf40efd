import ResumableParsing.Proofs.Found
import ResumableParsing.Proofs.Merging
import ResumableParsing.Proofs.Meaning.Binding
import ResumableParsing.Proofs.Meaning.Progress

/-! Where failures stand. Attempts and merging move a failure away from where its parser is left; a
literal alone looks back, and it goes back that far itself. -/

namespace ResumableParsing

variable {κ : Type}

namespace Parser

/-- Failures are made where they happen. Literals are taken whole: their parts look back. -/
inductive Placed (rules : Set κ) : Parser κ → Prop
  | token {accepts label} : Placed rules (.token accepts (reporting label))
  | literal {text body} : Parser.literal text = .ok (.attempt body) → Placed rules (.attempt body)
  | always {v} : Placed rules (.always v)
  | fail {message} : Placed rules (.fail message)
  | position : Placed rules .position
  | endOfInput : Placed rules .endOfInput
  | raise {f} : Placed rules (.raise f)
  | rule {key} : key ∈ rules → Placed rules (.rule key)
  | bind {p next} : Placed rules p → (∀ v, Placed rules (next v)) → Placed rules (.bind p next)
  | choice {first others} : Placed rules first → (∀ q ∈ others, Placed rules q) →
      Placed rules (.choice first others)
  | attempt {p} : Placed rules p → Placed rules (.attempt p)
  | sequence {parsers} : (∀ q ∈ parsers, Placed rules q) → Placed rules (.sequence parsers)
  | enumeration {parsers} : (∀ q ∈ parsers, Placed rules q) → Placed rules (.enumeration parsers)
  | many {p} : Placed rules p → Placed rules (.many p)
  | lookahead {p} : Placed rules p → Placed rules (.lookahead p)
  | notFollowedBy {p label} : Placed rules p → Placed rules (.notFollowedBy p label)
  | expected {label p} : Placed rules p → Placed rules (.expected label p)

variable {p body : Parser κ} {rules : Set κ} {text : Value}

lemma literal_ok (h : literal text = .ok p) : ∃ keys, p = .attempt (literalFrom text 0 keys) := by
  cases text with
  | str s | list items | tuple items =>
    cases h
    exact ⟨_, rfl⟩
  | stream items =>
    have hif : (if items.size = 0 then .ok (attempt (always (.stream items)))
        else .error (Fault.notSliceable (Value.stream items).kind)) = Except.ok p := h
    split_ifs at hif
    cases hif
    exact ⟨[], rfl⟩
  | _ => cases h

lemma MadeOf.placed (h : p.MadeOf (Reports rules)) : p.Placed rules := by
  induction h with
  | token hok =>
    obtain ⟨label, rfl⟩ := hok
    exact .token
  | fail hok => exact hok.elim
  | failWith hok => exact hok.elim
  | notFollowedBy hok => exact hok.elim
  | always => exact .always
  | position => exact .position
  | endOfInput => exact .endOfInput
  | raise => exact .raise
  | rule hok => exact .rule hok
  | bind _ _ hp hnext => exact .bind hp hnext
  | choice _ _ hfirst hothers => exact .choice hfirst hothers
  | attempt _ hp => exact .attempt hp
  | sequence _ hparsers => exact .sequence hparsers
  | enumeration _ hparsers => exact .enumeration hparsers
  | many _ hp => exact .many hp
  | lookahead _ hp => exact .lookahead hp
  | expected _ hp => exact .expected hp

lemma placed_literal (h : literal text = .ok p) : p.Placed rules := by
  obtain ⟨keys, rfl⟩ := literal_ok h
  exact .literal h

end Parser

def Result.Placed (stop : Int) : Result κ → Prop
  | failed e pos => pos ≤ e.position ∧ e.position ≤ stop
  | _ => True

namespace Result

variable {r : Result κ} {start pos stop : Int} {label : Value}

@[simp] lemma placed_within {frame : Frame κ} : (r.within frame).Placed stop ↔ r.Placed stop := by
  cases r <;> rfl

lemma placed_ofFailure {found : Value} (hpos : pos ≤ start) (hstop : start ≤ stop) :
    (ofFailure (Failure.expected start label found) pos : Result κ).Placed stop := by
  cases he : Failure.expected start label found with
  | error f => trivial
  | ok e =>
    obtain ⟨alternatives, rfl⟩ := Failure.expected_ok he
    exact ⟨hpos, hstop⟩

lemma placed_lookedAhead (h : r.Placed stop) : (r.lookedAhead start).Placed stop := by
  cases r with
  | failed e pos => exact h
  | matched | suspended | fault => trivial

lemma placed_negated (hstart : start ≤ stop) : (r.negated start label).Placed stop := by
  cases r with
  | matched v pos => exact placed_ofFailure le_rfl hstart
  | failed | suspended | fault => trivial

lemma placed_relabelled (hstart : start ≤ stop) (h : r.Placed stop) :
    (r.relabelled start label).Placed stop := by
  cases r with
  | failed e pos =>
    simp only [relabelled]
    split_ifs with hpos
    · exact placed_ofFailure hpos.1.le hstart
    · exact h
  | matched | suspended | fault => trivial

end Result

def Task.Placed (rules : Set κ) (stop : Int) : Task κ → Prop
  | .parser p pos => p.Placed rules ∧ pos ≤ stop
  | .alternatives first others start earlier => (first.Placed rules ∧ start ≤ stop) ∧
      (∀ q ∈ others, q.Placed rules) ∧
      ∀ e ∈ earlier, start ≤ e.position ∧ e.position ≤ stop
  | .sequence parsers _ pos => (∀ q ∈ parsers, q.Placed rules) ∧ pos ≤ stop
  | .enumeration parsers _ pos => (∀ q ∈ parsers, q.Placed rules) ∧ pos ≤ stop
  | .repetition body _ pos => body.Placed rules ∧ pos ≤ stop

section

variable {g : Grammar κ} {w : Window} {p : Parser κ} {rules : Set κ} {task : Task κ}
variable {r : Result κ} {start pos q : Int} {reading : Reading} {v text : Value} {e : Failure}
variable {keys : List Value} {index : ℕ} {earlier : Option Failure}
variable {accepts : Value → Except Fault Bool} {mismatch : Int → Value → Except Fault Failure}

lemma Failure.after_between {low high : Int} (he : low ≤ e.position ∧ e.position ≤ high)
    (hearlier : ∀ e' ∈ earlier, low ≤ e'.position ∧ e'.position ≤ high) :
    low ≤ (e.after earlier).position ∧ (e.after earlier).position ≤ high := by
  cases earlier with
  | none => exact he
  | some e' =>
    obtain ⟨hlow, hhigh⟩ := hearlier e' rfl
    rw [Failure.after, Failure.position_merge]
    exact ⟨le_max_of_le_left hlow, max_le hhigh he.2⟩

lemma Parser.token_matched
    (h : (token accepts mismatch : Parser κ).onReading pos reading = .matched v q) :
    q = pos + 1 := by
  cases reading with
  | element u =>
    simp only [onReading] at h
    split at h <;> simp_all
  | endOfInput | missing => simp [onReading] at h

lemma Parser.token_failed
    (h : (token accepts mismatch : Parser κ).onReading pos reading = .failed e q) :
    ∃ element, mismatch pos element = .ok e := by
  cases reading with
  | element u =>
    simp only [onReading] at h
    split at h
    · cases h
    · exact ⟨u, (Result.ofFailure_eq_failed.mp h).1⟩
    · cases h
  | endOfInput => exact ⟨_, (Result.ofFailure_eq_failed.mp h).1⟩
  | missing => cases h

lemma Parser.Placed.onReading (hp : p.Placed rules) (hpos : pos ≤ w.stop) :
    (p.onReading pos reading).Placed w.stop := by
  cases hp with
  | token =>
    cases reading with
    | element v =>
      simp only [Parser.onReading]
      split
      · trivial
      · exact Result.placed_ofFailure le_rfl hpos
      · trivial
    | endOfInput => exact Result.placed_ofFailure le_rfl hpos
    | missing => trivial
  | endOfInput =>
    cases reading with
    | element v =>
      simp only [Parser.onReading]
      exact Result.placed_ofFailure le_rfl hpos
    | endOfInput | missing => trivial
  | _ => cases reading <;> trivial

namespace Eval

lemma matched_le_stop (h : Eval g w (.parser p pos) (.matched v q)) (hpos : pos ≤ w.stop) :
    q ≤ w.stop :=
  (h.ends.position_between.2).trans (max_le hpos le_rfl)

lemma start_le_failed (h : Eval g w (.parser p pos) (.failed e q)) : pos ≤ q :=
  h.ends.position_between.1

lemma exists_reading (hp : p.reads) (h : Eval g w (.parser p pos) r) :
    (∃ reading, r = p.onReading pos reading) ∨ ∃ f, r = .fault f := by
  cases h with
  | read => exact .inl ⟨_, rfl⟩
  | released => exact .inr ⟨_, rfl⟩
  | _ => cases hp

lemma token_matched (h : Eval g w (.parser (.token accepts mismatch) pos) (.matched v q)) :
    q = pos + 1 := by
  rcases h.exists_reading rfl with ⟨reading, hr⟩ | ⟨f, hf⟩
  · exact Parser.token_matched hr.symm
  · cases hf

lemma token_failed (h : Eval g w (.parser (.token accepts mismatch) pos) (.failed e q)) :
    ∃ element, mismatch pos element = .ok e := by
  rcases h.exists_reading rfl with ⟨reading, hr⟩ | ⟨f, hf⟩
  · exact Parser.token_failed hr.symm
  · cases hf

lemma literalFrom_failed
    (h : Eval g w (.parser (.literalFrom text index keys) pos) (.failed e q)) :
    e.position = pos - index := by
  induction keys generalizing index pos with
  | nil => cases h
  | cons key keys ih =>
    rcases bind_failed.mp h with hkey | ⟨v, pos', hkey, hrest⟩
    · obtain ⟨element, he⟩ := hkey.token_failed
      obtain ⟨alternatives, rfl⟩ := Failure.expected_ok he
      rfl
    · -- one element further on there is one more to look back over
      rw [ih hrest, hkey.token_matched]
      push_cast
      omega

lemma placed_attempted (h : Eval g w (.parser p pos) r) (hp : r.Placed w.stop) :
    (r.attempted pos).Placed w.stop := by
  cases r with
  | failed e q =>
    -- the parser is let go where it began, its failure stays where it is
    exact ⟨h.start_le_failed.trans hp.1, hp.2⟩
  | matched | suspended | fault => trivial

lemma literal_attempted (h : Eval g w (.parser p pos) r)
    (hl : Parser.literal text = .ok (.attempt p)) (hpos : pos ≤ w.stop) :
    (r.attempted pos).Placed w.stop := by
  obtain ⟨keys, hkeys⟩ := Parser.literal_ok hl
  obtain rfl := Parser.attempt.inj hkeys
  cases r with
  | failed e q =>
    have he : e.position = pos := by simpa using h.literalFrom_failed
    exact ⟨he.ge, he.trans_le hpos⟩
  | matched | suspended | fault => trivial

lemma placed (h : Eval g w task r) (hg : ∀ key ∈ rules, (g key).Placed rules)
    (ht : task.Placed rules w.stop) : r.Placed w.stop := by
  induction h with
  | read => exact ht.1.onReading ht.2
  | released | always | position | raise | sequence_end | enumeration_end => trivial
  | enough_matched | enough_failed => trivial
  | fail => exact ⟨le_rfl, ht.2⟩
  | failWith => cases ht.1
  | rule _ ih =>
    cases ht.1 with
    | rule hkey => exact ih ⟨hg _ hkey, ht.2⟩
  | bind hp _ _ ih =>
    cases ht.1 with
    | bind _ hnext => exact ih ⟨hnext _, hp.matched_le_stop ht.2⟩
  | bind_stop _ _ ih =>
    cases ht.1 with
    | bind hp _ => exact Result.placed_within.mpr (ih ⟨hp, ht.2⟩)
  | attempt hr ih =>
    cases ht.1 with
    | literal hl => exact hr.literal_attempted hl ht.2
    | attempt hp => exact hr.placed_attempted (ih ⟨hp, ht.2⟩)
  | lookahead _ ih =>
    cases ht.1 with
    | lookahead hp => exact Result.placed_lookedAhead (ih ⟨hp, ht.2⟩)
  | notFollowedBy => exact Result.placed_negated ht.2
  | expected _ ih =>
    cases ht.1 with
    | expected hp => exact Result.placed_relabelled ht.2 (ih ⟨hp, ht.2⟩)
  | choice _ ih =>
    cases ht.1 with
    | choice hfirst hothers => exact ih ⟨⟨hfirst, ht.2⟩, hothers, by rintro _ ⟨⟩⟩
  | other _ _ ih ihother =>
    obtain ⟨hfirst, hothers, hearlier⟩ := ht
    obtain ⟨hq, hothers⟩ := List.forall_mem_cons.mp hothers
    refine ihother ⟨⟨hq, hfirst.2⟩, hothers, ?_⟩
    rintro _ ⟨⟩
    exact Failure.after_between (ih hfirst) hearlier
  | no_other _ ih =>
    obtain ⟨hfirst, _, hearlier⟩ := ht
    exact Failure.after_between (ih hfirst) hearlier
  | chosen _ _ ih => exact Result.placed_within.mpr (ih ht.1)
  | sequence _ ih =>
    cases ht.1 with
    | sequence hparsers => exact ih ⟨hparsers, ht.2⟩
  | sequence_next hp _ _ ih =>
    obtain ⟨_, hparsers⟩ := List.forall_mem_cons.mp ht.1
    exact ih ⟨hparsers, hp.matched_le_stop ht.2⟩
  | sequence_stop _ _ ih =>
    obtain ⟨hp, _⟩ := List.forall_mem_cons.mp ht.1
    exact Result.placed_within.mpr (ih ⟨hp, ht.2⟩)
  | enumeration _ ih =>
    cases ht.1 with
    | enumeration hparsers => exact ih ⟨hparsers, ht.2⟩
  | enumeration_next hp _ _ ih =>
    obtain ⟨_, hparsers⟩ := List.forall_mem_cons.mp ht.1
    exact ih ⟨hparsers, hp.matched_le_stop ht.2⟩
  | enumeration_stop _ _ ih =>
    obtain ⟨hp, _⟩ := List.forall_mem_cons.mp ht.1
    exact Result.placed_within.mpr (ih ⟨hp, ht.2⟩)
  | many _ ih =>
    cases ht.1 with
    | many hp => exact ih ⟨hp, ht.2⟩
  | again hp _ _ _ ih => exact ih ⟨ht.1, hp.matched_le_stop ht.2⟩
  | repetition_stop _ _ _ ih => exact Result.placed_within.mpr (ih ht)

end Eval

theorem failure_positions_ordered (hg : ∀ key ∈ rules, (g key).Placed rules)
    (hp : p.Placed rules) (hstart : start ≤ w.stop)
    (h : Ends g w (.run p start []) (.ok (.failed e pos))) :
    start ≤ pos ∧ pos ≤ e.position ∧ e.position ≤ w.stop := by
  have hr : Eval g w (.parser p start) (.failed e pos) := ends_run_iff.mp h
  obtain ⟨hpos, hstop⟩ := hr.placed hg ⟨hp, hstart⟩
  exact ⟨hr.start_le_failed, hpos, hstop⟩

theorem failure_positions_ordered_apart : ∃ literal trie : Parser Empty,
    Parser.literal (.str "ab") = .ok literal ∧
    (Trie.ofWords [["a", "c"], ["a", "d"]]).compile = .ok trie ∧
    Ends Empty.elim ⟨#[.char 'x', .char 'a', .char 'z'], 0, true⟩
      (.run (.sequence [.anyChar, literal.either trie]) 0 [])
      (.ok (.failed ⟨2, .expected ["c", "d"] (.char 'z')⟩ 1)) ∧
    (0 : Int) ≤ 1 ∧ (1 : Int) ≤ 2 ∧ (2 : Int) ≤ 3 := by
  obtain ⟨literal, trie, hl, ht, hends⟩ : ∃ literal trie : Parser Empty,
      Parser.literal (.str "ab") = .ok literal ∧
      (Trie.ofWords [["a", "c"], ["a", "d"]]).compile = .ok trie ∧
      Ends Empty.elim ⟨#[.char 'x', .char 'a', .char 'z'], 0, true⟩
        (.run (.sequence [.anyChar, literal.either trie]) 0 [])
        (.ok (.failed ⟨2, .expected ["c", "d"] (.char 'z')⟩ 1)) := ⟨_, _, rfl, rfl, 33, rfl⟩
  have heither : (literal.either trie).Placed (∅ : Set Empty) :=
    .choice (Parser.placed_literal hl)
      (List.forall_mem_singleton.mpr (Parser.reports_trie ht).placed)
  have hparsers : ∀ q ∈ [.anyChar, literal.either trie], q.Placed (∅ : Set Empty) :=
    List.forall_mem_cons.mpr ⟨.token, List.forall_mem_singleton.mpr heither⟩
  exact ⟨literal, trie, hl, ht, hends,
    failure_positions_ordered (by simp) (.sequence hparsers) (by decide) hends⟩

end

end ResumableParsing
