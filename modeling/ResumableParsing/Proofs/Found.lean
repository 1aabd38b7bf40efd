import ResumableParsing.Proofs.Failures
import ResumableParsing.Proofs.Feeding.Chunks
import ResumableParsing.Proofs.Parts
import ResumableParsing.Proofs.Trie.Branches

/-! No failure of parsers that report what they read names anything but what there is to read at its
position, however failures are merged, rewound and relabelled. -/

namespace ResumableParsing

variable {κ : Type} {g : Grammar κ} {w : Window} {p : Parser κ} {s t : State κ}
variable {e e' : Failure} {pos : Int} {reading : Reading} {rules : Set κ} {label found : Value}

namespace Failure

@[simp] lemma foundOf_foundOf (v : Value) : foundOf (foundOf v) = foundOf v := by
  cases v with
  | sentinel mark => cases mark <;> rfl
  | _ => rfl

lemma foundOf_of_ne {v : Value} (h : v ≠ .endOfInput) : foundOf v = v := by
  cases v with
  | sentinel mark =>
    cases mark with
    | endOfInput => exact absurd rfl h
    | missing => rfl
  | _ => rfl

lemma expected_ok (h : Failure.expected pos label found = .ok e) :
    ∃ alternatives, e = ⟨pos, .expected alternatives (foundOf found)⟩ := by
  cases ha : alternativesOf label with
  | error f => simp [Failure.expected, ha] at h
  | ok alternatives =>
    obtain rfl : ⟨pos, .expected alternatives (foundOf found)⟩ = e := by
      simpa [Failure.expected, ha, bind, Except.bind, pure, Except.pure] using h
    exact ⟨alternatives, rfl⟩

structure TrueOf (w : Window) (e : Failure) : Prop where
  position_le : e.position ≤ w.stop
  reason_eq : ∃ alternatives reading, e.reason = .expected alternatives (foundOf reading.value) ∧
    w.read e.position = .ok reading

namespace TrueOf

lemma of_expected (hpos : pos ≤ w.stop) (hr : w.read pos = .ok reading)
    (h : Failure.expected pos label reading.value = .ok e) : e.TrueOf w := by
  obtain ⟨alternatives, rfl⟩ := expected_ok h
  exact ⟨hpos, alternatives, reading, rfl, hr⟩

lemma relabelled (h : e.TrueOf w) (he : Failure.expected e.position label e.found = .ok e') :
    e'.TrueOf w := by
  obtain ⟨hpos, alternatives, reading, hreason, hr⟩ := h
  obtain ⟨alternatives', rfl⟩ := expected_ok he
  refine ⟨hpos, alternatives', reading, ?_, hr⟩
  -- the end of the input was put into words before, and the words stay as they are
  simp [Failure.found, hreason]

lemma merge (h : e.TrueOf w) (h' : e'.TrueOf w) : (e.merge e').TrueOf w := by
  obtain ⟨alternatives, reading, hreason, hr⟩ := h.reason_eq
  obtain ⟨alternatives', reading', hreason', hr'⟩ := h'.reason_eq
  simp only [Failure.merge, hreason, hreason']
  split_ifs
  · exact ⟨h.position_le, _, reading, rfl, hr⟩
  · exact h
  · exact h'

end TrueOf

end Failure

namespace Parser

/-- Tokens report the element they rejected; nothing else fails for reasons of its own. -/
def Reports (rules : Set κ) : Parser κ → Prop
  | token _ mismatch => ∃ label, mismatch = reporting label
  | fail _ => False
  | failWith _ => False
  | notFollowedBy _ _ => False
  | rule key => key ∈ rules
  | _ => True

lemma reports_tokenOf (accepts : Value → Except Fault Bool) :
    (tokenOf accepts : Parser κ).MadeOf (Reports rules) :=
  .token ⟨.str "token", rfl⟩

lemma reports_character (c : Value) : (character c : Parser κ).MadeOf (Reports rules) :=
  .token ⟨c, rfl⟩

lemma reports_characterClass (isMember : Char → Bool) (name : String) :
    (characterClass isMember name : Parser κ).MadeOf (Reports rules) :=
  .token ⟨.str name, rfl⟩

lemma reports_trie {trie : Trie} (h : trie.compile = .ok p) : p.MadeOf (Reports rules) :=
  Trie.madeOf_compile (fun key => reports_character (.str key)) h

lemma onReading_trueOf {q : Int} (hp : p.MadeOf (Reports rules)) (hpos : pos ≤ w.stop)
    (hr : w.read pos = .ok reading) (h : p.onReading pos reading = .failed e q) : e.TrueOf w := by
  cases hp with
  | @token accepts _ hmismatch =>
    obtain ⟨label, rfl⟩ := hmismatch
    cases reading with
    | element v =>
      simp only [onReading] at h
      split at h
      · cases h
      · exact .of_expected hpos hr (Result.ofFailure_eq_failed.mp h).1
      · cases h
    | endOfInput =>
      simp only [onReading, Result.ofFailure_eq_failed] at h
      exact .of_expected hpos hr h.1
    | missing => cases h
  | endOfInput =>
    cases reading with
    | element v =>
      simp only [onReading, Result.ofFailure_eq_failed] at h
      exact .of_expected hpos hr h.1
    | endOfInput => cases h
    | missing => cases h
  | _ => cases reading <;> cases h

end Parser

lemma State.Makes.trueOf (h : s.Makes w e) (hs : s.MadeOf (Parser.Reports rules))
    (hpos : s.position ≤ w.stop) (hst : s.Holds (Failure.TrueOf w)) : e.TrueOf w := by
  cases h with
  | read hr hf => exact Parser.onReading_trueOf hs.1 hpos hr hf
  | fail =>
    cases hs.1 with
    | fail hok => exact hok.elim
  | failWith =>
    cases hs.1 with
    | failWith hok => exact hok.elim
  | relabel hstart he =>
    subst hstart
    exact hst.1.relabelled he

lemma Steps.trueOf (h : Steps g w s t) (hs : s.MadeOf (Parser.Reports rules))
    (hpos : s.position ≤ w.stop) (hst : s.Holds (Failure.TrueOf w)) :
    t.Holds (Failure.TrueOf w) := by
  refine h.holds ?_ (fun _ _ he he' => he.merge he') (fun _ he => he.trueOf hs hpos hst) hst
  rintro body label pos stack rfl
  cases hs.1 with
  | notFollowedBy hok _ => exact hok

section

variable {low : Int} (hg : ∀ key ∈ rules, (g key).MadeOf (Parser.Reports rules))
variable (hs : s.MadeOf (Parser.Reports rules)) (ho : s.Ordered low w.stop)
variable (hst : s.Holds (Failure.TrueOf w))

include hg hs ho hst

lemma Reaches.trueOf (h : Reaches g w s t) : t.Holds (Failure.TrueOf w) := by
  induction h with
  | refl => exact hst
  | @tail u t hu ht ih =>
    -- a failure made at `u` is within the input because `u` is
    have hreach : Reaches g w s u := hu
    exact ht.trueOf (hreach.comes.madeOf hg hs) (hreach.ordered ho le_rfl).position_le ih

lemma Ends.trueOf (h : Ends g w s (.ok (.failed e pos))) : e.TrueOf w := by
  obtain ⟨t, ht, hstep⟩ := h.exists_halt
  have htrue := ht.trueOf hg hs ho hst
  rcases State.step_halt hstep with ⟨_, _, _, he⟩ | ⟨_, _, rfl, he⟩ | ⟨_, _, _, _, he, _⟩
  · cases he
  · cases he
    exact htrue.1
  · cases he

end

variable {xs : List Value} {parts : List (List Value)} {chunks : List Value}
variable {r : Except Fault (Session κ)}

lemma Failure.TrueOf.whole (h : e.TrueOf (Window.onto xs).close) :
    ∃ alternatives found, e.reason = .expected alternatives found ∧
      0 ≤ e.position ∧ e.position ≤ xs.length ∧
      (e.position = xs.length ∨ xs[e.position.toNat]? = some .endOfInput →
        found = .str endOfInputText) ∧
      ∀ v, xs[e.position.toNat]? = some v → v ≠ .endOfInput → found = v := by
  obtain ⟨hle, alternatives, reading, hreason, hr⟩ := h
  have hpos : 0 ≤ e.position := Window.offset_le_of_read hr
  rw [Window.stop_close, Window.stop_onto] at hle
  rw [Window.read_whole hpos, Except.ok.injEq] at hr
  refine ⟨alternatives, _, hreason, hpos, hle, ?_, ?_⟩
  · rintro (hend | hend)
    · have hnone : xs[e.position.toNat]? = none := List.getElem?_eq_none (by omega)
      rw [hnone] at hr
      exact hr ▸ rfl
    · rw [hend] at hr
      exact hr ▸ rfl
  · intro v hv hne
    rw [hv] at hr
    rw [← hr, Reading.value_ofElement, foundOf_of_ne hne]

lemma Session.exists_ends_of_failure {v : Except Fault (Outcome κ)}
    (hv : .error (.failure e) = verdict v) :
    (∃ pos, v = .ok (.failed e pos)) ∨ ∃ q pos stack, v = .ok (.needsMore q pos stack) := by
  cases v with
  | error f => cases hv
  | ok o =>
    cases o with
    | matched v pos => cases hv
    | failed e' pos =>
      cases hv
      exact .inl ⟨pos, rfl⟩
    | needsMore q pos stack => exact .inr ⟨q, pos, stack, rfl⟩

theorem failure_names_found (hg : ∀ key ∈ rules, (g key).MadeOf (Parser.Reports rules))
    (hp : p.MadeOf (Parser.Reports rules)) (hc : chunks.map Value.elements = parts.map .ok)
    (hm : Value.missing ∉ parts.flatten) (hs : Session.Starts g p r)
    (hv : Session.Concludes g r chunks (.error (.failure e))) :
    ∃ alternatives found, e.reason = .expected alternatives found ∧
      0 ≤ e.position ∧ e.position ≤ parts.flatten.length ∧
      (e.position = parts.flatten.length ∨
        parts.flatten[e.position.toNat]? = some .endOfInput → found = .str endOfInputText) ∧
      ∀ v, parts.flatten[e.position.toNat]? = some v → v ≠ .endOfInput → found = v := by
  obtain ⟨o, ho, rfl⟩ := Session.starts_iff.mp hs
  obtain ⟨o', hends, hverdict⟩ := (ho.concludes_iff hc).mp hv
  rw [List.nil_append] at hends
  rcases Session.exists_ends_of_failure hverdict with ⟨pos, rfl⟩ | ⟨q, pos, stack, rfl⟩
  · have hordered : (State.run p 0 []).Ordered 0 (Window.onto parts.flatten).close.stop :=
      State.ordered_run le_rfl Window.offset_le_stop
    have hstart : (State.run p 0 []).MadeOf (Parser.Reports rules) := ⟨hp, List.forall_mem_nil _⟩
    have htrue : e.TrueOf (Window.onto parts.flatten).close :=
      hends.trueOf hg hstart hordered (List.forall_mem_nil _)
    exact htrue.whole
  · exact absurd (Window.missing_mem hends.suspended.2) hm

theorem failure_names_found_nested : ∃ (g : Grammar Unit) (r : Except Fault (Session Unit)),
    g () = .either (.between (.character (.str "(")) (.character (.str ")")) (.rule ()))
      (.many1 .digit) ∧
    Session.Starts g (g ()) r ∧
    Session.Concludes g r [.str "((", .str "x)"]
      (.error (.failure ⟨2, .expected ["(", "any digit character"] (.char 'x')⟩)) ∧
    ∃ alternatives found, Reason.expected ["(", "any digit character"] (.char 'x') =
      .expected alternatives found ∧ found = .char 'x' := by
  let g : Grammar Unit := fun _ => .either
    (.between (.character (.str "(")) (.character (.str ")")) (.rule ())) (.many1 .digit)
  have hg : ∀ key ∈ Set.univ, (g key).MadeOf (Parser.Reports Set.univ) := by
    rintro ⟨⟩ _
    exact .either (.between (Parser.reports_character _) (Parser.reports_character _)
      (.rule (Set.mem_univ _))) (.many1 (Parser.reports_characterClass _ _))
  have hc : [Value.str "((", .str "x)"].map Value.elements =
      [[.char '(', .char '('], [.char 'x', .char ')']].map .ok := rfl
  have hm : Value.missing ∉ [[Value.char '(', .char '('], [.char 'x', .char ')']].flatten := by
    simp [Value.char, Value.missing]
  have hstart : Ends g (.onto []) (.run (g ()) 0 []) _ := ⟨9, rfl⟩
  have hs : Session.Starts g (g ()) _ := Session.starts_iff.mpr ⟨_, hstart, rfl⟩
  have hv : Session.Concludes g _ [.str "((", .str "x)"]
      (.error (.failure ⟨2, .expected ["(", "any digit character"] (.char 'x')⟩)) :=
    (hstart.concludes_iff hc).mpr ⟨.ok (.failed _ 2), ⟨40, rfl⟩, rfl⟩
  obtain ⟨alternatives, found, hreason, _, _, _, hfound⟩ :=
    failure_names_found hg (hg () (Set.mem_univ _)) hc hm hs hv
  exact ⟨g, _, rfl, hs, hv, alternatives, found, hreason,
    hfound (.char 'x') rfl (by simp [Value.char, Value.endOfInput])⟩

end ResumableParsing
