import ResumableParsing.Proofs.Found
import ResumableParsing.Proofs.Meaning.Adequacy
import ResumableParsing.Proofs.Merging

/-! A failure with a message of its own says nothing of what was found. Where it is relabelled, the
new failure names the end of the input; else the end is named at the end alone. -/

namespace ResumableParsing

variable {κ : Type} {g : Grammar κ} {w : Window} {p : Parser κ} {s t : State κ} {rules : Set κ}
variable {e e' : Failure} {pos : Int} {unsaid : Int → Prop}

/-- On its way from `s` the machine relabels a failure that is no expectation, where it stands. -/
def RelabelsPlain (g : Grammar κ) (w : Window) (s : State κ) (pos : Int) : Prop :=
  ∃ message label stack,
    Reaches g w s (.failed (.plain pos message) pos (.expected pos label :: stack))

namespace Parser

def ReportsOrFails (rules : Set κ) : Parser κ → Prop
  | fail _ => True
  | p => p.Reports rules

lemma MadeOf.reports {reading : Reading} {q : Int} (hp : p.MadeOf (ReportsOrFails rules))
    (h : p.onReading pos reading = .failed e q) : p.MadeOf (Reports rules) := by
  cases hp with
  | token hok => exact .token hok
  | endOfInput => exact .endOfInput
  | _ => cases reading <;> cases h

end Parser

namespace Failure

lemma TrueOf.renamed (h : e.TrueOf w) (alternatives : List String) :
    TrueOf w ⟨e.position, .expected alternatives e.found⟩ := by
  obtain ⟨hpos, _, reading, hreason, hr⟩ := h
  exact ⟨hpos, alternatives, reading, by simp [Failure.found, hreason], hr⟩

def TrueUnless (w : Window) (unsaid : Int → Prop) (e : Failure) : Prop :=
  e.isExpectation → e.TrueOf w ∨ unsaid e.position

lemma TrueUnless.merge (h : e.TrueUnless w unsaid) (h' : e'.TrueUnless w unsaid) :
    (e.merge e').TrueUnless w unsaid := by
  rcases lt_trichotomy e.position e'.position with hpos | hpos | hpos
  · rwa [merge_of_lt hpos]
  · by_cases hn : e.isExpectation = false ∨ e'.isExpectation = false
    · rwa [merge_of_eq hpos hn]
    · simp only [not_or, Bool.not_eq_false] at hn
      rw [merge_expectations hpos hn.1 hn.2]
      intro _
      exact (h hn.1).imp_left fun htrue => htrue.renamed _
  · rwa [merge_of_gt hpos]

end Failure

lemma State.Makes.trueUnless (h : s.Makes w e) (hs : s.MadeOf (Parser.ReportsOrFails rules))
    (hpos : s.position ≤ w.stop) (hst : s.Holds (Failure.TrueUnless w unsaid))
    (hunsaid : ∀ pos message label stack,
      s = .failed (.plain pos message) pos (.expected pos label :: stack) → unsaid pos) :
    e.TrueUnless w unsaid := by
  intro hexp
  cases h with
  | read hr hf => exact .inl (Parser.onReading_trueOf (hs.1.reports hf) hpos hr hf)
  | fail => cases hexp
  | failWith =>
    cases hs.1 with
    | failWith hok => exact hok.elim
  | @relabel e pos label stack e' hstart he =>
    subst hstart
    obtain ⟨position, reason⟩ := e
    cases reason with
    | plain message =>
      obtain ⟨alternatives, rfl⟩ := Failure.expected_ok he
      exact .inr (hunsaid _ _ _ _ rfl)
    | expected alternatives found =>
      rcases hst.1 rfl with htrue | hpos
      · exact .inl (htrue.relabelled he)
      · obtain ⟨alternatives', rfl⟩ := Failure.expected_ok he
        exact .inr hpos

lemma Reaches.trueUnless (h : Reaches g w s t)
    (hg : ∀ key ∈ rules, (g key).MadeOf (Parser.ReportsOrFails rules))
    (hs : s.MadeOf (Parser.ReportsOrFails rules)) (ho : s.Ordered 0 w.stop)
    (hst : s.Holds (Failure.TrueUnless w (RelabelsPlain g w s))) :
    t.Holds (Failure.TrueUnless w (RelabelsPlain g w s)) := by
  induction h with
  | refl => exact hst
  | @tail u t hu ht ih =>
    have hreach : Reaches g w s u := hu
    have hmade : u.MadeOf (Parser.ReportsOrFails rules) := hreach.comes.madeOf hg hs
    refine ht.holds ?_ (fun _ _ he he' => he.merge he') ?_ ih
    · rintro body label pos stack rfl
      cases hmade.1 with
      | notFollowedBy hok _ => exact hok
    · intro e he
      refine he.trueUnless hmade (hreach.ordered ho le_rfl).position_le ih ?_
      rintro pos message label stack rfl
      exact ⟨message, label, stack, hreach⟩

variable {xs : List Value} {parts : List (List Value)} {chunks : List Value}
variable {r : Except Fault (Session κ)} {alternatives : List String}

lemma Failure.TrueOf.end_of_input (h : e.TrueOf (Window.onto xs).close)
    (he : Value.endOfInput ∉ xs) (ht : Value.str endOfInputText ∉ xs)
    (hfound : e.reason = .expected alternatives (.str endOfInputText)) :
    e.position = xs.length := by
  obtain ⟨_, found, hreason, hpos, hle, _, hv⟩ := h.whole
  obtain ⟨_, rfl⟩ := Reason.expected.inj (hreason.symm.trans hfound)
  by_contra hne
  have hlt : e.position.toNat < xs.length := by omega
  have hmem : xs[e.position.toNat] ∈ xs := List.getElem_mem hlt
  have hat := hv _ (List.getElem?_eq_getElem hlt) (ne_of_mem_of_not_mem hmem he)
  exact ht (hat ▸ hmem)

theorem end_of_input_found_at_end
    (hg : ∀ key ∈ rules, (g key).MadeOf (Parser.ReportsOrFails rules))
    (hp : p.MadeOf (Parser.ReportsOrFails rules)) (hc : chunks.map Value.elements = parts.map .ok)
    (hm : Value.missing ∉ parts.flatten) (he : Value.endOfInput ∉ parts.flatten)
    (ht : Value.str endOfInputText ∉ parts.flatten) (hs : Session.Starts g p r)
    (hv : Session.Concludes g r chunks (.error (.failure e)))
    (hfound : e.reason = .expected alternatives (.str endOfInputText)) :
    e.position = parts.flatten.length ∨
      RelabelsPlain g (Window.onto parts.flatten).close (.run p 0 []) e.position := by
  obtain ⟨o, ho, rfl⟩ := Session.starts_iff.mp hs
  obtain ⟨o', hends, hverdict⟩ := (ho.concludes_iff hc).mp hv
  rw [List.nil_append] at hends
  rcases Session.exists_ends_of_failure hverdict with ⟨pos, rfl⟩ | ⟨q, pos, stack, rfl⟩
  · have hr : Eval g (Window.onto parts.flatten).close (.parser p 0) (.failed e pos) :=
      ends_run_iff.mp hends
    have hreach : Reaches g (Window.onto parts.flatten).close (.run p 0 []) (.failed e pos []) :=
      hr.arrives []
    have hordered : (State.run p 0 []).Ordered 0 (Window.onto parts.flatten).close.stop :=
      State.ordered_run le_rfl Window.offset_le_stop
    have htrue := (hreach.trueUnless hg ⟨hp, List.forall_mem_nil _⟩ hordered
      (List.forall_mem_nil _)).1
    exact (htrue (by simp [Failure.isExpectation, hfound])).imp_left
      fun h => h.end_of_input he ht hfound
  · exact absurd (Window.missing_mem hends.suspended.2) hm

theorem end_of_input_found_at_end_letter : ∃ r : Except Fault (Session Empty),
    Session.Starts Empty.elim (.next (.character (.str "a")) (.either (.fail none) .letter)) r ∧
    Session.Concludes Empty.elim r [.str "a"]
      (.error (.failure ⟨1, .expected ["any letter character"] (.str endOfInputText)⟩)) ∧
    ((1 : Int) = [[Value.char 'a']].flatten.length ∨
      RelabelsPlain Empty.elim (Window.onto [[Value.char 'a']].flatten).close
        (.run (.next (.character (.str "a")) (.either (.fail none) .letter)) 0 []) 1) := by
  have hp : (Parser.next (.character (.str "a")) (.either (.fail none) .letter) :
      Parser Empty).MadeOf (Parser.ReportsOrFails ∅) :=
    .next (.token ⟨.str "a", rfl⟩) (.either (.fail trivial) (.token ⟨_, rfl⟩))
  have hc : [Value.str "a"].map Value.elements = [[Value.char 'a']].map .ok := rfl
  have hstart : Ends Empty.elim (.onto [])
      (.run (.next (.character (.str "a")) (.either (.fail none) .letter)) 0 []) _ := ⟨9, rfl⟩
  have hs : Session.Starts Empty.elim _ _ := Session.starts_iff.mpr ⟨_, hstart, rfl⟩
  have hv : Session.Concludes Empty.elim _ [.str "a"]
      (.error (.failure ⟨1, .expected ["any letter character"] (.str endOfInputText)⟩)) :=
    (hstart.concludes_iff hc).mpr ⟨.ok (.failed _ 1), ⟨20, rfl⟩, rfl⟩
  exact ⟨_, hs, hv, end_of_input_found_at_end (by simp) hp hc (by simp [Value.char, Value.missing])
    (by simp [Value.char, Value.endOfInput]) (by simp [Value.char, endOfInputText]) hs hv rfl⟩

/-- Where no element was looked at, a label makes the input end before all of it. -/
theorem end_of_input_found_ahead : ∃ (r : Except Fault (Session Empty)) (xs : List Value),
    xs = [.char 'a', .char 'b', .char 'c'] ∧
    (Parser.expected (.str "letter") (.fail none) : Parser Empty).MadeOf
      (Parser.ReportsOrFails ∅) ∧
    [Value.str "abc"].map Value.elements = [xs].map .ok ∧
    Value.missing ∉ xs ∧ Value.endOfInput ∉ xs ∧ Value.str endOfInputText ∉ xs ∧
    Session.Starts Empty.elim (.expected (.str "letter") (.fail none)) r ∧
    Session.Concludes Empty.elim r [.str "abc"]
      (.error (.failure ⟨0, .expected ["letter"] (.str endOfInputText)⟩)) ∧
    (0 : Int) ≠ xs.length := by
  have hc : [Value.str "abc"].map Value.elements =
      [[Value.char 'a', .char 'b', .char 'c']].map .ok := rfl
  have hstart : Ends Empty.elim (.onto [])
      (.run (.expected (.str "letter") (.fail none)) 0 []) _ := ⟨5, rfl⟩
  exact ⟨_, _, rfl, .expected (.fail trivial), hc, by simp [Value.char, Value.missing],
    by simp [Value.char, Value.endOfInput], by simp [Value.char, endOfInputText],
    Session.starts_iff.mpr ⟨_, hstart, rfl⟩,
    (hstart.concludes_iff hc).mpr ⟨.ok (.failed _ 0), ⟨5, rfl⟩, rfl⟩, by decide⟩

end ResumableParsing
