import ResumableParsing.Proofs.Meaning.Machine

/-! What holds of all failures of a run, of those too that frames keep. If merging does not lead
out of it, only the steps that make a failure have to be looked at. -/

namespace ResumableParsing

variable {κ : Type} {g : Grammar κ} {w : Window} {s t : State κ} {ok : Failure → Prop}

/-- The failures that a frame keeps. A negation would yet make one out of a match. -/
def Frame.Holds (ok : Failure → Prop) : Frame κ → Prop
  | .choice _ _ earlier => ∀ e ∈ earlier, ok e
  | .notFollowedBy _ _ => False
  | _ => True

def Stack.Holds (ok : Failure → Prop) (stack : Stack κ) : Prop := ∀ frame ∈ stack, frame.Holds ok

def State.Holds (ok : Failure → Prop) : State κ → Prop
  | .run _ _ stack => stack.Holds ok
  | .matched _ _ stack => stack.Holds ok
  | .failed e _ stack => ok e ∧ stack.Holds ok

inductive State.Makes (w : Window) : State κ → Failure → Prop
  | read {p pos stack reading e q} : w.read pos = .ok reading →
      p.onReading pos reading = .failed e q → Makes w (.run p pos stack) e
  | fail {message pos stack} : Makes w (.run (.fail message) pos stack) (.plain pos message)
  | failWith {e pos stack} : Makes w (.run (.failWith e) pos stack) e
  | relabel {e pos label stack e'} : e.position = pos →
      Failure.expected pos label e.found = .ok e' →
      Makes w (.failed e pos (.expected pos label :: stack)) e'

variable {p : Parser κ} {frame : Frame κ} {stack : Stack κ} {pos : Int} {v : Value} {e : Failure}

lemma Stack.holds_cons : Stack.Holds ok (frame :: stack) ↔ frame.Holds ok ∧ stack.Holds ok :=
  List.forall_mem_cons

lemma Parser.enter_holds (hn : ∀ body label, p ≠ .notFollowedBy body label)
    (hmade : ∀ e, (State.run p pos stack).Makes w e → ok e) (hs : stack.Holds ok)
    (h : p.enter g w pos stack = .ok (.next t)) : t.Holds ok := by
  by_cases hreads : p.reads
  · obtain ⟨reading, hr, ⟨_, _, _, rfl⟩ | ⟨e, q, hf, rfl⟩⟩ := enter_next_of_reads hreads h
    · exact hs
    · exact ⟨hmade e (.read hr hf), hs⟩
  · cases p with
    | token | endOfInput => simp [reads] at hreads
    | notFollowedBy body label => exact absurd rfl (hn body label)
    | raise => cases h
    | always | position | rule => cases h; exact hs
    | fail => cases h; exact ⟨hmade _ .fail, hs⟩
    | failWith => cases h; exact ⟨hmade _ .failWith, hs⟩
    | choice => cases h; exact Stack.holds_cons.mpr ⟨by rintro _ ⟨⟩, hs⟩
    | bind | attempt | lookahead | expected | many =>
      cases h
      exact Stack.holds_cons.mpr ⟨trivial, hs⟩
    | sequence parsers =>
      cases parsers with
      | nil => cases h; exact hs
      | cons first others => cases h; exact Stack.holds_cons.mpr ⟨trivial, hs⟩
    | enumeration parsers =>
      cases parsers with
      | nil => cases h; exact hs
      | cons first others => cases h; exact Stack.holds_cons.mpr ⟨trivial, hs⟩

lemma Frame.Holds.onMatch (hf : frame.Holds ok) (hs : stack.Holds ok)
    (h : frame.onMatch v pos stack = .ok t) : t.Holds ok := by
  cases frame with
  | notFollowedBy => exact hf.elim
  | bind | choice | attempt | lookahead | expected => cases h; exact hs
  | sequence parsers =>
    cases parsers with
    | nil => cases h; exact hs
    | cons next others => cases h; exact Stack.holds_cons.mpr ⟨trivial, hs⟩
  | enumeration parsers gathered =>
    cases parsers with
    | nil => cases h; exact hs
    | cons next others => cases h; exact Stack.holds_cons.mpr ⟨trivial, hs⟩
  | many body start gathered =>
    rcases Frame.onMatch_many_ok h with ⟨_, rfl⟩ | ⟨_, rfl⟩
    · exact hs
    · exact Stack.holds_cons.mpr ⟨trivial, hs⟩

lemma Failure.holds_after {earlier : Option Failure}
    (hmerge : ∀ e e', ok e → ok e' → ok (e.merge e')) (he : ok e) (h : ∀ e' ∈ earlier, ok e') :
    ok (e.after earlier) := by
  cases earlier with
  | none => exact he
  | some e' => exact hmerge e' e (h e' rfl) he

lemma Frame.Holds.onFailure (hf : frame.Holds ok)
    (hmerge : ∀ e e', ok e → ok e' → ok (e.merge e'))
    (hmade : ∀ e', (State.failed e pos (frame :: stack)).Makes w e' → ok e')
    (he : ok e) (hs : stack.Holds ok) (h : frame.onFailure e pos stack = .ok t) : t.Holds ok := by
  cases frame with
  | notFollowedBy => exact hf.elim
  | bind | attempt | sequence | enumeration | lookahead => cases h; exact ⟨he, hs⟩
  | choice others start earlier =>
    by_cases hpos : pos = start
    · subst hpos
      have hmerged : ok (e.after earlier) := Failure.holds_after hmerge he hf
      cases others with
      | nil =>
        rw [Frame.onFailure_choice_nil] at h
        cases h
        exact ⟨hmerged, hs⟩
      | cons next others =>
        rw [Frame.onFailure_choice_cons] at h
        cases h
        refine Stack.holds_cons.mpr ⟨?_, hs⟩
        rintro _ ⟨⟩
        exact hmerged
    · rw [Frame.onFailure_choice_of_ne hpos] at h
      cases h
      exact ⟨he, hs⟩
  | many body start gathered =>
    rcases Frame.onFailure_many_ok h with ⟨_, rfl⟩ | ⟨_, rfl⟩
    · exact hs
    · exact ⟨he, hs⟩
  | expected start label =>
    obtain ⟨e', rfl, hstart, he', rfl⟩ | rfl := Frame.onFailure_expected_ok h
    · exact ⟨hmade e' (.relabel hstart he'), hs⟩
    · exact ⟨he, hs⟩

lemma Steps.holds (h : Steps g w s t) (hn : ∀ body label pos stack,
      s ≠ .run (.notFollowedBy body label) pos stack)
    (hmerge : ∀ e e', ok e → ok e' → ok (e.merge e')) (hmade : ∀ e, s.Makes w e → ok e)
    (hs : s.Holds ok) : t.Holds ok := by
  rcases State.step_next h with
    ⟨p, pos, stack, rfl, ht⟩ | ⟨v, pos, frame, stack, rfl, ht⟩ | ⟨e, pos, frame, stack, rfl, ht⟩
  · refine Parser.enter_holds ?_ hmade hs ht
    rintro body label rfl
    exact hn body label pos stack rfl
  · obtain ⟨hf, hs⟩ := Stack.holds_cons.mp hs
    exact hf.onMatch hs ht
  · obtain ⟨he, hs⟩ := hs
    obtain ⟨hf, hs⟩ := Stack.holds_cons.mp hs
    exact hf.onFailure hmerge hmade he hs ht

end ResumableParsing
