import ResumableParsing.Proofs.Meaning.Adequacy

namespace ResumableParsing

variable {κ : Type} {g : Grammar κ} {w : Window} {p : Parser κ} {next : Value → Parser κ}
variable {pos q : Int} {v : Value} {e : Failure} {f : Fault} {r : Result κ}

namespace Result

variable {frame : Frame κ}

def ofValue (x : Except Fault Value) (pos : Int) : Result κ :=
  match x with
  | .ok v => matched v pos
  | .error f => fault f

lemma matched_eq_ofValue {x : Except Fault Value} :
    (matched v q : Result κ) = ofValue x pos ↔ x = .ok v ∧ q = pos := by
  cases x <;> simp [ofValue, eq_comm]

lemma failed_eq_ofValue {x : Except Fault Value} :
    (failed e q : Result κ) = ofValue x pos ↔ False := by
  cases x <;> simp [ofValue]

lemma fault_eq_ofValue {x : Except Fault Value} :
    (fault f : Result κ) = ofValue x pos ↔ x = .error f := by
  cases x <;> simp [ofValue, eq_comm]

@[simp] lemma within_eq_matched : r.within frame = .matched v q ↔ r = .matched v q := by
  cases r <;> simp [within]

@[simp] lemma within_eq_failed : r.within frame = .failed e q ↔ r = .failed e q := by
  cases r <;> simp [within]

@[simp] lemma within_eq_fault : r.within frame = .fault f ↔ r = .fault f := by
  cases r <;> simp [within]

end Result

namespace Eval

lemma bind_iff : Eval g w (.parser (.bind p next) pos) r ↔
    (∃ v q, Eval g w (.parser p pos) (.matched v q) ∧ Eval g w (.parser (next v) q) r) ∨
      ∃ r', Eval g w (.parser p pos) r' ∧ ¬ r'.IsMatch ∧ r'.within (.bind next) = r := by
  constructor
  · intro h
    cases h with
    | read hreads | released hreads => cases hreads
    | bind hp hnext => exact .inl ⟨_, _, hp, hnext⟩
    | bind_stop hp hn => exact .inr ⟨_, hp, hn, rfl⟩
  · rintro (⟨v, q, hp, hnext⟩ | ⟨r', hp, hn, rfl⟩)
    · exact .bind hp hnext
    · exact .bind_stop hp hn

lemma bind_matched : Eval g w (.parser (.bind p next) pos) (.matched v q) ↔
    ∃ u q', Eval g w (.parser p pos) (.matched u q') ∧
      Eval g w (.parser (next u) q') (.matched v q) := by
  rw [bind_iff, or_iff_left]
  rintro ⟨r', _, hn, hr⟩
  rw [Result.within_eq_matched] at hr
  subst hr
  exact hn trivial

lemma bind_failed : Eval g w (.parser (.bind p next) pos) (.failed e q) ↔
    Eval g w (.parser p pos) (.failed e q) ∨
      ∃ u q', Eval g w (.parser p pos) (.matched u q') ∧
        Eval g w (.parser (next u) q') (.failed e q) := by
  rw [bind_iff, or_comm]
  simp only [Result.within_eq_failed, exists_eq_right_right, Result.IsMatch, not_false_eq_true,
    and_true]

lemma bind_fault : Eval g w (.parser (.bind p next) pos) (.fault f) ↔
    Eval g w (.parser p pos) (.fault f) ∨
      ∃ u q', Eval g w (.parser p pos) (.matched u q') ∧
        Eval g w (.parser (next u) q') (.fault f) := by
  rw [bind_iff, or_comm]
  simp only [Result.within_eq_fault, exists_eq_right_right, Result.IsMatch, not_false_eq_true,
    and_true]

lemma bind_returns : (∃ r, Eval g w (.parser (.bind p next) pos) r) ↔
    (∃ r, Eval g w (.parser p pos) r) ∧
      ∀ v q, Eval g w (.parser p pos) (.matched v q) → ∃ r, Eval g w (.parser (next v) q) r := by
  constructor
  · rintro ⟨r, h⟩
    rcases bind_iff.mp h with ⟨v, q, hp, hnext⟩ | ⟨r', hp, hn, rfl⟩
    · refine ⟨⟨_, hp⟩, ?_⟩
      intro v' q' hp'
      cases hp.unique hp'
      exact ⟨r, hnext⟩
    · refine ⟨⟨_, hp⟩, ?_⟩
      intro v q hp'
      cases hp.unique hp'
      exact absurd trivial hn
  · rintro ⟨⟨r, hp⟩, hnext⟩
    refine hp.exists_bind ?_
    rintro v q rfl
    exact hnext v q hp

end Eval

def Parser.ofValue : Except Fault Value → Parser κ
  | .ok v => always v
  | .error f => raise f

variable {change : Value → Except Fault Value}

lemma Parser.map_eq : p.map change = p.bind fun v => ofValue (change v) := rfl

namespace Eval

lemma ofValue_iff {x : Except Fault Value} :
    Eval g w (.parser (.ofValue x) pos) r ↔ r = .ofValue x pos := by
  cases x with
  | ok v => exact ⟨fun h => h.unique .always, fun h => h ▸ .always⟩
  | error f => exact ⟨fun h => h.unique .raise, fun h => h ▸ .raise⟩

lemma map_matched : Eval g w (.parser (p.map change) pos) (.matched v q) ↔
    ∃ u, Eval g w (.parser p pos) (.matched u q) ∧ change u = .ok v := by
  simp only [Parser.map_eq, bind_matched, ofValue_iff, Result.matched_eq_ofValue]
  constructor
  · rintro ⟨u, _, hp, hu, rfl⟩
    exact ⟨u, hp, hu⟩
  · rintro ⟨u, hp, hu⟩
    exact ⟨u, q, hp, hu, rfl⟩

lemma map_failed : Eval g w (.parser (p.map change) pos) (.failed e q) ↔
    Eval g w (.parser p pos) (.failed e q) := by
  simp [Parser.map_eq, bind_failed, ofValue_iff, Result.failed_eq_ofValue]

lemma map_fault : Eval g w (.parser (p.map change) pos) (.fault f) ↔
    Eval g w (.parser p pos) (.fault f) ∨
      ∃ u q, Eval g w (.parser p pos) (.matched u q) ∧ change u = .error f := by
  simp only [Parser.map_eq, bind_fault, ofValue_iff, Result.fault_eq_ofValue]

lemma map_returns : (∃ r, Eval g w (.parser (p.map change) pos) r) ↔
    ∃ r, Eval g w (.parser p pos) r := by
  simp [Parser.map_eq, bind_returns, ofValue_iff]

end Eval

end ResumableParsing
