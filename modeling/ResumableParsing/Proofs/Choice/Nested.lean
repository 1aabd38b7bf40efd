import ResumableParsing.Parser.Text
import ResumableParsing.Proofs.Ending
import ResumableParsing.Proofs.Meaning.Choice

/-! Alternatives of a choice within a choice. Merging is associative except where a failure of
another kind stands between two expectations, and only there does the nesting show. -/

namespace ResumableParsing

variable {κ : Type}

def DeclineAs (g : Grammar κ) (w : Window) (pos : Int) (ps : List (Parser κ)) (e : Failure) :
    Prop :=
  ∃ es, DeclineWith g w pos es ps ∧ Failure.mergeAll es = some e

def DecidesAs (g : Grammar κ) (w : Window) (pos : Int) (ps : List (Parser κ)) (x : Result κ) :
    Prop :=
  ∃ r, Decides g w pos ps r ∧ r.bare = x

variable {g : Grammar κ} {w : Window} {p q first first' : Parser κ}
variable {ps qs rs others others' : List (Parser κ)} {pos : Int} {x : Result κ} {e : Failure}

lemma DecidesAs.not_failsAt (h : DecidesAs g w pos ps x) : ¬ x.FailsAt pos := by
  obtain ⟨r, hr, rfl⟩ := h
  simpa using hr.not_failsAt

lemma decidesAs_append : DecidesAs g w pos (ps ++ qs) x ↔
    DecidesAs g w pos ps x ∨ (∀ p ∈ ps, Declines g w pos p) ∧ DecidesAs g w pos qs x := by
  simp only [DecidesAs, decides_append, or_and_right, exists_or, and_assoc, exists_and_left]

lemma decidesAs_singleton :
    DecidesAs g w pos [p] x ↔ EvalsAs g w p pos x ∧ ¬ x.FailsAt pos := by
  constructor
  · rintro ⟨r, hr | ⟨_, hr⟩, rfl⟩
    · exact ⟨⟨r, hr, rfl⟩, by simpa⟩
    · cases hr
  · rintro ⟨⟨r, hr, rfl⟩, hx⟩
    exact ⟨r, .here hr (by simpa using hx), rfl⟩

lemma evalsAs_choice : EvalsAs g w (.choice first others) pos x ↔
    DecidesAs g w pos (first :: others) x ∨
      ∃ e, DeclineAs g w pos (first :: others) e ∧ .failed e pos = x := by
  constructor
  · rintro ⟨r, hr, rfl⟩
    cases hr with
    | read hreads | released hreads => cases hreads
    | choice h =>
      rcases h.alternatives_cases with ⟨e, es, hes, rfl⟩ | ⟨r, others', earlier', hr, rfl⟩
      · exact .inr ⟨_, ⟨e :: es, hes, rfl⟩, rfl⟩
      · exact .inl ⟨r, hr, (Result.bare_within rfl).symm⟩
  · rintro (⟨r, hr, rfl⟩ | ⟨e, ⟨es, hes, he⟩, rfl⟩)
    · obtain ⟨_, _, h⟩ := Eval.alternatives_decided hr none
      exact ⟨_, .choice h, Result.bare_within rfl⟩
    · exact ⟨_, .choice_failed hes he, rfl⟩

lemma failed_choice : Eval g w (.parser (.choice first others) pos) (.failed e pos) ↔
    DeclineAs g w pos (first :: others) e := by
  rw [← evalsAs_failed, evalsAs_choice]
  constructor
  · rintro (h | ⟨e', h, he⟩)
    · exact absurd rfl h.not_failsAt
    · cases he
      exact h
  · exact fun h => .inr ⟨e, h, rfl⟩

lemma declines_choice :
    Declines g w pos (.choice first others) ↔ ∀ p ∈ first :: others, Declines g w pos p := by
  rw [← exists_declineWith]
  constructor
  · rintro ⟨e, he⟩
    obtain ⟨es, hes, _⟩ := failed_choice.mp he
    exact ⟨es, hes⟩
  · rintro ⟨es, hes⟩
    obtain ⟨e, he⟩ := hes.exists_mergeAll
    exact ⟨e, failed_choice.mpr ⟨es, hes, he⟩⟩

lemma decidesAs_choice :
    DecidesAs g w pos [.choice first others] x ↔ DecidesAs g w pos (first :: others) x := by
  rw [decidesAs_singleton, evalsAs_choice]
  constructor
  · rintro ⟨h | ⟨e, _, rfl⟩, hx⟩
    · exact h
    · exact absurd rfl hx
  · exact fun h => ⟨.inl h, h.not_failsAt⟩

lemma decidesAs_nested : DecidesAs g w pos (ps ++ .choice q qs :: rs) x ↔
    DecidesAs g w pos (ps ++ q :: qs ++ rs) x := by
  rw [← List.singleton_append, List.append_assoc]
  simp only [decidesAs_append, decidesAs_choice, declines_choice, List.mem_singleton, forall_eq]

lemma declineAs_nested (h : ps = [] ∨ ∀ p ∈ q :: qs, ∀ e,
      Eval g w (.parser p pos) (.failed e pos) → e.isExpectation) :
    DeclineAs g w pos (ps ++ .choice q qs :: rs) e ↔
      DeclineAs g w pos (ps ++ q :: qs ++ rs) e := by
  -- what the inner choice fails with is merged from its own failures before any other is
  have hmerge {as bs cs : List Failure} {m : Failure} (has : DeclineWith g w pos as ps)
      (hbs : DeclineWith g w pos bs (q :: qs)) (hm : Failure.mergeAll bs = some m) :
      Failure.mergeAll (as ++ m :: cs) = Failure.mergeAll (as ++ bs ++ cs) := by
    refine Failure.mergeAll_middle hm (h.imp ?_ ?_)
    · rintro rfl
      cases has
      rfl
    · intro hexpect e he
      obtain ⟨p, hp, hfails⟩ := hbs.exists_of_mem he
      exact hexpect p hp e hfails
  constructor
  · rintro ⟨es, hes, he⟩
    obtain ⟨as, es, rfl, has, hes⟩ := declineWith_append.mp hes
    cases hes with
    | cons hm hcs =>
      obtain ⟨bs, hbs, hm⟩ := failed_choice.mp hm
      have hall := declineWith_append.mpr ⟨_, _, rfl, has, hbs⟩
      exact ⟨_, declineWith_append.mpr ⟨_, _, rfl, hall, hcs⟩, (hmerge has hbs hm).symm.trans he⟩
  · rintro ⟨es, hes, he⟩
    obtain ⟨es, cs, rfl, hes, hcs⟩ := declineWith_append.mp hes
    obtain ⟨as, bs, rfl, has, hbs⟩ := declineWith_append.mp hes
    obtain ⟨m, hm⟩ := hbs.exists_mergeAll
    have hinner : DeclineWith g w pos (m :: cs) (.choice q qs :: rs) :=
      .cons (failed_choice.mpr ⟨bs, hbs, hm⟩) hcs
    exact ⟨_, declineWith_append.mpr ⟨_, _, rfl, has, hinner⟩, (hmerge has hbs hm).trans he⟩

lemma evalsAs_nested (h : ps = [] ∨ ∀ p ∈ q :: qs, ∀ e,
      Eval g w (.parser p pos) (.failed e pos) → e.isExpectation)
    (hfirst : first :: others = ps ++ .choice q qs :: rs)
    (hfirst' : first' :: others' = ps ++ q :: qs ++ rs) :
    EvalsAs g w (.choice first others) pos x ↔ EvalsAs g w (.choice first' others') pos x := by
  rw [evalsAs_choice, evalsAs_choice, hfirst, hfirst', decidesAs_nested]
  simp only [declineAs_nested h]

theorem nested_choices_flatten (g : Grammar κ) :
    (∀ w pos stack q qs rs x,
      EndsAs g w (.run (.choice (.choice q qs) rs) pos stack) x ↔
        EndsAs g w (.run (.choice q (qs ++ rs)) pos stack) x) ∧
    (∀ w pos stack p ps q qs rs x,
      (∀ q' ∈ q :: qs, ∀ e, Ends g w (.run q' pos []) (.ok (.failed e pos)) → e.isExpectation) →
      (EndsAs g w (.run (.choice p (ps ++ .choice q qs :: rs)) pos stack) x ↔
        EndsAs g w (.run (.choice p (ps ++ q :: qs ++ rs)) pos stack) x)) ∧
    (∀ a b c : Failure,
      ¬ (a.isExpectation ∧ b.isExpectation = false ∧ c.isExpectation ∧
        a.position = b.position ∧ b.position = c.position) →
      (a.merge b).merge c = a.merge (b.merge c)) ∧
    ∀ a b c : Failure,
      a.isExpectation → b.isExpectation = false → c.isExpectation →
      a.position = b.position → b.position = c.position →
      (a.merge b).merge c = c ∧ a.merge (b.merge c) =
        ⟨a.position, .expected (a.alternatives ++ c.alternatives).eraseDups a.found⟩ := by
  refine ⟨?_, ?_, ?_, ?_⟩
  · intro w pos stack q qs rs x
    exact endsAs_congr fun y => evalsAs_nested (.inl rfl) rfl rfl
  · intro w pos stack p ps q qs rs x hexpect
    refine endsAs_congr fun y => evalsAs_nested (.inr ?_) List.cons_append.symm rfl
    intro q' hq' e he
    exact hexpect q' hq' e he.ends
  · intro a b c h
    refine Failure.merge_assoc fun hab hbc ha hc => ?_
    by_contra hb
    exact h ⟨ha, by simpa using hb, hc, hab, hbc⟩
  · intro a b c ha hb hc hab hbc
    rw [Failure.merge_of_eq hab (.inr hb), Failure.merge_of_eq hbc (.inl hb)]
    exact ⟨rfl, Failure.merge_expectations (hab.trans hbc) ha hc⟩

theorem nested_choices_flatten_on_letters :
    EndsAs (κ := Empty) Empty.elim ⟨#[.char 'a'], 0, false⟩
        (.run (.choice (.choice .digit [.attempt (.next .letter .digit)]) [.space]) 0
          [.sequence []]) (.suspended 1 0) ∧
      EndsAs (κ := Empty) Empty.elim ⟨#[.char '1'], 0, true⟩
        (.run (.choice .letter
          [.choice (.character (.str "a")) [.character (.str "b")], .space]) 0 [])
        (.failed ⟨0, .expected ["any letter character", "a", "b", "any space character"]
          (.char '1')⟩ 0) ∧
      (Failure.merge ⟨1, .expected ["a"] .null⟩ ⟨1, .plain none⟩).merge ⟨2, .expected ["b"] .null⟩ =
        Failure.merge ⟨1, .expected ["a"] .null⟩
          (Failure.merge ⟨1, .plain none⟩ ⟨2, .expected ["b"] .null⟩) ∧
      Failure.merge ⟨1, .expected ["a"] .null⟩
          (Failure.merge ⟨1, .plain none⟩ ⟨1, .expected ["b"] .null⟩) =
        ⟨1, .expected ["a", "b"] .null⟩ := by
  obtain ⟨hfront, hbehind, hassoc, hplain⟩ := nested_choices_flatten (κ := Empty) Empty.elim
  refine ⟨?_, ?_, ?_, ?_⟩
  · exact (hfront _ _ _ _ [_] [_] _).mpr ⟨_, ⟨9, rfl⟩, rfl⟩
  · refine (hbehind _ _ _ _ [] _ [_] [_] _ ?_).mpr ⟨_, ⟨12, rfl⟩, rfl⟩
    intro q hq e he
    fin_cases hq
    · cases he.unique ⟨2, rfl⟩
      rfl
    · cases he.unique ⟨2, rfl⟩
      rfl
  · exact hassoc _ _ _ (by simp [Failure.isExpectation])
  · exact (hplain ⟨1, .expected ["a"] .null⟩ ⟨1, .plain none⟩ ⟨1, .expected ["b"] .null⟩
      rfl rfl rfl rfl rfl).2

end ResumableParsing
