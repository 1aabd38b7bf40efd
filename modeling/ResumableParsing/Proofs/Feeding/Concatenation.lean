import ResumableParsing.Parser.Text
import ResumableParsing.Proofs.Feeding

namespace ResumableParsing

variable {κ : Type} {g : Grammar κ} {p : Parser κ} {xs as bs : List Value}

inductive Call where
  | provide (chunk : Value)
  | finish

inductive Answer (κ : Type) where
  | provided (events : List Event) (result : Except Fault (Outcome κ))
  | finished (events : List Event) (result : Except Problem Value)

namespace Session

/-- A call that gives no new session leaves the old one in use. -/
def answers (g : Grammar κ) (fuel : ℕ) : Session κ → List Call → Option (List (Answer κ))
  | _, [] => some []
  | s, .provide chunk :: calls =>
    (s.provide g fuel chunk).bind fun
      | ⟨events, .ok t⟩ => (t.answers g fuel calls).map (.provided events (.ok t.outcome) :: ·)
      | ⟨events, .error f⟩ => (s.answers g fuel calls).map (.provided events (.error f) :: ·)
  | s, .finish :: calls =>
    (s.finish g fuel).bind fun ⟨events, v⟩ =>
      (s.answers g fuel calls).map (.finished events v :: ·)

/-- `u` came of two calls by way of `t`, `u'` of one call with `bs` as the latter part of its chunk. -/
structure Joined (g : Grammar κ) (bs : List Value) (s t u u' : Session κ) : Prop where
  outcome_eq : u'.outcome = u.outcome
  answers_eq : ∀ fuel calls, u'.answers g fuel calls = u.answers g fuel calls
  window_of_suspended : u.outcome.resolved = false → u'.window = u.window
  window_of_resolved : u.outcome.resolved → u'.window =
    if s.outcome.resolved = false ∧ t.outcome.resolved then u.window.append bs else u.window

variable {s t u u' : Session κ} {a b c : Value} {r : Except Fault (Session κ)}

lemma answers_of_resolved (hs : s.outcome.resolved) (ht : t.outcome = s.outcome) (fuel : ℕ)
    (calls : List Call) : t.answers g fuel calls = s.answers g fuel calls := by
  have ht' : t.outcome.resolved := ht ▸ hs
  induction calls with
  | nil => rfl
  | cons call calls ih =>
    cases call with
    | provide chunk =>
      simp only [answers, provide_of_resolved hs, provide_of_resolved ht', Option.bind_some, ht, ih]
    | finish =>
      simp only [answers, finish_of_resolved hs, finish_of_resolved ht', Option.bind_some, ht, ih]

lemma Joined.refl (h : s.outcome.resolved ∨ t.outcome.resolved = false) : Joined g bs s t u u where
  outcome_eq := rfl
  answers_eq _ _ := rfl
  window_of_suspended _ := rfl
  window_of_resolved _ := by
    rw [if_neg]
    rintro ⟨hs, ht⟩
    simp [hs, ht] at h

lemma Retains.provides_nil (h : Retains g p xs s) (ha : a.elements = .ok []) :
    s.Provides g a r ↔ r = .ok s := by
  rcases s.outcome.resolved_or_needsMore with hs | ⟨q, pos, stack, hs⟩
  · exact provides_of_resolved hs
  · have hsettle : (settle (.onto xs) s.outcome).result = s := by
      rw [settle_result, ← h.window_eq]
    rw [h.provides_iff hs ha, List.append_nil]
    constructor
    · rintro ⟨e, he, rfl⟩
      rw [he.unique h.ends, Except.map, hsettle]
    · rintro rfl
      exact ⟨_, h.ends, by rw [Except.map, hsettle]⟩

lemma Retains.provides_fault (h : Retains g p xs s) (ha : a.elements = .ok as)
    (hc : c.elements = .ok (as ++ bs)) {f : Fault} (hf : s.Provides g a (.error f)) :
    s.Provides g c (.error f) := by
  rcases s.outcome.resolved_or_needsMore with hs | ⟨q, pos, stack, hs⟩
  · cases (provides_of_resolved hs).mp hf
  · obtain ⟨e, he, hr⟩ := (h.provides_iff hs ha).mp hf
    cases e with
    | ok o => cases hr
    | error f' =>
      cases hr
      refine (h.provides_iff hs hc).mpr ⟨.error f, ?_, rfl⟩
      rw [← List.append_assoc]
      exact (he.grows_iff (Window.grows_onto bs) le_rfl).mpr rfl

lemma Retains.returns (h : Retains g p xs s) (ha : a.elements = .ok as)
    (hc : c.elements = .ok (as ++ bs)) (hr : s.Provides g c r) : ∃ r₁, s.Provides g a r₁ := by
  rcases s.outcome.resolved_or_needsMore with hs | ⟨q, pos, stack, hs⟩
  · exact ⟨_, (provides_of_resolved hs).mpr rfl⟩
  · obtain ⟨e, he, rfl⟩ := (h.provides_iff hs hc).mp hr
    rw [← List.append_assoc] at he
    obtain ⟨e₁, he₁, _⟩ := Ends.exists_resumes (Window.grows_onto bs) le_rfl he
    exact ⟨_, (h.provides_iff hs ha).mpr ⟨e₁, he₁, rfl⟩⟩

lemma Retains.provides_append (h : Retains g p xs s) (hs : s.outcome.resolved = false)
    (ht : Retains g p (xs ++ as) t) (hts : t.outcome.resolved = false)
    (hb : b.elements = .ok bs) (hc : c.elements = .ok (as ++ bs)) :
    s.Provides g c r ↔ t.Provides g b r := by
  rcases s.outcome.resolved_or_needsMore with hs' | ⟨q, pos, stack, hs'⟩
  · simp [hs] at hs'
  rcases t.outcome.resolved_or_needsMore with ht' | ⟨q', pos', stack', ht'⟩
  · simp [hts] at ht'
  rw [h.provides_iff hs' hc, ht.provides_iff ht' hb, List.append_assoc]

lemma Retains.provides_past (h : Retains g p xs s) (hs : s.outcome.resolved = false)
    (ht : Retains g p (xs ++ as) t) (hts : t.outcome.resolved)
    (hc : c.elements = .ok (as ++ bs)) :
    s.Provides g c r ↔ r = .ok ⟨t.outcome, t.window.append bs⟩ := by
  rcases s.outcome.resolved_or_needsMore with hs' | ⟨q, pos, stack, hs'⟩
  · simp [hs] at hs'
  rw [h.provides_iff hs' hc, ← List.append_assoc]
  simp only [ht.resumes_iff (Window.grows_onto bs), resumes_of_resolved hts, exists_eq_left,
    Except.map, settle_result, ht.append_eq bs]

lemma Joined.append (ht : t.outcome.resolved) (hs : s.outcome.resolved = false) :
    Joined g bs s t t ⟨t.outcome, t.window.append bs⟩ where
  outcome_eq := rfl
  answers_eq := by
    apply answers_of_resolved ht
    rfl
  window_of_suspended h := by simp [ht] at h
  window_of_resolved _ := (if_pos ⟨hs, ht⟩).symm

lemma Retains.exists_join (h : Retains g p xs s) (ha : a.elements = .ok as)
    (hb : b.elements = .ok bs) (hc : c.elements = .ok (as ++ bs)) (ht : s.Provides g a (.ok t)) :
    ∃ join, (∀ r, s.Provides g c r ↔ ∃ r₂, t.Provides g b r₂ ∧ r = r₂.map join) ∧
      ∀ u, t.Provides g b (.ok u) → Joined g bs s t u (join u) := by
  have hid : ∀ r : Except Fault (Session κ), r.map id = r := fun r => by cases r <;> rfl
  cases hs : s.outcome.resolved with
  | true =>
    cases (provides_of_resolved hs).mp ht
    refine ⟨id, fun r => ?_, fun u _ => .refl (.inl hs)⟩
    simp [provides_of_resolved hs, Except.map]
  | false =>
    have hts := h.of_provides hs ha ht
    cases hres : t.outcome.resolved with
    | true =>
      refine ⟨fun u => ⟨u.outcome, u.window.append bs⟩, fun r => ?_, fun u hu => ?_⟩
      · simp [h.provides_past hs hts hres hc, provides_of_resolved hres, Except.map]
      · cases (provides_of_resolved hres).mp hu
        exact .append hres hs
    | false =>
      refine ⟨id, fun r => ?_, fun u _ => .refl (.inr hres)⟩
      simp only [h.provides_append hs hts hres hb hc, hid, exists_eq_right']

theorem Reached.provide_concatenation {e : Value} (hs : Reached g p xs s)
    (he : e.elements = .ok []) (ha : a.elements = .ok as) (hb : b.elements = .ok bs)
    (hc : c.elements = .ok (as ++ bs)) :
    (∀ r, s.Provides g e r ↔ r = .ok s) ∧
      (∀ f, s.Provides g a (.error f) → s.Provides g c (.error f)) ∧
      (∀ t, s.Provides g a (.ok t) →
        (∀ f, s.Provides g c (.error f) ↔ t.Provides g b (.error f)) ∧
        (∀ u, t.Provides g b (.ok u) → ∃ u', s.Provides g c (.ok u') ∧ Joined g bs s t u u') ∧
        ∀ u', s.Provides g c (.ok u') → ∃ u, t.Provides g b (.ok u) ∧ Joined g bs s t u u') ∧
      ∀ r, s.Provides g c r → ∃ r₁, s.Provides g a r₁ := by
  have h := hs.retains
  refine ⟨fun _ => h.provides_nil he, fun _ => h.provides_fault ha hc, ?_,
    fun _ => h.returns ha hc⟩
  intro t ht
  obtain ⟨join, hjoin, hjoined⟩ := h.exists_join ha hb hc ht
  refine ⟨?_, ?_, ?_⟩
  · intro f
    rw [hjoin]
    constructor
    · rintro ⟨r₂, hr, hf⟩
      cases r₂ with
      | error f' =>
        cases hf
        exact hr
      | ok u => cases hf
    · intro hf
      exact ⟨_, hf, rfl⟩
  · intro u hu
    exact ⟨join u, (hjoin _).mpr ⟨_, hu, rfl⟩, hjoined u hu⟩
  · intro u' hu'
    obtain ⟨r₂, hr, heq⟩ := (hjoin _).mp hu'
    cases r₂ with
    | error f => cases heq
    | ok u =>
      cases heq
      exact ⟨u, hr, hjoined u hr⟩

theorem provide_concatenation_kept : ∃ s t u u' : Session Empty,
    Reached Empty.elim (.attempt (.sequence [.character (.str "a"), .character (.str "b")])) [] s ∧
      s.Provides Empty.elim (.str "a") (.ok t) ∧ t.Provides Empty.elim (.str "c") (.ok u) ∧
      s.Provides Empty.elim (.str "ac") (.ok u') ∧ Joined Empty.elim [.char 'c'] s t u u' ∧
      u.window = ⟨#[.char 'a', .char 'c'], 0, false⟩ := by
  let s : Session Empty := ⟨.needsMore (.character (.str "a")) 0
    [.sequence [.character (.str "b")], .attempt 0], .empty⟩
  let t : Session Empty := ⟨.needsMore (.character (.str "b")) 1 [.sequence [], .attempt 0],
    ⟨#[.char 'a'], 0, false⟩⟩
  let u : Session Empty := ⟨.failed ⟨1, .expected ["b"] (.char 'c')⟩ 0,
    ⟨#[.char 'a', .char 'c'], 0, false⟩⟩
  have hs : Reached Empty.elim (.attempt (.sequence [.character (.str "a"),
      .character (.str "b")])) [] s := .start ⟨10, rfl⟩
  have ht : s.Provides Empty.elim (.str "a") (.ok t) := ⟨10, _, rfl⟩
  have hu : t.Provides Empty.elim (.str "c") (.ok u) := ⟨10, _, rfl⟩
  have he : (Value.str "").elements = .ok [] := rfl
  have ha : (Value.str "a").elements = .ok [.char 'a'] := rfl
  have hb : (Value.str "c").elements = .ok [.char 'c'] := rfl
  have hc : (Value.str "ac").elements = .ok ([.char 'a'] ++ [.char 'c']) := rfl
  obtain ⟨_, _, h, _⟩ := hs.provide_concatenation he ha hb hc
  obtain ⟨u', hu', hj⟩ := (h t ht).2.1 u hu
  exact ⟨s, t, u, u', hs, ht, hu, hu', hj, rfl⟩

end Session

end ResumableParsing
