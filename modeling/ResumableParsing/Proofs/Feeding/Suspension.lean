import ResumableParsing.Parser.Text
import ResumableParsing.Proofs.Feeding.Retention

namespace ResumableParsing

variable {κ : Type} {g : Grammar κ} {p q : Parser κ} {xs ys : List Value}
variable {pos : Int} {stack : Stack κ}

namespace Session

variable {s t : Session κ} {chunk : Value}

namespace Retains

lemma suspended (h : Retains g p xs s) (hs : s.outcome = .needsMore q pos stack) :
    q.reads ∧ (Window.onto xs).read pos = .ok .missing := by
  have hends := h.ends
  rw [hs] at hends
  exact hends.suspended

lemma position_nonneg (h : Retains g p xs s) (hs : s.outcome = .needsMore q pos stack) :
    0 ≤ pos := by
  have hle := h.needed_nonneg.trans s.outcome.needed_le_position
  rwa [hs] at hle

lemma missing_or_end (h : Retains g p xs s) (hs : s.outcome = .needsMore q pos stack) :
    xs[pos.toNat]? = some .missing ∨ pos = s.window.stop := by
  have hle : pos ≤ xs.length := by simpa [hs, Outcome.position] using h.position_le
  rcases (Window.read_onto_eq_missing (h.position_nonneg hs)).mp (h.suspended hs).2 with hm | hend
  · exact .inl hm
  · exact .inr (h.stop_eq ▸ hle.antisymm hend)

lemma read_window (h : Retains g p xs s) (hs : s.outcome = .needsMore q pos stack) :
    s.window.read pos = .ok .missing := by
  have hle : s.outcome.needed ≤ pos := by
    rw [hs]
    exact Stack.watermark_le
  rw [h.window_eq, Window.read_release hle]
  exact (h.suspended hs).2

lemma of_close {q' : Parser κ} {pos' : Int} {stack' : Stack κ} (h : Retains g p xs s)
    (hs : s.outcome = .needsMore q pos stack)
    (he : Ends g s.window.close (.run q pos stack) (.ok (.needsMore q' pos' stack'))) :
    0 ≤ pos' ∧ xs[pos'.toNat]? = some .missing := by
  rw [h.close_eq, h.ends_iff hs (Window.grows_close rfl)] at he
  exact Window.getElem?_of_read_missing he.suspended.2

lemma outcome_of_provides (h : Retains g p xs s) (hs : s.outcome = .needsMore q pos stack)
    (hm : xs[pos.toNat]? = some .missing) (ht : s.Provides g chunk (.ok t)) :
    t.outcome = s.outcome := by
  have hsus : s.outcome.resolved = false := by rw [hs]; rfl
  obtain ⟨ys, hc⟩ := exists_elements_of_provides hsus h.closed ht
  have hlt : pos.toNat < xs.length := (List.getElem?_eq_some_iff.mp hm).1
  have hread : (Window.onto (xs ++ ys)).read pos = .ok .missing := by
    rw [Window.read_onto_eq_missing (h.position_nonneg hs), List.getElem?_append_left hlt]
    exact .inl hm
  have hends : Ends g (.onto (xs ++ ys)) (.run p 0 []) (.ok s.outcome) := by
    rw [h.resumes_iff (Window.grows_onto ys), hs]
    exact (Ends.iff_of_halt (State.step_of_missing (h.suspended hs).1 hread)).mpr rfl
  exact Except.ok.inj ((h.of_provides hsus hc ht).ends.unique hends)

end Retains

theorem Reached.waits_for_missing (h : Reached g p xs s)
    (hs : s.outcome = .needsMore q pos stack) :
    s.window.read pos = .ok .missing ∧
      (xs[pos.toNat]? = some .missing ∨ pos = s.window.stop) ∧
      (Value.missing ∉ xs → pos = s.window.stop ∧ s.window.stop = xs.length ∧
        ∀ o, Ends g s.window.close (.run q pos stack) (.ok o) → o.resolved) ∧
      (∀ q' pos' stack',
        Ends g s.window.close (.run q pos stack) (.ok (.needsMore q' pos' stack')) →
          0 ≤ pos' ∧ xs[pos'.toNat]? = some .missing ∧
          ∀ v, s.Finishes g v ↔
            v = .error (.failure ⟨pos', .expected ["more input"] (.str endOfInputText)⟩)) ∧
      (xs[pos.toNat]? = some .missing →
        ∀ chunk t, s.Provides g chunk (.ok t) → t.outcome = s.outcome) := by
  have hr := h.retains
  refine ⟨hr.read_window hs, hr.missing_or_end hs, ?_, ?_, ?_⟩
  · intro hm
    refine ⟨?_, hr.stop_eq, ?_⟩
    · rcases hr.missing_or_end hs with hmissing | hend
      · exact absurd (List.mem_of_getElem? hmissing) hm
      · exact hend
    · intro o ho
      rcases o.resolved_or_needsMore with hres | ⟨q', pos', stack', rfl⟩
      · exact hres
      · exact absurd (List.mem_of_getElem? (hr.of_close hs ho).2) hm
  · intro q' pos' stack' he
    obtain ⟨hpos, hmissing⟩ := hr.of_close hs he
    refine ⟨hpos, hmissing, fun v => ?_⟩
    rw [finishes_of_needsMore hs]
    constructor
    · rintro ⟨e, he', rfl⟩
      rw [he'.unique he]
      rfl
    · rintro rfl
      exact ⟨_, he, rfl⟩
  · intro hmissing chunk t ht
    exact hr.outcome_of_provides hs hmissing ht

theorem waits_for_missing_marked : ∃ s s' : Session Empty,
    Reached Empty.elim (.sequence [.character (.str "a"), .character (.str "b")]) [.char 'a'] s ∧
      s.outcome = .needsMore (.character (.str "b")) 1 [.sequence []] ∧ s.window.stop = 1 ∧
      (∀ o, Ends Empty.elim s.window.close (.run (.character (.str "b")) 1 [.sequence []]) (.ok o) →
        o.resolved) ∧
      Reached Empty.elim (.sequence [.character (.str "a"), .character (.str "b")])
        [.char 'a', .missing, .char 'b'] s' ∧
      s'.Finishes Empty.elim
        (.error (.failure ⟨1, .expected ["more input"] (.str endOfInputText)⟩)) := by
  let b : Parser Empty := .character (.str "b")
  let s₀ : Session Empty := ⟨.needsMore (.character (.str "a")) 0 [.sequence [b]], .empty⟩
  let s : Session Empty := ⟨.needsMore b 1 [.sequence []], ⟨#[], 1, false⟩⟩
  let s' : Session Empty := ⟨.needsMore b 1 [.sequence []], ⟨#[.missing, .char 'b'], 1, false⟩⟩
  have hs₀ : Reached Empty.elim (.sequence [.character (.str "a"), b]) [] s₀ := .start ⟨9, rfl⟩
  have hprovide : s₀.Provides Empty.elim (.str "a") (.ok s) := ⟨9, _, rfl⟩
  have hprovide' : s₀.Provides Empty.elim (.list [.char 'a', .missing, .char 'b']) (.ok s') :=
    ⟨9, _, rfl⟩
  have hs : Reached Empty.elim (.sequence [.character (.str "a"), b]) [.char 'a'] s :=
    .provide hs₀ rfl rfl hprovide
  have hs' : Reached Empty.elim (.sequence [.character (.str "a"), b])
      [.char 'a', .missing, .char 'b'] s' := .provide hs₀ rfl rfl hprovide'
  have hm : Value.missing ∉ [Value.char 'a'] := by simp [Value.missing, Value.char]
  obtain ⟨_, _, hend, _⟩ := hs.waits_for_missing rfl
  obtain ⟨hpos, _, hres⟩ := hend hm
  obtain ⟨_, _, _, hclose, _⟩ := hs'.waits_for_missing rfl
  have hends : Ends Empty.elim s'.window.close (.run b 1 [.sequence []])
      (.ok (.needsMore b 1 [.sequence []])) := ⟨9, rfl⟩
  exact ⟨s, s', hs, rfl, hpos.symm, hres, hs', ((hclose _ _ _ hends).2.2 _).mpr rfl⟩

end Session

end ResumableParsing
