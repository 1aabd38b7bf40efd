import ResumableParsing.Parser.Text
import ResumableParsing.Proofs.Feeding

namespace ResumableParsing

variable {κ : Type} {g : Grammar κ} {p : Parser κ} {xs ys : List Value}

lemma Window.toList_release_onto (m : Int) : ((onto xs).release m).elements.toList =
    xs.drop ((onto xs).release m).offset.toNat := by
  simp [toList_release, onto]

namespace Session

abbrev Leads (g : Grammar κ) : Session κ → Session κ → Prop :=
  Relation.ReflTransGen fun s t => ∃ chunk, s.Provides g chunk (.ok t)

variable {s t : Session κ} {chunk : Value}

lemma exists_elements_of_provides (hs : s.outcome.resolved = false)
    (hw : s.window.closed = false) (h : s.Provides g chunk (.ok t)) :
    ∃ ys, chunk.elements = .ok ys := by
  rcases s.outcome.resolved_or_needsMore with hs' | ⟨q, pos, stack, hs'⟩
  · simp [hs] at hs'
  · cases hc : chunk.elements with
    | ok ys => exact ⟨ys, rfl⟩
    | error f =>
      obtain ⟨fuel, events, h⟩ := h
      simp [provide, hs', Window.extend_error hw hc] at h

namespace Retains

lemma offset_le_needed (h : Retains g p xs s) {w : Window} (hw : Window.Grows (.onto xs) w)
    {o : Outcome κ} (ho : Ends g w (.run p 0 []) (.ok o)) : s.window.offset ≤ o.needed := by
  rw [h.offset_eq]
  have hres := (h.resumes_iff hw).mp ho
  rcases s.outcome.resolved_or_needsMore with hs | ⟨q, pos, stack, hs⟩
  · rw [resumes_of_resolved hs, Except.ok.injEq] at hres
    exact hres ▸ le_rfl
  · rw [hs] at hres ⊢
    exact Ends.watermark_le_needed hres

lemma provided (h : Retains g p xs s) (ht : s.Provides g chunk (.ok t)) :
    ∃ ys, Retains g p (xs ++ ys) t ∧ s.window.offset ≤ t.window.offset := by
  cases hs : s.outcome.resolved with
  | true =>
    cases (provides_of_resolved hs).mp ht
    exact ⟨[], by rwa [List.append_nil], le_rfl⟩
  | false =>
    obtain ⟨ys, hc⟩ := exists_elements_of_provides hs h.closed ht
    have hts := h.of_provides hs hc ht
    refine ⟨ys, hts, ?_⟩
    rw [hts.offset_eq]
    exact h.offset_le_needed (Window.grows_onto ys) hts.ends

lemma led (h : Retains g p xs s) (ht : Leads g s t) :
    ∃ ys, Retains g p (xs ++ ys) t ∧ s.window.offset ≤ t.window.offset := by
  induction ht with
  | refl => exact ⟨[], by rwa [List.append_nil], le_rfl⟩
  | tail _ hu ih =>
    obtain ⟨chunk, hu⟩ := hu
    obtain ⟨ys, hus, hle⟩ := ih
    obtain ⟨zs, hts, hle'⟩ := hus.provided hu
    exact ⟨ys ++ zs, by rwa [← List.append_assoc], hle.trans hle'⟩

lemma stop_eq (h : Retains g p xs s) : s.window.stop = xs.length := by
  rw [h.window_eq, Window.stop_release, Window.stop_onto]

lemma toList_eq (h : Retains g p xs s) :
    s.window.elements.toList = xs.drop s.window.offset.toNat := by
  rw [h.window_eq, Window.toList_release_onto]

end Retains

theorem Reached.window_retains_needed (h : Reached g p xs s) :
    s.window.stop = xs.length ∧ s.window.closed = false ∧
      s.window.elements.toList = xs.drop s.window.offset.toNat ∧ 0 ≤ s.window.offset ∧
      (∀ q pos stack, s.outcome = .needsMore q pos stack →
        s.window.offset = stack.watermark pos) ∧
      (s.outcome.resolved → s.window.offset = s.outcome.position) ∧
      s.window.offset ≤ s.outcome.position ∧ s.outcome.position ≤ s.window.stop ∧
      ∀ t, Leads g s t → s.window.offset ≤ t.window.offset := by
  have hr := h.retains
  have ho := hr.offset_eq
  refine ⟨hr.stop_eq, hr.closed, hr.toList_eq, ho ▸ hr.needed_nonneg, ?_, ?_,
    ho ▸ s.outcome.needed_le_position, ?_, ?_⟩
  · intro q pos stack hs
    rw [ho, hs]
    rfl
  · intro hs
    rw [ho]
    cases hout : s.outcome with
    | matched v pos => rfl
    | failed e pos => rfl
    | needsMore q pos stack => simp [hout, Outcome.resolved] at hs
  · rw [hr.stop_eq, ← Window.stop_onto]
    exact hr.position_le
  · intro t ht
    obtain ⟨_, _, hle⟩ := hr.led ht
    exact hle

theorem window_retains_attempted : ∃ s t : Session Empty,
    Reached Empty.elim (.next (.character (.str "a"))
      (.attempt (.sequence [.character (.str "b"), .character (.str "c")])))
      [.char 'a', .char 'b'] s ∧
    s.outcome.position = 2 ∧ s.window.elements.toList = [.char 'b'] ∧ s.window.offset = 1 ∧
    s.Provides Empty.elim (.str "d") (.ok t) ∧ s.window.offset ≤ t.window.offset := by
  let p : Parser Empty := .next (.character (.str "a"))
    (.attempt (.sequence [.character (.str "b"), .character (.str "c")]))
  let s₀ : Session Empty := ⟨.needsMore (.character (.str "a")) 0
    [.bind fun _ => .attempt (.sequence [.character (.str "b"), .character (.str "c")])], .empty⟩
  let s : Session Empty := ⟨.needsMore (.character (.str "c")) 2 [.sequence [], .attempt 1],
    ⟨#[.char 'b'], 1, false⟩⟩
  let t : Session Empty := ⟨.failed ⟨2, .expected ["c"] (.char 'd')⟩ 1,
    ⟨#[.char 'b', .char 'd'], 1, false⟩⟩
  have hs₀ : Reached Empty.elim p [] s₀ := .start ⟨9, rfl⟩
  have hs : s₀.Provides Empty.elim (.str "ab") (.ok s) := ⟨15, _, rfl⟩
  have hc : (Value.str "ab").elements = .ok [.char 'a', .char 'b'] := rfl
  have hreached : Reached Empty.elim p [.char 'a', .char 'b'] s := .provide hs₀ rfl hc hs
  have ht : s.Provides Empty.elim (.str "d") (.ok t) := ⟨9, _, rfl⟩
  obtain ⟨_, _, hlist, _, hneeds, _, _, _, hleads⟩ := hreached.window_retains_needed
  exact ⟨s, t, hreached, rfl, hlist, hneeds _ _ _ rfl, ht, hleads t (.single ⟨_, ht⟩)⟩

end Session

end ResumableParsing
