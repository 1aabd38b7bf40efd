import ResumableParsing.Parser.Text
import ResumableParsing.Proofs.Feeding

namespace ResumableParsing

variable {κ : Type} {g : Grammar κ} {p : Parser κ}

open Session

lemma Window.offset_of_extend {w w' : Window} {chunk : Value} (h : w.extend chunk = .ok w') :
    w'.offset = w.offset := by
  unfold extend at h
  split_ifs at h
  cases hc : chunk.elements with
  | error f => simp [hc] at h
  | ok xs =>
    obtain rfl : { w with elements := w.elements ++ xs.toArray } = w' := by simpa [hc] using h
    rfl

lemma Session.Retains.offset_le {s : Session κ} {xs : List Value} {q : Parser κ} {pos : Int}
    {stack : Stack κ} (h : Retains g p xs s) (hs : s.outcome = .needsMore q pos stack) :
    s.window.offset ≤ (State.run q pos stack).watermark := by
  rw [h.offset_eq, hs]
  exact le_rfl

/--
Callbacks may let any fault escape, so what is said of reading is said of the states the run comes
to.
-/
theorem watermark_sound (g : Grammar κ) :
    (∀ (q : Parser κ) (pos : Int) (stack : Stack κ) (w w' : Window),
      w.offset ≤ stack.watermark pos → w'.offset ≤ stack.watermark pos →
      Window.AgreeFrom (stack.watermark pos) w w' →
        (∀ fuel, execute g w fuel (.run q pos stack) = execute g w' fuel (.run q pos stack)) ∧
        ¬ ReadsReleased g w (.run q pos stack) ∧ ¬ ReadsReleased g w' (.run q pos stack) ∧
        ∀ o, Ends g w (.run q pos stack) (.ok o) → stack.watermark pos ≤ o.needed) ∧
      ∀ (p : Parser κ) (xs : List Value) (s : Session κ), Reached g p xs s →
        ∀ (q : Parser κ) (pos : Int) (stack : Stack κ), s.outcome = .needsMore q pos stack →
          (∀ chunk w, s.window.extend chunk = .ok w → ¬ ReadsReleased g w (.run q pos stack)) ∧
          ¬ ReadsReleased g s.window.close (.run q pos stack) := by
  constructor
  · intro q pos stack w w' ho ho' hw
    exact ⟨execute_agreeFrom hw le_rfl, not_readsReleased ho, not_readsReleased ho',
      fun o h => h.watermark_le_needed⟩
  · intro p xs s hs q pos stack hout
    have ho := hs.retains.offset_le hout
    refine ⟨fun chunk w hw => not_readsReleased ?_, not_readsReleased ho⟩
    rw [Window.offset_of_extend hw]
    exact ho

theorem watermark_sound_below_attempt :
    (∃ w : Window, (w.release 2).elements = #[.char 'a', .char 'b'] ∧
      (w.release 2).offset ≤ Stack.watermark (κ := Empty) [.attempt 2] 3 ∧
      w.offset ≤ Stack.watermark (κ := Empty) [.attempt 2] 3 ∧
      Window.AgreeFrom 2 (w.release 2) w ∧
      execute Empty.elim (w.release 2) 9 (.run (.character (.str "c")) 3 [.attempt 2]) =
        execute Empty.elim w 9 (.run (.character (.str "c")) 3 [.attempt 2])) ∧
    ∃ s : Session Empty, s.window.offset = 1 ∧
      Reached Empty.elim (.sequence [.character (.str "a"), .character (.str "b")]) [.char 'a'] s ∧
      s.outcome = .needsMore (.character (.str "b")) 1 [.sequence []] ∧
      ¬ ReadsReleased Empty.elim s.window.close (.run (.character (.str "b")) 1 [.sequence []]) := by
  let w : Window := ⟨#[.char 'x', .char 'y', .char 'a', .char 'b'], 0, false⟩
  have hw : Window.AgreeFrom 2 (w.release 2) w := Window.release_agreeFrom
  obtain ⟨hrun, hsession⟩ := watermark_sound (κ := Empty) Empty.elim
  constructor
  · have ho : (w.release 2).offset ≤ Stack.watermark (κ := Empty) [.attempt 2] 3 := by decide
    have ho' : w.offset ≤ Stack.watermark (κ := Empty) [.attempt 2] 3 := by decide
    exact ⟨w, rfl, ho, ho', hw, (hrun _ 3 [.attempt 2] _ _ ho ho' hw).1 9⟩
  · let s₀ : Session Empty := ⟨.needsMore (.character (.str "a")) 0
      [.sequence [.character (.str "b")]], .empty⟩
    let s : Session Empty :=
      ⟨.needsMore (.character (.str "b")) 1 [.sequence []], ⟨#[], 1, false⟩⟩
    have hs₀ : Reached Empty.elim (.sequence [.character (.str "a"), .character (.str "b")]) [] s₀ :=
      .start ⟨9, rfl⟩
    have hs : s₀.Provides Empty.elim (.str "a") (.ok s) := ⟨9, _, rfl⟩
    have hreached := Reached.provide hs₀ rfl rfl hs
    exact ⟨s, rfl, hreached, rfl, (hsession _ _ s hreached _ 1 _ rfl).2⟩

end ResumableParsing
