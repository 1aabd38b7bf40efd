import ResumableParsing.Proofs.Watermark

/-! A run over a window that has grown is the run over the window before, taken up again where that
one suspended. -/

namespace ResumableParsing

variable {κ : Type} {g : Grammar κ} {w w' : Window} {s t : State κ}
variable {r r' : Except Fault (Outcome κ)}

def Resumes (g : Grammar κ) (w : Window) :
    Except Fault (Outcome κ) → Except Fault (Outcome κ) → Prop
  | .ok (.needsMore p pos stack), r => Ends g w (.run p pos stack) r
  | r', r => r = r'

lemma resumes_of_resolved {o : Outcome κ} (h : o.resolved) : Resumes g w (.ok o) r ↔ r = .ok o := by
  cases o with
  | matched v pos => rfl
  | failed e pos => rfl
  | needsMore p pos stack => simp [Outcome.resolved] at h

lemma State.step_grows (hw : Window.Grows w w') (ho : w.offset ≤ s.position) :
    (∃ p pos stack, s = run p pos stack ∧ s.step g w = .ok (.halt (.needsMore p pos stack))) ∨
      s.step g w' = s.step g w ∧ ∀ o, s.step g w = .ok (.halt o) → o.resolved := by
  by_cases hn : ∀ o, s.step g w = .ok (.halt o) → o.resolved
  · refine .inr ⟨?_, hn⟩
    by_cases hr : s.reads
    · obtain ⟨p, pos, stack, rfl, hp, _⟩ := step_of_reads (g := g) hr
      apply step_congr
      have hread := Window.read_eq ho
      rw [hread]
      refine hw _ _ hread ?_
      intro hm
      rw [hm] at hread
      simpa [Outcome.resolved] using hn _ (step_of_missing hp hread)
    · exact step_of_not_reads hr
  · obtain ⟨o, hs, hres⟩ : ∃ o, s.step g w = .ok (.halt o) ∧ ¬ o.resolved := by
      simpa using hn
    rcases step_halt hs with ⟨_, _, _, rfl⟩ | ⟨_, _, _, rfl⟩ | ⟨p, pos, stack, rfl, rfl, _⟩
    · simp [Outcome.resolved] at hres
    · simp [Outcome.resolved] at hres
    · exact .inl ⟨p, pos, stack, rfl, hs⟩

lemma State.offset_le_position (ho : w.offset ≤ s.watermark) : w.offset ≤ s.position :=
  ho.trans watermark_le_position

lemma Ends.resumes (hw : Window.Grows w w') (ho : w.offset ≤ s.watermark) (h : Ends g w s r)
    (hr : Resumes g w' r r') : Ends g w' s r' := by
  induction h using Ends.induction with
  | error hs hf =>
    subst hf
    rcases State.step_grows (g := g) hw (State.offset_le_position ho) with
      ⟨p, pos, stack, rfl, hs'⟩ | ⟨hstep, _⟩
    · simp [hs] at hs'
    · exact (iff_of_error (hstep.trans hs)).mpr hr
  | @halt s o hs hf =>
    subst hf
    rcases State.step_grows (g := g) hw (State.offset_le_position ho) with
      ⟨p, pos, stack, rfl, hs'⟩ | ⟨hstep, hres⟩
    · obtain rfl : o = .needsMore p pos stack := by simpa [hs] using hs'
      exact hr
    · rw [resumes_of_resolved (hres o hs)] at hr
      exact (iff_of_halt (hstep.trans hs)).mpr hr
  | next hs _ ih =>
    have hs' := hs
    rcases State.step_grows (g := g) hw (State.offset_le_position ho) with
      ⟨p, pos, stack, rfl, hs''⟩ | ⟨hstep, _⟩
    · exact absurd (hs'.symm.trans hs'') (by simp)
    · have hst : Steps g w' _ _ := hstep.trans hs
      exact hst.ends_iff.mpr (ih (ho.trans hs.shift.watermark_le))

lemma Ends.exists_resumes (hw : Window.Grows w w') (ho : w.offset ≤ s.watermark)
    (h : Ends g w' s r') : ∃ r, Ends g w s r ∧ Resumes g w' r r' := by
  induction h using Ends.induction with
  | error hs hf =>
    rcases State.step_grows (g := g) hw (State.offset_le_position ho) with
      ⟨p, pos, stack, rfl, hs'⟩ | ⟨hstep, _⟩
    · exact ⟨_, (iff_of_halt hs').mpr rfl, (iff_of_error hs).mpr hf⟩
    · exact ⟨_, (iff_of_error (hstep.symm.trans hs)).mpr rfl, hf⟩
  | halt hs hf =>
    rcases State.step_grows (g := g) hw (State.offset_le_position ho) with
      ⟨p, pos, stack, rfl, hs'⟩ | ⟨hstep, hres⟩
    · exact ⟨_, (iff_of_halt hs').mpr rfl, (iff_of_halt hs).mpr hf⟩
    · have hs' := hstep.symm.trans hs
      exact ⟨_, (iff_of_halt hs').mpr rfl, (resumes_of_resolved (hres _ hs')).mpr hf⟩
  | next hs ht ih =>
    rcases State.step_grows (g := g) hw (State.offset_le_position ho) with
      ⟨p, pos, stack, rfl, hs'⟩ | ⟨hstep, _⟩
    · exact ⟨_, (iff_of_halt hs').mpr rfl, hs.ends_iff.mpr ht⟩
    · have hst : Steps g w _ _ := hstep.symm.trans hs
      obtain ⟨r, hr, hres⟩ := ih (ho.trans hst.shift.watermark_le)
      exact ⟨r, hst.ends_iff.mpr hr, hres⟩

lemma Ends.resumes_iff (hw : Window.Grows w w') (ho : w.offset ≤ s.watermark) :
    Ends g w' s r' ↔ ∃ r, Ends g w s r ∧ Resumes g w' r r' :=
  ⟨exists_resumes hw ho, fun ⟨_, h, hr⟩ => h.resumes hw ho hr⟩

lemma Ends.grows_iff (h : Ends g w s r) (hw : Window.Grows w w') (ho : w.offset ≤ s.watermark) :
    Ends g w' s r' ↔ Resumes g w' r r' := by
  rw [resumes_iff hw ho]
  constructor
  · rintro ⟨e, he, hr⟩
    rwa [h.unique he]
  · intro hr
    exact ⟨r, h, hr⟩

end ResumableParsing
