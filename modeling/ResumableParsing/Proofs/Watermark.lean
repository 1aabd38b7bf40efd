import ResumableParsing.Proofs.Step
import ResumableParsing.Proofs.Window

/-! No step lowers the watermark, so a run never reads below the one it starts with, and windows that
agree from there on cannot be told apart. -/

namespace ResumableParsing

variable {κ : Type} {g : Grammar κ} {w w' : Window} {s t : State κ} {m : Int}

lemma le_foldl_min {xs : List Int} {a : Int} : m ≤ xs.foldl min a ↔ m ≤ a ∧ ∀ x ∈ xs, m ≤ x := by
  induction xs generalizing a with
  | nil => simp
  | cons x xs ih => simp [ih, and_assoc]

lemma Stack.le_watermark_iff {stack : Stack κ} {pos : Int} : m ≤ stack.watermark pos ↔
    m ≤ pos ∧ ∀ frame ∈ stack, ∀ start ∈ frame.rewind?, m ≤ start := by
  simp only [Stack.watermark, le_foldl_min, List.mem_filterMap, Option.mem_def]
  constructor
  · rintro ⟨hp, hs⟩
    exact ⟨hp, fun frame hf start hr => hs start ⟨frame, hf, hr⟩⟩
  · rintro ⟨hp, hs⟩
    exact ⟨hp, fun start ⟨frame, hf, hr⟩ => hs frame hf start hr⟩

lemma Stack.watermark_le {stack : Stack κ} {pos : Int} : stack.watermark pos ≤ pos :=
  (le_watermark_iff.mp le_rfl).1

namespace State

def watermark (s : State κ) : Int := s.stack.watermark s.position

lemma watermark_le_position : s.watermark ≤ s.position := Stack.watermark_le

lemma Shift.watermark_le (h : Shift w s t) : s.watermark ≤ t.watermark := by
  obtain ⟨hs, hf⟩ := Stack.le_watermark_iff.mp (le_refl s.watermark)
  apply Stack.le_watermark_iff.mpr
  cases h with
  | stay hstack hpos =>
    rw [hstack, hpos]
    exact ⟨hs, hf⟩
  | consume v hread hstack hpos =>
    rw [hstack, hpos]
    exact ⟨by omega, hf⟩
  | enter frame hstack hpos hframe =>
    rw [hstack, hpos]
    refine ⟨hs, List.forall_mem_cons.mpr ⟨?_, hf⟩⟩
    intro start hstart
    rw [hframe start (Frame.start?_of_rewind? hstart)]
    exact hs
  | leave frame hstack hpos =>
    rw [hstack] at hf
    obtain ⟨hframe, hf⟩ := List.forall_mem_cons.mp hf
    refine ⟨?_, hf⟩
    rcases hpos with hpos | hpos
    · rw [hpos]
      exact hs
    · exact hframe _ hpos
  | resume frame frame' stack hstack hstack' hpos hframe =>
    rw [hstack] at hf
    rw [hstack', hpos]
    refine ⟨hs, List.forall_mem_cons.mpr ⟨?_, (List.forall_mem_cons.mp hf).2⟩⟩
    intro start hstart
    rw [hframe start (Frame.start?_of_rewind? hstart)]
    exact hs

end State

def Outcome.needed : Outcome κ → Int
  | .matched _ pos => pos
  | .failed _ pos => pos
  | .needsMore _ pos stack => stack.watermark pos

lemma Outcome.needed_le_position (o : Outcome κ) : o.needed ≤ o.position := by
  cases o with
  | matched v pos => exact le_rfl
  | failed e pos => exact le_rfl
  | needsMore p pos stack => exact Stack.watermark_le

lemma Comes.watermark_le (h : Comes g s t) : s.watermark ≤ t.watermark := by
  induction h with
  | refl => exact le_rfl
  | tail _ hs ih =>
    obtain ⟨w, hs⟩ := hs
    exact ih.trans hs.shift.watermark_le

lemma Reaches.watermark_le (h : Reaches g w s t) : s.watermark ≤ t.watermark :=
  h.comes.watermark_le

lemma State.needed_of_halt {o : Outcome κ} (h : s.step g w = .ok (.halt o)) :
    o.needed = s.watermark := by
  rcases step_halt h with ⟨v, pos, rfl, rfl⟩ | ⟨e, pos, rfl, rfl⟩ | ⟨p, pos, stack, rfl, rfl, _⟩
  all_goals rfl

lemma Ends.watermark_le_needed {o : Outcome κ} (h : Ends g w s (.ok o)) :
    s.watermark ≤ o.needed := by
  obtain ⟨t, ht, hstep⟩ := h.exists_halt
  rw [State.needed_of_halt hstep]
  exact ht.watermark_le

/-- The run comes to read what its window has let go. -/
def ReadsReleased (g : Grammar κ) (w : Window) (s : State κ) : Prop :=
  ∃ t f, Reaches g w s t ∧ t.reads ∧ w.read t.position = .error f

lemma not_readsReleased (h : w.offset ≤ s.watermark) : ¬ ReadsReleased g w s := by
  rintro ⟨t, f, hr, _, hf⟩
  have ho : w.offset ≤ t.position :=
    h.trans (hr.watermark_le.trans State.watermark_le_position)
  rw [Window.read_eq ho] at hf
  cases hf

lemma execute_agreeFrom (h : Window.AgreeFrom m w w') (hm : m ≤ s.watermark) (fuel : ℕ) :
    execute g w fuel s = execute g w' fuel s := by
  induction fuel generalizing s with
  | zero => rfl
  | succ fuel ih =>
    have hp : m ≤ s.position := hm.trans State.watermark_le_position
    have hstep : s.step g w = s.step g w' := State.step_congr (h s.position hp)
    cases hs : s.step g w with
    | error f => rw [execute_error hs, execute_error (hstep ▸ hs)]
    | ok move =>
      cases move with
      | halt o => rw [execute_halt hs, execute_halt (hstep ▸ hs)]
      | next t =>
        have hs' : Steps g w' s t := hstep.symm.trans hs
        rw [execute_next hs, execute_next hs']
        exact ih (hm.trans (Steps.shift hs).watermark_le)

lemma Ends.agreeFrom_iff {r : Except Fault (Outcome κ)} (h : Window.AgreeFrom m w w')
    (hm : m ≤ s.watermark) : Ends g w s r ↔ Ends g w' s r := by
  simp only [Ends, execute_agreeFrom h hm]

end ResumableParsing
