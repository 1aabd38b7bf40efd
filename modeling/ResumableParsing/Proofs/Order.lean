import ResumableParsing.Proofs.Step
import ResumableParsing.Proofs.Window

/-! From the machine's position down its stack, the positions at which the combinators were entered
never increase. -/

namespace ResumableParsing

variable {κ : Type} {g : Grammar κ} {w : Window} {s t : State κ} {low : Int}

def Stack.starts (stack : Stack κ) : List Int := stack.filterMap Frame.start?

lemma Stack.starts_cons_sublist (frame : Frame κ) (stack : Stack κ) :
    stack.starts.Sublist (Stack.starts (frame :: stack)) :=
  List.Sublist.filterMap _ (List.sublist_cons_self frame stack)

namespace State

def starts (s : State κ) : List Int := s.position :: s.stack.starts

structure Ordered (low high : Int) (s : State κ) : Prop where
  descending : s.starts.Pairwise (· ≥ ·)
  low_le : ∀ pos ∈ s.starts, low ≤ pos
  position_le : s.position ≤ high

variable {high : Int}

lemma Ordered.starts_le (h : s.Ordered low high) : ∀ pos ∈ s.starts, pos ≤ high := by
  have hd := List.pairwise_cons.mp h.descending
  refine List.forall_mem_cons.mpr ⟨h.position_le, ?_⟩
  intro pos hp
  exact (hd.1 pos hp).trans h.position_le

lemma Ordered.of_sublist (h : s.Ordered low high)
    (ht : t.starts.Sublist (s.position :: s.starts)) : t.Ordered low high := by
  have hd : (s.position :: s.starts).Pairwise (· ≥ ·) := by
    refine List.pairwise_cons.mpr ⟨?_, h.descending⟩
    exact List.forall_mem_cons.mpr ⟨le_rfl, (List.pairwise_cons.mp h.descending).1⟩
  have hmem : ∀ pos ∈ t.starts, pos ∈ s.starts := by
    intro pos hp
    rcases List.mem_cons.mp (ht.subset hp) with rfl | hp
    · exact List.mem_cons_self
    · exact hp
  exact ⟨hd.sublist ht, fun pos hp => h.low_le pos (hmem pos hp),
    h.starts_le _ (hmem _ List.mem_cons_self)⟩

lemma ordered_run {p : Parser κ} {pos : Int} (hl : low ≤ pos) (hh : pos ≤ high) :
    (run p pos []).Ordered low high := by
  refine ⟨?_, ?_, hh⟩
  · simp [starts, Stack.starts]
  · simpa [starts, Stack.starts]

lemma Ordered.shift (h : s.Ordered low high) (hw : w.stop ≤ high) (hst : Shift w s t) :
    t.Ordered low high := by
  cases hst with
  | stay hstack hpos =>
    apply h.of_sublist
    rw [starts, hstack, hpos]
    exact List.sublist_cons_self _ _
  | consume v hread hstack hpos =>
    have hd := List.pairwise_cons.mp h.descending
    have hl := List.forall_mem_cons.mp h.low_le
    have hlt := Window.lt_stop_of_read hread
    refine ⟨?_, ?_, by omega⟩
    · rw [starts, hstack, hpos]
      exact List.pairwise_cons.mpr ⟨fun pos hp => (hd.1 pos hp).trans (by omega), hd.2⟩
    · rw [starts, hstack, hpos]
      exact List.forall_mem_cons.mpr ⟨by omega, hl.2⟩
  | enter frame hstack hpos hframe =>
    apply h.of_sublist
    rw [starts, hstack, hpos]
    refine List.Sublist.cons_cons _ ?_
    cases hs : frame.start? with
    | none =>
      rw [Stack.starts, List.filterMap_cons_none hs]
      exact List.sublist_cons_self _ _
    | some start =>
      rw [Stack.starts, List.filterMap_cons_some hs, hframe start hs]
      exact List.Sublist.refl _
  | leave frame hstack hpos =>
    apply h.of_sublist
    rcases hpos with hpos | hpos
    · rw [starts, starts, hstack, hpos]
      exact ((Stack.starts_cons_sublist frame t.stack).cons_cons _).cons _
    · rw [starts, starts, hstack]
      have hs := Frame.start?_of_rewind? hpos
      rw [Stack.starts, Stack.starts, List.filterMap_cons_some hs]
      exact (List.sublist_cons_self _ _).trans (List.sublist_cons_self _ _)
  | resume frame frame' stack hstack hstack' hpos hframe =>
    apply h.of_sublist
    rw [starts, starts, hstack, hstack', hpos]
    refine List.Sublist.cons_cons _ ?_
    have hrest := Stack.starts_cons_sublist frame stack
    cases hs : frame'.start? with
    | none =>
      rw [Stack.starts, List.filterMap_cons_none hs]
      exact hrest.cons _
    | some start =>
      rw [Stack.starts, List.filterMap_cons_some hs, hframe start hs]
      exact hrest.cons_cons _

end State

variable {high : Int}

lemma Reaches.ordered (hr : Reaches g w s t) (h : s.Ordered low high) (hw : w.stop ≤ high) :
    t.Ordered low high := by
  induction hr with
  | refl => exact h
  | tail _ hs ih => exact ih.shift hw hs.shift

lemma State.position_of_halt {o : Outcome κ} (h : s.step g w = .ok (.halt o)) :
    o.position = s.position := by
  rcases step_halt h with ⟨_, _, rfl, rfl⟩ | ⟨_, _, rfl, rfl⟩ | ⟨_, _, _, rfl, rfl, _⟩
  all_goals rfl

lemma Ends.position_le {o : Outcome κ} (h : Ends g w s (.ok o)) (hs : s.Ordered low high)
    (hw : w.stop ≤ high) : o.position ≤ high := by
  obtain ⟨t, ht, hstep⟩ := h.exists_halt
  rw [State.position_of_halt hstep]
  exact (ht.ordered hs hw).position_le

end ResumableParsing
