import ResumableParsing.Parser.Text
import ResumableParsing.Proofs.Order
import ResumableParsing.Proofs.Watermark
import ResumableParsing.Proofs.Window.History

namespace ResumableParsing

variable {κ : Type}

/--
The states that a parse of `p` comes to, with their windows. It starts over `w₀`; where it wants
more input, it may be taken up again over whatever has become of the window.
-/
inductive Visits (g : Grammar κ) (p : Parser κ) (start : Int) (w₀ : Window) :
    Window → State κ → Prop
  | start : Visits g p start w₀ w₀ (.run p start [])
  | step {w s t} : Visits g p start w₀ w s → Steps g w s t → Visits g p start w₀ w t
  | resume {w s q pos stack} (cs : List Change) : Visits g p start w₀ w s →
      s.step g w = .ok (.halt (.needsMore q pos stack)) →
      Visits g p start w₀ (w.after cs) (.run q pos stack)

variable {g : Grammar κ} {p : Parser κ} {start : Int} {w₀ w : Window} {s t : State κ}

def Stack.outermost? (stack : Stack κ) : Option Int := stack.reverse.findSome? Frame.rewind?

lemma Visits.reaches (h : Visits g p start w₀ w s) (hr : Reaches g w s t) :
    Visits g p start w₀ w t := by
  induction hr with
  | refl => exact h
  | tail _ hs ih => exact .step ih hs

lemma Visits.ordered (h : Visits g p start w₀ w s) (hs : start ≤ w₀.stop) :
    s.Ordered start w.stop := by
  induction h with
  | start => exact State.ordered_run le_rfl hs
  | step _ hst ih => exact ih.shift le_rfl hst.shift
  | resume cs _ hhalt ih =>
    obtain ⟨rfl, _⟩ := State.step_suspended hhalt
    -- suspending changes neither position nor frames, and no change of the window makes it shorter
    exact ⟨ih.descending, ih.low_le, ih.position_le.trans (Window.stop_le_after cs)⟩

lemma foldl_min_of_descending {a : Int} {xs : List Int} (h : (a :: xs).Pairwise (· ≥ ·)) :
    xs.foldl min a = xs.getLastD a := by
  induction xs generalizing a with
  | nil => rfl
  | cons x xs ih =>
    obtain ⟨ha, hxs⟩ := List.pairwise_cons.mp h
    have hle : x ≤ a := ha x List.mem_cons_self
    rw [List.foldl_cons, min_eq_right hle, ih hxs, List.getLastD_cons]

lemma Stack.rewinds_sublist (stack : Stack κ) :
    (stack.filterMap Frame.rewind?).Sublist stack.starts := by
  induction stack with
  | nil => exact List.Sublist.refl _
  | cons frame stack ih =>
    cases hr : frame.rewind? with
    | none =>
      rw [List.filterMap_cons_none hr]
      exact ih.trans (Stack.starts_cons_sublist frame stack)
    | some pos =>
      rw [List.filterMap_cons_some hr, Stack.starts,
        List.filterMap_cons_some (Frame.start?_of_rewind? hr)]
      exact ih.cons_cons pos

lemma State.Ordered.watermark_eq {low high : Int} (h : s.Ordered low high) :
    s.watermark = s.stack.outermost?.getD s.position := by
  have hsub := (Stack.rewinds_sublist s.stack).cons_cons s.position
  have hmin := foldl_min_of_descending (h.descending.sublist hsub)
  rw [State.watermark, Stack.watermark, hmin, Stack.outermost?, ← List.getLast?_filterMap,
    List.getLastD_eq_getLast?]

theorem Visits.starts_descend (h : Visits g p start w₀ w s) (hs : start ≤ w₀.stop) :
    s.stack.starts.Pairwise (· ≥ ·) ∧
      (∀ pos ∈ s.stack.starts, start ≤ pos ∧ pos ≤ s.position) ∧
      start ≤ s.position ∧ s.position ≤ w.stop ∧
      (∀ o, Ends g w s (.ok o) → start ≤ o.position ∧ o.position ≤ w.stop) ∧
      ∀ q pos stack, Ends g w s (.ok (.needsMore q pos stack)) →
        stack.watermark pos = stack.outermost?.getD pos := by
  have ho := h.ordered hs
  obtain ⟨hle, hdescending⟩ := List.pairwise_cons.mp ho.descending
  obtain ⟨hstart, hstarts⟩ := List.forall_mem_cons.mp ho.low_le
  refine ⟨hdescending, fun pos hpos => ⟨hstarts pos hpos, hle pos hpos⟩, hstart, ho.position_le,
    ?_, ?_⟩
  · intro o hends
    obtain ⟨t, hr, hhalt⟩ := hends.exists_halt
    have ht := (h.reaches hr).ordered hs
    have hlow : start ≤ t.position := ht.low_le _ List.mem_cons_self
    rw [State.position_of_halt hhalt]
    exact ⟨hlow, ht.position_le⟩
  · intro q pos stack hends
    obtain ⟨t, hr, hhalt⟩ := hends.exists_halt
    obtain ⟨rfl, _⟩ := State.step_suspended hhalt
    exact ((h.reaches hr).ordered hs).watermark_eq

theorem Visits.starts_descend_inside_attempt :
    ∃ (w₀ w : Window) (p q : Parser Empty) (s : State Empty) (stack : Stack Empty),
      w₀.elements = #[.char 'x', .char 'a'] ∧ 1 ≤ w₀.stop ∧ Visits Empty.elim p 1 w₀ w s ∧
      s.stack.starts = [2, 1] ∧ s.stack.starts.Pairwise (· ≥ ·) ∧
      w.offset = 1 ∧ Ends Empty.elim w s (.ok (.needsMore q 3 stack)) ∧ 3 ≤ w.stop ∧
      stack.outermost? = some 1 ∧ stack.watermark 3 = 1 := by
  let w₀ : Window := ⟨#[.char 'x', .char 'a'], 0, false⟩
  let w : Window := w₀.after [.release 1, .extend (.str "b")]
  let a : Parser Empty := .character (.str "a")
  let b : Parser Empty := .character (.str "b")
  let c : Parser Empty := .character (.str "c")
  let p : Parser Empty := .attempt (.sequence [a, .lookahead (.sequence [b, c])])
  let waiting : Stack Empty := [.sequence [c], .lookahead 2, .sequence [], .attempt 1]
  let stack : Stack Empty := [.sequence [], .lookahead 2, .sequence [], .attempt 1]
  have hs : 1 ≤ w₀.stop := by decide
  have hsuspended : Visits Empty.elim p 1 w₀ w₀ (.run b 2 waiting) :=
    .step (.step (.step (.step (.step (.step .start rfl) rfl) rfl) rfl) rfl) rfl
  have hresumed : Visits Empty.elim p 1 w₀ w (.run b 2 waiting) := .resume _ hsuspended rfl
  have hends : Ends Empty.elim w (.run b 2 waiting) (.ok (.needsMore c 3 stack)) := ⟨3, rfl⟩
  obtain ⟨hdescend, _, _, _, hbetween, hmark⟩ := hresumed.starts_descend hs
  exact ⟨w₀, w, p, c, _, stack, rfl, hs, hresumed, rfl, hdescend, rfl, hends, (hbetween _ hends).2,
    rfl, hmark _ _ _ hends⟩

end ResumableParsing
