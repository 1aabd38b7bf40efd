import ResumableParsing.Proofs.Meaning.Adequacy
import ResumableParsing.Proofs.Order
import ResumableParsing.Proofs.Watermark

namespace ResumableParsing

variable {κ : Type} {g : Grammar κ} {w : Window} {p : Parser κ}

inductive Iterates (g : Grammar κ) (w : Window) (p : Parser κ) : Int → List Value → Int → Prop
  | nil {pos} : Iterates g w p pos [] pos
  | cons {pos v pos' vs q} : Ends g w (.run p pos []) (.ok (.matched v pos')) → pos' ≠ pos →
      Iterates g w p pos' vs q → Iterates g w p pos (v :: vs) q

variable {pos q : Int} {v : Value} {vs : List Value} {gathered : Stream Value} {r : Result κ}

lemma Ends.position_between {o : Outcome κ} (h : Ends g w (.run p pos []) (.ok o)) :
    pos ≤ o.position ∧ o.position ≤ max pos w.stop :=
  ⟨h.watermark_le_needed.trans o.needed_le_position,
    h.position_le (State.ordered_run le_rfl (le_max_left _ _)) (le_max_right _ _)⟩

lemma Ends.watermark_attempt {p' : Parser κ} {pos' : Int} {stack : Stack κ}
    (h : Ends g w (.run (.attempt p) pos []) (.ok (.needsMore p' pos' stack))) :
    stack.watermark pos' = pos := by
  have hle : pos ≤ stack.watermark pos' := h.watermark_le_needed
  have hmem : Frame.attempt pos ∈ stack := by
    rw [ends_run_iff] at h
    generalize hr : Result.ofOutcome (.ok (.needsMore p' pos' stack)) = r at h
    cases h with
    | read hreads | released hreads => cases hreads
    | @attempt _ _ r _ => cases r <;> simp_all [Result.ofOutcome, Result.attempted, Result.within]
  exact ((Stack.le_watermark_iff.mp le_rfl).2 _ hmem pos rfl).antisymm hle

lemma Ends.remaining_lt (h : Ends g w (.run p pos []) (.ok (.matched v q))) (hq : q ≠ pos) :
    (w.stop - q).toNat < (w.stop - pos).toNat := by
  obtain ⟨hle, hmax⟩ : pos ≤ q ∧ q ≤ max pos w.stop := h.position_between
  omega

lemma Iterates.start_le (h : Iterates g w p pos vs q) : pos ≤ q := by
  induction h with
  | nil => exact le_rfl
  | cons hmatch _ _ ih => exact hmatch.position_between.1.trans ih

lemma Iterates.length_le (h : Iterates g w p pos vs q) : vs.length ≤ (w.stop - pos).toNat := by
  induction h with
  | nil => exact Nat.zero_le _
  | cons hmatch hne _ ih =>
    have hlt := hmatch.remaining_lt hne
    rw [List.length_cons]
    omega

lemma Iterates.repetition (h : Iterates g w p pos vs q)
    (hr : Eval g w (.repetition p (vs.foldl .push gathered) q) r) :
    Eval g w (.repetition p gathered pos) r := by
  induction h generalizing gathered with
  | nil => exact hr
  | @cons pos v pos' vs q hmatch hne _ ih =>
    have hp : Eval g w (.parser p pos) (.matched v pos') := ends_outcome_iff.mp hmatch
    exact .again hp hne (ih hr)

lemma Iterates.reaches (h : Iterates g w p pos vs q) (gathered : Stream Value) (stack : Stack κ) :
    Reaches g w (.run p pos (.many p pos gathered :: stack))
      (.run p q (.many p q (vs.foldl .push gathered) :: stack)) := by
  induction h generalizing gathered with
  | nil => exact .refl
  | @cons pos v pos' vs q hmatch hne _ ih =>
    have hp : Eval g w (.parser p pos) (.matched v pos') := ends_outcome_iff.mp hmatch
    have hround : Reaches g w (.run p pos (.many p pos gathered :: stack))
        (.matched v pos' (.many p pos gathered :: stack)) := hp.arrives _
    exact (hround.tail (.again hne)).trans (ih _)

end ResumableParsing
