import ResumableParsing.Machine
import Mathlib.Logic.Relation
import Mathlib.Tactic

/-! Runs without their fuel; one that goes on for ever has no end. -/

namespace ResumableParsing

variable {κ : Type} {g : Grammar κ} {w : Window} {s t : State κ}

def Steps (g : Grammar κ) (w : Window) (s t : State κ) : Prop := s.step g w = .ok (.next t)

abbrev Reaches (g : Grammar κ) (w : Window) : State κ → State κ → Prop :=
  Relation.ReflTransGen (Steps g w)

/-- Steps that may each be taken over another window, as in a session that is fed between them. -/
abbrev Comes (g : Grammar κ) : State κ → State κ → Prop :=
  Relation.ReflTransGen fun s t => ∃ w, Steps g w s t

lemma Reaches.comes (h : Reaches g w s t) : Comes g s t :=
  h.lift id fun _ _ hs => ⟨w, hs⟩

def Ends (g : Grammar κ) (w : Window) (s : State κ) (r : Except Fault (Outcome κ)) : Prop :=
  ∃ fuel, execute g w fuel s = some r

variable {r r' : Except Fault (Outcome κ)} {n m : ℕ}

lemma execute_error {f : Fault} (h : s.step g w = .error f) :
    execute g w (n + 1) s = some (.error f) := by
  simp only [execute, h]

lemma execute_halt {o : Outcome κ} (h : s.step g w = .ok (.halt o)) :
    execute g w (n + 1) s = some (.ok o) := by
  simp only [execute, h]

lemma execute_next (h : Steps g w s t) : execute g w (n + 1) s = execute g w n t := by
  have hs : s.step g w = .ok (.next t) := h
  simp only [execute, hs]

lemma execute_mono (hr : execute g w n s = some r) (hn : n ≤ m) : execute g w m s = some r := by
  induction n generalizing s m with
  | zero => simp [execute] at hr
  | succ n ih =>
    obtain ⟨m, rfl⟩ : ∃ k, m = k + 1 := ⟨m - 1, by omega⟩
    cases hs : s.step g w with
    | error f => simpa only [execute_error hs] using hr
    | ok move =>
      cases move with
      | halt o => simpa only [execute_halt hs] using hr
      | next t =>
        rw [execute_next hs] at hr ⊢
        exact ih hr (by omega)

namespace Ends

lemma unique (hr : Ends g w s r) (hr' : Ends g w s r') : r = r' := by
  obtain ⟨n, hn⟩ := hr
  obtain ⟨m, hm⟩ := hr'
  have h := execute_mono hn (le_max_left n m)
  rw [execute_mono hm (le_max_right n m)] at h
  exact (Option.some.inj h).symm

lemma iff_of_error {f : Fault} (h : s.step g w = .error f) : Ends g w s r ↔ r = .error f := by
  have he : Ends g w s (.error f) := ⟨1, execute_error h⟩
  exact ⟨fun hr => hr.unique he, fun hr => hr ▸ he⟩

lemma iff_of_halt {o : Outcome κ} (h : s.step g w = .ok (.halt o)) : Ends g w s r ↔ r = .ok o := by
  have he : Ends g w s (.ok o) := ⟨1, execute_halt h⟩
  exact ⟨fun hr => hr.unique he, fun hr => hr ▸ he⟩

end Ends

lemma Steps.ends_iff (h : Steps g w s t) : Ends g w s r ↔ Ends g w t r := by
  constructor
  · rintro ⟨n, hn⟩
    cases n with
    | zero => simp [execute] at hn
    | succ n => exact ⟨n, by rwa [execute_next h] at hn⟩
  · rintro ⟨n, hn⟩
    exact ⟨n + 1, by rwa [execute_next h]⟩

lemma Reaches.ends_iff (h : Reaches g w s t) : Ends g w s r ↔ Ends g w t r := by
  induction h with
  | refl => rfl
  | tail _ hs ih => rw [ih, hs.ends_iff]

@[elab_as_elim]
lemma Ends.induction {motive : ∀ s, Ends g w s r → Prop}
    (error : ∀ {s f} (hs : s.step g w = .error f) (hr : r = .error f),
      motive s ((iff_of_error hs).mpr hr))
    (halt : ∀ {s o} (hs : s.step g w = .ok (.halt o)) (hr : r = .ok o),
      motive s ((iff_of_halt hs).mpr hr))
    (next : ∀ {s t} (hs : Steps g w s t) (ht : Ends g w t r),
      motive t ht → motive s (hs.ends_iff.mpr ht))
    (h : Ends g w s r) : motive s h := by
  obtain ⟨n, hn⟩ := h
  induction n generalizing s with
  | zero => simp [execute] at hn
  | succ n ih =>
    cases hs : s.step g w with
    | error f => exact error hs ((iff_of_error hs).mp ⟨_, hn⟩)
    | ok move =>
      cases move with
      | halt o => exact halt hs ((iff_of_halt hs).mp ⟨_, hn⟩)
      | next t =>
        rw [execute_next hs] at hn
        exact next hs ⟨n, hn⟩ (ih hn)

lemma Ends.exists_halt {o : Outcome κ} (h : Ends g w s (.ok o)) :
    ∃ t, Reaches g w s t ∧ t.step g w = .ok (.halt o) := by
  induction h using Ends.induction with
  | error _ hr => cases hr
  | @halt s _ hs hr =>
    cases hr
    exact ⟨s, .refl, hs⟩
  | next hs _ ih =>
    obtain ⟨u, hu, hstep⟩ := ih
    exact ⟨u, .head hs hu, hstep⟩

lemma execute_of_transGen (h : Relation.TransGen (Steps g w) s t)
    (hr : execute g w n s = some r) : ∃ m < n, execute g w m t = some r := by
  have drop {s t : State κ} {n : ℕ} (hs : Steps g w s t) (hr : execute g w n s = some r) :
      ∃ m < n, execute g w m t = some r := by
    cases n with
    | zero => simp [execute] at hr
    | succ n => exact ⟨n, n.lt_succ_self, by rwa [execute_next hs] at hr⟩
  induction h with
  | single hs => exact drop hs hr
  | tail _ hs ih =>
    obtain ⟨m, hm, hr⟩ := ih
    obtain ⟨k, hk, hr⟩ := drop hs hr
    exact ⟨k, hk.trans hm, hr⟩

@[elab_as_elim]
lemma Ends.strong_induction {motive : ∀ s, Ends g w s r → Prop}
    (step : ∀ {s} (h : Ends g w s r), (∀ t (hst : Relation.TransGen (Steps g w) s t),
      motive t ((Reaches.ends_iff hst.to_reflTransGen).mp h)) → motive s h)
    (h : Ends g w s r) : motive s h := by
  obtain ⟨n, hn⟩ := h
  induction n using Nat.strong_induction_on generalizing s with
  | _ n ih =>
    refine step ⟨n, hn⟩ ?_
    intro t ht
    obtain ⟨m, hm, hr⟩ := execute_of_transGen ht hn
    exact ih m hm hr

end ResumableParsing
