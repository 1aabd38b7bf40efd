import ResumableParsing.Proofs.Ending

/-! What is seen of a state that runs over one window and is taken up over others, as often as it
suspends. Two states behave alike if no windows tell them apart. -/

namespace ResumableParsing

variable {κ : Type}

/-- The endings seen over the windows one after another. What is resolved is not taken up again. -/
inductive Shows (g : Grammar κ) : State κ → List Window → List Ending → Prop
  | nil {s} : Shows g s [] []
  | fault {s w ws f} : Ends g w s (.error f) → Shows g s (w :: ws) [.fault f]
  | resolved {s w ws o} : o.resolved → Ends g w s (.ok o) → Shows g s (w :: ws) [ending (.ok o)]
  | suspended {s w ws p pos stack xs} : Ends g w s (.ok (.needsMore p pos stack)) →
      Shows g (.run p pos stack) ws xs →
      Shows g s (w :: ws) (.suspended pos (stack.watermark pos) :: xs)

def Alike (g : Grammar κ) (s t : State κ) : Prop := ∀ ws xs, Shows g s ws xs ↔ Shows g t ws xs

inductive Tallies (R : State κ → State κ → Prop) :
    Except Fault (Outcome κ) → Except Fault (Outcome κ) → Prop
  | fault {f} : Tallies R (.error f) (.error f)
  | resolved {o} : o.resolved → Tallies R (.ok o) (.ok o)
  | suspended {p p' pos stack stack'} : stack.watermark pos = stack'.watermark pos →
      R (.run p pos stack) (.run p' pos stack') →
      Tallies R (.ok (.needsMore p pos stack)) (.ok (.needsMore p' pos stack'))

def Corresponds (R : State κ → State κ → Prop) (A B : Except Fault (Outcome κ) → Prop) : Prop :=
  (∀ o, A o → ∃ o', B o' ∧ Tallies R o o') ∧ ∀ o', B o' → ∃ o, A o ∧ Tallies R o o'

variable {g : Grammar κ} {R : State κ → State κ → Prop} {s t u : State κ} {w : Window}
variable {ws : List Window} {xs : List Ending} {A B : Except Fault (Outcome κ) → Prop}

lemma Tallies.refl (h : ∀ s, R s s) (o : Except Fault (Outcome κ)) : Tallies R o o := by
  rcases o with f | (⟨v, pos⟩ | ⟨e, pos⟩ | ⟨p, pos, stack⟩)
  · exact .fault
  · exact .resolved rfl
  · exact .resolved rfl
  · exact .suspended rfl (h _)

lemma Tallies.flip {o o' : Except Fault (Outcome κ)} (h : Tallies R o o') :
    Tallies (flip R) o' o := by
  cases h with
  | fault => exact .fault
  | resolved h => exact .resolved h
  | suspended hw hR => exact .suspended hw.symm hR

lemma Corresponds.refl (h : ∀ s, R s s) : Corresponds R A A :=
  ⟨fun o ho => ⟨o, ho, .refl h o⟩, fun o ho => ⟨o, ho, .refl h o⟩⟩

lemma Corresponds.flip (h : Corresponds R A B) : Corresponds (flip R) B A :=
  ⟨fun o ho => (h.2 o ho).imp fun _ => .imp_right .flip,
    fun o ho => (h.1 o ho).imp fun _ => .imp_right .flip⟩

lemma Shows.transfer (hR : ∀ s t, R s t → ∀ w, Corresponds R (Ends g w s) (Ends g w t))
    (hst : R s t) (h : Shows g s ws xs) : Shows g t ws xs := by
  induction h generalizing t with
  | nil => exact .nil
  | fault he =>
    obtain ⟨o', ho', htally⟩ := (hR _ _ hst _).1 _ he
    cases htally
    exact .fault ho'
  | resolved hres he =>
    obtain ⟨o', ho', htally⟩ := (hR _ _ hst _).1 _ he
    cases htally with
    | resolved => exact .resolved hres ho'
    | suspended => cases hres
  | suspended he _ ih =>
    obtain ⟨o', ho', htally⟩ := (hR _ _ hst _).1 _ he
    cases htally with
    | resolved hres => cases hres
    | suspended hw hR' =>
      rw [hw]
      exact .suspended ho' (ih hR')

lemma shows_singleton {x : Ending} : Shows g s [w] [x] ↔ EndsAs g w s x := by
  constructor
  · intro h
    cases h with
    | fault he => exact ⟨_, he, rfl⟩
    | resolved _ he => exact ⟨_, he, rfl⟩
    | suspended he _ => exact ⟨_, he, rfl⟩
  · rintro ⟨o, ho, rfl⟩
    rcases o with f | (⟨v, pos⟩ | ⟨e, pos⟩ | ⟨p, pos, stack⟩)
    · exact .fault ho
    · exact .resolved rfl ho
    · exact .resolved rfl ho
    · exact .suspended ho .nil

namespace Alike

lemma of_bisimulation (hR : ∀ s t, R s t → ∀ w, Corresponds R (Ends g w s) (Ends g w t))
    (hst : R s t) : Alike g s t :=
  fun _ _ => ⟨.transfer hR hst, .transfer (fun s t h w => (hR t s h w).flip) hst⟩

lemma trans (h : Alike g s t) (h' : Alike g t u) : Alike g s u :=
  fun ws xs => (h ws xs).trans (h' ws xs)

lemma symm (h : Alike g s t) : Alike g t s := fun ws xs => (h ws xs).symm

lemma endsAs_iff {x : Ending} (h : Alike g s t) : EndsAs g w s x ↔ EndsAs g w t x := by
  rw [← shows_singleton, ← shows_singleton, h]

lemma of_reaches (h : ∀ w, Reaches g w s t) : Alike g s t := by
  refine of_bisimulation (R := fun s t => ∀ w o, Ends g w s o ↔ Ends g w t o) ?_
    fun w _ => (h w).ends_iff
  intro s t hst w
  rw [funext fun o => propext (hst w o)]
  exact .refl fun _ _ _ => Iff.rfl

lemma of_steps {s' t' : State κ} (hs : ∀ w, Steps g w s s') (ht : ∀ w, Steps g w t t')
    (h : Alike g s' t') : Alike g s t := by
  have hs' : Alike g s s' := of_reaches fun w => .single (hs w)
  have ht' : Alike g t t' := of_reaches fun w => .single (ht w)
  exact (hs'.trans h).trans ht'.symm

end Alike

end ResumableParsing
