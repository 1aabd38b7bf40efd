import ResumableParsing.Proofs.Behaviour
import ResumableParsing.Proofs.Meaning.Binding

/-! The laws of monads: the stacks on their two sides differ only in how the frames that bind are
grouped. -/

namespace ResumableParsing

variable {κ : Type} {g : Grammar κ} {w : Window} {stack stack' frames : Stack κ}
variable {frame : Frame κ} {next after : Value → Parser κ} {p : Parser κ} {pos : Int} {v : Value}
variable {e : Failure} {f : Fault} {r r' : Result κ} {o : Except Fault (Outcome κ)}

lemma unwinds_cons : Unwinds g w r (frame :: stack) o ↔
    ∃ r', Feeds g w frame r r' ∧ Unwinds g w r' stack o := by
  constructor
  · rintro (_ | ⟨hf, hu⟩)
    exact ⟨_, hf, hu⟩
  · rintro ⟨r', hf, hu⟩
    exact .cons hf hu

lemma unwinds_cons_eq : Unwinds g w r (frame :: stack) =
    fun o => ∃ r', Feeds g w frame r r' ∧ Unwinds g w r' stack o :=
  funext fun _ => propext unwinds_cons

lemma feeds_suspended :
    Feeds g w frame (.suspended p pos frames) r ↔ r = .suspended p pos (frames ++ [frame]) := by
  constructor
  · intro h
    cases h <;> rfl
  · rintro rfl
    exact .suspended

lemma unwinds_suspended : Unwinds g w (.suspended p pos frames) stack o ↔
    o = .ok (.needsMore p pos (frames ++ stack)) := by
  induction stack generalizing frames with
  | nil =>
    rw [List.append_nil]
    constructor
    · rintro ⟨⟩
      rfl
    · rintro rfl
      exact .nil
  | cons frame stack ih =>
    simp only [unwinds_cons, feeds_suspended, exists_eq_left, ih, List.append_assoc,
      List.singleton_append]

lemma feeds_bind_matched :
    Feeds g w (.bind next) (.matched v pos) r ↔ Eval g w (.parser (next v) pos) r := by
  constructor
  · rintro ⟨⟩
    assumption
  · exact .bind

lemma feeds_bind_failed : Feeds g w (.bind next) (.failed e pos) r ↔ r = .failed e pos := by
  constructor
  · rintro ⟨⟩
    rfl
  · rintro rfl
    exact .bind_failed

lemma feeds_fault : Feeds g w frame (.fault f) r ↔ r = .fault f := by
  constructor
  · intro h
    cases h <;> rfl
  · rintro rfl
    exact .fault

lemma Eval.bind_iff_feeds : Eval g w (.parser (.bind p next) pos) r ↔
    ∃ r', Eval g w (.parser p pos) r' ∧ Feeds g w (.bind next) r' r := by
  constructor
  · intro h
    rcases bind_iff.mp h with ⟨v, q, hp, hnext⟩ | ⟨r', hp, hn, rfl⟩
    · exact ⟨_, hp, .bind hnext⟩
    · refine ⟨r', hp, ?_⟩
      cases r' with
      | matched => exact absurd trivial hn
      | failed => exact .bind_failed
      | suspended => exact .suspended
      | fault => exact .fault
  · rintro ⟨r', hp, hf⟩
    cases r' with
    | matched v q => exact .bind hp (feeds_bind_matched.mp hf)
    | failed e q =>
      rw [feeds_bind_failed] at hf
      subst hf
      exact .bind_stop hp not_false
    | suspended q pos' frames =>
      rw [feeds_suspended] at hf
      subst hf
      exact .bind_stop hp not_false
    | fault f =>
      rw [feeds_fault] at hf
      subst hf
      exact .bind_stop hp not_false

def Result.IsSuspension : Result κ → Prop
  | suspended _ _ _ => True
  | _ => False

lemma feeds_bind_always (hr : ¬ r.IsSuspension) : Feeds g w (.bind .always) r r' ↔ r' = r := by
  cases r with
  | matched v pos =>
    rw [feeds_bind_matched]
    exact ⟨fun h => h.unique .always, fun h => h ▸ .always⟩
  | failed e pos => exact feeds_bind_failed
  | suspended => exact absurd trivial hr
  | fault f => exact feeds_fault

lemma feeds_bind_bind (hr : ¬ r.IsSuspension) :
    (∃ r₁, Feeds g w (.bind next) r r₁ ∧ Feeds g w (.bind after) r₁ r') ↔
      Feeds g w (.bind fun v => (next v).bind after) r r' := by
  cases r with
  | matched v pos => simp only [feeds_bind_matched, Eval.bind_iff_feeds]
  | failed e pos => simp only [feeds_bind_failed, exists_eq_left]
  | suspended => exact absurd trivial hr
  | fault f => simp only [feeds_fault, exists_eq_left]

lemma unwinds_bind_bind_eq (hr : ¬ r.IsSuspension) :
    Unwinds g w r (.bind next :: .bind after :: stack) = fun o =>
      ∃ r', Feeds g w (.bind fun v => (next v).bind after) r r' ∧ Unwinds g w r' stack o := by
  funext o
  simp only [unwinds_cons, ← feeds_bind_bind hr, eq_iff_iff]
  constructor
  · rintro ⟨r₁, hnext, r₂, hafter, hu⟩
    exact ⟨r₂, ⟨r₁, hnext, hafter⟩, hu⟩
  · rintro ⟨r₂, ⟨r₁, hnext, hafter⟩, hu⟩
    exact ⟨r₁, hnext, r₂, hafter, hu⟩

lemma ends_run_eq : Ends g w (.run p pos stack) =
    fun o => ∃ r, Eval g w (.parser p pos) r ∧ Unwinds g w r stack o := by
  funext o
  rw [eq_iff_iff]
  constructor
  · intro h
    have hrun : Ends g w ((Task.parser p pos).state stack) o := h
    obtain ⟨r, hr⟩ := hrun.exists_eval
    exact ⟨r, hr, (hr.arrives stack).ends_iff.mp h⟩
  · rintro ⟨r, hr, hu⟩
    exact (hr.arrives stack).ends_iff.mpr hu

/-- Frames that bind to `always` may stand in the first stack alone, and two frames that bind one
after the other may be one in the second. -/
inductive Regroups : Stack κ → Stack κ → Prop
  | nil : Regroups [] []
  | cons {frame : Frame κ} {s t : Stack κ} : Regroups s t → Regroups (frame :: s) (frame :: t)
  | always {s t : Stack κ} : Regroups s t → Regroups (.bind .always :: s) t
  | assoc {first second : Value → Parser κ} {s t : Stack κ} : Regroups s t →
      Regroups (.bind first :: .bind second :: s) (.bind (fun v => (first v).bind second) :: t)

inductive Regrouped : State κ → State κ → Prop
  | refl {s : State κ} : Regrouped s s
  | run {q : Parser κ} {start : Int} {s t : Stack κ} : Regroups s t →
      Regrouped (.run q start s) (.run q start t)

lemma Corresponds.exists_result {R : State κ → State κ → Prop} {F : Result κ → Prop}
    {A B : Result κ → Except Fault (Outcome κ) → Prop} (h : ∀ r, Corresponds R (A r) (B r)) :
    Corresponds R (fun o => ∃ r, F r ∧ A r o) (fun o => ∃ r, F r ∧ B r o) := by
  refine ⟨?_, ?_⟩
  · rintro o ⟨r, hr, ho⟩
    obtain ⟨o', ho', htally⟩ := (h r).1 o ho
    exact ⟨o', ⟨r, hr, ho'⟩, htally⟩
  · rintro o' ⟨r, hr, ho'⟩
    obtain ⟨o, ho, htally⟩ := (h r).2 o' ho'
    exact ⟨o, ⟨r, hr, ho⟩, htally⟩

namespace Regroups

lemma refl (stack : Stack κ) : Regroups stack stack := by
  induction stack with
  | nil => exact .nil
  | cons frame stack ih => exact .cons ih

lemma append_left (h : Regroups stack stack') (frames : Stack κ) :
    Regroups (frames ++ stack) (frames ++ stack') := by
  induction frames with
  | nil => exact h
  | cons frame frames ih => exact .cons ih

lemma watermark_eq (h : Regroups stack stack') (pos : Int) :
    stack.watermark pos = stack'.watermark pos := by
  have hrewinds : stack.filterMap Frame.rewind? = stack'.filterMap Frame.rewind? := by
    induction h with
    | nil => rfl
    | cons _ ih => rw [List.filterMap_cons, List.filterMap_cons, ih]
    | always _ ih | assoc _ ih => simp only [List.filterMap_cons, Frame.rewind?, ih]
  rw [Stack.watermark, Stack.watermark, hrewinds]

lemma corresponds_of_suspension (h : Regroups stack stack') (hr : r.IsSuspension) :
    Corresponds Regrouped (Unwinds g w r stack) (Unwinds g w r stack') := by
  cases r with
  | suspended p pos frames =>
    have hframes : Regroups (frames ++ stack) (frames ++ stack') := h.append_left frames
    have htally := Tallies.suspended (hframes.watermark_eq pos) (Regrouped.run (q := p) hframes)
    refine ⟨?_, ?_⟩
    · intro o ho
      rw [unwinds_suspended] at ho
      subst ho
      exact ⟨_, unwinds_suspended.mpr rfl, htally⟩
    · intro o ho
      rw [unwinds_suspended] at ho
      subst ho
      exact ⟨_, unwinds_suspended.mpr rfl, htally⟩
  | matched | failed | fault => exact hr.elim

lemma corresponds (h : Regroups stack stack') :
    Corresponds Regrouped (Unwinds g w r stack) (Unwinds g w r stack') := by
  induction h generalizing r with
  | nil => exact .refl fun _ => .refl
  | cons _ ih =>
    simp only [unwinds_cons_eq]
    exact .exists_result fun _ => ih
  | always h ih =>
    by_cases hr : r.IsSuspension
    · exact h.always.corresponds_of_suspension hr
    · simp only [unwinds_cons_eq, feeds_bind_always hr, exists_eq_left]
      exact ih
  | @assoc first second _ _ h ih =>
    by_cases hr : r.IsSuspension
    · exact h.assoc.corresponds_of_suspension hr
    · rw [unwinds_bind_bind_eq hr, unwinds_cons_eq]
      exact .exists_result fun _ => ih

end Regroups

lemma Regrouped.alike {s t : State κ} (h : Regrouped s t) : Alike g s t := by
  refine .of_bisimulation ?_ h
  rintro s t h w
  cases h with
  | refl => exact .refl fun _ => .refl
  | run h =>
    simp only [ends_run_eq]
    exact .exists_result fun _ => h.corresponds

theorem bind_laws (g : Grammar κ) (pos : Int) (stack : Stack κ) :
    (∀ v next, Alike g (.run (.bind (.always v) next) pos stack) (.run (next v) pos stack)) ∧
    (∀ p, Alike g (.run (.bind p .always) pos stack) (.run p pos stack)) ∧
    ∀ p next after, Alike g (.run (.bind (.bind p next) after) pos stack)
      (.run (.bind p fun v => .bind (next v) after) pos stack) := by
  refine ⟨?_, ?_, ?_⟩
  · intro v next
    exact .of_reaches fun w => .head rfl (.head rfl (.single rfl))
  · intro p
    have henter : Alike g (.run (.bind p .always) pos stack)
        (.run p pos (.bind .always :: stack)) := .of_reaches fun w => .single rfl
    exact henter.trans (Regrouped.run (Regroups.refl stack).always).alike
  · intro p next after
    have henter : Alike g (.run (.bind (.bind p next) after) pos stack)
        (.run p pos (.bind next :: .bind after :: stack)) :=
      .of_reaches fun w => .head rfl (.single rfl)
    have henter' : Alike g (.run (.bind p fun v => .bind (next v) after) pos stack)
        (.run p pos (.bind (fun v => .bind (next v) after) :: stack)) :=
      .of_reaches fun w => .single rfl
    exact (henter.trans (Regrouped.run (Regroups.refl stack).assoc).alike).trans henter'.symm

end ResumableParsing
