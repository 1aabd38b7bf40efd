import ResumableParsing.Proofs.Meaning.Adequacy

/-! What can be seen of the end of a run. A suspension shows where it waits and how far it may go
back, but not the parser that waits nor its frames. -/

namespace ResumableParsing

variable {κ : Type}

inductive Ending where
  | matched (value : Value) (pos : Int)
  | failed (failure : Failure) (pos : Int)
  | suspended (pos watermark : Int)
  | fault (fault : Fault)

def ending : Except Fault (Outcome κ) → Ending
  | .ok (.matched v pos) => .matched v pos
  | .ok (.failed e pos) => .failed e pos
  | .ok (.needsMore _ pos stack) => .suspended pos (stack.watermark pos)
  | .error f => .fault f

def EndsAs (g : Grammar κ) (w : Window) (s : State κ) (x : Ending) : Prop :=
  ∃ o, Ends g w s o ∧ ending o = x

/-- Of the frames, only those that go back show under a stack. -/
def Result.bare : Result κ → Result κ
  | suspended p pos frames => suspended p pos (frames.filter (·.rewind?.isSome))
  | r => r

def EvalsAs (g : Grammar κ) (w : Window) (p : Parser κ) (pos : Int) (x : Result κ) : Prop :=
  ∃ r, Eval g w (.parser p pos) r ∧ r.bare = x

variable {g : Grammar κ} {w : Window} {p q : Parser κ} {pos : Int} {r r' : Result κ}
variable {frame : Frame κ} {frames stack : Stack κ} {x : Ending}

lemma Stack.watermark_filter : Stack.watermark (frames.filter (·.rewind?.isSome) ++ stack) pos =
    Stack.watermark (frames ++ stack) pos := by
  have hrewinds : (frames.filter (·.rewind?.isSome)).filterMap Frame.rewind? =
      frames.filterMap Frame.rewind? := by
    rw [List.filterMap_filter]
    congr 1
    funext frame
    cases frame.rewind? <;> simp
  rw [Stack.watermark, Stack.watermark, List.filterMap_append, List.filterMap_append, hrewinds]

lemma Result.bare_within (h : frame.rewind? = none) : (r.within frame).bare = r.bare := by
  cases r with
  | suspended p pos frames => simp [within, bare, List.filter_append, h]
  | matched v pos | failed e pos | fault f => rfl

lemma Result.bare_eq_failed {e : Failure} : r.bare = .failed e pos ↔ r = .failed e pos := by
  cases r <;> simp [bare]

lemma evalsAs_failed {e : Failure} {pos' : Int} :
    EvalsAs g w p pos (.failed e pos') ↔ Eval g w (.parser p pos) (.failed e pos') := by
  simp only [EvalsAs, Result.bare_eq_failed, exists_eq_right]

@[simp] lemma Result.failsAt_bare : r.bare.FailsAt pos ↔ r.FailsAt pos := by
  cases r <;> rfl

lemma Result.bare_cases (h : r.bare = r'.bare) : r = r' ∨ ∃ q pos frames frames',
    r = .suspended q pos frames ∧ r' = .suspended q pos frames' ∧
      frames.filter (·.rewind?.isSome) = frames'.filter (·.rewind?.isSome) := by
  cases r <;> cases r' <;> simp_all [bare]

lemma Eval.ends_iff_of_suspended {o : Except Fault (Outcome κ)} {pos' : Int}
    (h : Eval g w (.parser p pos) (.suspended q pos' frames)) :
    Ends g w (.run p pos stack) o ↔ o = .ok (.needsMore q pos' (frames ++ stack)) := by
  obtain ⟨t, ht, hstep⟩ := h.arrives stack
  exact (Reaches.ends_iff ht).trans (Ends.iff_of_halt hstep)

lemma Eval.endsAs_iff (hr : Eval g w (.parser p pos) r) (hr' : Eval g w (.parser q pos) r')
    (h : r.bare = r'.bare) :
    EndsAs g w (.run p pos stack) x ↔ EndsAs g w (.run q pos stack) x := by
  unfold EndsAs
  rcases Result.bare_cases h with rfl | ⟨_, _, frames, frames', rfl, rfl, hframes⟩
  · -- one result, so the frames of the stack are fed with the same
    have hends (o : Except Fault (Outcome κ)) :
        Ends g w (.run p pos stack) o ↔ Ends g w (.run q pos stack) o :=
      (hr.arrives stack).ends_iff.trans (hr'.arrives stack).ends_iff.symm
    simp only [hends]
  · simp only [hr.ends_iff_of_suspended, hr'.ends_iff_of_suspended, exists_eq_left, ending]
    rw [← Stack.watermark_filter, hframes, Stack.watermark_filter]

lemma endsAs_matched {s : State κ} {v : Value} :
    EndsAs g w s (.matched v pos) ↔ Ends g w s (.ok (.matched v pos)) := by
  constructor
  · rintro ⟨o, ho, heq⟩
    rcases o with f | (⟨v', pos'⟩ | ⟨e, pos'⟩ | ⟨p', pos', stack⟩) <;> cases heq
    exact ho
  · intro h
    exact ⟨_, h, rfl⟩

lemma EndsAs.of_evalsAs (h : ∀ r, Eval g w (.parser p pos) r → EvalsAs g w q pos r.bare)
    (hx : EndsAs g w (.run p pos stack) x) : EndsAs g w (.run q pos stack) x := by
  obtain ⟨o, ho, rfl⟩ := hx
  have hrun : Ends g w ((Task.parser p pos).state stack) o := ho
  obtain ⟨r, hr⟩ := hrun.exists_eval
  obtain ⟨r', hr', hbare⟩ := h r hr
  exact (hr.endsAs_iff hr' hbare.symm).mp ⟨o, ho, rfl⟩

theorem endsAs_congr (h : ∀ y, EvalsAs g w p pos y ↔ EvalsAs g w q pos y) :
    EndsAs g w (.run p pos stack) x ↔ EndsAs g w (.run q pos stack) x := by
  constructor
  · apply EndsAs.of_evalsAs
    intro r hr
    exact (h r.bare).mp ⟨r, hr, rfl⟩
  · apply EndsAs.of_evalsAs
    intro r hr
    exact (h r.bare).mpr ⟨r, hr, rfl⟩

end ResumableParsing
