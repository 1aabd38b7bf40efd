import ResumableParsing.Session
import ResumableParsing.Proofs.Order
import ResumableParsing.Proofs.Resumption

/-! What a session is after some input is what one run over all of it comes to, with the window that
this end still needs. -/

namespace ResumableParsing

variable {κ : Type} {g : Grammar κ} {w : Window} {p : Parser κ}

lemma Outcome.resolved_or_needsMore (o : Outcome κ) :
    o.resolved ∨ ∃ q pos stack, o = .needsMore q pos stack := by
  cases o <;> simp [Outcome.resolved]

namespace Session

def Starts (g : Grammar κ) (p : Parser κ) (r : Except Fault (Session κ)) : Prop :=
  ∃ fuel, start g fuel p = some r

def Provides (g : Grammar κ) (s : Session κ) (chunk : Value) (r : Except Fault (Session κ)) : Prop :=
  ∃ fuel events, s.provide g fuel chunk = some ⟨events, r⟩

def Finishes (g : Grammar κ) (s : Session κ) (r : Except Problem Value) : Prop :=
  ∃ fuel events, s.finish g fuel = some ⟨events, r⟩

/-- The index is the input that was taken; what a resolved session discards is no part of it. -/
inductive Reached (g : Grammar κ) (p : Parser κ) : List Value → Session κ → Prop
  | start {s} : Starts g p (.ok s) → Reached g p [] s
  | provide {xs s chunk ys t} : Reached g p xs s → s.outcome.resolved = false →
      chunk.elements = .ok ys → s.Provides g chunk (.ok t) → Reached g p (xs ++ ys) t
  | discard {xs s chunk t} : Reached g p xs s → s.outcome.resolved →
      s.Provides g chunk (.ok t) → Reached g p xs t

def verdict : Except Fault (Outcome κ) → Except Problem Value
  | .error f => .error (.fault f)
  | .ok (.matched v _) => .ok v
  | .ok (.failed e _) => .error (.failure e)
  | .ok (.needsMore _ pos _) =>
    .error (.failure ⟨pos, .expected ["more input"] (.str endOfInputText)⟩)

@[simp] lemma settle_result (w : Window) (o : Outcome κ) :
    (settle w o).result = ⟨o, w.release o.needed⟩ := by
  cases o <;> rfl

lemma conclude_result (o : Outcome κ) : (conclude o).result = verdict (.ok o) := by
  cases o <;> rfl

variable {s t : Session κ} {chunk : Value} {xs ys : List Value}
variable {r : Except Fault (Session κ)} {v : Except Problem Value}

lemma starts_iff : Starts g p r ↔
    ∃ e, Ends g (.onto []) (.run p 0 []) e ∧ r = e.map fun o => (settle (.onto []) o).result := by
  simp only [Starts, start, Option.map_eq_some_iff, Ends, Window.onto_nil, settle_result,
    Window.empty_release]
  constructor
  · rintro ⟨fuel, e, he, rfl⟩
    exact ⟨e, ⟨fuel, he⟩, rfl⟩
  · rintro ⟨e, ⟨fuel, he⟩, rfl⟩
    exact ⟨fuel, e, he, rfl⟩

lemma provide_of_resolved (hs : s.outcome.resolved) (fuel : ℕ) :
    s.provide g fuel chunk = some ⟨[.discarded s.outcome.position], .ok s⟩ := by
  unfold provide
  split
  · next ho => simp [ho, Outcome.resolved] at hs
  · rfl

lemma finish_of_resolved (hs : s.outcome.resolved) (fuel : ℕ) :
    s.finish g fuel = some (conclude s.outcome) := by
  unfold finish
  split
  · next ho => simp [ho, Outcome.resolved] at hs
  · rfl

lemma provides_of_resolved (hs : s.outcome.resolved) : s.Provides g chunk r ↔ r = .ok s := by
  simp [Provides, provide_of_resolved hs, eq_comm]

lemma provides_of_needsMore {q : Parser κ} {pos : Int} {stack : Stack κ}
    (hs : s.outcome = .needsMore q pos stack) (hw : s.window.closed = false)
    (hc : chunk.elements = .ok xs) : s.Provides g chunk r ↔
      ∃ e, Ends g (s.window.append xs) (.run q pos stack) e ∧
        r = e.map fun o => (settle (s.window.append xs) o).result := by
  simp only [Provides, provide, hs, Window.extend_eq hw hc, Option.map_eq_some_iff, Ends]
  constructor
  · rintro ⟨fuel, events, e, he, hr⟩
    refine ⟨e, ⟨fuel, he⟩, ?_⟩
    cases e <;> simp_all [Except.map]
  · rintro ⟨e, ⟨fuel, he⟩, rfl⟩
    cases e with
    | error f => exact ⟨fuel, _, _, he, rfl⟩
    | ok o => exact ⟨fuel, _, _, he, rfl⟩

lemma finishes_of_resolved (hs : s.outcome.resolved) :
    s.Finishes g v ↔ v = verdict (.ok s.outcome) := by
  simp only [Finishes, finish_of_resolved hs, ← conclude_result, Option.some.injEq]
  exact ⟨fun ⟨_, _, h⟩ => by rw [h], fun h => ⟨0, _, by rw [h]⟩⟩

lemma finishes_of_needsMore {q : Parser κ} {pos : Int} {stack : Stack κ}
    (hs : s.outcome = .needsMore q pos stack) : s.Finishes g v ↔
      ∃ e, Ends g s.window.close (.run q pos stack) e ∧ v = verdict e := by
  simp only [Finishes, finish, hs, Option.map_eq_some_iff, Ends]
  constructor
  · rintro ⟨fuel, events, e, he, hr⟩
    refine ⟨e, ⟨fuel, he⟩, ?_⟩
    cases e with
    | error f => simp_all [verdict]
    | ok o => exact conclude_result o ▸ (congrArg Logged.result hr).symm
  · rintro ⟨e, ⟨fuel, he⟩, rfl⟩
    cases e with
    | error f => exact ⟨fuel, _, _, he, rfl⟩
    | ok o => exact ⟨fuel, (conclude o).events, _, he, by rw [← conclude_result]⟩

structure Retains (g : Grammar κ) (p : Parser κ) (xs : List Value) (s : Session κ) : Prop where
  ends : Ends g (.onto xs) (.run p 0 []) (.ok s.outcome)
  window_eq : s.window = (Window.onto xs).release s.outcome.needed

namespace Retains

lemma of_ends {o : Outcome κ} (h : Ends g (.onto xs) (.run p 0 []) (.ok o)) :
    Retains g p xs (settle (.onto xs) o).result := by
  rw [settle_result]
  exact ⟨h, rfl⟩

lemma closed (h : Retains g p xs s) : s.window.closed = false := by
  rw [h.window_eq, Window.closed_release]
  rfl

lemma needed_nonneg (h : Retains g p xs s) : 0 ≤ s.outcome.needed :=
  h.ends.watermark_le_needed

lemma position_le (h : Retains g p xs s) : s.outcome.position ≤ (Window.onto xs).stop :=
  h.ends.position_le (State.ordered_run le_rfl (by simp)) le_rfl

lemma needed_le (h : Retains g p xs s) : s.outcome.needed ≤ (Window.onto xs).stop :=
  s.outcome.needed_le_position.trans h.position_le

lemma resumes_iff (h : Retains g p xs s) {w : Window} (hw : Window.Grows (.onto xs) w)
    {e : Except Fault (Outcome κ)} : Ends g w (.run p 0 []) e ↔ Resumes g w (.ok s.outcome) e :=
  h.ends.grows_iff hw le_rfl

lemma offset_eq (h : Retains g p xs s) : s.window.offset = s.outcome.needed := by
  have hn := h.needed_nonneg
  have hle := h.needed_le
  rw [h.window_eq, Window.offset_release]
  simp only [Window.kept, Window.onto, Window.stop] at hle ⊢
  omega

lemma append_eq (h : Retains g p xs s) (ys : List Value) :
    s.window.append ys = (Window.onto (xs ++ ys)).release s.outcome.needed := by
  rw [h.window_eq, Window.release_append h.needed_le, Window.append_onto]

lemma close_eq (h : Retains g p xs s) :
    s.window.close = (Window.onto xs).close.release s.outcome.needed := by
  rw [h.window_eq, Window.release_close]

variable {q : Parser κ} {pos : Int} {stack : Stack κ}

lemma ends_iff (h : Retains g p xs s) (hs : s.outcome = .needsMore q pos stack) {w : Window}
    (hw : Window.Grows (.onto xs) w) {e : Except Fault (Outcome κ)} :
    Ends g (w.release s.outcome.needed) (.run q pos stack) e ↔ Ends g w (.run p 0 []) e := by
  rw [h.resumes_iff hw, hs]
  exact Ends.agreeFrom_iff Window.release_agreeFrom le_rfl

lemma provides_iff (h : Retains g p xs s) (hs : s.outcome = .needsMore q pos stack)
    (hc : chunk.elements = .ok ys) : s.Provides g chunk r ↔
      ∃ e, Ends g (.onto (xs ++ ys)) (.run p 0 []) e ∧
        r = e.map fun o => (settle (.onto (xs ++ ys)) o).result := by
  have hw : Window.Grows (.onto xs) (.onto (xs ++ ys)) := Window.grows_onto ys
  rw [provides_of_needsMore hs h.closed hc, h.append_eq ys]
  apply exists_congr
  intro e
  rw [h.ends_iff hs hw]
  apply and_congr_right
  intro he
  cases e with
  | error f => rfl
  | ok o =>
    -- letting go twice is letting go once, as the watermark only rises
    have hm : s.outcome.needed ≤ o.needed := by
      rw [hs]
      exact ((h.ends_iff hs hw).mpr he).watermark_le_needed
    simp only [Except.map, settle_result, Window.release_release, max_eq_right hm]

lemma finishes_iff (h : Retains g p xs s) : s.Finishes g v ↔
    ∃ e, Ends g (Window.onto xs).close (.run p 0 []) e ∧ v = verdict e := by
  have hw : Window.Grows (.onto xs) (Window.onto xs).close := Window.grows_close rfl
  rcases s.outcome.resolved_or_needsMore with hs | ⟨q, pos, stack, hs⟩
  · rw [finishes_of_resolved hs]
    simp only [h.resumes_iff hw, resumes_of_resolved hs, exists_eq_left]
  · rw [finishes_of_needsMore hs, h.close_eq]
    simp only [h.ends_iff hs hw]

end Retains

lemma Retains.of_provides (h : Retains g p xs s) (hs : s.outcome.resolved = false)
    (hc : chunk.elements = .ok ys) (ht : s.Provides g chunk (.ok t)) :
    Retains g p (xs ++ ys) t := by
  rcases s.outcome.resolved_or_needsMore with hs' | ⟨q, pos, stack, hs'⟩
  · simp [hs] at hs'
  · obtain ⟨e, he, hr⟩ := (h.provides_iff hs' hc).mp ht
    cases e with
    | error f => cases hr
    | ok o =>
      cases hr
      exact .of_ends he

lemma Reached.retains (h : Reached g p xs s) : Retains g p xs s := by
  induction h with
  | start hs =>
    obtain ⟨e, he, hr⟩ := starts_iff.mp hs
    cases e with
    | error f => cases hr
    | ok o =>
      cases hr
      exact .of_ends he
  | provide _ hs hc ht ih => exact ih.of_provides hs hc ht
  | discard _ hs ht ih =>
    cases (provides_of_resolved hs).mp ht
    exact ih

end Session

end ResumableParsing
