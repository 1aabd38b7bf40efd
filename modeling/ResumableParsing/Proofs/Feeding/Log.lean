import ResumableParsing.Parser.Text
import ResumableParsing.Proofs.Feeding.Retention

namespace ResumableParsing

variable {κ : Type} {g : Grammar κ} {w : Window} {p : Parser κ}

namespace Event

def providedCount : Event → Int
  | provided count _ => count
  | _ => 0

def releasedCount : Event → Int
  | released count => count
  | _ => 0

end Event

inductive Entry (count : ℕ) (old new : Outcome κ) : List Event → Prop
  | resolved : new.resolved →
      Entry count old new [.provided count old.position, .resolved new.position]
  | moved : new.resolved = false → old.needed < new.needed → Entry count old new
      [.provided count old.position, .released (new.needed - old.needed), .suspended new.position]
  | stayed : new.resolved = false → old.needed = new.needed →
      Entry count old new [.provided count old.position, .suspended new.position]

namespace Entry

variable {count : ℕ} {old new : Outcome κ} {events : List Event}

lemma provided_sum (h : Entry count old new events) :
    (events.map Event.providedCount).sum = count := by
  cases h <;> simp [Event.providedCount]

lemma released_sum (h : Entry count old new events) (hnew : new.resolved = false) :
    (events.map Event.releasedCount).sum = new.needed - old.needed := by
  cases h with
  | resolved hres => simp [hnew] at hres
  | moved => simp [Event.releasedCount]
  | stayed _ heq => simp [Event.releasedCount, heq]

end Entry

namespace Session

inductive Recorded (g : Grammar κ) (p : Parser κ) : List Event → Session κ → Prop
  | start {s} : Starts g p (.ok s) → Recorded g p [] s
  | provide {log s fuel chunk events t} : Recorded g p log s →
      s.provide g fuel chunk = some ⟨events, .ok t⟩ → Recorded g p (log ++ events) t

variable {s t : Session κ} {chunk : Value} {xs ys : List Value} {log events : List Event}
variable {fuel : ℕ} {o : Outcome κ}

lemma provide_events_of_resolved (hs : s.outcome.resolved)
    (h : s.provide g fuel chunk = some ⟨events, .ok t⟩) :
    events = [.discarded s.outcome.position] ∧ t = s := by
  rw [provide_of_resolved hs] at h
  cases h
  exact ⟨rfl, rfl⟩

lemma exists_settle_of_provide (hs : s.outcome.resolved = false) (hw : s.window.closed = false)
    (h : s.provide g fuel chunk = some ⟨events, .ok t⟩) :
    ∃ ys o, chunk.elements = .ok ys ∧ t = (settle (s.window.append ys) o).result ∧
      events = .provided ys.length s.outcome.position ::
        (settle (s.window.append ys) o).events := by
  obtain ⟨ys, hc⟩ := exists_elements_of_provides hs hw ⟨fuel, events, h⟩
  have hcount : (s.window.append ys).stop - s.window.stop = ys.length := by
    rw [Window.stop_append]
    omega
  rcases s.outcome.resolved_or_needsMore with hres | ⟨q, pos, stack, hout⟩
  · simp [hs] at hres
  · simp only [provide, hout, Window.extend_eq hw hc, Option.map_eq_some_iff, hcount] at h
    obtain ⟨e, -, he⟩ := h
    cases e with
    | error f => cases he
    | ok o =>
      cases he
      exact ⟨ys, o, hc, rfl, by rw [hout, Outcome.position]⟩

/-- The window starts at the old watermark, so what is let go of is how far the watermark moved. -/
lemma entry_settle {old : Outcome κ} (hold : w.offset = old.needed) (hle : old.needed ≤ o.needed)
    (hnew : (w.release o.needed).offset = o.needed) (count : ℕ) :
    Entry count old o (.provided count old.position :: (settle w o).events) := by
  cases o with
  | matched v pos | failed e pos => exact .resolved rfl
  | needsMore q pos stack =>
    have hneeded : (Outcome.needsMore q pos stack).needed = stack.watermark pos := rfl
    rw [hneeded] at hle hnew
    simp only [settle, hnew, hold]
    rcases hle.lt_or_eq with hlt | heq
    · rw [if_neg (not_le.mpr hlt)]
      exact .moved rfl hlt
    · rw [if_pos heq.ge]
      exact .stayed rfl heq

lemma Retains.entry (h : Retains g p xs s) (hs : s.outcome.resolved = false)
    (hp : s.provide g fuel chunk = some ⟨events, .ok t⟩) :
    ∃ ys, chunk.elements = .ok ys ∧ Retains g p (xs ++ ys) t ∧
      Entry ys.length s.outcome t.outcome events := by
  obtain ⟨ys, o, hc, rfl, rfl⟩ := exists_settle_of_provide hs h.closed hp
  have ht := h.of_provides hs hc ⟨fuel, _, hp⟩
  refine ⟨ys, hc, ht, ?_⟩
  rw [settle_result] at ht ⊢
  have hle : s.outcome.needed ≤ o.needed :=
    h.offset_eq ▸ h.offset_le_needed (Window.grows_onto ys) ht.ends
  have hold : (s.window.append ys).offset = s.outcome.needed := h.offset_eq
  exact entry_settle hold hle ht.offset_eq ys.length

namespace Recorded

lemma exists_retains (h : Recorded g p log s) : ∃ xs, Retains g p xs s := by
  induction h with
  | start hs => exact ⟨[], (Reached.start hs).retains⟩
  | @provide log s fuel chunk events t _ hp ih =>
    obtain ⟨xs, hs⟩ := ih
    obtain ⟨ys, ht, -⟩ := hs.provided ⟨fuel, events, hp⟩
    exact ⟨_, ht⟩

lemma provided_sum (h : Recorded g p log s) :
    (log.map Event.providedCount).sum = s.window.stop := by
  induction h with
  | start hs =>
    rw [(Reached.start hs).retains.stop_eq]
    rfl
  | @provide log s fuel chunk events t hlog hp ih =>
    rw [List.map_append, List.sum_append, ih]
    obtain ⟨xs, hr⟩ := hlog.exists_retains
    cases hs : s.outcome.resolved with
    | true =>
      obtain ⟨rfl, rfl⟩ := provide_events_of_resolved hs hp
      simp [Event.providedCount]
    | false =>
      obtain ⟨ys, -, ht, hentry⟩ := hr.entry hs hp
      rw [hentry.provided_sum, hr.stop_eq, ht.stop_eq, List.length_append, Nat.cast_add]

lemma released_sum (h : Recorded g p log s) (hs : s.outcome.resolved = false) :
    (log.map Event.releasedCount).sum = s.outcome.needed := by
  induction h with
  | start hstart =>
    have hr := (Reached.start hstart).retains
    exact (hr.needed_le.antisymm hr.needed_nonneg).symm
  | @provide log s fuel chunk events t hlog hp ih =>
    rw [List.map_append, List.sum_append]
    obtain ⟨xs, hr⟩ := hlog.exists_retains
    cases hs' : s.outcome.resolved with
    | true =>
      obtain ⟨-, rfl⟩ := provide_events_of_resolved hs' hp
      simp [hs] at hs'
    | false =>
      obtain ⟨ys, -, -, hentry⟩ := hr.entry hs' hp
      rw [ih hs', hentry.released_sum hs]
      omega

end Recorded

theorem Recorded.accounts_for_input (h : Recorded g p log s) :
    (∀ fuel chunk events t, s.provide g fuel chunk = some ⟨events, .ok t⟩ →
        (s.outcome.resolved → events = [.discarded s.outcome.position] ∧ t = s) ∧
        (s.outcome.resolved = false → ∃ ys, chunk.elements = .ok ys ∧
          Entry ys.length s.outcome t.outcome events)) ∧
      (∀ n k pos : Int, [Event.provided n pos, .released k, .suspended pos, .resolved pos,
          .discarded pos].map Event.text =
        ["provided " ++ toString n ++ " elements, resuming at " ++ toString pos,
          "released " ++ toString k ++ " buffered elements", "suspended at " ++ toString pos,
          "resolved at " ++ toString pos,
          "session already resolved at " ++ toString pos ++ ", discarding input"]) ∧
      (s.outcome.resolved = false → (log.map Event.providedCount).sum = s.window.stop ∧
        (log.map Event.releasedCount).sum = s.window.offset) := by
  obtain ⟨xs, hr⟩ := h.exists_retains
  refine ⟨?_, fun _ _ _ => rfl, ?_⟩
  · intro fuel chunk events t hp
    refine ⟨fun hs => provide_events_of_resolved hs hp, ?_⟩
    intro hs
    obtain ⟨ys, hc, -, hentry⟩ := hr.entry hs hp
    exact ⟨ys, hc, hentry⟩
  · intro hs
    rw [hr.offset_eq]
    exact ⟨h.provided_sum, h.released_sum hs⟩

theorem Recorded.accounts_for_input_attempted : ∃ (log : List Event) (s : Session Empty),
    Recorded Empty.elim (.next (.character (.str "a"))
      (.attempt (.sequence [.character (.str "b"), .character (.str "c")]))) log s ∧
    log.map Event.text = ["provided 2 elements, resuming at 0", "released 1 buffered elements",
      "suspended at 2", "provided 0 elements, resuming at 2", "suspended at 2"] ∧
    (log.map Event.providedCount).sum = s.window.stop ∧
    (log.map Event.releasedCount).sum = s.window.offset ∧
    s.window.offset = 1 ∧ s.window.stop = 2 := by
  let p : Parser Empty := .next (.character (.str "a"))
    (.attempt (.sequence [.character (.str "b"), .character (.str "c")]))
  let s₀ : Session Empty := ⟨.needsMore (.character (.str "a")) 0
    [.bind fun _ => .attempt (.sequence [.character (.str "b"), .character (.str "c")])], .empty⟩
  let s : Session Empty := ⟨.needsMore (.character (.str "c")) 2 [.sequence [], .attempt 1],
    ⟨#[.char 'b'], 1, false⟩⟩
  have hs₀ : Recorded Empty.elim p [] s₀ := .start ⟨9, rfl⟩
  have hs : s₀.provide Empty.elim 15 (.str "ab") =
      some ⟨[.provided 2 0, .released 1, .suspended 2], .ok s⟩ := rfl
  have hempty : s.provide Empty.elim 15 (.str "") =
      some ⟨[.provided 0 2, .suspended 2], .ok s⟩ := rfl
  have hlog : Recorded Empty.elim p _ s := (hs₀.provide hs).provide hempty
  obtain ⟨-, -, hsums⟩ := hlog.accounts_for_input
  obtain ⟨hprovided, hreleased⟩ := hsums rfl
  exact ⟨_, s, hlog, rfl, hprovided, hreleased, rfl, rfl⟩

end Session

end ResumableParsing
