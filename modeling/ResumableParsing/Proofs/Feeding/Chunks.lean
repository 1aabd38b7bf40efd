import ResumableParsing.Parser.Text
import ResumableParsing.Proofs.Feeding

namespace ResumableParsing

variable {κ : Type} {g : Grammar κ} {p : Parser κ} {xs : List Value}
variable {parts : List (List Value)} {e : Except Fault (Outcome κ)} {v : Except Problem Value}

namespace Session

inductive Concludes (g : Grammar κ) :
    Except Fault (Session κ) → List Value → Except Problem Value → Prop
  | fault {f chunks} : Concludes g (.error f) chunks (.error (.fault f))
  | finish {s v} : s.Finishes g v → Concludes g (.ok s) [] v
  | provide {s chunk r chunks v} : s.Provides g chunk r → Concludes g r chunks v →
      Concludes g (.ok s) (chunk :: chunks) v

variable {s : Session κ} {chunk : Value} {chunks : List Value}

lemma concludes_error {f : Fault} :
    Concludes g (.error f) chunks v ↔ v = .error (.fault f) :=
  ⟨fun h => by cases h; rfl, fun h => h ▸ .fault⟩

lemma concludes_nil : Concludes g (.ok s) [] v ↔ s.Finishes g v :=
  ⟨fun h => by cases h; assumption, .finish⟩

lemma concludes_cons : Concludes g (.ok s) (chunk :: chunks) v ↔
    ∃ r, s.Provides g chunk r ∧ Concludes g r chunks v :=
  ⟨fun h => by cases h; exact ⟨_, ‹_›, ‹_›⟩, fun ⟨_, hp, hc⟩ => .provide hp hc⟩

lemma concludes_of_resolved (hs : s.outcome.resolved) :
    Concludes g (.ok s) chunks v ↔ v = verdict (.ok s.outcome) := by
  induction chunks with
  | nil => rw [concludes_nil, finishes_of_resolved hs]
  | cons chunk chunks ih =>
    simp only [concludes_cons, provides_of_resolved hs, exists_eq_left, ih]

end Session

open Session

lemma Window.grows_whole (ys : List Value) :
    Window.Grows (.onto xs) (Window.onto (xs ++ ys)).close :=
  (Window.grows_onto ys).trans (Window.grows_close rfl)

lemma Ends.concludes_of_error {f : Fault} (h : Ends g (.onto xs) (.run p 0 []) (.error f))
    (ys chunks : List Value) : Concludes g (.error f) chunks v ↔
      ∃ e, Ends g (Window.onto (xs ++ ys)).close (.run p 0 []) e ∧ v = verdict e := by
  simp only [concludes_error, h.grows_iff (Window.grows_whole ys) le_rfl, Resumes, exists_eq_left]
  rfl

lemma Session.Retains.concludes_of_resolved {s : Session κ} (h : Retains g p xs s)
    (hs : s.outcome.resolved) (ys chunks : List Value) : Concludes g (.ok s) chunks v ↔
      ∃ e, Ends g (Window.onto (xs ++ ys)).close (.run p 0 []) e ∧ v = verdict e := by
  simp only [Session.concludes_of_resolved hs, h.resumes_iff (Window.grows_whole ys),
    resumes_of_resolved hs, exists_eq_left]

lemma exists_concludes_iff {ys chunks : List Value}
    (h : ∀ e, Ends g (.onto xs) (.run p 0 []) e →
      (Concludes g (e.map fun o => (settle (.onto xs) o).result) chunks v ↔
        ∃ e', Ends g (Window.onto (xs ++ ys)).close (.run p 0 []) e' ∧ v = verdict e')) :
    (∃ r, (∃ e, Ends g (.onto xs) (.run p 0 []) e ∧
        r = e.map fun o => (settle (.onto xs) o).result) ∧ Concludes g r chunks v) ↔
      ∃ e', Ends g (Window.onto (xs ++ ys)).close (.run p 0 []) e' ∧ v = verdict e' := by
  constructor
  · rintro ⟨r, ⟨e, he, rfl⟩, hv⟩
    exact (h e he).mp hv
  · rintro ⟨e', he', hv⟩
    obtain ⟨e, he, _⟩ := Ends.exists_resumes (Window.grows_whole ys) le_rfl he'
    exact ⟨_, ⟨e, he, rfl⟩, (h e he).mpr ⟨e', he', hv⟩⟩

lemma Session.Retains.concludes_iff {s : Session κ} {chunks : List Value} (h : Retains g p xs s)
    (hc : chunks.map Value.elements = parts.map .ok) : Concludes g (.ok s) chunks v ↔
      ∃ e, Ends g (Window.onto (xs ++ parts.flatten)).close (.run p 0 []) e ∧ v = verdict e := by
  induction chunks generalizing xs parts s with
  | nil =>
    obtain rfl : parts = [] := by simpa using hc.symm
    rw [concludes_nil, h.finishes_iff, List.flatten_nil, List.append_nil]
  | cons chunk chunks ih =>
    obtain ⟨ys, parts, rfl, hy, hc⟩ : ∃ ys rest, parts = ys :: rest ∧
        chunk.elements = .ok ys ∧ chunks.map Value.elements = rest.map .ok := by
      cases parts <;> simp_all
    rcases s.outcome.resolved_or_needsMore with hs | ⟨q, pos, stack, hs⟩
    · exact h.concludes_of_resolved hs _ _
    -- the chunk's call is determined by the run over the input up to it, also where that faults
    rw [concludes_cons, List.flatten_cons, ← List.append_assoc]
    simp only [h.provides_iff hs hy]
    apply exists_concludes_iff
    intro e he
    cases e with
    | error f => exact he.concludes_of_error _ _
    | ok o => exact ih (.of_ends he) hc

lemma Ends.concludes_iff {chunks : List Value} (h : Ends g (.onto xs) (.run p 0 []) e)
    (hc : chunks.map Value.elements = parts.map .ok) :
    Concludes g (e.map fun o => (settle (.onto xs) o).result) chunks v ↔
      ∃ e', Ends g (Window.onto (xs ++ parts.flatten)).close (.run p 0 []) e' ∧ v = verdict e' := by
  cases e with
  | error f => exact h.concludes_of_error _ _
  | ok o => exact (Retains.of_ends h).concludes_iff hc

def Session.Gives (g : Grammar κ) (p : Parser κ) (chunks : List Value) (v : Except Problem Value) :
    Prop :=
  ∃ r, Starts g p r ∧ Concludes g r chunks v

lemma Session.gives_iff {chunks : List Value} (hc : chunks.map Value.elements = parts.map .ok) :
    Gives g p chunks v ↔
      ∃ e, Ends g (Window.onto parts.flatten).close (.run p 0 []) e ∧ v = verdict e := by
  simp only [Gives, starts_iff]
  exact exists_concludes_iff fun _ he => he.concludes_iff hc

theorem concludes_iff_whole_run (g : Grammar κ) (p : Parser κ) {chunks : List Value}
    {parts : List (List Value)} (hc : chunks.map Value.elements = parts.map .ok)
    (v : Except Problem Value) :
    (∃ r, Starts g p r ∧ Concludes g r chunks v) ↔
      ∃ e, Ends g ⟨parts.flatten.toArray, 0, true⟩ (.run p 0 []) e ∧ v = verdict e :=
  gives_iff hc

theorem concludes_rewinding :
    [Value.str "a", .tuple [], .str "bc"].map Value.elements =
        [[.char 'a'], [], [.char 'b', .char 'c']].map .ok ∧
      ∃ r, Starts (κ := Empty) Empty.elim
          (.choice (.attempt (.sequence [.character (.str "a"), .character (.str "b"),
            .character (.str "b")])) [.sequence [.character (.str "a"), .character (.str "b")]]) r ∧
        Concludes Empty.elim r [.str "a", .tuple [], .str "bc"] (.ok (.str "b")) := by
  have hc : [Value.str "a", .tuple [], .str "bc"].map Value.elements =
      [[.char 'a'], [], [.char 'b', .char 'c']].map .ok := rfl
  exact ⟨hc, (concludes_iff_whole_run _ _ hc _).mpr ⟨.ok (.matched (.str "b") 2), ⟨20, rfl⟩, rfl⟩⟩

def Parser.Runs (g : Grammar κ) (p : Parser κ) (input : Value) (v : Except Problem Value) : Prop :=
  ∃ fuel events, p.run g fuel input = some ⟨events, v⟩

lemma execute_map_mono {α : Type} {f : Except Fault (Outcome κ) → α} {w : Window} {t : State κ}
    {n m : ℕ} {a : α} (h : (execute g w n t).map f = some a) (hn : n ≤ m) :
    (execute g w m t).map f = some a := by
  obtain ⟨e, he, rfl⟩ := Option.map_eq_some_iff.mp h
  rw [execute_mono he hn, Option.map_some]

namespace Session

variable {s : Session κ} {chunk : Value} {n m : ℕ}

lemma start_mono {r : Except Fault (Session κ)} (h : start g n p = some r) (hn : n ≤ m) :
    start g m p = some r :=
  execute_map_mono h hn

lemma provide_mono {r : Logged (Except Fault (Session κ))} (h : s.provide g n chunk = some r)
    (hn : n ≤ m) : s.provide g m chunk = some r := by
  rcases s.outcome.resolved_or_needsMore with hs | ⟨q, pos, stack, hs⟩
  · rwa [provide_of_resolved hs] at h ⊢
  · simp only [provide, hs] at h ⊢
    cases hw : s.window.extend chunk with
    | error f => simpa only [hw] using h
    | ok w =>
      rw [hw] at h
      exact execute_map_mono h hn

lemma finish_mono {r : Logged (Except Problem Value)} (h : s.finish g n = some r) (hn : n ≤ m) :
    s.finish g m = some r := by
  rcases s.outcome.resolved_or_needsMore with hs | ⟨q, pos, stack, hs⟩
  · rwa [finish_of_resolved hs] at h ⊢
  · simp only [finish, hs] at h ⊢
    exact execute_map_mono h hn

end Session

variable {input : Value}

lemma Parser.Runs.gives (h : p.Runs g input v) : Gives g p [input] v := by
  obtain ⟨fuel, events, h⟩ := h
  obtain ⟨begun, hbegun, h⟩ := Option.bind_eq_some_iff.mp h
  refine ⟨begun, ⟨fuel, hbegun⟩, ?_⟩
  cases begun with
  | error f =>
    cases h
    exact .fault
  | ok fresh =>
    obtain ⟨⟨events', fed⟩, hfed, h⟩ := Option.bind_eq_some_iff.mp h
    refine .provide ⟨fuel, events', hfed⟩ ?_
    cases fed with
    | error f =>
      cases h
      exact .fault
    | ok s =>
      obtain ⟨ending, hending, h⟩ := Option.map_eq_some_iff.mp h
      cases h
      exact .finish ⟨fuel, ending.events, hending⟩

lemma Session.Gives.runs (h : Gives g p [input] v) : p.Runs g input v := by
  obtain ⟨begun, ⟨n, hbegun⟩, h⟩ := h
  cases h with
  | fault => exact ⟨n, [], by simp only [Parser.run, hbegun, Option.bind_some]⟩
  | @provide fresh _ fed _ _ hfed h =>
    obtain ⟨n', events, hfed⟩ := hfed
    cases h with
    | fault =>
      refine ⟨max n n', events, ?_⟩
      simp only [Parser.run, start_mono hbegun (le_max_left n n'), Option.bind_some,
        provide_mono hfed (le_max_right n n')]
    | finish hend =>
      obtain ⟨m, events', hend⟩ := hend
      -- one amount of fuel that does for all three calls
      refine ⟨max (max n n') m, events ++ events', ?_⟩
      have hle : n ≤ max (max n n') m := by omega
      have hle' : n' ≤ max (max n n') m := by omega
      simp only [Parser.run, start_mono hbegun hle, provide_mono hfed hle',
        finish_mono hend (le_max_right _ m), Option.bind_some, Option.map_some]

theorem Parser.runs_iff_gives : p.Runs g input v ↔ Gives g p [input] v :=
  ⟨Runs.gives, Gives.runs⟩

theorem Parser.runs_iff_ends (hc : input.elements = .ok xs) : p.Runs g input v ↔
    ∃ e, Ends g ⟨xs.toArray, 0, true⟩ (.run p 0 []) e ∧ v = verdict e := by
  have hparts : [input].map Value.elements = [xs].map .ok := by simp [hc]
  rw [runs_iff_gives, gives_iff hparts, List.flatten_singleton]
  rfl

end ResumableParsing
