import ResumableParsing.Proofs.Behaviour.Lockstep
import ResumableParsing.Proofs.Meaning.Binding

namespace ResumableParsing

variable {κ : Type}

def Parser.bindAll : List (Parser κ) → (List Value → Value) → Parser κ
  | [], gather => always (gather [])
  | p :: parsers, gather => p.bind fun v => bindAll parsers fun vs => gather (v :: vs)

inductive MatchAll (g : Grammar κ) (w : Window) : List (Parser κ) → Int → List Value → Int → Prop
  | nil {pos} : MatchAll g w [] pos [] pos
  | cons {p parsers pos v pos' vs q} : Ends g w (.run p pos []) (.ok (.matched v pos')) →
      MatchAll g w parsers pos' vs q → MatchAll g w (p :: parsers) pos (v :: vs) q

def Ending.IsMatch : Ending → Prop
  | matched _ _ => True
  | _ => False

def StopsAs (g : Grammar κ) (w : Window) (parsers : List (Parser κ)) (pos : Int) (x : Ending) :
    Prop :=
  ¬ x.IsMatch ∧ ∃ before p after vs q, parsers = before ++ p :: after ∧
    MatchAll g w before pos vs q ∧ EndsAs g w (.run p q []) x

variable {g : Grammar κ} {w : Window} {p : Parser κ} {parsers others : List (Parser κ)}
variable {pos q : Int} {v : Value} {vs us : List Value} {x : Ending} {r : Result κ}

lemma matchAll_nil : MatchAll g w [] pos vs q ↔ vs = [] ∧ q = pos := by
  constructor
  · rintro ⟨⟩
    exact ⟨rfl, rfl⟩
  · rintro ⟨rfl, rfl⟩
    exact .nil

lemma matchAll_cons : MatchAll g w (p :: parsers) pos us q ↔ ∃ v pos' vs, us = v :: vs ∧
    Ends g w (.run p pos []) (.ok (.matched v pos')) ∧ MatchAll g w parsers pos' vs q := by
  constructor
  · intro h
    cases h with
    | cons hp hrest => exact ⟨_, _, _, rfl, hp, hrest⟩
  · rintro ⟨v, pos', vs, rfl, hp, hrest⟩
    exact .cons hp hrest

lemma matchAll_append : MatchAll g w (parsers ++ others) pos vs q ↔ ∃ us mid us',
    vs = us ++ us' ∧ MatchAll g w parsers pos us mid ∧ MatchAll g w others mid us' q := by
  induction parsers generalizing pos vs with
  | nil => simp [matchAll_nil]
  | cons p parsers ih =>
    simp only [List.cons_append, matchAll_cons, ih]
    constructor
    · rintro ⟨v, pos', _, rfl, hp, us, mid, us', rfl, hfirst, hlast⟩
      exact ⟨v :: us, mid, us', rfl, ⟨v, pos', us, rfl, hp, hfirst⟩, hlast⟩
    · rintro ⟨_, mid, us', rfl, ⟨v, pos', us, rfl, hp, hfirst⟩, hlast⟩
      exact ⟨v, pos', _, rfl, hp, us, mid, us', rfl, hfirst, hlast⟩

lemma not_stopsAs_nil : ¬ StopsAs g w ([] : List (Parser κ)) pos x := by
  rintro ⟨_, before, p, after, _, _, hsplit, _⟩
  cases before <;> cases hsplit

lemma stopsAs_cons : StopsAs g w (p :: parsers) pos x ↔
    (∃ v q, Ends g w (.run p pos []) (.ok (.matched v q)) ∧ StopsAs g w parsers q x) ∨
      ¬ x.IsMatch ∧ EndsAs g w (.run p pos []) x := by
  constructor
  · rintro ⟨hx, before, p', after, vs, q, hsplit, hbefore, hp'⟩
    cases hbefore with
    | nil =>
      cases hsplit
      exact .inr ⟨hx, hp'⟩
    | cons hp hbefore =>
      cases hsplit
      exact .inl ⟨_, _, hp, hx, _, _, _, _, _, rfl, hbefore, hp'⟩
  · rintro (⟨v, q, hp, hx, before, p', after, vs, q', rfl, hbefore, hp'⟩ | ⟨hx, hp⟩)
    · exact ⟨hx, p :: before, p', after, v :: vs, q', rfl, .cons hp hbefore, hp'⟩
    · exact ⟨hx, [], p, parsers, [], pos, rfl, .nil, hp⟩

lemma endsAs_iff_eval : EndsAs g w (.run p pos []) x ↔
    ∃ r, Eval g w (.parser p pos) r ∧ ending r.outcome = x := by
  constructor
  · rintro ⟨o, ho, rfl⟩
    exact ⟨.ofOutcome o, ends_run_iff.mp ho, by rw [Result.outcome_ofOutcome]⟩
  · rintro ⟨r, hr, rfl⟩
    exact ⟨_, hr.ends, rfl⟩

lemma Result.isMatch_ending : (ending r.outcome).IsMatch ↔ r.IsMatch := by
  cases r <;> rfl

lemma Result.ending_within {frame : Frame κ} (h : frame.rewind? = none) :
    ending (r.within frame).outcome = ending r.outcome := by
  cases r with
  | suspended p pos frames => simp [within, outcome, ending, Stack.watermark, h]
  | matched v pos | failed e pos | fault f => rfl

lemma endsAs_bind {next : Value → Parser κ} : EndsAs g w (.run (.bind p next) pos []) x ↔
    (∃ v q, Ends g w (.run p pos []) (.ok (.matched v q)) ∧ EndsAs g w (.run (next v) q []) x) ∨
      ¬ x.IsMatch ∧ EndsAs g w (.run p pos []) x := by
  simp only [endsAs_iff_eval, Eval.bind_iff, ends_run_iff, Result.ofOutcome]
  constructor
  · rintro ⟨r, ⟨v, q, hp, hr⟩ | ⟨r', hp, hn, rfl⟩, rfl⟩
    · exact .inl ⟨v, q, hp, r, hr, rfl⟩
    · rw [Result.ending_within rfl, Result.isMatch_ending]
      exact .inr ⟨hn, r', hp, rfl⟩
  · rintro (⟨v, q, hp, r, hr, rfl⟩ | ⟨hx, r, hp, rfl⟩)
    · exact ⟨r, .inl ⟨v, q, hp, hr⟩, rfl⟩
    · rw [Result.isMatch_ending] at hx
      exact ⟨_, .inr ⟨r, hp, hx, rfl⟩, Result.ending_within rfl⟩

lemma endsAs_always : EndsAs g w (.run (.always v) pos []) x ↔ x = .matched v pos := by
  have hv : Ends g w (.run (.always v) pos []) (.ok (.matched v pos)) := ⟨2, rfl⟩
  constructor
  · rintro ⟨o, ho, rfl⟩
    rw [ho.unique hv]
    rfl
  · rintro rfl
    exact ⟨_, hv, rfl⟩

lemma endsAs_bindAll {gather : List Value → Value} :
    EndsAs g w (.run (.bindAll parsers gather) pos []) x ↔
      (∃ vs q, MatchAll g w parsers pos vs q ∧ x = .matched (gather vs) q) ∨
        StopsAs g w parsers pos x := by
  induction parsers generalizing pos gather with
  | nil =>
    rw [Parser.bindAll, endsAs_always, or_iff_left not_stopsAs_nil]
    simp [matchAll_nil]
  | cons p parsers ih =>
    simp only [Parser.bindAll, endsAs_bind, ih, stopsAs_cons, matchAll_cons]
    constructor
    · rintro (⟨v, q, hp, ⟨vs, q', hrest, rfl⟩ | hstop⟩ | hstop)
      · exact .inl ⟨_, q', ⟨v, q, vs, rfl, hp, hrest⟩, rfl⟩
      · exact .inr (.inl ⟨v, q, hp, hstop⟩)
      · exact .inr (.inr hstop)
    · rintro (⟨_, q', ⟨v, q, vs, rfl, hp, hrest⟩, rfl⟩ | ⟨v, q, hp, hstop⟩ | hstop)
      · exact .inl ⟨v, q, hp, .inl ⟨vs, q', hrest, rfl⟩⟩
      · exact .inl ⟨v, q, hp, .inr hstop⟩
      · exact .inr hstop

/-- A frame with parsers still to come stands for one that binds them. -/
inductive Unrolls : Stack κ → Stack κ → Prop
  | nil : Unrolls [] []
  | cons {frame s t} : Unrolls s t → Unrolls (frame :: s) (frame :: t)
  | sequence {parsers s t} : Unrolls s t → Unrolls (.sequence parsers :: s)
      (.bind (fun v => .bindAll parsers (·.getLastD v)) :: t)
  | enumeration {parsers gathered s t} : Unrolls s t →
      Unrolls (.enumeration parsers gathered :: s)
        (.bind (fun v => .bindAll parsers fun vs => .stream (vs.foldl .push (gathered.push v))) :: t)

namespace Unrolls

variable {s t stack : Stack κ} {e : Failure} {gathered : Stream Value}

lemma refl (stack : Stack κ) : Unrolls stack stack := by
  induction stack with
  | nil => exact .nil
  | cons frame stack ih => exact .cons ih

lemma watermark_eq (h : Unrolls s t) (pos : Int) : s.watermark pos = t.watermark pos := by
  have hrewinds : s.filterMap Frame.rewind? = t.filterMap Frame.rewind? := by
    induction h with
    | nil => rfl
    | cons _ ih => rw [List.filterMap_cons, List.filterMap_cons, ih]
    | sequence _ ih | enumeration _ ih => simp only [List.filterMap_cons, Frame.rewind?, ih]
  rw [Stack.watermark, Stack.watermark, hrewinds]

lemma bind_getLastD (p : Parser κ) (parsers : List (Parser κ)) (v : Value) :
    Parser.bindAll (p :: parsers) (·.getLastD v) =
      p.bind fun u => .bindAll parsers (·.getLastD u) := by
  simp only [Parser.bindAll, List.getLastD_cons]

lemma inStep_sequence (h : Unrolls s t) : InStep g w (Swaps Unrolls)
    (.matched v pos (.sequence parsers :: s))
    (.matched v pos (.bind (fun v => .bindAll parsers (·.getLastD v)) :: t)) := by
  cases parsers with
  | nil => exact .next rfl (.tail (.single rfl) rfl) (.matched h)
  | cons p parsers =>
    have hnext : Steps g w (.run (.bindAll (p :: parsers) (·.getLastD v)) pos t)
        (.run p pos (.bind (fun u => .bindAll parsers (·.getLastD u)) :: t)) := by
      rw [bind_getLastD]
      rfl
    exact .next rfl (.tail (.single rfl) hnext) (.run h.sequence)

lemma inStep_enumeration (h : Unrolls s t) : InStep g w (Swaps Unrolls)
    (.matched v pos (.enumeration parsers gathered :: s))
    (.matched v pos (.bind (fun v => .bindAll parsers fun vs =>
      .stream (vs.foldl .push (gathered.push v))) :: t)) := by
  cases parsers with
  | nil => exact .next rfl (.tail (.single rfl) rfl) (.matched h)
  | cons p parsers => exact .next rfl (.tail (.single rfl) rfl) (.run h.enumeration)

lemma inStep_matched (h : Unrolls s t) :
    InStep g w (Swaps Unrolls) (.matched v pos s) (.matched v pos t) := by
  cases h with
  | nil => exact .halt rfl rfl (.resolved rfl)
  | cons h => exact .matched (fun _ _ _ => .cons) v _ h
  | sequence h => exact h.inStep_sequence
  | enumeration h => exact h.inStep_enumeration

lemma inStep_failed (h : Unrolls s t) :
    InStep g w (Swaps Unrolls) (.failed e pos s) (.failed e pos t) := by
  cases h with
  | nil => exact .halt rfl rfl (.resolved rfl)
  | cons h => exact .failed (fun _ _ _ => .cons) e _ h
  | sequence h | enumeration h => exact .next rfl (.single rfl) (.failed h)

lemma alike (h : Unrolls s t) : Alike g (.run p pos s) (.run p pos t) := by
  refine .of_inStep ?_ (Swaps.run h)
  intro w s t h
  cases h with
  | run h => exact .run (fun _ _ _ => .cons) (fun _ _ _ h => h.watermark_eq _) _ h
  | matched h => exact h.inStep_matched
  | failed h => exact h.inStep_failed

end Unrolls

lemma Alike.sequence (stack : Stack κ) : Alike g (.run (.sequence parsers) pos stack)
    (.run (.bindAll parsers (·.getLastD .null)) pos stack) := by
  cases parsers with
  | nil => exact .of_steps (fun _ => rfl) (fun _ => rfl) fun _ _ => Iff.rfl
  | cons p parsers =>
    rw [Unrolls.bind_getLastD]
    exact .of_steps (fun _ => rfl) (fun _ => rfl) (Unrolls.refl stack).sequence.alike

lemma Alike.enumeration (stack : Stack κ) : Alike g (.run (.enumeration parsers) pos stack)
    (.run (.bindAll parsers fun vs => .stream (.ofList vs)) pos stack) := by
  cases parsers with
  | nil => exact .of_steps (fun _ => rfl) (fun _ => rfl) fun _ _ => Iff.rfl
  | cons p parsers =>
    exact .of_steps (fun _ => rfl) (fun _ => rfl) (Unrolls.refl stack).enumeration.alike

lemma endsAs_enumeration : EndsAs g w (.run (.enumeration parsers) pos []) x ↔
    (∃ vs q, MatchAll g w parsers pos vs q ∧ x = .matched (.stream (.ofList vs)) q) ∨
      StopsAs g w parsers pos x := by
  rw [(Alike.enumeration []).endsAs_iff, endsAs_bindAll]

lemma endsAs_sequence : EndsAs g w (.run (.sequence parsers) pos []) x ↔
    (∃ vs q, MatchAll g w parsers pos vs q ∧ x = .matched (vs.getLastD .null) q) ∨
      StopsAs g w parsers pos x := by
  rw [(Alike.sequence []).endsAs_iff, endsAs_bindAll]

lemma enumeration_matched : Ends g w (.run (.enumeration parsers) pos []) (.ok (.matched v q)) ↔
    ∃ vs, v = .stream (.ofList vs) ∧ MatchAll g w parsers pos vs q := by
  rw [← endsAs_matched, endsAs_enumeration]
  constructor
  · rintro (⟨vs, q', hall, heq⟩ | ⟨hx, _⟩)
    · cases heq
      exact ⟨vs, rfl, hall⟩
    · exact absurd trivial hx
  · rintro ⟨vs, rfl, hall⟩
    exact .inl ⟨vs, q, hall, rfl⟩

lemma enumeration_gathers :
    Ends g w (.run (.enumeration parsers) pos []) (.ok (.matched (.stream (.ofList vs)) q)) ↔
      MatchAll g w parsers pos vs q := by
  simp [enumeration_matched]

theorem sequence_enumeration_run_in_turn (g : Grammar κ) (w : Window) (parsers : List (Parser κ))
    (pos : Int) :
    (∀ x, EndsAs g w (.run (.enumeration parsers) pos []) x ↔
      (∃ vs q, MatchAll g w parsers pos vs q ∧ x = .matched (.stream (.ofList vs)) q) ∨
        StopsAs g w parsers pos x) ∧
    (∀ x, EndsAs g w (.run (.sequence parsers) pos []) x ↔
      (∃ vs q, MatchAll g w parsers pos vs q ∧ x = .matched (vs.getLastD .null) q) ∨
        StopsAs g w parsers pos x) ∧
    (∀ stack, Alike g (.run (.enumeration parsers) pos stack)
      (.run (.bindAll parsers fun vs => .stream (.ofList vs)) pos stack)) ∧
    (∀ stack, Alike g (.run (.sequence parsers) pos stack)
      (.run (.bindAll parsers fun vs => vs.getLastD .null) pos stack)) ∧
    ∀ others v q, Ends g w (.run (.enumeration (parsers ++ others)) pos []) (.ok (.matched v q)) ↔
      ∃ us mid us', v = .stream (.ofList (us ++ us')) ∧
        Ends g w (.run (.enumeration parsers) pos []) (.ok (.matched (.stream (.ofList us)) mid)) ∧
        Ends g w (.run (.enumeration others) mid []) (.ok (.matched (.stream (.ofList us')) q)) := by
  refine ⟨fun _ => endsAs_enumeration, fun _ => endsAs_sequence, Alike.enumeration,
    Alike.sequence, ?_⟩
  intro others v q
  rw [enumeration_matched]
  simp only [enumeration_gathers, matchAll_append]
  constructor
  · rintro ⟨_, rfl, us, mid, us', rfl, hfirst, hlast⟩
    exact ⟨us, mid, us', rfl, hfirst, hlast⟩
  · rintro ⟨us, mid, us', rfl, hfirst, hlast⟩
    exact ⟨_, rfl, us, mid, us', rfl, hfirst, hlast⟩

end ResumableParsing
