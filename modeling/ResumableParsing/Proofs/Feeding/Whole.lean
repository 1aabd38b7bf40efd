import ResumableParsing.Proofs.Feeding.Chunks
import ResumableParsing.Proofs.Found
import ResumableParsing.Proofs.Meaning.Binding
import ResumableParsing.Proofs.Meaning.Progress

namespace ResumableParsing

variable {κ : Type} {g : Grammar κ} {w : Window} {p : Parser κ} {xs : List Value}
variable {pos q : Int} {v x : Value} {r : Result κ}

/-- None of the elements can be mistaken for the end of the input, or for lack of it. -/
def Plain (xs : List Value) : Prop := Value.endOfInput ∉ xs ∧ Value.missing ∉ xs

lemma Plain.read_whole (h : Plain xs) (hpos : 0 ≤ pos) : (Window.onto xs).close.read pos = .ok
    (match xs[pos.toNat]? with
      | some x => .element x
      | none => .endOfInput) := by
  rw [Window.read_whole hpos]
  cases hx : xs[pos.toNat]? with
  | none => rfl
  | some x =>
    have hmem : x ∈ xs := List.mem_of_getElem? hx
    exact congrArg _ (Reading.ofElement_of_ne (ne_of_mem_of_not_mem hmem h.2)
      (ne_of_mem_of_not_mem hmem h.1))

lemma Plain.read_eq_endOfInput (h : Plain xs) (hpos : 0 ≤ q) (hle : q ≤ xs.length) :
    (Window.onto xs).close.read q = .ok .endOfInput ↔ q = xs.length := by
  rw [h.read_whole hpos]
  cases hx : xs[q.toNat]? with
  | none =>
    have hlen : xs.length ≤ q.toNat := List.getElem?_eq_none_iff.mp hx
    simp
    omega
  | some x =>
    have hlt : q.toNat < xs.length := (List.getElem?_eq_some_iff.mp hx).1
    simp
    omega

namespace Eval

lemma endOfInput_matched : Eval g w (.parser .endOfInput pos) (.matched v q) ↔
    w.read pos = .ok .endOfInput ∧ v = .null ∧ q = pos := by
  constructor
  · intro h
    generalize hr : Result.matched v q = r at h
    cases h with
    | @read _ _ reading _ hread =>
      cases reading with
      | endOfInput => simp_all [Parser.onReading]
      | missing => cases hr
      | element x =>
        simp only [Parser.onReading] at hr
        exact (Result.ofFailure_eq_matched.mp hr.symm).elim
    | released => cases hr
  · rintro ⟨hread, rfl, rfl⟩
    exact .read rfl hread

lemma followedBy_matched : Eval g w (.parser (p.followedBy .endOfInput) pos) (.matched v q) ↔
    Eval g w (.parser p pos) (.matched v q) ∧ w.read q = .ok .endOfInput := by
  simp only [Parser.followedBy, bind_matched, endOfInput_matched]
  constructor
  · rintro ⟨u, _, hp, _, _, ⟨hread, -, rfl⟩, halways⟩
    cases halways.unique .always
    exact ⟨hp, hread⟩
  · rintro ⟨hp, hread⟩
    exact ⟨v, q, hp, .null, q, ⟨hread, rfl, rfl⟩, .always⟩

lemma followedBy_element (h : Eval g w (.parser p pos) (.matched v q))
    (hread : w.read q = .ok (.element x)) (hx : x ≠ .endOfInput) :
    Eval g w (.parser (p.followedBy .endOfInput) pos)
      (.failed ⟨q, .expected [endOfInputText] x⟩ q) := by
  have hend : Eval g w (.parser .endOfInput q) (.failed ⟨q, .expected [endOfInputText] x⟩ q) := by
    rw [← Failure.foundOf_of_ne hx]
    exact .read rfl hread
  exact .bind h (.bind_stop hend not_false)

lemma followedBy_stop (h : Eval g w (.parser p pos) r) (hr : ¬ r.IsMatch) :
    Eval g w (.parser (p.followedBy .endOfInput) pos)
      (r.within (.bind fun v => .bind .endOfInput fun _ => .always v)) :=
  .bind_stop h hr

lemma position_between_whole (h : Eval g (Window.onto xs).close (.parser p 0) (.matched v q)) :
    0 ≤ q ∧ q ≤ xs.length := by
  have hends : Ends g (Window.onto xs).close (.run p 0 []) (.ok (.matched v q)) := h.ends
  have hpos : 0 ≤ q ∧ q ≤ max 0 (Window.onto xs).close.stop := hends.position_between
  rw [Window.stop_close, Window.stop_onto] at hpos
  omega

end Eval

variable {chunks : List Value} {parts : List (List Value)}

namespace Session

variable {out : Except Problem Value}

lemma gives_iff_of_eval (hc : chunks.map Value.elements = parts.map .ok)
    (h : Eval g (Window.onto parts.flatten).close (.parser p 0) r) :
    Gives g p chunks out ↔ out = verdict r.outcome := by
  have hends : Ends g (Window.onto parts.flatten).close (.run p 0 []) r.outcome := h.ends
  rw [gives_iff hc]
  constructor
  · rintro ⟨e, he, rfl⟩
    rw [he.unique hends]
  · intro hout
    exact ⟨_, hends, hout⟩

lemma gives_value_iff (hc : chunks.map Value.elements = parts.map .ok) :
    Gives g p chunks (.ok v) ↔
      ∃ q, Eval g (Window.onto parts.flatten).close (.parser p 0) (.matched v q) := by
  rw [gives_iff hc]
  constructor
  · rintro ⟨e, he, hv⟩
    rcases e with f | (⟨u, q⟩ | ⟨e, q⟩ | ⟨p', q, stack⟩) <;> cases hv
    exact ⟨q, ends_run_iff.mp he⟩
  · rintro ⟨q, hq⟩
    exact ⟨_, hq.ends, rfl⟩

end Session

open Session

lemma Session.Reached.ne_matched {s : Session κ} (h : Reached g (p.followedBy .endOfInput) xs s)
    (hend : Value.endOfInput ∉ xs) : s.outcome ≠ .matched v q := by
  intro hs
  have hends := h.retains.ends
  rw [hs, ends_run_iff] at hends
  exact hend (Window.endOfInput_mem (Eval.followedBy_matched.mp hends).2)

theorem whole_input_or_failure (g : Grammar κ) (p : Parser κ)
    (hc : chunks.map Value.elements = parts.map .ok) (hplain : Plain parts.flatten) :
    (∀ xs s, Value.endOfInput ∉ xs → Reached g (p.followedBy .endOfInput) xs s →
        ∀ v q, s.outcome ≠ .matched v q) ∧
      (∀ v, Gives g (p.followedBy .endOfInput) chunks (.ok v) ↔
        Ends g ⟨parts.flatten.toArray, 0, true⟩ (.run p 0 [])
          (.ok (.matched v parts.flatten.length))) ∧
      (∀ v q, Ends g ⟨parts.flatten.toArray, 0, true⟩ (.run p 0 []) (.ok (.matched v q)) →
        q < parts.flatten.length → 0 ≤ q ∧ ∃ x, parts.flatten[q.toNat]? = some x ∧
          ∀ out, Gives g (p.followedBy .endOfInput) chunks out ↔
            out = .error (.failure ⟨q, .expected ["end of input"] x⟩)) ∧
      ∀ e q, Ends g ⟨parts.flatten.toArray, 0, true⟩ (.run p 0 []) (.ok (.failed e q)) →
        ∀ out, Gives g (p.followedBy .endOfInput) chunks out ↔ out = .error (.failure e) := by
  have hends (o : Except Fault (Outcome κ)) :
      Ends g ⟨parts.flatten.toArray, 0, true⟩ (.run p 0 []) o ↔
        Eval g (Window.onto parts.flatten).close (.parser p 0) (.ofOutcome o) := ends_run_iff
  simp only [hends, Result.ofOutcome]
  refine ⟨?_, ?_, ?_, ?_⟩
  · intro xs s hxs hs v q
    exact hs.ne_matched hxs
  · intro v
    simp only [gives_value_iff hc, Eval.followedBy_matched]
    constructor
    · rintro ⟨q, hp, hread⟩
      obtain ⟨hpos, hle⟩ := hp.position_between_whole
      obtain rfl := (hplain.read_eq_endOfInput hpos hle).mp hread
      exact hp
    · intro hp
      obtain ⟨hpos, hle⟩ := hp.position_between_whole
      exact ⟨_, hp, (hplain.read_eq_endOfInput hpos hle).mpr rfl⟩
  · intro v q hp hlt
    obtain ⟨hpos, -⟩ := hp.position_between_whole
    obtain ⟨x, hx⟩ : ∃ x, parts.flatten[q.toNat]? = some x :=
      ⟨_, List.getElem?_eq_getElem (by omega)⟩
    have hread := hplain.read_whole hpos
    rw [hx] at hread
    have hne := ne_of_mem_of_not_mem (List.mem_of_getElem? hx) hplain.1
    refine ⟨hpos, x, hx, ?_⟩
    intro out
    exact gives_iff_of_eval hc (hp.followedBy_element hread hne)
  · intro e q hp out
    exact gives_iff_of_eval hc (hp.followedBy_stop not_false)

theorem whole_input_left_over :
    [Value.str "a", .tuple [], .str "bc"].map Value.elements =
        [[.char 'a'], [], [.char 'b', .char 'c']].map .ok ∧
      Plain [[Value.char 'a'], [], [.char 'b', .char 'c']].flatten ∧
      ∀ out, Gives (κ := Empty) Empty.elim
        ((Parser.choice (.attempt (.sequence [.character (.str "a"), .character (.str "b"),
          .character (.str "b")])) [.sequence [.character (.str "a"),
          .character (.str "b")]]).followedBy .endOfInput)
        [.str "a", .tuple [], .str "bc"] out ↔
          out = .error (.failure ⟨2, .expected ["end of input"] (.char 'c')⟩) := by
  have hc : [Value.str "a", .tuple [], .str "bc"].map Value.elements =
      [[.char 'a'], [], [.char 'b', .char 'c']].map .ok := rfl
  have hplain : Plain [[Value.char 'a'], [], [.char 'b', .char 'c']].flatten := by
    simp [Plain, Value.char, Value.endOfInput, Value.missing]
  let p : Parser Empty := .choice (.attempt (.sequence [.character (.str "a"),
    .character (.str "b"), .character (.str "b")]))
    [.sequence [.character (.str "a"), .character (.str "b")]]
  have hp : Ends Empty.elim ⟨#[.char 'a', .char 'b', .char 'c'], 0, true⟩ (.run p 0 [])
      (.ok (.matched (.str "b") 2)) := ⟨20, rfl⟩
  obtain ⟨-, -, hless, -⟩ := whole_input_or_failure Empty.elim p hc hplain
  obtain ⟨-, x, hx, hout⟩ := hless (.str "b") 2 hp (by decide)
  obtain rfl : Value.char 'c' = x := Option.some.inj hx
  exact ⟨hc, hplain, hout⟩

end ResumableParsing
