import ResumableParsing.Proofs.Meaning.Termination
import ResumableParsing.Proofs.Peg

/-! Where each alternative and each round of a repetition is attempted, failing means failing at the
start, and parsers are parsing expressions. -/

namespace ResumableParsing

variable {κ : Type} {g : Grammar κ} {w : Window}

namespace Parser

def IsAlternative : Parser κ → Prop
  | .attempt _ => True
  | .always _ => True
  | _ => False

inductive Guarded : Parser κ → Prop
  | token {accepts mismatch} : Guarded (.token accepts mismatch)
  | always {v} : Guarded (.always v)
  | fail {message} : Guarded (.fail message)
  | failWith {e} : Guarded (.failWith e)
  | raise {f} : Guarded (.raise f)
  | bind {p next} : Guarded p → (∀ v, Guarded (next v)) → Guarded (.bind p next)
  | choice {first others} : (∀ q ∈ first :: others, q.IsAlternative) → Guarded first →
      (∀ q ∈ others, Guarded q) → Guarded (.choice first others)
  | attempt {p} : Guarded p → Guarded (.attempt p)
  | sequence {parsers} : (∀ q ∈ parsers, Guarded q) → Guarded (.sequence parsers)
  | enumeration {parsers} : (∀ q ∈ parsers, Guarded q) → Guarded (.enumeration parsers)
  | many {p} : Guarded p → Guarded (.many (.attempt p))
  | lookahead {p} : Guarded p → Guarded (.lookahead p)
  | notFollowedBy {p label} : Guarded p → Guarded (.notFollowedBy p label)

namespace Guarded

variable {p q : Parser κ}

lemma next (hp : p.Guarded) (hq : q.Guarded) : (p.next q).Guarded := .bind hp fun _ => hq

lemma map (hp : p.Guarded) (f : Value → Except Fault Value) : (p.map f).Guarded := by
  refine .bind hp ?_
  intro v
  cases f v with
  | ok result => exact .always
  | error fault => exact .raise

lemma optional (hp : p.Guarded) (default : Value) :
    ((Parser.attempt p).optional default).Guarded :=
  .choice (by simp [IsAlternative]) (.attempt hp) (List.forall_mem_singleton.mpr .always)

lemma madeOf (h : p.Guarded) : p.MadeOf NoRule := by
  induction h with
  | token => exact .token trivial
  | always => exact .always
  | fail => exact .fail trivial
  | failWith => exact .failWith trivial
  | raise => exact .raise
  | bind _ _ ihp ihnext => exact .bind ihp ihnext
  | choice _ _ _ ihfirst ihothers => exact .choice ihfirst ihothers
  | attempt _ ih => exact .attempt ih
  | sequence _ ih => exact .sequence ih
  | enumeration _ ih => exact .enumeration ih
  | many _ ih => exact .many (.attempt ih)
  | lookahead _ ih => exact .lookahead ih
  | notFollowedBy _ ih => exact .notFollowedBy trivial ih

end Guarded

end Parser

variable {p first body : Parser κ} {parsers others : List (Parser κ)} {next : Value → Parser κ}
variable {pos start : Int} {r : Result κ} {e : Failure} {last : Value} {gathered : Stream Value}
variable {earlier : Option Failure} {spec spec' : Option (Value × Int) → Prop} {frame : Frame κ}

/-- The result, less where a failure stands, is as specified; faults are left open. -/
def Result.Meets (spec : Option (Value × Int) → Prop) : Result κ → Prop
  | .matched v q => spec (some (v, q))
  | .failed _ _ => spec none
  | .suspended _ _ _ => False
  | .fault _ => True

namespace Result.Meets

lemma imp (h : r.Meets spec) (hs : ∀ x, spec x → spec' x) : r.Meets spec' := by
  cases r with
  | matched v q => exact hs _ h
  | failed e q => exact hs _ h
  | suspended q pos frames | fault f => exact h

lemma stop (h : r.Meets spec) (hn : ¬ r.IsMatch) (hs : spec none → spec' none) :
    (r.within frame).Meets spec' := by
  cases r with
  | matched v q => exact absurd trivial hn
  | failed e q => exact hs h
  | suspended q pos frames => exact h.elim
  | fault f => trivial

lemma attempted (h : r.Meets spec) : (r.attempted start).Meets spec := by
  cases r with
  | matched v q | failed e q | suspended q pos frames | fault f => exact h

end Result.Meets

def Expresses (g : Grammar κ) (w : Window) (p : Parser κ) : Prop :=
  ∀ pos r, Eval g w (.parser p pos) r → r.Meets (Peg w p pos)

def Peg.Gathers (w : Window) (p : Parser κ) (pos : Int) (gathered : Stream Value) :
    Option (Value × Int) → Prop
  | some (v, q) => ∃ vs : List Value, v = .stream (vs.foldl .push gathered) ∧
      Peg w p pos (some (.stream (.ofList vs), q))
  | none => Peg w p pos none

lemma Peg.Gathers.of_empty {x : Option (Value × Int)} (h : Gathers w p pos .empty x) :
    Peg w p pos x := by
  cases x with
  | none => exact h
  | some x =>
    obtain ⟨vs, hv, hp⟩ := h
    obtain ⟨v, q⟩ := x
    obtain rfl : v = .stream (.ofList vs) := hv
    exact hp

lemma Eval.position_of_failed {q : Int} (hp : p.IsAlternative)
    (h : Eval g w (.parser p pos) (.failed e q)) : q = pos := by
  cases p with
  | always v => cases h
  | attempt body =>
    generalize hr : Result.failed e q = r at h
    cases h with
    | read hreads | released hreads => cases hreads
    | @attempt _ _ r' _ => cases r' <;> cases hr; rfl
  | _ => exact hp.elim

namespace Expresses

lemma of_exists (h : ∀ pos, ∃ r, Eval g w (.parser p pos) r ∧ r.Meets (Peg w p pos)) :
    Expresses g w p := by
  intro pos r hr
  obtain ⟨r', hr', hshows⟩ := h pos
  rwa [hr.unique hr']

lemma token {accepts : Value → Except Fault Bool} {mismatch : Int → Value → Except Fault Failure}
    (hw : ∀ pos, w.read pos ≠ .ok .missing) : Expresses g w (.token accepts mismatch) := by
  intro pos r h
  cases h with
  | released => trivial
  | @read _ _ reading _ hread =>
    cases reading with
    | missing => exact absurd hread (hw pos)
    | endOfInput =>
      simp only [Parser.onReading]
      cases mismatch pos .endOfInput with
      | ok e => exact .token_end hread
      | error f => trivial
    | element v =>
      simp only [Parser.onReading]
      cases ha : accepts v with
      | error f => trivial
      | ok b =>
        cases b with
        | true => exact .token hread ha
        | false =>
          cases mismatch pos v with
          | ok e => exact .token_fail hread ha
          | error f => trivial

lemma bind (hp : Expresses g w p) (hnext : ∀ v, Expresses g w (next v)) :
    Expresses g w (.bind p next) := by
  intro pos r h
  cases h with
  | read hreads | released hreads => cases hreads
  | bind hmatch hrest => exact (hnext _ _ _ hrest).imp fun _ => .bind (hp _ _ hmatch)
  | bind_stop hr hn => exact (hp _ _ hr).stop hn .bind_fail

lemma of_not_failsAt (hp : Expresses g w p) (hall : p.IsAlternative)
    (hr : Eval g w (.parser p pos) r) (hn : ¬ r.FailsAt pos)
    (hs : r.IsMatch → ∀ v q, Peg w p pos (some (v, q)) → spec (some (v, q))) :
    (r.within frame).Meets spec := by
  have hshows := hp _ _ hr
  cases r with
  | matched v q => exact hs trivial v q hshows
  -- an alternative that fails does so where it started
  | failed e q => exact absurd (hr.position_of_failed hall) hn
  | suspended q pos frames | fault f => exact hshows

lemma alternatives (hall : ∀ q ∈ first :: others, q.IsAlternative) (hfirst : Expresses g w first)
    (hothers : ∀ q ∈ others, Expresses g w q)
    (h : Eval g w (.alternatives first others pos earlier) r) :
    r.Meets (Peg w (.choice first others) pos) := by
  induction others generalizing first earlier with
  | nil =>
    cases h with
    | no_other he => exact .choice_fail (hfirst _ _ he)
    | chosen hr hn =>
      exact hfirst.of_not_failsAt (hall _ List.mem_cons_self) hr hn fun _ _ _ => .choice
  | cons q others ih =>
    obtain ⟨hfirst', hall⟩ := List.forall_mem_cons.mp hall
    obtain ⟨hq, hothers⟩ := List.forall_mem_cons.mp hothers
    cases h with
    | other he hrest => exact (ih hall hq hothers hrest).imp fun _ => .choice_other (hfirst _ _ he)
    | chosen hr hn => exact hfirst.of_not_failsAt hfirst' hr hn fun _ _ _ => .choice

lemma choice (hall : ∀ q ∈ first :: others, q.IsAlternative) (hfirst : Expresses g w first)
    (hothers : ∀ q ∈ others, Expresses g w q) : Expresses g w (.choice first others) := by
  intro pos r h
  cases h with
  | read hreads | released hreads => cases hreads
  | choice h => exact alternatives hall hfirst hothers h

lemma attempt (hp : Expresses g w p) : Expresses g w (.attempt p) := by
  intro pos r h
  cases h with
  | read hreads | released hreads => cases hreads
  | attempt hr => exact (hp _ _ hr).attempted.imp fun _ => .attempt

lemma sequence_cons (h : ∀ q ∈ p :: parsers, Expresses g w q)
    (hr : Eval g w (.sequence (p :: parsers) last pos) r) :
    r.Meets (Peg w (.sequence (p :: parsers)) pos) := by
  induction parsers generalizing p last pos with
  | nil =>
    have hp := List.forall_mem_singleton.mp h
    cases hr with
    | sequence_next hmatch hrest =>
      cases hrest
      exact .sequence_last (hp _ _ hmatch)
    | sequence_stop hr hn => exact (hp _ _ hr).stop hn .sequence_last
  | cons q parsers ih =>
    obtain ⟨hp, h⟩ := List.forall_mem_cons.mp h
    cases hr with
    | sequence_next hmatch hrest => exact (ih h hrest).imp fun _ => .sequence_cons (hp _ _ hmatch)
    | sequence_stop hr hn => exact (hp _ _ hr).stop hn .sequence_fail

lemma sequence (h : ∀ q ∈ parsers, Expresses g w q) : Expresses g w (.sequence parsers) := by
  intro pos r hr
  cases hr with
  | read hreads | released hreads => cases hreads
  | sequence hr =>
    cases parsers with
    | nil =>
      cases hr
      exact .sequence_nil
    | cons p parsers => exact sequence_cons h hr

lemma gathers (h : ∀ q ∈ parsers, Expresses g w q)
    (hr : Eval g w (.enumeration parsers gathered pos) r) :
    r.Meets (Peg.Gathers w (.enumeration parsers) pos gathered) := by
  induction parsers generalizing gathered pos with
  | nil =>
    cases hr
    exact ⟨[], rfl, .enumeration_nil⟩
  | cons p parsers ih =>
    obtain ⟨hp, h⟩ := List.forall_mem_cons.mp h
    cases hr with
    | enumeration_stop hr hn => exact (hp _ _ hr).stop hn .enumeration_fail
    | @enumeration_next _ _ _ _ v _ _ hmatch hrest =>
      refine (ih h hrest).imp ?_
      rintro (_ | ⟨_, q⟩) hx
      · exact .enumeration_fail_later (hp _ _ hmatch) hx
      · obtain ⟨vs, rfl, hvs⟩ := hx
        exact ⟨v :: vs, rfl, .enumeration_cons (hp _ _ hmatch) hvs⟩

lemma enumeration (h : ∀ q ∈ parsers, Expresses g w q) :
    Expresses g w (.enumeration parsers) := by
  intro pos r hr
  cases hr with
  | read hreads | released hreads => cases hreads
  | enumeration hr => exact (gathers h hr).imp fun _ => Peg.Gathers.of_empty

lemma repetition (hbody : Expresses g w body) (hall : body.IsAlternative)
    (hr : Eval g w (.repetition body gathered pos) r) :
    r.Meets (Peg.Gathers w (.many body) pos gathered) := by
  -- on the rounds: what is gathered grows at the end, the values of the expression at the front
  generalize htask : Task.repetition body gathered pos = task at hr
  induction hr generalizing gathered pos with
  | @again _ _ _ v _ _ hmatch hne _ _ ih =>
    cases htask
    refine (ih rfl).imp ?_
    rintro (_ | ⟨_, q⟩) hx
    · cases hx
    · obtain ⟨vs, rfl, hvs⟩ := hx
      exact ⟨v :: vs, rfl, .many (hbody _ _ hmatch) hne hvs⟩
  | enough_matched hmatch =>
    cases htask
    exact ⟨[], rfl, .many_empty (hbody _ _ hmatch)⟩
  | enough_failed he =>
    cases htask
    exact ⟨[], rfl, .many_fail (hbody _ _ he)⟩
  | repetition_stop hr hn hat =>
    cases htask
    exact hbody.of_not_failsAt hall hr hat fun hmatch => absurd hmatch hn
  | _ => cases htask

lemma many (hbody : Expresses g w body) (hall : body.IsAlternative) :
    Expresses g w (.many body) := by
  intro pos r h
  cases h with
  | read hreads | released hreads => cases hreads
  | many h => exact (repetition hbody hall h).imp fun _ => Peg.Gathers.of_empty

lemma lookahead (hp : Expresses g w p) : Expresses g w (.lookahead p) := by
  intro pos r h
  cases h with
  | read hreads | released hreads => cases hreads
  | @lookahead _ _ r' hr =>
    have hshows := hp _ _ hr
    cases r' with
    | matched v q => exact .lookahead hshows
    | failed e q => exact .lookahead_fail hshows
    | suspended q pos frames | fault f => exact hshows

lemma notFollowedBy (hp : Expresses g w p) (label : Value) :
    Expresses g w (.notFollowedBy p label) := by
  intro pos r h
  cases h with
  | read hreads | released hreads => cases hreads
  | @notFollowedBy _ _ _ r' hr =>
    have hshows := hp _ _ hr
    cases r' with
    | matched v q =>
      simp only [Result.negated]
      cases Failure.expected pos label v with
      | ok e => exact .notFollowedBy_fail hshows
      | error f => trivial
    | failed e q => exact .notFollowedBy hshows
    | suspended q pos frames | fault f => exact hshows

end Expresses

theorem Parser.Guarded.expresses (hp : p.Guarded) (hw : ∀ pos, w.read pos ≠ .ok .missing) :
    Expresses g w p := by
  induction hp with
  | token => exact .token hw
  | always => exact .of_exists fun _ => ⟨_, .always, .always⟩
  | fail => exact .of_exists fun _ => ⟨_, .fail, .fail⟩
  | failWith => exact .of_exists fun _ => ⟨_, .failWith, .failWith⟩
  | raise => exact .of_exists fun _ => ⟨_, .raise, trivial⟩
  | bind _ _ ihp ihnext => exact .bind ihp ihnext
  | choice hall _ _ ihfirst ihothers => exact .choice hall ihfirst ihothers
  | attempt _ ih => exact .attempt ih
  | sequence _ ih => exact .sequence ih
  | enumeration _ ih => exact .enumeration ih
  | many _ ih => exact .many (.attempt ih) trivial
  | lookahead _ ih => exact .lookahead ih
  | notFollowedBy _ ih => exact .notFollowedBy ih _

/-- A callback lets a fault escape; to read what the window released is no fault of a callback. -/
def Raises (g : Grammar κ) (w : Window) (s : State κ) : Prop :=
  ∃ f, Ends g w s (.error f) ∧ ¬ ReadsReleased g w s

lemma Peg.not_many_fail : ¬ Peg w (.many p) pos none := by
  rintro ⟨⟩

lemma Peg.not_optional_fail {default : Value} : ¬ Peg w (p.optional default) pos none := by
  intro h
  cases h with
  | choice_other _ h =>
    cases h with
    | choice_fail h => cases h

section

variable (hp : Expresses g w p)

include hp

lemma Expresses.of_matched {v : Value} {q : Int}
    (h : Ends g w (.run p pos []) (.ok (.matched v q))) : Peg w p pos (some (v, q)) := by
  have hr : Eval g w (.parser p pos) (.matched v q) := ends_outcome_iff.mp h
  exact hp _ _ hr

lemma Expresses.of_failed {q : Int} (h : Ends g w (.run p pos []) (.ok (.failed e q))) :
    Peg w p pos none := by
  have hr : Eval g w (.parser p pos) (.failed e q) := ends_outcome_iff.mp h
  exact hp _ _ hr

lemma Expresses.matches_or_fails (hr : Eval g w (.parser p pos) r) (hf : ∀ f, r ≠ .fault f) :
    (∃ v q, Ends g w (.run p pos []) (.ok (.matched v q)) ∧ Peg w p pos (some (v, q))) ∨
      ∃ e q, Ends g w (.run p pos []) (.ok (.failed e q)) ∧ Peg w p pos none := by
  have hshows := hp _ _ hr
  cases r with
  | matched v q => exact .inl ⟨v, q, hr.ends, hshows⟩
  | failed e q => exact .inr ⟨e, q, hr.ends, hshows⟩
  | suspended q pos frames => exact hshows.elim
  | fault f => exact absurd rfl (hf f)

end

theorem guarded_iff_peg (hp : p.Guarded) (hclosed : w.closed = true)
    (hm : Value.missing ∉ w.elements.toList) (hpos : w.offset ≤ pos)
    (hraises : ¬ Raises g w (.run p pos [])) :
    (∃ o : Outcome κ, o.resolved ∧ Ends g w (.run p pos []) (.ok o)) ∧
      (∀ v q, Ends g w (.run p pos []) (.ok (.matched v q)) ↔ Peg w p pos (some (v, q))) ∧
      ((∃ e q, Ends g w (.run p pos []) (.ok (.failed e q))) ↔ Peg w p pos none) ∧
      ∀ e q, ¬ Ends g w (.run (.many (.attempt p)) pos []) (.ok (.failed e q)) ∧
        ∀ default, ¬ Ends g w (.run ((Parser.attempt p).optional default) pos [])
          (.ok (.failed e q)) := by
  have hw : ∀ pos, w.read pos ≠ .ok .missing := fun _ h => hm (Window.mem_of_read_missing hclosed h)
  have hexpresses : Expresses g w p := hp.expresses hw
  obtain ⟨r, hr⟩ : ∃ r, Eval g w (.parser p pos) r := hp.madeOf.total pos
  have hf : ∀ f, r ≠ .fault f := by
    rintro f rfl
    exact hraises ⟨f, hr.ends, not_readsReleased hpos⟩
  have hends := hexpresses.matches_or_fails hr hf
  refine ⟨?_, ?_, ?_, ?_⟩
  · rcases hends with ⟨v, q, h, _⟩ | ⟨e, q, h, _⟩
    · exact ⟨_, rfl, h⟩
    · exact ⟨_, rfl, h⟩
  · intro v q
    refine ⟨hexpresses.of_matched, fun hpeg => ?_⟩
    rcases hends with ⟨v', q', h, hpeg'⟩ | ⟨e, q', _, hpeg'⟩
    · cases hpeg.unique hpeg'
      exact h
    · cases hpeg.unique hpeg'
  · refine ⟨fun ⟨_, _, h⟩ => hexpresses.of_failed h, fun hpeg => ?_⟩
    rcases hends with ⟨v, q, _, hpeg'⟩ | ⟨e, q, h, _⟩
    · cases hpeg.unique hpeg'
    · exact ⟨e, q, h⟩
  · refine fun e q => ⟨fun h => ?_, fun default h => ?_⟩
    · exact Peg.not_many_fail ((hp.many.expresses hw).of_failed h)
    · exact Peg.not_optional_fail (((hp.optional default).expresses hw).of_failed h)

theorem guarded_iff_peg_rewinding :
    let a : Parser Empty := .character (.str "a")
    let p : Parser Empty := .either (.attempt (a.next (.lookahead (a.next a)))) (.attempt a)
    ¬ Raises Empty.elim ⟨#[.char 'a', .char 'a', .char 'b'], 1, true⟩
        (.run (.many (.attempt p)) 1 []) ∧
      Peg ⟨#[.char 'a', .char 'a', .char 'b'], 1, true⟩ (.many (.attempt p)) 1
        (some (.stream (.ofList [.str "a", .str "a"]), 3)) := by
  intro a p
  have ha : a.Guarded := .token
  have hp : p.Guarded := by
    refine .choice (by simp [Parser.IsAlternative]) ?_ (List.forall_mem_singleton.mpr (.attempt ha))
    exact .attempt (ha.next (.lookahead (ha.next ha)))
  let w : Window := ⟨#[.char 'a', .char 'a', .char 'b'], 1, true⟩
  have hends : Ends Empty.elim w (.run (.many (.attempt p)) 1 [])
      (.ok (.matched (.stream (.ofList [.str "a", .str "a"])) 3)) := ⟨60, rfl⟩
  have hraises : ¬ Raises Empty.elim w (.run (.many (.attempt p)) 1 []) := by
    rintro ⟨f, hf, _⟩
    cases hends.unique hf
  have hm : Value.missing ∉ w.elements.toList := by simp [w, Value.missing, Value.char]
  exact ⟨hraises, ((guarded_iff_peg hp.many rfl hm le_rfl hraises).2.1 _ _).mp hends⟩

end ResumableParsing
