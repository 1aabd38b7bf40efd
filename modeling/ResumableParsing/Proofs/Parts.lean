import ResumableParsing.Proofs.Step

/-! A class of parsers is told by what it allows of tokens, failures, positions, negations and
rules. The combinators do not lead out of it, and neither does the machine. -/

namespace ResumableParsing

variable {κ : Type}

namespace Parser

/-- `ok` is asked of the parts that some class may have to do without. -/
inductive MadeOf (ok : Parser κ → Prop) : Parser κ → Prop
  | token {accepts mismatch} : ok (.token accepts mismatch) → MadeOf ok (.token accepts mismatch)
  | always {v} : MadeOf ok (.always v)
  | fail {message} : ok (.fail message) → MadeOf ok (.fail message)
  | failWith {e} : ok (.failWith e) → MadeOf ok (.failWith e)
  | position : ok .position → MadeOf ok .position
  | endOfInput : MadeOf ok .endOfInput
  | bind {p next} : MadeOf ok p → (∀ v, MadeOf ok (next v)) → MadeOf ok (.bind p next)
  | choice {first others} : MadeOf ok first → (∀ q ∈ others, MadeOf ok q) →
      MadeOf ok (.choice first others)
  | attempt {p} : MadeOf ok p → MadeOf ok (.attempt p)
  | sequence {parsers} : (∀ q ∈ parsers, MadeOf ok q) → MadeOf ok (.sequence parsers)
  | enumeration {parsers} : (∀ q ∈ parsers, MadeOf ok q) → MadeOf ok (.enumeration parsers)
  | many {p} : MadeOf ok p → MadeOf ok (.many p)
  | lookahead {p} : MadeOf ok p → MadeOf ok (.lookahead p)
  | notFollowedBy {p label} : ok (.notFollowedBy p label) → MadeOf ok p →
      MadeOf ok (.notFollowedBy p label)
  | expected {label p} : MadeOf ok p → MadeOf ok (.expected label p)
  | rule {key} : ok (.rule key) → MadeOf ok (.rule key)
  | raise {f} : MadeOf ok (.raise f)

namespace MadeOf

variable {ok : Parser κ → Prop} {p q opening closing : Parser κ}

lemma next (hp : p.MadeOf ok) (hq : q.MadeOf ok) : (p.next q).MadeOf ok := .bind hp fun _ => hq

lemma followedBy (hp : p.MadeOf ok) (hq : q.MadeOf ok) : (p.followedBy q).MadeOf ok :=
  .bind hp fun _ => .bind hq fun _ => .always

lemma map (hp : p.MadeOf ok) (f : Value → Except Fault Value) : (p.map f).MadeOf ok := by
  refine .bind hp ?_
  intro v
  cases f v with
  | ok result => exact .always
  | error fault => exact .raise

lemma choice? {ps : List (Parser κ)} (h : Parser.choice? ps = .ok p)
    (hps : ∀ q ∈ ps, q.MadeOf ok) : p.MadeOf ok := by
  cases ps with
  | nil => cases h
  | cons first others =>
    cases h
    obtain ⟨hfirst, hothers⟩ := List.forall_mem_cons.mp hps
    exact .choice hfirst hothers

lemma either (hp : p.MadeOf ok) (hq : q.MadeOf ok) : (p.either q).MadeOf ok :=
  .choice hp (List.forall_mem_singleton.mpr hq)

lemma optional (hp : p.MadeOf ok) (default : Value) : (p.optional default).MadeOf ok :=
  .choice hp (List.forall_mem_singleton.mpr .always)

lemma asList (hp : p.MadeOf ok) : p.asList.MadeOf ok := hp.map _

lemma leading (hp : p.MadeOf ok) (hq : q.MadeOf ok) : (p.leading q).MadeOf ok :=
  .bind hp fun _ => (MadeOf.many hq).map _

lemma many1 (hp : p.MadeOf ok) : p.many1.MadeOf ok := hp.leading hp

lemma sepBy (hp : p.MadeOf ok) (hq : q.MadeOf ok) : (p.sepBy q).MadeOf ok :=
  (hp.leading (hq.next hp)).optional _

lemma between (ho : opening.MadeOf ok) (hc : closing.MadeOf ok) (hp : p.MadeOf ok) :
    (Parser.between opening closing p).MadeOf ok :=
  ho.next (hp.followedBy hc)

end MadeOf

end Parser

def Frame.MadeOf (ok : Parser κ → Prop) : Frame κ → Prop
  | .bind next => ∀ v, (next v).MadeOf ok
  | .choice others _ _ => ∀ q ∈ others, q.MadeOf ok
  | .sequence others => ∀ q ∈ others, q.MadeOf ok
  | .enumeration others _ => ∀ q ∈ others, q.MadeOf ok
  | .many body _ _ => body.MadeOf ok
  | _ => True

def Stack.MadeOf (ok : Parser κ → Prop) (stack : Stack κ) : Prop :=
  ∀ frame ∈ stack, frame.MadeOf ok

def State.MadeOf (ok : Parser κ → Prop) : State κ → Prop
  | .run p _ stack => p.MadeOf ok ∧ stack.MadeOf ok
  | .matched _ _ stack => stack.MadeOf ok
  | .failed _ _ stack => stack.MadeOf ok

variable {g : Grammar κ} {w : Window} {s t : State κ} {ok : Parser κ → Prop}

lemma Stack.madeOf_cons {frame : Frame κ} {stack : Stack κ} :
    Stack.MadeOf ok (frame :: stack) ↔ frame.MadeOf ok ∧ stack.MadeOf ok :=
  List.forall_mem_cons

lemma Parser.MadeOf.enter {p : Parser κ} {pos : Int} {stack : Stack κ}
    (hg : ∀ key, ok (.rule key) → (g key).MadeOf ok) (hp : p.MadeOf ok) (hs : stack.MadeOf ok)
    (h : p.enter g w pos stack = .ok (.next t)) : t.MadeOf ok := by
  by_cases hreads : p.reads
  · obtain ⟨_, _, ⟨_, _, _, rfl⟩ | ⟨_, _, _, rfl⟩⟩ := enter_next_of_reads hreads h
    · exact hs
    · exact hs
  · cases hp with
    | token _ => simp [reads] at hreads
    | endOfInput => simp [reads] at hreads
    | always => cases h; exact hs
    | fail _ => cases h; exact hs
    | failWith _ => cases h; exact hs
    | position _ => cases h; exact hs
    | raise => cases h
    | rule hkey => cases h; exact ⟨hg _ hkey, hs⟩
    | bind hp hnext => cases h; exact ⟨hp, Stack.madeOf_cons.mpr ⟨hnext, hs⟩⟩
    | choice hfirst hothers => cases h; exact ⟨hfirst, Stack.madeOf_cons.mpr ⟨hothers, hs⟩⟩
    | attempt hp => cases h; exact ⟨hp, Stack.madeOf_cons.mpr ⟨trivial, hs⟩⟩
    | lookahead hp => cases h; exact ⟨hp, Stack.madeOf_cons.mpr ⟨trivial, hs⟩⟩
    | notFollowedBy _ hp => cases h; exact ⟨hp, Stack.madeOf_cons.mpr ⟨trivial, hs⟩⟩
    | expected hp => cases h; exact ⟨hp, Stack.madeOf_cons.mpr ⟨trivial, hs⟩⟩
    | many hp => cases h; exact ⟨hp, Stack.madeOf_cons.mpr ⟨hp, hs⟩⟩
    | @sequence parsers hparsers =>
      cases parsers with
      | nil => cases h; exact hs
      | cons first others =>
        cases h
        obtain ⟨hfirst, hothers⟩ := List.forall_mem_cons.mp hparsers
        exact ⟨hfirst, Stack.madeOf_cons.mpr ⟨hothers, hs⟩⟩
    | @enumeration parsers hparsers =>
      cases parsers with
      | nil => cases h; exact hs
      | cons first others =>
        cases h
        obtain ⟨hfirst, hothers⟩ := List.forall_mem_cons.mp hparsers
        exact ⟨hfirst, Stack.madeOf_cons.mpr ⟨hothers, hs⟩⟩

lemma Frame.MadeOf.onMatch {frame : Frame κ} {v : Value} {pos : Int} {stack : Stack κ}
    (hf : frame.MadeOf ok) (hs : stack.MadeOf ok) (h : frame.onMatch v pos stack = .ok t) :
    t.MadeOf ok := by
  cases frame with
  | bind next => cases h; exact ⟨hf v, hs⟩
  | choice | attempt | lookahead | expected => cases h; exact hs
  | sequence parsers =>
    cases parsers with
    | nil => cases h; exact hs
    | cons next others =>
      cases h
      obtain ⟨hnext, hothers⟩ := List.forall_mem_cons.mp hf
      exact ⟨hnext, Stack.madeOf_cons.mpr ⟨hothers, hs⟩⟩
  | enumeration parsers gathered =>
    cases parsers with
    | nil => cases h; exact hs
    | cons next others =>
      cases h
      obtain ⟨hnext, hothers⟩ := List.forall_mem_cons.mp hf
      exact ⟨hnext, Stack.madeOf_cons.mpr ⟨hothers, hs⟩⟩
  | many body start gathered =>
    rcases Frame.onMatch_many_ok h with ⟨_, rfl⟩ | ⟨_, rfl⟩
    · exact hs
    · exact ⟨hf, Stack.madeOf_cons.mpr ⟨hf, hs⟩⟩
  | notFollowedBy start label =>
    obtain ⟨e, _, rfl⟩ := Frame.onMatch_notFollowedBy_ok h
    exact hs

lemma Frame.MadeOf.onFailure {frame : Frame κ} {e : Failure} {pos : Int} {stack : Stack κ}
    (hf : frame.MadeOf ok) (hs : stack.MadeOf ok) (h : frame.onFailure e pos stack = .ok t) :
    t.MadeOf ok := by
  cases frame with
  | bind | attempt | sequence | enumeration | lookahead | notFollowedBy => cases h; exact hs
  | choice others start earlier =>
    obtain ⟨e', rfl⟩ | ⟨next, others', merged, rfl, rfl⟩ := Frame.onFailure_choice_ok h
    · exact hs
    · obtain ⟨hnext, hothers⟩ := List.forall_mem_cons.mp hf
      exact ⟨hnext, Stack.madeOf_cons.mpr ⟨hothers, hs⟩⟩
  | many body start gathered =>
    rcases Frame.onFailure_many_ok h with ⟨_, rfl⟩ | ⟨_, rfl⟩
    · exact hs
    · exact hs
  | expected start label =>
    obtain ⟨e', _, _, _, rfl⟩ | rfl := Frame.onFailure_expected_ok h
    · exact hs
    · exact hs

lemma Steps.madeOf (h : Steps g w s t) (hg : ∀ key, ok (.rule key) → (g key).MadeOf ok)
    (hs : s.MadeOf ok) : t.MadeOf ok := by
  rcases State.step_next h with
    ⟨p, pos, stack, rfl, ht⟩ | ⟨v, pos, frame, stack, rfl, ht⟩ | ⟨e, pos, frame, stack, rfl, ht⟩
  · exact hs.1.enter hg hs.2 ht
  · obtain ⟨hf, hs⟩ := Stack.madeOf_cons.mp hs
    exact hf.onMatch hs ht
  · obtain ⟨hf, hs⟩ := Stack.madeOf_cons.mp hs
    exact hf.onFailure hs ht

lemma Comes.madeOf (h : Comes g s t) (hg : ∀ key, ok (.rule key) → (g key).MadeOf ok)
    (hs : s.MadeOf ok) : t.MadeOf ok := by
  induction h with
  | refl => exact hs
  | tail _ ht ih =>
    obtain ⟨w, ht⟩ := ht
    exact ht.madeOf hg ih

end ResumableParsing
