import ResumableParsing.Proofs.Meaning
import ResumableParsing.Proofs.Merging

namespace ResumableParsing

variable {κ : Type}

def Declines (g : Grammar κ) (w : Window) (pos : Int) (p : Parser κ) : Prop :=
  ∃ e, Eval g w (.parser p pos) (.failed e pos)

def DeclineWith (g : Grammar κ) (w : Window) (pos : Int) (es : List Failure)
    (ps : List (Parser κ)) : Prop :=
  List.Forall₂ (fun e p => Eval g w (.parser p pos) (.failed e pos)) es ps

inductive Decides (g : Grammar κ) (w : Window) (pos : Int) : List (Parser κ) → Result κ → Prop
  | here {p ps r} : Eval g w (.parser p pos) r → ¬ r.FailsAt pos → Decides g w pos (p :: ps) r
  | later {p ps r} : Declines g w pos p → Decides g w pos ps r → Decides g w pos (p :: ps) r

variable {g : Grammar κ} {w : Window} {p q first : Parser κ}
variable {others ps qs after : List (Parser κ)} {pos : Int} {r : Result κ} {e : Failure}
variable {es : List Failure} {earlier : Option Failure}

lemma exists_declineWith : (∃ es, DeclineWith g w pos es ps) ↔ ∀ p ∈ ps, Declines g w pos p := by
  constructor
  · rintro ⟨es, h⟩
    induction h with
    | nil => simp
    | cons he _ ih => exact List.forall_mem_cons.mpr ⟨⟨_, he⟩, ih⟩
  · intro h
    induction ps with
    | nil => exact ⟨[], .nil⟩
    | cons p ps ih =>
      obtain ⟨⟨e, he⟩, h⟩ := List.forall_mem_cons.mp h
      obtain ⟨es, hes⟩ := ih h
      exact ⟨e :: es, .cons he hes⟩

lemma DeclineWith.exists_of_mem (h : DeclineWith g w pos es ps) (he : e ∈ es) :
    ∃ p ∈ ps, Eval g w (.parser p pos) (.failed e pos) := by
  obtain ⟨i, hi, rfl⟩ := List.getElem_of_mem he
  exact ⟨_, List.getElem_mem (h.length_eq ▸ hi), h.get hi (h.length_eq ▸ hi)⟩

lemma DeclineWith.exists_mergeAll (h : DeclineWith g w pos es (first :: others)) :
    ∃ e, Failure.mergeAll es = some e := by
  cases h
  exact ⟨_, rfl⟩

lemma declineWith_append : DeclineWith g w pos es (ps ++ qs) ↔
    ∃ as bs, es = as ++ bs ∧ DeclineWith g w pos as ps ∧ DeclineWith g w pos bs qs := by
  constructor
  · intro h
    exact ⟨es.take ps.length, es.drop ps.length, (List.take_append_drop _ _).symm,
      List.forall₂_take_append _ _ _ h, List.forall₂_drop_append _ _ _ h⟩
  · rintro ⟨as, bs, rfl, has, hbs⟩
    exact List.rel_append has hbs

lemma decides_append : Decides g w pos (ps ++ qs) r ↔
    Decides g w pos ps r ∨ (∀ p ∈ ps, Declines g w pos p) ∧ Decides g w pos qs r := by
  induction ps with
  | nil =>
    constructor
    · exact fun h => .inr ⟨List.forall_mem_nil _, h⟩
    · rintro (h | ⟨_, h⟩)
      · cases h
      · exact h
  | cons p ps ih =>
    constructor
    · rintro (⟨hr, hn⟩ | ⟨hp, h⟩)
      · exact .inl (.here hr hn)
      · rcases ih.mp h with h | ⟨hps, h⟩
        · exact .inl (.later hp h)
        · exact .inr ⟨List.forall_mem_cons.mpr ⟨hp, hps⟩, h⟩
    · rintro ((⟨hr, hn⟩ | ⟨hp, h⟩) | ⟨hps, h⟩)
      · exact .here hr hn
      · exact .later hp (ih.mpr (.inl h))
      · obtain ⟨hp, hps⟩ := List.forall_mem_cons.mp hps
        exact .later hp (ih.mpr (.inr ⟨hps, h⟩))

lemma Decides.of_mem (hps : ∀ p ∈ ps, p = q ∨ Declines g w pos p) (hq : q ∈ ps)
    (hr : Eval g w (.parser q pos) r) (hn : ¬ r.FailsAt pos) : Decides g w pos ps r := by
  induction ps with
  | nil => simp at hq
  | cons p ps ih =>
    obtain ⟨rfl | hp, hps⟩ := List.forall_mem_cons.mp hps
    · exact .here hr hn
    · rcases List.mem_cons.mp hq with rfl | hq
      · exact .here hr hn
      · exact .later hp (ih hps hq)

lemma Decides.not_failsAt (h : Decides g w pos ps r) : ¬ r.FailsAt pos := by
  induction h with
  | here _ hn => exact hn
  | later _ _ ih => exact ih

lemma Parser.choice?_ok (h : choice? ps = .ok p) :
    ∃ first others, ps = first :: others ∧ p = .choice first others := by
  cases ps with
  | nil => simp [choice?] at h
  | cons first others =>
    simp only [choice?, Except.ok.injEq] at h
    exact ⟨first, others, rfl, h.symm⟩

namespace Eval

lemma alternatives_failed (hfirst : Eval g w (.parser first pos) (.failed e pos))
    (hothers : DeclineWith g w pos es others)
    (earlier : Option Failure) : Eval g w (.alternatives first others pos earlier)
      (.failed (es.foldl Failure.merge (e.after earlier)) pos) := by
  induction hothers generalizing first e earlier with
  | nil => exact .no_other hfirst
  | cons hq _ ih => exact .other hfirst (ih hq _)

lemma alternatives_decided (h : Decides g w pos (first :: others) r) (earlier : Option Failure) :
    ∃ others' earlier', Eval g w (.alternatives first others pos earlier)
      (r.within (.choice others' pos earlier')) := by
  generalize hps : first :: others = ps at h
  induction h generalizing first others earlier with
  | here hr hn =>
    cases hps
    exact ⟨_, _, .chosen hr hn⟩
  | @later p ps r hp h ih =>
    cases hps
    obtain ⟨e, he⟩ := hp
    obtain ⟨q, qs, rfl⟩ : ∃ q qs, ps = q :: qs := by
      cases h <;> exact ⟨_, _, rfl⟩
    obtain ⟨_, _, h⟩ := ih (some (e.after earlier)) rfl
    exact ⟨_, _, .other he h⟩

lemma alternatives_cases (h : Eval g w (.alternatives first others pos earlier) r) :
    (∃ e es, DeclineWith g w pos (e :: es) (first :: others) ∧
      r = .failed (es.foldl Failure.merge (e.after earlier)) pos) ∨
    ∃ r' others' earlier', Decides g w pos (first :: others) r' ∧
      r = r'.within (.choice others' pos earlier') := by
  induction others generalizing first earlier with
  | nil =>
    cases h with
    | no_other he => exact .inl ⟨_, [], .cons he .nil, rfl⟩
    | chosen hr hn => exact .inr ⟨_, _, _, .here hr hn, rfl⟩
  | cons q others ih =>
    cases h with
    | other he h =>
      rcases ih h with ⟨e', es, hes, rfl⟩ | ⟨r', others', earlier', hr, rfl⟩
      · exact .inl ⟨_, e' :: es, .cons he hes, rfl⟩
      · exact .inr ⟨r', others', earlier', .later ⟨_, he⟩ hr, rfl⟩
    | chosen hr hn => exact .inr ⟨_, _, _, .here hr hn, rfl⟩

lemma choice_failed (h : DeclineWith g w pos es (first :: others))
    (he : Failure.mergeAll es = some e) :
    Eval g w (.parser (.choice first others) pos) (.failed e pos) := by
  cases h with
  | cons hfirst hothers =>
    obtain rfl := Option.some.inj he
    exact .choice (alternatives_failed hfirst hothers none)

lemma choice_of_declines (hp : Parser.choice? ps = .ok p)
    (hps : ∀ q ∈ ps, Declines g w pos q) : Declines g w pos p := by
  obtain ⟨first, others, rfl, rfl⟩ := Parser.choice?_ok hp
  obtain ⟨_, hes⟩ := exists_declineWith.mpr hps
  obtain ⟨e, he⟩ := hes.exists_mergeAll
  exact ⟨e, choice_failed hes he⟩

lemma choice_of_mem (hp : Parser.choice? (ps ++ after) = .ok p)
    (hps : ∀ p ∈ ps, p = q ∨ Declines g w pos p) (hq : q ∈ ps)
    (hr : Eval g w (.parser q pos) r) (hn : ¬ r.FailsAt pos) :
    ∃ others earlier, Eval g w (.parser p pos) (r.within (.choice others pos earlier)) := by
  obtain ⟨first, others, hsplit, rfl⟩ := Parser.choice?_ok hp
  have hdecides : Decides g w pos (ps ++ after) r :=
    decides_append.mpr (.inl (.of_mem hps hq hr hn))
  rw [hsplit] at hdecides
  obtain ⟨_, _, h⟩ := alternatives_decided hdecides none
  exact ⟨_, _, .choice h⟩

end Eval

end ResumableParsing
