import ResumableParsing.Trie
import ResumableParsing.Proofs.Meaning.Character
import ResumableParsing.Proofs.Parts
import ResumableParsing.Proofs.Trie.Words

/-! At most one branch of a node takes the input's next key, and a node that ends a word gives that
word when the branch fails, however far it came. -/

namespace ResumableParsing

variable {κ : Type} {g : Grammar κ} {w : Window} {p q : Parser κ}
variable {alternatives before after : List (Parser κ)}
variable {pos : Int} {r : Result κ} {spelt key : String} {nodes : List (String × Trie)}
variable {t c : Trie} {terminal : Bool}

namespace Trie

@[elab_as_elim]
lemma ind {motive : Trie → Prop}
    (node : ∀ terminal nodes, (∀ d ∈ nodes, motive d.2) → motive (node terminal nodes)) :
    ∀ t, motive t
  | .node terminal nodes => node terminal nodes fun d _ => ind node d.2
termination_by t => sizeOf t
decreasing_by
  have hlt : sizeOf d < sizeOf nodes := List.sizeOf_lt_of_mem ‹_›
  obtain ⟨key, c⟩ := d
  simp only [Prod.mk.sizeOf_spec, Trie.node.sizeOf_spec] at hlt ⊢
  omega

def IsBranch (spelt : String) (d : String × Trie) (q : Parser κ) : Prop :=
  ∃ below, d.2.branches (spelt ++ d.1) = .ok below ∧
    q = (Parser.character (.str d.1)).next below

lemma childBranches_forall₂ (h : childBranches spelt nodes = .ok alternatives) :
    List.Forall₂ (IsBranch spelt) nodes alternatives := by
  induction nodes generalizing alternatives with
  | nil =>
    obtain rfl : alternatives = [] := by simpa [childBranches, eq_comm] using h
    exact .nil
  | cons d nodes ih =>
    obtain ⟨key, c⟩ := d
    rw [childBranches] at h
    cases hb : c.branches (κ := κ) (spelt ++ key) with
    | error f => simp [hb, bind, Except.bind] at h
    | ok below =>
      cases hr : childBranches (κ := κ) spelt nodes with
      | error f => simp [hb, hr, bind, Except.bind] at h
      | ok others =>
        obtain rfl : (Parser.character (.str key)).next below :: others = alternatives := by
          simpa [hb, hr, bind, Except.bind, pure, Except.pure] using h
        exact .cons ⟨below, hb, rfl⟩ (ih hr)

lemma childBranches_ok (h : childBranches spelt nodes = .ok alternatives) :
    (∀ d ∈ nodes, ∃ q ∈ alternatives, IsBranch spelt d q) ∧
      ∀ q ∈ alternatives, ∃ d ∈ nodes, IsBranch spelt d q := by
  have hall := childBranches_forall₂ h
  clear h
  induction hall with
  | nil => simp
  | cons hfirst _ ih =>
    obtain ⟨hnodes, hothers⟩ := ih
    constructor
    · refine List.forall_mem_cons.mpr ⟨⟨_, List.mem_cons_self, hfirst⟩, ?_⟩
      intro d hd
      obtain ⟨q, hq, hbranch⟩ := hnodes d hd
      exact ⟨q, List.mem_cons_of_mem _ hq, hbranch⟩
    · refine List.forall_mem_cons.mpr ⟨⟨_, List.mem_cons_self, hfirst⟩, ?_⟩
      intro q hq
      obtain ⟨d, hd, hbranch⟩ := hothers q hq
      exact ⟨d, List.mem_cons_of_mem _ hd, hbranch⟩

lemma exists_childBranches (h : ∀ d ∈ nodes, ∃ q : Parser κ, IsBranch spelt d q) :
    ∃ alternatives : List (Parser κ), childBranches spelt nodes = .ok alternatives := by
  induction nodes with
  | nil => exact ⟨[], rfl⟩
  | cons d nodes ih =>
    obtain ⟨⟨_, below, hb, _⟩, hnodes⟩ := List.forall_mem_cons.mp h
    obtain ⟨others, hr⟩ := ih hnodes
    exact ⟨_, by rw [childBranches, hb, hr]; rfl⟩

def chosen (terminal : Bool) (spelt : String) (alternatives : List (Parser κ)) :
    List (Parser κ) :=
  if terminal then alternatives.map .attempt ++ [.always (.str spelt)] else alternatives

lemma branches_node : (node terminal nodes).branches spelt =
    (childBranches spelt nodes >>= fun alternatives =>
      Parser.choice? (chosen terminal spelt alternatives) : Except Fault (Parser κ)) := by
  rw [branches]
  cases terminal <;> rfl

lemma branches_ok (h : (node terminal nodes).branches spelt = .ok p) :
    ∃ alternatives, childBranches spelt nodes = .ok alternatives ∧
      Parser.choice? (chosen terminal spelt alternatives) = .ok p := by
  rw [branches_node] at h
  cases ha : childBranches (κ := κ) spelt nodes with
  | error f => simp [ha, bind, Except.bind] at h
  | ok alternatives => exact ⟨alternatives, rfl, by simpa [ha, bind, Except.bind] using h⟩

lemma Live.exists_branches (h : t.Live) (spelt : String) :
    ∃ p : Parser κ, t.branches spelt = .ok p := by
  induction h generalizing spelt with
  | @node terminal nodes hnode _ _ ih =>
    have hnodes : ∀ d ∈ nodes, ∃ q : Parser κ, IsBranch spelt d q := by
      rintro ⟨key, c⟩ hd
      obtain ⟨below, hb⟩ := ih key c hd (spelt ++ key)
      exact ⟨_, below, hb, rfl⟩
    obtain ⟨alternatives, ha⟩ := exists_childBranches hnodes
    have hne : chosen terminal spelt alternatives ≠ [] := by
      rcases hnode with rfl | hne
      · simp [chosen]
      · obtain ⟨d, nodes, rfl⟩ := List.exists_cons_of_ne_nil hne
        obtain ⟨q, hq, _⟩ := (childBranches_ok ha).1 d List.mem_cons_self
        cases terminal <;> simp [chosen, List.ne_nil_of_mem hq]
    obtain ⟨first, others, hsplit⟩ := List.exists_cons_of_ne_nil hne
    exact ⟨.choice first others, by rw [branches_node, ha]; simp [bind, Except.bind, hsplit]; rfl⟩

section

variable {ok : Parser κ → Prop} (hok : ∀ key, (Parser.character (.str key)).MadeOf ok)

include hok

lemma madeOf_branches (h : t.branches spelt = .ok p) : p.MadeOf ok := by
  induction t using Trie.ind generalizing spelt p with
  | node terminal nodes ih =>
    obtain ⟨alternatives, hc, hchosen⟩ := branches_ok h
    have hall : ∀ q ∈ alternatives, q.MadeOf ok := by
      intro q hq
      obtain ⟨d, hd, below, hb, rfl⟩ := (childBranches_ok hc).2 q hq
      exact (hok d.1).next (ih d hd hb)
    refine .choice? hchosen ?_
    intro q hq
    cases terminal with
    | false => exact hall q hq
    | true =>
      rcases List.mem_append.mp hq with hq | hq
      · obtain ⟨q', hq', rfl⟩ := List.mem_map.mp hq
        exact .attempt (hall q' hq')
      · obtain rfl := List.mem_singleton.mp hq
        exact .always

lemma madeOf_compile (h : t.compile = .ok p) : p.MadeOf ok := by
  rw [compile] at h
  split_ifs at h
  cases hb : t.branches (κ := κ) "" with
  | error f => simp [hb, bind, Except.bind] at h
  | ok below =>
    obtain rfl : .attempt below = p := by simpa [hb, bind, Except.bind, pure, Except.pure] using h
    exact .attempt (madeOf_branches hok hb)

end

lemma eval_terminal (h : Parser.choice? (chosen true spelt alternatives) = .ok p)
    (hall : ∀ q ∈ alternatives, ∃ e pos', Eval g w (.parser q pos) (.failed e pos')) :
    Eval g w (.parser p pos) (.matched (.str spelt) pos) := by
  have hps : ∀ q ∈ alternatives.map Parser.attempt ++ [.always (.str spelt)],
      q = .always (.str spelt) ∨ Declines g w pos q := by
    intro q hq
    rcases List.mem_append.mp hq with hq | hq
    · obtain ⟨q', hq', rfl⟩ := List.mem_map.mp hq
      obtain ⟨e, _, he⟩ := hall q' hq'
      exact .inr ⟨e, he.attempt⟩
    · exact .inl (List.mem_singleton.mp hq)
  have hchosen : Parser.choice? ((alternatives.map Parser.attempt ++ [.always (.str spelt)]) ++ [])
      = .ok p := by
    rw [List.append_nil]
    exact h
  obtain ⟨_, _, hp⟩ := Eval.choice_of_mem hchosen hps (by simp) .always not_false
  exact hp

lemma eval_branch (h : Parser.choice? (chosen terminal spelt (before ++ after)) = .ok p)
    (hq : q ∈ before) (hr : Eval g w (.parser q pos) r) (hn : ¬ r.FailsAt pos)
    (hfail : terminal = true → ∀ e pos', r ≠ .failed e pos')
    (hothers : ∀ q' ∈ before, q' = q ∨ Declines g w pos q') :
    ∃ frames, Eval g w (.parser p pos) (r.under frames) := by
  cases terminal with
  | false =>
    have hchosen : Parser.choice? (before ++ after) = .ok p := h
    obtain ⟨others, earlier, hp⟩ := Eval.choice_of_mem hchosen hothers hq hr hn
    exact ⟨[.choice others pos earlier], by cases r <;> exact hp⟩
  | true =>
    -- the branches stand behind attempts here, and those move nothing but failures
    have hattempt : Eval g w (.parser (.attempt q) pos) (r.within (.attempt pos)) := by
      have hattempted := hr.attempt
      cases r with
      | failed e pos' => exact absurd rfl (hfail rfl e pos')
      | matched v pos' | suspended q' pos' frames | fault f => exact hattempted
    have hn' : ¬ (r.within (.attempt pos)).FailsAt pos := by
      cases r <;> simp_all [Result.within, Result.FailsAt]
    have hps : ∀ q' ∈ before.map Parser.attempt, q' = .attempt q ∨ Declines g w pos q' := by
      intro q' hq'
      obtain ⟨q₀, hq₀, rfl⟩ := List.mem_map.mp hq'
      rcases hothers q₀ hq₀ with rfl | ⟨e, he⟩
      · exact .inl rfl
      · exact .inr ⟨e, he.attempt⟩
    have hchosen : Parser.choice? (before.map Parser.attempt ++
        (after.map Parser.attempt ++ [.always (.str spelt)])) = .ok p := by
      simpa [chosen] using h
    obtain ⟨others, earlier, hp⟩ :=
      Eval.choice_of_mem hchosen hps (List.mem_map_of_mem hq) hattempt hn'
    refine ⟨[.attempt pos, .choice others pos earlier], ?_⟩
    cases r <;> simpa [Result.within, Result.under] using hp

lemma IsBranch.rejected {d : String × Trie} {reading : Reading} (hb : IsBranch spelt d q)
    (h : w.read pos = .ok reading) (hm : reading ≠ .missing)
    (hk : reading ≠ .element (.str d.1)) : Eval g w (.parser q pos)
      (.failed ⟨pos, .expected [d.1] (Failure.foundOf reading.value)⟩ pos) := by
  obtain ⟨below, _, rfl⟩ := hb
  exact (Eval.character_rejected h hm hk).bind_stop not_false

lemma IsBranch.declines {d : String × Trie} {reading : Reading} (hb : IsBranch spelt d q)
    (h : w.read pos = .ok reading) (hm : reading ≠ .missing)
    (hk : reading ≠ .element (.str d.1)) : Declines g w pos q :=
  ⟨_, hb.rejected h hm hk⟩

lemma declines_of_ne (hnodup : (nodes.map Prod.fst).Nodup) (hc : (key, c) ∈ nodes)
    (hq : IsBranch spelt (key, c) q) {d : String × Trie} (hd : d ∈ nodes) {q' : Parser κ}
    (hq' : IsBranch spelt d q') (hread : w.read pos = .ok (.element (.str key))) :
    q' = q ∨ Declines g w pos q' := by
  by_cases hkey : d.1 = key
  · obtain rfl : d = (key, c) := List.inj_on_of_nodup_map hnodup hd hc hkey
    obtain ⟨below, hb, rfl⟩ := hq
    obtain ⟨below', hb', rfl⟩ := hq'
    obtain rfl : below' = below := Except.ok.inj (hb'.symm.trans hb)
    exact .inl rfl
  · exact .inr (hq'.declines hread (by simp) (by simpa [eq_comm] using hkey))

lemma exists_taken (hc : childBranches spelt nodes = .ok alternatives)
    (hnodup : (nodes.map Prod.fst).Nodup) (hmem : (key, c) ∈ nodes)
    (hread : w.read pos = .ok (.element (.str key))) :
    ∃ below q, c.branches (spelt ++ key) = .ok below ∧ q ∈ alternatives ∧
      (∀ r, Eval g w (.parser below (pos + 1)) r → Eval g w (.parser q pos) r) ∧
      ∀ q' ∈ alternatives, q' = q ∨ Declines g w pos q' := by
  obtain ⟨hbranches, halternatives⟩ := childBranches_ok hc
  obtain ⟨q, hq, hbranch⟩ := hbranches _ hmem
  have hothers : ∀ q' ∈ alternatives, q' = q ∨ Declines g w pos q' := by
    intro q' hq'
    obtain ⟨d, hd, hbranch'⟩ := halternatives q' hq'
    exact declines_of_ne hnodup hmem hbranch hd hbranch' hread
  obtain ⟨below, hbelow, rfl⟩ := hbranch
  exact ⟨below, _, hbelow, hq, fun r hr => .bind (Eval.character_matched hread) hr, hothers⟩

end Trie

end ResumableParsing
