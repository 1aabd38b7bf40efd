import ResumableParsing.Proofs.Meaning.Progress
import ResumableParsing.Proofs.Resumption
import ResumableParsing.Proofs.Trie.Branches
import ResumableParsing.Proofs.Window

/-! Where the walk along the input ends in the middle of words, the parser falls back to the nearest
node above that ends one, over all branches in between. -/

namespace ResumableParsing.Trie

variable {κ : Type} {g : Grammar κ} {w : Window} {p : Parser κ} {alternatives : List (Parser κ)}
variable {pos : Int} {rest : List Value} {v : Value} {r : Result κ}
variable {spelt key : String} {nodes : List (String × Trie)} {t c : Trie} {terminal : Bool}

def Waits (w : Window) (t : Trie) (rest : List Value) : Prop := w.closed = false ∧ t.goesOn rest

def Finds (t : Trie) (w : Window) (spelt : String) (pos : Int) (rest : List Value) :
    Result κ → Prop
  | .suspended _ pos' _ => Waits w t rest ∧ pos' = pos + rest.length
  | .matched v pos' => ¬ Waits w t rest ∧ ∃ u, t.longest? rest = some u ∧
      v = .str (spelt ++ String.join u) ∧ pos' = pos + u.length
  | .failed _ pos' => ¬ Waits w t rest ∧ t.longest? rest = none ∧ pos ≤ pos'
  | .fault _ => False

@[simp] lemma finds_under {frames : Stack κ} :
    t.Finds w spelt pos rest (r.under frames) ↔ t.Finds w spelt pos rest r := by
  cases r <;> rfl

lemma waits_cons (hb : t.below? v = some (key, c)) : Waits w t (v :: rest) ↔ Waits w c rest := by
  simp [Waits, goesOn, hb]

lemma not_waits_cons (hb : t.below? v = none) : ¬ Waits w t (v :: rest) := by
  simp [Waits, goesOn, hb]

lemma Finds.of_below (hb : t.below? v = some (key, c))
    (h : c.Finds w (spelt ++ key) (pos + 1) rest r)
    (hfail : t.terminal = true → ∀ e pos', r ≠ .failed e pos') :
    t.Finds w spelt pos (v :: rest) r := by
  cases r with
  | suspended q pos' frames =>
    obtain ⟨hw, rfl⟩ := h
    exact ⟨(waits_cons hb).mpr hw, by simp; omega⟩
  | matched v' pos' =>
    obtain ⟨hw, u, hu, rfl, rfl⟩ := h
    refine ⟨mt (waits_cons hb).mp hw, key :: u, ?_, ?_, ?_⟩
    · simp [longest?_cons hb, hu]
    · simp [String.join_cons, String.append_assoc]
    · simp
      omega
  | failed e pos' =>
    obtain ⟨hw, hu, hle⟩ := h
    refine ⟨mt (waits_cons hb).mp hw, ?_, by omega⟩
    have ht : t.terminal = false := by
      by_contra hn
      exact hfail (by simpa using hn) e pos' rfl
    simp [longest?_cons hb, hu, here?_eq_none.mpr ht]
  | fault f => exact h

lemma exists_finds_of_declines (h : Parser.choice? (chosen terminal spelt alternatives) = .ok p)
    (hall : ∀ q ∈ alternatives, ∃ e pos', Eval g w (.parser q pos) (.failed e pos') ∧
      (terminal = false → pos' = pos))
    (hw : ¬ Waits w (node terminal nodes) rest)
    (hl : (node terminal nodes).longest? rest = (node terminal nodes).here?) :
    ∃ r, Eval g w (.parser p pos) r ∧ (node terminal nodes).Finds w spelt pos rest r := by
  cases terminal with
  | false =>
    have hdeclines : ∀ q ∈ alternatives, Declines g w pos q := by
      intro q hq
      obtain ⟨e, pos', he, hpos⟩ := hall q hq
      obtain rfl := hpos rfl
      exact ⟨e, he⟩
    obtain ⟨e, he⟩ := Eval.choice_of_declines h hdeclines
    exact ⟨_, he, hw, hl, le_rfl⟩
  | true =>
    have hmatched : Eval g w (.parser p pos) (.matched (.str spelt) pos) := by
      apply eval_terminal h
      intro q hq
      obtain ⟨e, pos', he, _⟩ := hall q hq
      exact ⟨e, pos', he⟩
    exact ⟨_, hmatched, hw, [], hl, by simp, by simp⟩

lemma exists_finds_waiting (hc : childBranches spelt nodes = .ok alternatives)
    (h : Parser.choice? (chosen terminal spelt alternatives) = .ok p)
    (hread : w.read pos = .ok .missing) (hw : Waits w (node terminal nodes) []) :
    ∃ r, Eval g w (.parser p pos) r ∧ (node terminal nodes).Finds w spelt pos [] r := by
  obtain ⟨hnodes, halternatives⟩ := childBranches_ok hc
  obtain ⟨q, others, rfl⟩ : ∃ q others, alternatives = q :: others := by
    apply List.exists_cons_of_ne_nil
    obtain ⟨d, _, rfl⟩ : ∃ d nodes', nodes = d :: nodes' := by
      apply List.exists_cons_of_ne_nil
      simpa [Waits, goesOn, children] using hw.2
    obtain ⟨q, hq, _⟩ := hnodes d List.mem_cons_self
    exact List.ne_nil_of_mem hq
  obtain ⟨d, _, below, _, rfl⟩ := halternatives q List.mem_cons_self
  -- the first child already finds nothing to read
  have hfirst : Eval g w (.parser ((Parser.character (.str d.1)).next below) pos)
      (.suspended (.character (.str d.1)) pos [.bind fun _ => below]) :=
    (Eval.character_suspended hread).bind_stop not_false
  have hsplit : Parser.choice? (chosen terminal spelt
      ([(Parser.character (.str d.1)).next below] ++ others)) = .ok p := h
  obtain ⟨frames, hp⟩ := eval_branch hsplit List.mem_cons_self hfirst not_false (by simp) (by simp)
  exact ⟨_, hp, hw, by simp⟩

lemma exists_finds_nil (hp : (node terminal nodes).branches spelt = .ok p) (ha : w.Ahead pos []) :
    ∃ r, Eval g w (.parser p pos) r ∧ (node terminal nodes).Finds w spelt pos [] r := by
  obtain ⟨alternatives, hc, hchosen⟩ := branches_ok hp
  have hread := ha.read_nil
  by_cases hw : Waits w (node terminal nodes) []
  · exact exists_finds_waiting hc hchosen (by simpa [hw.1] using hread) hw
  · refine exists_finds_of_declines hchosen ?_ hw rfl
    intro q hq
    obtain ⟨d, hd, hbranch⟩ := (childBranches_ok hc).2 q hq
    have hclosed : w.closed = true := by
      by_contra hn
      have hne : nodes ≠ [] := List.ne_nil_of_mem hd
      exact hw ⟨by simpa using hn, by simpa [goesOn, children] using hne⟩
    have hread : w.read pos = .ok .endOfInput := by simpa [hclosed] using hread
    obtain ⟨e, he⟩ := hbranch.declines (g := g) hread (by simp) (by simp)
    exact ⟨e, pos, he, fun _ => rfl⟩

lemma ofElement_ne_key (hb : (node terminal nodes).below? v = none) :
    ∀ d ∈ nodes, Reading.ofElement v ≠ .element (.str d.1) := by
  intro d hd heq
  obtain rfl := Reading.ofElement_eq_str.mp heq
  exact below?_ne_none hd hb

theorem exists_finds (hl : t.Live) (hp : t.branches spelt = .ok p) (ha : w.Ahead pos rest)
    (hm : Value.missing ∉ rest) :
    ∃ r, Eval g w (.parser p pos) r ∧ t.Finds w spelt pos rest r := by
  induction rest generalizing t spelt p pos with
  | nil =>
    cases t
    exact exists_finds_nil hp ha
  | cons v rest ih =>
    cases hl with
    | @node terminal nodes hnode hnodup hnodes =>
    obtain ⟨alternatives, hc, hchosen⟩ := branches_ok hp
    obtain ⟨hv, hrest⟩ := List.ne_and_not_mem_of_not_mem_cons hm
    cases hb : (node terminal nodes).below? v with
    | none =>
      refine exists_finds_of_declines hchosen ?_ (not_waits_cons hb) (longest?_cons_of_none hb)
      intro q hq
      obtain ⟨d, hd, hbranch⟩ := (childBranches_ok hc).2 q hq
      have hmissing := mt Reading.ofElement_eq_missing.mp (Ne.symm hv)
      obtain ⟨e, he⟩ := hbranch.declines (g := g) ha.read_cons hmissing (ofElement_ne_key hb d hd)
      exact ⟨e, pos, he, fun _ => rfl⟩
    | some d =>
      obtain ⟨key, c⟩ := d
      obtain ⟨rfl, hchild⟩ := below?_eq_some.mp hb
      have hmem : (key, c) ∈ nodes := mem_of_child? hchild
      obtain ⟨below, q, hbelow, hq, htaken, hothers⟩ :=
        exists_taken (g := g) hc hnodup hmem ha.read_cons
      obtain ⟨r, hr, hfinds⟩ := ih (hnodes key c hmem) hbelow ha.tail hrest
      by_cases hfail : terminal = true → ∀ e pos', r ≠ .failed e pos'
      · have hn : ¬ r.FailsAt pos := by
          cases r with
          | failed e pos' =>
            have hle : pos + 1 ≤ pos' := hfinds.2.2
            simp only [Result.FailsAt]
            omega
          | matched v pos' | suspended q pos' frames | fault f => exact not_false
        obtain ⟨frames, hnode⟩ :=
          eval_branch (by rwa [List.append_nil]) hq (htaken r hr) hn hfail hothers
        exact ⟨_, hnode, finds_under.mpr (.of_below hb hfinds hfail)⟩
      · -- the branch failed beyond a word of this node
        push Not at hfail
        obtain ⟨ht, e, pos', rfl⟩ := hfail
        obtain ⟨hw, hl, _⟩ := hfinds
        refine exists_finds_of_declines hchosen ?_ (mt (waits_cons hb).mp hw) ?_
        · intro q' hq'
          rcases hothers q' hq' with rfl | ⟨e', he'⟩
          · exact ⟨e, pos', htaken _ hr, by simp [ht]⟩
          · exact ⟨e', pos, he', fun _ => rfl⟩
        · simp [longest?_cons hb, hl]

lemma Live.compile_ok (h : t.Live) : ∃ below : Parser κ, t.branches "" = .ok below ∧
    t.compile = .ok (.attempt below) := by
  obtain ⟨below, hb⟩ := h.exists_branches (κ := κ) ""
  have hne : t.isEmpty = false := by
    obtain ⟨hnode, _, _⟩ := h
    rcases hnode with rfl | hnode
    · simp [isEmpty, terminal]
    · simp [isEmpty, children, hnode]
  exact ⟨below, hb, by rw [compile, hne, hb]; rfl⟩

variable {below : Parser κ} {start : Int} {words : List Word} {u : Word}

lemma exists_ends (hl : t.Live) (hb : t.branches "" = .ok below) (ha : w.Ahead start rest)
    (hm : Value.missing ∉ rest) : ∃ r : Result κ, t.Finds w "" start rest r ∧
      Ends g w (.run (.attempt below) start []) (r.attempted start).outcome := by
  obtain ⟨r, hr, hfinds⟩ := exists_finds (g := g) hl hb ha hm
  exact ⟨r, hfinds, hr.attempt.ends⟩

section

variable (hl : t.Live) (hb : t.branches "" = .ok below) (ha : w.Ahead start rest)
variable (hm : Value.missing ∉ rest)

include hl hb ha hm

lemma ends_matched (hw : ¬ Waits w t rest) (hu : t.longest? rest = some u) :
    Ends g w (.run (.attempt below) start [])
      (.ok (.matched (.str (String.join u)) (start + u.length))) := by
  obtain ⟨r, hfinds, hends⟩ := exists_ends (g := g) hl hb ha hm
  cases r with
  | matched v pos =>
    obtain ⟨_, u', hu', rfl, rfl⟩ := hfinds
    obtain rfl := Option.some.inj (hu.symm.trans hu')
    simpa [Result.attempted, Result.within, Result.outcome] using hends
  | failed e pos => simp [hfinds.2.1] at hu
  | suspended q pos frames => exact absurd hfinds.1 hw
  | fault f => exact hfinds.elim

lemma ends_failed (hw : ¬ Waits w t rest) (hn : t.longest? rest = none) :
    ∃ e, Ends g w (.run (.attempt below) start []) (.ok (.failed e start)) := by
  obtain ⟨r, hfinds, hends⟩ := exists_ends (g := g) hl hb ha hm
  cases r with
  | matched v pos =>
    obtain ⟨_, u, hu, _⟩ := hfinds
    simp [hn] at hu
  | failed e pos => exact ⟨e, hends⟩
  | suspended q pos frames => exact absurd hfinds.1 hw
  | fault f => exact hfinds.elim

lemma ends_suspended (hw : Waits w t rest) : ∃ q stack,
    Ends g w (.run (.attempt below) start []) (.ok (.needsMore q w.stop stack)) ∧
      stack.watermark w.stop = start := by
  obtain ⟨r, hfinds, hends⟩ := exists_ends (g := g) hl hb ha hm
  cases r with
  | matched v pos => exact absurd hw hfinds.1
  | failed e pos => exact absurd hw hfinds.1
  | suspended q pos frames =>
    obtain ⟨_, rfl⟩ := hfinds
    rw [← ha.stop_eq] at hends
    exact ⟨q, _, hends, hends.watermark_attempt⟩
  | fault f => exact hfinds.elim

lemma ends_resolved (hw : ¬ Waits w t rest) : ∃ o : Outcome κ, o.resolved ∧
    Ends g w (.run (.attempt below) start []) (.ok o) := by
  cases hu : t.longest? rest with
  | none =>
    obtain ⟨e, he⟩ := ends_failed (g := g) hl hb ha hm hw hu
    exact ⟨_, rfl, he⟩
  | some u => exact ⟨_, rfl, ends_matched hl hb ha hm hw hu⟩

lemma suspends_iff :
    (∃ q pos stack, Ends g w (.run (.attempt below) start []) (.ok (.needsMore q pos stack))) ↔
      Waits w t rest := by
  constructor
  · rintro ⟨q, pos, stack, h⟩
    by_contra hw
    obtain ⟨o, ho, hends⟩ := ends_resolved (g := g) hl hb ha hm hw
    cases h.unique hends
    simp [Outcome.resolved] at ho
  · intro hw
    obtain ⟨q, stack, hends, _⟩ := ends_suspended (g := g) hl hb ha hm hw
    exact ⟨q, w.stop, stack, hends⟩

lemma watermark_of_suspended {q : Parser κ} {stack : Stack κ}
    (h : Ends g w (.run (.attempt below) start []) (.ok (.needsMore q pos stack))) :
    pos = w.stop ∧ stack.watermark pos = start := by
  have hw : Waits w t rest := (suspends_iff hl hb ha hm).mp ⟨q, pos, stack, h⟩
  obtain ⟨q', stack', hends, hmark⟩ := ends_suspended (g := g) hl hb ha hm hw
  cases h.unique hends
  exact ⟨rfl, hmark⟩

lemma ends_close_iff (hopen : w.closed = false) (hw : ¬ Waits w t rest)
    (o : Except Fault (Outcome κ)) : Ends g w (.run (.attempt below) start []) o ↔
      Ends g w.close (.run (.attempt below) start []) o := by
  obtain ⟨o', ho', hends⟩ := ends_resolved (g := g) hl hb ha hm hw
  have hoffset : w.offset ≤ (State.run (.attempt below) start [] : State κ).watermark :=
    ha.offset_le
  rw [hends.grows_iff (Window.grows_close hopen) hoffset, resumes_of_resolved ho']
  exact ⟨fun h => h.unique hends, fun h => h ▸ hends⟩

end

lemma begins_ofWords : (ofWords words).Begins rest u ↔ u ∈ words ∧ u.map Value.str <+: rest :=
  ⟨fun h => ⟨contains_ofWords.mp h.contains, h.isPrefix⟩,
    fun ⟨h, hp⟩ => ⟨contains_ofWords.mpr h, hp⟩⟩

lemma waits_ofWords (hwords : words ≠ []) (hopen : w.closed = false) :
    Waits w (ofWords words) rest ↔
      ∃ u ∈ words, rest <+: u.map Value.str ∧ rest ≠ u.map Value.str := by
  simp only [Waits, hopen, true_and, goesOn_iff (live_ofWords hwords), contains_ofWords]

theorem compile_matches_longest (g : Grammar κ) (hwords : words ≠ []) :
    ∃ p : Parser κ, (ofWords words).compile = .ok p ∧
      ∀ (w : Window) (start : Int) (rest : List Value), w.Ahead start rest →
        Value.missing ∉ rest →
        (∀ u ∈ words, u.map Value.str <+: rest →
          (∀ u' ∈ words, u'.map Value.str <+: rest → u'.length ≤ u.length) →
          Ends g w.close (.run p start [])
            (.ok (.matched (.str (String.join u)) (start + u.length)))) ∧
        ((∀ u ∈ words, ¬ u.map Value.str <+: rest) →
          ∃ e, Ends g w.close (.run p start []) (.ok (.failed e start))) ∧
        (w.closed = false →
          ((∃ q pos stack, Ends g w (.run p start []) (.ok (.needsMore q pos stack))) ↔
            ∃ u ∈ words, rest <+: u.map Value.str ∧ rest ≠ u.map Value.str) ∧
          (∀ q pos stack, Ends g w (.run p start []) (.ok (.needsMore q pos stack)) →
            pos = w.stop ∧ stack.watermark pos = start) ∧
          ((∀ u ∈ words, rest <+: u.map Value.str → rest = u.map Value.str) →
            ∀ o, Ends g w (.run p start []) o ↔ Ends g w.close (.run p start []) o)) := by
  have hl := live_ofWords hwords
  obtain ⟨below, hb, hp⟩ := hl.compile_ok (κ := κ)
  refine ⟨_, hp, ?_⟩
  intro w start rest ha hm
  have hclose : w.close.Ahead start rest := ha
  have hclosed : ¬ Waits w.close (ofWords words) rest := by
    rintro ⟨h, _⟩
    cases h
  refine ⟨?_, ?_, ?_⟩
  · intro u hu hprefix hlongest
    refine ends_matched hl hb hclose hm hclosed (longest?_eq_some_iff.mpr ⟨?_, ?_⟩)
    · exact begins_ofWords.mpr ⟨hu, hprefix⟩
    · intro u' hu'
      obtain ⟨hmem, hprefix'⟩ := begins_ofWords.mp hu'
      exact hlongest u' hmem hprefix'
  · intro hnone
    refine ends_failed hl hb hclose hm hclosed (longest?_eq_none.mpr ?_)
    intro u hu
    obtain ⟨hmem, hprefix⟩ := begins_ofWords.mp hu
    exact hnone u hmem hprefix
  · intro hopen
    refine ⟨?_, fun q pos stack => watermark_of_suspended hl hb ha hm, ?_⟩
    · rw [suspends_iff hl hb ha hm, waits_ofWords hwords hopen]
    · intro hnone
      apply ends_close_iff hl hb ha hm hopen
      rw [waits_ofWords hwords hopen]
      rintro ⟨u, hu, hprefix, hne⟩
      exact hne (hnone u hu hprefix)

theorem compile_matches_longest_above : ∃ p : Parser Empty,
    (ofWords [["c", "a", "r", "t"], ["c"], ["c", "a"]]).compile = .ok p ∧
      Ends Empty.elim ⟨#[.null, .char 'c', .char 'a', .char 'r', .char 'd'], 0, true⟩
        (.run p 1 []) (.ok (.matched (.str "ca") 3)) ∧
      ∃ q pos stack, Ends Empty.elim ⟨#[.null, .char 'c', .char 'a', .char 'r'], 0, false⟩
        (.run p 1 []) (.ok (.needsMore q pos stack)) := by
  have hwords : [["c", "a", "r", "t"], ["c"], ["c", "a"]] ≠ ([] : List Word) := by simp
  obtain ⟨p, hp, h⟩ := compile_matches_longest (κ := Empty) Empty.elim hwords
  let read : List Value := [.char 'c', .char 'a', .char 'r']
  have ha : Window.Ahead ⟨#[.null, .char 'c', .char 'a', .char 'r'], 0, false⟩ 1 read :=
    ⟨[.null], rfl, rfl⟩
  have hm : Value.missing ∉ read := by simp [read, Value.missing, Value.char]
  have ha' : Window.Ahead ⟨#[.null, .char 'c', .char 'a', .char 'r', .char 'd'], 0, false⟩ 1
      (read ++ [.char 'd']) := ⟨[.null], rfl, rfl⟩
  have hm' : Value.missing ∉ read ++ [.char 'd'] := by simp [read, Value.missing, Value.char]
  refine ⟨p, hp, (h _ _ _ ha' hm').1 ["c", "a"] (by simp) ?_ ?_, ?_⟩
  · exact ⟨[.char 'r', .char 'd'], rfl⟩
  · simp [read, Value.char]
  · refine ((h _ _ _ ha hm).2.2 rfl).1.mpr ⟨["c", "a", "r", "t"], by simp, ⟨[.str "t"], rfl⟩, ?_⟩
    simp [read]

end ResumableParsing.Trie
