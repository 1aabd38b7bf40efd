import ResumableParsing.Proofs.Trie.LongestMatch

namespace ResumableParsing.Trie

inductive At : Trie → Word → Trie → Prop
  | root {t} : At t [] t
  | down {t key child path c} : (key, child) ∈ t.children → At child path c →
      At t (key :: path) c

variable {κ : Type} {t c : Trie} {key : String} {path u : Word} {words : List Word}

lemma Live.child?_of_mem (h : t.Live) (hmem : (key, c) ∈ t.children) : t.child? key = some c := by
  cases hd : t.child? key with
  | none =>
    have hnone : t.below? (.str key) = none := by simp [below?, hd]
    exact absurd hnone (below?_ne_none hmem)
  | some d =>
    have hnodup : (t.children.map Prod.fst).Nodup := by
      obtain ⟨_, hn, _⟩ := h
      exact hn
    have heq := List.inj_on_of_nodup_map hnodup (mem_of_child? hd) hmem rfl
    rw [(Prod.mk.inj heq).2]

lemma Live.at (h : t.Live) (hc : t.At path c) : c.Live := by
  induction hc with
  | root => exact h
  | down hmem _ ih => exact ih (h.child_of_mem hmem)

lemma Live.contains_at (h : t.Live) (hc : t.At path c) :
    c.contains u ↔ t.contains (path ++ u) := by
  induction hc with
  | root => rfl
  | down hmem _ ih =>
    rw [ih (h.child_of_mem hmem), List.cons_append, contains_cons, h.child?_of_mem hmem]
    simp

lemma exists_at (h : t.contains u) : ∃ c, t.At u c ∧ c.terminal = true := by
  induction u generalizing t with
  | nil => exact ⟨t, .root, contains_nil.mp h⟩
  | cons key u ih =>
    obtain ⟨child, hchild, hu⟩ := contains_cons.mp h
    obtain ⟨c, hc, hterminal⟩ := ih hu
    exact ⟨c, .down (mem_of_child? hchild) hc, hterminal⟩

lemma Live.terminal_or_leads (h : t.Live) : t.terminal = true ∨
    ∃ key child, (key, child) ∈ t.children ∧ ∃ u c, child.At u c ∧ c.terminal = true := by
  obtain ⟨hnode, _, hnodes⟩ := h
  rcases hnode with hterminal | hne
  · exact .inl hterminal
  · obtain ⟨⟨key, child⟩, hmem⟩ := List.exists_mem_of_ne_nil _ hne
    obtain ⟨u, hu⟩ := (hnodes key child hmem).exists_word
    exact .inr ⟨key, child, hmem, u, exists_at hu⟩

lemma ne_nil_of_at (hc : (ofWords words).At path c) (h : words ≠ [] ∨ path ≠ []) :
    words ≠ [] := by
  rcases h with hwords | hpath
  · exact hwords
  · intro hwords
    subst hwords
    -- the trie of no words is a single node
    cases hc with
    | root => exact hpath rfl
    | down hmem _ => cases hmem

lemma compile_ofWords_iff {f : Fault} :
    (ofWords words).compile (κ := κ) = .error f ↔ words = [] ∧ f = .noWords := by
  rcases eq_or_ne words [] with rfl | hwords
  · have hempty : (ofWords []).compile (κ := κ) = .error .noWords := rfl
    simp [hempty, eq_comm]
  · obtain ⟨below, _, hp⟩ := (live_ofWords hwords).compile_ok (κ := κ)
    simp [hp, hwords]

theorem ofWords_holds_words (words : List Word) :
    (∀ u, (ofWords words).contains u ↔ u ∈ words) ∧
      (∀ word u, ((ofWords words).insert word).contains u ↔
        u = word ∨ (ofWords words).contains u) ∧
      (∀ path c, (ofWords words).At path c → words ≠ [] ∨ path ≠ [] →
        (c.terminal = true ↔ path ∈ words) ∧
        (c.terminal = true ∨ ∃ key child, (key, child) ∈ c.children ∧
          ∃ u d, child.At u d ∧ d.terminal = true) ∧
        ∀ spelt, ∃ p : Parser κ, c.branches spelt = .ok p) ∧
      (∀ f, (ofWords words).compile (κ := κ) = .error f ↔ words = [] ∧ f = .noWords) ∧
      (words ≠ [] → ∃ p : Parser κ, (ofWords words).compile = .ok p) ∧
      Fault.noWords.message = "At least one word required." := by
  refine ⟨fun u => contains_ofWords, fun word u => contains_insert, ?_,
    fun f => compile_ofWords_iff, ?_, rfl⟩
  · intro path c hc h
    have hlive := live_ofWords (ne_nil_of_at hc h)
    refine ⟨?_, (hlive.at hc).terminal_or_leads, (hlive.at hc).exists_branches⟩
    rw [← contains_nil, hlive.contains_at hc, List.append_nil, contains_ofWords]
  · intro hwords
    obtain ⟨below, _, hp⟩ := (live_ofWords hwords).compile_ok (κ := κ)
    exact ⟨_, hp⟩

theorem ofWords_holds_words_below : ∃ c : Trie,
    (ofWords [["c", "a"], [], ["c", "a", "r"], ["c", "a"]]).At ["c"] c ∧ c.terminal = false ∧
      (∃ key child, (key, child) ∈ c.children ∧ ∃ u d, child.At u d ∧ d.terminal = true) ∧
      (∃ p : Parser Empty, c.branches "c" = .ok p) ∧
      ∃ p : Parser Empty, (ofWords [["c", "a"], [], ["c", "a", "r"], ["c", "a"]]).compile = .ok p := by
  let words : List Word := [["c", "a"], [], ["c", "a", "r"], ["c", "a"]]
  let c : Trie := .node false [("a", .node true [("r", .node true [])])]
  obtain ⟨_, _, hnodes, _, hcompile, _⟩ := ofWords_holds_words (κ := Empty) words
  have hwords : words ≠ [] := by simp [words]
  have hc : (ofWords words).At ["c"] c := .down List.mem_cons_self .root
  obtain ⟨_, hleads, hbranches⟩ := hnodes _ _ hc (.inl hwords)
  have hterminal : c.terminal = false := rfl
  refine ⟨c, hc, hterminal, ?_, hbranches "c", hcompile hwords⟩
  rcases hleads with h | h
  · rw [hterminal] at h
    cases h
  · exact h

end ResumableParsing.Trie
