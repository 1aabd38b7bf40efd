import ResumableParsing.Trie
import ResumableParsing.Value
import Mathlib.Tactic

namespace ResumableParsing.Trie

variable {t c : Trie} {key k : String} {word u : Word} {words : List Word}
variable {nodes : List (String × Trie)} {v : Value} {rest : List Value}

lemma lookup_cons_eq : List.lookup k ((key, c) :: nodes) =
    if k = key then some c else nodes.lookup k := by
  by_cases hk : k = key
  · simp [hk]
  · simp [List.lookup_cons, hk, beq_eq_false_iff_ne.mpr hk]

lemma lookup_setChild : (setChild key c nodes).lookup k =
    if k = key then some c else nodes.lookup k := by
  induction nodes with
  | nil => simp [setChild, lookup_cons_eq]
  | cons d nodes ih =>
    obtain ⟨k', d⟩ := d
    by_cases hk : k' = key
    · simp only [setChild, hk, if_true, lookup_cons_eq]
      split_ifs <;> rfl
    · simp only [setChild, hk, if_false, lookup_cons_eq, ih]
      by_cases hk' : k = k'
      · simp [hk', hk]
      · simp [hk']

lemma mem_of_child? (h : t.child? key = some c) : (key, c) ∈ t.children := by
  obtain ⟨_, _, hsplit, _⟩ := List.lookup_eq_some_iff.mp h
  simp [hsplit]

lemma contains_cons : t.contains (key :: word) ↔ ∃ c, t.child? key = some c ∧ c.contains word := by
  rw [contains]
  cases t.child? key <;> simp

lemma contains_empty : ¬ empty.contains word := by
  cases word with
  | nil => simp [contains, empty, terminal]
  | cons key word => simp [contains_cons, empty, child?, children]

lemma contains_insert : (t.insert word).contains u ↔ u = word ∨ t.contains u := by
  induction word generalizing t u with
  | nil => cases u <;> simp [insert, contains, terminal, child?, children]
  | cons key word ih =>
    cases u with
    | nil => simp [insert, contains, terminal]
    | cons k u =>
      have hchild : (t.insert (key :: word)).child? k =
          if k = key then some (((t.child? key).getD empty).insert word) else t.child? k :=
        lookup_setChild
      rw [contains_cons, hchild]
      by_cases hk : k = key
      · subst hk
        cases hc : t.child? k with
        | none => simp [ih, contains_cons, hc, contains_empty]
        | some c => simp [ih, contains_cons, hc]
      · simp [hk, contains_cons]

theorem contains_ofWords : (ofWords words).contains u ↔ u ∈ words := by
  have hfold (t : Trie) : (words.foldl insert t).contains u ↔ u ∈ words ∨ t.contains u := by
    induction words generalizing t with
    | nil => simp
    | cons word words ih => simp [ih, contains_insert, or_left_comm, or_assoc]
  simp [ofWords, hfold, contains_empty]

/-- Each node ends a word or has children, no two of one key. -/
inductive Live : Trie → Prop
  | node {terminal nodes} : (terminal = true ∨ nodes ≠ []) → (nodes.map Prod.fst).Nodup →
      (∀ key c, (key, c) ∈ nodes → Live c) → Live (node terminal nodes)

lemma Live.child_of_mem (h : t.Live) (hmem : (key, c) ∈ t.children) : c.Live := by
  cases h with
  | node _ _ hnodes => exact hnodes key c hmem

lemma Live.child (h : t.Live) (hc : t.child? key = some c) : c.Live :=
  h.child_of_mem (mem_of_child? hc)

lemma mem_setChild {d : String × Trie} (h : d ∈ setChild key c nodes) :
    d = (key, c) ∨ d ∈ nodes := by
  induction nodes with
  | nil => simpa [setChild] using h
  | cons e nodes ih =>
    obtain ⟨k, e⟩ := e
    by_cases hk : k = key
    · simp only [setChild, hk, if_true, List.mem_cons] at h ⊢
      tauto
    · simp only [setChild, hk, if_false, List.mem_cons] at h ⊢
      tauto

lemma nodup_setChild (h : (nodes.map Prod.fst).Nodup) :
    ((setChild key c nodes).map Prod.fst).Nodup := by
  induction nodes with
  | nil => simp [setChild]
  | cons d nodes ih =>
    obtain ⟨k, d⟩ := d
    obtain ⟨hk, hn⟩ := List.nodup_cons.mp h
    by_cases heq : k = key
    · simpa [setChild, heq] using h
    · simp only [setChild, heq, if_false, List.map_cons]
      refine List.nodup_cons.mpr ⟨?_, ih hn⟩
      intro hmem
      obtain ⟨e, he, hfst⟩ := List.mem_map.mp hmem
      rcases mem_setChild he with rfl | he
      · exact heq hfst.symm
      · exact hk (List.mem_map.mpr ⟨e, he, hfst⟩)

lemma setChild_ne_nil : setChild key c nodes ≠ [] := by
  cases nodes with
  | nil => simp [setChild]
  | cons d nodes =>
    simp only [setChild]
    split_ifs <;> simp

lemma live_insert (h : t = empty ∨ t.Live) : (t.insert word).Live := by
  induction word generalizing t with
  | nil =>
    rcases h with rfl | ⟨_, hn, hc⟩
    · exact .node (.inl rfl) (by simp [empty, children]) (by simp [empty, children])
    · exact .node (.inl rfl) hn hc
  | cons key word ih =>
    have hbelow : (((t.child? key).getD empty).insert word).Live := by
      apply ih
      cases hc : t.child? key with
      | none => exact .inl rfl
      | some c =>
        rcases h with rfl | h
        · simp [empty, child?, children] at hc
        · exact .inr (h.child hc)
    refine .node (.inr setChild_ne_nil) ?_ ?_
    · apply nodup_setChild
      rcases h with rfl | ⟨_, hn, _⟩
      · simp [empty, children]
      · exact hn
    · intro k d hmem
      rcases mem_setChild hmem with heq | hmem
      · cases heq
        exact hbelow
      · rcases h with rfl | ⟨_, _, hc⟩
        · simp [empty, children] at hmem
        · exact hc k d hmem

lemma live_foldl (h : t.Live) : (words.foldl insert t).Live := by
  induction words generalizing t with
  | nil => exact h
  | cons word words ih => exact ih (live_insert (.inr h))

theorem live_ofWords (h : words ≠ []) : (ofWords words).Live := by
  cases words with
  | nil => exact absurd rfl h
  | cons word words =>
    have hfirst : (empty.insert word).Live := live_insert (.inl rfl)
    have hall : (words.foldl insert (empty.insert word)).Live := live_foldl hfirst
    exact hall

lemma Live.exists_word (h : t.Live) : ∃ u, t.contains u := by
  induction h with
  | @node terminal nodes hnode _ _ ih =>
    rcases hnode with rfl | hne
    · exact ⟨[], rfl⟩
    · obtain ⟨⟨key, c⟩, nodes, rfl⟩ := List.exists_cons_of_ne_nil hne
      obtain ⟨u, hu⟩ := ih key c List.mem_cons_self
      exact ⟨key :: u, contains_cons.mpr ⟨c, by simp [child?, children], hu⟩⟩

def below? (t : Trie) : Value → Option (String × Trie)
  | .str key => (t.child? key).map (key, ·)
  | _ => none

def goesOn : Trie → List Value → Bool
  | t, [] => !t.children.isEmpty
  | t, v :: rest => match t.below? v with
    | some (_, c) => c.goesOn rest
    | none => false

def here? (t : Trie) : Option Word := if t.terminal then some [] else none

def longest? (t : Trie) : List Value → Option Word
  | [] => t.here?
  | v :: rest =>
    ((t.below? v).bind fun (key, c) => (c.longest? rest).map (key :: ·)).or t.here?

lemma longest?_cons (hb : t.below? v = some (key, c)) :
    t.longest? (v :: rest) = ((c.longest? rest).map (key :: ·)).or t.here? := by
  rw [longest?, hb]
  rfl

lemma longest?_cons_of_none (hb : t.below? v = none) : t.longest? (v :: rest) = t.here? := by
  rw [longest?, hb]
  rfl

lemma below?_eq_some : t.below? v = some (key, c) ↔ v = .str key ∧ t.child? key = some c := by
  cases v with
  | str s =>
    simp only [below?, Option.map_eq_some_iff, Prod.mk.injEq, Value.str.injEq]
    constructor
    · rintro ⟨c, hc, rfl, rfl⟩
      exact ⟨rfl, hc⟩
    · rintro ⟨rfl, hc⟩
      exact ⟨c, hc, rfl, rfl⟩
  | _ => simp [below?]

lemma below?_ne_none (h : (key, c) ∈ t.children) : t.below? (.str key) ≠ none := by
  intro hn
  have hlookup : t.children.lookup key = none := by simpa [below?, child?] using hn
  simpa using List.lookup_eq_none_iff.mp hlookup (key, c) h

lemma contains_nil : t.contains [] ↔ t.terminal = true := by
  rw [contains]

lemma exists_below (h : t.contains u) (hne : u ≠ []) :
    ∃ key c u', u = key :: u' ∧ t.below? (.str key) = some (key, c) ∧ c.contains u' := by
  cases u with
  | nil => exact absurd rfl hne
  | cons key u =>
    obtain ⟨c, hc, hu⟩ := contains_cons.mp h
    exact ⟨key, c, u, rfl, below?_eq_some.mpr ⟨rfl, hc⟩, hu⟩

lemma contains_of_below (hb : t.below? v = some (key, c)) (hu : c.contains u) :
    t.contains (key :: u) :=
  contains_cons.mpr ⟨c, (below?_eq_some.mp hb).2, hu⟩

lemma Live.of_below (h : t.Live) (hb : t.below? v = some (key, c)) : c.Live :=
  h.child (below?_eq_some.mp hb).2

lemma Live.exists_longer (h : t.Live) (hn : t.children ≠ []) : ∃ u, t.contains u ∧ u ≠ [] := by
  cases h with
  | @node terminal nodes _ _ hnodes =>
    obtain ⟨⟨key, c⟩, nodes, rfl⟩ := List.exists_cons_of_ne_nil hn
    obtain ⟨u, hu⟩ := (hnodes key c List.mem_cons_self).exists_word
    exact ⟨key :: u, contains_cons.mpr ⟨c, by simp [child?, children], hu⟩, by simp⟩

theorem goesOn_iff (h : t.Live) : t.goesOn rest ↔
    ∃ u, t.contains u ∧ rest <+: u.map Value.str ∧ rest ≠ u.map Value.str := by
  induction rest generalizing t with
  | nil =>
    have hnil : t.goesOn [] ↔ t.children ≠ [] := by simp [goesOn]
    rw [hnil]
    constructor
    · intro hn
      obtain ⟨u, hu, hne⟩ := h.exists_longer hn
      exact ⟨u, hu, List.nil_prefix, by simpa [eq_comm] using hne⟩
    · rintro ⟨u, hu, _, hne⟩
      obtain ⟨key, c, u', rfl, hb, _⟩ := exists_below hu (by rintro rfl; simp at hne)
      exact List.ne_nil_of_mem (mem_of_child? (below?_eq_some.mp hb).2)
  | cons v rest ih =>
    rw [goesOn]
    constructor
    · intro hg
      cases hb : t.below? v with
      | none => simp [hb] at hg
      | some d =>
        obtain ⟨key, c⟩ := d
        obtain ⟨rfl, _⟩ := below?_eq_some.mp hb
        obtain ⟨u, hu, hprefix, hne⟩ := (ih (h.of_below hb)).mp (by simpa [hb] using hg)
        exact ⟨key :: u, contains_of_below hb hu, List.cons_prefix_cons.mpr ⟨rfl, hprefix⟩,
          by simpa using hne⟩
    · rintro ⟨u, hu, hprefix, hne⟩
      obtain ⟨key, c, u', rfl, hb, hu'⟩ := exists_below hu (by rintro rfl; simp at hprefix)
      obtain ⟨rfl, hrest⟩ := List.cons_prefix_cons.mp hprefix
      rw [hb]
      exact (ih (h.of_below hb)).mpr ⟨u', hu', hrest, by simpa using hne⟩

structure Begins (t : Trie) (rest : List Value) (u : Word) : Prop where
  contains : t.contains u
  isPrefix : u.map Value.str <+: rest

lemma begins_nil_word : t.Begins rest [] ↔ t.terminal = true :=
  ⟨fun h => contains_nil.mp h.contains, fun h => ⟨contains_nil.mpr h, List.nil_prefix⟩⟩

lemma begins_nil : t.Begins [] u ↔ u = [] ∧ t.terminal = true := by
  constructor
  · intro h
    obtain rfl : u = [] := by simpa using h.isPrefix
    exact ⟨rfl, begins_nil_word.mp h⟩
  · rintro ⟨rfl, h⟩
    exact begins_nil_word.mpr h

lemma begins_cons : t.Begins (v :: rest) u ↔ (u = [] ∧ t.terminal = true) ∨
    ∃ key c u', u = key :: u' ∧ t.below? v = some (key, c) ∧ c.Begins rest u' := by
  constructor
  · intro h
    rcases eq_or_ne u [] with rfl | hne
    · exact .inl ⟨rfl, begins_nil_word.mp h⟩
    · obtain ⟨key, c, u', rfl, hb, hu⟩ := exists_below h.contains hne
      obtain ⟨rfl, hprefix⟩ := List.cons_prefix_cons.mp h.isPrefix
      exact .inr ⟨key, c, u', rfl, hb, hu, hprefix⟩
  · rintro (⟨rfl, h⟩ | ⟨key, c, u', rfl, hb, hu⟩)
    · exact begins_nil_word.mpr h
    · refine ⟨contains_of_below hb hu.contains, ?_⟩
      obtain ⟨rfl, _⟩ := below?_eq_some.mp hb
      exact List.cons_prefix_cons.mpr ⟨rfl, hu.isPrefix⟩

lemma here?_eq_none : t.here? = none ↔ t.terminal = false := by
  cases h : t.terminal <;> simp [here?, h]

lemma here?_eq_some : t.here? = some u ↔ u = [] ∧ t.terminal = true := by
  cases h : t.terminal <;> simp [here?, h, eq_comm]

theorem longest?_eq_none : t.longest? rest = none ↔ ∀ u, ¬ t.Begins rest u := by
  induction rest generalizing t with
  | nil => simp [longest?, here?_eq_none, begins_nil]
  | cons v rest ih =>
    cases hb : t.below? v with
    | none => simp [longest?_cons_of_none hb, here?_eq_none, begins_cons, hb]
    | some d =>
      obtain ⟨key, c⟩ := d
      simp only [longest?_cons hb, Option.or_eq_none_iff, Option.map_eq_none_iff, ih,
        here?_eq_none, begins_cons, hb]
      constructor
      · rintro ⟨hc, ht⟩ u (⟨_, ht'⟩ | ⟨_, _, u', _, heq, hu'⟩)
        · simp [ht] at ht'
        · cases heq
          exact hc u' hu'
      · intro h
        refine ⟨fun u hu => h _ (.inr ⟨key, c, u, rfl, rfl, hu⟩), ?_⟩
        by_contra ht
        exact h [] (.inl ⟨rfl, by simpa using ht⟩)

theorem longest?_eq_some (h : t.longest? rest = some u) :
    t.Begins rest u ∧ ∀ u', t.Begins rest u' → u'.length ≤ u.length := by
  induction rest generalizing t u with
  | nil =>
    obtain ⟨rfl, ht⟩ := here?_eq_some.mp h
    simp [begins_nil, ht]
  | cons v rest ih =>
    cases hb : t.below? v with
    | none =>
      rw [longest?_cons_of_none hb] at h
      obtain ⟨rfl, ht⟩ := here?_eq_some.mp h
      simp [begins_cons, hb, ht]
    | some d =>
      obtain ⟨key, c⟩ := d
      rw [longest?_cons hb] at h
      cases hl : c.longest? rest with
      | none =>
        have hc := longest?_eq_none.mp hl
        obtain ⟨rfl, ht⟩ := here?_eq_some.mp (by simpa [hl] using h)
        simp [begins_cons, hb, ht, hc]
      | some u' =>
        obtain rfl : key :: u' = u := by simpa [hl] using h
        obtain ⟨hbegins, hle⟩ := ih hl
        refine ⟨begins_cons.mpr (.inr ⟨key, c, u', rfl, hb, hbegins⟩), ?_⟩
        intro u'' hu''
        rcases begins_cons.mp hu'' with ⟨rfl, _⟩ | ⟨_, _, u₂, rfl, hb', hu₂⟩
        · simp
        · obtain ⟨rfl, rfl⟩ : key = _ ∧ c = _ := by simpa [hb] using hb'
          simpa using hle u₂ hu₂

lemma prefix_unique {u' : Word} (h : u.map Value.str <+: rest) (h' : u'.map Value.str <+: rest)
    (hlen : u.length = u'.length) : u = u' := by
  have hprefix : u.map Value.str <+: u'.map Value.str :=
    List.prefix_of_prefix_length_le h h' (by simp [hlen])
  have hmap : u.map Value.str = u'.map Value.str := hprefix.eq_of_length (by simp [hlen])
  exact List.map_injective_iff.mpr (fun _ _ => Value.str.inj) hmap

theorem longest?_eq_some_iff : t.longest? rest = some u ↔
    t.Begins rest u ∧ ∀ u', t.Begins rest u' → u'.length ≤ u.length := by
  refine ⟨longest?_eq_some, ?_⟩
  rintro ⟨hbegins, hle⟩
  cases hl : t.longest? rest with
  | none => exact absurd hbegins (longest?_eq_none.mp hl u)
  | some u' =>
    obtain ⟨hbegins', hle'⟩ := longest?_eq_some hl
    have hlen : u'.length = u.length := (hle u' hbegins').antisymm (hle' u hbegins)
    rw [prefix_unique hbegins'.isPrefix hbegins.isPrefix hlen]

end ResumableParsing.Trie
