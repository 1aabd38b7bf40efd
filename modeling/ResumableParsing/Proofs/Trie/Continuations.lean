import ResumableParsing.Proofs.Trie.LongestMatch

namespace ResumableParsing

variable {κ : Type} {g : Grammar κ} {w : Window} {p : Parser κ} {alternatives : List (Parser κ)}
variable {pos : Int} {rest : List Value} {v : Value} {spelt key : String}
variable {keys before : List String} {words : List Word} {seen u : Word}
variable {nodes : List (String × Trie)} {t c : Trie}

def Word.next? (seen word : Word) : Option String := (word.dropPrefix? seen).bind List.head?

def continuations (words : List Word) (seen : Word) : List String :=
  (words.filterMap (Word.next? seen)).eraseDups

lemma Word.next?_eq_some : Word.next? seen u = some key ↔ seen ++ [key] <+: u := by
  simp only [next?, Option.bind_eq_some_iff, List.dropPrefix?_eq_some_iff, beq_iff_eq]
  constructor
  · rintro ⟨tail, ⟨_, rfl, rfl⟩, hhead⟩
    obtain ⟨tail, rfl⟩ := List.head?_eq_some_iff.mp hhead
    exact ⟨tail, by simp⟩
  · rintro ⟨tail, rfl⟩
    exact ⟨key :: tail, ⟨seen, by simp, rfl⟩, rfl⟩

theorem mem_continuations : key ∈ continuations words seen ↔ ∃ u ∈ words, seen ++ [key] <+: u := by
  simp only [continuations, List.mem_eraseDups, List.mem_filterMap, Word.next?_eq_some]

/-- `seen` is the most that the input begins with and one of the words does, too. -/
structure IsShared (isWord : Word → Prop) (rest : List Value) (seen : Word) : Prop where
  isPrefix : seen.map Value.str <+: rest
  begins : ∃ u, isWord u ∧ seen <+: u
  longest : ∀ u, isWord u → ∀ before, before <+: u → before.map Value.str <+: rest →
    before.length ≤ seen.length

lemma IsShared.unique {isWord : Word → Prop} {seen' : Word} (h : IsShared isWord rest seen)
    (h' : IsShared isWord rest seen') : seen = seen' := by
  obtain ⟨u, hu, hseen⟩ := h.begins
  obtain ⟨u', hu', hseen'⟩ := h'.begins
  have hlen : seen.length = seen'.length :=
    (h'.longest u hu seen hseen h.isPrefix).antisymm (h.longest u' hu' seen' hseen' h'.isPrefix)
  exact Trie.prefix_unique h.isPrefix h'.isPrefix hlen

namespace Trie

def keysAfter : Trie → Word → List String
  | t, [] => t.children.map Prod.fst
  | t, key :: seen => ((t.child? key).getD empty).keysAfter seen

lemma keys_setChild : (setChild key c nodes).map Prod.fst =
    if key ∈ nodes.map Prod.fst then nodes.map Prod.fst else nodes.map Prod.fst ++ [key] := by
  induction nodes with
  | nil => simp [setChild]
  | cons d nodes ih =>
    obtain ⟨k, d⟩ := d
    by_cases hk : k = key
    · simp [setChild, hk]
    · simp only [setChild, hk, if_false, List.map_cons, ih, List.mem_cons, Ne.symm hk, false_or]
      split_ifs <;> rfl

lemma keysAfter_empty : empty.keysAfter seen = [] := by
  induction seen with
  | nil => rfl
  | cons key seen ih => exact ih

lemma keysAfter_insert : (t.insert u).keysAfter seen = match Word.next? seen u with
    | some key => if key ∈ t.keysAfter seen then t.keysAfter seen else t.keysAfter seen ++ [key]
    | none => t.keysAfter seen := by
  -- down `seen`: at its end the word may bring one more key, above that it changes one child
  induction seen generalizing t u with
  | nil =>
    cases u with
    | nil => rfl
    | cons key u => exact keys_setChild
  | cons k seen ih =>
    cases u with
    | nil => rfl
    | cons key u =>
      have hchild : (t.insert (key :: u)).child? k =
          if k = key then some (((t.child? key).getD empty).insert u) else t.child? k :=
        lookup_setChild
      simp only [keysAfter, hchild]
      by_cases hk : k = key
      · subst hk
        simp only [if_true, Option.getD_some, ih, Word.next?, List.dropPrefix?, beq_self_eq_true]
        rfl
      · have hkey : (key == k) = false := by simpa using Ne.symm hk
        simp only [hk, if_false, Word.next?, List.dropPrefix?, hkey]
        rfl

theorem keysAfter_ofWords : (ofWords words).keysAfter seen = continuations words seen := by
  induction words using List.reverseRecOn with
  | nil => exact keysAfter_empty
  | append_singleton words u ih =>
    have hlast : ofWords (words ++ [u]) = (ofWords words).insert u := by
      simp [ofWords, List.foldl_append]
    have hsplit : continuations (words ++ [u]) seen =
        (words.filterMap (Word.next? seen) ++ (Word.next? seen u).toList).eraseDups := by
      cases hnext : Word.next? seen u <;> simp [continuations, hnext]
    rw [hlast, keysAfter_insert, ih, hsplit]
    cases Word.next? seen u with
    | none => simp [continuations]
    | some key => exact eraseDups_concat.symm

lemma Live.nodup_keysAfter (h : t.Live) : (t.keysAfter seen).Nodup := by
  induction seen generalizing t with
  | nil =>
    obtain ⟨_, hnodup, _⟩ := h
    exact hnodup
  | cons key seen ih =>
    cases hc : t.child? key with
    | none => simp [keysAfter, hc, keysAfter_empty]
    | some c => simpa [keysAfter, hc] using ih (h.child hc)

def shared (t : Trie) : List Value → Word
  | [] => []
  | v :: rest => match t.below? v with
    | some (key, c) => key :: c.shared rest
    | none => []

lemma shared_cons (hb : t.below? v = some (key, c)) :
    t.shared (v :: rest) = key :: c.shared rest := by
  rw [shared, hb]

lemma shared_cons_of_none (hb : t.below? v = none) : t.shared (v :: rest) = [] := by
  rw [shared, hb]

lemma Live.isShared_nil (h : t.Live) (hnone : ∀ v vs, rest = v :: vs → t.below? v = none) :
    IsShared (t.contains ·) rest [] := by
  obtain ⟨u, hu⟩ := h.exists_word
  refine ⟨List.nil_prefix, ⟨u, hu, List.nil_prefix⟩, ?_⟩
  rintro u hu (_ | ⟨key, before⟩) hbefore hrest
  · exact le_rfl
  · obtain ⟨u, rfl⟩ := hbefore
    obtain ⟨vs, rfl⟩ := hrest
    obtain ⟨k, c, _, heq, hb, _⟩ := exists_below hu (by simp)
    obtain ⟨rfl, -⟩ := List.cons.inj heq
    simp [hnone _ _ rfl] at hb

lemma isShared_cons (hb : t.below? v = some (key, c)) (h : IsShared (c.contains ·) rest seen) :
    IsShared (t.contains ·) (v :: rest) (key :: seen) := by
  obtain ⟨rfl, _⟩ := below?_eq_some.mp hb
  obtain ⟨u, hu, hseen⟩ := h.begins
  refine ⟨List.cons_prefix_cons.mpr ⟨rfl, h.isPrefix⟩, ⟨key :: u, contains_of_below hb hu,
    List.cons_prefix_cons.mpr ⟨rfl, hseen⟩⟩, ?_⟩
  rintro u hu (_ | ⟨k, before⟩) hbefore hrest
  · simp
  · obtain ⟨u, rfl⟩ := hbefore
    obtain ⟨rfl, htail⟩ : k = key ∧ before.map Value.str <+: rest := by simpa using hrest
    obtain ⟨_, d, _, heq, hb', hu⟩ := exists_below hu (by simp)
    obtain ⟨rfl, rfl⟩ := List.cons.inj heq
    obtain rfl : c = d := by simpa [hb] using hb'
    simpa using h.longest _ hu before (List.prefix_append _ _) htail

theorem Live.isShared_shared (h : t.Live) : IsShared (t.contains ·) rest (t.shared rest) := by
  induction rest generalizing t with
  | nil => exact h.isShared_nil (by simp)
  | cons v rest ih =>
    cases hb : t.below? v with
    | none =>
      rw [shared_cons_of_none hb]
      exact h.isShared_nil (by simp [hb])
    | some d =>
      rw [shared_cons hb]
      exact isShared_cons hb (ih (h.of_below hb))

lemma foldl_merge_expected {found : Value} (h : (before ++ keys).Nodup) :
    (keys.map fun key => (⟨pos, .expected [key] found⟩ : Failure)).foldl Failure.merge
      ⟨pos, .expected before found⟩ = ⟨pos, .expected (before ++ keys) found⟩ := by
  induction keys generalizing before with
  | nil => simp
  | cons key keys ih =>
    have hsplit : before ++ key :: keys = (before ++ [key]) ++ keys := by simp
    rw [hsplit] at h ⊢
    have hmerge : Failure.merge ⟨pos, .expected before found⟩ ⟨pos, .expected [key] found⟩ =
        ⟨pos, .expected (before ++ [key]) found⟩ := by
      simp [Failure.merge, eraseDups_eq_self h.of_append_left]
    rw [List.map_cons, List.foldl_cons, hmerge, ih h]

lemma eval_rejected {reading : Reading} (hc : childBranches spelt nodes = .ok alternatives)
    (h : Parser.choice? alternatives = .ok p) (hnodup : (nodes.map Prod.fst).Nodup)
    (hread : w.read pos = .ok reading) (hm : reading ≠ .missing)
    (hkeys : ∀ d ∈ nodes, reading ≠ .element (.str d.1)) : Eval g w (.parser p pos)
      (.failed ⟨pos, .expected (nodes.map Prod.fst) (Failure.foundOf reading.value)⟩ pos) := by
  obtain ⟨first, others, rfl, rfl⟩ := Parser.choice?_ok h
  have hbranches := (List.forall₂_and_left _ _).mpr ⟨hkeys, childBranches_forall₂ hc⟩
  obtain ⟨d, nodes, ⟨hkey, hfirst⟩, hothers, rfl⟩ := List.forall₂_cons_right_iff.mp hbranches
  let expected (key : String) : Failure := ⟨pos, .expected [key] (Failure.foundOf reading.value)⟩
  have hrejected : List.Forall₂ (fun e q => Eval g w (.parser q pos) (.failed e pos))
      ((nodes.map Prod.fst).map expected) others := by
    rw [List.map_map, List.forall₂_map_left_iff]
    exact hothers.imp fun d q hd => hd.2.rejected hread hm hd.1
  have hkeys : ([d.1] ++ nodes.map Prod.fst).Nodup := hnodup
  have hmerged : ((nodes.map Prod.fst).map expected).foldl Failure.merge (expected d.1) = _ :=
    foldl_merge_expected hkeys
  have hall := Eval.alternatives_failed (hfirst.rejected (g := g) hread hm hkey) hrejected none
  exact .choice (hmerged ▸ hall)

def expectation (t : Trie) (pos : Int) (rest : List Value) : Failure :=
  ⟨pos + (t.shared rest).length, .expected (t.keysAfter (t.shared rest))
    (Failure.foundOf (rest[(t.shared rest).length]?.getD .endOfInput))⟩

lemma expectation_cons (hb : t.below? v = some (key, c)) :
    t.expectation pos (v :: rest) = c.expectation (pos + 1) rest := by
  have hchild := (below?_eq_some.mp hb).2
  simp only [expectation, shared_cons hb, keysAfter, hchild, Option.getD_some, List.length_cons,
    List.getElem?_cons_succ, Failure.mk.injEq, and_true]
  omega

theorem eval_failed (hl : t.Live) (hp : t.branches spelt = .ok p) (ha : w.Ahead pos rest)
    (hclosed : w.closed = true) (hm : Value.missing ∉ rest) (hn : t.longest? rest = none) :
    Eval g w (.parser p pos)
      (.failed (t.expectation pos rest) (t.expectation pos rest).position) := by
  induction rest generalizing t spelt p pos with
  | nil =>
    cases hl with
    | @node terminal nodes hnode hnodup hnodes =>
    obtain rfl : terminal = false := here?_eq_none.mp hn
    obtain ⟨alternatives, hc, hchosen⟩ := branches_ok hp
    have hread : w.read pos = .ok .endOfInput := by simpa [hclosed] using ha.read_nil
    have hp := eval_rejected (g := g) hc hchosen hnodup hread (by simp) (by simp)
    simpa [expectation, shared, keysAfter, children, Reading.value] using hp
  | cons v rest ih =>
    cases hl with
    | @node terminal nodes hnode hnodup hnodes =>
    obtain ⟨alternatives, hc, hchosen⟩ := branches_ok hp
    obtain ⟨hv, hrest⟩ := List.ne_and_not_mem_of_not_mem_cons hm
    cases hb : (node terminal nodes).below? v with
    | none =>
      rw [longest?_cons_of_none hb] at hn
      obtain rfl : terminal = false := here?_eq_none.mp hn
      have hmissing := mt Reading.ofElement_eq_missing.mp (Ne.symm hv)
      have hp :=
        eval_rejected (g := g) hc hchosen hnodup ha.read_cons hmissing (ofElement_ne_key hb)
      simpa [expectation, shared_cons_of_none hb, keysAfter, children,
        Reading.value_ofElement] using hp
    | some d =>
      obtain ⟨key, c⟩ := d
      obtain ⟨rfl, hchild⟩ := below?_eq_some.mp hb
      -- a node that ends a word would match that instead of failing
      obtain ⟨hnone, hhere⟩ : c.longest? rest = none ∧ (node terminal nodes).here? = none := by
        simpa [longest?_cons hb] using hn
      obtain rfl : terminal = false := here?_eq_none.mp hhere
      have hmem : (key, c) ∈ nodes := mem_of_child? hchild
      obtain ⟨below, q, hbelow, hq, htaken, hothers⟩ :=
        exists_taken (g := g) hc hnodup hmem ha.read_cons
      have hfailed := ih (hnodes key c hmem) hbelow ha.tail hrest hnone
      rw [expectation_cons hb]
      have hn : ¬ (c.expectation (pos + 1) rest).position = pos := by
        simp only [expectation]
        omega
      obtain ⟨_, hnode⟩ :=
        eval_branch (by rwa [List.append_nil]) hq (htaken _ hfailed) hn (by simp) hothers
      exact hnode

lemma isShared_ofWords : IsShared ((ofWords words).contains ·) rest seen ↔
    IsShared (· ∈ words) rest seen := by
  simp only [contains_ofWords]

theorem compile_expects_continuations (g : Grammar κ) (hwords : words ≠ []) :
    ∃ p : Parser κ, (ofWords words).compile = .ok p ∧
      ∀ (w : Window) (start : Int) (rest : List Value), w.Ahead start rest → w.closed = true →
        Value.missing ∉ rest → (∀ u ∈ words, ¬ u.map Value.str <+: rest) →
        (∃ seen, IsShared (· ∈ words) rest seen) ∧
        ∀ seen, IsShared (· ∈ words) rest seen →
          Ends g w (.run p start []) (.ok (.failed ⟨start + seen.length,
            .expected (continuations words seen)
              (Failure.foundOf (rest[seen.length]?.getD .endOfInput))⟩ start)) ∧
          (continuations words seen).Nodup ∧
          ∀ key, key ∈ continuations words seen ↔ ∃ u ∈ words, seen ++ [key] <+: u := by
  have hl := live_ofWords hwords
  obtain ⟨below, hb, hp⟩ := hl.compile_ok (κ := κ)
  refine ⟨_, hp, ?_⟩
  intro w start rest ha hclosed hm hnone
  have hshared : IsShared (· ∈ words) rest ((ofWords words).shared rest) :=
    isShared_ofWords.mp hl.isShared_shared
  refine ⟨⟨_, hshared⟩, ?_⟩
  intro seen hseen
  obtain rfl := hshared.unique hseen
  refine ⟨?_, keysAfter_ofWords ▸ hl.nodup_keysAfter, fun _ => mem_continuations⟩
  have hn : (ofWords words).longest? rest = none := by
    refine longest?_eq_none.mpr ?_
    intro u hu
    obtain ⟨hmem, hprefix⟩ := begins_ofWords.mp hu
    exact hnone u hmem hprefix
  have hends := (eval_failed (g := g) hl hb ha hclosed hm hn).attempt.ends
  rwa [← keysAfter_ofWords]

theorem compile_expects_continuations_below : ∃ p : Parser Empty,
    (ofWords [["c", "a", "r"], ["d", "o"], ["c", "a", "t"], ["c", "o"]]).compile = .ok p ∧
      Ends Empty.elim ⟨#[.null, .char 'c', .char 'a', .char 'p'], 0, true⟩ (.run p 1 [])
        (.ok (.failed ⟨3, .expected ["r", "t"] (.char 'p')⟩ 1)) := by
  have hwords : [["c", "a", "r"], ["d", "o"], ["c", "a", "t"], ["c", "o"]] ≠ ([] : List Word) := by
    simp
  obtain ⟨p, hp, h⟩ := compile_expects_continuations (κ := Empty) Empty.elim hwords
  let rest : List Value := [.char 'c', .char 'a', .char 'p']
  have ha : Window.Ahead ⟨#[.null, .char 'c', .char 'a', .char 'p'], 0, true⟩ 1 rest :=
    ⟨[.null], rfl, rfl⟩
  have hm : Value.missing ∉ rest := by simp [rest, Value.missing, Value.char]
  obtain ⟨-, hends⟩ := h _ 1 rest ha rfl hm (by simp [rest, Value.char])
  refine ⟨p, hp, (hends ["c", "a"] ⟨⟨[.char 'p'], rfl⟩, ?_, ?_⟩).1⟩
  · exact ⟨["c", "a", "r"], by simp, ⟨["r"], rfl⟩⟩
  · rintro u hu (_ | ⟨k, _ | ⟨k', _ | ⟨k'', before⟩⟩⟩) hbefore hrest
    · simp
    · simp
    · simp
    · obtain ⟨rfl, rfl, rfl, -⟩ : k = "c" ∧ k' = "a" ∧ k'' = "p" ∧ before = [] := by
        simpa [rest, Value.char] using hrest
      fin_cases hu <;> simp at hbefore

end Trie

end ResumableParsing
