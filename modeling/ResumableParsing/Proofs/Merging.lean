import ResumableParsing.Failure
import Mathlib.Data.List.DropRight
import Mathlib.Tactic

/-! What the failures that got furthest come to together. -/

namespace ResumableParsing

section Duplicates

variable {xs ys : List String} {x : String}

lemma eraseDups_eq_self (h : xs.Nodup) : xs.eraseDups = xs := by
  induction xs with
  | nil => rfl
  | cons x xs ih =>
    obtain ⟨hx, hxs⟩ := List.nodup_cons.mp h
    have hfilter : xs.filter (fun y => !y == x) = xs := by
      refine List.filter_eq_self.mpr ?_
      rintro y hy
      simpa using ne_of_mem_of_not_mem hy hx
    rw [List.eraseDups_cons, hfilter, ih hxs]

lemma eraseDups_concat : (xs ++ [x]).eraseDups =
    if x ∈ xs.eraseDups then xs.eraseDups else xs.eraseDups ++ [x] := by
  rw [List.eraseDups_append]
  by_cases h : x ∈ xs <;> simp [List.removeAll, h, List.eraseDups_cons]

lemma eraseDups_append_right : (xs ++ ys.eraseDups).eraseDups = (xs ++ ys).eraseDups := by
  induction ys using List.reverseRecOn with
  | nil => rfl
  | append_singleton ys y ih =>
    rw [eraseDups_concat, ← List.append_assoc]
    split_ifs with hy
    · have hmem : y ∈ (xs ++ ys).eraseDups := by
        rw [List.mem_eraseDups] at hy ⊢
        exact List.mem_append_right _ hy
      rw [ih, eraseDups_concat, if_pos hmem]
    · rw [← List.append_assoc, eraseDups_concat, ih, ← eraseDups_concat]

lemma eraseDups_append_left : (xs.eraseDups ++ ys).eraseDups = (xs ++ ys).eraseDups := by
  have hdups : xs.eraseDups.eraseDups = xs.eraseDups := @eraseDups_append_right [] xs
  rw [List.eraseDups_append, List.eraseDups_append, hdups]
  simp only [List.removeAll, List.elem_eq_mem, List.mem_eraseDups]

end Duplicates

namespace Failure

variable {a b c e m : Failure} {as bs cs es : List Failure}

def isExpectation (e : Failure) : Bool :=
  match e.reason with
  | .expected _ _ => true
  | .plain _ => false

def alternatives (e : Failure) : List String :=
  match e.reason with
  | .expected alternatives _ => alternatives
  | .plain _ => []

lemma reason_of_isExpectation (h : e.isExpectation) :
    e.reason = .expected e.alternatives e.found := by
  obtain ⟨pos, reason⟩ := e
  cases reason with
  | expected alternatives found => rfl
  | plain message => cases h

lemma merge_of_lt (h : a.position < b.position) : a.merge b = b := by
  obtain ⟨pos, reason⟩ := a
  obtain ⟨pos', reason'⟩ := b
  have hgt : ¬ pos > pos' := not_lt.mpr (le_of_lt h)
  have hne : ¬ pos' = pos := ne_of_gt h
  cases reason <;> cases reason' <;> simp [merge, hgt, hne]

lemma merge_of_gt (h : b.position < a.position) : a.merge b = a := by
  obtain ⟨pos, reason⟩ := a
  obtain ⟨pos', reason'⟩ := b
  have hgt : pos > pos' := h
  have hne : ¬ pos' = pos := ne_of_lt h
  cases reason <;> cases reason' <;> simp [merge, hgt, hne]

lemma merge_of_eq (h : a.position = b.position)
    (hn : a.isExpectation = false ∨ b.isExpectation = false) : a.merge b = b := by
  obtain ⟨pos, reason⟩ := a
  obtain ⟨pos', reason'⟩ := b
  obtain rfl : pos = pos' := h
  cases reason <;> cases reason' <;> simp_all [merge, isExpectation]

lemma merge_expectations (h : a.position = b.position) (ha : a.isExpectation)
    (hb : b.isExpectation) : a.merge b =
      ⟨a.position, .expected (a.alternatives ++ b.alternatives).eraseDups a.found⟩ := by
  simp [merge, reason_of_isExpectation ha, reason_of_isExpectation hb, h]

lemma position_merge : (a.merge b).position = max a.position b.position := by
  rcases lt_trichotomy a.position b.position with h | h | h
  · rw [merge_of_lt h, max_eq_right (le_of_lt h)]
  · by_cases hn : a.isExpectation = false ∨ b.isExpectation = false
    · rw [merge_of_eq h hn, h, max_self]
    · simp only [not_or, Bool.not_eq_false] at hn
      rw [merge_expectations h hn.1 hn.2, h, max_self]
  · rw [merge_of_gt h, max_eq_left (le_of_lt h)]

lemma isExpectation_merge (ha : a.isExpectation) (hb : b.isExpectation) :
    (a.merge b).isExpectation := by
  rcases lt_trichotomy a.position b.position with h | h | h
  · rwa [merge_of_lt h]
  · rw [merge_expectations h ha hb]
    rfl
  · rwa [merge_of_gt h]

theorem merge_assoc (h : a.position = b.position → b.position = c.position → a.isExpectation →
    c.isExpectation → b.isExpectation) : (a.merge b).merge c = a.merge (b.merge c) := by
  rcases lt_trichotomy a.position b.position with hab | hab | hab
  · have hlt : a.position < (b.merge c).position := by
      rw [position_merge]
      exact lt_max_of_lt_left hab
    rw [merge_of_lt hab, merge_of_lt hlt]
  · rcases lt_trichotomy b.position c.position with hbc | hbc | hbc
    · have hlt : (a.merge b).position < c.position := by
        rw [position_merge, hab, max_self]
        exact hbc
      rw [merge_of_lt hlt, merge_of_lt hbc, merge_of_lt (hab ▸ hbc)]
    · -- all three at one position
      have hpos : (a.merge b).position = c.position := by rw [position_merge, hab, max_self, hbc]
      have hpos' : a.position = (b.merge c).position := by
        rw [position_merge, hbc, max_self, hab, hbc]
      by_cases ha : a.isExpectation
      · by_cases hc : c.isExpectation
        · have hb := h hab hbc ha hc
          rw [merge_expectations hpos (isExpectation_merge ha hb) hc,
            merge_expectations hpos' ha (isExpectation_merge hb hc), merge_expectations hab ha hb,
            merge_expectations hbc hb hc]
          simp only [alternatives, found, eraseDups_append_left, eraseDups_append_right,
            List.append_assoc]
        · have hc : c.isExpectation = false := by simpa using hc
          rw [merge_of_eq hpos (.inr hc), merge_of_eq hbc (.inr hc),
            merge_of_eq (hab.trans hbc) (.inr hc)]
      · have ha : a.isExpectation = false := by simpa using ha
        rw [merge_of_eq hab (.inl ha), merge_of_eq hpos' (.inl ha)]
    · have hgt : c.position < (a.merge b).position := by
        rw [position_merge, hab, max_self]
        exact hbc
      rw [merge_of_gt hgt, merge_of_gt hbc]
  · rcases lt_or_ge b.position c.position with hbc | hbc
    · rw [merge_of_gt hab, merge_of_lt hbc]
    · have hgt : (b.merge c).position < a.position := by
        rw [position_merge, max_eq_left hbc]
        exact hab
      rw [merge_of_gt hab, merge_of_gt hgt, merge_of_gt (lt_of_le_of_lt hbc hab)]

def mergeAll : List Failure → Option Failure
  | [] => none
  | e :: es => some (es.foldl merge e)

def furthest (es : List Failure) : List Failure :=
  es.filter fun e => es.all fun e' => e'.position ≤ e.position

/--
What failures at one position come to. The last one alone, if it is no expectation; else all the
expectations after the last failure of another kind, as one.
-/
def joined? (es : List Failure) : Option Failure :=
  match es.rtakeWhile isExpectation with
  | [] => es.getLast?
  | [e] => some e
  | e :: es => some ⟨e.position, .expected ((e :: es).flatMap alternatives).eraseDups e.found⟩

lemma mergeAll_concat (h : mergeAll es = some m) : mergeAll (es ++ [e]) = some (m.merge e) := by
  cases es with
  | nil => cases h
  | cons a as =>
    obtain rfl : as.foldl merge a = m := by simpa [mergeAll] using h
    simp [mergeAll]

lemma exists_mergeAll (h : es ≠ []) : ∃ m, mergeAll es = some m := by
  cases es with
  | nil => exact absurd rfl h
  | cons e es => exact ⟨_, rfl⟩

lemma position_of_mergeAll (h : mergeAll es = some m) :
    (∃ e ∈ es, e.position = m.position) ∧ ∀ e ∈ es, e.position ≤ m.position := by
  induction es using List.reverseRecOn generalizing m with
  | nil => cases h
  | append_singleton es e ih =>
    rcases eq_or_ne es [] with rfl | hne
    · obtain rfl : e = m := by simpa [mergeAll] using h
      simp
    · obtain ⟨m', hm'⟩ := exists_mergeAll hne
      obtain rfl : m'.merge e = m := by simpa [mergeAll_concat hm'] using h
      obtain ⟨⟨e', he', hpos⟩, hle⟩ := ih hm'
      rw [position_merge]
      constructor
      · rcases max_choice m'.position e.position with hmax | hmax
        · exact ⟨e', by simp [he'], hpos.trans hmax.symm⟩
        · exact ⟨e, by simp, hmax.symm⟩
      · intro e'' he''
        rcases List.mem_append.mp he'' with hmem | hmem
        · exact (hle e'' hmem).trans (le_max_left _ _)
        · obtain rfl := List.mem_singleton.mp hmem
          exact le_max_right _ _

lemma furthest_eq {pos : Int} (hex : ∃ e ∈ es, e.position = pos)
    (hle : ∀ e ∈ es, e.position ≤ pos) : furthest es = es.filter (·.position = pos) := by
  apply List.filter_congr
  intro e he
  obtain ⟨e', he', rfl⟩ := hex
  rw [Bool.eq_iff_iff, List.all_eq_true, decide_eq_true_eq]
  simp only [decide_eq_true_eq]
  constructor
  · intro h
    exact (hle e he).antisymm (h e' he')
  · intro h e'' he''
    exact h ▸ hle e'' he''

lemma joined?_concat (h : joined? es = some m) (hpos : m.position = e.position) :
    joined? (es ++ [e]) = some (m.merge e) := by
  unfold joined? at h ⊢
  rw [List.rtakeWhile_concat]
  by_cases he : e.isExpectation
  · rw [if_pos he]
    have hall : ∀ e' ∈ es.rtakeWhile isExpectation, e'.isExpectation := fun _ =>
      List.mem_rtakeWhile_imp
    rcases hlast : es.rtakeWhile isExpectation with _ | ⟨a, _ | ⟨b, bs⟩⟩
    · obtain ⟨es, rfl⟩ := List.getLast?_eq_some_iff.mp (by simpa only [hlast] using h)
      have hm : m.isExpectation = false := by
        simpa using List.rtakeWhile_eq_nil_iff.mp hlast (by simp)
      simp [merge_of_eq hpos (.inl hm)]
    · obtain rfl : a = m := by simpa [hlast] using h
      have ha : a.isExpectation := hall a (by simp [hlast])
      simp [merge_expectations hpos ha he]
    · obtain rfl : _ = m := by simpa only [hlast, Option.some.injEq] using h
      rw [merge_expectations hpos rfl he]
      simp [alternatives, found, eraseDups_append_left]
  · have he : e.isExpectation = false := by simpa using he
    simp [he, merge_of_eq hpos (.inr he)]

lemma joined?_singleton : joined? [e] = some e := by
  cases he : e.isExpectation <;> simp [joined?, List.rtakeWhile, he]

theorem mergeAll_eq_joined? : mergeAll es = joined? (furthest es) := by
  -- on the last failure: those before it are furthest together with it, without it, or not at all
  induction es using List.reverseRecOn with
  | nil => rfl
  | append_singleton es e ih =>
    rcases eq_or_ne es [] with rfl | hne
    · have hself : furthest [e] = [e] := by simp [furthest]
      exact (hself ▸ joined?_singleton).symm
    · obtain ⟨m, hm⟩ := exists_mergeAll hne
      have hm' := mergeAll_concat (e := e) hm
      obtain ⟨hex, hle⟩ := position_of_mergeAll hm
      obtain ⟨hex', hle'⟩ := position_of_mergeAll hm'
      rw [hm, furthest_eq hex hle] at ih
      rw [hm', furthest_eq hex' hle', position_merge, List.filter_append]
      rcases lt_trichotomy m.position e.position with h | h | h
      · have hnone : es.filter (·.position = max m.position e.position) = [] := by
          refine List.filter_eq_nil_iff.mpr ?_
          intro e' he'
          have hlt : e'.position < max m.position e.position :=
            (hle e' he').trans_lt (lt_max_of_lt_right h)
          simpa using ne_of_lt hlt
        have hself : [e].filter (·.position = max m.position e.position) = [e] := by
          simp [max_eq_right (le_of_lt h)]
        rw [merge_of_lt h, hnone, hself]
        exact joined?_singleton.symm
      · have hself : [e].filter (·.position = max m.position e.position) = [e] := by simp [h]
        have hmax : max m.position e.position = m.position := by rw [h, max_self]
        rw [hself, hmax, joined?_concat ih.symm h]
      · have hnone : [e].filter (·.position = max m.position e.position) = [] := by
          simp [max_eq_left (le_of_lt h), ne_of_lt h]
        have hmax : max m.position e.position = m.position := max_eq_left (le_of_lt h)
        rw [hnone, List.append_nil, hmax, merge_of_gt h, ih]

lemma merge_foldl (hb : b.isExpectation) (hbs : ∀ e ∈ bs, e.isExpectation) :
    a.merge (bs.foldl merge b) = bs.foldl merge (a.merge b) := by
  induction bs generalizing b with
  | nil => rfl
  | cons e bs ih =>
    obtain ⟨he, hbs⟩ := List.forall_mem_cons.mp hbs
    rw [List.foldl_cons, List.foldl_cons, ih (isExpectation_merge hb he) hbs,
      merge_assoc fun _ _ _ _ => hb]

theorem mergeAll_middle (hm : mergeAll bs = some m)
    (h : as = [] ∨ ∀ e ∈ bs, e.isExpectation) :
    mergeAll (as ++ m :: cs) = mergeAll (as ++ bs ++ cs) := by
  cases bs with
  | nil => cases hm
  | cons b bs =>
    obtain rfl : bs.foldl merge b = m := by simpa [mergeAll] using hm
    cases as with
    | nil => simp [mergeAll]
    | cons a as =>
      obtain ⟨hb, hbs⟩ := List.forall_mem_cons.mp (h.resolve_left (by simp))
      simp [mergeAll, merge_foldl hb hbs]

end Failure

end ResumableParsing
