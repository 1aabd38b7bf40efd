import ResumableParsing.Fault
import Mathlib.Tactic

namespace ResumableParsing

namespace Stream

variable {α : Type}

inductive Built : Stream α → List α → Prop
  | empty : Built .empty []
  | push {s xs} (a : α) : Built s xs → Built (s.push a) (xs ++ [a])
  | prepend {s xs} (a : α) : Built s xs → Built (s.prepend a) (a :: xs)

variable {s : Stream α} {xs : List α}

lemma size_foldl_push (s : Stream α) (xs : List α) :
    (xs.foldl push s).size = s.size + xs.length := by
  induction xs generalizing s with
  | nil => rfl
  | cons a xs ih =>
    have hsize : (s.push a).size = s.size + 1 := rfl
    rw [List.foldl_cons, ih, hsize, List.length_cons]
    omega

lemma Built.toList_eq (h : s.Built xs) : s.toList = xs := by
  induction h with
  | empty => rfl
  | push a _ ih => rw [toList_push, ih]
  | prepend a _ ih => rw [toList_prepend, ih]

lemma Built.size_eq (h : s.Built xs) : s.size = xs.length := by
  induction h with
  | empty => rfl
  | push a _ ih => rw [Stream.push, ih, List.length_append, List.length_singleton]
  | @prepend s xs a hs ih =>
    have hsize : ((Stream.empty : Stream α).push a).size = 1 := rfl
    rw [Stream.prepend, size_foldl_push, hsize, hs.toList_eq, List.length_cons]
    omega

end Stream

namespace Value

variable {v w : Value} {xs ys : List Value}

def items? : Value → Option (List Value)
  | list items => some items
  | tuple items => some items
  | stream items => some items.toList
  | _ => none

/-- Lists and tuples tell their kind; a stream does not ask for it. -/
def sameRow : Value → Value → Bool
  | list _, tuple _ => false
  | tuple _, list _ => false
  | _, _ => true

lemma sizeOf_lt_of_items? (h : v.items? = some xs) {x : Value} (hx : x ∈ xs) :
    sizeOf x < sizeOf v := by
  cases v with
  | list items =>
    obtain rfl := Option.some.inj h
    have hlt := List.sizeOf_lt_of_mem hx
    simp only [list.sizeOf_spec]
    omega
  | tuple items =>
    obtain rfl := Option.some.inj h
    have hlt := List.sizeOf_lt_of_mem hx
    simp only [tuple.sizeOf_spec]
    omega
  | stream s =>
    obtain ⟨newestFirst, size⟩ := s
    obtain rfl := Option.some.inj h
    have hmem : x ∈ newestFirst := List.mem_reverse.mp hx
    have hlt := List.sizeOf_lt_of_mem hmem
    simp only [stream.sizeOf_spec, Stream.mk.sizeOf_spec]
    omega
  | _ => cases h

@[elab_as_elim]
lemma ind {motive : Value → Prop} (leaf : ∀ v, v.items? = none → motive v)
    (row : ∀ v xs, v.items? = some xs → (∀ x ∈ xs, motive x) → motive v) (v : Value) :
    motive v := by
  cases h : v.items? with
  | none => exact leaf v h
  | some xs => exact row v xs h fun x hx => ind leaf row x
termination_by sizeOf v
decreasing_by exact sizeOf_lt_of_items? h hx

lemma sameItems_iff : sameItems xs ys ↔ List.Forall₂ (fun x y => x.same y) xs ys := by
  induction xs generalizing ys with
  | nil => cases ys <;> simp [sameItems]
  | cons x xs ih => cases ys <;> simp [sameItems, ih]

lemma same_row_iff (hv : v.items? = some xs) (hw : w.items? = some ys) :
    v.same w ↔ v.sameRow w ∧ List.Forall₂ (fun x y => x.same y) xs ys := by
  -- streams are compared from their newest values on
  have hreverse (xs ys : List Value) : List.Forall₂ (fun x y => x.same y) xs ys.reverse ↔
      List.Forall₂ (fun x y => x.same y) xs.reverse ys := by
    rw [← List.forall₂_reverse_iff, List.reverse_reverse]
  cases v with
  | list items | tuple items | stream items =>
    cases hv
    cases w with
    | list items' | tuple items' | stream items' =>
      cases hw
      simp [same, sameRow, sameItems_iff, Stream.toList, hreverse]
    | _ => cases hw
  | _ => cases hv

lemma same_of_row (hv : v.items? = some xs) (hw : w.items? = none) : v.same w = false := by
  cases v with
  | list items | tuple items | stream items =>
    cases w with
    | list items' | tuple items' | stream items' => cases hw
    | _ => rfl
  | _ => cases hv

lemma same_of_leaf (hv : v.items? = none) (hw : w.items? = some ys) : v.same w = false := by
  cases w with
  | list items | tuple items | stream items =>
    cases v with
    | list items' | tuple items' | stream items' => cases hv
    | _ => rfl
  | _ => cases hw

lemma same_leaf_iff (hv : v.items? = none) (hw : w.items? = none) :
    v.same w ↔ v = w ∨ ∃ n, v.number? = some n ∧ w.number? = some n := by
  cases v with
  | list items | tuple items | stream items => cases hv
  | _ =>
    cases w with
    | list items | tuple items | stream items => cases hw
    | _ => grind [same, number?]

lemma sameRow_comm (v w : Value) : v.sameRow w = w.sameRow v := by
  cases v <;> cases w <;> rfl

lemma sameRow_self (v : Value) : v.sameRow v = true := by
  cases v <;> rfl

theorem same_self (v : Value) : v.same v = true := by
  induction v using ind with
  | leaf v hv => exact (same_leaf_iff hv hv).mpr (.inl rfl)
  | row v xs hv ih =>
    apply (same_row_iff hv hv).mpr
    exact ⟨sameRow_self v, List.forall₂_same.mpr ih⟩

theorem same_symm (h : v.same w) : w.same v := by
  induction v using ind generalizing w with
  | leaf v hv =>
    cases hw : w.items? with
    | none =>
      rcases (same_leaf_iff hv hw).mp h with rfl | ⟨n, hn, hn'⟩
      · exact h
      · exact (same_leaf_iff hw hv).mpr (.inr ⟨n, hn', hn⟩)
    | some ys =>
      rw [same_of_leaf hv hw] at h
      cases h
  | row v xs hv ih =>
    cases hw : w.items? with
    | none =>
      rw [same_of_row hv hw] at h
      cases h
    | some ys =>
      obtain ⟨hrow, hitems⟩ := (same_row_iff hv hw).mp h
      apply (same_row_iff hw hv).mpr
      refine ⟨by rwa [sameRow_comm], ?_⟩
      have hflip := (List.forall₂_and_left _ _).mpr ⟨ih, hitems⟩
      exact List.Forall₂.flip (hflip.imp fun x y ⟨hx, hxy⟩ => hx hxy)

theorem same_comm (v w : Value) : v.same w = w.same v := Bool.eq_iff_iff.mpr ⟨same_symm, same_symm⟩

theorem same_stream_iff {s : Stream Value} : (stream s).same v ↔
    ∃ ys, v.items? = some ys ∧ List.Forall₂ (fun x y => x.same y) s.toList ys := by
  have hs : (stream s).items? = some s.toList := rfl
  cases hv : v.items? with
  | none => simp [same_of_row hs hv]
  | some ys =>
    have hrow : (stream s).sameRow v = true := by cases v <;> rfl
    simp [same_row_iff hs hv, hrow]

end Value

theorem Stream.Built.represents_values {s : Stream Value} {xs : List Value} (h : s.Built xs) :
    (Value.stream s).elements = .ok xs ∧ (Value.stream s).length = .ok xs.length ∧
      ((Value.stream s).truthy = false ↔ xs = []) ∧
      (∀ v : Value, (Value.stream s).same v ↔
        ∃ ys, v.items? = some ys ∧ List.Forall₂ (fun x y => x.same y) xs ys) ∧
      (∀ v : Value, v.same v) ∧ ∀ v w : Value, v.same w = w.same v := by
  refine ⟨?_, ?_, ?_, fun v => ?_, Value.same_self, Value.same_comm⟩
  · rw [Value.elements, h.toList_eq]
  · rw [Value.length, h.size_eq]
  · simp [Value.truthy, h.size_eq]
  · rw [Value.same_stream_iff, h.toList_eq]

theorem Stream.Built.represents_values_shared : ∃ (shared s : Stream Value) (v : Value),
    shared = .push .empty (.list [.int 1]) ∧
      s = (shared.prepend .null).push (.stream shared) ∧
      s.Built [.null, .list [.int 1], .stream shared] ∧ shared.Built [.list [.int 1]] ∧
      (Value.stream s).elements = .ok [.null, .list [.int 1], .stream shared] ∧
      (Value.stream shared).elements = .ok [.list [.int 1]] ∧
      v = .tuple [.null, .stream (.push .empty (.bool true)), .tuple [.list [.int 1]]] ∧
      (Value.stream s).same v ∧ v.same (Value.stream s) := by
  let shared : Stream Value := .push .empty (.list [.int 1])
  let v : Value := .tuple [.null, .stream (.push .empty (.bool true)), .tuple [.list [.int 1]]]
  have hshared : shared.Built [.list [.int 1]] := .push _ .empty
  have hs : ((shared.prepend .null).push (.stream shared)).Built
      [.null, .list [.int 1], .stream shared] := .push _ (.prepend _ hshared)
  obtain ⟨helements, _, _, hsame, _, hcomm⟩ := hs.represents_values
  have hv : (Value.stream ((shared.prepend .null).push (.stream shared))).same v := by
    apply (hsame v).mpr
    exact ⟨_, rfl, .cons rfl (.cons rfl (.cons rfl .nil))⟩
  exact ⟨shared, _, v, rfl, rfl, hs, hshared, helements, hshared.represents_values.1, rfl, hv,
    hcomm _ _ ▸ hv⟩

end ResumableParsing
