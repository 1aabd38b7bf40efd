import ResumableParsing.Window
import Mathlib.Tactic

namespace ResumableParsing

lemma Reading.ofElement_eq_missing {v : Value} : ofElement v = missing ↔ v = .missing := by
  cases v with
  | sentinel mark => cases mark <;> simp [ofElement, Value.missing]
  | _ => simp [ofElement, Value.missing]

lemma Reading.ofElement_eq_endOfInput {v : Value} : ofElement v = endOfInput ↔ v = .endOfInput := by
  cases v with
  | sentinel mark => cases mark <;> simp [ofElement, Value.endOfInput]
  | _ => simp [ofElement, Value.endOfInput]

lemma Reading.ofElement_eq_str {v : Value} {key : String} :
    ofElement v = element (.str key) ↔ v = .str key := by
  cases v with
  | sentinel mark => cases mark <;> simp [ofElement]
  | _ => simp [ofElement]

lemma Reading.ofElement_of_ne {v : Value} (hm : v ≠ .missing) (he : v ≠ .endOfInput) :
    ofElement v = element v := by
  cases v with
  | sentinel mark =>
    cases mark with
    | endOfInput => exact absurd rfl he
    | missing => exact absurd rfl hm
  | _ => rfl

lemma Reading.value_ofElement (v : Value) : (ofElement v).value = v := by
  cases v with
  | sentinel mark => cases mark <;> rfl
  | _ => rfl

namespace Window

variable {w w' : Window} {m n pos : Int} {xs ys : List Value} {reading : Reading}

def onto (xs : List Value) : Window := ⟨xs.toArray, 0, false⟩

def append (w : Window) (xs : List Value) : Window :=
  { w with elements := w.elements ++ xs.toArray }

lemma extend_eq {chunk : Value} (hw : w.closed = false) (h : chunk.elements = .ok xs) :
    w.extend chunk = .ok (w.append xs) := by
  simp [extend, hw, h, append, pure, Except.pure, bind, Except.bind]

lemma extend_error {chunk : Value} {f : Fault} (hw : w.closed = false)
    (h : chunk.elements = .error f) : w.extend chunk = .error f := by
  simp [extend, hw, h, bind, Except.bind]

@[simp] lemma closed_append : (w.append xs).closed = w.closed := rfl

@[simp] lemma offset_append : (w.append xs).offset = w.offset := rfl

@[simp] lemma stop_append : (w.append xs).stop = w.stop + xs.length := by
  simp [stop, append]
  omega

@[simp] lemma onto_nil : onto [] = empty := rfl

@[simp] lemma append_onto : (onto xs).append ys = onto (xs ++ ys) := by
  simp [onto, append]

@[simp] lemma append_nil : w.append [] = w := by
  simp [append]

@[simp] lemma stop_onto : (onto xs).stop = xs.length := by
  simp [stop, onto]

@[simp] lemma stop_close : w.close.stop = w.stop := rfl

lemma offset_le_stop : w.offset ≤ w.stop := by
  simp [stop]

lemma read_eq (h : w.offset ≤ pos) : w.read pos = .ok
    (match w.elements.toList[(pos - w.offset).toNat]? with
      | some v => .ofElement v
      | none => if w.closed then .endOfInput else .missing) := by
  simp only [read, if_neg (not_lt.mpr h), Array.getElem?_toList]
  cases w.elements[(pos - w.offset).toNat]? <;> rfl

lemma read_of_lt (h : pos < w.offset) : w.read pos = .error (.released pos w.offset) := by
  simp [read, h]

lemma offset_le_of_read (h : w.read pos = .ok reading) : w.offset ≤ pos := by
  by_contra hn
  rw [read_of_lt (not_le.mp hn)] at h
  cases h

lemma lt_stop_of_read {v : Value} (h : w.read pos = .ok (.element v)) : pos < w.stop := by
  have ho := offset_le_of_read h
  by_contra hn
  rw [read_eq ho, List.getElem?_eq_none (by simp [stop] at hn ⊢; omega)] at h
  cases hc : w.closed <;> simp [hc] at h

def kept (w : Window) (m : Int) : Int := max w.offset (min m w.stop)

lemma release_eq : w.release m =
    ⟨(w.elements.toList.drop (w.kept m - w.offset).toNat).toArray, w.kept m, w.closed⟩ := by
  have ho : w.offset ≤ w.stop := offset_le_stop
  simp only [release]
  split_ifs with h
  · have hk : w.kept m = w.offset := by simp only [kept]; omega
    simp [hk]
  · have hk : w.kept m = min m w.stop := by simp only [kept]; omega
    simp only [hk, Window.mk.injEq, and_true]
    apply Array.ext'
    simp [List.extract_eq_take_drop]

@[simp] lemma offset_release : (w.release m).offset = w.kept m := by rw [release_eq]

@[simp] lemma closed_release : (w.release m).closed = w.closed := by rw [release_eq]

lemma toList_release : (w.release m).elements.toList =
    w.elements.toList.drop (w.kept m - w.offset).toNat := by
  rw [release_eq]

@[simp] lemma stop_release : (w.release m).stop = w.stop := by
  have hs : w.stop = w.offset + w.elements.size := rfl
  have hl : (w.release m).elements.size = w.elements.size - (w.kept m - w.offset).toNat := by
    rw [← Array.length_toList, toList_release, List.length_drop, Array.length_toList]
  simp only [stop, hl, offset_release]
  simp only [kept]
  omega

lemma ext_toList (he : w.elements.toList = w'.elements.toList) (ho : w.offset = w'.offset)
    (hc : w.closed = w'.closed) : w = w' := by
  cases w
  cases w'
  simp_all

lemma release_release : (w.release m).release n = w.release (max m n) := by
  have ho : w.offset ≤ w.stop := offset_le_stop
  have hk : (w.release m).kept n = w.kept (max m n) := by
    simp only [kept, offset_release, stop_release]
    omega
  apply ext_toList
  · rw [toList_release, toList_release, toList_release, hk, List.drop_drop, offset_release]
    congr 1
    simp only [kept]
    omega
  · rw [offset_release, offset_release, hk]
  · simp

lemma release_append (h : m ≤ w.stop) : (w.release m).append xs = (w.append xs).release m := by
  have ho : w.offset ≤ w.stop := offset_le_stop
  have hk : (w.append xs).kept m = w.kept m := by
    simp only [kept, offset_append, stop_append]
    omega
  apply ext_toList
  · have hl : (w.kept m - w.offset).toNat ≤ w.elements.toList.length := by
      have hs : w.stop = w.offset + w.elements.size := rfl
      simp only [kept, Array.length_toList]
      omega
    rw [toList_release, hk]
    simp only [append, Array.toList_append, toList_release, List.drop_append_of_le_length hl]
  · rw [offset_append, offset_release, offset_release, hk]
  · simp

lemma release_close : (w.release m).close = w.close.release m := by
  have hk : w.close.kept m = w.kept m := rfl
  apply ext_toList
  · rw [toList_release, hk]
    exact toList_release
  · rw [offset_release, hk]
    exact offset_release
  · rw [closed_release]
    rfl

lemma release_of_le (h : m ≤ w.offset) : w.release m = w := by
  simp [release, h]

@[simp] lemma empty_release : empty.release m = empty := by
  apply ext_toList
  · simp [toList_release, empty]
  · simp only [offset_release, kept, empty, stop]
    simp
  · simp

lemma read_release (h : m ≤ pos) : (w.release m).read pos = w.read pos := by
  have ho : w.offset ≤ w.stop := offset_le_stop
  by_cases hp : w.offset ≤ pos
  · have hk : w.kept m ≤ pos := by simp only [kept]; omega
    have hi : (w.kept m - w.offset).toNat + (pos - w.kept m).toNat = (pos - w.offset).toNat := by
      simp only [kept] at hk ⊢
      omega
    rw [read_eq hp, read_eq (by rwa [offset_release]), toList_release, List.getElem?_drop,
      offset_release, closed_release, hi]
  · rw [release_of_le (by omega)]

def AgreeFrom (m : Int) (w w' : Window) : Prop := ∀ pos, m ≤ pos → w.read pos = w'.read pos

lemma release_agreeFrom : AgreeFrom m (w.release m) w := fun _ => read_release

/-- What there is to read in `w` stays; what `w` lacks may have come. -/
def Grows (w w' : Window) : Prop :=
  ∀ pos reading, w.read pos = .ok reading → reading ≠ .missing → w'.read pos = .ok reading

lemma grows_append (hw : w.closed = false) : Grows w (w.append xs) := by
  intro pos reading h hm
  have ho := offset_le_of_read h
  rw [read_eq ho] at h
  cases he : w.elements.toList[(pos - w.offset).toNat]? with
  | none => simp_all
  | some v =>
    rw [read_eq (by exact ho), offset_append, closed_append, ← h, he]
    simp only [append, Array.toList_append]
    rw [List.getElem?_append_left (List.getElem?_eq_some_iff.mp he).1, he]

lemma grows_onto (ys : List Value) : Grows (onto xs) (onto (xs ++ ys)) := by
  rw [← append_onto]
  exact grows_append rfl

lemma grows_close (hw : w.closed = false) : Grows w w.close := by
  intro pos reading h hm
  have ho := offset_le_of_read h
  rw [read_eq ho] at h
  cases he : w.elements.toList[(pos - w.offset).toNat]? with
  | none => simp_all
  | some v =>
    rw [read_eq (by exact ho), ← h, he]
    simp only [close, he]

lemma Grows.trans {w'' : Window} (h : Grows w w') (h' : Grows w' w'') : Grows w w'' :=
  fun pos reading hr hm => h' pos reading (h pos reading hr hm) hm

lemma read_onto (h : 0 ≤ pos) : (onto xs).read pos = .ok
    (match xs[pos.toNat]? with
      | some v => .ofElement v
      | none => .missing) := by
  have ho : (onto xs).offset ≤ pos := h
  rw [read_eq ho]
  cases hv : xs[pos.toNat]? <;> simp [onto, hv]

lemma read_whole (h : 0 ≤ pos) : (onto xs).close.read pos = .ok
    (match xs[pos.toNat]? with
      | some v => .ofElement v
      | none => .endOfInput) := by
  have ho : (onto xs).close.offset ≤ pos := h
  rw [read_eq ho]
  cases hv : xs[pos.toNat]? <;> simp [onto, close, hv]

lemma read_behind {closed : Bool} (h : 0 ≤ pos) :
    Window.read ⟨(xs ++ ys).toArray, 0, closed⟩ (pos + xs.length) =
      Window.read ⟨ys.toArray, 0, closed⟩ pos := by
  have hi : (pos + xs.length - 0).toNat = xs.length + (pos - 0).toNat := by omega
  have hpos : 0 ≤ pos + xs.length := by omega
  rw [read_eq hpos, read_eq h]
  simp only [hi, List.getElem?_append_right (Nat.le_add_right _ _), Nat.add_sub_cancel_left]

lemma read_onto_eq_missing (h : 0 ≤ pos) : (onto xs).read pos = .ok .missing ↔
    xs[pos.toNat]? = some .missing ∨ xs.length ≤ pos := by
  rw [read_onto h]
  cases hv : xs[pos.toNat]? with
  | none =>
    have hle : xs.length ≤ pos.toNat := List.getElem?_eq_none_iff.mp hv
    simp
    omega
  | some v =>
    have hlt : pos.toNat < xs.length := (List.getElem?_eq_some_iff.mp hv).1
    simp [Reading.ofElement_eq_missing]
    omega

lemma read_whole_eq_missing (h : 0 ≤ pos) :
    (onto xs).close.read pos = .ok .missing ↔ xs[pos.toNat]? = some .missing := by
  rw [read_whole h]
  cases hv : xs[pos.toNat]? with
  | none => simp
  | some v => simp [Reading.ofElement_eq_missing]

lemma getElem?_of_read_missing (h : (onto xs).close.read pos = .ok .missing) :
    0 ≤ pos ∧ xs[pos.toNat]? = some .missing :=
  ⟨offset_le_of_read h, (read_whole_eq_missing (offset_le_of_read h)).mp h⟩

lemma mem_of_read_missing (hclosed : w.closed = true) (h : w.read pos = .ok .missing) :
    Value.missing ∈ w.elements.toList := by
  rw [read_eq (offset_le_of_read h)] at h
  cases hv : w.elements.toList[(pos - w.offset).toNat]? with
  | none => simp [hv, hclosed] at h
  | some v =>
    obtain rfl : v = .missing := by simpa [hv, Reading.ofElement_eq_missing] using h
    exact List.mem_of_getElem? hv

lemma missing_mem (h : (onto xs).close.read pos = .ok .missing) : Value.missing ∈ xs :=
  mem_of_read_missing rfl h

lemma endOfInput_mem (h : (onto xs).read pos = .ok .endOfInput) :
    Value.endOfInput ∈ xs := by
  rw [read_onto (offset_le_of_read h), Except.ok.injEq] at h
  cases hv : xs[pos.toNat]? with
  | none => simp [hv] at h
  | some v =>
    obtain rfl : v = .endOfInput := by simpa [hv, Reading.ofElement_eq_endOfInput] using h
    exact List.mem_of_getElem? hv

def remaining (w : Window) (pos : Int) : List Value :=
  w.elements.toList.drop (pos - w.offset).toNat

lemma remaining_add (h : w.offset ≤ pos) (n : ℕ) :
    w.remaining (pos + n) = (w.remaining pos).drop n := by
  have hi : (pos + n - w.offset).toNat = (pos - w.offset).toNat + n := by omega
  rw [remaining, hi, ← List.drop_drop, ← remaining]

lemma read_add (h : w.offset ≤ pos) (n : ℕ) : w.read (pos + n) = .ok
    (match (w.remaining pos)[n]? with
      | some v => .ofElement v
      | none => if w.closed then .endOfInput else .missing) := by
  have hi : (pos + n - w.offset).toNat = (pos - w.offset).toNat + n := by omega
  rw [read_eq (by omega), hi, remaining, List.getElem?_drop]

def Ahead (w : Window) (pos : Int) (xs : List Value) : Prop :=
  ∃ passed, w.elements.toList = passed ++ xs ∧ pos = w.offset + passed.length

namespace Ahead

variable {v : Value}

lemma offset_le (h : w.Ahead pos xs) : w.offset ≤ pos := by
  obtain ⟨passed, _, rfl⟩ := h
  omega

lemma stop_eq (h : w.Ahead pos xs) : w.stop = pos + xs.length := by
  obtain ⟨passed, he, rfl⟩ := h
  rw [stop, ← Array.length_toList, he, List.length_append]
  omega

lemma remaining_eq (h : w.Ahead pos xs) : w.remaining pos = xs := by
  obtain ⟨passed, he, rfl⟩ := h
  have hpos : (w.offset + passed.length - w.offset).toNat = passed.length := by omega
  rw [remaining, he, hpos, List.drop_left]

lemma read_nil (h : w.Ahead pos []) :
    w.read pos = .ok (if w.closed then .endOfInput else .missing) := by
  simpa [h.remaining_eq] using read_add h.offset_le 0

lemma read_cons (h : w.Ahead pos (v :: xs)) : w.read pos = .ok (.ofElement v) := by
  simpa [h.remaining_eq] using read_add h.offset_le 0

lemma tail (h : w.Ahead pos (v :: xs)) : w.Ahead (pos + 1) xs := by
  obtain ⟨passed, he, rfl⟩ := h
  exact ⟨passed ++ [v], by simp [he], by simp; omega⟩

end Ahead

end Window

end ResumableParsing
