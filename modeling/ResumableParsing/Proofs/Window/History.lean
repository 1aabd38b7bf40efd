import ResumableParsing.Proofs.Window

namespace ResumableParsing

inductive Change where
  | extend (chunk : Value)
  | close
  | release (watermark : Int)

namespace Window

def change (w : Window) : Change → Window
  | .extend chunk => match w.extend chunk with
    | .ok extended => extended
    | .error _ => w
  | .close => w.close
  | .release m => w.release m

def intake (w : Window) : Change → List Value
  | .extend chunk => match w.closed, chunk.elements with
    | false, .ok xs => xs
    | _, _ => []
  | .close => []
  | .release _ => []

def after (w : Window) : List Change → Window
  | [] => w
  | c :: cs => (w.change c).after cs

def intakes (w : Window) : List Change → List Value
  | [] => []
  | c :: cs => w.intake c ++ (w.change c).intakes cs

def received (w : Window) (cs : List Change) : List Value := w.elements.toList ++ w.intakes cs

/-- Of `xs`, which begin at `origin`, the window keeps the end, and what it does not keep is gone. -/
def Keeps (w : Window) (origin : Int) (xs : List Value) : Prop :=
  ∃ gone, xs = gone ++ w.elements.toList ∧ w.offset = origin + gone.length

variable {w : Window} {m pos origin : Int} {xs ys : List Value} {chunk : Value} {c : Change}

lemma extend_closed (hw : w.closed) : w.extend chunk = .error .inputClosed := by
  simp [extend, hw]

lemma extend_eq_inputClosed : w.extend chunk = .error .inputClosed ↔ w.closed := by
  refine ⟨fun h => ?_, extend_closed⟩
  by_contra hw
  rw [Bool.not_eq_true] at hw
  cases hc : chunk.elements with
  | error f =>
    rw [extend_error hw hc] at h
    cases h
    cases chunk <;> cases hc
  | ok xs =>
    rw [extend_eq hw hc] at h
    cases h

lemma change_extend (w : Window) (chunk : Value) :
    (w.closed = false ∧ chunk.elements = .ok (w.intake (.extend chunk)) ∧
        w.change (.extend chunk) = w.append (w.intake (.extend chunk))) ∨
      w.intake (.extend chunk) = [] ∧ w.change (.extend chunk) = w := by
  cases hw : w.closed with
  | true => exact .inr ⟨by simp [intake, hw], by simp [change, extend_closed hw]⟩
  | false =>
    cases hc : chunk.elements with
    | error f => exact .inr ⟨by simp [intake, hw, hc], by simp [change, extend_error hw hc]⟩
    | ok xs =>
      have hxs : w.intake (.extend chunk) = xs := by simp [intake, hw, hc]
      exact .inl ⟨rfl, by rw [hxs], by simp [change, extend_eq hw hc, hxs]⟩

lemma offset_le_change : w.offset ≤ (w.change c).offset := by
  cases c with
  | extend chunk =>
    rcases w.change_extend chunk with ⟨_, _, h⟩ | ⟨_, h⟩
    · rw [h, offset_append]
    · rw [h]
  | close => exact le_rfl
  | release m =>
    rw [change, offset_release]
    exact le_max_left _ _

lemma closed_change : (w.change c).closed ↔ w.closed ∨ c = .close := by
  cases c with
  | extend chunk =>
    rcases w.change_extend chunk with ⟨_, _, h⟩ | ⟨_, h⟩
    · simp [h]
    · simp [h]
  | close => simp [change, close]
  | release m => simp [change]

lemma release_extend (h : m ≤ w.stop) :
    (w.release m).extend chunk = (w.extend chunk).map (·.release m) := by
  cases hw : w.closed with
  | true => rw [extend_closed hw, extend_closed (by rwa [closed_release]), Except.map]
  | false =>
    have hw' : (w.release m).closed = false := by rwa [closed_release]
    cases hc : chunk.elements with
    | error f => rw [extend_error hw hc, extend_error hw' hc, Except.map]
    | ok xs => rw [extend_eq hw hc, extend_eq hw' hc, release_append h, Except.map]

namespace Keeps

lemma refl : w.Keeps w.offset w.elements.toList := ⟨[], rfl, by simp⟩

lemma append (h : w.Keeps origin xs) : (w.append ys).Keeps origin (xs ++ ys) := by
  obtain ⟨gone, rfl, ho⟩ := h
  exact ⟨gone, by simp [Window.append], ho⟩

lemma release (h : w.Keeps origin xs) : (w.release m).Keeps origin xs := by
  obtain ⟨gone, rfl, ho⟩ := h
  have hs : w.stop = w.offset + w.elements.toList.length := by simp [stop]
  refine ⟨gone ++ w.elements.toList.take (w.kept m - w.offset).toNat, ?_, ?_⟩
  · rw [toList_release, List.append_assoc, List.take_append_drop]
  · rw [offset_release, List.length_append, List.length_take]
    simp only [kept]
    omega

lemma change (h : w.Keeps origin xs) : (w.change c).Keeps origin (xs ++ w.intake c) := by
  cases c with
  | extend chunk =>
    rcases w.change_extend chunk with ⟨_, _, hc⟩ | ⟨hxs, hc⟩
    · rw [hc]
      exact h.append
    · rwa [hc, hxs, List.append_nil]
  | close => rwa [intake, List.append_nil]
  | release m =>
    rw [intake, List.append_nil]
    exact h.release

lemma after (h : w.Keeps origin xs) (cs : List Change) :
    (w.after cs).Keeps origin (xs ++ w.intakes cs) := by
  induction cs generalizing w xs with
  | nil => rwa [intakes, List.append_nil]
  | cons c cs ih =>
    rw [intakes, ← List.append_assoc]
    exact ih h.change

lemma stop_eq (h : w.Keeps origin xs) : w.stop = origin + xs.length := by
  obtain ⟨gone, rfl, ho⟩ := h
  rw [stop, ho, ← Array.length_toList, List.length_append]
  omega

lemma origin_le (h : w.Keeps origin xs) : origin ≤ w.offset := by
  obtain ⟨gone, _, ho⟩ := h
  omega

lemma toList_eq (h : w.Keeps origin xs) :
    w.elements.toList = xs.drop (w.offset - origin).toNat := by
  obtain ⟨gone, rfl, ho⟩ := h
  have hgone : (w.offset - origin).toNat = gone.length := by omega
  rw [hgone, List.drop_left]

lemma read_eq (h : w.Keeps origin xs) (ho : w.offset ≤ pos) : w.read pos = .ok
    (match xs[(pos - origin).toNat]? with
      | some v => .ofElement v
      | none => if w.closed then .endOfInput else .missing) := by
  have hle := h.origin_le
  have hi : (w.offset - origin).toNat + (pos - w.offset).toNat = (pos - origin).toNat := by omega
  have hv : w.elements.toList[(pos - w.offset).toNat]? = xs[(pos - origin).toNat]? := by
    rw [h.toList_eq, List.getElem?_drop, hi]
  rw [Window.read_eq ho]
  cases hx : xs[(pos - origin).toNat]? with
  | none => simp only [hv, hx]
  | some v => simp only [hv, hx]

end Keeps

lemma after_append (cs cs' : List Change) : w.after (cs ++ cs') = (w.after cs).after cs' := by
  induction cs generalizing w with
  | nil => rfl
  | cons c cs ih => exact ih

lemma offset_le_after (cs : List Change) : w.offset ≤ (w.after cs).offset := by
  induction cs generalizing w with
  | nil => exact le_rfl
  | cons c cs ih => exact offset_le_change.trans ih

lemma stop_le_after (cs : List Change) : w.stop ≤ (w.after cs).stop := by
  have hstop : w.stop = w.offset + w.elements.toList.length := Keeps.refl.stop_eq
  have hafter := (Keeps.refl.after cs : (w.after cs).Keeps w.offset _).stop_eq
  rw [List.length_append] at hafter
  omega

lemma closed_after (cs : List Change) : (w.after cs).closed ↔ w.closed ∨ .close ∈ cs := by
  induction cs generalizing w with
  | nil => simp [after]
  | cons c cs ih => rw [after, ih, closed_change, List.mem_cons, or_assoc, @eq_comm _ c]

theorem after_keeps_received (w : Window) :
    (∀ cs, (w.after cs).stop = w.offset + (w.received cs).length ∧
      (w.after cs).elements.toList =
        (w.received cs).drop ((w.after cs).offset - w.offset).toNat ∧
      (∀ cs', (w.after cs).offset ≤ (w.after (cs ++ cs')).offset) ∧
      w.offset ≤ (w.after cs).offset ∧ (w.after cs).offset ≤ (w.after cs).stop ∧
      ((w.after cs).closed ↔ w.closed ∨ .close ∈ cs) ∧
      (∀ chunk, (w.after cs).extend chunk = .error .inputClosed ↔ (w.after cs).closed) ∧
      ∀ pos,
        ((w.after cs).read pos = .error (.released pos (w.after cs).offset) ↔
          pos < (w.after cs).offset) ∧
        ((w.after cs).offset ≤ pos → pos < (w.after cs).stop →
          ∃ v, (w.received cs)[(pos - w.offset).toNat]? = some v ∧
            ((w.after cs).read pos).map Reading.value = .ok v) ∧
        ((w.after cs).stop ≤ pos →
          (w.after cs).read pos = .ok (if (w.after cs).closed then .endOfInput else .missing))) ∧
    (∀ m n, (w.release m).release n = w.release (max m n)) ∧
    ∀ m, m ≤ w.stop → (w.release m).close = w.close.release m ∧
      ∀ chunk, (w.release m).extend chunk = (w.extend chunk).map (·.release m) := by
  refine ⟨fun cs => ?_, fun m n => release_release, fun m hm => ⟨release_close, fun _ =>
    release_extend hm⟩⟩
  have hkeeps : (w.after cs).Keeps w.offset (w.received cs) := Keeps.refl.after cs
  have hstop := hkeeps.stop_eq
  refine ⟨hstop, hkeeps.toList_eq, fun cs' => ?_, offset_le_after cs, offset_le_stop,
    closed_after cs, fun _ => extend_eq_inputClosed, fun pos => ⟨?_, ?_, ?_⟩⟩
  · rw [after_append]
    exact offset_le_after cs'
  · refine ⟨fun h => ?_, read_of_lt⟩
    by_contra hn
    rw [hkeeps.read_eq (not_lt.mp hn)] at h
    cases h
  · intro ho hlt
    have hi : (pos - w.offset).toNat < (w.received cs).length := by
      have hle := hkeeps.origin_le
      omega
    have hv := List.getElem?_eq_getElem hi
    refine ⟨_, hv, ?_⟩
    rw [hkeeps.read_eq ho, hv, Except.map, Reading.value_ofElement]
  · intro hle
    have hnone : (w.received cs)[(pos - w.offset).toNat]? = none :=
      List.getElem?_eq_none (by omega)
    rw [hkeeps.read_eq (offset_le_stop.trans hle), hnone]

theorem after_keeps_received_late : ∃ w u : Window, w = ⟨#[.int 1, .int 2], -3, false⟩ ∧
    u = w.after [.release (-9), .extend (.str "ab"), .release (-2), .close, .extend (.str "c")] ∧
    u.offset ≤ -1 ∧ -1 < u.stop ∧ (u.read (-1)).map Reading.value = .ok (.char 'a') ∧
    u.stop ≤ 4 ∧ u.read 4 = .ok .endOfInput ∧
    -2 ≤ w.stop ∧ (w.release (-2)).extend (.str "c") = (w.extend (.str "c")).map (·.release (-2)) := by
  let w : Window := ⟨#[.int 1, .int 2], -3, false⟩
  let cs : List Change :=
    [.release (-9), .extend (.str "ab"), .release (-2), .close, .extend (.str "c")]
  obtain ⟨hafter, _, hrelease⟩ := w.after_keeps_received
  have hlow : (w.after cs).offset ≤ -1 := by decide
  have hlt : -1 < (w.after cs).stop := by decide
  have hhigh : (w.after cs).stop ≤ 4 := by decide
  have hm : -2 ≤ w.stop := by decide
  obtain ⟨_, _, _, _, _, _, _, hread⟩ := hafter cs
  obtain ⟨v, hv, hvalue⟩ := (hread (-1)).2.1 hlow hlt
  cases hv
  exact ⟨w, w.after cs, rfl, rfl, hlow, hlt, hvalue, hhigh, (hread 4).2.2 hhigh, hm,
    (hrelease _ hm).2 _⟩

end Window

end ResumableParsing
