import ResumableParsing.Parser.Text
import ResumableParsing.Proofs.Ending
import ResumableParsing.Proofs.Meaning.Character
import ResumableParsing.Proofs.Meaning.Progress

namespace ResumableParsing

structure CommonLength (text : String) (rest : List Value) (k : ℕ) : Prop where
  le_length : k ≤ text.length
  isPrefix : (text.toList.take k).map Value.char <+: rest
  longest {j : ℕ} : j ≤ text.length → (text.toList.take j).map Value.char <+: rest → j ≤ k

namespace CommonLength

variable {text : String} {rest : List Value} {k : ℕ}

lemma exists_k : ∃ k, CommonLength text rest k := by
  classical
  let P (j : ℕ) : Prop := (text.toList.take j).map Value.char <+: rest
  have hzero : P 0 := by simp [P]
  exact ⟨Nat.findGreatest P text.length, Nat.findGreatest_le _,
    Nat.findGreatest_spec (Nat.zero_le _) hzero, fun hj h => Nat.le_findGreatest hj h⟩

lemma length_seen (h : CommonLength text rest k) :
    ((text.toList.take k).map Value.char).length = k := by
  rw [List.length_map, List.length_take, String.length_toList, min_eq_left h.le_length]

lemma eq_append (h : CommonLength text rest k) :
    rest = (text.toList.take k).map Value.char ++ rest.drop k := by
  have happend := List.prefix_iff_eq_append.mp h.isPrefix
  rw [h.length_seen] at happend
  exact happend.symm

lemma exists_drop (hlt : k < text.length) : ∃ c cs, text.toList.drop k = c :: cs := by
  refine List.exists_cons_of_ne_nil ?_
  rw [Ne, List.drop_eq_nil_iff, String.length_toList]
  exact not_le.mpr hlt

lemma ne_of_drop {c : Char} {cs : List Char} {v : Value} {vs : List Value}
    (h : CommonLength text rest k) (hc : text.toList.drop k = c :: cs)
    (hv : rest.drop k = v :: vs) : v ≠ .char c := by
  rintro rfl
  have hk : k + 1 ≤ text.length := by
    have hlen := congrArg List.length hc
    rw [List.length_drop, String.length_toList, List.length_cons] at hlen
    omega
  have htake : text.toList.take (k + 1) = text.toList.take k ++ [c] := by
    rw [List.take_add, hc]
    rfl
  have hprefix : (text.toList.take (k + 1)).map Value.char <+: rest := by
    rw [htake, List.map_append, h.eq_append, hv]
    exact ⟨vs, by simp⟩
  have hle := h.longest hk hprefix
  omega

end CommonLength

namespace Parser

variable {κ : Type} {s : String} {c : Char} {k : ℕ} {pos : Int} {v : Value}

def literalKey (text key : Value) (index : ℕ) : Parser κ :=
  token (fun element => .ok (key.same element)) (literalMismatch text index)

lemma literal_str : (literal (.str s) : Except Fault (Parser κ)) =
    .ok (attempt (literalFrom (.str s) 0 (s.toList.map Value.char))) := rfl

lemma literalKey_same : (literalKey (.str s) (.char c) k : Parser κ).onReading pos
    (.element (.char c)) = .matched (.char c) (pos + 1) :=
  onReading_same

lemma literalKey_other (hv : v ≠ .char c) (he : v ≠ .endOfInput) :
    (literalKey (.str s) (.char c) k : Parser κ).onReading pos (.element v) =
      .failed ⟨pos - k, .expected [s] (.str (.ofList (s.toList.take k) ++ v.display))⟩ pos := by
  refine (onReading_other hv).trans ?_
  cases v with
  | sentinel mark =>
    cases mark with
    | endOfInput => exact absurd rfl he
    | missing => rfl
  | _ => rfl

lemma literalKey_end (hk : k ≤ s.length) :
    (literalKey (.str s) (.char c) k : Parser κ).onReading pos .endOfInput =
      .failed ⟨pos - k, .expected [s] (.str (if k = 0 then endOfInputText else
        .ofList (s.toList.take k)))⟩ pos := by
  rcases eq_or_ne k 0 with rfl | hzero
  · rfl
  · have hread : (Value.str (.ofList (s.toList.take k))).truthy = true := by
      rw [Value.truthy, bne_iff_ne, Ne, String.ofList_eq_empty_iff, List.take_eq_nil_iff,
        ← List.length_eq_zero_iff, String.length_toList]
      omega
    simp only [literalKey, onReading, literalMismatch, Value.take, Value.endOfInput, hread,
      if_neg hzero]
    rfl

end Parser

variable {κ : Type} {g : Grammar κ} {w : Window} {p : Parser κ} {s : String} {c : Char} {k : ℕ}
variable {pos : Int} {r : Result κ} {v : Value} {keys : List Value}

lemma Eval.literalFrom_seen {seen : List Char} {rest : List Value}
    (ho : w.offset ≤ pos) (hw : w.remaining pos = seen.map Value.char ++ rest)
    (hr : Eval g w (.parser (.literalFrom (.str s) (k + seen.length) keys) (pos + seen.length)) r) :
    Eval g w (.parser (.literalFrom (.str s) k (seen.map Value.char ++ keys)) pos) r := by
  induction seen generalizing k pos with
  | nil => simpa using hr
  | cons c seen ih =>
    have hread : w.read pos = .ok (.ofElement (.char c)) := by
      simpa [hw] using Window.read_add ho 0
    have hc : Eval g w (.parser (.literalKey (.str s) (.char c) k) pos)
        (.matched (.char c) (pos + 1)) := by
      rw [← Parser.literalKey_same]
      exact .read rfl hread
    have hw' : w.remaining (pos + 1) = seen.map Value.char ++ rest := by
      have hdrop := Window.remaining_add ho 1
      rw [hw] at hdrop
      exact hdrop
    refine .bind hc (ih (by omega) hw' ?_)
    have hk : k + 1 + seen.length = k + (c :: seen).length := by rw [List.length_cons]; omega
    have hpos : pos + 1 + (seen.length : Int) = pos + ((c :: seen).length : Int) := by
      rw [List.length_cons]
      omega
    rwa [hk, hpos]

section

variable (hp : Parser.literal (.str s) = .ok p) (ho : w.offset ≤ pos)
variable (hk : CommonLength s (w.remaining pos) k)

include hp ho hk

lemma literal_ends (hr : Eval g w
      (.parser (.literalFrom (.str s) k ((s.toList.drop k).map Value.char)) (pos + k)) r) :
    Ends g w (.run p pos []) (r.attempted pos).outcome := by
  obtain rfl := Except.ok.inj (Parser.literal_str.symm.trans hp)
  have hseen : (s.toList.take k).length = k := by
    rw [List.length_take, String.length_toList, min_eq_left hk.le_length]
  have hall := Eval.literalFrom_seen (g := g) (k := 0) ho hk.eq_append
    (by simpa only [zero_add, hseen] using hr)
  rw [← List.map_append, List.take_append_drop] at hall
  exact (Eval.attempt hall).ends

lemma literal_matched (hlen : k = s.length) :
    Ends g w (.run p pos []) (.ok (.matched (.str s) (pos + s.length))) := by
  subst hlen
  have hnil : s.toList.drop s.length = [] := by rw [List.drop_eq_nil_iff, String.length_toList]
  refine literal_ends hp ho hk (r := .matched _ _) ?_
  rw [hnil]
  exact .always

lemma literal_stops {cs : List Char} {reading : Reading} (hc : s.toList.drop k = c :: cs)
    (hread : w.read (pos + k) = .ok reading)
    (hr : (Parser.literalKey (.str s) (.char c) k).onReading (pos + k) reading = r)
    (hn : ¬ r.IsMatch) :
    ∃ next, Ends g w (.run p pos []) ((r.within (.bind next)).attempted pos).outcome := by
  have hkey : Eval g w (.parser (.literalKey (.str s) (.char c) k) (pos + k)) r := by
    rw [← hr]
    exact .read rfl hread
  have hstop : Eval g w
      (.parser (.literalFrom (.str s) k ((s.toList.drop k).map Value.char)) (pos + k))
      (r.within (.bind fun _ => .literalFrom (.str s) (k + 1) (cs.map Value.char))) := by
    rw [hc]
    exact .bind_stop hkey hn
  exact ⟨_, literal_ends hp ho hk hstop⟩

variable (hlt : k < s.length)

include hlt

lemma literal_mismatched (hv : (w.remaining pos)[k]? = some v) (hm : v ≠ .missing)
    (he : v ≠ .endOfInput) :
    Ends g w (.run p pos []) (.ok (.failed
      ⟨pos, .expected [s] (.str (.ofList (s.toList.take k) ++ v.display))⟩ pos)) := by
  obtain ⟨c, cs, hc⟩ := CommonLength.exists_drop hlt
  obtain ⟨vs, hvs⟩ := List.head?_eq_some_iff.mp (List.head?_drop.trans hv)
  have hread : w.read (pos + k) = .ok (.element v) := by
    rw [Window.read_add ho, hv, ← Reading.ofElement_of_ne hm he]
  obtain ⟨_, hends⟩ := literal_stops (g := g) hp ho hk hc hread
    (Parser.literalKey_other (hk.ne_of_drop hc hvs) he) not_false
  rwa [add_sub_cancel_right] at hends

lemma literal_cut_short (hread : w.read (pos + k) = .ok .endOfInput) :
    Ends g w (.run p pos []) (.ok (.failed ⟨pos, .expected [s] (.str (if k = 0 then endOfInputText
      else .ofList (s.toList.take k)))⟩ pos)) := by
  obtain ⟨c, cs, hc⟩ := CommonLength.exists_drop hlt
  obtain ⟨_, hends⟩ := literal_stops (g := g) hp ho hk hc hread
    (Parser.literalKey_end hk.le_length) not_false
  rwa [add_sub_cancel_right] at hends

lemma literal_waits (hread : w.read (pos + k) = .ok .missing) :
    EndsAs g w (.run p pos []) (.suspended (pos + k) pos) := by
  obtain ⟨c, cs, hc⟩ := CommonLength.exists_drop hlt
  obtain ⟨_, hends⟩ := literal_stops (g := g) hp ho hk hc hread rfl not_false
  obtain rfl := Except.ok.inj (Parser.literal_str.symm.trans hp)
  exact ⟨_, hends, congrArg _ hends.watermark_attempt⟩

end

theorem literal_matches_exactly (g : Grammar κ) (s : String) : ∃ p : Parser κ,
    Parser.literal (.str s) = .ok p ∧
      ∀ (w : Window) (start : Int) (rest : List Value), w.offset ≤ start →
        w.remaining start = rest → Value.missing ∉ rest →
        (∃ k, CommonLength s rest k) ∧ ∀ k, CommonLength s rest k →
          (k = s.length →
            EndsAs g w (.run p start []) (.matched (.str s) (start + s.length))) ∧
          (k < s.length → ∀ v, rest[k]? = some v → v ≠ .endOfInput →
            EndsAs g w (.run p start [])
              (.failed ⟨start, .expected [s] (.str (.ofList (s.toList.take k) ++ v.display))⟩
                start)) ∧
          (k < s.length → rest[k]? = some .endOfInput ∨ rest.length = k ∧ w.closed →
            EndsAs g w (.run p start [])
              (.failed ⟨start, .expected [s] (.str (if k = 0 then endOfInputText else
                .ofList (s.toList.take k)))⟩ start)) ∧
          (k < s.length → rest.length = k → w.closed = false →
            EndsAs g w (.run p start []) (.suspended (start + k) start)) := by
  refine ⟨_, Parser.literal_str, ?_⟩
  rintro w start rest ho rfl hm
  refine ⟨CommonLength.exists_k, ?_⟩
  intro k hk
  have hp := Parser.literal_str (κ := κ) (s := s)
  refine ⟨?_, ?_, ?_, ?_⟩
  · intro hlen
    exact ⟨_, literal_matched hp ho hk hlen, rfl⟩
  · intro hlt v hv hend
    have hne : v ≠ .missing := ne_of_mem_of_not_mem (List.mem_of_getElem? hv) hm
    exact ⟨_, literal_mismatched hp ho hk hlt hv hne hend, rfl⟩
  · intro hlt hend
    refine ⟨_, literal_cut_short hp ho hk hlt ?_, rfl⟩
    rw [Window.read_add ho]
    rcases hend with hend | ⟨hlen, hclosed⟩
    · rw [hend]
      rfl
    · rw [List.getElem?_eq_none hlen.le, hclosed]
      rfl
  · intro hlt hlen hopen
    refine literal_waits hp ho hk hlt ?_
    rw [Window.read_add ho, List.getElem?_eq_none hlen.le, hopen]
    rfl

theorem literal_matches_exactly_behind_two : ∃ p : Parser Empty,
    Parser.literal (.str "abc") = .ok p ∧
      EndsAs Empty.elim ⟨#[.null, .char 'a', .char 'b', .int 7], 0, true⟩ (.run p 1 [])
        (.failed ⟨1, .expected ["abc"] (.str "ab7")⟩ 1) ∧
      EndsAs Empty.elim ⟨#[.null, .char 'a', .char 'b'], 0, false⟩ (.run p 1 [])
        (.suspended 3 1) := by
  obtain ⟨p, hp, h⟩ := literal_matches_exactly (κ := Empty) Empty.elim "abc"
  have hcommon (rest : List Value) (hrest : rest.head? ≠ some (.char 'c')) :
      CommonLength "abc" (.char 'a' :: .char 'b' :: rest) 2 := by
    refine ⟨by decide, ⟨rest, rfl⟩, ?_⟩
    intro j hj hprefix
    by_contra hn
    obtain rfl : j = 3 := by
      have hlength : "abc".length = 3 := rfl
      omega
    obtain ⟨vs, hvs⟩ := hprefix
    obtain rfl : .char 'c' :: vs = rest := by simpa [Value.char] using hvs
    exact hrest rfl
  refine ⟨p, hp, ?_, ?_⟩
  · let rest : List Value := [.char 'a', .char 'b', .int 7]
    have hm : Value.missing ∉ rest := by simp [rest, Value.missing, Value.char]
    exact ((h ⟨#[.null, .char 'a', .char 'b', .int 7], 0, true⟩ 1 rest (by decide) rfl hm).2 2
      (hcommon _ (by simp [Value.char]))).2.1 (by decide) (.int 7) rfl (by simp [Value.endOfInput])
  · let rest : List Value := [.char 'a', .char 'b']
    have hm : Value.missing ∉ rest := by simp [rest, Value.missing, Value.char]
    exact ((h ⟨#[.null, .char 'a', .char 'b'], 0, false⟩ 1 rest (by decide) rfl hm).2 2
      (hcommon _ (by simp))).2.2.2 (by decide) rfl rfl

end ResumableParsing
