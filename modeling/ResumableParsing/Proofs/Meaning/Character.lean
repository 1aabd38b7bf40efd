import ResumableParsing.Parser.Text
import ResumableParsing.Proofs.Meaning.Choice

namespace ResumableParsing

variable {κ : Type} {g : Grammar κ} {w : Window} {pos : Int} {key : String} {v : Value}

lemma Value.same_str : (Value.str key).same v ↔ v = .str key := by
  cases v with
  | str s => simpa [same] using eq_comm
  | _ => simp [same]

namespace Parser

variable {mismatch : Int → Value → Except Fault Failure}

lemma onReading_same : (token (fun element => .ok ((Value.str key).same element)) mismatch :
    Parser κ).onReading pos (.element (.str key)) = .matched (.str key) (pos + 1) := by
  have hs : (Value.str key).same (.str key) = true := Value.same_str.mpr rfl
  simp only [onReading, hs]

lemma onReading_other (hv : v ≠ .str key) :
    (token (fun element => .ok ((Value.str key).same element)) mismatch :
      Parser κ).onReading pos (.element v) = .ofFailure (mismatch pos v) pos := by
  have hs : (Value.str key).same v = false := by simpa using mt Value.same_str.mp hv
  simp only [onReading, hs]

end Parser

namespace Eval

lemma character_matched (h : w.read pos = .ok (.element (.str key))) :
    Eval g w (.parser (.character (.str key)) pos) (.matched (.str key) (pos + 1)) := by
  rw [← Parser.onReading_same]
  exact .read rfl h

lemma character_failed (h : w.read pos = .ok (.element v)) (hv : v ≠ .str key) :
    Eval g w (.parser (.character (.str key)) pos)
      (.failed ⟨pos, .expected [key] (Failure.foundOf v)⟩ pos) := by
  have hread := read (g := g) (p := .character (.str key)) rfl h
  rwa [Parser.character, Parser.onReading_other hv] at hread

lemma character_failed_at_end (h : w.read pos = .ok .endOfInput) :
    Eval g w (.parser (.character (.str key)) pos)
      (.failed ⟨pos, .expected [key] (.str endOfInputText)⟩ pos) :=
  .read rfl h

lemma character_suspended (h : w.read pos = .ok .missing) :
    Eval g w (.parser (.character (.str key)) pos) (.suspended (.character (.str key)) pos []) :=
  .read rfl h

lemma character_rejected {reading : Reading} (h : w.read pos = .ok reading)
    (hm : reading ≠ .missing) (hk : reading ≠ .element (.str key)) :
    Eval g w (.parser (.character (.str key)) pos)
      (.failed ⟨pos, .expected [key] (Failure.foundOf reading.value)⟩ pos) := by
  cases reading with
  | element v => exact character_failed h (by rintro rfl; exact hk rfl)
  | endOfInput => exact character_failed_at_end h
  | missing => exact absurd rfl hm

end Eval

end ResumableParsing
