import ResumableParsing.Parser
import ResumableParsing.Window
import Mathlib.Tactic

/-! A parsing expression fails or matches up to a position; where it fails does not matter. A choice
goes on from the same position, whatever was consumed. -/

namespace ResumableParsing

variable {κ : Type}

inductive Peg (w : Window) : Parser κ → Int → Option (Value × Int) → Prop
  | token {accepts mismatch pos v} : w.read pos = .ok (.element v) → accepts v = .ok true →
      Peg w (.token accepts mismatch) pos (some (v, pos + 1))
  | token_fail {accepts mismatch pos v} : w.read pos = .ok (.element v) →
      accepts v = .ok false → Peg w (.token accepts mismatch) pos none
  | token_end {accepts mismatch pos} : w.read pos = .ok .endOfInput →
      Peg w (.token accepts mismatch) pos none
  | always {v pos} : Peg w (.always v) pos (some (v, pos))
  | fail {message pos} : Peg w (.fail message) pos none
  | failWith {e pos} : Peg w (.failWith e) pos none
  | bind {p next pos v q x} : Peg w p pos (some (v, q)) → Peg w (next v) q x →
      Peg w (.bind p next) pos x
  | bind_fail {p next pos} : Peg w p pos none → Peg w (.bind p next) pos none
  | choice {first others pos v q} : Peg w first pos (some (v, q)) →
      Peg w (.choice first others) pos (some (v, q))
  | choice_other {first p others pos x} : Peg w first pos none → Peg w (.choice p others) pos x →
      Peg w (.choice first (p :: others)) pos x
  | choice_fail {last pos} : Peg w last pos none → Peg w (.choice last []) pos none
  | attempt {p pos x} : Peg w p pos x → Peg w (.attempt p) pos x
  | sequence_nil {pos} : Peg w (.sequence []) pos (some (.null, pos))
  | sequence_last {p pos x} : Peg w p pos x → Peg w (.sequence [p]) pos x
  | sequence_cons {p p' ps pos v q x} : Peg w p pos (some (v, q)) →
      Peg w (.sequence (p' :: ps)) q x → Peg w (.sequence (p :: p' :: ps)) pos x
  | sequence_fail {p p' ps pos} : Peg w p pos none → Peg w (.sequence (p :: p' :: ps)) pos none
  | enumeration_nil {pos} : Peg w (.enumeration []) pos (some (.stream (.ofList []), pos))
  | enumeration_cons {p ps pos v q vs q'} : Peg w p pos (some (v, q)) →
      Peg w (.enumeration ps) q (some (.stream (.ofList vs), q')) →
      Peg w (.enumeration (p :: ps)) pos (some (.stream (.ofList (v :: vs)), q'))
  | enumeration_fail {p ps pos} : Peg w p pos none → Peg w (.enumeration (p :: ps)) pos none
  | enumeration_fail_later {p ps pos v q} : Peg w p pos (some (v, q)) →
      Peg w (.enumeration ps) q none → Peg w (.enumeration (p :: ps)) pos none
  | many {p pos v q vs q'} : Peg w p pos (some (v, q)) → q ≠ pos →
      Peg w (.many p) q (some (.stream (.ofList vs), q')) →
      Peg w (.many p) pos (some (.stream (.ofList (v :: vs)), q'))
  | many_fail {p pos} : Peg w p pos none → Peg w (.many p) pos (some (.stream (.ofList []), pos))
  | many_empty {p pos v} : Peg w p pos (some (v, pos)) →
      Peg w (.many p) pos (some (.stream (.ofList []), pos))
  | lookahead {p pos v q} : Peg w p pos (some (v, q)) → Peg w (.lookahead p) pos (some (v, pos))
  | lookahead_fail {p pos} : Peg w p pos none → Peg w (.lookahead p) pos none
  | notFollowedBy {p label pos} : Peg w p pos none →
      Peg w (.notFollowedBy p label) pos (some (.null, pos))
  | notFollowedBy_fail {p label pos v q} : Peg w p pos (some (v, q)) →
      Peg w (.notFollowedBy p label) pos none

variable {w : Window} {p : Parser κ} {pos : Int} {x y : Option (Value × Int)}

theorem Peg.unique (hx : Peg w p pos x) (hy : Peg w p pos y) : x = y := by
  induction hx generalizing y with
  | token hr ha => cases hy <;> simp_all
  | token_fail hr ha => cases hy <;> simp_all
  | token_end hr => cases hy <;> simp_all
  | always => cases hy; rfl
  | fail => cases hy; rfl
  | failWith => cases hy; rfl
  | bind _ _ ihp ihnext =>
    cases hy with
    | bind hp hnext =>
      cases ihp hp
      exact ihnext hnext
    | bind_fail hp => cases ihp hp
  | bind_fail _ ihp =>
    cases hy with
    | bind hp _ => cases ihp hp
    | bind_fail _ => rfl
  | choice _ ih =>
    cases hy with
    | choice h => exact ih h
    | choice_other h _ => cases ih h
    | choice_fail h => cases ih h
  | choice_other _ _ ih ihother =>
    cases hy with
    | choice h => cases ih h
    | choice_other _ h => exact ihother h
  | choice_fail _ ih =>
    cases hy with
    | choice h => cases ih h
    | choice_fail _ => rfl
  | attempt _ ih =>
    cases hy with
    | attempt h => exact ih h
  | sequence_nil => cases hy; rfl
  | sequence_last _ ih =>
    cases hy with
    | sequence_last h => exact ih h
  | sequence_cons _ _ ih ihrest =>
    cases hy with
    | sequence_cons h hrest =>
      cases ih h
      exact ihrest hrest
    | sequence_fail h => cases ih h
  | sequence_fail _ ih =>
    cases hy with
    | sequence_cons h _ => cases ih h
    | sequence_fail _ => rfl
  | enumeration_nil => cases hy; rfl
  | enumeration_cons _ _ ih ihrest =>
    cases hy with
    | enumeration_cons h hrest =>
      cases ih h
      obtain ⟨rfl, rfl⟩ := by simpa using ihrest hrest
      rfl
    | enumeration_fail h => cases ih h
    | enumeration_fail_later h hrest =>
      cases ih h
      cases ihrest hrest
  | enumeration_fail _ ih =>
    cases hy with
    | enumeration_cons h _ => cases ih h
    | enumeration_fail _ => rfl
    | enumeration_fail_later h _ => cases ih h
  | enumeration_fail_later _ _ ih ihrest =>
    cases hy with
    | enumeration_cons h hrest =>
      cases ih h
      cases ihrest hrest
    | enumeration_fail _ => rfl
    | enumeration_fail_later _ _ => rfl
  | many _ hne _ ih ihrest =>
    cases hy with
    | many h _ hrest =>
      cases ih h
      obtain ⟨rfl, rfl⟩ := by simpa using ihrest hrest
      rfl
    | many_fail h => cases ih h
    | many_empty h =>
      cases ih h
      exact absurd rfl hne
  | many_fail _ ih =>
    cases hy with
    | many h _ _ => cases ih h
    | many_fail _ => rfl
    | many_empty _ => rfl
  | many_empty _ ih =>
    cases hy with
    | many h hne _ =>
      cases ih h
      exact absurd rfl hne
    | many_fail _ => rfl
    | many_empty _ => rfl
  | lookahead _ ih =>
    cases hy with
    | lookahead h => cases ih h; rfl
    | lookahead_fail h => cases ih h
  | lookahead_fail _ ih =>
    cases hy with
    | lookahead h => cases ih h
    | lookahead_fail _ => rfl
  | notFollowedBy _ ih =>
    cases hy with
    | notFollowedBy _ => rfl
    | notFollowedBy_fail h => cases ih h
  | notFollowedBy_fail _ ih =>
    cases hy with
    | notFollowedBy h => cases ih h
    | notFollowedBy_fail _ => rfl

end ResumableParsing
