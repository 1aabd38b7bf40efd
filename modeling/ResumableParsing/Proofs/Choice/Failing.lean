import ResumableParsing.Parser.Text
import ResumableParsing.Proofs.Meaning.Adequacy
import ResumableParsing.Proofs.Meaning.Choice

namespace ResumableParsing

open Failure (furthest joined?)

variable {κ : Type}

theorem choice_fails_as_furthest (g : Grammar κ) (w : Window) (start : Int) (first : Parser κ)
    (others : List (Parser κ)) :
    (∀ before q after e pos, first :: others = before ++ q :: after →
      (∀ p ∈ before, ∃ e', Ends g w (.run p start []) (.ok (.failed e' start))) →
      Ends g w (.run q start []) (.ok (.failed e pos)) → pos ≠ start →
      Ends g w (.run (.choice first others) start []) (.ok (.failed e pos))) ∧
    ∀ es, List.Forall₂ (fun e p => Ends g w (.run p start []) (.ok (.failed e start))) es
        (first :: others) →
      ∃ e, joined? (furthest es) = some e ∧
        Ends g w (.run (.choice first others) start []) (.ok (.failed e start)) := by
  simp only [ends_run_iff, Result.ofOutcome]
  constructor
  · intro before q after e pos hsplit hbefore hq hpos
    have hdecides : Decides g w start (first :: others) (.failed e pos) := by
      rw [hsplit]
      exact decides_append.mpr (.inr ⟨hbefore, .here hq hpos⟩)
    obtain ⟨_, _, h⟩ := Eval.alternatives_decided hdecides none
    exact .choice h
  · intro es hes
    obtain ⟨e, he⟩ := DeclineWith.exists_mergeAll hes
    exact ⟨e, Failure.mergeAll_eq_joined? ▸ he, .choice_failed hes he⟩

theorem choice_fails_as_later_furthest :
    Ends (κ := Empty) Empty.elim ⟨#[.char 'b', .char 'x'], 0, true⟩
        (.run (.choice .digit [.next (.character (.str "b")) .digit, .anyChar]) 0 [])
        (.ok (.failed ⟨1, .expected ["any digit character"] (.char 'x')⟩ 1)) ∧
      Ends (κ := Empty) Empty.elim ⟨#[.char 'b', .char 'x'], 0, true⟩
        (.run (.choice (.failWith ⟨3, .expected ["a"] .null⟩) [.failWith ⟨3, .plain none⟩,
          .failWith ⟨3, .expected ["b"] (.int 1)⟩, .failWith ⟨2, .expected ["d"] .null⟩,
          .failWith ⟨3, .expected ["c", "b"] (.int 2)⟩]) 0 [])
        (.ok (.failed ⟨3, .expected ["b", "c"] (.int 1)⟩ 0)) := by
  let w : Window := ⟨#[.char 'b', .char 'x'], 0, true⟩
  have hfail (e : Failure) :
      Ends (κ := Empty) Empty.elim w (.run (.failWith e) 0 []) (.ok (.failed e 0)) := ⟨2, rfl⟩
  constructor
  · refine (choice_fails_as_furthest _ w 0 _ _).1 [.digit] _ [.anyChar] _ 1 rfl ?_ ⟨5, rfl⟩
      (by simp)
    intro p hp
    obtain rfl := List.mem_singleton.mp hp
    exact ⟨_, 2, rfl⟩
  · obtain ⟨e, he, hends⟩ := (choice_fails_as_furthest Empty.elim w 0 _ _).2 _
      (.cons (hfail ⟨3, .expected ["a"] .null⟩) (.cons (hfail ⟨3, .plain none⟩)
        (.cons (hfail ⟨3, .expected ["b"] (.int 1)⟩) (.cons (hfail ⟨2, .expected ["d"] .null⟩)
          (.cons (hfail ⟨3, .expected ["c", "b"] (.int 2)⟩) .nil)))))
    obtain rfl : ⟨3, .expected ["b", "c"] (.int 1)⟩ = e := Option.some.inj he
    exact hends

end ResumableParsing
