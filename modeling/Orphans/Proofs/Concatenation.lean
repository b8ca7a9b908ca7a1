import Orphans.Proofs.KeyPattern
import Orphans.Proofs.Span

/-!
# Texts one after the other

`literals_isConcatenation`: the literals of two texts one after the other are those of the first,
those of the second, and between them at most one more, which begins in the first text and ends in
the second. So text before or after a text takes no literal away, and the text keeps referring to
the keys that it refers to.

That there is at most one such literal is `literals_append`, which computes it as `bridge?`. Here it
is told by the two texts themselves: the first has to end with a quote and path-safe symbols, and
the second to begin with path-safe symbols and a quote (`bridge?_eq_some_iff`). The two halves are
`openRun_eq_some_iff` and its mirror image `closedRun?_eq_some_iff`.

Where a text is cut does matter for what is found in the parts: `'./nav'` cut in the middle has its
literal in neither of them. Only the whole has all literals of its parts.
-/

namespace Orphans

section bridge

variable {α : Type} [PathSymbol α]

/-- A literal begins in the first of two texts and ends in the second. Its part in either text may
be empty: the first text may end with a quote, and the second may begin with one. -/
def Bridges (first second literal : List α) : Prop :=
  ∃ before opening head tail closing after,
    isQuote opening = true ∧ head.all isPathSafe = true ∧ first = before ++ opening :: head ∧
      tail.all isPathSafe = true ∧ isQuote closing = true ∧ second = tail ++ closing :: after ∧
      literal = head ++ tail

/-- A run is closed exactly when the text begins with that run and a quote. This is the mirror image
of `openRun_eq_some_iff`, but needs no induction, as the run is taken from the front. -/
theorem closedRun?_eq_some_iff {text run : List α} :
    closedRun? text = some run ↔
      run.all isPathSafe = true ∧
        ∃ closing after, isQuote closing = true ∧ text = run ++ closing :: after := by
  unfold closedRun?
  rw [Option.ite_none_right_eq_some, Option.some_inj]
  constructor
  · rintro ⟨quote, rfl⟩
    -- the quote at which the run stops is the first symbol behind it
    obtain ⟨closing, hclosing, quote⟩ := (Option.any_eq_true _ _).mp quote
    obtain ⟨after, hafter⟩ := List.head?_eq_some_iff.mp hclosing
    refine ⟨List.all_takeWhile, closing, after, quote, ?_⟩
    rw [← hafter, List.takeWhile_append_dropWhile]
  · rintro ⟨safe, closing, after, quote, rfl⟩
    -- no quote is path-safe, so the run cannot go on past it
    have stops : isPathSafe closing = false := PathSymbol.isPathSafe_of_isQuote closing quote
    have inside : ∀ a ∈ run, isPathSafe a = true := List.all_eq_true.mp safe
    rw [List.takeWhile_append_of_pos inside, List.dropWhile_append_of_pos inside]
    simp [stops, quote]

/-- The literal between two texts is what is open at the end of the first and closed at the front of
the second. A text has one open run at most, so there is one such literal at most. -/
theorem bridge?_eq_some_iff {first second literal : List α} :
    bridge? first second = some literal ↔ Bridges first second literal := by
  simp only [bridge?, Option.bind_eq_some_iff, Option.map_eq_some_iff, openRun_eq_some_iff,
    closedRun?_eq_some_iff]
  constructor
  · rintro ⟨head, ⟨hhead, before, opening, ho, hfirst⟩, tail, ⟨htail, closing, after, hc, hsecond⟩,
      rfl⟩
    exact ⟨before, opening, head, tail, closing, after, ho, hhead, hfirst, htail, hc, hsecond, rfl⟩
  · rintro ⟨before, opening, head, tail, closing, after, ho, hhead, hfirst, htail, hc, hsecond, rfl⟩
    exact ⟨head, ⟨hhead, before, opening, ho, hfirst⟩, tail, ⟨htail, closing, after, hc, hsecond⟩,
      rfl⟩

/-- Text before and after a text takes no literal of it away, and keeps their order. -/
theorem literals_sublist_append (before text after : List α) :
    (literals text).Sublist (literals (before ++ text ++ after)) := by
  have inside : (literals text).Sublist (literals (before ++ text)) := by
    rw [literals_append]
    exact List.sublist_append_right _ _
  refine inside.trans ?_
  rw [literals_append (before ++ text), List.append_assoc]
  exact List.sublist_append_left _ _

end bridge

/-- Text before and after a text takes no reference in it away: a reference is told by what stands
between its two quotes. -/
theorem KeyPattern.Refers.append {text key : Text} (h : Refers text key) (before after : Text) :
    Refers (before ++ text ++ after) key := by
  obtain ⟨front, run, back, opening, closing, ho, hrun, hc, rfl⟩ := h
  exact ⟨before ++ front, run, back ++ after, opening, closing, ho, hrun, hc, by simp⟩

/-- **Texts one after the other**: the literals of two texts one after the other are those of the
first and those of the second, with the literal between them that begins in the one and ends in the
other, if there is one. Hence a text in a longer one has all its literals there, and refers to all
its keys. -/
theorem literals_isConcatenation (first second : Text) :
    (∃ bridge : Option Text,
      literals (first ++ second) = literals first ++ bridge.toList ++ literals second ∧
        ∀ literal, bridge = some literal ↔ Bridges first second literal) ∧
    ∀ before text after : Text,
      (literals text).Sublist (literals (before ++ text ++ after)) ∧
        ∀ key, (KeyPattern.ofKey key).matchesText text = true →
          (KeyPattern.ofKey key).matchesText (before ++ text ++ after) = true := by
  refine ⟨⟨bridge? first second, literals_append first second, ?_⟩, ?_⟩
  · intro literal
    exact bridge?_eq_some_iff
  · intro before text after
    refine ⟨literals_sublist_append before text after, ?_⟩
    intro key hmatch
    rw [KeyPattern.matchesText_ofKey] at hmatch ⊢
    exact hmatch.append before after

/-- The literal in the middle is cut in two, and the text behind the cut refers to a key with or
without what is before it. -/
theorem literals_isConcatenation_cutImport :
    let first := "'a' './n".toList
    let second := "av' 'lib/b'".toList
    Bridges first second "./nav".toList ∧
      literals (first ++ second) = ["a", "./nav", "lib/b"].map String.toList ∧
      (KeyPattern.ofKey "b".toList).matchesText second = true ∧
      (KeyPattern.ofKey "b".toList).matchesText (first ++ second ++ []) = true := by
  intro first second
  obtain ⟨⟨bridge, hliterals, hbridge⟩, longer⟩ := literals_isConcatenation first second
  have bridges : Bridges first second "./nav".toList :=
    ⟨"'a' ".toList, '\x27', "./n".toList, "av".toList, '\x27', " 'lib/b'".toList, by decide⟩
  have found : (KeyPattern.ofKey "b".toList).matchesText second = true := by decide
  refine ⟨bridges, ?_, found, (longer first second []).2 _ found⟩
  rw [hliterals, (hbridge _).mpr bridges]
  decide

end Orphans
