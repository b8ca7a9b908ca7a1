import Mathlib.Data.List.Induction
import Orphans.Literal

/-!
# What the pass for literals finds

`mem_literals_iff`: the literals of a text are exactly the runs of path-safe symbols that stand
between two quotes in it.

The proof follows the pass from symbol to symbol. Two views of the pass after some text are enough
for that: `openRun`, the path-safe run since the last quote, and `literals`, what has been closed so
far. The lemmas that end in `_concat_of_isQuote`, `_concat_of_isPathSafe` and `_concat_of_other` say
what one more symbol does to them, one for each kind of symbol, and everything else is an induction
from the end of the text. `openRun_eq_some_iff` is the invariant: what is open is what stands behind
the last quote. A literal is then what was open when a quote came.

Nothing here uses that the symbols are characters, so all of it holds of the bytes of a text too.
-/

namespace Orphans

variable {α : Type}

/-- The last symbol of a text stands either where the text is cut or at the end of what follows.
Every induction from the end of a text meets a text with one more symbol that is cut at some quote,
and this tells its two cases. -/
theorem concat_eq_append_cons_iff {text before run : List α} {a b : α} :
    text ++ [a] = before ++ b :: run ↔
      run = [] ∧ text = before ∧ a = b ∨
        ∃ rest, run = rest ++ [a] ∧ text = before ++ b :: rest := by
  -- the cut is at the last symbol exactly if nothing follows it
  rcases List.eq_nil_or_concat run with rfl | ⟨rest, last, rfl⟩
  · constructor
    · intro h
      obtain ⟨htext, hlast⟩ := List.append_inj' h rfl
      exact .inl ⟨rfl, htext, List.singleton_inj.mp hlast⟩
    · rintro (⟨-, rfl, rfl⟩ | ⟨rest, h, -⟩)
      · rfl
      · simp at h
  · constructor
    · intro h
      rw [List.concat_eq_append, ← List.cons_append, ← List.append_assoc] at h
      obtain ⟨htext, hlast⟩ := List.append_inj' h rfl
      rw [List.singleton_inj] at hlast
      exact .inr ⟨rest, by simp [hlast], htext⟩
    · rintro (⟨h, -, -⟩ | ⟨rest', h, rfl⟩)
      · simp at h
      · rw [h]
        simp

variable [PathSymbol α]

/-! ### One more symbol -/

/-- The path-safe symbols since the last quote of a text, while no other symbol stands among
them. -/
def openRun (text : List α) : Option (List α) :=
  (text.foldl LiteralScan.step .start).run.map List.reverse

/-- No quote has been met yet, so no run is open. -/
@[simp] theorem openRun_nil : openRun ([] : List α) = none := rfl

/-- The empty text has no literals. -/
@[simp] theorem literals_nil : literals ([] : List α) = [] := rfl

/-- A quote opens a run, empty so far, whether or not it closes another one. -/
theorem openRun_concat_of_isQuote {a : α} (h : isQuote a = true) (text : List α) :
    openRun (text ++ [a]) = some [] := by
  simp [openRun, LiteralScan.step_of_isQuote h]

/-- A path-safe symbol goes to the open run, and opens none. -/
theorem openRun_concat_of_isPathSafe {a : α} (h : isPathSafe a = true) (text : List α) :
    openRun (text ++ [a]) = (openRun text).map (· ++ [a]) := by
  simp [openRun, LiteralScan.step_of_isPathSafe h, Function.comp_def]

/-- Any other symbol ends the run for good: what follows is in no literal until the next quote. -/
theorem openRun_concat_of_other {a : α} (hq : isQuote a = false) (hs : isPathSafe a = false)
    (text : List α) : openRun (text ++ [a]) = none := by
  simp [openRun, LiteralScan.step_of_other hq hs]

/-- A quote closes the run that is open, and nothing else closes one. -/
theorem literals_concat_of_isQuote {a : α} (h : isQuote a = true) (text : List α) :
    literals (text ++ [a]) = literals text ++ (openRun text).toList := by
  unfold literals openRun
  rw [List.foldl_append, List.foldl_cons, List.foldl_nil, LiteralScan.step_of_isQuote h]
  rcases (text.foldl LiteralScan.step .start).run with _ | run <;> simp

/-- Without a quote nothing is closed. -/
theorem literals_concat_of_not_isQuote {a : α} (h : isQuote a = false) (text : List α) :
    literals (text ++ [a]) = literals text := by
  rcases hs : isPathSafe a with _ | _
  · simp [literals, LiteralScan.step_of_other h hs]
  · simp [literals, LiteralScan.step_of_isPathSafe hs]

/-! ### The open run -/

/-- A run is open exactly when the text ends with a quote and that run. This is the invariant of the
pass: what it remembers is told by the text that it has read, without mentioning the pass. -/
theorem openRun_eq_some_iff {text run : List α} :
    openRun text = some run ↔
      run.all isPathSafe = true ∧
        ∃ before opening, isQuote opening = true ∧ text = before ++ opening :: run := by
  -- on the text from its end, as the pass does; the three cases are the kinds of the last symbol
  induction text using List.reverseRecOn generalizing run with
  | nil => simp
  | append_singleton text a ih =>
    simp only [concat_eq_append_cons_iff]
    by_cases hq : isQuote a = true
    · rw [openRun_concat_of_isQuote hq, Option.some_inj]
      constructor
      · rintro rfl
        exact ⟨rfl, text, a, hq, .inl ⟨rfl, rfl, rfl⟩⟩
      · rintro ⟨safe, before, opening, -, ⟨rfl, -, -⟩ | ⟨rest, rfl, -⟩⟩
        · rfl
        · -- the quote would be one of the path-safe symbols
          rw [List.all_append, Bool.and_eq_true] at safe
          simp [PathSymbol.isPathSafe_of_isQuote a hq] at safe
    · by_cases hs : isPathSafe a = true
      · rw [openRun_concat_of_isPathSafe hs, Option.map_eq_some_iff]
        constructor
        · rintro ⟨rest, hrest, rfl⟩
          obtain ⟨safe, before, opening, ho, htext⟩ := ih.mp hrest
          refine ⟨?_, before, opening, ho, .inr ⟨rest, rfl, htext⟩⟩
          rw [List.all_append, safe]
          simp [hs]
        · -- the text is not cut at its last symbol, as that is no quote
          rintro ⟨safe, before, opening, ho, ⟨-, -, rfl⟩ | ⟨rest, rfl, htext⟩⟩
          · exact absurd ho hq
          · rw [List.all_append, Bool.and_eq_true] at safe
            exact ⟨rest, ih.mpr ⟨safe.1, before, opening, ho, htext⟩, rfl⟩
      · rw [openRun_concat_of_other (by simpa using hq) (by simpa using hs)]
        constructor
        · intro h
          cases h
        · rintro ⟨safe, before, opening, ho, ⟨-, -, rfl⟩ | ⟨rest, rfl, -⟩⟩
          · exact absurd ho hq
          · rw [List.all_append, Bool.and_eq_true] at safe
            simp [hs] at safe

/-! ### The literals -/

/-- **What a literal is**: the literals of a text are the runs of path-safe symbols between two
quotes. The quotes may differ, and the closing quote of one literal may be the opening quote of the
next. -/
theorem mem_literals_iff {text literal : List α} :
    literal ∈ literals text ↔
      literal.all isPathSafe = true ∧
        ∃ before opening closing after, isQuote opening = true ∧ isQuote closing = true ∧
          text = before ++ opening :: literal ++ closing :: after := by
  induction text using List.reverseRecOn with
  | nil => simp
  | append_singleton text a ih =>
    simp only [concat_eq_append_cons_iff]
    by_cases hq : isQuote a = true
    · rw [literals_concat_of_isQuote hq, List.mem_append, Option.mem_toList, ih,
        openRun_eq_some_iff]
      constructor
      · -- closed before, or open until the quote at the end
        rintro (⟨safe, before, opening, closing, after, ho, hc, htext⟩ |
          ⟨safe, before, opening, ho, htext⟩)
        · exact ⟨safe, before, opening, closing, after ++ [a], ho, hc, .inr ⟨after, rfl, htext⟩⟩
        · exact ⟨safe, before, opening, a, [], ho, hq, .inl ⟨rfl, htext, rfl⟩⟩
      · rintro ⟨safe, before, opening, closing, after, ho, hc,
          ⟨-, htext, -⟩ | ⟨rest, -, htext⟩⟩
        · exact .inr ⟨safe, before, opening, ho, htext⟩
        · exact .inl ⟨safe, before, opening, closing, rest, ho, hc, htext⟩
    · -- no literal ends at a symbol that is no quote, so only those of the shorter text are left
      rw [literals_concat_of_not_isQuote (by simpa using hq), ih]
      constructor
      · rintro ⟨safe, before, opening, closing, after, ho, hc, htext⟩
        exact ⟨safe, before, opening, closing, after ++ [a], ho, hc, .inr ⟨after, rfl, htext⟩⟩
      · rintro ⟨safe, before, opening, closing, after, ho, hc,
          ⟨-, -, rfl⟩ | ⟨rest, -, htext⟩⟩
        · exact absurd hc hq
        · exact ⟨safe, before, opening, closing, rest, ho, hc, htext⟩

end Orphans
