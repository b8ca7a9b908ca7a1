import Mathlib.Data.List.Basic
import Orphans.Proofs.Concatenation

/-!
# The first literal that ends with a key

`literalEndingWith_findsFirst`: the search for a key among the ends of literals gives the first
literal that ends with it, whether or not the key is looked for in the text beforehand. A key with a
character that is not path-safe is never found. Any other key is found unless the text does not
refer to it, and what is found stands in the reference whose opening quote comes earliest.

The search goes through the literals in the order of a list, and a reference is told by the place of
its opening quote. `LiteralAt` carries the one over to the other: at the front of a text there is
the literal that the first symbol opens, if it is a quote (`literalAt_cons_zero`), and behind it all
places are one further on (`literalAt_cons_succ`).

`find?_literals_eq_some_iff` is this for any property of literals, by induction on the text. The
property that is asked here is to end with the key, and then `LiteralAt` with that property is a
reference (`literalAt_append_iff`).
-/

namespace Orphans

/-! ### Places of literals -/

section Places

variable {α : Type} [PathSymbol α]

/-- A literal of a text stands behind the quote at an offset. Behind one quote stands one literal at
most, so the offset tells two equal literals apart. -/
def LiteralAt (text : List α) (offset : Nat) (literal : List α) : Prop :=
  literal.all isPathSafe = true ∧
    ∃ before opening closing after, before.length = offset ∧ isQuote opening = true ∧
      isQuote closing = true ∧ text = before ++ opening :: literal ++ closing :: after

variable {a : α} {text literal : List α} {offset : Nat}

/-- The empty text has no quote for a literal to stand behind. -/
theorem not_literalAt_nil : ¬LiteralAt [] offset literal := by
  rintro ⟨-, before, opening, closing, after, -, -, -, h⟩
  simp at h

/-- Behind the first symbol of a text stands a literal exactly if that symbol is a quote and the run
behind it is closed. -/
theorem literalAt_cons_zero :
    LiteralAt (a :: text) 0 literal ↔ isQuote a = true ∧ closedRun? text = some literal := by
  rw [closedRun?_eq_some_iff]
  constructor
  · rintro ⟨safe, before, opening, closing, after, hbefore, ho, hc, htext⟩
    obtain rfl := List.length_eq_zero_iff.mp hbefore
    obtain ⟨rfl, rfl⟩ := List.cons.inj htext
    exact ⟨ho, safe, closing, after, hc, rfl⟩
  · rintro ⟨ho, safe, closing, after, hc, rfl⟩
    exact ⟨safe, [], a, closing, after, rfl, ho, hc, rfl⟩

/-- One more symbol at the front moves every literal by one place. -/
theorem literalAt_cons_succ :
    LiteralAt (a :: text) (offset + 1) literal ↔ LiteralAt text offset literal := by
  constructor
  · rintro ⟨safe, before, opening, closing, after, hbefore, ho, hc, htext⟩
    obtain ⟨first, before, rfl⟩ := List.exists_cons_of_length_eq_add_one hbefore
    obtain ⟨rfl, rfl⟩ := List.cons.inj htext
    exact ⟨safe, before, opening, closing, after, Nat.succ.inj hbefore, ho, hc, rfl⟩
  · rintro ⟨safe, before, opening, closing, after, rfl, ho, hc, rfl⟩
    exact ⟨safe, a :: before, opening, closing, after, rfl, ho, hc, rfl⟩

/-- The literal at the front is the first one with a property, if there is one and it has the
property; otherwise the first one is found in the rest. -/
theorem find?_literals_cons_eq_some_iff {p : List α → Bool} :
    (literals (a :: text)).find? p = some literal ↔
      LiteralAt (a :: text) 0 literal ∧ p literal = true ∨
        (∀ other, LiteralAt (a :: text) 0 other → p other = false) ∧
          (literals text).find? p = some literal := by
  simp only [literalAt_cons_zero]
  rcases hq : isQuote a with _ | _
  · rw [literals_cons_of_not_isQuote hq]
    simp
  · rw [literals_cons_of_isQuote hq, List.find?_append, Option.or_eq_some_iff]
    rcases closedRun? text with _ | run
    · simp
    · have found : p run = true ∧ run = literal ↔ run = literal ∧ p literal = true := by
        rw [and_comm]
        exact and_congr_right fun same => same ▸ Iff.rfl
      simp [found]

/-- The first literal with a property is the one with the earliest opening quote. So the order of
the list of literals is the order in which they begin in the text. -/
theorem find?_literals_eq_some_iff {p : List α → Bool} :
    (literals text).find? p = some literal ↔
      ∃ offset, LiteralAt text offset literal ∧ p literal = true ∧
        ∀ earlier < offset, ∀ other, LiteralAt text earlier other → p other = false := by
  -- on the text: what is found stands at the front or, one place further on, in the rest
  induction text with
  | nil => simp [not_literalAt_nil]
  | cons a text ih =>
    rw [find?_literals_cons_eq_some_iff, ih]
    constructor
    · rintro (⟨front, hp⟩ | ⟨none, offset, behind, hp, least⟩)
      · exact ⟨0, front, hp, fun _ h => absurd h (Nat.not_lt_zero _)⟩
      · refine ⟨offset + 1, literalAt_cons_succ.mpr behind, hp, ?_⟩
        rw [Nat.forall_lt_succ_left]
        exact ⟨none, fun earlier lt other h => least earlier lt other (literalAt_cons_succ.mp h)⟩
    · rintro ⟨_ | offset, h, hp, least⟩
      · exact .inl ⟨h, hp⟩
      · rw [Nat.forall_lt_succ_left] at least
        refine .inr ⟨least.1, offset, literalAt_cons_succ.mp h, hp, ?_⟩
        intro earlier lt other h
        exact least.2 earlier lt other (literalAt_cons_succ.mpr h)

end Places

/-! ### The search for a key -/

/-- A text refers to a key from the quote at an offset on, with a run of path-safe characters
between that quote and the key. The key itself may have any characters, also quotes. -/
def KeyPattern.RefersFrom (text key : Text) (offset : Nat) (run : Text) : Prop :=
  ∃ (before after : Text) (opening closing : Char), before.length = offset ∧
    isQuote opening = true ∧ run.all isPathSafe = true ∧ isQuote closing = true ∧
      text = before ++ opening :: run ++ key ++ closing :: after

open KeyPattern (RefersFrom)

variable {text key literal : Text} {offset : Nat}

/-- A text refers to a key exactly when it does so from some quote on. -/
theorem KeyPattern.refers_iff_exists_refersFrom :
    Refers text key ↔ ∃ offset run, RefersFrom text key offset run := by
  constructor
  · rintro ⟨before, run, after, opening, closing, ho, hrun, hc, htext⟩
    exact ⟨before.length, run, before, after, opening, closing, rfl, ho, hrun, hc, htext⟩
  · rintro ⟨-, run, before, after, opening, closing, -, ho, hrun, hc, htext⟩
    exact ⟨before, run, after, opening, closing, ho, hrun, hc, htext⟩

/-- The references to a path-safe key are the literals that end with it. -/
theorem literalAt_append_iff {run : Text} (safe : isPathSafeKey key = true) :
    LiteralAt text offset (run ++ key) ↔ RefersFrom text key offset run := by
  have safe : key.all isPathSafe = true := safe
  unfold LiteralAt RefersFrom
  rw [List.all_append, safe, Bool.and_true]
  constructor
  · rintro ⟨hrun, before, opening, closing, after, hbefore, ho, hc, rfl⟩
    exact ⟨before, after, opening, closing, hbefore, ho, hrun, hc, by simp⟩
  · rintro ⟨before, after, opening, closing, hbefore, ho, hrun, hc, rfl⟩
    exact ⟨hrun, before, opening, closing, after, hbefore, ho, hc, by simp⟩

/-- No literal ends with a key that holds other than path-safe characters. -/
theorem literalEndingWith_eq_none_of_mem {c : Char} (hc : c ∈ key)
    (notSafe : isPathSafe c = false) : literalEndingWith text key = none := by
  rw [literalEndingWith_eq_find?, List.find?_eq_none]
  intro literal hliteral suffix
  obtain ⟨safe, -⟩ := mem_literals_iff.mp hliteral
  have inside : c ∈ literal := (List.isSuffixOf_iff_suffix.mp suffix).subset hc
  rw [List.all_eq_true.mp safe c inside] at notSafe
  cases notSafe

/-- A path-safe key is not found exactly when the text has no reference to it. -/
theorem literalEndingWith_eq_none_iff (safe : isPathSafeKey key = true) :
    literalEndingWith text key = none ↔ ∀ offset run, ¬RefersFrom text key offset run := by
  rw [← Option.not_isSome_iff_eq_none, isSome_literalEndingWith,
    ← KeyPattern.refers_iff_exists_literal safe, KeyPattern.refers_iff_exists_refersFrom]
  simp only [not_exists]

/-- What is found for a path-safe key is the run and the key of the reference with the earliest
opening quote. -/
theorem literalEndingWith_eq_some_iff (safe : isPathSafeKey key = true) :
    literalEndingWith text key = some literal ↔
      ∃ offset run, literal = run ++ key ∧ RefersFrom text key offset run ∧
        ∀ earlier other, RefersFrom text key earlier other → offset ≤ earlier := by
  rw [literalEndingWith_eq_find?, find?_literals_eq_some_iff]
  constructor
  · rintro ⟨offset, behind, suffix, least⟩
    obtain ⟨run, rfl⟩ := List.isSuffixOf_iff_suffix.mp suffix
    refine ⟨offset, run, rfl, (literalAt_append_iff safe).mp behind, ?_⟩
    intro earlier other refers
    -- an earlier reference would be an earlier literal that ends with the key
    by_contra lt
    have notFound := least earlier (Nat.lt_of_not_le lt) _ ((literalAt_append_iff safe).mpr refers)
    rw [List.isSuffixOf_iff_suffix.mpr (List.suffix_append other key)] at notFound
    cases notFound
  · rintro ⟨offset, run, rfl, refers, least⟩
    refine ⟨offset, (literalAt_append_iff safe).mpr refers,
      List.isSuffixOf_iff_suffix.mpr (List.suffix_append run key), ?_⟩
    intro earlier lt other behind
    rw [Bool.eq_false_iff]
    intro suffix
    obtain ⟨run', rfl⟩ := List.isSuffixOf_iff_suffix.mp suffix
    exact absurd (least earlier run' ((literalAt_append_iff safe).mp behind)) (Nat.not_le_of_lt lt)

/-- What the search for a key among the ends of literals gives. -/
structure FindsFirst (text key : Text) : Prop where
  /-- It is the first literal that ends with the key: that the key has to occur in the text at all
  excludes none. -/
  eq_find? : literalEndingWith text key = (literals text).find? (key.isSuffixOf ·)
  /-- Keys with other than path-safe characters are not found. -/
  eq_none_of_mem : ∀ c ∈ key, isPathSafe c = false → literalEndingWith text key = none
  /-- All other keys are found, unless the text has no reference to them. -/
  eq_none_iff : (∀ c ∈ key, isPathSafe c = true) →
    (literalEndingWith text key = none ↔ ∀ offset run, ¬RefersFrom text key offset run)
  /-- What is found is in the reference whose opening quote comes earliest. -/
  eq_some_iff : (∀ c ∈ key, isPathSafe c = true) → ∀ literal,
    (literalEndingWith text key = some literal ↔
      ∃ offset run, literal = run ++ key ∧ RefersFrom text key offset run ∧
        ∀ earlier other, RefersFrom text key earlier other → offset ≤ earlier)

/-- **The first literal**: the search for a key among the ends of literals finds the earliest
reference to it, and nothing else.  The check whether the key occurs at all, which comes before the
search, is part of what is proved: it never changes the answer. A key that is not path-safe is never
found, as it ends no literal. -/
theorem literalEndingWith_findsFirst (text key : Text) : FindsFirst text key where
  eq_find? := literalEndingWith_eq_find? text key
  eq_none_of_mem _ hc notSafe := literalEndingWith_eq_none_of_mem hc notSafe
  eq_none_iff safe := literalEndingWith_eq_none_iff (List.all_eq_true.mpr safe)
  eq_some_iff safe _ := literalEndingWith_eq_some_iff (List.all_eq_true.mpr safe)

/-- The key occurs twice before the first literal that ends with it. -/
example : literalEndingWith "nav('nav/x', 'lib/nav')".toList "nav".toList =
    some "lib/nav".toList := by
  decide

end Orphans
