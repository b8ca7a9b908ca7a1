import Mathlib.Data.List.Basic
import Orphans.Proofs.Literal

/-!
# Where the literals stand

A *span* goes from the offset after a quote over the path-safe symbols there, and there is one for
every quote from which these lead to another quote. `literals_eq_map_slice`: the literals of a text
are its slices at the spans, in order. `mem_spans` tells the spans by the two quotes around them.

The pass closes literals as it goes on, and spans are looked up by offset, so both are taken apart
at the first symbol (`literals_cons_of_isQuote`, `spans_cons`). What the literals are behind the
first symbol is a case of `literals_append`, which says what is found in two texts one after the
other:

* Between the literals of the first text and those of the second stands at most one more, `bridge?`:
  the run that is open at the end of the first text, closed by the second.
* `literals_concat_append_bridge?` is the step. A symbol that goes over from the second text to the
  first one changes what is found on the two sides and between them, but not the whole.
* The induction is on the second text, with the first one growing.
-/

namespace Orphans

variable {α : Type}

/-! ### Spans -/

/-- A part of a text, from the offset of its first symbol to the offset after its last. -/
structure Span where
  start : Nat
  stop : Nat
deriving Repr, DecidableEq

namespace Span

/-- The symbols of a text in a span. -/
def slice (span : Span) (text : List α) : List α :=
  (text.drop span.start).take (span.stop - span.start)

/-- The span in a text with one more symbol at the front. -/
def shift (span : Span) : Span :=
  ⟨span.start + 1, span.stop + 1⟩

/-- A span moves along with its text. -/
@[simp] theorem slice_shift (span : Span) (a : α) (text : List α) :
    span.shift.slice (a :: text) = span.slice text := by
  simp [slice, shift]

end Span

variable [PathSymbol α]

/-- The span of the path-safe symbols from an offset on, if a quote comes after them. It may be
empty, where a quote stands at the offset itself. -/
def spanFrom? (text : List α) (start : Nat) : Option Span :=
  let stop := start + ((text.drop start).takeWhile isPathSafe).length
  if text[stop]?.any isQuote then some ⟨start, stop⟩ else none

/-- The offsets of the quotes in a text. -/
def quoteOffsets (text : List α) : List Nat :=
  (List.range text.length).filter fun offset => text[offset]?.any isQuote

/-- The spans of a text, in the order of their opening quotes. -/
def spans (text : List α) : List Span :=
  (quoteOffsets text).filterMap fun opening => spanFrom? text (opening + 1)

/-! ### What is found in two texts one after the other -/

/-- The path-safe symbols at the front of a text, if a quote comes after them. This is what the pass
would close if a quote had come before the text. -/
def closedRun? (text : List α) : Option (List α) :=
  if (text.dropWhile isPathSafe).head?.any isQuote then some (text.takeWhile isPathSafe) else none

/-- A quote at the front closes the empty run. -/
theorem closedRun?_cons_of_isQuote {a : α} (h : isQuote a = true) (text : List α) :
    closedRun? (a :: text) = some [] := by
  simp [closedRun?, h, PathSymbol.isPathSafe_of_isQuote a h]

/-- A path-safe symbol at the front belongs to the run that is closed behind it, if one is. -/
theorem closedRun?_cons_of_isPathSafe {a : α} (h : isPathSafe a = true) (text : List α) :
    closedRun? (a :: text) = (closedRun? text).map (a :: ·) := by
  unfold closedRun?
  rw [List.dropWhile_cons_of_pos h, List.takeWhile_cons_of_pos h]
  split <;> rfl

/-- Any other symbol at the front closes nothing. -/
theorem closedRun?_cons_of_other {a : α} (hq : isQuote a = false) (hs : isPathSafe a = false)
    (text : List α) : closedRun? (a :: text) = none := by
  simp [closedRun?, hq, hs]

/-- What begins in the first of two texts and ends in the second: the open run of the first with the
closed run of the second. There is none unless both are there. -/
def bridge? (first second : List α) : Option (List α) :=
  (openRun first).bind fun run => (closedRun? second).map (run ++ ·)

/-- Nothing ends in the empty text. -/
@[simp] theorem bridge?_nil (first : List α) : bridge? first [] = none := by
  unfold bridge?
  rcases openRun first with _ | run <;> rfl

/-- The first text ends with a quote, so a literal goes over exactly if the second text closes one.
-/
theorem bridge?_concat_of_isQuote {a : α} (h : isQuote a = true) (first second : List α) :
    bridge? (first ++ [a]) second = closedRun? second := by
  unfold bridge?
  rw [openRun_concat_of_isQuote h, Option.bind_some]
  exact Option.map_id'

/-- The second text begins with a quote, so it closes what is open in the first. -/
theorem bridge?_cons_of_isQuote {a : α} (h : isQuote a = true) (first second : List α) :
    bridge? first (a :: second) = openRun first := by
  unfold bridge?
  rw [closedRun?_cons_of_isQuote h]
  rcases openRun first with _ | run <;> simp

/-- A path-safe symbol between the texts may be counted to either of them. -/
theorem bridge?_concat_of_isPathSafe {a : α} (h : isPathSafe a = true) (first second : List α) :
    bridge? (first ++ [a]) second = bridge? first (a :: second) := by
  unfold bridge?
  rw [openRun_concat_of_isPathSafe h, closedRun?_cons_of_isPathSafe h]
  rcases openRun first with _ | run
  · rfl
  · simp [Function.comp_def]

/-- Nothing goes over where the first text ends with a symbol that is neither quote nor path-safe.
-/
theorem bridge?_concat_of_other {a : α} (hq : isQuote a = false) (hs : isPathSafe a = false)
    (first second : List α) : bridge? (first ++ [a]) second = none := by
  unfold bridge?
  rw [openRun_concat_of_other hq hs, Option.bind_none]

/-- Nor where the second text begins with one. -/
theorem bridge?_cons_of_other {a : α} (hq : isQuote a = false) (hs : isPathSafe a = false)
    (first second : List α) : bridge? first (a :: second) = none := by
  unfold bridge?
  rw [closedRun?_cons_of_other hq hs]
  rcases openRun first with _ | run <;> rfl

/-- Moving a symbol from the second text to the first one keeps the literals. It is the step of the
induction; the three kinds of symbols are its cases. -/
theorem literals_concat_append_bridge? (first second : List α) (a : α) :
    literals (first ++ [a]) ++ (bridge? (first ++ [a]) second).toList =
      literals first ++ (bridge? first (a :: second)).toList ++
        (bridge? [a] second).toList := by
  have alone : bridge? [a] second = bridge? ([] ++ [a]) second := rfl
  rw [alone]
  -- the kind of the symbol that goes over decides what it closes and opens
  by_cases hq : isQuote a = true
  · rw [literals_concat_of_isQuote hq, bridge?_concat_of_isQuote hq, bridge?_cons_of_isQuote hq,
      bridge?_concat_of_isQuote hq]
  · rw [Bool.not_eq_true] at hq
    rw [literals_concat_of_not_isQuote hq]
    by_cases hs : isPathSafe a = true
    · have unopened : bridge? [] (a :: second) = none := rfl
      rw [bridge?_concat_of_isPathSafe hs, bridge?_concat_of_isPathSafe hs, unopened]
      exact (List.append_nil _).symm
    · rw [Bool.not_eq_true] at hs
      rw [bridge?_concat_of_other hq hs, bridge?_cons_of_other hq hs, bridge?_concat_of_other hq hs]
      exact (List.append_nil _).symm

/-- One symbol is no literal: two quotes are needed. -/
theorem literals_singleton (a : α) : literals [a] = [] := by
  by_cases h : isQuote a = true
  · exact literals_concat_of_isQuote h []
  · exact literals_concat_of_not_isQuote (by simpa using h) []

/-- **Literals of two texts one after the other**: those of the first, those of the second, and
between them one more at most, which goes over from the one to the other. -/
theorem literals_append (first second : List α) :
    literals (first ++ second) =
      literals first ++ (bridge? first second).toList ++ literals second := by
  -- symbol by symbol, the second text goes over to the first
  induction second generalizing first with
  | nil => simp
  | cons a second ih =>
    -- the induction hypothesis is about any first text, so it also takes the second one apart
    have front : literals (a :: second) = (bridge? [a] second).toList ++ literals second := by
      refine (ih [a]).trans ?_
      rw [literals_singleton, List.nil_append]
    calc literals (first ++ a :: second)
      _ = literals ((first ++ [a]) ++ second) := by rw [List.append_assoc, List.singleton_append]
      _ = literals (first ++ [a]) ++ (bridge? (first ++ [a]) second).toList ++ literals second :=
        ih (first ++ [a])
      _ = literals first ++ (bridge? first (a :: second)).toList ++ literals (a :: second) := by
        rw [literals_concat_append_bridge?, front, List.append_assoc]

/-- A quote at the front opens one more literal, if the run behind it is closed. -/
theorem literals_cons_of_isQuote {a : α} (h : isQuote a = true) (text : List α) :
    literals (a :: text) = (closedRun? text).toList ++ literals text := by
  have front : bridge? [a] text = closedRun? text := bridge?_concat_of_isQuote h [] text
  rw [← List.singleton_append, literals_append, literals_singleton, front, List.nil_append]

/-- Any other symbol at the front adds none. -/
theorem literals_cons_of_not_isQuote {a : α} (h : isQuote a = false) (text : List α) :
    literals (a :: text) = literals text := by
  have unopened : openRun [a] = none := by
    rcases hs : isPathSafe a with _ | _
    · exact openRun_concat_of_other h hs []
    · exact openRun_concat_of_isPathSafe hs []
  rw [← List.singleton_append, literals_append, literals_singleton, bridge?, unopened]
  rfl

/-- Symbols without quotes add no literal. -/
theorem literals_append_of_not_isQuote {first : List α}
    (h : ∀ a ∈ first, isQuote a = false) (second : List α) :
    literals (first ++ second) = literals second := by
  induction first with
  | nil => rfl
  | cons a first ih =>
    rw [List.forall_mem_cons] at h
    rw [List.cons_append, literals_cons_of_not_isQuote h.1, ih h.2]

/-! ### Spans from the front -/

/-- One more symbol at the front moves the span behind an offset. -/
theorem spanFrom?_cons (a : α) (text : List α) (start : Nat) :
    spanFrom? (a :: text) (start + 1) = (spanFrom? text start).map Span.shift := by
  unfold spanFrom?
  simp only [List.drop_succ_cons, Nat.add_right_comm _ 1, List.getElem?_cons_succ]
  split <;> rfl

/-- The quotes of a text with one more symbol at the front: that symbol if it is one, and the others
one place later. -/
theorem quoteOffsets_cons (a : α) (text : List α) :
    quoteOffsets (a :: text) =
      (if isQuote a then [0] else []) ++ (quoteOffsets text).map (· + 1) := by
  unfold quoteOffsets
  rw [List.length_cons, List.range_succ_eq_map, List.filter_cons, List.filter_map]
  rcases hq : isQuote a with _ | _ <;> simp [hq, Function.comp_def]

/-- The spans of a text with one more symbol at the front: one more if that is a quote from which
path-safe symbols lead to another, and the others one place later. -/
theorem spans_cons (a : α) (text : List α) :
    spans (a :: text) =
      ((if isQuote a then (spanFrom? text 0).toList else []) ++ spans text).map Span.shift := by
  unfold spans
  rw [quoteOffsets_cons, List.filterMap_append, List.filterMap_map, List.map_append,
    List.map_filterMap]
  -- the span behind the symbol itself, and the spans behind the other quotes
  congr 1
  · split
    · have first : spanFrom? (a :: text) 1 = (spanFrom? text 0).map Span.shift :=
        spanFrom?_cons a text 0
      rw [List.filterMap_eq_flatMap_toList, List.flatMap_singleton, Nat.zero_add, first,
        Option.toList_map]
    · rfl
  · apply List.filterMap_congr
    intro opening _
    exact spanFrom?_cons a text (opening + 1)

/-- The symbols of a span at the front are the run that is closed there. This ties the offsets to
the pass. -/
theorem map_slice_spanFrom? (text : List α) :
    (spanFrom? text 0).map (·.slice text) = closedRun? text := by
  -- the symbol at which the run stops, by offset and by dropping the run
  have next : text[(text.takeWhile isPathSafe).length]? = (text.dropWhile isPathSafe).head? := by
    calc text[(text.takeWhile isPathSafe).length]?
      _ = (text.drop (text.takeWhile isPathSafe).length).head? := List.head?_drop.symm
      _ = ((text.takeWhile isPathSafe ++ text.dropWhile isPathSafe).drop
            (text.takeWhile isPathSafe).length).head? := by rw [List.takeWhile_append_dropWhile]
      _ = (text.dropWhile isPathSafe).head? := by rw [List.drop_left]
  have run : text.take (text.takeWhile isPathSafe).length = text.takeWhile isPathSafe :=
    (List.prefix_iff_eq_take.mp (List.takeWhile_prefix isPathSafe)).symm
  unfold spanFrom? closedRun?
  simp only [List.drop_zero, Nat.zero_add, next]
  split
  · rw [Option.map_some, Span.slice]
    exact congrArg some run
  · rfl

/-- **Literals by their places**: the literals of a text are its slices at the spans, in order. -/
theorem literals_eq_map_slice (text : List α) :
    literals text = (spans text).map (·.slice text) := by
  -- both sides are taken apart at the first symbol
  induction text with
  | nil => rfl
  | cons a text ih =>
    have shifted : (fun span : Span => span.slice (a :: text)) ∘ Span.shift =
        fun span => span.slice text := funext fun span => Span.slice_shift span a text
    rw [spans_cons, List.map_map, shifted, List.map_append, ← ih]
    rcases hq : isQuote a with _ | _
    · exact literals_cons_of_not_isQuote hq text
    · rw [literals_cons_of_isQuote hq, ← map_slice_spanFrom?, if_pos rfl]
      exact congrArg (· ++ _) Option.toList_map

/-! ### Where a run ends -/

/-- The path-safe symbols at the front of a text reach to a quote exactly when no other symbol
stands before it. -/
theorem length_takeWhile_eq_iff {text : List α} {stop : Nat} (h : text[stop]?.any isQuote = true) :
    (text.takeWhile isPathSafe).length = stop ↔
      ∀ offset < stop, text[offset]?.any isPathSafe = true := by
  induction text generalizing stop with
  | nil => simp at h
  | cons a text ih =>
    rcases stop with _ | stop
    · have notSafe : isPathSafe a = false := PathSymbol.isPathSafe_of_isQuote a h
      simp [notSafe]
    · rw [List.getElem?_cons_succ] at h
      rw [Nat.forall_lt_succ_left]
      rcases hs : isPathSafe a with _ | _
      · simp [hs]
      · simp only [List.takeWhile_cons_of_pos hs, List.length_cons, Nat.add_right_cancel_iff, ih h,
          List.getElem?_cons_zero, List.getElem?_cons_succ, Option.any_some, hs, true_and]

/-- The span behind an offset goes to the quote that only path-safe symbols stand before. So it can
be told without saying how far path-safe symbols reach. -/
theorem spanFrom?_eq_some_iff {text : List α} {start : Nat} {span : Span} :
    spanFrom? text start = some span ↔
      span.start = start ∧ start ≤ span.stop ∧ text[span.stop]?.any isQuote = true ∧
        ∀ offset, start ≤ offset → offset < span.stop → text[offset]?.any isPathSafe = true := by
  have there (offset : Nat) : text[start + offset]? = (text.drop start)[offset]? :=
    List.getElem?_drop.symm
  rcases span with ⟨start', stop⟩
  simp only [spanFrom?, Option.ite_none_right_eq_some, Option.some_inj, Span.mk.injEq]
  constructor
  · rintro ⟨quote, rfl, rfl⟩
    refine ⟨rfl, Nat.le_add_right _ _, quote, ?_⟩
    intro offset hstart hstop
    obtain ⟨rest, rfl⟩ := Nat.exists_eq_add_of_le hstart
    rw [there] at quote ⊢
    exact (length_takeWhile_eq_iff quote).mp rfl rest (Nat.lt_of_add_lt_add_left hstop)
  · rintro ⟨rfl, start_le, quote, between⟩
    obtain ⟨length, rfl⟩ := Nat.exists_eq_add_of_le start_le
    -- the run of path-safe symbols ends where the quote stands, since a quote is not path-safe
    have reaches : ((text.drop start').takeWhile isPathSafe).length = length := by
      rw [length_takeWhile_eq_iff (by rwa [← there])]
      intro offset hoffset
      rw [← there]
      exact between _ (Nat.le_add_right _ _) (Nat.add_lt_add_left hoffset start')
    rw [reaches]
    exact ⟨quote, rfl, rfl⟩

/-! ### The quotes at a span -/

/-- Quotes stand at two offsets of a text, and only path-safe symbols between them. -/
structure Delimits (text : List α) (opening closing : Nat) : Prop where
  /-- The opening quote comes first. -/
  lt : opening < closing
  isQuote_opening : text[opening]?.any isQuote = true
  isQuote_closing : text[closing]?.any isQuote = true
  /-- So no quote stands between them. -/
  isPathSafe_between : ∀ offset, opening < offset → offset < closing →
    text[offset]?.any isPathSafe = true

/-- The offsets of quotes are exactly where quotes stand, so they lie inside the text. -/
theorem mem_quoteOffsets {text : List α} {offset : Nat} :
    offset ∈ quoteOffsets text ↔ text[offset]?.any isQuote = true := by
  unfold quoteOffsets
  rw [List.mem_filter, List.mem_range]
  refine and_iff_right_of_imp ?_
  intro quote
  obtain ⟨a, ha, -⟩ := (Option.any_eq_true _ _).mp quote
  exact (List.getElem?_eq_some_iff.mp ha).1

/-- The spans of a text are the parts of it between two quotes with only path-safe symbols between
them. -/
theorem mem_spans {text : List α} {span : Span} :
    span ∈ spans text ↔ ∃ opening, span.start = opening + 1 ∧ Delimits text opening span.stop := by
  unfold spans
  simp only [List.mem_filterMap, mem_quoteOffsets, spanFrom?_eq_some_iff]
  constructor
  · rintro ⟨opening, isQuote_opening, hstart, lt, isQuote_closing, between⟩
    exact ⟨opening, hstart, lt, isQuote_opening, isQuote_closing, between⟩
  · rintro ⟨opening, hstart, lt, isQuote_opening, isQuote_closing, between⟩
    exact ⟨opening, isQuote_opening, hstart, lt, isQuote_closing, between⟩

end Orphans
