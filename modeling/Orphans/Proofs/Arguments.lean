import Mathlib.Data.List.Induction
import Orphans.Proofs.ArgumentReader
import Orphans.Proofs.Occurrence

/-!
# What arguments give

`Arguments.read_eq_ok_iff`: occurrences that are written as arguments, in whatever way, are read if
they fit together (`Arguments.Accepted`), and then what is read of them is
`Arguments.ofOccurrences`. So it does not matter how they are written, and of their order nothing
matters but that of the pieces of a list.

1. A draft grows at its end, so the induction on the occurrences is from the right:
   `Draft.foldlM_keep?_eq_some_iff` from `Draft.keep?_eq_some_iff`, with one case for each kind of
   occurrence.
2. A draft is finished with the root of the environment where none is given, if no two of its flags
   exclude each other (`withVariable_eq_ok_iff`, `finish_eq_ok_iff`).
3. The reader comes to the same draft (`ArgumentReader.settled?_foldlM_read`).
-/

namespace Orphans

/-! ### Drafts -/

namespace Draft

open Occurrence

/-- The draft that occurrences make if they fit together. -/
def ofOccurrences (occurrences : List Occurrence) : Draft where
  root := (roots occurrences).head?
  sourceRoot := (values .sourceRoot occurrences).head?
  strategy := (values .strategy occurrences).head?.bind Strategy.ofName?
  extensions := pieces .extensions occurrences
  implicitFiles := pieces .implicitFiles occurrences
  excludeDirs := pieces .excludeDirs occurrences
  flags := Occurrence.flags occurrences

variable {occurrences : List Occurrence} {draft : Draft}

/-! ### One more occurrence of each kind -/

/-- A first root at the end is the root of the draft. -/
theorem ofOccurrences_concat_root {value : Text} (first : roots occurrences = []) :
    ofOccurrences (occurrences ++ [.root value]) =
      { ofOccurrences occurrences with root := some value } := by
  simp [ofOccurrences, pieces, first]

/-- A root is kept if it fits to what was given before. -/
theorem keep?_root_eq_some_iff (fit : Fit occurrences) (value : Text) :
    (ofOccurrences occurrences).keep? (.root value) = some draft ↔
      Fit (occurrences ++ [.root value]) ∧
        draft = ofOccurrences (occurrences ++ [.root value]) := by
  rw [fit.concat_root_iff]
  by_cases first : roots occurrences = []
  · have none : ¬ (ofOccurrences occurrences).root.isSome = true := by simp [ofOccurrences, first]
    rw [keep?, if_neg none, Except.toOption_eq_some_iff, setRoot_eq_ok_iff,
      ofOccurrences_concat_root first]
    simp [first]
  · simp [keep?, ofOccurrences, first]

/-- A flag at the end is the last flag of the draft. -/
theorem ofOccurrences_concat_flag {flag : Flag} :
    ofOccurrences (occurrences ++ [.flag flag]) =
      { ofOccurrences occurrences with flags := Occurrence.flags occurrences ++ [flag] } := by
  simp [ofOccurrences, pieces]

/-- A flag is kept if it fits. -/
theorem keep?_flag_eq_some_iff (fit : Fit occurrences) (flag : Flag) :
    (ofOccurrences occurrences).keep? (.flag flag) = some draft ↔
      Fit (occurrences ++ [.flag flag]) ∧ draft = ofOccurrences (occurrences ++ [.flag flag]) := by
  rw [fit.concat_flag_iff, keep?, Except.toOption_eq_some_iff, setFlag_eq_ok_iff,
    ofOccurrences_concat_flag]
  rfl

/-- A first source root at the end is the source root of the draft. -/
theorem ofOccurrences_concat_sourceRoot {value : Text}
    (first : values .sourceRoot occurrences = []) :
    ofOccurrences (occurrences ++ [.setting .sourceRoot value]) =
      { ofOccurrences occurrences with sourceRoot := some value } := by
  simp [ofOccurrences, pieces, first]

/-- A source root is kept if it fits. -/
theorem keep?_sourceRoot_eq_some_iff (fit : Fit occurrences) (value : Text) :
    (ofOccurrences occurrences).keep? (.setting .sourceRoot value) = some draft ↔
      Fit (occurrences ++ [.setting .sourceRoot value]) ∧
        draft = ofOccurrences (occurrences ++ [.setting .sourceRoot value]) := by
  have none : (ofOccurrences occurrences).sourceRoot = none ↔ values .sourceRoot occurrences = [] :=
    List.head?_eq_none_iff
  rw [fit.concat_single_iff rfl, keep?, Except.toOption_eq_some_iff, and_assoc, ← none]
  refine setSourceRoot_eq_ok_iff.trans (and_congr_right fun first => ?_)
  rw [ofOccurrences_concat_sourceRoot (none.mp first)]
  rfl

/-- A first strategy at the end is the strategy of the draft. -/
theorem ofOccurrences_concat_strategy {value : Text} (first : values .strategy occurrences = []) :
    ofOccurrences (occurrences ++ [.setting .strategy value]) =
      { ofOccurrences occurrences with strategy := Strategy.ofName? value } := by
  simp [ofOccurrences, pieces, first]

/-- A strategy that is given is one that there is, so the draft has it. -/
theorem strategy_ofOccurrences_eq_none_iff (fit : Fit occurrences) :
    (ofOccurrences occurrences).strategy = none ↔ values .strategy occurrences = [] := by
  constructor
  · intro h
    cases hvalues : values .strategy occurrences with
    | nil => rfl
    | cons value rest =>
      have named : (Strategy.ofName? value).isSome = true :=
        (fit.settings .strategy rfl).good_of_mem value (by simp [hvalues])
      rw [ofOccurrences, hvalues] at h
      rw [show Strategy.ofName? value = none from h] at named
      cases named
  · intro h
    rw [ofOccurrences, h]
    rfl

/-- A strategy is kept if it fits. -/
theorem keep?_strategy_eq_some_iff (fit : Fit occurrences) (value : Text) :
    (ofOccurrences occurrences).keep? (.setting .strategy value) = some draft ↔
      Fit (occurrences ++ [.setting .strategy value]) ∧
        draft = ofOccurrences (occurrences ++ [.setting .strategy value]) := by
  have none := strategy_ofOccurrences_eq_none_iff fit
  rw [fit.concat_single_iff rfl, keep?, Except.toOption_eq_some_iff, and_assoc, ← none]
  refine setStrategy_eq_ok_iff.trans (and_congr_right fun first => ?_)
  rw [ofOccurrences_concat_strategy (none.mp first), Setting.Takes, Option.isSome_iff_exists]
  constructor
  · rintro ⟨strategy, named, rfl⟩
    exact ⟨⟨strategy, named⟩, by rw [named]⟩
  · rintro ⟨⟨strategy, named⟩, rfl⟩
    exact ⟨strategy, named, by rw [named]⟩

/-- The value of a list always fits, and adds its pieces at the end. -/
theorem keep?_list_eq_some_iff (fit : Fit occurrences) {setting : Setting} (value : Text)
    (list : setting.isList = true) :
    (ofOccurrences occurrences).keep? (.setting setting value) = some draft ↔
      Fit (occurrences ++ [.setting setting value]) ∧
        draft = ofOccurrences (occurrences ++ [.setting setting value]) := by
  have next : Fit (occurrences ++ [.setting setting value]) := fit.concat_list list
  rw [and_iff_right next, keep?, Except.toOption_eq_some_iff, eq_comm (a := draft)]
  cases setting with
  | sourceRoot => cases list
  | strategy => cases list
  | extensions => simp [set, ofOccurrences, pieces]
  | implicitFiles => simp [set, ofOccurrences, pieces]
  | excludeDirs => simp [set, ofOccurrences, pieces]

/-- One more occurrence is kept if it fits to those before. -/
theorem keep?_eq_some_iff (fit : Fit occurrences) (occurrence : Occurrence) :
    (ofOccurrences occurrences).keep? occurrence = some draft ↔
      Fit (occurrences ++ [occurrence]) ∧ draft = ofOccurrences (occurrences ++ [occurrence]) := by
  cases occurrence with
  | root value => exact keep?_root_eq_some_iff fit value
  | flag flag => exact keep?_flag_eq_some_iff fit flag
  | setting setting value =>
    cases setting with
    | sourceRoot => exact keep?_sourceRoot_eq_some_iff fit value
    | strategy => exact keep?_strategy_eq_some_iff fit value
    | extensions => exact keep?_list_eq_some_iff fit value rfl
    | implicitFiles => exact keep?_list_eq_some_iff fit value rfl
    | excludeDirs => exact keep?_list_eq_some_iff fit value rfl

/-- Occurrences are kept one by one if they fit together. A draft holds all that is asked of the
occurrences before, so whether one more fits can be decided from it. -/
theorem foldlM_keep?_eq_some_iff {draft : Draft} :
    occurrences.foldlM keep? empty = some draft ↔
      Fit occurrences ∧ draft = ofOccurrences occurrences := by
  induction occurrences using List.reverseRecOn generalizing draft with
  | nil =>
    show some empty = some draft ↔ Fit [] ∧ draft = empty
    simp [Fit.nil, eq_comm]
  | append_singleton occurrences occurrence ih =>
    -- the occurrences before the last one fit together too, and the draft they make is the one that
    -- the last one is kept in
    have last (before : Draft) : [occurrence].foldlM keep? before = before.keep? occurrence :=
      Option.bind_fun_some _
    rw [List.foldlM_append, Option.bind_eq_bind, Option.bind_eq_some_iff]
    constructor
    · rintro ⟨before, hbefore, hlast⟩
      obtain ⟨fit, rfl⟩ := ih.mp hbefore
      rw [last] at hlast
      exact (keep?_eq_some_iff fit occurrence).mp hlast
    · rintro ⟨fit, rfl⟩
      refine ⟨_, ih.mpr ⟨fit.of_append, rfl⟩, ?_⟩
      rw [last]
      exact (keep?_eq_some_iff fit.of_append occurrence).mpr ⟨fit, rfl⟩

/-! ### Finished drafts -/

/-- There is a conflict if both flags that exclude each other are given. That no flag is given twice
is needed, for one of them twice would look like both. -/
theorem conflict?_eq_none_iff {draft : Draft} (nodup : draft.flags.Nodup) :
    draft.conflict? = none ↔ ¬ (.verbose ∈ draft.flags ∧ .quiet ∈ draft.flags) := by
  unfold conflict?
  -- of the flags that are looked at there are two, each of them once at most, so the question is
  -- how many of them have been found
  generalize hfound : draft.flags.filter (fun flag => flag = .verbose ∨ flag = .quiet) = found
  have nodup : found.Nodup := hfound ▸ nodup.filter _
  have mem_iff (flag : Flag) :
      flag ∈ found ↔ flag ∈ draft.flags ∧ (flag = .verbose ∨ flag = .quiet) := by
    rw [← hfound, List.mem_filter, decide_eq_true_iff]
  have verbose : .verbose ∈ found ↔ .verbose ∈ draft.flags := by simp [mem_iff]
  have quiet : .quiet ∈ found ↔ .quiet ∈ draft.flags := by simp [mem_iff]
  rw [← verbose, ← quiet]
  match found with
  | [] => simp
  | [one] =>
    simp only [List.mem_singleton, true_iff]
    rintro ⟨rfl, h⟩
    cases h
  | first :: second :: rest =>
    have ne : first ≠ second := by
      rintro rfl
      simp at nodup
    have hfirst := ((mem_iff first).mp (by simp)).2
    have hsecond := ((mem_iff second).mp (by simp)).2
    simp only [reduceCtorEq, false_iff, Decidable.not_not, List.mem_cons]
    grind

end Draft

namespace Arguments

open Occurrence

/-- The arguments that occurrences make with a root. -/
def ofOccurrences (root : Text) (occurrences : List Occurrence) : Arguments where
  root := root
  sourceRoot := (values .sourceRoot occurrences).head?
  extensions := pieces .extensions occurrences
  implicitFiles := pieces .implicitFiles occurrences
  excludeDirs := pieces .excludeDirs occurrences
  strategy := ((values .strategy occurrences).head?.bind Strategy.ofName?).getD .index
  noDefaultImplicit := (flags occurrences).contains .noDefaultImplicit
  json := (flags occurrences).contains .json
  failOnUnused := (flags occurrences).contains .failOnUnused
  verbose := (flags occurrences).contains .verbose
  quiet := (flags occurrences).contains .quiet

/-- Occurrences, with the root that the environment holds, are enough for a run and not too much. -/
structure Accepted (rootVariable : Option Text) (occurrences : List Occurrence) (root : Text) :
    Prop where
  /-- They fit together. -/
  fit : Fit occurrences
  /-- Nobody asks for more and for less logging at once. -/
  no_conflict : ¬ (.verbose ∈ flags occurrences ∧ .quiet ∈ flags occurrences)
  /-- There is a root, given or from the environment. -/
  givenRoot?_eq : givenRoot? rootVariable occurrences = some root
  /-- The root is not empty. Of a given one `fit` says so already. -/
  root_ne_nil : root ≠ []

variable {rootVariable : Option Text} {occurrences : List Occurrence} {root : Text}
  {arguments : Arguments}

/-- A draft makes a run if no flags exclude each other and there is a root. -/
theorem finish_eq_ok_iff (fit : Fit occurrences) (given : Option Text) :
    Draft.finish { Draft.ofOccurrences occurrences with root := given } = .ok arguments ↔
      ¬ (.verbose ∈ flags occurrences ∧ .quiet ∈ flags occurrences) ∧
        ∃ root, given = some root ∧ arguments = ofOccurrences root occurrences := by
  have conflict :
      Draft.conflict? { Draft.ofOccurrences occurrences with root := given } = none ↔ _ :=
    Draft.conflict?_eq_none_iff fit.flags
  unfold Draft.finish
  rw [← show _ ↔ ¬ (.verbose ∈ flags occurrences ∧ .quiet ∈ flags occurrences) from conflict]
  cases Draft.conflict? { Draft.ofOccurrences occurrences with root := given } with
  | some flags => simp
  | none =>
    cases given with
    | none => simp
    | some root => simp [ofOccurrences, Draft.ofOccurrences, eq_comm]

/-- The root is given, or else it is the one that the environment holds. An empty root is refused
from either, and one in the environment is not looked at if one is given. -/
theorem withVariable_eq_ok_iff (fit : Fit occurrences) {draft : Draft} :
    (Draft.ofOccurrences occurrences).withVariable rootVariable = .ok draft ↔
      givenRoot? rootVariable occurrences ≠ some [] ∧
        draft = { Draft.ofOccurrences occurrences with
          root := givenRoot? rootVariable occurrences } := by
  unfold givenRoot? Draft.withVariable
  have root : (Draft.ofOccurrences occurrences).root = (roots occurrences).head? := rfl
  rw [root]
  match hroots : roots occurrences, rootVariable with
  | [], none => simp [Draft.ofOccurrences, hroots, eq_comm]
  | [], some value =>
    by_cases empty : value = []
    · simp [Draft.setRoot, empty]
    · simp [Draft.setRoot, empty, eq_comm]
  | value :: rest, _ =>
    have nonempty := fit.roots.good_of_mem value (by simp [hroots])
    simp [Draft.ofOccurrences, hroots, nonempty, eq_comm]

/-- What is read of arguments, if anything is: the draft that is settled at the end, finished. The
kinds of errors are left aside here. -/
theorem toOption_read (rootVariable : Option Text) (args : List Text) :
    (read rootVariable args).toOption =
      ((args.foldlM ArgumentReader.read .start).toOption.bind ArgumentReader.settled?).bind
        fun draft => ((draft.withVariable rootVariable).bind Draft.finish).toOption := by
  unfold read
  cases args.foldlM ArgumentReader.read .start with
  | error interruption => rfl
  | ok reader =>
    show _ = reader.settle.toOption.bind _
    dsimp only
    cases reader.settle with
    | error error => rfl
    | ok draft =>
      show _ = ((draft.withVariable rootVariable).bind Draft.finish).toOption
      rw [show (Except.ok draft).bind (·.withVariable rootVariable) =
        draft.withVariable rootVariable from rfl]
      cases (draft.withVariable rootVariable).bind Draft.finish <;> rfl

/-- Occurrences are accepted in every order. -/
theorem Accepted.of_regroups {others : List Occurrence} (same : Regroups occurrences others)
    (h : Accepted rootVariable occurrences root) : Accepted rootVariable others root where
  fit := same.fit h.fit
  no_conflict := by
    rw [same.mem_flags_iff, same.mem_flags_iff]
    exact h.no_conflict
  givenRoot?_eq := by
    rw [givenRoot?, same.roots_eq h.fit]
    exact h.givenRoot?_eq
  root_ne_nil := h.root_ne_nil

/-- Which arguments that are made of occurrences are read, and as what. The right side does not
mention the arguments, only the occurrences that they are written for. -/
theorem read_eq_ok_iff {args : List Text} (written : AreWritten occurrences args) :
    read rootVariable args = .ok arguments ↔
      ∃ root, Accepted rootVariable occurrences root ∧
        arguments = ofOccurrences root occurrences := by
  have kept : (args.foldlM ArgumentReader.read .start).toOption.bind ArgumentReader.settled? =
      occurrences.foldlM Draft.keep? .empty :=
    ArgumentReader.settled?_foldlM_read written ⟨nofun, rfl⟩
  -- the reader is gone from here on: what is left are drafts
  rw [← Except.toOption_eq_some_iff, toOption_read, kept, Option.bind_eq_some_iff]
  simp only [Draft.foldlM_keep?_eq_some_iff, Except.toOption_bind, Option.bind_eq_some_iff,
    Except.toOption_eq_some_iff]
  constructor
  · rintro ⟨_, ⟨fit, rfl⟩, draft, hvariable, hfinish⟩
    obtain ⟨nonempty, rfl⟩ := (withVariable_eq_ok_iff fit).mp hvariable
    obtain ⟨noConflict, root, given, rfl⟩ := (finish_eq_ok_iff fit _).mp hfinish
    refine ⟨root, ⟨fit, noConflict, given, ?_⟩, rfl⟩
    rintro rfl
    exact nonempty given
  · rintro ⟨root, accepted, rfl⟩
    have given := accepted.givenRoot?_eq
    refine ⟨_, ⟨accepted.fit, rfl⟩, _, (withVariable_eq_ok_iff accepted.fit).mpr ⟨?_, rfl⟩,
      (finish_eq_ok_iff accepted.fit _).mpr ⟨accepted.no_conflict, root, given, rfl⟩⟩
    rw [given]
    exact fun h => accepted.root_ne_nil (Option.some_inj.mp h)

end Arguments

end Orphans
